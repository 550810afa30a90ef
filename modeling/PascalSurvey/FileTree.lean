/-
PascalSurvey/FileTree.lean

A file system as a value: the files and directories below its root, and the working directory
among them.  An entry is found under the list of names that leads to it from the root, so
listing a directory and walking it are filters on the list of entries.  In which order they
give what they find is up to the system (`ListingOrder`).

A path is followed one component at a time, an absolute one from the root and any other one
from the working directory.  Every component but the last must name a directory; `..` leads
back to where the one before it came from, and from the root to the root.

A name is a list of bytes.  Nothing here asks whether it is UTF-8.
-/
import PascalSurvey.Path

namespace PascalSurvey

/-- Why a path cannot be used. -/
inductive FileError where
  | notFound
  | notDirectory
  | isDirectory
  /-- Any other error, with its text. -/
  | other (text : Text)
  deriving Repr, DecidableEq

/-- The text of the system for an error. -/
def FileError.message : FileError → Text
  | .notFound => "No such file or directory (os error 2)"
  | .notDirectory => "Not a directory (os error 20)"
  | .isDirectory => "Is a directory (os error 21)"
  | .other text => text

/-- What stands under a path. -/
inductive Node where
  | file (bytes : List UInt8)
  | directory
  deriving Repr, DecidableEq

/-- The order in which a system gives the paths that it lists.  Nothing is known of it but that
no path is lost and none is given twice. -/
structure ListingOrder where
  /-- The entries of a directory, in the order of the system. -/
  listing : (dir : Path) → List Path → List Path
  /-- The files in and below a directory, in the order of the system. -/
  walking : (dir : Path) → List Path → List Path
  listing_perm : ∀ dir entries, (listing dir entries).Perm entries
  walking_perm : ∀ dir files, (walking dir files).Perm files

/-- The order in which the entries were put. -/
def ListingOrder.asPut : ListingOrder where
  listing _ entries := entries
  walking _ files := files
  listing_perm _ entries := .refl entries
  walking_perm _ files := .refl files

/-- The files and directories of a system. -/
structure FileTree where
  /-- What there is below the root, under the names that lead to it. -/
  entries : List (List Text × Node)
  /-- The names that lead from the root to the working directory. -/
  home : List Text := []
  order : ListingOrder := .asPut

namespace FileTree

/-- Nothing but a working directory. -/
def empty : FileTree := { entries := [(["home"], .directory)], home := ["home"] }

/-- What stands under a list of names.  The empty list is the root. -/
def find? (t : FileTree) (names : List Text) : Option Node :=
  if names.isEmpty then some .directory else t.entries.lookup names

/-! ### Building -/

/-- Puts a node under a list of names, in place of what was there. -/
def put (t : FileTree) (names : List Text) (node : Node) : FileTree :=
  { t with entries := t.entries.filter (fun (k, _) => k != names) ++ [(names, node)] }

/-- Makes a directory unless something stands there. -/
def makeDirectory (t : FileTree) (names : List Text) : FileTree :=
  if (t.find? names).isSome then t else t.put names .directory

/-- Makes the directories that lead to a list of names. -/
def makeParents (t : FileTree) (names : List Text) : FileTree :=
  (List.range names.length).foldl (fun t n => t.makeDirectory (names.take n)) t

/-- The names of a path without `.` and `..` components. -/
def namesOf (p : Path) : List Text :=
  (Path.components p).filterMap fun
    | .named n => some n
    | _ => none

/-- The names from the root under which something is put at a path. -/
def namesAt (t : FileTree) (p : Path) : List Text :=
  if Path.isAbsolute p then namesOf p else t.home ++ namesOf p

def addFile (t : FileTree) (p : Path) (bytes : List UInt8) : FileTree :=
  (t.makeParents (t.namesAt p)).put (t.namesAt p) (.file bytes)

def addDirectory (t : FileTree) (p : Path) : FileTree :=
  (t.makeParents (t.namesAt p)).makeDirectory (t.namesAt p)

/-! ### Following paths -/

/-- Follows components from a directory; `place` holds the names that lead to it, last first. -/
def follow (t : FileTree) (place : List Text) : List Path.Component →
    Except FileError (List Text)
  | [] => .ok place
  | c :: rest =>
    match t.find? place.reverse with
    | none => .error .notFound
    | some (.file _) => .error .notDirectory
    | some .directory => match c with
      | .root => t.follow [] rest
      | .current => t.follow place rest
      | .parent => t.follow place.tail rest
      | .named name =>
        match t.find? (name :: place).reverse with
        | none => .error .notFound
        | some _ => t.follow (name :: place) rest

/-- The way from the root to what a path names.  A relative path goes on from the working
directory, which has to be one. -/
def wayTo (t : FileTree) (p : Path) : List Path.Component :=
  if Path.isAbsolute p then Path.components p
  else t.home.map .named ++ .current :: Path.components p

/-- The place that a path leads to. -/
def placeOf (t : FileTree) (p : Path) : Except FileError (List Text) := t.follow [] (t.wayTo p)

/-- Whether a spelling ends so that it can only mean a directory. -/
def wantsDirectory (p : Path) : Bool :=
  p.getLast? = some Ascii.slash || Text.endsWith p "/."

/-- The names under which a path is found, and what stands there. -/
def locate (t : FileTree) (p : Path) : Except FileError (List Text × Node) :=
  if p.isEmpty then .error .notFound
  else do
    let place ← t.placeOf p
    match t.find? place.reverse with
    | none => .error .notFound
    | some (.file bytes) =>
      if wantsDirectory p then .error .notDirectory else .ok (place.reverse, .file bytes)
    | some .directory => .ok (place.reverse, .directory)

def exists? (t : FileTree) (p : Path) : Bool :=
  match t.locate p with
  | .ok _ => true
  | .error _ => false

def isFile (t : FileTree) (p : Path) : Bool :=
  match t.locate p with
  | .ok (_, .file _) => true
  | _ => false

/-- The bytes of a file. -/
def read (t : FileTree) (p : Path) : Except FileError (List UInt8) :=
  match t.locate p with
  | .ok (_, .file bytes) => .ok bytes
  | .ok (_, .directory) => .error .isDirectory
  | .error e => .error e

/-! ### Listing -/

/-- The name of an entry that lies directly in a directory. -/
def childName? (place names : List Text) : Option Text :=
  if names.dropLast = place then names.getLast? else none

/-- The paths of the entries in a directory. -/
def list (t : FileTree) (p : Path) : Except FileError (List Path) :=
  match t.locate p with
  | .ok (place, .directory) =>
    .ok (t.order.listing p
      (t.entries.filterMap fun (names, _) => (childName? place names).map (Path.join p)))
  | .ok (_, .file _) => .error .notDirectory
  | .error e => .error e

/-- The names of an entry below a directory, as seen from it. -/
def namesBelow? (place names : List Text) : Option (List Text) :=
  if names.take place.length = place then some (names.drop place.length) else none

/-- The paths of all files in and below a directory; a plain file is found at itself. -/
def walk (t : FileTree) (p : Path) : List Path :=
  match t.locate p with
  | .ok (place, .directory) =>
    t.order.walking p (t.entries.filterMap fun (names, node) => match node with
      | .file _ => (namesBelow? place names).map fun below => below.foldl Path.join p
      | .directory => none)
  | .ok (_, .file _) => [p]
  | .error _ => []

end FileTree
end PascalSurvey
