/-
PascalSurvey/Discovery/SearchPath.lean

Looking for the file of a unit: the root of the project first, then the search paths in
order.  In each directory a file whose name is spelled exactly comes before one that differs
in letter case, and each of the two is looked for by one extension after the other.
-/
import PascalSurvey.FileTree
import PascalSurvey.Text.Blank

namespace PascalSurvey.Discovery

/-- The directory of a search path.  A blank one, and one with a variable that has no value,
names none. -/
def searchDirectory? (root : Path) (entry : Text) : Option Path :=
  let entry := Text.forwardSlashes (Text.trim entry)
  if entry.isEmpty || Text.contains "$(" entry then none else some (Path.join root entry)

/-- Adds a directory unless it is there, perhaps in another spelling. -/
def addDirectory (dirs : List Path) (dir : Path) : List Path :=
  if dirs.any (Path.same dir) then dirs else dirs ++ [dir]

/-- The directories in which units are looked for. -/
def searchDirectories (root : Path) (searchPaths : List Text) : List Path :=
  (searchPaths.filterMap (searchDirectory? root)).foldl addDirectory [root]

/-- The exactly spelled file of a unit in a directory. -/
def exactFile? (tree : FileTree) (dir : Path) (names : List Text) : Option Path :=
  (names.map (Path.join dir)).find? tree.isFile

/-- A file of a directory that has one of the names in any case; an earlier name counts
before a later one. -/
def foldedFile? (tree : FileTree) (dir : Path) (names : List Text) : Option Path :=
  match tree.list dir with
  | .error _ => none
  | .ok entries =>
    let files := entries.filter tree.isFile
    names.findSome? fun name =>
      files.find? fun file => (Path.nameText? file).any (Text.eqFold · name)

/-- The file of a unit in one directory. -/
def fileIn? (tree : FileTree) (extensions : List Text) (unitName : Text) (dir : Path) :
    Option Path :=
  let names := extensions.map (unitName ++ ·)
  (exactFile? tree dir names).or (foldedFile? tree dir names)

/-- The file of a unit in the first directory that has one. -/
def findFile? (tree : FileTree) (extensions : List Text) (dirs : List Path) (unitName : Text) :
    Option Path :=
  dirs.findSome? (fileIn? tree extensions unitName)

end PascalSurvey.Discovery
