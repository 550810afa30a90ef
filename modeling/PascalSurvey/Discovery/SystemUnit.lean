/-
PascalSurvey/Discovery/SystemUnit.lean

Units that come with the compiler or with common component libraries.  They are not looked
for among the files of a project.
-/
import PascalSurvey.Text.Basic

namespace PascalSurvey.Discovery

/-- Names of library units and of namespaces with library units. -/
def systemNames : List Text := Text.ofStrings [
  -- Namespaces
  "System", "Winapi", "Vcl", "FMX", "Data", "Datasnap", "Soap", "Xml", "Web", "REST",
  "FireDAC", "IBX", "Posix", "Macapi", "Androidapi", "iOSapi", "Bde", "Xml.Win",
  -- Units from before there were namespaces
  "Windows", "Messages", "SysUtils", "Classes", "Forms", "Controls", "Graphics", "Dialogs",
  "StdCtrls", "ExtCtrls", "ComCtrls", "Buttons", "Grids", "DBGrids", "DBCtrls", "Menus",
  "ActnList", "ImgList", "Variants", "Math", "StrUtils", "DateUtils", "Types", "TypInfo",
  "IniFiles", "Registry", "ShellAPI", "ShlObj", "ActiveX", "ComObj", "Printers", "Clipbrd",
  "Contnrs", "SyncObjs", "Masks", "MMSystem", "WinSock", "XPMan",
  -- Databases
  "DB", "DBTables", "ADODB", "DBClient", "Provider", "MidasLib", "SqlExpr", "IBDatabase",
  "IBQuery", "IBCustomDataSet", "IBTable",
  -- Component libraries
  "Jvcl", "ppReport", "DBAccess", "MemDS", "Zeos", "ZConnection", "ZDataset", "pFIBDatabase",
  "pFIBDataSet", "FIBDatabase", "FIBQuery"]

/-- Beginnings of the unit names of component libraries. -/
def vendorStems : List Text := ["Id", "Jcl", "Jv", "cx", "dx", "Rz", "frx", "Uni"]

/-- Whether a unit has a name or lies in the namespace of that name, in any case. -/
def isWithin (unitName name : Text) : Bool :=
  Text.eqFold unitName name ||
  match Text.afterFold? name unitName with
  | some rest => rest.head? = some Ascii.dot
  | none => false

/-- Whether a unit name is a stem, in this very case, and goes on with a capital letter. -/
def hasStem (unitName stem : Text) : Bool :=
  ((Text.after? stem unitName).bind List.head?).any Ascii.isUpper

/-- Whether a unit comes from a library; `extra` holds further names. -/
def isSystemUnit (unitName : Text) (extra : List Text) : Bool :=
  (systemNames ++ extra).any (isWithin unitName) || vendorStems.any (hasStem unitName)

end PascalSurvey.Discovery
