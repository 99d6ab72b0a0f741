import BracketTree.Path

/-! File systems as values. A place is the list of names that lead to it from the root, and what is there is a
file with its bytes or a directory. A path is followed part by part, and each part can only be taken in a
directory; so a path that ends with a slash, or goes on from a file, leads nowhere unless a directory is
there. -/

namespace BracketTree

/-- The names that lead to a place from the root. -/
abbrev Location := List String

namespace FileSystem

inductive Entry where
  | file (content : ByteArray)
  | directory

instance : DecidableEq Entry
  | .file a, .file b =>
    match a.decEq b with
    | isTrue h => isTrue (h ▸ rfl)
    | isFalse h => isFalse fun e => h (Entry.file.inj e)
  | .file _, .directory => isFalse nofun
  | .directory, .file _ => isFalse nofun
  | .directory, .directory => isTrue rfl

inductive Error where
  | missing
  /-- The path goes on from a file. -/
  | notDirectory
  | directory
  | badName
  | notText
deriving DecidableEq, Repr

end FileSystem

/-- What is at each place, and the directory from which paths start. The root is always a directory. -/
structure FileSystem where
  entries : List (Location × FileSystem.Entry) := []
  current : Location := []

namespace FileSystem

def find? (fs : FileSystem) (l : Location) : Option Entry :=
  if l = [] then some .directory else fs.entries.lookup l

def put (fs : FileSystem) (l : Location) (e : Entry) : FileSystem :=
  if (fs.entries.lookup l).isSome then
    { fs with entries := fs.entries.map fun d => if d.1 = l then (l, e) else d }
  else { fs with entries := fs.entries ++ [(l, e)] }

def isBadName (name : String) : Bool := 255 < name.utf8ByteSize

/-- Where the parts of a path lead from a place on. At the place that the last name leads to, there may be
nothing. -/
def walk (fs : FileSystem) : Location → (parts : List String) → Except Error Location
  | here, [] => .ok here
  | here, part :: parts =>
    match fs.find? here with
    | none => .error .missing
    | some (.file _) => .error .notDirectory
    | some .directory =>
      if part = "" || part = "." then walk fs here parts
      else if part = ".." then walk fs here.dropLast parts
      else if isBadName part then .error .badName
      else walk fs (here ++ [part]) parts

def isBadPath (path : String) : Bool := path.toList.contains '\x00' || 4096 ≤ path.utf8ByteSize

def locate (fs : FileSystem) (path : String) : Except Error Location :=
  if path = "" then .error .missing
  else if isBadPath path then .error .badName
  else fs.walk (if Path.isAbsolute path then [] else fs.current) (Path.parts path)

def open? (fs : FileSystem) (path : String) : Except Error Entry := do
  match fs.find? (← fs.locate path) with
  | some e => .ok e
  | none => .error .missing

def isDirectory (fs : FileSystem) (path : String) : Bool :=
  match fs.open? path with
  | .ok .directory => true
  | _ => false

def isFile (fs : FileSystem) (path : String) : Bool :=
  match fs.open? path with
  | .ok (.file _) => true
  | _ => false

def contains (fs : FileSystem) (path : String) : Bool := fs.isDirectory path || fs.isFile path

def read (fs : FileSystem) (path : String) : Except Error ByteArray := do
  match ← fs.open? path with
  | .file content => .ok content
  | .directory => .error .directory

def readText (fs : FileSystem) (path : String) : Except Error String := do
  match String.fromUTF8? (← fs.read path) with
  | some text => .ok text
  | none => .error .notText

/-- Makes a text the content of the file a path leads to. If nothing is there, the file is created. -/
def writeText (fs : FileSystem) (path text : String) : Except Error FileSystem := do
  let l ← fs.locate path
  match fs.find? l with
  | some .directory => .error .directory
  | _ => .ok (fs.put l (.file text.toUTF8))

def names (fs : FileSystem) (l : Location) : List String :=
  (fs.entries.filterMap fun e => if e.1.dropLast = l then e.1.getLast? else none).mergeSort (· ≤ ·)

def list (fs : FileSystem) (path : String) : List String :=
  match fs.locate path with
  | .ok l => fs.names l
  | .error _ => []

end FileSystem
end BracketTree
