import BracketTree.FileSystem
import BracketTree.Rules.Format

/-! Rule sets in files. The name of a file says in which format it is kept. -/

namespace BracketTree.Rules

inductive FileError where
  | missing (path : String)
  | inaccessible (path : String) (error : FileSystem.Error)
  | malformed (path : String)
deriving DecidableEq, Repr

def load (fs : FileSystem) (path : String) : Except FileError Rules :=
  match fs.readText path with
  | .error .missing => .error (.missing path)
  | .error e => .error (.inaccessible path e)
  | .ok text =>
    match read? text (.ofPath path) with
    | some r => .ok r
    | none => .error (.malformed path)

/-- Saves rules to a file; with what comes of it stands the file system that is left. -/
def save (fs : FileSystem) (path : String) (r : Rules) : Except FileError Unit × FileSystem :=
  match fs.writeText path (r.render (.ofPath path)) with
  | .error e => (.error (.inaccessible path e), fs)
  | .ok fs' => (.ok (), fs')

/-- Loads a rule file and saves what was loaded, so that the file says in full what it meant. -/
def normalize (fs : FileSystem) (path : String) : Except FileError Rules × FileSystem :=
  match load fs path with
  | .error e => (.error e, fs)
  | .ok r =>
    let saved := save fs path r
    (saved.1.map fun _ => r, saved.2)

end BracketTree.Rules
