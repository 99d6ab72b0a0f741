import BracketTree.Inputs
import BracketTree.Parser
import BracketTree.Rules.File

/-! Why a command fails, and how that is told: in one line, under which there may be another that says what lies
below. -/

namespace BracketTree

def FileSystem.Error.message : FileSystem.Error → String
  | missing => "nothing is there"
  | notDirectory => "the path goes on from a file"
  | directory => "a directory is there"
  | badName => "no name is like that"
  | notText => "the file is not a text"

def Rules.FileError.message : Rules.FileError → String
  | missing path => "rules file not found: " ++ path
  | inaccessible path e => "I/O error on " ++ path ++ ": " ++ e.message
  | malformed path =>
    (match Rules.Format.ofPath path with | .json => "invalid JSON in " | .toml => "invalid TOML in ") ++ path

inductive Failure where
  | config (path : String)
  | inputs (error : Inputs.Error)
  | ruleFile (error : Rules.FileError)
  | refusedRules (refusal : Parser.Refusal)
  /-- The rules have this many errors and warnings. -/
  | invalidRules (errors warnings : Nat)
  | unreadable (path : String) (error : FileSystem.Error)
  | ungrouped (path : String) (error : Grouping.Error)
  | uncreated (path : String) (error : FileSystem.Error)
  | unwritten (path : String) (error : FileSystem.Error)
  | taken (path : String)
deriving DecidableEq, Repr

namespace Failure

def message : Failure → String
  | config path => "Configuration error: " ++ path
  | inputs e => e.message
  | ruleFile e => e.message
  | refusedRules r => "Invalid rules: " ++ r.message
  | invalidRules errors warnings =>
    "Invalid rules: " ++ toString errors ++ " error(s), " ++ toString warnings ++ " warning(s)"
  | unreadable path _ => "Failed to read file: " ++ path
  | ungrouped path _ => "Failed to parse " ++ path
  | uncreated path _ => "Failed to create " ++ path
  | unwritten path _ => "Failed to write to " ++ path
  | taken path => path ++ " already exists (use --force to overwrite)"

/-- What lies below a failure. -/
def cause? : Failure → Option (FileSystem.Error ⊕ Grouping.Error)
  | unreadable _ e | uncreated _ e | unwritten _ e => some (.inl e)
  | ungrouped _ e => some (.inr e)
  | _ => none

end Failure
end BracketTree
