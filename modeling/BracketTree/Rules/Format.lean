import BracketTree.Path
import BracketTree.Rules.Json
import BracketTree.Rules.Toml

/-! The two formats rule sets are kept in. -/

namespace BracketTree.Rules

inductive Format where
  | json
  | toml
deriving DecidableEq, Repr

namespace Format

/-- The format of the file at a path: JSON, unless the name says otherwise. -/
def ofPath (path : String) : Format :=
  if (Path.extension? path).any (·.toLower = "toml") then toml else json

end Format

def render (r : Rules) : Format → String
  | .json => r.toJson.render .pretty
  | .toml => r.toToml

def read? (text : String) : Format → Option Rules
  | .json => do ofJson? (← Json.read? text)
  | .toml => do ofToml? (← Toml.Table.read? text)

end BracketTree.Rules
