import BracketTree.Rules
import BracketTree.Toml.Printer

/-! Rule sets as TOML. Written, a rule set names all its parts; read, a part may be missing, and what else the
document holds is passed over. -/

namespace BracketTree.Rules

/-- A rule set as a document: the lists come first, because the pairs have a heading. -/
def toToml (r : Rules) : String :=
  String.ofList <|
    Toml.writeEntry "extra" (Toml.writeTexts r.extra)
      ++ Toml.writeEntry "strip" (Toml.writeTexts r.strip)
      ++ ['\n', '['] ++ Toml.writeKey "bounds" ++ [']', '\n']
      ++ r.bounds.entries.flatMap fun e => Toml.writeEntry e.1 (Toml.writeText e.2)

def boundsOfToml? (v : Toml.Value) : Option (StringMap String) := do
  let es ← (← v.entries?).mapM fun e => e.2.text?.map (e.1, ·)
  some (.ofList es)

def part {α : Type} (t : Toml.Table) (name : String) (missing : α) (read : Toml.Value → Option α) : Option α :=
  match t.lookup name with
  | some v => read v
  | none => some missing

/-- Reads a rule set. No number in the document may be too large, wherever it stands. -/
def ofToml? (t : Toml.Table) : Option Rules := do
  let r : Rules := {}
  if Toml.Value.areSoundEntries t then
    some {
      bounds := ← part t "bounds" r.bounds boundsOfToml?
      extra := ← part t "extra" r.extra Toml.Value.texts?
      strip := ← part t "strip" r.strip Toml.Value.texts? }
  else none

end BracketTree.Rules
