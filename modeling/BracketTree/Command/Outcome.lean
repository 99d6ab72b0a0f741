import BracketTree.Command
import BracketTree.Command.Workers

/-! What comes of a command in a file system: what it writes to the standard output, why it fails if it does, and what
it leaves behind. The stages of a command follow one another, and the first that fails decides: what it would take to
write something is all done before the writing begins. -/

namespace BracketTree

structure Outcome where
  stdout : String := ""
  failure : Option Failure := none
  files : FileSystem

namespace Command

/-- The configuration that a command names, or the one in which nothing is said. -/
def Parse.configuration (c : Parse) (fs : FileSystem) : Except Failure Config :=
  match c.config with
  | none => .ok {}
  | some path =>
    match (fs.readText path).toOption.bind Config.read? with
    | some config => .ok config
    | none => .error (.config path)

/-- Loads the rules at a path, if there is one, and writes them back in full if they are to persist. -/
def loadRules (fs : FileSystem) (path : Option String) (persist : Bool) :
    Except Rules.FileError Rules × FileSystem :=
  match path with
  | none => (.ok {}, fs)
  | some p => if persist then Rules.normalize fs p else (Rules.load fs p, fs)

def readInput (fs : FileSystem) (path : String) : Except Failure String :=
  (fs.readText path).mapError (.unreadable path)

def parseFile (fs : FileSystem) (p : Parser) (path : String) : Except Failure (String × Tree) := do
  let t ← (p.parse (← readInput fs path)).mapError (.ungrouped path)
  .ok (path, t)

def parseFiles (w : Workers) (threads : Nat) (fs : FileSystem) (p : Parser) (paths : List String) :
    Except Failure Report :=
  w.gather threads (paths.map (parseFile fs p))

def report (compiler : Vocabulary.Compiler) (w : Workers) (fs : FileSystem) (s : Settings) (rules : Rules)
    (paths : List String) : Except Failure Report := do
  let p ← (Parser.ofChecked compiler rules (.ofStrict s.strict) s.strictRules).mapError .refusedRules
  parseFiles w s.threads fs p paths

def deliver (fs : FileSystem) (output text : String) : Outcome :=
  if output = "-" then { stdout := text, files := fs }
  else
    match fs.writeText output text with
    | .ok files => { files }
    | .error e => { failure := some (.uncreated output e), files := fs }

def Parse.prepare (c : Parse) (fs : FileSystem) : Except Failure (Settings × List String) := do
  let s := c.settings (← c.configuration fs)
  .ok (s, ← (Inputs.resolve fs c.inputs).mapError .inputs)

def Parse.conclude (c : Parse) (s : Settings) (fs : FileSystem) : Except Failure Report → Outcome
  | .error e => { failure := some e, files := fs }
  | .ok r => deliver fs c.output (r.render s.format)

/-- Parses the input files and writes a report on them. -/
def Parse.run (c : Parse) (compiler : Vocabulary.Compiler) (w : Workers) (fs : FileSystem) : Outcome :=
  match c.prepare fs with
  | .error e => { failure := some e, files := fs }
  | .ok (s, paths) =>
    let loaded := loadRules fs s.rules s.persistRules
    match loaded.1 with
    | .error e => { failure := some (.ruleFile e), files := loaded.2 }
    | .ok rules => c.conclude s loaded.2 (report compiler w loaded.2 s rules paths)

def summary (r : Rules) : String :=
  "✓ Rules are valid\n  Bounds: " ++ toString r.bounds.size ++ "\n  Extra:  " ++ toString r.extra.length
    ++ "\n  Strip:  " ++ toString r.strip.length ++ "\n"

def verdict? (issues : List Rules.Issue) (strict : Bool) : Option Failure :=
  let errors := issues.countP (·.severity = .error)
  let warnings := issues.length - errors
  if 0 < errors || (strict && 0 < warnings) then some (.invalidRules errors warnings) else none

def Validate.run (c : Validate) (fs : FileSystem) : Outcome :=
  let head := "Validating rules: " ++ c.rules ++ "\n"
  match Rules.load fs c.rules with
  | .error e => { stdout := head, failure := some (.ruleFile e), files := fs }
  | .ok r =>
    let head := head ++ String.join (r.issues.map fun i => "  " ++ i.message ++ "\n")
    match verdict? r.issues c.strict with
    | some e => { stdout := head ++ "✗ Rules are invalid\n", failure := some e, files := fs }
    | none => { stdout := head ++ summary r, files := fs }

def template : Rules :=
  { bounds := (∅ : StringMap String).insert "(" ")", extra := ["-", "+", "*", "/", "%"], strip := ["\n", " "] }

def nextSteps (path : String) : String :=
  "✓ Rule template written to " ++ path ++ "\n\nNext steps:\n1. Edit the bounds, extra and strip tokens\n"
    ++ "2. Validate your rules:\n   nestree validate --rules " ++ path ++ "\n3. Use them for parsing:\n"
    ++ "   nestree parse input.txt --rules " ++ path ++ "\n"

def Generate.run (c : Generate) (fs : FileSystem) : Outcome :=
  if fs.contains c.output && !c.force then { failure := some (.taken c.output), files := fs }
  else
    match fs.writeText c.output (template.render (.ofPath c.output)) with
    | .ok files => { stdout := nextSteps c.output, files }
    | .error e => { failure := some (.unwritten c.output e), files := fs }

def run (c : Command) (compiler : Vocabulary.Compiler) (w : Workers) (fs : FileSystem) : Outcome :=
  match c with
  | .parse c => c.run compiler w fs
  | .validate c => c.run fs
  | .generate c => c.run fs

end Command
end BracketTree
