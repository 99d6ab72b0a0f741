import BracketTree.Command.Outcome
import BracketTree.Command.Reach
import BracketTree.CommandLine

/-! The program: it takes up the part of the disk that a command looks at, works out what comes of the command,
and brings the disk up to date. -/

namespace BracketTree.Main

def diskPath (l : Location) : String := "/" ++ "/".intercalate l

/-- Takes up what the disk has at a place; what cannot be read is not there. -/
def takeUp (fs : FileSystem) (l : Location) : IO FileSystem := do
  let p := (← IO.currentDir) / diskPath l
  if (fs.find? l).isSome || !(← p.pathExists) then return fs
  else if ← p.isDir then return fs.put l .directory
  else
    try return fs.put l (.file (← IO.FS.readBinFile p))
    catch _ => return fs

partial def takeUpBelow (fs : FileSystem) (l : Location) (depth : Depth) : IO FileSystem := do
  let p := (← IO.currentDir) / diskPath l
  match depth.below? with
  | none => return fs
  | some rest =>
    if !(← p.isDir) then return fs
    (← p.readDir).foldlM (fun fs e => do
      let below := l ++ [e.fileName]
      takeUpBelow (← takeUp fs below) below rest) fs

def takeUpReach (fs : FileSystem) (r : Reach) : IO FileSystem := do
  let ls := r.places fs.current
  takeUpBelow (← ls.foldlM takeUp fs) (ls.getLast?.getD fs.current) r.depth

/-- The file system as far as a command looks at it. -/
def picture (c : Command) : IO FileSystem := do
  let current := (Path.parts (← IO.currentDir).toString).filter (· ≠ "")
  let fs ← takeUpReach { current } { path := diskPath current }
  let fs ← c.reach.foldlM takeUpReach fs
  match c with
  | .parse p =>
    match p.configuration fs with
    | .ok config => (Command.configuredReach config).foldlM takeUpReach fs
    | .error _ => return fs
  | _ => return fs

/-- Writes the files that are not as they were. -/
def bringUpToDate (before after : FileSystem) : IO Unit :=
  after.entries.forM fun e => do
    match e.2 with
    | .file content => if before.find? e.1 ≠ some e.2 then IO.FS.writeBinFile (diskPath e.1) content
    | .directory => pure ()

def causeText : FileSystem.Error ⊕ Grouping.Error → String
  | .inl e => e.message
  | .inr e => e.message

def failureText (e : Failure) : String :=
  "Error: " ++ e.message ++
    match e.cause? with
    | some c => "\n\nCaused by:\n    " ++ causeText c
    | none => ""

def usage : String :=
  "Split text on rule tokens and group it into nested trees\n\nUsage: nestree <COMMAND>\n\nCommands:\n"
    ++ "  parse           Parse files [alias: process]\n  validate        Validate a rule file\n"
    ++ "  generate-rules  Write a rule file to start from\n  help            Print this message"

def stopped : CommandLine.Stop → IO UInt32
  | .help => do IO.println usage; return 0
  | .version => do IO.println "nestree"; return 0
  | _ => do IO.eprintln usage; return 2

def perform (c : Command) : IO UInt32 := do
  let before ← picture c
  let o := c.run .unbounded .inTurn before
  bringUpToDate before o.files
  IO.print o.stdout
  match o.failure with
  | none => return 0
  | some e => do IO.eprintln (failureText e); return 1

end BracketTree.Main

def main (args : List String) : IO UInt32 := do
  match BracketTree.CommandLine.read (← IO.getEnv "NESTREE_RULES") args with
  | .error s => BracketTree.Main.stopped s
  | .ok c => BracketTree.Main.perform c
