import BracketTree.Command
import BracketTree.CommandLine.Grammar

/-! The command line: a command and its arguments. -/

namespace BracketTree.CommandLine

def pathValue {α : Type} (set : String → α → α) : Use α :=
  .value fun v a => if v = "" then .error .badValue else .ok (set v a)

/-- A number of threads: digits, before which a plus may stand, up to what fits into 64 bits. -/
def threads? (v : String) : Option Nat :=
  let ds := match v.toList with | '+' :: ds => ds | ds => ds
  let n := ds.foldl (fun n c => 10 * n + (c.toNat - '0'.toNat)) 0
  if !ds.isEmpty && ds.all Char.isDigit && n < UInt64.size then some n else none

def helpSwitch {α : Type} : Switch α := { name := "help", letter := some 'h', use := .help }

def parseGrammar : Grammar Command.Parse where
  switches := [
    { name := "rules", letter := some 'r', use := pathValue fun v c => { c with rules := some v } },
    { name := "output", letter := some 'o', use := pathValue fun v c => { c with output := v } },
    { name := "format", letter := some 'f'
      use := .value fun v c =>
        match Report.Format.ofName? v with
        | some f => .ok { c with format := some f }
        | none => .error .badValue },
    { name := "strict", use := .flag fun c => { c with strict := true } },
    { name := "strict-rules", use := .flag fun c => { c with strictRules := true } },
    { name := "no-persist", use := .flag fun c => { c with noPersist := true } },
    { name := "threads", letter := some 't'
      use := .value fun v c =>
        match threads? v with
        | some n => .ok { c with threads := some n }
        | none => .error .badNumber },
    { name := "config", letter := some 'c', use := pathValue fun v c => { c with config := some v } },
    { name := "quiet", letter := some 'q', use := .flag fun c => { c with quiet := true } },
    { name := "verbose", letter := some 'v'
      use := .count fun c => { c with verbosity := min 255 (c.verbosity + 1) } },
    helpSwitch]
  free := some fun arg c => { c with inputs := c.inputs ++ [arg] }

/-- Reads what is said about parsing. The environment may name a rule file in case the arguments do not. -/
def parse (environment : Option String) (args : List String) : Except Stop Command.Parse := do
  let c ← parseGrammar.read {} args
  let c ← match c.rules, environment with
    | none, some "" => .error .badValue
    | none, some path => .ok { c with rules := some path }
    | _, _ => .ok c
  if c.inputs.isEmpty then .error .missingArgument else .ok c

structure PathAndFlag where
  path : Option String := none
  flag : Bool := false

def pathAndFlag (pathName : String) (letter : Char) (flagName : String) : Grammar PathAndFlag where
  switches := [
    { name := pathName, letter := some letter, use := pathValue fun v p => { p with path := some v } },
    { name := flagName, use := .flag fun p => { p with flag := true } },
    helpSwitch]

def validate (args : List String) : Except Stop Command.Validate := do
  match ← (pathAndFlag "rules" 'r' "strict").read {} args with
  | ⟨some rules, strict⟩ => .ok { rules, strict }
  | _ => .error .missingArgument

def generate (args : List String) : Except Stop Command.Generate := do
  match ← (pathAndFlag "output" 'o' "force").read {} args with
  | ⟨some output, force⟩ => .ok { output, force }
  | _ => .error .missingArgument

def names : List String := ["parse", "process", "validate", "generate-rules", "help"]

/-- What comes of asking for help about something. -/
def help : List String → Stop
  | [] => .help
  | [name] => if name ∈ names then .help else .unknownCommand
  | _ => .unknownCommand

def noCommand (arg : String) (args : List String) : Stop :=
  match arg.toList with
  | ['-', '-'] =>
    match args with
    | [] => .nothing
    | name :: _ => if name ∈ names then .unknownArgument else .unknownCommand
  | '-' :: '-' :: cs =>
    if cs ∈ ["help".toList, "version".toList] then (if cs = "help".toList then .help else .version)
    else if cs.takeWhile (· ≠ '=') ∈ ["help".toList, "version".toList] then .surplusValue
    else .unknownArgument
  | '-' :: 'h' :: _ => .help
  | '-' :: 'V' :: _ => .version
  | '-' :: _ :: _ => .unknownArgument
  | _ => .unknownCommand

def read (environment : Option String) : List String → Except Stop Command
  | [] => .error .nothing
  | arg :: args =>
    match arg with
    | "parse" | "process" => (parse environment args).map .parse
    | "validate" => (validate args).map .validate
    | "generate-rules" => (generate args).map .generate
    | "help" => .error (help args)
    | _ => .error (noCommand arg args)

end BracketTree.CommandLine
