/-! Reading arguments. A switch is named by a word after two dashes or by a letter after one; letters can stand
together. The value of a switch follows it, in the same argument or in the next. A value in the next argument
is looked at only when that argument has been left behind, so what is wrong with it shows after what is wrong
with the name of the switch that follows. -/

namespace BracketTree.CommandLine

inductive Stop where
  | help
  | version
  | nothing
  | unknownCommand
  | unknownArgument
  /-- A switch that has no value is given one. -/
  | surplusValue
  | badValue
  | badNumber
  | repeated
  | missingArgument
deriving DecidableEq, Repr

inductive Use (α : Type) where
  | flag (set : α → α)
  | count (set : α → α)
  | value (set : String → α → Except Stop α)
  | help

structure Switch (α : Type) where
  name : String
  letter : Option Char := none
  use : Use α

structure Grammar (α : Type) where
  switches : List (Switch α)
  /-- What is done with an argument that belongs to no switch, if there may be one. -/
  free : Option (String → α → α) := none

/-- A switch that waits for its value, or has it but has not been settled. -/
structure Pending (α : Type) where
  name : String
  set : String → α → Except Stop α
  value : Option String := none

structure Reading (α : Type) where
  result : α
  used : List String := []
  pending : Option (Pending α) := none
  trailing : Bool := false

variable {α : Type}

namespace Reading

def once (r : Reading α) (name : String) (set : α → Except Stop α) : Except Stop (Reading α) :=
  if name ∈ r.used then .error .repeated
  else do .ok { r with result := ← set r.result, used := name :: r.used }

def settle (r : Reading α) : Except Stop (Reading α) :=
  match r.pending with
  | none => .ok r
  | some p =>
    match p.value with
    | none => .error .badValue
    | some v => { r with pending := none }.once p.name (p.set v)

def give (r : Reading α) (name value : String) (set : String → α → Except Stop α) :
    Except Stop (Reading α) := do
  (← r.settle).once name (set value)

def wait (r : Reading α) (name : String) (set : String → α → Except Stop α) : Except Stop (Reading α) := do
  .ok { (← r.settle) with pending := some { name, set } }

end Reading

namespace Grammar

def alone (r : Reading α) (s : Switch α) : Except Stop (Reading α) := do
  match s.use with
  | .flag set => (← r.settle).once s.name (fun a => .ok (set a))
  | .count set =>
    let r ← r.settle
    .ok { r with result := set r.result }
  | .value set => r.wait s.name set
  | .help =>
    let _ ← r.settle
    .error .help

def word (g : Grammar α) (r : Reading α) (cs : List Char) : Except Stop (Reading α) :=
  let name := String.ofList (cs.takeWhile (· ≠ '='))
  match g.switches.find? (·.name = name) with
  | none => .error .unknownArgument
  | some s =>
    match cs.dropWhile (· ≠ '='), s.use with
    | [], _ => alone r s
    | _ :: v, .value set => r.give s.name (String.ofList v) set
    | _ :: _, _ => .error .surplusValue

/-- Takes in letters after a dash. What follows the letter of a switch with a value is the value; an equals sign
may stand between them. -/
def letters (g : Grammar α) (r : Reading α) : List Char → Except Stop (Reading α)
  | [] => .ok r
  | c :: cs =>
    match g.switches.find? (·.letter = some c) with
    | none => .error .unknownArgument
    | some s =>
      match s.use, cs with
      | .value set, '=' :: v => r.give s.name (String.ofList v) set
      | .value set, d :: v => r.give s.name (String.ofList (d :: v)) set
      | _, cs => do letters g (← alone r s) cs

def takeFree (g : Grammar α) (r : Reading α) (arg : String) : Except Stop (Reading α) :=
  match g.free with
  | none => .error .unknownArgument
  | some add => do
    let r ← r.settle
    .ok { r with result := add arg r.result }

/-- Takes in one argument. A single dash is no switch. -/
def step (g : Grammar α) (r : Reading α) (arg : String) : Except Stop (Reading α) :=
  if r.trailing then g.takeFree r arg
  else
    match arg.toList with
    | ['-', '-'] => .ok { r with trailing := true }
    | '-' :: '-' :: cs => g.word r cs
    | '-' :: c :: cs => g.letters r (c :: cs)
    | _ =>
      match r.pending with
      | some { name, set, value := none } => .ok { r with pending := some { name, set, value := some arg } }
      | _ => g.takeFree r arg

def read (g : Grammar α) (start : α) (args : List String) : Except Stop α := do
  let r ← (← args.foldlM g.step { result := start }).settle
  .ok r.result

end Grammar
end BracketTree.CommandLine
