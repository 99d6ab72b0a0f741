import BracketTree.Report
import BracketTree.Toml.Reader

/-! The configuration file: a TOML document whose two sections say how texts are processed and how the result is
written. Everything has a default, and nothing else may be said. -/

namespace BracketTree

namespace Config

structure Processing where
  rules : Option String := none
  strict : Bool := false
  strictRules : Bool := false
  persistRules : Bool := true
  /-- How many texts are processed at a time; with none said, as many as there is room for. -/
  threads : Nat := 0
deriving DecidableEq, Repr

structure Output where
  format : Report.Format := .json
  pretty : Bool := true
deriving DecidableEq, Repr

/-- The format that both settings amount to. -/
def Output.effectiveFormat (o : Output) : Report.Format :=
  if o.format = .json && !o.pretty then .compact else o.format

end Config

structure Config where
  processing : Config.Processing := {}
  output : Config.Output := {}
deriving DecidableEq, Repr

namespace Config

abbrev Schema (α : Type) := List (String × (Toml.Value → α → Option α))

/-- Reads a section, which is a table with some of the settings, or an array with the first of them in order.
What is not set stays as it is, and what an array has beyond the settings is not looked at. -/
def Schema.read? {α : Type} (schema : Schema α) (start : α) : Toml.Value → Option α
  | .table _ es => es.foldlM (fun a e => do (← schema.lookup e.1) e.2 a) start
  | v => do ((← v.items?).zip schema).foldlM (fun a e => e.2.2 e.1 a) start

def boolean? : Toml.Value → Option Bool
  | .boolean b => some b
  | _ => none

def threads? : Toml.Value → Option Nat
  | .integer n => if 0 ≤ n && n < UInt64.size then some n.toNat else none
  | _ => none

def isEmpty : Toml.Value → Bool
  | .table _ es => es.isEmpty
  | .array vs => vs.isEmpty
  | _ => false

/-- A format by its name, as a string or as the only key of a table, with nothing in it. -/
def format? : Toml.Value → Option Report.Format
  | .string s => Report.Format.ofName? s
  | .table _ [(name, v)] => if isEmpty v then Report.Format.ofName? name else none
  | _ => none

def processingSchema : Schema Processing := [
  ("rules", fun v p => v.text?.map fun s => { p with rules := some s }),
  ("strict", fun v p => (boolean? v).map fun b => { p with strict := b }),
  ("strict_rules", fun v p => (boolean? v).map fun b => { p with strictRules := b }),
  ("persist_rules", fun v p => (boolean? v).map fun b => { p with persistRules := b }),
  ("threads", fun v p => (threads? v).map fun n => { p with threads := n })]

def outputSchema : Schema Output := [
  ("format", fun v o => (format? v).map fun f => { o with format := f }),
  ("pretty", fun v o => (boolean? v).map fun b => { o with pretty := b })]

def schema : Schema Config := [
  ("processing", fun v c => (processingSchema.read? {} v).map fun p => { c with processing := p }),
  ("output", fun v c => (outputSchema.read? {} v).map fun o => { c with output := o })]

def read? (text : String) : Option Config := do
  schema.read? {} (.table .heading (← Toml.Table.read? text))

end Config
end BracketTree
