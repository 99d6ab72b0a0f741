import BracketTree.Config

/-! The commands, with what is said about each on the command line, and the settings that the command line and
the configuration file make together. -/

namespace BracketTree

namespace Command

structure Parse where
  inputs : List String := []
  rules : Option String := none
  /-- The file to write to; a dash is the standard output. -/
  output : String := "-"
  format : Option Report.Format := none
  strict : Bool := false
  strictRules : Bool := false
  noPersist : Bool := false
  threads : Option Nat := none
  config : Option String := none
  quiet : Bool := false
  /-- How often more was asked for in the log. -/
  verbosity : Nat := 0
deriving DecidableEq, Repr

structure Validate where
  rules : String
  strict : Bool := false
deriving DecidableEq, Repr

structure Generate where
  output : String
  force : Bool := false
deriving DecidableEq, Repr

end Command

inductive Command where
  | parse (c : Command.Parse)
  | validate (c : Command.Validate)
  | generate (c : Command.Generate)
deriving DecidableEq, Repr

structure Settings where
  rules : Option String
  format : Report.Format
  strict : Bool
  strictRules : Bool
  persistRules : Bool
  threads : Nat
deriving DecidableEq, Repr

/-- Puts the command line before the configuration. What only one of them can ask for, either can. -/
def Command.Parse.settings (c : Command.Parse) (config : Config) : Settings where
  rules := c.rules.or config.processing.rules
  format := c.format.getD config.output.effectiveFormat
  strict := c.strict || config.processing.strict
  strictRules := c.strictRules || config.processing.strictRules
  persistRules := !c.noPersist && config.processing.persistRules
  threads := c.threads.getD config.processing.threads

end BracketTree
