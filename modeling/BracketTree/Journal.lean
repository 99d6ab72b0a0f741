import BracketTree.Parser

/-! What is written down while rules are prepared and texts are parsed. The record follows the work and never
takes part in it: it is read off the states that grouping goes through. -/

namespace BracketTree

inductive Level where
  | warn
  | info
  | debug
  | trace
deriving DecidableEq, Repr

def Level.name : Level → String
  | warn => "WARN"
  | info => "INFO"
  | debug => "DEBUG"
  | trace => "TRACE"

structure Entry where
  level : Level
  text : String
deriving DecidableEq, Repr

def Entry.line (e : Entry) : String := e.level.name ++ " " ++ e.text

namespace Vocabulary

/-- What is noted when a vocabulary is made of some tokens. -/
def journal (compiler : Compiler) (ts : List String) : List Entry :=
  (if "" ∈ ts then [⟨.warn, "Ignoring empty token in rule vocabulary"⟩] else [])
    ++ match (ofTokens ts).compile compiler with
      | .error _ => []
      | .ok () => [⟨.debug, "Built matcher over " ++ toString (ofTokens ts).tokens.length ++ " token(s)"⟩]

end Vocabulary

namespace Grouping

def event (verb : String) (p : Piece) (depth : Nat) : Entry :=
  ⟨.trace, verb ++ " " ++ Text.quoted p.text ++ " at byte " ++ toString p.offset
    ++ " (depth " ++ toString depth ++ ")"⟩

/-- Whether a piece ends a group: the one it opens itself, and otherwise the innermost. -/
def ends (g : Grouping) (s : State) (p : Piece) : Bool :=
  match g.bounds.find? p.text with
  | some closer => closer == p.text
  | none => s.awaits p.text

/-- What is noted of one piece, met inside `depth` groups: that it opens a group, and that it ends one. With it
comes the number of groups it leaves open. -/
def stepJournal (g : Grouping) (s : State) (depth : Nat) (p : Piece) : List Entry × Nat :=
  if p.text = "" then ([], depth) else
  let inside := if g.bounds.contains p.text then depth + 1 else depth
  let opened := if g.bounds.contains p.text then [event "open" p inside] else []
  if g.ends s p then (opened ++ [event "close" p (inside - 1)], inside - 1) else (opened, inside)

def State.closeJournal (s : State) (mode : Mode) : List Entry :=
  (if s.isNested then [⟨.debug, toString s.depth ++ " frame(s) left open at end of input"⟩] else [])
    ++ (if s.isNested && mode = .strict then []
        else [⟨.debug, "Grouped input into " ++ toString (s.drafts.size - 1) ++ " frame(s)"⟩])

/-- What is noted while pieces are grouped, from inside `depth` groups up to the end or to the piece that is
refused. -/
def journal (g : Grouping) (mode : Mode) (s : State) (depth : Nat) : List Piece → List Entry
  | [] => s.closeJournal mode
  | p :: ps =>
    if mode = .strict && g.strays s p then []
    else
      let (noted, depth) := g.stepJournal s depth p
      noted ++ g.journal mode (g.step s p) depth ps

end Grouping

namespace Parser

def journal (p : Parser) (compiler : Vocabulary.Compiler) : List Entry :=
  Vocabulary.journal compiler (p.rules.bounds.entries.flatMap (fun e => [e.1, e.2]) ++ p.rules.separators)

def checkedJournal (compiler : Vocabulary.Compiler) (rules : Rules) (strictRules : Bool) : List Entry :=
  rules.issues.map (fun i => ⟨.warn, i.message⟩)
    ++ if (rules.objection? strictRules).isSome then [] else journal { rules } compiler

def parseJournal (p : Parser) (text : String) : List Entry :=
  let pieces := p.vocabulary.split text
  ⟨.trace, "Split " ++ toString text.utf8ByteSize ++ " byte(s) into " ++ toString pieces.length
    ++ " piece(s)"⟩ :: p.grouping.journal p.mode {} 0 pieces

end Parser
end BracketTree
