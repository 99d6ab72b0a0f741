import BracketTree.Grouping
import BracketTree.Rules.Issue

/-! From rules and a text to a tree: the text is split at the tokens of the rules, and the pieces are
grouped. -/

namespace BracketTree

inductive Mode where
  | lenient
  | strict
deriving DecidableEq, Repr

def Mode.ofStrict (strict : Bool) : Mode := if strict then .strict else .lenient

structure Parser where
  rules : Rules := {}
  mode : Mode := .lenient
deriving DecidableEq

namespace Parser

def vocabulary (p : Parser) : Vocabulary := .ofBounds p.rules.bounds p.rules.separators

/-- Why no parser is made of some rules: a finding stands in the way, or their pattern cannot be compiled. -/
inductive Refusal where
  | issue (i : Rules.Issue)
  | pattern (reason : String)
deriving DecidableEq, Repr

def Refusal.message : Refusal → String
  | issue i => i.refusal
  | pattern reason => "failed to compile token pattern: " ++ reason

/-- Makes a parser of rules. They are checked before their pattern is compiled. -/
def ofChecked (compiler : Vocabulary.Compiler) (rules : Rules) (mode : Mode) (strictRules : Bool) :
    Except Refusal Parser :=
  match rules.objection? strictRules with
  | some i => .error (.issue i)
  | none =>
    let p : Parser := { rules, mode }
    match p.vocabulary.compile compiler with
    | .error reason => .error (.pattern reason)
    | .ok () => .ok p

def grouping (p : Parser) : Grouping := ⟨p.rules.bounds, p.rules.strip⟩

def parse (p : Parser) (text : String) : Except Grouping.Error Tree :=
  let pieces := p.vocabulary.split text
  match p.mode with
  | .lenient => .ok (p.grouping.group pieces)
  | .strict => p.grouping.groupStrict pieces

end Parser

/-- The tree of a text that is split at the tokens of pairs and at separators, whether or not the tokens that
are left out are among these. -/
def treeOf (text : String) (bounds : StringMap String) (separators strip : List String) : Tree :=
  Grouping.group ⟨bounds, strip⟩ ((Vocabulary.ofBounds bounds separators).split text)

end BracketTree
