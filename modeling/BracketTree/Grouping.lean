import BracketTree.StringMap
import BracketTree.Text.Quoted
import BracketTree.Tree
import BracketTree.Vocabulary

/-! Grouping the pieces of a text into a tree. Groups are numbered in the order in which they begin, and the
text as a whole is group 0. Each group remembers the token that opened it and the token it waits for, so when
it ends does not depend on what it holds. A token that opens a group does so first of all; it is then put
into the group, and only then is it asked whether it ends the group. -/

namespace BracketTree

structure Grouping where
  bounds : StringMap String
  strip : List String

namespace Grouping

inductive Slot where
  | leaf (text : String)
  | group (number : Nat)
deriving DecidableEq, Repr

structure Opening where
  token : String
  offset : Nat
  closer : String
deriving DecidableEq, Repr

structure Draft where
  opening : Option Opening := none
  /-- What has been put into the group, the last thing first. -/
  slots : List Slot := []
deriving DecidableEq, Repr

/-- All groups by number, and the numbers of those that have not ended, innermost first. -/
structure State where
  drafts : Array Draft := #[{}]
  openGroups : List Nat := [0]

inductive Error where
  | unexpectedClose (token : String) (offset : Nat)
  /-- The text ends inside `depth` groups, the innermost of which began with `token`. -/
  | unbalanced (depth : Nat) (token : String) (offset : Nat)
deriving DecidableEq, Repr

def Error.message : Error → String
  | unexpectedClose token offset =>
    "unexpected close token " ++ Text.quoted token ++ " at byte " ++ toString offset
  | unbalanced depth token offset =>
    "unbalanced grouping: " ++ toString depth ++ " frame(s) still open, innermost opened by "
      ++ Text.quoted token ++ " at byte " ++ toString offset

namespace State

def current (s : State) : Nat := s.openGroups.headD 0

def opening? (s : State) : Option Opening := s.drafts[s.current]?.bind (·.opening)

/-- How many groups have not ended, the text as a whole not counted. -/
def depth (s : State) : Nat := s.openGroups.length - 1

def put (s : State) (slot : Slot) : State :=
  { s with drafts := s.drafts.modify s.current fun d => { d with slots := slot :: d.slots } }

def enter (s : State) (o : Opening) : State :=
  let number := s.drafts.size
  let s := s.put (.group number)
  { drafts := s.drafts.push { opening := some o }, openGroups := number :: s.openGroups }

def leave (s : State) : State := { s with openGroups := s.openGroups.tail }

def isNested (s : State) : Bool := !s.openGroups.tail.isEmpty

def awaits (s : State) (token : String) : Bool :=
  s.isNested && s.opening?.any (·.closer == token)

end State

def openStep (g : Grouping) (s : State) (p : Piece) : State :=
  match g.bounds.find? p.text with
  | some closer => s.enter ⟨p.text, p.offset, closer⟩
  | none => s

def leafStep (g : Grouping) (s : State) (p : Piece) : State :=
  if g.strip.contains p.text then s else s.put (.leaf p.text)

def closeStep (s : State) (p : Piece) : State :=
  if s.awaits p.text then s.leave else s

def step (g : Grouping) (s : State) (p : Piece) : State :=
  if p.text = "" then s else closeStep (g.leafStep (g.openStep s p) p) p

def strays (g : Grouping) (s : State) (p : Piece) : Bool :=
  p.text ≠ "" && !g.bounds.contains p.text && g.bounds.values.contains p.text && !s.awaits p.text

def strictStep (g : Grouping) (s : State) (p : Piece) : Except Error State :=
  if g.strays s p then .error (.unexpectedClose p.text p.offset) else .ok (g.step s p)

def Draft.nodes (d : Draft) (built : Array (List Node)) : List Node :=
  d.slots.reverse.map fun
    | .leaf s => .leaf s
    | .group n => .group (built[n]?.getD [])

/-- Fills in the nodes of the groups below `n`. A group inside another has the greater number, so when the
groups are taken from the last to the first, the groups inside one come before it. -/
def assembleFrom (drafts : Array Draft) : Nat → Array (List Node) → Array (List Node)
  | 0, built => built
  | n + 1, built => assembleFrom drafts n (built.setIfInBounds n ((drafts[n]?.getD {}).nodes built))

def State.tree (s : State) : Tree :=
  (assembleFrom s.drafts s.drafts.size (Array.replicate s.drafts.size []))[0]?.getD []

/-- Groups pieces into a tree, whatever they are: a group that does not end holds all that follows, and a
closing token where none is due is a leaf. -/
def group (g : Grouping) (ps : List Piece) : Tree := (ps.foldl g.step {}).tree

def State.close (s : State) : Except Error Tree :=
  if s.isNested then
    let o := s.opening?.getD ⟨"", 0, ""⟩
    .error (.unbalanced s.depth o.token o.offset)
  else .ok s.tree

def groupStrict (g : Grouping) (ps : List Piece) : Except Error Tree := do
  (← ps.foldlM g.strictStep {}).close

end Grouping
end BracketTree
