import BracketTree.StringMap

/-! Rule sets. Opening tokens are paired with the token that closes their group; further tokens only split
the text, and some of the splitting tokens are left out of the tree. -/

namespace BracketTree

/-- A rule set. A rule set of which nothing is said splits at line breaks and keeps everything. -/
structure Rules where
  bounds : StringMap String := ∅
  extra : List String := ["\n"]
  strip : List String := []
deriving DecidableEq

namespace Rules

instance : Inhabited Rules := ⟨{}⟩

/-- The rule set that says nothing at all, from which one is put together. -/
def blank : Rules := { extra := [] }

/-- Adds a pair; a pair with the same opening token is replaced. -/
def withBound (r : Rules) (opening closing : String) : Rules :=
  { r with bounds := r.bounds.insert opening closing }

def withExtra (r : Rules) (token : String) : Rules := { r with extra := r.extra ++ [token] }

def withStrip (r : Rules) (token : String) : Rules := { r with strip := r.strip ++ [token] }

def openers (r : Rules) : List String := r.bounds.keys

def closers (r : Rules) : List String := r.bounds.values

def isOpener (r : Rules) (token : String) : Bool := r.bounds.contains token

def isCloser (r : Rules) (token : String) : Bool := r.closers.contains token

def closerOf? (r : Rules) (opening : String) : Option String := r.bounds.find? opening

/-- The tokens that split without grouping, each once, where it is named first. -/
def separators (r : Rules) : List String := (r.extra ++ r.strip).eraseDups

end Rules
end BracketTree
