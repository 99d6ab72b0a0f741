import BracketTree.StringMap

/-! Splitting a text at the tokens of a vocabulary. At each place the longest token that starts there is cut
out, so a token is never taken for a shorter one it contains, and what lies between tokens is content.
Content and tokens alternate, content at both ends, and some content may be empty. -/

namespace BracketTree

/-- The tokens a text is split at, in the order in which they are tried. -/
structure Vocabulary where
  tokens : List String
deriving DecidableEq

structure Piece where
  isToken : Bool
  text : String
  /-- How many bytes of the text lie before the piece. -/
  offset : Nat
deriving DecidableEq, Repr

namespace Vocabulary

/-- Whether `a` is tried before `b`: more characters first, and of two tokens with equally many the greater
one first. -/
def precedes (a b : String) : Bool :=
  b.length < a.length || (a.length == b.length && b < a)

def place (t : String) : List String → List String
  | [] => [t]
  | u :: us =>
    if precedes t u then t :: u :: us
    else if t = u then u :: us
    else u :: place t us

def ofTokens (ts : List String) : Vocabulary :=
  ⟨(ts.filter (· ≠ "")).foldr place []⟩

def ofBounds (bounds : StringMap String) (separators : List String) : Vocabulary :=
  ofTokens (bounds.entries.flatMap (fun e => [e.1, e.2]) ++ separators)

def specials : List Char :=
  ['\\', '.', '+', '*', '?', '(', ')', '|', '[', ']', '\x7b', '\x7d', '^', '$', '#', '&', '-', '~']

def escape (t : String) : String :=
  String.ofList (t.toList.flatMap fun c => if c ∈ specials then ['\\', c] else [c])

/-- The pattern that matches the tokens, as alternatives in the order in which they are tried; a vocabulary
without tokens has none. -/
def pattern? (v : Vocabulary) : Option String :=
  if v.tokens.isEmpty then none else some ("|".intercalate (v.tokens.map escape))

/-- Compiles a pattern, or says what is wrong with it: patterns may be too large. -/
abbrev Compiler := (pattern : String) → Except String Unit

def Compiler.unbounded : Compiler := fun _ => .ok ()

def compile (v : Vocabulary) (compiler : Compiler) : Except String Unit :=
  match v.pattern? with
  | none => .ok ()
  | some pattern => compiler pattern

def spellingAt? (spellings : List (List Char)) (cs : List Char) : Option (List Char) :=
  spellings.find? (fun t => !t.isEmpty && t.isPrefixOf cs)

theorem spellingAt?_some {spellings : List (List Char)} {cs t : List Char}
    (h : spellingAt? spellings cs = some t) : t ≠ [] ∧ t <+: cs := by
  have h := List.find?_some h
  simp only [Bool.and_eq_true, Bool.not_eq_true', List.isEmpty_eq_false_iff, List.isPrefixOf_iff_prefix] at h
  exact h

def byteLength : List Char → Nat
  | [] => 0
  | c :: cs => c.utf8Size + byteLength cs

/-- Splits the rest `cs` of a text, of which `offset` bytes lie behind. `content` holds the characters since
the last token, the last one first, and `start` is where they begin; `acc` holds the pieces before them, the
last one first. -/
def splitFrom (spellings : List (List Char)) (acc : List Piece) (content : List Char) (start offset : Nat) :
    List Char → List Piece
  | [] => (⟨false, String.ofList content.reverse, start⟩ :: acc).reverse
  | c :: cs =>
    match _h : spellingAt? spellings (c :: cs) with
    | some t =>
      let next := offset + byteLength t
      splitFrom spellings
        (⟨true, String.ofList t, offset⟩ :: ⟨false, String.ofList content.reverse, start⟩ :: acc)
        [] next next ((c :: cs).drop t.length)
    | none => splitFrom spellings acc (c :: content) start (offset + c.utf8Size) cs
termination_by cs => cs.length
decreasing_by
  · have := List.length_pos_iff.2 (spellingAt?_some _h).1
    simp only [List.length_drop, List.length_cons]; omega
  · simp

def split (v : Vocabulary) (text : String) : List Piece :=
  splitFrom (v.tokens.map String.toList) [] [] 0 0 text.toList

end Vocabulary
end BracketTree
