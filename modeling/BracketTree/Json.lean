/-! JSON values and their written form. A string is kept as it was spelled, because an escape may name half of
a surrogate pair, and a string with such a half in it is well formed but stands for no text. -/

namespace BracketTree

/-- A place in a string: a character, or a 16-bit code given as an escape. -/
inductive StringUnit where
  | char (c : Char)
  | code (n : Nat)
deriving DecidableEq, Repr

namespace StringUnit

/-- The text a string stands for: two codes that make a surrogate pair are one character, and half a pair
that stands alone is none. -/
def chars? : List StringUnit → Option (List Char)
  | [] => some []
  | char c :: us => (chars? us).map (c :: ·)
  | [code n] => if 0xd800 ≤ n ∧ n < 0xe000 then none else some [Char.ofNat n]
  | code n :: code m :: us =>
    if 0xd800 ≤ n ∧ n < 0xdc00 then
      if 0xdc00 ≤ m ∧ m < 0xe000 then
        (chars? us).map (Char.ofNat (0x10000 + (n - 0xd800) * 0x400 + (m - 0xdc00)) :: ·)
      else none
    else if 0xdc00 ≤ n ∧ n < 0xe000 then none
    else (chars? (code m :: us)).map (Char.ofNat n :: ·)
  | code n :: char c :: us =>
    if 0xd800 ≤ n ∧ n < 0xe000 then none else (chars? (char c :: us)).map (Char.ofNat n :: ·)

def text? (us : List StringUnit) : Option String := (chars? us).map String.ofList

def ofText (s : String) : List StringUnit := s.toList.map char

def hex4 (n : Nat) : List Char :=
  [n / 0x1000 % 16, n / 0x100 % 16, n / 0x10 % 16, n % 16].map Nat.digitChar

/-- How one place of a string is written: a quote, a backslash and the control characters below the space
are escaped, by a letter where there is one. -/
def written : StringUnit → List Char
  | code n => ['\\', 'u'] ++ hex4 n
  | char c =>
    if c = '"' then ['\\', '"']
    else if c = '\\' then ['\\', '\\']
    else if c = '\x08' then ['\\', 'b']
    else if c = '\t' then ['\\', 't']
    else if c = '\n' then ['\\', 'n']
    else if c = '\x0c' then ['\\', 'f']
    else if c = '\r' then ['\\', 'r']
    else if c.toNat < 0x20 then ['\\', 'u'] ++ hex4 c.toNat
    else [c]

end StringUnit

/-- A JSON value. Members keep their order and may repeat a key; a number is its spelling. -/
inductive Json where
  | null
  | bool (b : Bool)
  | number (spelling : List Char)
  | string (units : List StringUnit)
  | array (items : List Json)
  | object (members : List (List StringUnit × Json))
deriving Repr

namespace Json

def ofText (s : String) : Json := string (StringUnit.ofText s)

def ofTexts (ss : List String) : Json := array (ss.map ofText)

def member (key : String) (value : Json) : List StringUnit × Json := (StringUnit.ofText key, value)

def text? : Json → Option String
  | string us => StringUnit.text? us
  | _ => none

def texts? : Json → Option (List String)
  | array js => js.mapM text?
  | _ => none

/-- Whether each item has a line of its own, two spaces deeper than what it belongs to, or nothing but what
is needed is written. -/
inductive Layout where
  | compact
  | pretty
deriving DecidableEq, Repr

def Layout.newline (l : Layout) (depth : Nat) (acc : String) : String :=
  match l with
  | compact => acc
  | pretty => acc ++ String.ofList ('\n' :: List.replicate (2 * depth) ' ')

def Layout.colon : Layout → String
  | compact => ":"
  | pretty => ": "

def writeString (acc : String) (us : List StringUnit) : String :=
  acc ++ String.ofList ('"' :: (us.flatMap StringUnit.written ++ ['"']))

mutual
def write (l : Layout) (depth : Nat) (acc : String) : Json → String
  | null => acc ++ "null"
  | bool true => acc ++ "true"
  | bool false => acc ++ "false"
  | number cs => acc ++ String.ofList cs
  | string us => writeString acc us
  | array [] => acc ++ "[]"
  | array (j :: js) =>
    l.newline depth (writeItems l (depth + 1) (write l (depth + 1) (l.newline (depth + 1) (acc ++ "[")) j) js)
      ++ "]"
  | object [] => acc ++ "\x7b\x7d"
  | object (m :: ms) =>
    l.newline depth (writeMembers l (depth + 1) (writeMember l (depth + 1) (acc ++ "\x7b") m) ms) ++ "\x7d"

def writeItems (l : Layout) (depth : Nat) (acc : String) : List Json → String
  | [] => acc
  | j :: js => writeItems l depth (write l depth (l.newline depth (acc ++ ",")) j) js

def writeMember (l : Layout) (depth : Nat) (acc : String) : List StringUnit × Json → String
  | (k, j) => write l depth (writeString (l.newline depth acc) k ++ l.colon) j

def writeMembers (l : Layout) (depth : Nat) (acc : String) : List (List StringUnit × Json) → String
  | [] => acc
  | m :: ms => writeMembers l depth (writeMember l depth (acc ++ ",") m) ms
end

def render (l : Layout) (j : Json) : String := write l 0 "" j

end Json
end BracketTree
