import BracketTree.Text.Hex

/-! Quoted strings in TOML. There are four ways to quote: with escapes or without, on one line or on several.
The writer takes the first way that needs no escape, and escapes only when none is left. -/

namespace BracketTree.Toml

inductive Quote where
  | basic
  | literal
  | basicLines
  | literalLines
deriving DecidableEq, Repr

/-- Whether a character can stand for itself: a tab can, and everything else that is no control character. -/
def isPlain (c : Char) : Bool := c = '\t' || (0x20 ≤ c.toNat && c.toNat ≠ 0x7f)

namespace Quote

def marks : Quote → List Char
  | basic => ['"']
  | literal => ['\'']
  | basicLines => ['"', '"', '"']
  | literalLines => ['\'', '\'', '\'']

def hasLines : Quote → Bool
  | basicLines | literalLines => true
  | basic | literal => false

/-! ## Writing -/

def escape (c : Char) : List Char :=
  if c = '\x08' then ['\\', 'b']
  else if c = '\t' then ['\\', 't']
  else if c = '\x0c' then ['\\', 'f']
  else if c = '\r' then ['\\', 'r']
  else if c = '\\' then ['\\', '\\']
  else if isPlain c then [c]
  else ['\\', 'u', '0', '0', (Nat.digitChar (c.toNat / 16)).toUpper, (Nat.digitChar (c.toNat % 16)).toUpper]

def basicBody (cs : List Char) : List Char :=
  cs.flatMap fun c => if c = '"' then ['\\', '"'] else if c = '\n' then ['\\', 'n'] else escape c

/-- What stands between the quotes on several lines with escapes: of quotes in a row, of which `run` lie
behind, each third is escaped. -/
def basicLinesBody : (run : Nat) → List Char → List Char
  | _, [] => []
  | run, c :: cs =>
    if c = '"' then
      if run = 2 then '\\' :: '"' :: basicLinesBody 0 cs else '"' :: basicLinesBody (run + 1) cs
    else if c = '\n' then '\n' :: basicLinesBody 0 cs
    else escape c ++ basicLinesBody 0 cs

def body : Quote → List Char → List Char
  | basic, cs => basicBody cs
  | basicLines, cs => basicLinesBody 0 cs
  | literal, cs | literalLines, cs => cs

/-- A text in quotes. Where there is more than one line, the first has a line of its own. -/
def write (q : Quote) (cs : List Char) : List Char :=
  q.marks ++ (if q.hasLines && cs.contains '\n' then ['\n'] else []) ++ q.body cs ++ q.marks

/-- Whether three of a character stand in a row, when `run` of them lie behind. -/
def hasThree (q : Char) : (run : Nat) → List Char → Bool
  | _, [] => false
  | run, c :: cs => if c = q then run = 2 || hasThree q (run + 1) cs else hasThree q 0 cs

def suits : Quote → List Char → Bool
  | basic, cs => cs.all fun c => isPlain c && c ≠ '\\' && c ≠ '"'
  | literal, cs => cs.all fun c => isPlain c && c ≠ '\''
  | basicLines, cs => cs.all (fun c => (isPlain c || c = '\n') && c ≠ '\\') && !hasThree '"' 0 cs
  | literalLines, cs => cs.all (fun c => isPlain c || c = '\n') && !hasThree '\'' 0 cs

def ofText (cs : List Char) : Quote :=
  ([basic, literal, basicLines, literalLines].find? (·.suits cs)).getD
    (if cs.contains '\n' then basicLines else basic)

def ofKey (cs : List Char) : Quote := ([basic, literal].find? (·.suits cs)).getD basic

/-! ## Reading -/

def char? (n : Nat) : Option Char := if n.isValidChar then some (Char.ofNat n) else none

def escaped? : Char → Option Char
  | 'b' => some '\x08'
  | 't' => some '\t'
  | 'n' => some '\n'
  | 'f' => some '\x0c'
  | 'r' => some '\r'
  | 'e' => some '\x1b'
  | '"' => some '"'
  | '\\' => some '\\'
  | _ => none

def numbered? (digits : List Char) : Option Char := do char? (← Text.hexNumber? digits)

def basic? (acc : List Char) : List Char → Option (List Char × List Char)
  | [] => none
  | '"' :: cs => some (acc.reverse, cs)
  | '\\' :: 'x' :: a :: b :: cs => do basic? ((← numbered? [a, b]) :: acc) cs
  | '\\' :: 'u' :: a :: b :: c :: d :: cs => do basic? ((← numbered? [a, b, c, d]) :: acc) cs
  | '\\' :: 'U' :: a :: b :: c :: d :: e :: f :: g :: h :: cs => do
    basic? ((← numbered? [a, b, c, d, e, f, g, h]) :: acc) cs
  | '\\' :: c :: cs => do basic? ((← escaped? c) :: acc) cs
  | c :: cs => if isPlain c then basic? (c :: acc) cs else none

def literal? (acc : List Char) : List Char → Option (List Char × List Char)
  | [] => none
  | '\'' :: cs => some (acc.reverse, cs)
  | c :: cs => if isPlain c then literal? (c :: acc) cs else none

/-- What the reader of several lines with escapes is at: a backslash at the end of a line drops the blanks and
line breaks up to the next character that is neither. -/
inductive Place where
  | text
  | lineEnd
  | dropping
deriving DecidableEq, Repr

/-- The rest of a string on several lines with escapes, and what follows it. Up to two quotes right before the
closing ones belong to the string. -/
def basicLines? : Place → (acc : List Char) → List Char → Option (List Char × List Char)
  | .lineEnd, acc, '\n' :: cs => basicLines? .dropping acc cs
  | .lineEnd, acc, '\r' :: '\n' :: cs => basicLines? .dropping acc cs
  | .lineEnd, acc, c :: cs => if c = ' ' || c = '\t' then basicLines? .lineEnd acc cs else none
  | .dropping, acc, '\n' :: cs => basicLines? .dropping acc cs
  | .dropping, acc, '\r' :: '\n' :: cs => basicLines? .dropping acc cs
  | .dropping, acc, ' ' :: cs => basicLines? .dropping acc cs
  | .dropping, acc, '\t' :: cs => basicLines? .dropping acc cs
  | _, _, [] => none
  | _, acc, '"' :: '"' :: '"' :: '"' :: '"' :: cs => some (('"' :: '"' :: acc).reverse, cs)
  | _, acc, '"' :: '"' :: '"' :: '"' :: cs => some (('"' :: acc).reverse, cs)
  | _, acc, '"' :: '"' :: '"' :: cs => some (acc.reverse, cs)
  | _, acc, '\\' :: 'x' :: a :: b :: cs => do basicLines? .text ((← numbered? [a, b]) :: acc) cs
  | _, acc, '\\' :: 'u' :: a :: b :: c :: d :: cs => do
    basicLines? .text ((← numbered? [a, b, c, d]) :: acc) cs
  | _, acc, '\\' :: 'U' :: a :: b :: c :: d :: e :: f :: g :: h :: cs => do
    basicLines? .text ((← numbered? [a, b, c, d, e, f, g, h]) :: acc) cs
  | _, acc, '\\' :: '\n' :: cs => basicLines? .dropping acc cs
  | _, acc, '\\' :: '\r' :: '\n' :: cs => basicLines? .dropping acc cs
  | _, acc, '\\' :: ' ' :: cs => basicLines? .lineEnd acc cs
  | _, acc, '\\' :: '\t' :: cs => basicLines? .lineEnd acc cs
  | _, acc, '\\' :: c :: cs => do basicLines? .text ((← escaped? c) :: acc) cs
  | _, acc, '\n' :: cs => basicLines? .text ('\n' :: acc) cs
  | _, acc, '\r' :: '\n' :: cs => basicLines? .text ('\n' :: '\r' :: acc) cs
  | _, acc, c :: cs => if isPlain c then basicLines? .text (c :: acc) cs else none

def literalLines? (acc : List Char) : List Char → Option (List Char × List Char)
  | [] => none
  | '\'' :: '\'' :: '\'' :: '\'' :: '\'' :: cs => some (('\'' :: '\'' :: acc).reverse, cs)
  | '\'' :: '\'' :: '\'' :: '\'' :: cs => some (('\'' :: acc).reverse, cs)
  | '\'' :: '\'' :: '\'' :: cs => some (acc.reverse, cs)
  | '\n' :: cs => literalLines? ('\n' :: acc) cs
  | '\r' :: '\n' :: cs => literalLines? ('\n' :: '\r' :: acc) cs
  | c :: cs => if isPlain c then literalLines? (c :: acc) cs else none

def dropBreak : List Char → List Char
  | '\n' :: cs => cs
  | '\r' :: '\n' :: cs => cs
  | cs => cs

def read? : List Char → Option (List Char × List Char)
  | '"' :: '"' :: '"' :: cs => basicLines? .text [] (dropBreak cs)
  | '"' :: cs => basic? [] cs
  | '\'' :: '\'' :: '\'' :: cs => literalLines? [] (dropBreak cs)
  | '\'' :: cs => literal? [] cs
  | _ => none

end Quote
end BracketTree.Toml
