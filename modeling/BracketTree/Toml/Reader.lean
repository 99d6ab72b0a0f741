import BracketTree.Toml.Quote
import BracketTree.Toml.Scalar

/-! Reading TOML. The readers below take the characters from some place on, and return what stands at the front
together with the characters after it. -/

namespace BracketTree.Toml

def isBareChar (c : Char) : Bool := c.isAlphanum || c = '_' || c = '-'

def isBlank (c : Char) : Bool := c = ' ' || c = '\t'

def skipBlanks (cs : List Char) : List Char := cs.dropWhile isBlank

def skipTrivia? : (inComment : Bool) → List Char → Option (List Char)
  | _, '\n' :: cs => skipTrivia? false cs
  | _, '\r' :: '\n' :: cs => skipTrivia? false cs
  | true, c :: cs => if isPlain c then skipTrivia? true cs else none
  | false, '#' :: cs => skipTrivia? true cs
  | false, ' ' :: cs => skipTrivia? false cs
  | false, '\t' :: cs => skipTrivia? false cs
  | _, cs => some cs

/-- What follows the end of a line, before which only blanks and a comment may stand. -/
def lineEnd? : (inComment : Bool) → List Char → Option (List Char)
  | _, [] => some []
  | _, '\n' :: cs => some cs
  | _, '\r' :: '\n' :: cs => some cs
  | true, c :: cs => if isPlain c then lineEnd? true cs else none
  | false, '#' :: cs => lineEnd? true cs
  | false, c :: cs => if isBlank c then lineEnd? false cs else none

def name? : List Char → Option (String × List Char)
  | '"' :: cs => (Quote.basic? [] cs).map fun (s, cs) => (String.ofList s, cs)
  | '\'' :: cs => (Quote.literal? [] cs).map fun (s, cs) => (String.ofList s, cs)
  | cs =>
    match cs.span isBareChar with
    | ([], _) => none
    | (bare, rest) => some (String.ofList bare, rest)

def nestingLimit : Nat := 80

/-- The names of a key, with dots between them, after the ones in `way`, the last of which comes first, as long
as there is `room` for more. -/
def keyFrom (way : List String) : (room : Nat) → List Char → Option (Key × List Char)
  | 0, _ => none
  | room + 1, cs => do
    let (name, rest) ← name? cs
    match skipBlanks rest with
    | '.' :: rest => keyFrom (name :: way) room (skipBlanks rest)
    | _ => some (⟨way.reverse, name⟩, rest)

def key? (cs : List Char) : Option (Key × List Char) := keyFrom [] nestingLimit cs

def assignment? (skip? : List Char → Option (List Char)) (value : List Char → Option (Value × List Char))
    (cs : List Char) : Option ((Key × Value) × List Char) := do
  let (k, rest) ← key? cs
  match ← skip? rest with
  | '=' :: rest => do
    let (v, rest) ← value (← skip? rest)
    some ((k, v), rest)
  | _ => none

/-- Items with commas between them, up to and with the closing character, after the items in `acc`, the last
of which comes first. A comma may follow the last item. -/
def itemsFrom {α : Type} (item : List Char → Option (α × List Char)) (close : Char) (acc : List α) :
    (fuel : Nat) → List Char → Option (List α × List Char)
  | 0, _ => none
  | fuel + 1, cs => do
    match ← skipTrivia? false cs with
    | [] => none
    | c :: rest =>
      if c = close then some (acc.reverse, rest)
      else
        let (x, rest) ← item (c :: rest)
        match ← skipTrivia? false rest with
        | [] => none
        | d :: rest =>
          if d = close then some ((x :: acc).reverse, rest)
          else if d = ',' then itemsFrom item close (x :: acc) fuel rest
          else none

/-- A value in which at most `depth` arrays and braces stand inside one another, each with fewer than `fuel`
items. Inside them lines do not matter. -/
def value? (fuel : Nat) : (depth : Nat) → List Char → Option (Value × List Char)
  | depth, '[' :: cs =>
    match depth with
    | 0 => none
    | depth + 1 => (itemsFrom (value? fuel depth) ']' [] fuel cs).map fun (vs, rest) => (.array vs, rest)
  | depth, '\x7b' :: cs =>
    match depth with
    | 0 => none
    | depth + 1 => do
      let (es, rest) ← itemsFrom (assignment? (skipTrivia? false) (value? fuel depth)) '\x7d' [] fuel cs
      some (.table .braces (← Table.assignAll es []), rest)
  | _, cs =>
    match cs with
    | '"' :: _ | '\'' :: _ => (Quote.read? cs).map fun (s, rest) => (.string (String.ofList s), rest)
    | _ => Scalar.read? cs

def heading? : List Char → Option (Section × List Char)
  | '[' :: '[' :: cs => do
    let (k, rest) ← key? (skipBlanks cs)
    match skipBlanks rest with
    | ']' :: ']' :: rest => do some (⟨k, true, []⟩, ← lineEnd? false rest)
    | _ => none
  | '[' :: cs => do
    let (k, rest) ← key? (skipBlanks cs)
    match skipBlanks rest with
    | ']' :: rest => do some (⟨k, false, []⟩, ← lineEnd? false rest)
    | _ => none
  | _ => none

def entriesFrom (size : Nat) (acc : List (Key × Value)) :
    (fuel : Nat) → List Char → Option (List (Key × Value) × List Char)
  | 0, _ => none
  | fuel + 1, cs => do
    match ← skipTrivia? false cs with
    | [] => some (acc.reverse, [])
    | '[' :: rest => some (acc.reverse, '[' :: rest)
    | rest =>
      let (e, rest) ← assignment? (fun cs => some (skipBlanks cs)) (value? size nestingLimit) rest
      entriesFrom size (e :: acc) fuel (← lineEnd? false rest)

def sectionsFrom (size : Nat) (acc : List Section) : (fuel : Nat) → List Char → Option (List Section)
  | 0, _ => none
  | _ + 1, [] => some acc.reverse
  | fuel + 1, cs => do
    let (s, rest) ← heading? cs
    let (es, rest) ← entriesFrom size [] size rest
    sectionsFrom size ({ s with entries := es } :: acc) fuel rest

/-- The document some characters spell. No part of it has more parts of its own than there are characters. -/
def Document.ofChars? (cs : List Char) : Option Document := do
  let size := cs.length + 1
  let (es, rest) ← entriesFrom size [] size cs
  some ⟨es, ← sectionsFrom size [] size rest⟩

/-- The document a text spells, before which a byte order mark may stand. -/
def Document.read? (text : String) : Option Document :=
  match text.toList with
  | '\ufeff' :: cs => ofChars? cs
  | cs => ofChars? cs

def Table.read? (text : String) : Option Table := do (← Document.read? text).table?

end BracketTree.Toml
