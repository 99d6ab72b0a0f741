import BracketTree.Toml

/-! Numbers, truth values, dates and times in TOML. Each is a run of letters, digits and a few marks, and is
looked at as a whole. -/

namespace BracketTree.Toml.Scalar

/-- The digits of a number in which single underscores may stand between digits. -/
def ungrouped? (isDigit : Char → Bool) : List Char → Option (List Char)
  | [] => none
  | [c] => if isDigit c then some [c] else none
  | c :: '_' :: cs => if isDigit c then (ungrouped? isDigit cs).map (c :: ·) else none
  | c :: cs => if isDigit c then (ungrouped? isDigit cs).map (c :: ·) else none

def digitValue (c : Char) : Nat :=
  if c.isDigit then c.toNat - '0'.toNat else c.toLower.toNat - 'a'.toNat + 10

def number (base : Nat) (digits : List Char) : Nat :=
  digits.foldl (fun n c => min (Nat.pow 2 128) (base * n + digitValue c)) 0

def isDigitBelow (base : Nat) (c : Char) : Bool :=
  (c.isDigit || ('a' ≤ c && c ≤ 'f') || ('A' ≤ c && c ≤ 'F')) && digitValue c < base

def sign : List Char → Int × List Char
  | '+' :: cs => (1, cs)
  | '-' :: cs => (-1, cs)
  | cs => (1, cs)

def wholeDigits? (cs : List Char) : Option (List Char) := do
  match ← ungrouped? Char.isDigit cs with
  | '0' :: _ :: _ => none
  | ds => some ds

def integer? : List Char → Option Int
  | '0' :: 'x' :: cs => (ungrouped? (isDigitBelow 16) cs).map fun ds => number 16 ds
  | '0' :: 'o' :: cs => (ungrouped? (isDigitBelow 8) cs).map fun ds => number 8 ds
  | '0' :: 'b' :: cs => (ungrouped? (isDigitBelow 2) cs).map fun ds => number 2 ds
  | cs => (wholeDigits? (sign cs).2).map fun ds => (sign cs).1 * number 10 ds

/-- A whole number, if it fits: without a sign into 128 bits, and with a minus so that a sign bit is left. -/
def ofInteger (n : Int) : Value := if -Nat.pow 2 127 ≤ n ∧ n < Nat.pow 2 128 then .integer n else .tooLarge

/-- An exponent without its mark. The digits after the one that brings it beyond `0xffff` do not count. -/
def exponent? (cs : List Char) : Option Int := do
  let ds ← ungrouped? Char.isDigit (sign cs).2
  some ((sign cs).1 * (ds.foldl (fun n c => if n < 0x10000 then 10 * n + digitValue c else n) 0 : Nat))

def floatBound : Nat := Nat.pow 2 1024 - Nat.pow 2 970

/-- Whether a number with these digits before and after the point, moved on by an exponent, reaches
`floatBound`. That is seen from the number of its digits before the point, and if they are as many as those of
`floatBound`, from the digits themselves. -/
def reachesBound (whole fraction : List Char) (exponent : Int) : Bool :=
  let ds := (whole ++ fraction).dropWhile (· = '0')
  let before := ds.length + exponent - fraction.length
  let leading := (ds ++ List.replicate 309 '0').take 309
  !ds.isEmpty
    && (309 < before || (before = 309 && floatBound ≤ leading.foldl (fun n c => 10 * n + digitValue c) 0))

def decimal? (cs : List Char) : Option Value := do
  let (mantissa, power) := cs.span fun c => c ≠ 'e' && c ≠ 'E'
  let (whole, point) := mantissa.span (· ≠ '.')
  if point.isEmpty && power.isEmpty then none
  else
    let whole ← wholeDigits? whole
    let fraction ← if point.isEmpty then some [] else ungrouped? Char.isDigit point.tail
    let exponent ← if power.isEmpty then some 0 else exponent? power.tail
    some (if reachesBound whole fraction exponent then .tooLarge else .float)

def float? (cs : List Char) : Option Value :=
  let (_, cs) := sign cs
  if cs = ['i', 'n', 'f'] || cs = ['n', 'a', 'n'] then some .float else decimal? cs

def digits? (count : Nat) (cs : List Char) : Option (Nat × List Char) :=
  let ds := cs.take count
  if ds.length = count && ds.all Char.isDigit then some (number 10 ds, cs.drop count) else none

def mark? (m : Char) : List Char → Option (List Char)
  | c :: cs => if c = m then some cs else none
  | [] => none

def daysIn (year month : Nat) : Nat :=
  if month = 2 then
    if year % 4 = 0 && (year % 100 ≠ 0 || year % 400 = 0) then 29 else 28
  else if month ∈ [4, 6, 9, 11] then 30
  else 31

def date? (cs : List Char) : Option (List Char × List Char) := do
  let (year, rest) ← digits? 4 cs
  let (month, rest) ← digits? 2 (← mark? '-' rest)
  let (day, rest) ← digits? 2 (← mark? '-' rest)
  if 1 ≤ month && month ≤ 12 && 1 ≤ day && day ≤ daysIn year month then some (cs.take 10, rest) else none

def hourMinute? (cs : List Char) : Option (List Char × List Char) := do
  let (hour, rest) ← digits? 2 cs
  let (minute, rest) ← digits? 2 (← mark? ':' rest)
  if hour ≤ 23 && minute ≤ 59 then some (cs.take 5, rest) else none

/-- The fraction of a second that digits spell: nine digits count, and zeros at the end are not written. -/
def secondFraction (ds : List Char) : List Char :=
  match (ds.take 9).reverse.dropWhile (· = '0') with
  | [] => []
  | kept => '.' :: kept.reverse

/-- A time, and the rest. The seconds may be missing, and a leap second is one; written in full, seconds are
there. -/
def time? (cs : List Char) : Option (List Char × List Char) := do
  match ← hourMinute? cs with
  | (start, ':' :: cs) =>
    let (second, rest) ← digits? 2 cs
    if second ≤ 60 then
      let start := start ++ ':' :: cs.take 2
      match rest with
      | '.' :: rest =>
        match rest.span Char.isDigit with
        | ([], _) => none
        | (ds, rest) => some (start ++ secondFraction ds, rest)
      | _ => some (start, rest)
    else none
  | (start, rest) => some (start ++ [':', '0', '0'], rest)

/-- Nothing, or a distance from universal time. No distance at all is never written with a minus. -/
def offset? : List Char → Option (List Char)
  | [] => some []
  | ['Z'] | ['z'] => some ['Z']
  | '+' :: cs => do
    match ← hourMinute? cs with
    | (distance, []) => some ('+' :: distance)
    | _ => none
  | '-' :: cs => do
    match ← hourMinute? cs with
    | (distance, []) => some ((if distance.any (fun c => '1' ≤ c && c ≤ '9') then '-' else '+') :: distance)
    | _ => none
  | _ => none

def dateTime? (cs : List Char) : Option (List Char) :=
  match date? cs with
  | some (date, []) => some date
  | some (date, c :: cs) =>
    if c = 'T' || c = 't' || c = ' ' then do
      let (time, rest) ← time? cs
      some (date ++ 'T' :: time ++ (← offset? rest))
    else none
  | none => do
    match ← time? cs with
    | (time, []) => some time
    | _ => none

def value? (cs : List Char) : Option Value :=
  if cs = ['t', 'r', 'u', 'e'] then some (.boolean true)
  else if cs = ['f', 'a', 'l', 's', 'e'] then some (.boolean false)
  else if let some n := integer? cs then some (ofInteger n)
  else if let some v := float? cs then some v
  else (dateTime? cs).map fun text => .dateTime (String.ofList text)

def isScalarChar (c : Char) : Bool := c.isAlphanum || c ∈ ['+', '-', '_', '.', ':']

def looksLikeDate : List Char → Bool
  | [a, b, c, d, '-', e, f, '-', g, h] => [a, b, c, d, e, f, g, h].all Char.isDigit
  | _ => false

def read? (cs : List Char) : Option (Value × List Char) :=
  let (run, rest) := cs.span isScalarChar
  match rest with
  | ' ' :: c :: rest' =>
    if looksLikeDate run && c.isDigit then
      let (time, rest) := (c :: rest').span isScalarChar
      (value? (run ++ ' ' :: time)).map (·, rest)
    else (value? run).map (·, rest)
  | _ => (value? run).map (·, rest)

end BracketTree.Toml.Scalar
