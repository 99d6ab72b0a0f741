/-! TOML documents as values. A table remembers how it came about, because that decides what later lines may
still add to it: a table with a heading of its own is not given a second one, the tables along a dotted key
grow by dotted keys only, and a table written inside braces is complete. -/

namespace BracketTree.Toml

inductive Origin where
  | heading
  /-- It is named on the way in a heading of a table inside it. -/
  | passing
  | dotted
  | braces
deriving DecidableEq, Repr

/-- A value. Of numbers that are not whole, nothing is known but that they are there. -/
inductive Value where
  | string (text : String)
  | integer (n : Int)
  | boolean (b : Bool)
  | float
  /-- A number that is larger than numbers can be, which does no harm where nobody looks at it. -/
  | tooLarge
  | dateTime (text : String)
  | array (items : List Value)
  | table (origin : Origin) (entries : List (String × Value))
  /-- Tables under one repeated heading. The last of them can grow; of those before it, the latest comes
  first. -/
  | tables (earlier : List (List (String × Value))) (last : List (String × Value))

abbrev Table := List (String × Value)

structure Key where
  way : List String := []
  name : String
deriving DecidableEq, Repr

namespace Value

def text? : Value → Option String
  | string s => some s
  | _ => none

def items? : Value → Option (List Value)
  | array vs => some vs
  | tables earlier last => some ((last :: earlier).reverse.map (table .heading))
  | _ => none

def texts? (v : Value) : Option (List String) := do (← v.items?).mapM text?

/-- The key under which a date or time stands where entries are expected. -/
def dateTimeKey : String := "$__toml_private_datetime"

def entries? : Value → Option Table
  | table _ es => some es
  | dateTime text => some [(dateTimeKey, string text)]
  | _ => none

mutual
def isSound : Value → Bool
  | tooLarge => false
  | array vs => areSound vs
  | table _ es => areSoundEntries es
  | tables earlier last => areSoundTables earlier && areSoundEntries last
  | _ => true

def areSound : List Value → Bool
  | [] => true
  | v :: vs => v.isSound && areSound vs

def isSoundEntry : String × Value → Bool
  | (_, v) => v.isSound

def areSoundEntries : List (String × Value) → Bool
  | [] => true
  | e :: es => isSoundEntry e && areSoundEntries es

def areSoundTables : List (List (String × Value)) → Bool
  | [] => true
  | t :: ts => areSoundEntries t && areSoundTables ts
end

end Value

namespace Table

def replace (t : Table) (k : String) (v : Value) : Table :=
  t.map fun e => if e.1 = k then (k, v) else e

/-- Adds an entry by a key. Tables that are missing on the way are made. Only a table that a dotted key has
made takes the entry, and no key is taken twice. -/
def assign (v : Value) (name : String) : (way : List String) → Table → Option Table
  | [], t => if (t.lookup name).isSome then none else some (t ++ [(name, v)])
  | k :: way, t =>
    match t.lookup k with
    | none => do some (t ++ [(k, .table .dotted (← assign v name way []))])
    | some (.table .dotted es) => do some (replace t k (.table .dotted (← assign v name way es)))
    | some (.table .passing es) =>
      if way.isEmpty then none else do some (replace t k (.table .passing (← assign v name way es)))
    | some (.tables earlier last) =>
      if way.isEmpty then none else do some (replace t k (.tables earlier (← assign v name way last)))
    | some _ => none

def assignAll (es : List (Key × Value)) (t : Table) : Option Table :=
  es.foldlM (fun t e => assign e.2 e.1.name e.1.way t) t

/-- Makes room at the end of the way a heading names, and fills it from what is there. A table that was so far
only passed by gets its heading now. -/
def place (fill : Table → Option Table) (name : String) (repeated : Bool) :
    (way : List String) → Table → Option Table
  | [], t =>
    match t.lookup name with
    | none => do
      let new ← fill []
      some (t ++ [(name, if repeated then .tables [] new else .table .heading new)])
    | some (.table .passing es) =>
      if repeated then none else do some (replace t name (.table .heading (← fill es)))
    | some (.tables earlier last) =>
      if repeated then do some (replace t name (.tables (last :: earlier) (← fill []))) else none
    | some _ => none
  | k :: way, t =>
    match t.lookup k with
    | none => do some (t ++ [(k, .table .passing (← place fill name repeated way []))])
    | some (.table .braces _) => none
    | some (.table o es) => do some (replace t k (.table o (← place fill name repeated way es)))
    | some (.tables earlier last) =>
      do some (replace t k (.tables earlier (← place fill name repeated way last)))
    | some _ => none

end Table

structure Section where
  key : Key
  repeated : Bool
  entries : List (Key × Value)

structure Document where
  entries : List (Key × Value)
  sections : List Section

def Document.table? (d : Document) : Option Table := do
  d.sections.foldlM (fun t s => Table.place (Table.assignAll s.entries) s.key.name s.repeated s.key.way t)
    (← Table.assignAll d.entries [])

end BracketTree.Toml
