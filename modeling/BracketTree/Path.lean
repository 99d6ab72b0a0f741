/-! Paths as text, and the components they are made of. Two paths with the same components name the same place,
and paths are put in order by their components, so that what is in a directory stands together. -/

namespace BracketTree.Path

inductive Component where
  | root
  | current
  | parent
  | name (text : String)
deriving DecidableEq, Repr

def splitSlashes : List Char → List (List Char)
  | [] => [[]]
  | c :: cs =>
    if c = '/' then [] :: splitSlashes cs
    else
      match splitSlashes cs with
      | [] => [[c]]
      | p :: ps => (c :: p) :: ps

def parts (path : String) : List String := (splitSlashes path.toList).map String.ofList

/-- The component a part stands for: nothing at all and a single dot stand for none. -/
def Component.ofPart? (part : String) : Option Component :=
  if part = "" || part = "." then none
  else if part = ".." then some .parent
  else some (.name part)

def isAbsolute (path : String) : Bool := path.toList.head? = some '/'

/-- The components of a path. A single dot counts only when the path begins with it. -/
def components (path : String) : List Component :=
  (if isAbsolute path then [.root]
    else if (parts path).head? = some "." then [.current]
    else [])
    ++ (parts path).filterMap Component.ofPart?

def join (directory name : String) : String :=
  if directory = "" || directory.toList.getLast? = some '/' then directory ++ name
  else directory ++ "/" ++ name

def Component.rank : Component → Nat
  | root => 0
  | current => 1
  | parent => 2
  | name _ => 3

/-- The order of components: by kind, and names by their characters. -/
def Component.before : Component → Component → Bool
  | name s, name t => s < t
  | a, b => a.rank < b.rank

/-- Whether one list of components comes before another: the first difference decides, and a list comes before
those that go on from it. -/
def before : List Component → List Component → Bool
  | _, [] => false
  | [], _ :: _ => true
  | a :: as, b :: bs => if a = b then before as bs else a.before b

def fileName? (path : String) : Option String :=
  match (components path).getLast? with
  | some (.name s) => some s
  | _ => none

/-- What follows the last dot of the name a path ends with, if anything lies before that dot. -/
def extension? (path : String) : Option String := do
  let backwards := (← fileName? path).toList.reverse
  match backwards.dropWhile (· ≠ '.') with
  | [] | ['.'] => none
  | _ => some (String.ofList (backwards.takeWhile (· ≠ '.')).reverse)

end BracketTree.Path
