import BracketTree.Wildcard.Search

/-! The files that some patterns stand for. Every pattern has to stand for one at least; the files are put in
order, and each is taken once, however many patterns stand for it. -/

namespace BracketTree.Inputs

inductive Error where
  | notFound (pattern : String)
  | invalidPattern (pattern : String) (error : Wildcard.Error)
deriving DecidableEq, Repr

def Error.message : Error → String
  | notFound p => "File not found: " ++ p
  | invalidPattern p e => "Invalid file pattern: " ++ p ++ " (" ++ e.message ++ ")"

def found (fs : FileSystem) (pattern : String) : Except Error (List String) :=
  match Wildcard.search fs pattern with
  | .error e => .error (.invalidPattern pattern e)
  | .ok paths =>
    match paths.filter fs.isFile with
    | [] => .error (.notFound pattern)
    | files => .ok files

/-- Whether a path does not come after another. -/
def inOrder (p q : String) : Bool := !Path.before (Path.components q) (Path.components p)

def same (p q : String) : Bool := Path.components p = Path.components q

def dropSame (p : String) : List String → List String
  | [] => []
  | q :: qs => if same p q then dropSame p qs else q :: dropSame q qs

/-- Of paths that are the same and stand together, only the first is kept. -/
def distinct : List String → List String
  | [] => []
  | p :: ps => p :: dropSame p ps

def resolve (fs : FileSystem) (patterns : List String) : Except Error (List String) := do
  .ok (distinct ((← patterns.mapM (found fs)).flatten.mergeSort inOrder))

end BracketTree.Inputs
