import BracketTree.FileSystem
import BracketTree.Wildcard

/-! Searching a file system for the paths that a pattern stands for. A pattern is taken component by component.
A component that spells a name is followed without looking around; any other is compared with the names in the
directory. The paths that are found begin as the pattern does, without a leading dot and with single slashes. -/

namespace BracketTree.Wildcard

abbrev Pattern := List Token

def Pattern.isDeep (p : Pattern) : Bool := p = [.anyDepth]

def Pattern.isDotted (p : Pattern) : Bool := p.head? = some (.char '.')

/-- What lies between the slashes of a pattern; behind the last slash nothing is expected. -/
def componentTexts (pattern : String) : List String :=
  let ps := Path.parts pattern
  if ps.getLast? = some "" then ps.dropLast else ps

/-- The components of a pattern, and whether they start at the root. The pattern is checked as a whole first,
so that what is wrong is found where the slashes do not matter. -/
def components (pattern : String) : Except Error (Bool × List Pattern) := do
  let _ ← tokens pattern
  if Path.isAbsolute pattern then
    let ps ← (componentTexts (String.ofList pattern.toList.tail)).mapM tokens
    .ok (true, if ps.isEmpty then [[]] else ps)
  else
    let ps ← (componentTexts pattern).mapM tokens
    .ok (false, if ps.isEmpty then [[]] else ps)

/-- The path of a name in a directory. The directory from which paths start is not mentioned. -/
def step (directory name : String) : String :=
  if Path.components directory = [.current] then name else Path.join directory name

def arrives (fs : FileSystem) (mustBeDirectory : Bool) (path : String) : Bool :=
  !mustBeDirectory || fs.isDirectory path

def hasName (fs : FileSystem) (directory name : String) : Bool :=
  if name = "." || name = ".." then fs.isDirectory directory else fs.contains (step directory name)

/-- The paths below a directory that components stand for, in the order of their names. Directories are entered
`fuel` times at most. -/
def searchFrom (fs : FileSystem) (mustBeDirectory : Bool) : (fuel : Nat) → List Pattern → String → List String
  | 0, _, _ => []
  | _, [], _ => []
  | fuel + 1, p :: ps, directory =>
    let goOn (path : String) : List String :=
      if ps.isEmpty then (if arrives fs mustBeDirectory path then [path] else [])
      else searchFrom fs mustBeDirectory fuel ps path
    match literal? p with
    | some name => if hasName fs directory name then goOn (step directory name) else []
    | none =>
      if !fs.isDirectory directory then []
      else
        let dots :=
          if p.isDotted then
            ([ "..", "."].filter fun name => accepts p name).flatMap fun name =>
              goOn (Path.join directory name)
          else []
        dots ++ (fs.list directory).flatMap fun name =>
          let path := step directory name
          if p.isDeep then
            let rest := ps.dropWhile Pattern.isDeep
            let here :=
              match rest with
              | [] => if fs.isDirectory path then [path] else []
              | q :: qs =>
                if accepts q name then
                  if qs.isEmpty then (if arrives fs mustBeDirectory path then [path] else [])
                  else searchFrom fs mustBeDirectory fuel qs path
                else []
            here ++ if fs.isDirectory path then searchFrom fs mustBeDirectory fuel (p :: rest) path else []
          else if accepts p name then goOn path
          else []

/-- The paths a pattern stands for. Each component is worked through in directories inside one another, and of
these there are no more than there are entries. -/
def search (fs : FileSystem) (pattern : String) : Except Error (List String) := do
  let (fromRoot, ps) ← components pattern
  .ok (searchFrom fs (pattern.toList.getLast? = some '/') (ps.length * (fs.entries.length + 1) + 1) ps
    (if fromRoot then "/" else "."))

end BracketTree.Wildcard
