import BracketTree.Rules
import BracketTree.Text.Quoted

/-! What can be held against a rule set. Every rule set can be used for grouping, so most findings are about
rules that will surprise their author; only an empty token cannot be honoured. -/

namespace BracketTree.Rules

inductive Severity where
  | warning
  | error
deriving DecidableEq, Repr

inductive TokenList where
  | extra
  | strip
deriving DecidableEq, Repr

def TokenList.name : TokenList → String
  | extra => "extra"
  | strip => "strip"

/-- One finding. -/
inductive Issue where
  | emptyToken
  | selfClosing (token : String)
  | openAndClose (token : String)
  | openIsSeparator (token : String)
  | duplicate (token : String) (place : TokenList)
deriving DecidableEq, Repr

namespace Issue

def severity : Issue → Severity
  | emptyToken => .error
  | _ => .warning

/-- The token a finding is about. -/
def token : Issue → String
  | emptyToken => ""
  | selfClosing t | openAndClose t | openIsSeparator t | duplicate t _ => t

def reason : Issue → String
  | emptyToken => "empty tokens cannot delimit text"
  | selfClosing _ =>
    "open token is its own close token; every occurrence opens and closes an empty frame"
  | openAndClose _ => "token opens one pair and closes another; the open role is applied first"
  | openIsSeparator _ => "bounds token is also listed in extra; its bounds role takes precedence"
  | duplicate _ l => "listed more than once in " ++ l.name

def message (i : Issue) : String :=
  (match i.severity with | .warning => "warning: " | .error => "error: ")
    ++ Text.quoted i.token ++ ": " ++ i.reason

def refusal (i : Issue) : String :=
  "invalid rule for token " ++ Text.quoted i.token ++ ": " ++ i.reason

end Issue

def tokens (r : Rules) : List String :=
  r.bounds.entries.flatMap (fun e => [e.1, e.2]) ++ r.extra ++ r.strip

/-- The finding about one pair: at most one, and none about an empty opening token. -/
def boundIssue? (r : Rules) (opening closing : String) : Option Issue :=
  if opening = "" then none
  else if opening = closing then some (.selfClosing opening)
  else if r.isCloser opening then some (.openAndClose opening)
  else none

def repeats : List String → (seen : List String) → List String
  | [], _ => []
  | t :: ts, seen => if t ∈ seen then t :: repeats ts seen else repeats ts (t :: seen)

def duplicates (place : TokenList) (ts : List String) : List Issue :=
  (repeats (ts.filter (· ≠ "")) []).map (.duplicate · place)

/-- Every finding: the empty token first, then pair by pair, then the tokens of pairs among the splitting
tokens, opening ones before closing ones, and last the repetitions. -/
def issues (r : Rules) : List Issue :=
  (if "" ∈ r.tokens then [.emptyToken] else [])
    ++ r.bounds.entries.filterMap (fun e => r.boundIssue? e.1 e.2)
    ++ ((r.openers ++ r.closers).eraseDups.filter (fun t => t ≠ "" && r.extra.contains t)).map
      .openIsSeparator
    ++ duplicates .extra r.extra
    ++ duplicates .strip r.strip

/-- Whether a finding stands in the way of using the rules: an error does, a warning only when `strict`. -/
def Issue.blocks (strict : Bool) (i : Issue) : Bool :=
  strict || i.severity = .error

def objection? (r : Rules) (strict : Bool) : Option Issue :=
  r.issues.find? (·.blocks strict)

end BracketTree.Rules
