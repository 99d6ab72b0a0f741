import BracketTree.Toml.Reader

/-! Writing TOML: keys, strings and arrays of strings. -/

namespace BracketTree.Toml

/-- A name as a key: bare if it can be, otherwise quoted on one line. -/
def writeKey (name : String) : List Char :=
  let cs := name.toList
  if !cs.isEmpty && cs.all isBareChar then cs else (Quote.ofKey cs).write cs

def writeText (text : String) : List Char :=
  let cs := text.toList
  (Quote.ofText cs).write cs

def writeTexts : List String → List Char
  | [] => ['[', ']']
  | [t] => '[' :: (writeText t ++ [']'])
  | ts => ['[', '\n'] ++ (ts.flatMap fun t => [' ', ' ', ' ', ' '] ++ writeText t ++ [',', '\n']) ++ [']']

def writeEntry (name : String) (value : List Char) : List Char :=
  writeKey name ++ [' ', '=', ' '] ++ value ++ ['\n']

end BracketTree.Toml
