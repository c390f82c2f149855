import CodeAtlas.Text.Case
import CodeAtlas.Text.Split
import CodeAtlas.Text.Word

namespace CodeAtlas.Naming

open Text

def isLowerOrDigit (c : Char) : Bool := isAsciiLower c || isAsciiDigit c

/-- A new word starts at `d`: after a small letter or digit at any capital, after a capital only at
a capital that a small letter follows. -/
def startsWord (c d : Char) (next : Option Char) : Bool :=
  isAsciiUpper d && (isLowerOrDigit c || (isAsciiUpper c && next.any isAsciiLower))

def separateWords : List Char → List Char
  | [] => []
  | [c] => [c]
  | c :: d :: rest =>
    if startsWord c d rest.head? then c :: '_' :: separateWords (d :: rest)
    else c :: separateWords (d :: rest)

def underscored (name : List Char) : List Char :=
  joinWith ['/'] ((splitPath name).map fun part => lower (separateWords part))

def camelWord (segment : List Char) : List Char :=
  ((splitOn '_' segment).map capitalize).flatten

def camelized (path : List Char) : List Char :=
  joinWith [':', ':'] ((splitOn '/' path).map camelWord)

def underscore (name : String) : String := String.ofList (underscored name.toList)

def camelize (path : String) : String := String.ofList (camelized path.toList)

end CodeAtlas.Naming
