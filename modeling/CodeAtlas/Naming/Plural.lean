import CodeAtlas.Naming.Words

namespace CodeAtlas.Naming

open Text

def irregular : List (String × String) :=
  [("person", "people"), ("man", "men"), ("woman", "women"), ("child", "children"),
   ("mouse", "mice"), ("tooth", "teeth"), ("foot", "feet"), ("goose", "geese"), ("ox", "oxen")]

def uncountable : List String :=
  ["equipment", "information", "series", "species", "news", "data"]

def isUncountable (w : List Char) : Bool := uncountable.any fun u => u.toList == w

def irregularPlural? (w : List Char) : Option (List Char) :=
  (irregular.find? fun row => row.1.toList == w).map fun row => row.2.toList

def irregularSingular? (w : List Char) : Option (List Char) :=
  (irregular.find? fun row => row.2.toList == w).map fun row => row.1.toList

def dropFinalNewline (cs : List Char) : List Char :=
  if cs.getLast? = some '\n' then cs.dropLast else cs

/-- What stands before the last word, and the last word: small letters and digits at the end, with
one capital in front of them if there is one. A name that does not end so is its own last word. -/
def splitLastWord (name : List Char) : List Char × List Char :=
  let backwards := (dropFinalNewline name).reverse
  let word := (backwards.takeWhile isLowerOrDigit).reverse
  match word, backwards.dropWhile isLowerOrDigit with
  | [], _ => ([], name)
  | _, [] => ([], word)
  | _, c :: front => if isAsciiUpper c then (front.reverse, c :: word)
                     else ((c :: front).reverse, word)

def matchCase (model word : List Char) : List Char :=
  if startsUpper model then capitalize word else word

def endsInOneOf (endings : List String) (cs : List Char) : Bool :=
  endings.any fun e => e.toList.isSuffixOf cs || e.toList.isSuffixOf (dropFinalNewline cs)

def isVowel (c : Char) : Bool := ['a', 'e', 'i', 'o', 'u'].contains c

def endsInConsonantY (cs : List Char) : Bool :=
  match (dropFinalNewline cs).reverse with
  | 'y' :: c :: _ => !isVowel c
  | _ => false

def dropEnd (n : Nat) (cs : List Char) : List Char := cs.take (cs.length - n)

def plural (name : List Char) : List Char :=
  if name.isEmpty then name
  else
    let (front, last) := splitLastWord name
    let word := lower last
    if isUncountable word || (irregularSingular? word).isSome then name
    else
      match irregularPlural? word with
      | some many => front ++ matchCase last many
      | none =>
        if endsInConsonantY word then dropEnd 1 name ++ ['i', 'e', 's']
        else if endsInOneOf ["s", "x", "z", "ch", "sh"] word then name ++ ['e', 's']
        else name ++ ['s']

def singular (name : List Char) : List Char :=
  if name.isEmpty then name
  else
    let (front, last) := splitLastWord name
    let word := lower last
    if isUncountable word || (irregularPlural? word).isSome then name
    else
      match irregularSingular? word with
      | some one => front ++ matchCase last one
      | none =>
        if ['i', 'e', 's'].isSuffixOf word && 3 < word.length then dropEnd 3 name ++ ['y']
        else if endsInOneOf ["sses", "xes", "zes", "ches", "shes"] word then dropEnd 2 name
        else if ['s', 's'].isSuffixOf word then name
        else if ['s'].isSuffixOf word then dropEnd 1 name
        else name

def pluralize (name : String) : String := String.ofList (plural name.toList)

def singularize (name : String) : String := String.ofList (singular name.toList)

def tableize (model : String) : String :=
  String.ofList (plural (underscored (lastSegment model.toList)))

def classify (table : String) : String := String.ofList (camelized (singular table.toList))

end CodeAtlas.Naming
