import CodeAtlas.Text.Blank
import CodeAtlas.Text.Split
import CodeAtlas.Text.Word

namespace CodeAtlas.Source

open Text

def skipBlanks (cs : List Char) : List Char := cs.dropWhile isBlank

def blanks? (cs : List Char) : Option (List Char) :=
  match cs with
  | c :: rest => if isBlank c then some (skipBlanks rest) else none
  | [] => none

def word? (w : String) (cs : List Char) : Option (List Char) := dropHead? w.toList cs

def oneOf? (ws : List String) (cs : List Char) : Option (String × List Char) :=
  ws.findSome? fun w => (word? w cs).map fun rest => (w, rest)

def atWordEnd (cs : List Char) : Bool :=
  match cs with
  | c :: _ => !isWord c
  | [] => true

def wordChars? (cs : List Char) : Option (List Char × List Char) :=
  match cs.takeWhile isWord with
  | [] => none
  | w => some (w, cs.dropWhile isWord)

def identifier? (cs : List Char) : Option (List Char × List Char) :=
  match cs with
  | c :: rest =>
    if isAsciiLower c || c = '_' then some (c :: rest.takeWhile isWord, rest.dropWhile isWord)
    else none
  | [] => none

def optional (set : List Char) (cs : List Char) : List Char × List Char :=
  match cs with
  | c :: rest => if set.contains c then ([c], rest) else ([], cs)
  | [] => ([], [])

def methodName? (cs : List Char) : Option (List Char × List Char) :=
  (identifier? cs).map fun (name, rest) =>
    let (mark, rest) := optional ['?', '!'] rest
    (name ++ mark, rest)

def pathTail : List Char → List Char × List Char
  | [] => ([], [])
  | ':' :: ':' :: c :: rest =>
    if isAsciiUpper c then
      let (more, rest) := pathTail rest
      (':' :: ':' :: c :: more, rest)
    else ([], ':' :: ':' :: c :: rest)
  | c :: rest =>
    if isWord c then
      let (more, rest) := pathTail rest
      (c :: more, rest)
    else ([], c :: rest)

def relativePath? (cs : List Char) : Option (List Char × List Char) :=
  match cs with
  | c :: rest =>
    if isAsciiUpper c then
      let (more, rest) := pathTail rest
      some (c :: more, rest)
    else none
  | [] => none

def constantPath? (cs : List Char) : Option (List Char × List Char) :=
  match cs with
  | ':' :: ':' :: rest => (relativePath? rest).map fun (path, rest) => (':' :: ':' :: path, rest)
  | _ => relativePath? cs

def dropColons (path : List Char) : List Char := path.dropWhile (· = ':')

def assigns (cs : List Char) : Bool :=
  match skipBlanks cs with
  | '=' :: c :: _ => !(['=', '~', '>'].contains c)
  | '=' :: [] => true
  | _ => false

def endsInWord (word : String) (cs : List Char) : Bool :=
  match dropHead? word.toList.reverse ((trimEnd cs).reverse) with
  | some before => atWordEnd before
  | none => false

end CodeAtlas.Source
