import CodeAtlas.OrderedMap
import CodeAtlas.Text.Blank
import CodeAtlas.Text.Split

namespace CodeAtlas.Host.EnvFile

open Text

def isLineEnd (c : Char) : Bool := c = '\n' || c = '\r'

def isSpace (c : Char) : Bool := isBlank c && !isLineEnd c

def skipSpaces (cs : List Char) : List Char := cs.dropWhile isSpace

def skipLine (cs : List Char) : List Char := (cs.dropWhile (!isLineEnd ·)).drop 1

def skipExport (cs : List Char) : List Char :=
  match dropHead? "export".toList cs with
  | some rest => if rest.head?.any isSpace then skipSpaces rest else cs
  | none => cs

def readName? (cs : List Char) : Option (List Char × List Char) :=
  match cs with
  | '\'' :: rest =>
    let name := rest.takeWhile (· ≠ '\'')
    match rest.dropWhile (· ≠ '\'') with
    | _ :: more => if name.isEmpty then none else some (name, more)
    | [] => none
  | _ =>
    let isPart := fun c => c ≠ '=' && c ≠ '#' && !isBlank c
    let name := cs.takeWhile isPart
    if name.isEmpty then none else some (name, cs.dropWhile isPart)

def readEscaped (quote : Char) : List Char → Option (List Char × List Char)
  | [] => none
  | '\\' :: c :: rest =>
    (readEscaped quote rest).map fun (text, more) => ('\\' :: c :: text, more)
  | c :: rest =>
    if c = quote then some ([], rest)
    else (readEscaped quote rest).map fun (text, more) => (c :: text, more)

def doubleEscape (c : Char) : Option Char :=
  match c with
  | '\\' | '\'' | '"' => some c
  | 'a' => some '\x07'
  | 'b' => some '\x08'
  | 'f' => some '\x0c'
  | 'n' => some '\n'
  | 'r' => some '\r'
  | 't' => some '\t'
  | 'v' => some '\x0b'
  | _ => none

def singleEscape (c : Char) : Option Char := if c = '\\' || c = '\'' then some c else none

def unescape (meaning : Char → Option Char) : List Char → List Char
  | [] => []
  | [c] => [c]
  | c :: d :: rest =>
    match if c = '\\' then meaning d else none with
    | some e => e :: unescape meaning rest
    | none => c :: unescape meaning (d :: rest)

def cutComment : List Char → List Char
  | [] => []
  | c :: rest =>
    if isBlank c && (rest.dropWhile isBlank).head? = some '#' then [] else c :: cutComment rest

def readValue? (cs : List Char) : Option (List Char × List Char) :=
  match skipSpaces cs with
  | '\'' :: rest => (readEscaped '\'' rest).map fun (v, more) => (unescape singleEscape v, more)
  | '"' :: rest => (readEscaped '"' rest).map fun (v, more) => (unescape doubleEscape v, more)
  | _ =>
    let line := cutComment (cs.takeWhile (!isLineEnd ·))
    some (trimEnd (skipSpaces line), cs.dropWhile (!isLineEnd ·))

def endLine? (cs : List Char) : Option (List Char) :=
  match skipSpaces cs with
  | [] => some []
  | c :: rest =>
    if c = '#' then some (skipLine rest) else if isLineEnd c then some rest else none

abbrev Binding := List Char × Option (List Char)

def readBinding (cs : List Char) : Option Binding × List Char :=
  let cs := skipExport cs
  if cs.head? = some '#' then (none, skipLine cs)
  else
    match readName? cs with
    | none => (none, skipLine cs)
    | some (name, rest) =>
      let finish := fun (value : Option (List Char)) (rest : List Char) =>
        match endLine? rest with
        | some more => (some (name, value), more)
        | none => (none, skipLine rest)
      match skipSpaces rest with
      | '=' :: rest =>
        match readValue? rest with
        | some (value, more) => finish (some value) more
        | none => (none, skipLine rest)
      | rest => finish none rest

def readBindings : Nat → List Char → List Binding
  | 0, _ => []
  | fuel + 1, cs =>
    match trimStart cs with
    | [] => []
    | cs =>
      let (binding, rest) := readBinding cs
      binding.toList ++ readBindings fuel rest

/-- A reference to a variable at the start of a text: its name, what stands in for it if it is not
bound, and the length of the reference. -/
def reference? (cs : List Char) : Option (List Char × List Char × Nat) :=
  match cs with
  | '$' :: '\x7b' :: rest =>
    let name := rest.takeWhile fun c => c ≠ '\x7d' && c ≠ ':'
    match rest.drop name.length with
    | '\x7d' :: _ => some (name, [], name.length + 3)
    | ':' :: '-' :: more =>
      let standIn := more.takeWhile (· ≠ '\x7d')
      if (more.drop standIn.length).isEmpty then none
      else some (name, standIn, name.length + standIn.length + 5)
    | _ => none
  | _ => none

/-- Puts the values of variables in the places of references to them. `skip` characters belong to a
reference already replaced. -/
def expand (value : List Char → List Char → List Char) : Nat → List Char → List Char
  | _, [] => []
  | skip + 1, _ :: rest => expand value skip rest
  | 0, c :: rest =>
    match reference? (c :: rest) with
    | some (name, standIn, length) => value name standIn ++ expand value (length - 1) rest
    | none => c :: expand value 0 rest

abbrev Variables := OrderedMap String (Option String)

def valueOf (outer : List (String × String)) (vars : Variables) (name standIn : List Char) :
    List Char :=
  let name := String.ofList name
  match vars.get? name with
  | some v => (v.getD "").toList
  | none => ((outer.reverse.find? fun e => e.1 == name).map fun e => e.2.toList).getD standIn

def read (outer : List (String × String)) (text : String) : Variables :=
  let cs := text.toList
  (readBindings (cs.length + 1) cs).foldl (fun vars (name, value) =>
    vars.insert (String.ofList name)
      (value.map fun v => String.ofList (expand (valueOf outer vars) 0 v))) ∅

end CodeAtlas.Host.EnvFile
