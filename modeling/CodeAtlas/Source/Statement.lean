import CodeAtlas.Source.Header
import CodeAtlas.Source.Node

namespace CodeAtlas.Source

open Text

def visibilityLine? (line : List Char) : Option Visibility :=
  match visibilityWord? line with
  | some (v, rest) => if (skipBlanks rest).isEmpty then some v else none
  | none => none

def symbol? (cs : List Char) : Option (List Char × List Char) :=
  match cs with
  | ':' :: rest =>
    (wordChars? rest).map fun (name, rest) =>
      let (mark, rest) := optional ['?', '!'] rest
      (name ++ mark, rest)
  | _ => none

def symbols (cs : List Char) : List String :=
  (findAll (fun _ cs => (symbol? cs).map fun (name, rest) => (name, taken cs rest)) cs).map
    fun m => String.ofList m.2

def symbolsToEnd : Nat → List Char → Bool
  | 0, _ => false
  | fuel + 1, cs =>
    match symbol? cs with
    | none => false
    | some (_, rest) =>
      match skipBlanks rest with
      | [] => true
      | ',' :: rest => symbolsToEnd fuel (skipBlanks rest)
      | _ => false

def visibilityOf? (line : List Char) : Option (Visibility × List String) := do
  let (v, rest) ← visibilityWord? line
  let rest ← blanks? rest
  if symbolsToEnd (rest.length + 1) rest then some (v, symbols rest) else none

def optionValue? (cs : List Char) : Option (List Char × List Char) :=
  let isPart := fun (c : Char) => isWord c || c = ':'
  match cs with
  | ':' :: c :: rest =>
    if isWord c then some (':' :: c :: rest.takeWhile isPart, rest.dropWhile isPart) else none
  | c :: rest =>
    if isWord c then some (c :: rest.takeWhile isPart, rest.dropWhile isPart)
    else if isQuote c then
      match rest.dropWhile (!isQuote ·) with
      | q :: after => some (c :: rest.takeWhile (!isQuote ·) ++ [q], after)
      | [] => none
    else none
  | [] => none

def option? (cs : List Char) : Option ((List Char × List Char) × Nat) :=
  match wordChars? cs with
  | some (key, ':' :: rest) =>
    (optionValue? (skipBlanks rest)).map fun (value, rest) => ((key, value), taken cs rest)
  | _ => none

def options (cs : List Char) : List (String × String) :=
  (findAll (fun _ cs => option? cs) cs).foldl
    (fun acc (_, key, value) =>
      Assoc.insert (String.ofList key) (String.ofList (trimSet ['\x27', '"', ':'] value)) acc) []

structure AssociationLine where
  kind : AssociationKind
  name : String
  options : List (String × String)
  deriving DecidableEq, Repr

def association? (line : List Char) : Option AssociationLine := do
  let kinds : List AssociationKind := [.hasMany, .hasOne, .belongsTo, .hasAndBelongsToMany]
  let (kind, rest) ← kinds.findSome? fun k =>
    ((word? k.name line).bind blanks?).map fun rest => (k, rest)
  match rest with
  | ':' :: rest =>
    let (name, rest) ← wordChars? rest
    let tail :=
      match skipBlanks rest with
      | ',' :: rest => skipBlanks rest
      | _ => []
    some ⟨kind, String.ofList name, options tail⟩
  | _ => none

def pathList : Nat → List Char → List (List Char)
  | 0, _ => []
  | fuel + 1, cs =>
    match constantPath? cs with
    | none => []
    | some (path, rest) =>
      match skipBlanks rest with
      | ',' :: rest => path :: pathList fuel (skipBlanks rest)
      | _ => [path]

def mixins? (line : List Char) : Option (List Mixin) := do
  let kinds : List DependencyKind := [.included, .extended, .prepended]
  let (kind, rest) ← kinds.findSome? fun k =>
    ((word? k.name line).bind blanks?).map fun rest => (k, rest)
  match pathList (rest.length + 1) rest with
  | [] => none
  | paths => some (paths.map fun p => ⟨kind, String.ofList (dropColons p)⟩)

def hook? (line : List Char) : Option (List Char × List Char) :=
  match ["before_", "after_", "around_"].findSome? fun w =>
      (word? w line).bind fun rest => (wordChars? rest).map fun (name, rest) =>
        (w.toList ++ name, rest) with
  | some r => some r
  | none => (word? "validate" line).map fun rest => ("validate".toList, rest)

def keyword? (prev : Option Char) (cs : List Char) : Option (Unit × Nat) :=
  if prev.any isWord then none
  else
    match wordChars? cs with
    | some (_, ':' :: c :: rest) => if isBlank c then some ((), taken cs rest) else none
    | _ => none

def beforeKeyword (cs : List Char) : List Char :=
  match findAll keyword? cs with
  | [] => cs
  | (pos, _) :: _ => cs.take pos

def callback? (line : List Char) : Option (String × List String) := do
  let (hook, rest) ← hook? line
  let rest ← blanks? rest
  if rest.isEmpty then none
  else some (String.ofList hook, symbols (beforeKeyword rest))

def isConstantChar (c : Char) : Bool := isAsciiUpper c || isAsciiDigit c || c = '_'

def constant? (line : List Char) : Option (List Char × List Char) :=
  match line with
  | c :: rest =>
    if isAsciiUpper c then
      match skipBlanks (rest.dropWhile isConstantChar) with
      | '=' :: '=' :: _ => none
      | '=' :: value => some (c :: rest.takeWhile isConstantChar, skipBlanks value)
      | _ => none
    else none
  | [] => none

def require? (line : List Char) : Option (String × Bool) := do
  let (relative, rest) ←
    ((word? "require_relative" line).map fun rest => (true, rest)).or
      ((word? "require" line).map fun rest => (false, rest))
  match skipBlanks (optional ['('] (skipBlanks rest)).2 with
  | q :: c :: rest =>
    if isQuote q && !(rest.dropWhile (!isQuote ·)).isEmpty then
      some (String.ofList (c :: rest.takeWhile (!isQuote ·)), relative)
    else none
  | _ => none

end CodeAtlas.Source
