import CodeAtlas.Source.Statement
import CodeAtlas.Text.Case

namespace CodeAtlas.Source

open Text

def keywords : List String :=
  ["if", "unless", "while", "until", "for", "case", "when", "in", "begin", "rescue", "ensure",
   "return", "yield", "break", "next", "redo", "retry", "raise", "and", "or", "not", "then",
   "else", "elsif", "do", "end", "def", "class", "module", "true", "false", "nil", "self",
   "super", "defined?", "alias", "undef", "__FILE__", "__LINE__", "__method__"]

structure Mark where
  name : String
  kind : ReferenceKind
  column : Nat := 0
  deriving DecidableEq, Repr

structure CallToken where
  receiver : Option (List Char)
  method : List Char
  after : List Char
  deriving DecidableEq, Repr

def receiver? (cs : List Char) : Option (List Char × List Char) :=
  match cs with
  | '@' :: '@' :: rest => (wordChars? rest).map fun (w, rest) => ('@' :: '@' :: w, rest)
  | '@' :: rest => (wordChars? rest).map fun (w, rest) => ('@' :: w, rest)
  | c :: rest =>
    if isAsciiLower c || isAsciiUpper c || c = '_' then
      let (more, rest) := pathTail rest
      some (c :: more, rest)
    else none
  | [] => none

def receivedCall? (cs : List Char) : Option CallToken :=
  match receiver? cs with
  | some (r, '.' :: rest) => (methodName? rest).map fun (m, after) => ⟨some r, m, after⟩
  | _ => none

def callToken? (prev : Option Char) (cs : List Char) : Option (CallToken × Nat) :=
  if prev.any fun c => isWord c || ['@', '$', ':', '.', '?', '!'].contains c then none
  else
    ((receivedCall? cs).or ((methodName? cs).map fun (m, after) => ⟨none, m, after⟩)).map
      fun t => (t, taken cs t.after)

def CallToken.column (t : CallToken) (pos : Nat) : Nat :=
  match t.receiver with
  | some r => pos + r.length + 1
  | none => pos

def callTokens (code : List Char) : List (Nat × CallToken) :=
  (findAll callToken? code).map fun (pos, t) => (t.column pos, t)

def chainToken? (prev : Option Char) (cs : List Char) : Option (CallToken × Nat) :=
  if prev.any fun c => isWord c || [')', ']', '?', '!'].contains c then
    match cs with
    | '.' :: rest => (methodName? rest).map fun (m, after) => (⟨none, m, after⟩, taken cs after)
    | _ => none
  else none

def chainTokens (code : List Char) : List (Nat × CallToken) :=
  (findAll chainToken? code).map fun (pos, t) => (pos + 1, t)

def argumentText? (after : List Char) : Option (List Char) :=
  let inner := fun (c : Char) => c ≠ '(' && c ≠ ')'
  match after with
  | '(' :: rest =>
    match rest.dropWhile inner with
    | ')' :: _ => some (rest.takeWhile inner)
    | _ => none
  | _ => none

def arguments (after : List Char) : List String :=
  match argumentText? after with
  | some args =>
    (((splitOn ',' args).map trim).filter (!·.isEmpty)).map String.ofList
  | none => []

def isKeyColon (after : List Char) : Bool :=
  match after with
  | ':' :: ':' :: _ => false
  | ':' :: _ => true
  | _ => false

def receiverMarks (receiver method : String) : List Mark :=
  if receiver != "self" && keywords.contains receiver then []
  else if startsUpper receiver.toList then
    [⟨receiver, if method = "new" then .instantiation else .read, 0⟩]
  else if receiver != "self" then [⟨receiver, .read, 0⟩]
  else []

def interpret (locals : List String) (line column : Nat) (t : CallToken) :
    List Mark × List Call :=
  let name := String.ofList t.method
  if keywords.contains name || isKeyColon t.after then ([], [])
  else
    match t.receiver with
    | none =>
      if (argumentText? t.after).isNone && locals.contains name then ([⟨name, .read, 0⟩], [])
      else if (argumentText? t.after).isNone && assigns t.after then ([], [])
      else
        ([⟨name, .call, 0⟩], [{ method := name, line, column, arguments := arguments t.after }])
    | some r =>
      let receiver := String.ofList r
      let full := if assigns t.after then name ++ "=" else name
      (receiverMarks receiver name ++ [⟨full, .call, 0⟩],
        [{ method := full, line, column, receiver := some receiver
           arguments := arguments t.after }])

def interpretChain (line column : Nat) (t : CallToken) : List Mark × List Call :=
  let name := String.ofList t.method
  ([⟨name, .call, 0⟩],
    [{ method := name, line, column, arguments := arguments t.after, chained := true }])

structure ConstantToken where
  name : List Char
  instantiated : Bool
  received : Bool
  deriving DecidableEq, Repr

def constantToken? (prev : Option Char) (cs : List Char) : Option (ConstantToken × Nat) :=
  if prev.any fun c => isWord c || ['@', '$', ':'].contains c then none
  else
    (relativePath? cs).map fun (path, rest) =>
      let received := rest.head? = some '.'
      match word? ".new" rest with
      | some after =>
        if atWordEnd after then (⟨path, true, received⟩, taken cs after)
        else (⟨path, false, received⟩, taken cs rest)
      | none => (⟨path, false, received⟩, taken cs rest)

def constantMarks (skipReceivers : Bool) (code : List Char) : List Mark :=
  ((findAll constantToken? code).filter fun (_, t) => !(skipReceivers && t.received)).map
    fun (pos, t) => ⟨String.ofList t.name, if t.instantiated then .instantiation else .read, pos⟩

def write? (code : List Char) : Option (List Char × List Char) := do
  let sigils := (code.take 2).takeWhile (· = '@')
  let (name, rest) ← identifier? (code.drop sigils.length)
  let rest := skipBlanks rest
  let rest :=
    match rest with
    | '|' :: '|' :: rest => rest
    | c :: more => if ['+', '-', '*', '/'].contains c then more else rest
    | [] => []
  match rest with
  | '=' :: c :: more =>
    if ['=', '~', '>'].contains c then none else some (sigils ++ name, c :: more)
  | ['='] => some (sigils ++ name, [])
  | _ => none

structure BodyLine where
  marks : List Mark
  calls : List Call
  locals : List String

def readBodyLine (locals : List String) (lineNo : Nat) (line : List Char) : BodyLine :=
  let code := sanitize line
  let (writes, after, locals) : List Mark × List Char × List String :=
    match write? code with
    | some (target, after) =>
      let name := String.ofList target
      ([⟨name, .write, 0⟩], after,
        if target.head? = some '@' || locals.contains name then locals else locals ++ [name])
    | none => ([], code, locals)
  let offset := taken code after
  let tokens := callTokens after
  let chained := (chainTokens after).filter fun (pos, t) =>
    !(tokens.map Prod.fst).contains pos && !keywords.contains (String.ofList t.method)
  let found :=
    tokens.map (fun (pos, t) => interpret locals lineNo (offset + pos) t) ++
      chained.map fun (pos, t) => interpretChain lineNo (offset + pos) t
  { marks := writes ++ found.flatMap Prod.fst ++ constantMarks true code
    calls := found.flatMap Prod.snd
    locals }

end CodeAtlas.Source
