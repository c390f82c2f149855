import CodeAtlas.Routes.Route
import CodeAtlas.Source.Sanitize
import CodeAtlas.Text.Lines

/-!
Reading a routes file line by line. `resources` and `resource` declare the standard actions, and a
verb with a path declares one. A `namespace` block puts a segment before paths and controllers
inside it, a block of resources before paths only; of two declarations of an action the later holds.
-/

namespace CodeAtlas.Routes

open Text Source

structure Action where
  name : String
  verb : Verb
  suffix : String

def standardActions : List Action :=
  [⟨"index", .get, ""⟩, ⟨"show", .get, "/:id"⟩, ⟨"new", .get, "/new"⟩, ⟨"create", .post, ""⟩,
   ⟨"edit", .get, "/:id/edit"⟩, ⟨"update", .patch, "/:id"⟩, ⟨"destroy", .delete, "/:id"⟩]

def singularActions : List Action :=
  [⟨"show", .get, ""⟩, ⟨"new", .get, "/new"⟩, ⟨"create", .post, ""⟩, ⟨"edit", .get, "/edit"⟩,
   ⟨"update", .patch, ""⟩, ⟨"destroy", .delete, ""⟩]

inductive Block where
  | scope (segment : String)
  | resource (segment : String)
  | other
  deriving DecidableEq, Repr

def Block.segment? : Block → Option String
  | .scope s => some s
  | .resource s => some s
  | .other => none

def scopes (blocks : List Block) : List String :=
  blocks.filterMap fun
    | .scope s => some s
    | _ => none

def pathBefore (blocks : List Block) : String :=
  String.join ((blocks.filterMap Block.segment?).map fun s => "/" ++ s)

def plainSymbol? (cs : List Char) : Option (List Char × List Char) :=
  (word? ":" cs).bind wordChars?

def scopeLine? (line : List Char) : Option String := do
  let rest ← word? "namespace" line
  let rest ← blanks? rest
  let (name, rest) ← plainSymbol? rest
  let rest ← blanks? rest
  let rest ← word? "do" rest
  if atWordEnd rest then some (String.ofList name) else none

structure ResourceLine where
  singular : Bool
  name : String
  options : List Char

def resourceLine? (line : List Char) : Option ResourceLine := do
  let (singular, rest) ←
    (((word? "resources" line).bind blanks?).map fun rest => (false, rest)).or
      (((word? "resource" line).bind blanks?).map fun rest => (true, rest))
  let (name, rest) ← plainSymbol? rest
  some ⟨singular, String.ofList name, rest⟩

def actionChoice? (prev : Option Char) (cs : List Char) : Option ((Bool × List String) × Nat) := do
  if prev.any isWord then none
  else
    let (kept, rest) ←
      ((word? "only:" cs).map fun rest => (true, rest)).or
        ((word? "except:" cs).map fun rest => (false, rest))
    let names := fun (cs : List Char) =>
      (findAll (fun _ cs => (plainSymbol? cs).map fun (name, rest) => (name, taken cs rest)) cs).map
        fun m => String.ofList m.2
    match skipBlanks rest with
    | '[' :: rest =>
      if (rest.dropWhile (· ≠ ']')).isEmpty then none
      else some ((kept, names (rest.takeWhile (· ≠ ']'))), 1)
    | rest => (plainSymbol? rest).map fun (name, _) => ((kept, [String.ofList name]), 1)

def selectActions (options : List Char) (actions : List Action) : List Action :=
  match findAll actionChoice? options with
  | [] => actions
  | (_, kept, names) :: _ => actions.filter fun a => names.contains a.name == kept

structure ExplicitLine where
  verb : Verb
  path : List Char
  target : List Char
  action : String
  name : Option String

def destination? (cs : List Char) : Option (List Char × String × List Char) := do
  let quote? := fun (cs : List Char) =>
    match cs with
    | q :: rest => if isQuote q then some rest else none
    | [] => none
  let rest ← quote? cs
  let rest ← word? "," (skipBlanks rest)
  let rest ← word? "to:" (skipBlanks rest)
  let rest ← quote? (skipBlanks rest)
  let isPart := fun (c : Char) => isWord c || c = '/'
  let target := rest.takeWhile isPart
  let rest ← word? "#" (rest.dropWhile isPart)
  let (action, rest) ← wordChars? rest
  let rest ← quote? rest
  if target.isEmpty then none else some (target, String.ofList action, rest)

def routeName? (prev : Option Char) (cs : List Char) : Option (String × Nat) :=
  if prev.any isWord then none
  else
    (word? "as:" cs).bind fun rest =>
      let rest := (optional [':'] (skipBlanks rest)).2
      let rest := (optional ['\x27', '"'] rest).2
      (wordChars? rest).map fun (name, _) => (String.ofList name, 1)

def verbs : List (String × Verb) :=
  [("get", .get), ("post", .post), ("put", .put), ("patch", .patch), ("delete", .delete)]

def explicitLine? (line : List Char) : Option ExplicitLine := do
  let (verb, rest) ← verbs.findSome? fun (w, v) =>
    ((word? w line).bind blanks?).map fun rest => (v, rest)
  match rest with
  | q :: rest =>
    if isQuote q then
      let (path, target, action, rest) ← splitBefore destination? rest
      some ⟨verb, path, target, action, ((findAll routeName? rest).head?.map Prod.snd)⟩
    else none
  | [] => none

def opensDo (line : List Char) : Bool :=
  !(findAll (fun prev cs =>
    if prev.any isWord then none
    else
      (word? "do" cs).bind fun rest =>
        match skipBlanks rest with
        | [] => some ((), 1)
        | '|' :: rest =>
          match rest.dropWhile (· ≠ '|') with
          | _ :: after => if (skipBlanks after).isEmpty then some ((), 1) else none
          | [] => none
        | _ => none) line).isEmpty

def resourceRoutes (blocks : List Block) (l : ResourceLine) (location : Location) : List Route :=
  let resource := if l.singular then Naming.pluralize l.name else l.name
  let controller := controllerFor ("/".intercalate (scopes blocks ++ [resource]))
  let base := pathBefore blocks ++ "/" ++ l.name
  (selectActions l.options (if l.singular then singularActions else standardActions)).map fun a =>
    { path := base ++ a.suffix, verb := a.verb, controller, action := a.name, location }

def ResourceLine.block (l : ResourceLine) : Block :=
  .resource (if l.singular then l.name else l.name ++ "/:" ++ Naming.singularize l.name ++ "_id")

def explicitRoute (blocks : List Block) (l : ExplicitLine) (location : Location) : Route :=
  let path := if l.path.head? = some '/' then l.path else '/' :: l.path
  { path := pathBefore blocks ++ String.ofList path
    verb := l.verb
    controller := controllerFor ("/".intercalate (scopes blocks ++ [String.ofList l.target]))
    action := l.action
    name := l.name
    location }

structure State where
  routes : Routes := ∅
  blocks : List Block := []

def readStatement (s : State) (line : List Char) (location : Location) : State :=
  if startsEnd line then { s with blocks := s.blocks.dropLast }
  else
    match scopeLine? line with
    | some name => { s with blocks := s.blocks ++ [.scope name] }
    | none =>
      let resource := resourceLine? line
      let declared :=
        (match resource with
          | some l => resourceRoutes s.blocks l location
          | none => []) ++
        (match explicitLine? line with
          | some l => [explicitRoute s.blocks l location]
          | none => [])
      let opened := if opensDo line then [(resource.map ResourceLine.block).getD .other] else []
      { routes := declared.foldl add s.routes, blocks := s.blocks ++ opened }

def readFrom (uri : String) (s : State) (lineNo : Nat) : List (List Char) → State
  | [] => s
  | raw :: rest =>
    let line := trim raw
    let next :=
      match line with
      | [] => s
      | '#' :: _ => s
      | _ => readStatement s line ⟨uri, lineNo, 0⟩
    readFrom uri next (lineNo + 1) rest

def read (text uri : String) : Routes := (readFrom uri {} 0 (lines text.toList)).routes

end CodeAtlas.Routes
