import CodeAtlas.Proofs.Programs
import CodeAtlas.Proofs.TextSearch
import CodeAtlas.Routes.Reader

namespace CodeAtlas.Routes

open Text Source

structure Choice where
  only : Bool
  names : Word ⊕ List Word

namespace Choice

def actions (c : Choice) : List String :=
  match c.names with
  | .inl n => [n.text]
  | .inr ns => ns.map Word.text

def keyword (c : Choice) : String := if c.only then "only" else "except"

def symbols : List Word → List Char
  | [] => []
  | [n] => n.symbol
  | n :: ns => n.symbol ++ ',' :: ' ' :: symbols ns

def list (c : Choice) : List Char :=
  match c.names with
  | .inl n => n.symbol
  | .inr ns => '[' :: (symbols ns ++ [']'])

def written (c : Choice) : List Char := ", ".toList ++ (c.keyword ++ ":").toList ++ ' ' :: c.list

end Choice

structure ResourceDecl where
  singular : Bool
  name : Word
  choice : Option Choice

namespace ResourceDecl

def keyword (r : ResourceDecl) : String := if r.singular then "resource" else "resources"

def options (r : ResourceDecl) : List Char :=
  match r.choice with
  | none => []
  | some c => c.written

def line (r : ResourceDecl) : List Char :=
  r.keyword.toList ++ ' ' :: (r.name.symbol ++ r.options)

def header (r : ResourceDecl) : List Char := r.line ++ " do".toList

def actions (r : ResourceDecl) : List Action :=
  let all := if r.singular then singularActions else standardActions
  match r.choice with
  | none => all
  | some c => all.filter fun a => if c.only then a.name ∈ c.actions else a.name ∉ c.actions

def EndsInDo (r : ResourceDecl) : Prop :=
  match r.choice with
  | none => r.name.text = "do"
  | some c =>
    match c.names with
    | .inl n => n.text = "do"
    | .inr _ => False

end ResourceDecl

structure ExplicitDecl where
  verb : Verb
  path : List Char
  target : Word
  action : Word
  name? : Option Word
  path_ne_nil : path ≠ []
  path_plain : path.any isQuote = false
  path_unbroken : Unbroken path

namespace ExplicitDecl

def word (e : ExplicitDecl) : String :=
  match e.verb with
  | .get => "get"
  | .post => "post"
  | .put => "put"
  | .patch => "patch"
  | .delete => "delete"

def destination (e : ExplicitDecl) : List Char :=
  "', to: '".toList ++ e.target.chars ++ '#' :: (e.action.chars ++ ['\x27'])

def naming (e : ExplicitDecl) : List Char :=
  match e.name? with
  | none => []
  | some n => ", as: '".toList ++ n.chars ++ ['\x27']

def line (e : ExplicitDecl) : List Char :=
  e.word.toList ++ " '".toList ++ e.path ++ (e.destination ++ e.naming)

end ExplicitDecl

structure Heading where
  chars : List Char
  spelled : Spelled ['.'] chars
  first : ∃ c rest, chars = c :: rest ∧ isWord c = true
  not_end : chars.takeWhile isWord ≠ "end".toList

def Heading.line (h : Heading) : List Char := h.chars ++ " do".toList

def scopeHeader (n : Word) : List Char := "namespace ".toList ++ n.symbol ++ " do".toList

inductive RouteTree where
  | nil
  | scope (name : Word) (inner rest : RouteTree)
  | resource (r : ResourceDecl) (rest : RouteTree)
  | nested (r : ResourceDecl) (inner rest : RouteTree)
  | explicit (e : ExplicitDecl) (rest : RouteTree)
  | block (h : Heading) (inner rest : RouteTree)

inductive Enclosure where
  | scope (name : Word)
  | resource (r : ResourceDecl)

namespace Enclosure

def segment : Enclosure → String
  | scope n => "/" ++ n.text
  | resource r =>
    if r.singular then "/" ++ r.name.text
    else "/" ++ r.name.text ++ "/:" ++ Naming.singularize r.name.text ++ "_id"

def scope? : Enclosure → Option Word
  | scope n => some n
  | resource _ => none

end Enclosure

def pathAround (around : List Enclosure) : String := String.join (around.map Enclosure.segment)

def controllerAround (around : List Enclosure) (name : String) : String :=
  let parts := (around.filterMap Enclosure.scope?).map Word.chars ++ [name.toList]
  String.ofList (joinWith [':', ':'] (parts.map Naming.camelWord)) ++ "Controller"

def ResourceDecl.routes (r : ResourceDecl) (around : List Enclosure) (location : Location) :
    List Route :=
  r.actions.map fun a =>
    { path := pathAround around ++ "/" ++ r.name.text ++ a.suffix
      verb := a.verb
      controller :=
        controllerAround around (if r.singular then Naming.pluralize r.name.text else r.name.text)
      action := a.name
      location }

def ExplicitDecl.route (e : ExplicitDecl) (around : List Enclosure) (location : Location) : Route :=
  { path :=
      pathAround around ++
        String.ofList (if e.path.head? = some '/' then e.path else '/' :: e.path)
    verb := e.verb
    controller := controllerAround around e.target.text
    action := e.action.text
    name := e.name?.map Word.text
    location }

namespace RouteTree

def code : RouteTree → List (List Char)
  | nil => []
  | scope n inner rest => scopeHeader n :: (inner.code ++ "end".toList :: rest.code)
  | resource r rest => r.line :: rest.code
  | nested r inner rest => r.header :: (inner.code ++ "end".toList :: rest.code)
  | explicit e rest => e.line :: rest.code
  | block h inner rest => h.line :: (inner.code ++ "end".toList :: rest.code)

def height (tree : RouteTree) : Nat := tree.code.length

def routes (uri : String) : RouteTree → Nat → List Enclosure → List Route
  | nil, _, _ => []
  | scope name inner rest, n, around =>
    inner.routes uri (n + 1) (around ++ [.scope name]) ++
      rest.routes uri (n + 1 + inner.height + 1) around
  | resource r rest, n, around => r.routes around ⟨uri, n, 0⟩ ++ rest.routes uri (n + 1) around
  | nested r inner rest, n, around =>
    r.routes around ⟨uri, n, 0⟩ ++ inner.routes uri (n + 1) (around ++ [.resource r]) ++
      rest.routes uri (n + 1 + inner.height + 1) around
  | explicit e rest, n, around => e.route around ⟨uri, n, 0⟩ :: rest.routes uri (n + 1) around
  | block _ inner rest, n, around =>
    inner.routes uri (n + 1) around ++ rest.routes uri (n + 1 + inner.height + 1) around

def OpensMeant : RouteTree → Prop
  | nil => True
  | scope _ inner rest => inner.OpensMeant ∧ rest.OpensMeant
  | resource r rest => ¬r.EndsInDo ∧ rest.OpensMeant
  | nested _ inner rest => inner.OpensMeant ∧ rest.OpensMeant
  | explicit _ rest => rest.OpensMeant
  | block _ inner rest => inner.OpensMeant ∧ rest.OpensMeant

def text (tree : RouteTree) (indent : Nat → Indent) : String :=
  String.ofList ((indented indent 0 tree.code).flatMap (· ++ ['\n']))

end RouteTree

end CodeAtlas.Routes
