import CodeAtlas.Proofs.LineReading

/-!
Well-nested programs: classes and modules with sections, visibility lines and methods, and blocks
anywhere. A program is written one construct a line, each line with an indentation of its own, and
its outline tells which classes, modules and methods it declares, where each starts and ends and
where it belongs.
-/

namespace CodeAtlas.Source

open Text

def reserved : List String :=
  ["if", "unless", "while", "until", "case", "begin", "for", "do", "end", "private", "protected",
   "public"]

structure Identifier where
  first : Char
  rest : List Char
  first_small : isAsciiLower first = true ∨ first = '_'
  rest_small : ∀ c ∈ rest, isAsciiLower c = true ∨ isAsciiDigit c = true ∨ c = '_'
  not_reserved : ∀ w ∈ reserved, first :: rest ≠ w.toList

def Identifier.chars (x : Identifier) : List Char := x.first :: x.rest

structure Constant where
  first : Char
  rest : List Char
  first_upper : isAsciiUpper first = true
  rest_word : Wordy rest

def Constant.chars (k : Constant) : List Char := k.first :: k.rest

structure Superclass where
  rooted : Bool
  outer : List Constant
  last : Constant

namespace Superclass

def front (s : Superclass) : List Char := s.outer.flatMap fun k => k.chars ++ [':', ':']

def path (s : Superclass) : List Char := s.front ++ s.last.chars

def chars (s : Superclass) : List Char := if s.rooted then ':' :: ':' :: s.path else s.path

end Superclass

def inheritance : Option Superclass → List Char
  | none => []
  | some s => ' ' :: '<' :: ' ' :: s.chars

inductive Header where
  | ofClass (name : Constant) (superclass : Option Superclass)
  | ofModule (name : Constant)

namespace Header

def name : Header → Constant
  | ofClass name _ => name
  | ofModule name => name

def isClass : Header → Bool
  | ofClass _ _ => true
  | ofModule _ => false

def kind : Header → ContainerKind
  | ofClass _ superclass => .classKind (superclass.map fun s => String.ofList s.path)
  | ofModule _ => .moduleKind

def keyword : Header → String
  | ofClass _ _ => "class"
  | ofModule _ => "module"

def superclass : Header → Option Superclass
  | ofClass _ superclass => superclass
  | ofModule _ => none

def line (h : Header) : List Char :=
  h.keyword.toList ++ ' ' :: (h.name.chars ++ inheritance h.superclass)

end Header

inductive Filler where
  | statement (x : Identifier)
  | blank
  | comment (text : List Char) (h : Unbroken text)

def Filler.line : Filler → List Char
  | statement x => x.chars
  | blank => []
  | comment text _ => '#' :: text

inductive Guard where
  | ifWord
  | unlessWord
  | whileWord
  | untilWord
  | caseWord

def Guard.word : Guard → String
  | ifWord => "if"
  | unlessWord => "unless"
  | whileWord => "while"
  | untilWord => "until"
  | caseWord => "case"

inductive Opener where
  | guarded (g : Guard) (x : Identifier)
  | plain
  | iteration (x y z : Identifier)

def Opener.line : Opener → List Char
  | guarded g x => g.word.toList ++ ' ' :: x.chars
  | plain => "begin".toList
  | iteration x y z => x.chars ++ '.' :: y.chars ++ " do ".toList ++ '|' :: z.chars ++ ['|']

def signature (onSelf : Bool) (name : Identifier) : List Char :=
  if onSelf then "self.".toList ++ name.chars else name.chars

def definitionLine (onSelf : Bool) (name : Identifier) : List Char :=
  "def ".toList ++ signature onSelf name

/-- Where a stretch of a program stands: outside every method and directly in no class, module or
section; directly in a class or module; directly in a section `class << self`; or in a method. -/
inductive Place where
  | loose
  | body (isClass : Bool)
  | singleton
  | method
  deriving DecidableEq

namespace Place

def inBlock : Place → Place
  | method => method
  | _ => loose

def isMethod : Place → Bool
  | method => true
  | _ => false

def isSingleton : Place → Bool
  | singleton => true
  | _ => false

def holdsContainers : Place → Bool
  | loose | body _ => true
  | _ => false

end Place

inductive Program : Place → Type where
  | nil {p : Place} : Program p
  | filler {p : Place} (f : Filler) (rest : Program p) : Program p
  | block {p : Place} (o : Opener) (inner : Program p.inBlock) (rest : Program p) : Program p
  | definition {p : Place} (h : p.isMethod = false) (onSelf : Bool) (name : Identifier)
      (inner : Program .method) (rest : Program p) : Program p
  | container {p : Place} (h : p.holdsContainers = true) (header : Header)
      (inner : Program (.body header.isClass)) (rest : Program p) : Program p
  | singleton (inner : Program .singleton) (rest : Program (.body true)) : Program (.body true)
  | visibility {isClass : Bool} (v : Visibility) (rest : Program (.body isClass)) :
      Program (.body isClass)

def qualified (path : List Constant) : String :=
  String.ofList (joinWith [':', ':'] (path.map Constant.chars))

def owner? : List Constant → Option String
  | [] => none
  | path => some (qualified path)

def Node.method? : Node → Option MethodDecl
  | method m => some m
  | _ => none

namespace Program

def code : {p : Place} → Program p → List (List Char)
  | _, nil => []
  | _, filler f rest => f.line :: rest.code
  | _, block o inner rest => o.line :: (inner.code ++ "end".toList :: rest.code)
  | _, definition _ onSelf name inner rest =>
    definitionLine onSelf name :: (inner.code ++ "end".toList :: rest.code)
  | _, container _ header inner rest => header.line :: (inner.code ++ "end".toList :: rest.code)
  | _, singleton inner rest => "class << self".toList :: (inner.code ++ "end".toList :: rest.code)
  | _, visibility v rest => v.name.toList :: rest.code

def height {p : Place} (program : Program p) : Nat := program.code.length

/-- The classes, modules and methods of a program that starts on line `n` inside the classes and
modules `path`, when methods there have visibility `v`. Methods belong to the innermost class or
module; a class or module comes before those inside it. A method directly in a section is a public
class method; in a block inside the section it is like any other method of the class. -/
def outline : {p : Place} → Program p → Nat → List Constant → Visibility → List Node
  | _, nil, _, _, _ => []
  | _, filler _ rest, n, path, v => rest.outline (n + 1) path v
  | _, block _ inner rest, n, path, v =>
    inner.outline (n + 1) path v ++ rest.outline (n + 1 + inner.height + 1) path v
  | p, definition _ onSelf name inner rest, n, path, v =>
    .method
        { name := String.ofList name.chars
          line := n
          endLine := some (n + 1 + inner.height)
          owner := owner? path
          parameters := []
          visibility := if p.isSingleton then .pub else v
          isClassMethod := onSelf || p.isSingleton
          returnType := none } ::
      rest.outline (n + 1 + inner.height + 1) path v
  | _, container _ header inner rest, n, path, v =>
    let found := inner.outline (n + 1) (path ++ [header.name]) .pub
    .container
        { kind := header.kind
          name := qualified (path ++ [header.name])
          line := n
          endLine := some (n + 1 + inner.height)
          shortName := String.ofList header.name.chars
          enclosing := owner? path
          methods := found.filterMap Node.method? } ::
      ((found.filter fun node => node.method?.isNone) ++
        rest.outline (n + 1 + inner.height + 1) path v)
  | _, singleton inner rest, n, path, v =>
    inner.outline (n + 1) path v ++ rest.outline (n + 1 + inner.height + 1) path v
  | _, visibility w rest, n, path, _ => rest.outline (n + 1) path w

end Program

structure Indent where
  chars : List Char
  blank : ∀ c ∈ chars, isBlank c = true
  unbroken : Unbroken chars

def Indent.flush : Indent := ⟨[], by simp, by simp [Unbroken]⟩

def indented (indent : Nat → Indent) : Nat → List (List Char) → List (List Char)
  | _, [] => []
  | n, line :: rest => ((indent n).chars ++ line) :: indented indent (n + 1) rest

def Program.text {p : Place} (program : Program p) (indent : Nat → Indent) : String :=
  String.ofList ((indented indent 0 program.code).flatMap (· ++ ['\n']))

theorem indented_append (indent : Nat → Indent) (n : Nat) (a b : List (List Char)) :
    indented indent n (a ++ b) = indented indent n a ++ indented indent (n + a.length) b := by
  induction a generalizing n with
  | nil => rfl
  | cons line a ih =>
    have hlength : n + (line :: a).length = n + 1 + a.length := by simp; omega
    simp only [List.cons_append, indented]
    rw [ih, hlength]

end CodeAtlas.Source
