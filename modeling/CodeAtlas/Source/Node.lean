import CodeAtlas.Code.Basic

namespace CodeAtlas.Source

structure Call where
  method : String
  line : Nat
  column : Nat
  receiver : Option String := none
  arguments : List String := []
  chained : Bool := false
  deriving DecidableEq, Repr

structure Mixin where
  kind : DependencyKind
  name : String
  deriving DecidableEq, Repr

structure MethodDecl where
  name : String
  line : Nat
  endLine : Option Nat := none
  owner : Option String
  parameters : List Parameter
  visibility : Visibility
  isClassMethod : Bool
  returnType : Option String
  calls : List Call := []
  deriving DecidableEq, Repr

inductive Member where
  | association (name : String) (line : Nat) (kind : AssociationKind)
      (options : List (String × String))
  | callback (name : String) (line : Nat) (hook : String)
  | constant (name : String) (line : Nat) (value : String)
  deriving DecidableEq, Repr

inductive ContainerKind where
  | classKind (superclass : Option String)
  | moduleKind
  deriving DecidableEq, Repr

/-- A class or module; `name` is its full name, `enclosing` that name without its last segment. -/
structure Container where
  kind : ContainerKind
  name : String
  line : Nat
  endLine : Option Nat := none
  shortName : String
  enclosing : Option String
  mixins : List Mixin := []
  methods : List MethodDecl := []
  members : List Member := []
  deriving DecidableEq, Repr

structure Mention where
  name : String
  line : Nat
  kind : ReferenceKind
  column : Nat := 0
  inClass : Option String
  inMethod : Option String
  text : String
  deriving DecidableEq, Repr

inductive Node where
  | container (c : Container)
  | method (m : MethodDecl)
  | requirement (name : String) (line : Nat) (relative : Bool)
  | comment (text : String) (line : Nat)
  | mention (m : Mention)
  deriving DecidableEq, Repr

namespace Container

def isClass (c : Container) : Bool :=
  match c.kind with
  | .classKind _ => true
  | .moduleKind => false

def mapMethod (line : Nat) (f : MethodDecl → MethodDecl) (c : Container) : Container :=
  { c with methods := c.methods.map fun m => if m.line = line then f m else m }

end Container

namespace Node

def mapContainer (line : Nat) (f : Container → Container) : Node → Node
  | container c => container (if c.line = line then f c else c)
  | n => n

def mapMethod (line : Nat) (f : MethodDecl → MethodDecl) : Node → Node
  | container c => container (c.mapMethod line f)
  | method m => method (if m.line = line then f m else m)
  | n => n

def close (line last : Nat) (n : Node) : Node :=
  (n.mapContainer line fun c => { c with endLine := some last }).mapMethod line fun m =>
    { m with endLine := some last }

end Node

end CodeAtlas.Source
