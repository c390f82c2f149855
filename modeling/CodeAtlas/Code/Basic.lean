import CodeAtlas.OrderedMap

namespace CodeAtlas

/-- A place in a file, with lines and columns counted from zero. Those that are read off a text are
never negative; a place that someone else gives is kept as it is. -/
structure Location where
  uri : String
  line : Int
  column : Int
  deriving DecidableEq, Repr, Inhabited

def Location.ofFile (uri : String) : Location := ⟨uri, 0, 0⟩

inductive Visibility where
  | pub
  | priv
  | prot
  deriving DecidableEq, Repr, Inhabited

def Visibility.name : Visibility → String
  | .pub => "public"
  | .priv => "private"
  | .prot => "protected"

inductive ReferenceKind where
  | definition
  | read
  | write
  | call
  | instantiation
  deriving DecidableEq, Repr

def ReferenceKind.name : ReferenceKind → String
  | .definition => "definition"
  | .read => "read"
  | .write => "write"
  | .call => "call"
  | .instantiation => "instantiation"

inductive AssociationKind where
  | hasMany
  | hasOne
  | belongsTo
  | hasAndBelongsToMany
  deriving DecidableEq, Repr

namespace AssociationKind

def name : AssociationKind → String
  | hasMany => "has_many"
  | hasOne => "has_one"
  | belongsTo => "belongs_to"
  | hasAndBelongsToMany => "has_and_belongs_to_many"

def isCollection : AssociationKind → Bool
  | hasMany | hasAndBelongsToMany => true
  | hasOne | belongsTo => false

end AssociationKind

inductive DependencyKind where
  | required
  | requiredRelative
  | included
  | extended
  | prepended
  deriving DecidableEq, Repr

def DependencyKind.name : DependencyKind → String
  | .required => "require"
  | .requiredRelative => "require_relative"
  | .included => "include"
  | .extended => "extend"
  | .prepended => "prepend"

inductive TypeSource where
  | explicit
  | schema
  | association
  | methodReturn
  | inferred
  | duckTyped
  deriving DecidableEq, Repr

namespace TypeSource

def name : TypeSource → String
  | explicit => "explicit"
  | schema => "schema"
  | association => "association"
  | methodReturn => "method_return"
  | inferred => "inferred"
  | duckTyped => "duck_typed"

def rank : TypeSource → Nat
  | explicit => 0
  | schema => 1
  | association => 2
  | methodReturn => 3
  | inferred => 4
  | duckTyped => 5

end TypeSource

structure Parameter where
  name : String
  keyword : Bool := false
  splat : Bool := false
  block : Bool := false
  default? : Option String := none
  deriving DecidableEq, Repr

def ofName? {α : Type} (all : List α) (name : α → String) (s : String) : Option α :=
  all.find? fun a => name a == s

def Visibility.ofName? : String → Option Visibility :=
  CodeAtlas.ofName? [pub, priv, prot] name

def ReferenceKind.ofName? : String → Option ReferenceKind :=
  CodeAtlas.ofName? [definition, read, write, call, instantiation] name

def AssociationKind.ofName? : String → Option AssociationKind :=
  CodeAtlas.ofName? [hasMany, hasOne, belongsTo, hasAndBelongsToMany] name

def DependencyKind.ofName? : String → Option DependencyKind :=
  CodeAtlas.ofName? [required, requiredRelative, included, extended, prepended] name

def TypeSource.ofName? : String → Option TypeSource :=
  CodeAtlas.ofName? [explicit, schema, association, methodReturn, inferred, duckTyped] name

end CodeAtlas
