import CodeAtlas.Code.Basic

/-!
The index as a graph: classes, modules and methods with the links between them, and the references,
associations, types and dependencies found in the files. Everything remembers the file it came from.
-/

namespace CodeAtlas

/-- A class. `enclosing` is the path that its superclass is looked up from; `methods` are ids. -/
structure ClassInfo where
  name : String
  fullName : String
  location : Location
  superclass : Option String := none
  mixins : List String := []
  subclasses : List String := []
  methods : List String := []
  constants : List (String × String) := []
  isModel : Bool := false
  isController : Bool := false
  enclosing : Option String := none
  deriving DecidableEq, Repr

structure ModuleInfo where
  name : String
  fullName : String
  location : Location
  methods : List String := []
  includedIn : List String := []
  extendedIn : List String := []
  deriving DecidableEq, Repr

structure MethodInfo where
  id : String
  name : String
  location : Location
  className : Option String := none
  parameters : List Parameter := []
  visibility : Visibility := .pub
  isClassMethod : Bool := false
  returnType : Option String := none
  calls : List String := []
  calledBy : List String := []
  usageCount : Nat := 0
  deriving DecidableEq, Repr

def methodId (owner name : String) (classLevel : Bool) : String :=
  if classLevel then owner ++ "." ++ name else owner ++ "#" ++ name

/-- What a call dispatches on. If the receiver was written as a constant, `constant` is its path and
`scope` the namespace it stood in, and the owner is looked up anew. -/
structure CallTarget where
  owner : String
  method : String
  classLevel : Bool := false
  constant : Option String := none
  scope : Option String := none
  deriving DecidableEq, Repr

structure CallEdge where
  caller : String
  callee : String
  location : Location
  confidence : Float
  receiverType : Option String := none
  target : Option CallTarget := none

structure MixinEdge where
  owner : String
  module : String
  kind : DependencyKind
  uri : String
  deriving DecidableEq, Repr

structure Usage where
  methodId : String
  location : Location
  target : Option CallTarget := none
  deriving DecidableEq, Repr

structure ReferenceContext where
  line : String := ""
  inClass : Option String := none
  inMethod : Option String := none
  deriving DecidableEq, Repr

structure Reference where
  symbol : String
  location : Location
  kind : ReferenceKind
  context : ReferenceContext := {}
  deriving DecidableEq, Repr

structure Association where
  source : String
  target : String
  kind : AssociationKind
  name : String
  location : Location
  options : List (String × String) := []
  deriving DecidableEq, Repr

structure TypeRecord where
  symbol : String
  typeName : String
  confidence : Float
  source : TypeSource
  location : Location

structure Dependency where
  source : String
  target : String
  kind : DependencyKind
  deriving DecidableEq, Repr

structure Graph where
  classes : OrderedMap String ClassInfo := ∅
  modules : OrderedMap String ModuleInfo := ∅
  methods : OrderedMap String MethodInfo := ∅
  calls : List CallEdge := []
  references : OrderedMap String (List Reference) := ∅
  associations : OrderedMap String (List Association) := ∅
  types : OrderedMap String TypeRecord := ∅
  dependencies : OrderedMap String (List Dependency) := ∅
  mixinEdges : List MixinEdge := []
  usages : List Usage := []
  declaredIn : OrderedMap String (List String) := ∅
  stale : Bool := false
  deriving Inhabited

def addUnique {α : Type} [DecidableEq α] (l : List α) (a : α) : List α :=
  if a ∈ l then l else l ++ [a]

def OrderedMap.append {κ α : Type} [DecidableEq κ] (m : OrderedMap κ (List α)) (k : κ) (a : α) :
    OrderedMap κ (List α) :=
  m.insert k ((m.get? k).getD [] ++ [a])

namespace Graph

def empty : Graph := {}

def knows (g : Graph) (name : String) : Bool := g.classes.contains name || g.modules.contains name

def methodIds (g : Graph) (owner : String) : List String :=
  match g.classes.get? owner, g.modules.get? owner with
  | some c, _ => c.methods
  | none, some m => m.methods
  | none, none => []

def methodsOf (g : Graph) (owner : String) : List MethodInfo :=
  (g.methodIds owner).filterMap g.methods.get?

def mapMethodIds (g : Graph) (owner : String) (f : List String → List String) : Graph :=
  if g.classes.contains owner then
    { g with classes := g.classes.modify owner fun c => { c with methods := f c.methods } }
  else
    { g with modules := g.modules.modify owner fun m => { m with methods := f m.methods } }

def referencesTo (g : Graph) (symbol : String) : List Reference :=
  (g.references.get? symbol).getD []

def associationsOf (g : Graph) (model : String) : List Association :=
  (g.associations.get? model).getD []

def dependenciesOf (g : Graph) (uri : String) : List Dependency :=
  (g.dependencies.get? uri).getD []

end Graph

end CodeAtlas
