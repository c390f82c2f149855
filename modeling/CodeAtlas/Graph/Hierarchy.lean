import CodeAtlas.Graph.Resolve
import CodeAtlas.Walk

namespace CodeAtlas.Graph

def parent? (g : Graph) (name : String) : Option String := do
  let c ← g.classes.get? name
  let written ← c.superclass
  if written.isEmpty then none
  else
    match g.resolveSuperclass c with
    | some s => some (if s.isEmpty then written else s)
    | none => some written

def inheritanceChain (g : Graph) (name : String) : List String :=
  if name.isEmpty then [] else reached g.classes.keys (fun c => (g.parent? c).toList) name

def directSubclasses (g : Graph) (name : String) : List String :=
  match g.classes.get? name with
  | some c => c.subclasses
  | none => []

def allSubclasses (g : Graph) (name : String) : List String :=
  (reached g.classes.keys g.directSubclasses name).drop 1

def linearParents (g : Graph) (owner : String) : List String :=
  match g.classes.get? owner with
  | some c =>
    (c.mixins.filterMap (g.resolveModule · owner) ++ (g.resolveSuperclass c).toList).filter
      (!·.isEmpty)
  | none => []

def ancestry (g : Graph) (owner : String) : List String :=
  reached g.classes.keys g.linearParents owner

def firstByName (methods : List MethodInfo) : List MethodInfo :=
  methods.foldl (fun acc m => if acc.any (·.name == m.name) then acc else acc ++ [m]) []

def availableMethods (g : Graph) (owner : String) : List MethodInfo :=
  firstByName ((g.ancestry owner).flatMap g.methodsOf)

def findMethod (g : Graph) (owner name : String) (classLevel : Bool) : String :=
  match (g.availableMethods owner).find? fun m =>
      m.name == name && m.isClassMethod == classLevel with
  | some m => m.id
  | none => methodId owner name classLevel

end CodeAtlas.Graph
