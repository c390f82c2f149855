import CodeAtlas.Graph.Declare
import CodeAtlas.Graph.Removal

namespace CodeAtlas

inductive Mutation where
  | addClass (c : ClassInfo)
  | addModule (m : ModuleInfo)
  | addMixin (e : MixinEdge)
  | addMethod (m : MethodInfo)
  | addCall (e : CallEdge)
  | addUsage (u : Usage)
  | addReference (r : Reference)
  | addAssociation (a : Association)
  | addType (t : TypeRecord)
  | addDependency (d : Dependency)
  | refresh
  | removeFile (uri : String)
  | clear

namespace Graph

def addReference (g : Graph) (r : Reference) : Graph :=
  { g with references := g.references.append r.symbol r }

def addAssociation (g : Graph) (a : Association) : Graph :=
  { g with associations := g.associations.append a.source a }

def addDependency (g : Graph) (d : Dependency) : Graph :=
  { g with dependencies := g.dependencies.append d.source d }

/-- The new record is better evidence: its source is more reliable, or the same and its confidence
higher. -/
def improves (new old : TypeRecord) : Bool :=
  !(new.source.rank > old.source.rank) &&
    !(new.source == old.source && new.confidence ≤ old.confidence)

def addType (g : Graph) (t : TypeRecord) : Graph × Bool :=
  if (g.types.get? t.symbol).all (improves t) then
    ({ g with types := g.types.insert t.symbol t }, true)
  else (g, false)

def apply (g : Graph) : Mutation → Graph
  | .addClass c => g.addClass c
  | .addModule m => g.addModule m
  | .addMixin e => g.addMixin e
  | .addMethod m => g.addMethod m
  | .addCall e => g.addCall e
  | .addUsage u => g.addUsage u
  | .addReference r => g.addReference r
  | .addAssociation a => g.addAssociation a
  | .addType t => (g.addType t).1
  | .addDependency d => g.addDependency d
  | .refresh => g.refresh
  | .removeFile uri => g.removeFile uri
  | .clear => empty

def run (g : Graph) (changes : List Mutation) : Graph := changes.foldl apply g

structure Stats where
  classes : Nat
  modules : Nat
  methods : Nat
  calls : Nat
  references : Nat
  associations : Nat
  types : Nat
  dependencies : Nat
  models : Nat
  controllers : Nat
  deriving DecidableEq, Repr

def countItems {α : Type} (m : OrderedMap String (List α)) : Nat :=
  m.values.foldl (fun n items => n + items.length) 0

def stats (g : Graph) : Stats :=
  { classes := g.classes.size
    modules := g.modules.size
    methods := g.methods.size
    calls := g.calls.length
    references := countItems g.references
    associations := countItems g.associations
    types := g.types.size
    dependencies := countItems g.dependencies
    models := (g.classes.values.filter ClassInfo.isModel).length
    controllers := (g.classes.values.filter ClassInfo.isController).length }

end Graph

end CodeAtlas
