import CodeAtlas.Graph.CallLinks

namespace CodeAtlas.Graph

/-- Moves a class or module to a file that still declares it, unless its own file still does. Any of
these files would do; the one that declared it first is taken. -/
def relocate (g : Graph) (name : String) (files : List String) : Graph :=
  match files with
  | [] => g
  | uri :: _ =>
    let move := fun (l : Location) => if files.contains l.uri then l else Location.ofFile uri
    if g.classes.contains name then
      { g with classes := g.classes.modify name fun c => { c with location := move c.location } }
    else
      { g with modules := g.modules.modify name fun m => { m with location := move m.location } }

def dropClass (g : Graph) (name : String) : Graph :=
  match g.classes.get? name with
  | none => g
  | some c =>
    { g with
      classes := (g.classes.erase name).modify (c.superclass.getD "") fun p =>
        { p with subclasses := p.subclasses.erase name } }

/-- The file no longer declares the class or module, which goes if no other file declares it. -/
def undeclare (uri : String) (g : Graph) (name : String) : Graph :=
  let files := ((g.declaredIn.get? name).getD []).filter (· ≠ uri)
  if files.isEmpty then
    let g := { g with declaredIn := g.declaredIn.erase name }.dropClass name
    { g with modules := g.modules.erase name }
  else { g with declaredIn := g.declaredIn.insert name files }.relocate name files

/-- Forgets a mixin. The links it made stay while another one of the same owner and module does. -/
def dropMixin (g : Graph) (e : MixinEdge) : Graph :=
  let g := { g with mixinEdges := g.mixinEdges.erase e }
  if g.mixinEdges.any fun o => o.owner == e.owner && o.module == e.module then g
  else
    let g :=
      { g with
        classes := g.classes.modify e.owner fun c => { c with mixins := c.mixins.erase e.module } }
    let target := (g.resolveModule e.module e.owner).getD ""
    { g with
      modules := g.modules.modify target fun m =>
        { m with includedIn := m.includedIn.erase e.owner
                 extendedIn := m.extendedIn.erase e.owner } }

def dropMethod (g : Graph) (m : MethodInfo) : Graph :=
  { g with methods := g.methods.erase m.id }.mapMethodIds (m.className.getD "") (·.erase m.id)

def keepItems {α : Type} (m : OrderedMap String (List α)) (p : α → Bool) :
    OrderedMap String (List α) :=
  (m.map fun _ items => items.filter p).filter fun _ items => !items.isEmpty

/-- Takes back what the file contributed. -/
def removeFile (g : Graph) (uri : String) : Graph :=
  let declared := (g.declaredIn.filter fun _ files => files.contains uri).keys
  let g := declared.foldl (undeclare uri) g
  let g := (g.mixinEdges.filter fun e => e.uri == uri).foldl dropMixin g
  let g := (g.methods.values.filter fun m => m.location.uri == uri).foldl dropMethod g
  let g :=
    { g with
      calls := g.calls.filter fun e => e.location.uri != uri
      usages := g.usages.filter fun u => u.location.uri != uri
      stale := true }.refresh
  { g with
    references := keepItems g.references fun r => r.location.uri != uri
    associations := keepItems g.associations fun a => a.location.uri != uri
    types := g.types.filter fun _ t => t.location.uri != uri
    dependencies := g.dependencies.erase uri }

end CodeAtlas.Graph
