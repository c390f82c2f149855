import CodeAtlas.Graph.Resolve

/-!
Adding classes, modules and mixins. A class or module takes over the subclasses, methods and mixins
that were recorded before it; one that is declared again is merged with what is known.
-/

namespace CodeAtlas

def ClassInfo.hasSuperclass (c : ClassInfo) : Bool := c.superclass.any (!·.isEmpty)

def ClassInfo.merge (old new : ClassInfo) : ClassInfo :=
  { old with
    mixins := new.mixins.foldl addUnique old.mixins
    constants := new.constants.foldl (fun acc e => Assoc.insert e.1 e.2 acc) old.constants
    isModel := old.isModel || new.isModel
    isController := old.isController || new.isController
    superclass :=
      if old.superclass.isNone && new.hasSuperclass then new.superclass else old.superclass }

def ModuleInfo.register (m : ModuleInfo) (e : MixinEdge) : ModuleInfo :=
  if e.kind = .extended then { m with extendedIn := addUnique m.extendedIn e.owner }
  else { m with includedIn := addUnique m.includedIn e.owner }

namespace Graph

def declare (g : Graph) (name uri : String) : Graph :=
  { g with
    stale := true
    declaredIn := g.declaredIn.insert name (addUnique ((g.declaredIn.get? name).getD []) uri) }

def linkSuperclass (g : Graph) (name : String) : Graph :=
  match (g.classes.get? name).bind g.resolveSuperclass with
  | none => g
  | some parent =>
    if g.classes.contains parent then
      { g with
        classes :=
          (g.classes.modify name fun c => { c with superclass := some parent }).modify parent
            fun c => { c with subclasses := addUnique c.subclasses name } }
    else g

def adoptSubclasses (g : Graph) (name : String) : Graph :=
  let waiting := (g.classes.values.filter fun c =>
    c.fullName ≠ name && g.resolveSuperclass c = some name).map ClassInfo.fullName
  let classes := g.classes.map fun k c =>
    if waiting.contains k then { c with superclass := some name } else c
  { g with
    classes := classes.modify name fun c =>
      { c with subclasses := waiting.foldl addUnique c.subclasses } }

def waitingMethods (g : Graph) (owner : String) : List String :=
  (g.methods.values.filter fun m => m.className = some owner).map MethodInfo.id

def addClass (g : Graph) (c : ClassInfo) : Graph :=
  let name := c.fullName
  let g := g.declare name c.location.uri
  match g.classes.get? name with
  | some old =>
    let merged := { g with classes := g.classes.insert name (old.merge c) }
    if old.superclass.isNone && c.hasSuperclass then merged.linkSuperclass name
    else merged
  | none =>
    let g := { g with classes := g.classes.insert name c }
    let g := (g.linkSuperclass name).adoptSubclasses name
    { g with
      classes := g.classes.modify name fun c =>
        { c with methods := (g.waitingMethods name).foldl addUnique c.methods } }

def addModule (g : Graph) (m : ModuleInfo) : Graph :=
  let name := m.fullName
  let g := g.declare name m.location.uri
  if g.modules.contains name then g
  else
    let g := { g with modules := g.modules.insert name m }
    let edges := g.mixinEdges.filter fun e => g.resolveModule e.module e.owner = some name
    let m := edges.foldl ModuleInfo.register m
    { g with
      modules := g.modules.insert name
        { m with methods := (g.waitingMethods name).foldl addUnique m.methods } }

def addMixin (g : Graph) (e : MixinEdge) : Graph :=
  let g :=
    { g with
      stale := true
      mixinEdges := g.mixinEdges ++ [e]
      classes := g.classes.modify e.owner fun c =>
        { c with mixins := addUnique c.mixins e.module } }
  let target := (g.resolveModule e.module e.owner).getD ""
  { g with modules := g.modules.modify target (·.register e) }

end Graph

end CodeAtlas
