import CodeAtlas.Graph.Hierarchy

/-!
Calls and other uses of methods. What they reach is found when they are recorded and again by
`refresh`, once the hierarchy has changed; each method keeps the lists of what it calls and what
calls it, and a count of its uses.
-/

namespace CodeAtlas.Graph

def targetOwner (g : Graph) (t : CallTarget) : String :=
  match t.constant with
  | none => t.owner
  | some path =>
    match g.resolveConstant path t.scope with
    | some owner => if owner.isEmpty then path else owner
    | none => path

def targetMethod (g : Graph) (t : CallTarget) : String :=
  g.findMethod (g.targetOwner t) t.method t.classLevel

def dispatch (g : Graph) (e : CallEdge) : CallEdge :=
  match e.target with
  | none => e
  | some t => { e with callee := g.targetMethod t, receiverType := some (g.targetOwner t) }

def dispatchUsage (g : Graph) (u : Usage) : Usage :=
  match u.target with
  | none => u
  | some t => { u with methodId := g.targetMethod t }

def linkCall (methods : OrderedMap String MethodInfo) (e : CallEdge) :
    OrderedMap String MethodInfo :=
  (methods.modify e.caller fun m => { m with calls := addUnique m.calls e.callee }).modify e.callee
    fun m => { m with calledBy := addUnique m.calledBy e.caller, usageCount := m.usageCount + 1 }

def linkUsage (methods : OrderedMap String MethodInfo) (u : Usage) :
    OrderedMap String MethodInfo :=
  methods.modify u.methodId fun m => { m with usageCount := m.usageCount + 1 }

def unlink (methods : OrderedMap String MethodInfo) : OrderedMap String MethodInfo :=
  methods.map fun _ m => { m with calls := [], calledBy := [], usageCount := 0 }

def relink (methods : OrderedMap String MethodInfo) (calls : List CallEdge) (usages : List Usage) :
    OrderedMap String MethodInfo :=
  usages.foldl linkUsage (calls.foldl linkCall (unlink methods))

/-- Resolves the recorded calls and usages anew if the hierarchy has changed. -/
def refresh (g : Graph) : Graph :=
  if g.stale then
    let calls := g.calls.map g.dispatch
    let usages := g.usages.map g.dispatchUsage
    { g with calls, usages, methods := relink g.methods calls usages, stale := false }
  else g

def addCall (g : Graph) (e : CallEdge) : Graph :=
  let e := g.dispatch e
  { g with calls := g.calls ++ [e], methods := linkCall g.methods e }

def addUsage (g : Graph) (u : Usage) : Graph :=
  let u := g.dispatchUsage u
  { g with usages := g.usages ++ [u], methods := linkUsage g.methods u }

def withLinks (g : Graph) (m : MethodInfo) : MethodInfo :=
  let m := g.calls.foldl (fun m e =>
    let m :=
      if e.callee = m.id then
        { m with calledBy := addUnique m.calledBy e.caller, usageCount := m.usageCount + 1 }
      else m
    if e.caller = m.id then { m with calls := addUnique m.calls e.callee } else m) m
  { m with usageCount := m.usageCount + (g.usages.filter fun u => u.methodId == m.id).length }

def addMethod (g : Graph) (m : MethodInfo) : Graph :=
  let g := { g with methods := g.methods.insert m.id (g.withLinks m), stale := true }
  match m.className with
  | some owner => if owner.isEmpty then g else g.mapMethodIds owner (addUnique · m.id)
  | none => g

end CodeAtlas.Graph
