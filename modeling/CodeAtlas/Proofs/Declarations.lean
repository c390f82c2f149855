import CodeAtlas.Proofs.Frames

namespace CodeAtlas

def Mutation.isAddition : Mutation → Bool
  | .removeFile _ | .clear => false
  | _ => true

def ClassInfo.core (c : ClassInfo) : ClassInfo := { c with superclass := none, subclasses := [] }

def ModuleInfo.core (m : ModuleInfo) : ModuleInfo := { m with includedIn := [], extendedIn := [] }

theorem ClassInfo.core_merge (old c : ClassInfo) : (old.core.merge c).core = (old.merge c).core := rfl

theorem ModuleInfo.core_register (m : ModuleInfo) (e : MixinEdge) : (m.register e).core = m.core := by
  unfold register
  split <;> rfl

theorem ModuleInfo.core_foldl_register (edges : List MixinEdge) (m : ModuleInfo) :
    (edges.foldl register m).core = m.core := by
  induction edges generalizing m with
  | nil => rfl
  | cons e rest ih => rw [List.foldl_cons, ih, core_register]

namespace Graph

/-- What every addition carries on from the additions done before holds when all of them are done. -/
theorem run_additions {P : List Mutation → Graph → Prop}
    (hstep : ∀ done g change, change.isAddition = true → P done g →
      P (done ++ [change]) (g.apply change))
    {done rest : List Mutation} {g : Graph} (h : P done g)
    (hadd : ∀ change ∈ rest, change.isAddition = true) : P (done ++ rest) (g.run rest) := by
  induction rest generalizing g done with
  | nil =>
    rw [List.append_nil]
    exact h
  | cons change rest ih =>
    have hfirst := hstep done g change (hadd change List.mem_cons_self) h
    have hrest := ih hfirst fun later hlater => hadd later (List.mem_cons_of_mem change hlater)
    rw [List.append_assoc] at hrest
    exact hrest

def classCores (g : Graph) : OrderedMap String ClassInfo := g.classes.map fun _ => ClassInfo.core

def moduleCores (g : Graph) : OrderedMap String ModuleInfo := g.modules.map fun _ => ModuleInfo.core

theorem contains_classCores (g : Graph) (name : String) :
    g.classCores.contains name = g.classes.contains name :=
  OrderedMap.contains_map _ _ _

theorem get?_classCores (g : Graph) (name : String) :
    g.classCores.get? name = (g.classes.get? name).map ClassInfo.core :=
  OrderedMap.get?_map _ _ _

theorem contains_moduleCores (g : Graph) (name : String) :
    g.moduleCores.contains name = g.modules.contains name :=
  OrderedMap.contains_map _ _ _

theorem get?_moduleCores (g : Graph) (name : String) :
    g.moduleCores.get? name = (g.modules.get? name).map ModuleInfo.core :=
  OrderedMap.get?_map _ _ _

theorem classCores_linkSuperclass (g : Graph) (name : String) :
    (g.linkSuperclass name).classCores = g.classCores := by
  unfold linkSuperclass
  split
  · rfl
  · split
    · unfold classCores
      rw [OrderedMap.map_modify_of, OrderedMap.map_modify_of]
      · exact fun _ => rfl
      · exact fun _ => rfl
    · rfl

theorem classCores_adoptSubclasses (g : Graph) (name : String) :
    (g.adoptSubclasses name).classCores = g.classCores := by
  unfold adoptSubclasses classCores
  dsimp only
  rw [OrderedMap.map_modify_of, OrderedMap.map_map_of]
  · intro k c
    split <;> rfl
  · exact fun _ => rfl

/-- What a declaration makes of what is known of a class: it is merged with it, or takes over the
methods that were waiting for the class. -/
def declaredCore (g : Graph) (c : ClassInfo) : ClassInfo :=
  match g.classCores.get? c.fullName with
  | some old => (old.merge c).core
  | none => { c.core with methods := (g.waitingMethods c.fullName).foldl addUnique c.methods }

theorem waitingMethods_congr {g g' : Graph} (h : g'.methods = g.methods) (owner : String) :
    g'.waitingMethods owner = g.waitingMethods owner := by
  unfold waitingMethods
  rw [h]

theorem methods_linkSuperclass (g : Graph) (name : String) :
    (g.linkSuperclass name).methods = g.methods := by
  obtain ⟨classes, h⟩ := linkSuperclass_eq g name
  rw [h]

theorem classCores_addClass (g : Graph) (c : ClassInfo) (name : String) :
    (g.addClass c).classCores.get? name =
      if name = c.fullName then some (g.declaredCore c) else g.classCores.get? name := by
  have hdeclare : (g.declare c.fullName c.location.uri).classes = g.classes := rfl
  unfold addClass declaredCore
  dsimp only
  rw [hdeclare, get?_classCores g c.fullName]
  cases hold : g.classes.get? c.fullName with
  | some old =>
    have hinsert (k : Graph) (hk : k.classes = g.classes.insert c.fullName (old.merge c)) :
        k.classCores.get? name =
          if name = c.fullName then some (old.core.merge c).core else g.classCores.get? name := by
      rw [get?_classCores, get?_classCores, hk, OrderedMap.get?_insert, ClassInfo.core_merge]
      by_cases h : name = c.fullName
      · simp [h]
      · simp [h, Ne.symm h]
    dsimp only [Option.map_some]
    split
    · rw [classCores_linkSuperclass]
      exact hinsert _ rfl
    · exact hinsert _ rfl
  | none =>
    dsimp only [Option.map_none]
    generalize hlinked : Graph.linkSuperclass _ c.fullName = linked
    have hcores : linked.classCores.get? name =
        if name = c.fullName then some c.core else g.classCores.get? name := by
      rw [← hlinked, classCores_linkSuperclass, get?_classCores, get?_classCores,
        OrderedMap.get?_insert]
      by_cases h : name = c.fullName
      · simp [h]
      · simp [h, Ne.symm h]
    have hwaiting : (linked.adoptSubclasses c.fullName).waitingMethods c.fullName =
        g.waitingMethods c.fullName := by
      apply waitingMethods_congr
      calc (linked.adoptSubclasses c.fullName).methods = linked.methods := rfl
        _ = g.methods := by rw [← hlinked, methods_linkSuperclass]; rfl
    have hadopted := congrArg (·.get? name) (classCores_adoptSubclasses linked c.fullName)
    rw [get?_classCores, OrderedMap.get?_modify, hwaiting]
    have hset (k : Option ClassInfo) (ids : List String) :
        (k.map fun c => { c with methods := ids.foldl addUnique c.methods }).map ClassInfo.core =
          (k.map ClassInfo.core).map fun c => { c with methods := ids.foldl addUnique c.methods } := by
      cases k <;> rfl
    by_cases h : name = c.fullName
    · simp only [h, if_true] at hadopted hcores ⊢
      rw [hset, ← get?_classCores, hadopted, hcores]
      rfl
    · simp only [h, if_false, Option.map_id'] at hadopted hcores ⊢
      rw [← get?_classCores, hadopted, hcores]

theorem moduleCores_addClass (g : Graph) (c : ClassInfo) :
    (g.addClass c).moduleCores = g.moduleCores := by
  obtain ⟨classes, declaredIn, h⟩ := addClass_eq g c
  rw [h]
  rfl

theorem classCores_addModule (g : Graph) (m : ModuleInfo) :
    (g.addModule m).classCores = g.classCores := by
  obtain ⟨modules, declaredIn, h⟩ := addModule_eq g m
  rw [h]
  rfl

/-- What a declaration makes of what is known of a module: nothing new, or it takes over the methods
that were waiting for the module. -/
def declaredModuleCore (g : Graph) (m : ModuleInfo) : ModuleInfo :=
  (g.moduleCores.get? m.fullName).getD
    { m.core with methods := (g.waitingMethods m.fullName).foldl addUnique m.methods }

theorem moduleCores_addModule (g : Graph) (m : ModuleInfo) (name : String) :
    (g.addModule m).moduleCores.get? name =
      if name = m.fullName then some (g.declaredModuleCore m) else g.moduleCores.get? name := by
  have hdeclare : (g.declare m.fullName m.location.uri).modules = g.modules := rfl
  unfold addModule declaredModuleCore
  dsimp only
  rw [hdeclare, OrderedMap.contains, get?_moduleCores g m.fullName]
  cases hold : g.modules.get? m.fullName with
  | some old =>
    by_cases h : name = m.fullName
    · simp [get?_moduleCores, hdeclare, h, hold]
    · simp [get?_moduleCores, hdeclare, h]
  | none =>
    simp only [Option.isSome_none, Bool.false_eq_true, if_false, get?_moduleCores,
      OrderedMap.get?_insert]
    by_cases h : name = m.fullName
    · have hcore (edges : List MixinEdge) (ids : List String) :
          { edges.foldl ModuleInfo.register m with
            methods := ids.foldl addUnique (edges.foldl ModuleInfo.register m).methods }.core =
          { m.core with methods := ids.foldl addUnique m.methods } := by
        have hfold := ModuleInfo.core_foldl_register edges m
        have hset := congrArg (fun k : ModuleInfo =>
          { k with methods := ids.foldl addUnique k.methods }) hfold
        exact hset
      simp only [h, if_true, Option.map_some, Option.map_none, Option.getD_none]
      rw [hcore]
      rfl
    · simp [h, Ne.symm h]

theorem classCores_addMixin (g : Graph) (e : MixinEdge) (name : String) :
    (g.addMixin e).classCores.get? name = (g.classCores.get? name).map fun c =>
      if name = e.owner then { c with mixins := addUnique c.mixins e.module } else c := by
  simp only [addMixin, get?_classCores, OrderedMap.get?_modify, Option.map_map]
  congr 1
  funext c
  simp only [Function.comp]
  split <;> rfl

theorem moduleCores_addMixin (g : Graph) (e : MixinEdge) :
    (g.addMixin e).moduleCores = g.moduleCores := by
  unfold addMixin moduleCores
  dsimp only
  rw [OrderedMap.map_modify_of]
  exact fun m => m.core_register e

theorem classCores_mapMethodIds (g : Graph) (owner : String) (f : List String → List String)
    (name : String) :
    (g.mapMethodIds owner f).classCores.get? name = (g.classCores.get? name).map fun c =>
      if name = owner then { c with methods := f c.methods } else c := by
  unfold mapMethodIds
  split
  · simp only [get?_classCores, OrderedMap.get?_modify, Option.map_map]
    congr 1
    funext c
    simp only [Function.comp]
    split <;> rfl
  · next hnone =>
    by_cases h : name = owner
    · subst h
      have hget : g.classes.get? name = none := by
        simpa [OrderedMap.contains] using hnone
      simp [get?_classCores, hget]
    · simp only [h, if_false, Option.map_id']
      rfl

theorem moduleCores_mapMethodIds (g : Graph) (owner : String) (f : List String → List String)
    (name : String) :
    (g.mapMethodIds owner f).moduleCores.get? name = (g.moduleCores.get? name).map fun m =>
      if name = owner ∧ g.classes.contains name = false then { m with methods := f m.methods }
      else m := by
  unfold mapMethodIds
  split
  · next hclass =>
    by_cases h : name = owner
    · subst h
      simp only [hclass, reduceCtorEq, and_false, if_false, Option.map_id']
      rfl
    · simp only [h, false_and, if_false, Option.map_id']
      rfl
  · next hnone =>
    simp only [get?_moduleCores, OrderedMap.get?_modify, Option.map_map]
    congr 1
    funext m
    simp only [Function.comp]
    by_cases h : name = owner
    · subst h
      simp only [Bool.not_eq_true] at hnone
      simp [hnone, ModuleInfo.core]
    · simp [h]

end Graph

end CodeAtlas
