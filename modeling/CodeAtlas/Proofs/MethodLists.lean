import CodeAtlas.Proofs.Deletion

/-!
The methods that classes and modules list. Whatever comes first, a method or its owner, and whatever is
replaced or goes, an owner lists each of its methods, once; of a class and a module with one name the
class is the owner. The empty name is the name of no owner: a method that gives it is entered into no
list, though a class of that name would take over the methods it finds.
-/

namespace CodeAtlas.Graph

def classList? (g : Graph) (name : String) : Option (List String) :=
  (g.classCores.get? name).map ClassInfo.methods

def moduleList? (g : Graph) (name : String) : Option (List String) :=
  (g.moduleCores.get? name).map ModuleInfo.methods

def ownerOf? (g : Graph) (id : String) : Option String :=
  ((unlink g.methods).get? id).bind MethodInfo.className

variable {g g' : Graph}

theorem classList?_of_get? {name : String} {c : ClassInfo} (h : g.classes.get? name = some c) :
    g.classList? name = some c.methods := by
  rw [classList?, get?_classCores, h]
  rfl

theorem moduleList?_of_get? {name : String} {m : ModuleInfo} (h : g.modules.get? name = some m) :
    g.moduleList? name = some m.methods := by
  rw [moduleList?, get?_moduleCores, h]
  rfl

theorem classList?_eq_none_iff {name : String} :
    g.classList? name = none ↔ g.classes.contains name = false := by
  rw [classList?, Option.map_eq_none_iff, ← contains_classCores, OrderedMap.contains,
    Option.isSome_eq_false_iff, Option.isNone_iff_eq_none]

theorem classList?_addClass (g : Graph) (c : ClassInfo) (name : String) :
    (g.addClass c).classList? name =
      if name = c.fullName then
        some ((g.classList? name).getD ((g.waitingMethods c.fullName).foldl addUnique c.methods))
      else g.classList? name := by
  rw [classList?, classCores_addClass]
  split
  · next hname =>
    rw [classList?, hname, declaredCore]
    cases g.classCores.get? c.fullName <;> rfl
  · rfl

theorem moduleList?_addModule (g : Graph) (m : ModuleInfo) (name : String) :
    (g.addModule m).moduleList? name =
      if name = m.fullName then
        some ((g.moduleList? name).getD ((g.waitingMethods m.fullName).foldl addUnique m.methods))
      else g.moduleList? name := by
  rw [moduleList?, moduleCores_addModule]
  split
  · next hname =>
    rw [moduleList?, hname, declaredModuleCore]
    cases g.moduleCores.get? m.fullName <;> rfl
  · rfl

theorem classList?_mapMethodIds (g : Graph) (owner : String) (f : List String → List String)
    (name : String) :
    (g.mapMethodIds owner f).classList? name =
      (g.classList? name).map fun ids => if name = owner then f ids else ids := by
  rw [classList?, classCores_mapMethodIds, classList?, Option.map_map, Option.map_map]
  congr 1
  funext c
  simp only [Function.comp]
  split <;> rfl

theorem moduleList?_mapMethodIds (g : Graph) (owner : String) (f : List String → List String)
    (name : String) :
    (g.mapMethodIds owner f).moduleList? name =
      (g.moduleList? name).map fun ids =>
        if name = owner ∧ g.classList? name = none then f ids else ids := by
  rw [moduleList?, moduleCores_mapMethodIds, moduleList?, Option.map_map, Option.map_map]
  simp only [classList?_eq_none_iff]
  congr 1
  funext m
  simp only [Function.comp]
  split <;> rfl

theorem namesOwner_iff {owner name : String} (h : ¬owner.isEmpty = true) :
    some owner = some name ∧ name ≠ "" ↔ name = owner := by
  constructor
  · rintro ⟨hname, -⟩
    cases hname
    rfl
  · rintro rfl
    refine ⟨rfl, ?_⟩
    rintro rfl
    exact h rfl

theorem not_namesOwner_of_isEmpty {owner name : String} (h : owner.isEmpty = true) :
    ¬(some owner = some name ∧ name ≠ "") := by
  rintro ⟨hname, hne⟩
  cases hname
  exact hne (by simpa using h)

theorem classList?_addMethod (g : Graph) (m : MethodInfo) (name : String) :
    (g.addMethod m).classList? name = (g.classList? name).map fun ids =>
      if m.className = some name ∧ name ≠ "" then addUnique ids m.id else ids := by
  have hsame (ids : Option (List String)) : ids = ids.map fun ids => ids := by cases ids <;> rfl
  unfold addMethod
  dsimp only
  split
  · next owner howner =>
    rw [howner]
    split
    · next hempty =>
      simp only [not_namesOwner_of_isEmpty hempty, if_false]
      exact hsame _
    · next hempty =>
      refine (classList?_mapMethodIds _ owner _ name).trans ?_
      simp only [namesOwner_iff hempty]
      rfl
  · next hnone =>
    simp only [hnone, reduceCtorEq, false_and, if_false]
    exact hsame _

theorem moduleList?_addMethod (g : Graph) (m : MethodInfo) (name : String) :
    (g.addMethod m).moduleList? name = (g.moduleList? name).map fun ids =>
      if m.className = some name ∧ name ≠ "" ∧ g.classList? name = none then addUnique ids m.id
      else ids := by
  have hsame (ids : Option (List String)) : ids = ids.map fun ids => ids := by cases ids <;> rfl
  unfold addMethod
  dsimp only
  split
  · next owner howner =>
    rw [howner]
    split
    · next hempty =>
      simp only [← and_assoc, not_namesOwner_of_isEmpty hempty, false_and, if_false]
      exact hsame _
    · next hempty =>
      refine (moduleList?_mapMethodIds _ owner _ name).trans ?_
      simp only [← and_assoc, namesOwner_iff hempty]
      rfl
  · next hnone =>
    simp only [hnone, reduceCtorEq, false_and, if_false]
    exact hsame _

theorem ownerOf?_addMethod (g : Graph) (m : MethodInfo) (id : String) :
    (g.addMethod m).ownerOf? id = if m.id = id then m.className else g.ownerOf? id := by
  rw [ownerOf?, unlink_addMethod, OrderedMap.get?_insert]
  split <;> rfl

theorem unlink_methods_refresh (g : Graph) : unlink g.refresh.methods = unlink g.methods := by
  unfold refresh
  split
  · exact unlink_relink _ _ _
  · rfl

theorem lists_undeclare (uri : String) (g : Graph) (name : String) :
    ((undeclare uri g name).classList? = g.classList? ∧
      (undeclare uri g name).moduleList? = g.moduleList?) ∨
    (∀ other, (undeclare uri g name).classList? other =
      if other = name then none else g.classList? other) ∧
    ∀ other, (undeclare uri g name).moduleList? other =
      if other = name then none else g.moduleList? other := by
  unfold undeclare
  dsimp only
  split
  · right
    constructor
    · intro other
      have hclass := congrArg (Option.map ClassInfo.methods)
        (dropClass_get? { g with declaredIn := g.declaredIn.erase name } name other)
      rw [Option.map_map] at hclass
      simp only [classList?, get?_classCores, Option.map_map]
      refine hclass.trans ?_
      split <;> simp [Option.map_map, Function.comp_def, ClassInfo.withoutSubclasses, ClassInfo.core]
    · intro other
      simp only [moduleList?, get?_moduleCores]
      rw [OrderedMap.get?_erase, modules_dropClass]
      split <;> rfl
  · left
    unfold relocate
    split
    · exact ⟨rfl, rfl⟩
    · dsimp only
      split
      · refine ⟨funext fun other => ?_, rfl⟩
        simp only [classList?, get?_classCores, OrderedMap.get?_modify, Option.map_map]
        congr 1
        funext c
        simp only [Function.comp]
        split <;> rfl
      · refine ⟨rfl, funext fun other => ?_⟩
        simp only [moduleList?, get?_moduleCores, OrderedMap.get?_modify, Option.map_map]
        congr 1
        funext m
        simp only [Function.comp]
        split <;> rfl

theorem classList?_dropMixin (g : Graph) (e : MixinEdge) :
    (g.dropMixin e).classList? = g.classList? := by
  funext name
  unfold dropMixin
  dsimp only
  split
  · rfl
  · simp only [classList?, get?_classCores, OrderedMap.get?_modify, Option.map_map]
    congr 1
    funext c
    simp only [Function.comp]
    split <;> rfl

/-- Every list is free of repetitions, and every stored method that names an owner stands in the list of
that class, or if there is none, of that module. -/
structure OwnersListMethods (g : Graph) : Prop where
  keyed : Keyed (unlink g.methods)
  nodupClass : ∀ name ids, g.classList? name = some ids → ids.Nodup
  nodupModule : ∀ name ids, g.moduleList? name = some ids → ids.Nodup
  mem_class : ∀ id owner, g.ownerOf? id = some owner → owner ≠ "" →
    ∀ ids, g.classList? owner = some ids → id ∈ ids
  mem_module : ∀ id owner, g.ownerOf? id = some owner → owner ≠ "" → g.classList? owner = none →
    ∀ ids, g.moduleList? owner = some ids → id ∈ ids

theorem mem_waitingMethods_iff (hk : Keyed (unlink g.methods)) {id owner : String} :
    id ∈ g.waitingMethods owner ↔ g.ownerOf? id = some owner := by
  rw [waitingMethods_eq_unlink, ownerOf?, Option.bind_eq_some_iff]
  simp only [List.mem_map, List.mem_filter, OrderedMap.mem_values_iff, decide_eq_true_eq]
  constructor
  · rintro ⟨m, ⟨⟨key, hm⟩, howner⟩, rfl⟩
    have hkey := hk key m hm
    subst hkey
    exact ⟨m, hm, howner⟩
  · rintro ⟨m, hm, howner⟩
    exact ⟨m, ⟨⟨id, hm⟩, howner⟩, hk id m hm⟩

namespace OwnersListMethods

theorem of_eq (h : g.OwnersListMethods) (hclass : g'.classList? = g.classList?)
    (hmodule : g'.moduleList? = g.moduleList?) (hmethods : unlink g'.methods = unlink g.methods) :
    g'.OwnersListMethods := by
  have howner : g'.ownerOf? = g.ownerOf? := by funext id; rw [ownerOf?, hmethods, ownerOf?]
  constructor
  case keyed => rw [hmethods]; exact h.keyed
  case nodupClass => rw [hclass]; exact h.nodupClass
  case nodupModule => rw [hmodule]; exact h.nodupModule
  case mem_class => rw [howner, hclass]; exact h.mem_class
  case mem_module => rw [howner, hclass, hmodule]; exact h.mem_module

theorem empty : Graph.empty.OwnersListMethods := by
  constructor
  case keyed =>
    intro id m hm
    cases hm
  case nodupClass =>
    intro name ids hids
    cases hids
  case nodupModule =>
    intro name ids hids
    cases hids
  case mem_class =>
    intro id owner howner
    cases howner
  case mem_module =>
    intro id owner howner
    cases howner

theorem addClass (h : g.OwnersListMethods) {c : ClassInfo} (hfresh : c.methods = []) :
    (g.addClass c).OwnersListMethods := by
  have hmethods := methods_addClass g c
  have howner : (g.addClass c).ownerOf? = g.ownerOf? := by funext id; rw [ownerOf?, hmethods, ownerOf?]
  have hmodule : (g.addClass c).moduleList? = g.moduleList? := by
    funext name
    rw [moduleList?, moduleCores_addClass, moduleList?]
  have hclass (name : String) := classList?_addClass g c name
  constructor
  case keyed => rw [hmethods]; exact h.keyed
  case nodupClass =>
    intro name ids hids
    rw [hclass] at hids
    split at hids
    · rw [Option.some.injEq] at hids
      subst hids
      cases hold : g.classList? name with
      | some old => exact h.nodupClass name old hold
      | none =>
        rw [Option.getD_none, hfresh]
        exact nodup_foldl_addUnique List.nodup_nil
    · exact h.nodupClass name ids hids
  case nodupModule => rw [hmodule]; exact h.nodupModule
  case mem_class =>
    intro id owner hid hne ids hids
    rw [howner] at hid
    rw [hclass] at hids
    split at hids
    · next hname =>
      rw [Option.some.injEq] at hids
      subst hids
      cases hold : g.classList? owner with
      | some old => exact h.mem_class id owner hid hne old hold
      | none =>
        rw [Option.getD_none, mem_foldl_addUnique, mem_waitingMethods_iff h.keyed, ← hname]
        exact Or.inr hid
    · exact h.mem_class id owner hid hne ids hids
  case mem_module =>
    intro id owner hid hne hnone ids hids
    rw [howner] at hid
    rw [hmodule] at hids
    rw [hclass] at hnone
    split at hnone
    · cases hnone
    · exact h.mem_module id owner hid hne hnone ids hids

theorem addModule (h : g.OwnersListMethods) {m : ModuleInfo} (hfresh : m.methods = []) :
    (g.addModule m).OwnersListMethods := by
  have hmethods := methods_addModule g m
  have howner : (g.addModule m).ownerOf? = g.ownerOf? := by funext id; rw [ownerOf?, hmethods, ownerOf?]
  have hclass : (g.addModule m).classList? = g.classList? := by
    funext name
    rw [classList?, classCores_addModule, classList?]
  have hmodule (name : String) := moduleList?_addModule g m name
  constructor
  case keyed => rw [hmethods]; exact h.keyed
  case nodupClass => rw [hclass]; exact h.nodupClass
  case nodupModule =>
    intro name ids hids
    rw [hmodule] at hids
    split at hids
    · rw [Option.some.injEq] at hids
      subst hids
      cases hold : g.moduleList? name with
      | some old => exact h.nodupModule name old hold
      | none =>
        rw [Option.getD_none, hfresh]
        exact nodup_foldl_addUnique List.nodup_nil
    · exact h.nodupModule name ids hids
  case mem_class => rw [howner, hclass]; exact h.mem_class
  case mem_module =>
    intro id owner hid hne hnone ids hids
    rw [howner] at hid
    rw [hclass] at hnone
    rw [hmodule] at hids
    split at hids
    · next hname =>
      rw [Option.some.injEq] at hids
      subst hids
      cases hold : g.moduleList? owner with
      | some old => exact h.mem_module id owner hid hne hnone old hold
      | none =>
        rw [Option.getD_none, mem_foldl_addUnique, mem_waitingMethods_iff h.keyed, ← hname]
        exact Or.inr hid
    · exact h.mem_module id owner hid hne hnone ids hids

theorem addMixin (h : g.OwnersListMethods) (e : MixinEdge) : (g.addMixin e).OwnersListMethods := by
  refine h.of_eq ?_ ?_ rfl
  · funext name
    rw [classList?, classCores_addMixin, classList?, Option.map_map]
    congr 1
    funext c
    simp only [Function.comp]
    split <;> rfl
  · funext name
    rw [moduleList?, moduleCores_addMixin, moduleList?]

theorem addMethod (h : g.OwnersListMethods) (m : MethodInfo) : (g.addMethod m).OwnersListMethods := by
  have howner := ownerOf?_addMethod g m
  have hclass := classList?_addMethod g m
  have hmodule := moduleList?_addMethod g m
  constructor
  case keyed =>
    rw [unlink_addMethod]
    exact h.keyed.insert m.unlinked
  case nodupClass =>
    intro name ids hids
    rw [hclass] at hids
    obtain ⟨old, hold, rfl⟩ := Option.map_eq_some_iff.mp hids
    split
    · exact nodup_addUnique (h.nodupClass name old hold) m.id
    · exact h.nodupClass name old hold
  case nodupModule =>
    intro name ids hids
    rw [hmodule] at hids
    obtain ⟨old, hold, rfl⟩ := Option.map_eq_some_iff.mp hids
    split
    · exact nodup_addUnique (h.nodupModule name old hold) m.id
    · exact h.nodupModule name old hold
  case mem_class =>
    intro id owner hid hne ids hids
    rw [howner] at hid
    rw [hclass] at hids
    obtain ⟨old, hold, rfl⟩ := Option.map_eq_some_iff.mp hids
    split at hid
    · next hsame =>
      rw [if_pos ⟨hid, hne⟩, mem_addUnique]
      exact Or.inr hsame.symm
    · have hmem := h.mem_class id owner hid hne old hold
      split
      · exact mem_addUnique.mpr (Or.inl hmem)
      · exact hmem
  case mem_module =>
    intro id owner hid hne hnone ids hids
    rw [howner] at hid
    rw [hclass, Option.map_eq_none_iff] at hnone
    rw [hmodule] at hids
    obtain ⟨old, hold, rfl⟩ := Option.map_eq_some_iff.mp hids
    split at hid
    · next hsame =>
      rw [if_pos ⟨hid, hne, hnone⟩, mem_addUnique]
      exact Or.inr hsame.symm
    · have hmem := h.mem_module id owner hid hne hnone old hold
      split
      · exact mem_addUnique.mpr (Or.inl hmem)
      · exact hmem

theorem undeclare (h : g.OwnersListMethods) (uri name : String) :
    (undeclare uri g name).OwnersListMethods := by
  have hmethods : (Graph.undeclare uri g name).methods = g.methods := by
    obtain ⟨classes, modules, declaredIn, heq⟩ := undeclare_eq uri g name
    rw [heq]
  rcases lists_undeclare uri g name with ⟨hclass, hmodule⟩ | ⟨hclass, hmodule⟩
  · exact h.of_eq hclass hmodule (by rw [hmethods])
  · have howner : (Graph.undeclare uri g name).ownerOf? = g.ownerOf? := by
      funext id
      rw [ownerOf?, hmethods, ownerOf?]
    have hstays {lists lists' : String → Option (List String)} {other : String} {ids : List String}
        (heq : ∀ other, lists' other = if other = name then none else lists other)
        (hids : lists' other = some ids) : other ≠ name ∧ lists other = some ids := by
      rw [heq] at hids
      split at hids
      · cases hids
      · next hne => exact ⟨hne, hids⟩
    constructor
    case keyed => rw [hmethods]; exact h.keyed
    case nodupClass =>
      intro other ids hids
      exact h.nodupClass other ids (hstays hclass hids).2
    case nodupModule =>
      intro other ids hids
      exact h.nodupModule other ids (hstays hmodule hids).2
    case mem_class =>
      intro id owner hid hne ids hids
      rw [howner] at hid
      exact h.mem_class id owner hid hne ids (hstays hclass hids).2
    case mem_module =>
      -- a class does not go and leave a module of its name behind
      intro id owner hid hne hnone ids hids
      obtain ⟨hother, hids⟩ := hstays hmodule hids
      rw [howner] at hid
      rw [hclass, if_neg hother] at hnone
      exact h.mem_module id owner hid hne hnone ids hids

theorem dropMixin (h : g.OwnersListMethods) (e : MixinEdge) : (g.dropMixin e).OwnersListMethods := by
  apply h.of_eq (classList?_dropMixin g e)
  · funext name
    rw [moduleList?, moduleCores_dropMixin, moduleList?]
  · obtain ⟨classes, modules, heq⟩ := dropMixin_eq g e
    rw [heq]

theorem dropMethod (h : g.OwnersListMethods) (m : MethodInfo) :
    (g.dropMethod m).OwnersListMethods := by
  have hunlink : unlink (g.dropMethod m).methods = (unlink g.methods).erase m.id := by
    obtain ⟨classes, modules, heq⟩ := dropMethod_eq g m
    rw [heq]
    exact OrderedMap.map_erase _ _ _
  have hclass := classList?_mapMethodIds { g with methods := g.methods.erase m.id }
    (m.className.getD "") (·.erase m.id)
  have hmodule := moduleList?_mapMethodIds { g with methods := g.methods.erase m.id }
    (m.className.getD "") (·.erase m.id)
  have howner {id owner : String} (hid : (g.dropMethod m).ownerOf? id = some owner) :
      id ≠ m.id ∧ g.ownerOf? id = some owner := by
    rw [ownerOf?, hunlink, OrderedMap.get?_erase] at hid
    split at hid
    · cases hid
    · next hne => exact ⟨hne, hid⟩
  constructor
  case keyed =>
    intro id k hk
    rw [hunlink, OrderedMap.get?_erase] at hk
    split at hk
    · cases hk
    · exact h.keyed id k hk
  case nodupClass =>
    intro name ids hids
    obtain ⟨old, hold, rfl⟩ := Option.map_eq_some_iff.mp ((hclass name).symm.trans hids)
    split
    · exact (h.nodupClass name old hold).erase m.id
    · exact h.nodupClass name old hold
  case nodupModule =>
    intro name ids hids
    obtain ⟨old, hold, rfl⟩ := Option.map_eq_some_iff.mp ((hmodule name).symm.trans hids)
    split
    · exact (h.nodupModule name old hold).erase m.id
    · exact h.nodupModule name old hold
  case mem_class =>
    intro id owner hid hne ids hids
    obtain ⟨hother, hid⟩ := howner hid
    obtain ⟨old, hold, rfl⟩ := Option.map_eq_some_iff.mp ((hclass owner).symm.trans hids)
    have hmem := h.mem_class id owner hid hne old hold
    split
    · exact (List.mem_erase_of_ne hother).mpr hmem
    · exact hmem
  case mem_module =>
    intro id owner hid hne hnone ids hids
    obtain ⟨hother, hid⟩ := howner hid
    have hbefore := (hclass owner).symm.trans hnone
    rw [Option.map_eq_none_iff] at hbefore
    obtain ⟨old, hold, rfl⟩ := Option.map_eq_some_iff.mp ((hmodule owner).symm.trans hids)
    have hmem := h.mem_module id owner hid hne hbefore old hold
    split
    · exact (List.mem_erase_of_ne hother).mpr hmem
    · exact hmem

theorem foldl {α : Type} {f : Graph → α → Graph}
    (hf : ∀ {g : Graph}, g.OwnersListMethods → ∀ a, (f g a).OwnersListMethods)
    (h : g.OwnersListMethods) (items : List α) : (items.foldl f g).OwnersListMethods := by
  induction items generalizing g with
  | nil => exact h
  | cons a rest ih => exact ih (hf h a)

theorem removeFile (h : g.OwnersListMethods) (uri : String) :
    (g.removeFile uri).OwnersListMethods := by
  have hwithout : (g.withoutFile uri).OwnersListMethods := by
    apply foldl dropMethod
    apply foldl dropMixin
    exact foldl (fun hg name => hg.undeclare uri name) h _
  obtain ⟨hclasses, hmodules, -⟩ := removeFile_hierarchy g uri
  apply hwithout.of_eq
  · funext name
    rw [classList?, classCores, hclasses]
    rfl
  · funext name
    rw [moduleList?, moduleCores, hmodules]
    rfl
  · exact unlink_methods_refresh _

theorem apply (h : g.OwnersListMethods) {change : Mutation}
    (hclasses : ∀ c, change = .addClass c → c.methods = [])
    (hmodules : ∀ m, change = .addModule m → m.methods = []) :
    (g.apply change).OwnersListMethods := by
  cases change with
  | addClass c => exact h.addClass (hclasses c rfl)
  | addModule m => exact h.addModule (hmodules m rfl)
  | addMixin e => exact h.addMixin e
  | addMethod m => exact h.addMethod m
  | addCall e => exact h.of_eq rfl rfl (unlink_linkCall _ _)
  | addUsage u => exact h.of_eq rfl rfl (unlink_linkUsage _ _)
  | addType t =>
    obtain ⟨types, heq⟩ := addType_eq g t
    rw [Graph.apply, heq]
    exact h.of_eq rfl rfl rfl
  | refresh =>
    apply h.of_eq
    · rw [Graph.apply]
      unfold Graph.refresh
      split <;> rfl
    · rw [Graph.apply]
      unfold Graph.refresh
      split <;> rfl
    · exact unlink_methods_refresh g
  | removeFile uri => exact h.removeFile uri
  | clear => exact OwnersListMethods.empty
  | _ => exact h.of_eq rfl rfl rfl

theorem run (h : g.OwnersListMethods) {changes : List Mutation}
    (hclasses : ∀ c ∈ declaredClasses changes, c.methods = [])
    (hmodules : ∀ m ∈ declaredModules changes, m.methods = []) :
    (g.run changes).OwnersListMethods := by
  induction changes generalizing g with
  | nil => exact h
  | cons change rest ih =>
    have hfirst : (g.apply change).OwnersListMethods := by
      apply h.apply
      · rintro c rfl
        exact hclasses c (mem_declaredClasses.mpr List.mem_cons_self)
      · rintro m rfl
        exact hmodules m (mem_declaredModules.mpr List.mem_cons_self)
    apply ih hfirst
    · intro c hc
      exact hclasses c (mem_declaredClasses.mpr (List.mem_cons_of_mem _ (mem_declaredClasses.mp hc)))
    · intro m hm
      exact hmodules m (mem_declaredModules.mpr (List.mem_cons_of_mem _ (mem_declaredModules.mp hm)))

end OwnersListMethods

/-- After any changes no list of methods has a repetition, and every stored method that names an owner,
which is not the empty name, stands in the list of the class of that name, or if there is none, of the
module. -/
theorem owners_list_their_methods (changes : List Mutation)
    (hclasses : ∀ c ∈ declaredClasses changes, c.methods = [])
    (hmodules : ∀ m ∈ declaredModules changes, m.methods = []) :
    let g := empty.run changes
    (∀ c ∈ g.classes.values, c.methods.Nodup) ∧ (∀ k ∈ g.modules.values, k.methods.Nodup) ∧
    ∀ m ∈ g.methods.values, ∀ owner, m.className = some owner → owner ≠ "" →
      (∀ c, g.classes.get? owner = some c → m.id ∈ c.methods) ∧
      (g.classes.get? owner = none → ∀ k, g.modules.get? owner = some k → m.id ∈ k.methods) := by
  intro g
  have hg : g.OwnersListMethods := OwnersListMethods.empty.run hclasses hmodules
  have hk : Keyed g.methods := keyed_run keyed_empty changes
  refine ⟨?_, ?_, ?_⟩
  · intro c hc
    obtain ⟨name, hget⟩ := OrderedMap.mem_values_iff.mp hc
    exact hg.nodupClass name _ (classList?_of_get? hget)
  · intro k hk
    obtain ⟨name, hget⟩ := OrderedMap.mem_values_iff.mp hk
    exact hg.nodupModule name _ (moduleList?_of_get? hget)
  · intro m hm owner howner hne
    obtain ⟨id, hget⟩ := OrderedMap.mem_values_iff.mp hm
    have hid := hk id m hget
    subst hid
    have hnamed : g.ownerOf? m.id = some owner := by
      rw [ownerOf?, get?_unlink, hget]
      exact howner
    constructor
    · intro c hc
      exact hg.mem_class m.id owner hnamed hne _ (classList?_of_get? hc)
    · intro hnone k hk
      have hclass : g.classList? owner = none := by
        rw [classList?, get?_classCores, hnone]
        rfl
      exact hg.mem_module m.id owner hnamed hne hclass _ (moduleList?_of_get? hk)

def ownMethod (file owner name : String) : Mutation :=
  .addMethod { id := methodId owner name false, name, location := Location.ofFile file
               className := some owner }

/-- A method that comes before its owner, one that a second file replaces, a class that takes the place
of a module, and a file that goes. -/
def replacedMethods : List Mutation :=
  [ownMethod "a.rb" "Tool" "run",
    .addModule { name := "Tool", fullName := "Tool", location := Location.ofFile "a.rb" },
    ownMethod "a.rb" "Tool" "stop", classIn "b.rb" "Tool" none none, ownMethod "b.rb" "Tool" "run",
    .removeFile "a.rb"]

theorem owners_list_their_methods_replaced :
    (∀ c ∈ declaredClasses replacedMethods, c.methods = []) ∧
    (∀ m ∈ declaredModules replacedMethods, m.methods = []) ∧
    let g := empty.run replacedMethods
    (g.classes.get? "Tool").map ClassInfo.methods = some ["Tool#run"] ∧
    ∀ m ∈ g.methods.values, ∀ owner, m.className = some owner → owner ≠ "" →
      (∀ c, g.classes.get? owner = some c → m.id ∈ c.methods) ∧
      (g.classes.get? owner = none → ∀ k, g.modules.get? owner = some k → m.id ∈ k.methods) := by
  have hclasses : ∀ c ∈ declaredClasses replacedMethods, c.methods = [] := by decide
  have hmodules : ∀ m ∈ declaredModules replacedMethods, m.methods = [] := by decide
  exact ⟨hclasses, hmodules, by decide, (owners_list_their_methods _ hclasses hmodules).2.2⟩

def namelessOwner : List Mutation :=
  [classIn "a.rb" "" none none,
    .addMethod { id := "Object#go", name := "go", location := Location.ofFile "a.rb", className := some "" }]

theorem nameless_owner_lists_nothing :
    ∃ m ∈ (empty.run namelessOwner).methods.values, ∃ c ∈ (empty.run namelessOwner).classes.values,
      m.className = some c.fullName ∧ m.id ∉ c.methods := by
  decide

end CodeAtlas.Graph
