import CodeAtlas.Proofs.Listed
import Mathlib.Data.List.Nodup

namespace CodeAtlas

def ClassInfo.withoutSubclasses (c : ClassInfo) : ClassInfo := { c with subclasses := [] }

theorem ClassInfo.withoutSubclasses_of_core {c d : ClassInfo} (hcore : d.core = c.core)
    (hsuper : d.superclass = c.superclass) : d.withoutSubclasses = c.withoutSubclasses := by
  have hset := congrArg (fun k : ClassInfo => { k with superclass := c.superclass }) hcore
  calc d.withoutSubclasses = { d.core with superclass := d.superclass } := rfl
    _ = { d.core with superclass := c.superclass } := by rw [hsuper]
    _ = c.withoutSubclasses := hset

@[simp] theorem ClassInfo.mixins_withoutSubclasses (c : ClassInfo) :
    c.withoutSubclasses.mixins = c.mixins := rfl

@[simp] theorem ClassInfo.methods_withoutSubclasses (c : ClassInfo) :
    c.withoutSubclasses.methods = c.methods := rfl

@[simp] theorem ModuleInfo.methods_core (m : ModuleInfo) : m.core.methods = m.methods := rfl

def ClassInfo.bare (c : ClassInfo) : ClassInfo :=
  { c with location := default, subclasses := [] }

def ClassInfo.fixed (c : ClassInfo) : ClassInfo :=
  { c with location := default, mixins := [], subclasses := [], methods := [] }

theorem ClassInfo.fixed_eq (c : ClassInfo) :
    c.fixed = { c.core.fixed with superclass := c.superclass } := rfl

def ModuleInfo.placeless (m : ModuleInfo) : ModuleInfo := { m with location := default }

def ModuleInfo.fixed (m : ModuleInfo) : ModuleInfo :=
  { m with location := default, methods := [], includedIn := [], extendedIn := [] }

namespace Graph

theorem dropClass_get? (g : Graph) (name other : String) :
    ((g.dropClass name).classes.get? other).map ClassInfo.withoutSubclasses =
      if other = name then none else (g.classes.get? other).map ClassInfo.withoutSubclasses := by
  unfold dropClass
  split
  · next hnone =>
    split
    · next hname => rw [hname, hnone, Option.map_none]
    · rfl
  · dsimp only
    rw [OrderedMap.get?_modify, OrderedMap.get?_erase]
    by_cases hname : other = name
    · rw [if_pos hname, if_pos hname]
      rfl
    · rw [if_neg hname, if_neg hname, Option.map_map]
      congr 1
      funext c
      simp only [Function.comp]
      split <;> rfl

def remains (g : Graph) (uri name : String) : Bool := (g.filesOf name).any (· ≠ uri)

theorem remains_eq_false {g : Graph} {uri name : String} :
    g.remains uri name = false ↔ ∀ file ∈ g.filesOf name, file = uri := by
  simp [remains]

theorem undeclare_of_own {uri name : String} {g : Graph} (h : ∀ file ∈ g.filesOf name, file = uri) :
    undeclare uri g name =
      { ({ g with declaredIn := g.declaredIn.erase name }.dropClass name) with
        modules := g.modules.erase name } := by
  have hempty : ((g.filesOf name).filter (· ≠ uri)).isEmpty = true := by
    rw [List.isEmpty_iff, List.filter_eq_nil_iff]
    intro file hfile
    simpa using h file hfile
  rw [filesOf] at hempty
  unfold undeclare
  rw [if_pos hempty]
  dsimp only
  rw [modules_dropClass]

theorem undeclare_of_remains {g : Graph} {uri name : String} (h : g.remains uri name = true) :
    undeclare uri g name =
      { g with declaredIn := g.declaredIn.insert name ((g.filesOf name).filter (· ≠ uri)) }.relocate
        name ((g.filesOf name).filter (· ≠ uri)) := by
  have hsome : ¬((g.filesOf name).filter (· ≠ uri)).isEmpty = true := by
    intro hempty
    rw [List.isEmpty_iff, List.filter_eq_nil_iff] at hempty
    obtain ⟨file, hfile, hne⟩ := List.any_eq_true.mp h
    exact hempty file hfile hne
  rw [filesOf] at hsome ⊢
  unfold undeclare
  rw [if_neg hsome]

theorem relocate_get? (g : Graph) (name : String) (files : List String) (other : String) :
    ((g.relocate name files).classes.get? other).map ClassInfo.bare =
        (g.classes.get? other).map ClassInfo.bare ∧
      ((g.relocate name files).modules.get? other).map ModuleInfo.placeless =
        (g.modules.get? other).map ModuleInfo.placeless := by
  unfold relocate
  split
  · exact ⟨rfl, rfl⟩
  · dsimp only
    split
    · refine ⟨?_, rfl⟩
      rw [OrderedMap.get?_modify, Option.map_map]
      congr 1
      funext c
      simp only [Function.comp]
      split <;> rfl
    · refine ⟨rfl, ?_⟩
      rw [OrderedMap.get?_modify, Option.map_map]
      congr 1
      funext m
      simp only [Function.comp]
      split <;> rfl

theorem relocate_get?_of_ne (g : Graph) {name other : String} (hne : other ≠ name)
    (files : List String) :
    (g.relocate name files).classes.get? other = g.classes.get? other ∧
      (g.relocate name files).modules.get? other = g.modules.get? other := by
  unfold relocate
  split
  · exact ⟨rfl, rfl⟩
  · dsimp only
    split
    · refine ⟨?_, rfl⟩
      rw [OrderedMap.get?_modify]
      simp [hne]
    · refine ⟨rfl, ?_⟩
      rw [OrderedMap.get?_modify]
      simp [hne]

theorem undeclare_get?_of_ne (uri : String) (g : Graph) {name other : String} (hne : other ≠ name) :
    ((undeclare uri g name).classes.get? other).map ClassInfo.withoutSubclasses =
        (g.classes.get? other).map ClassInfo.withoutSubclasses ∧
      (undeclare uri g name).modules.get? other = g.modules.get? other := by
  cases h : g.remains uri name with
  | false =>
    rw [undeclare_of_own (remains_eq_false.mp h)]
    constructor
    · rw [dropClass_get?, if_neg hne]
    · dsimp only
      rw [OrderedMap.get?_erase, if_neg hne]
  | true =>
    rw [undeclare_of_remains h]
    obtain ⟨hclass, hmodule⟩ := relocate_get?_of_ne
      { g with declaredIn := g.declaredIn.insert name ((g.filesOf name).filter (· ≠ uri)) } hne
      ((g.filesOf name).filter (· ≠ uri))
    exact ⟨congrArg (Option.map ClassInfo.withoutSubclasses) hclass, hmodule⟩

theorem undeclare_get? (uri : String) (g : Graph) (name : String) :
    ((undeclare uri g name).classes.get? name).map ClassInfo.bare =
        (if g.remains uri name then (g.classes.get? name).map ClassInfo.bare else none) ∧
      ((undeclare uri g name).modules.get? name).map ModuleInfo.placeless =
        if g.remains uri name then (g.modules.get? name).map ModuleInfo.placeless else none := by
  cases h : g.remains uri name with
  | false =>
    rw [undeclare_of_own (remains_eq_false.mp h)]
    have hclass := dropClass_get? { g with declaredIn := g.declaredIn.erase name } name name
    rw [if_pos rfl, Option.map_eq_none_iff] at hclass
    constructor
    · dsimp only
      rw [hclass]
      rfl
    · dsimp only
      rw [OrderedMap.get?_erase, if_pos rfl]
      rfl
  | true =>
    rw [undeclare_of_remains h]
    exact relocate_get? _ _ _ _

theorem filesOf_undeclare (uri : String) (g : Graph) (name other : String) :
    (undeclare uri g name).filesOf other =
      if name = other then (g.filesOf name).filter (· ≠ uri) else g.filesOf other := by
  rw [filesOf, declaredIn_undeclare]
  split
  · exact getD_otherFiles _ _
  · rfl

theorem remains_undeclare (uri : String) (g : Graph) (name other : String) :
    (undeclare uri g name).remains uri other = g.remains uri other := by
  rw [remains, filesOf_undeclare]
  split
  · next hname =>
    subst hname
    rw [remains, List.any_filter]
    simp
  · rfl

theorem foldl_undeclare_get?_of_not_mem (uri : String) (names : List String) (g : Graph)
    {other : String} (h : other ∉ names) :
    ((names.foldl (undeclare uri) g).classes.get? other).map ClassInfo.withoutSubclasses =
        (g.classes.get? other).map ClassInfo.withoutSubclasses ∧
      (names.foldl (undeclare uri) g).modules.get? other = g.modules.get? other := by
  induction names generalizing g with
  | nil => exact ⟨rfl, rfl⟩
  | cons name rest ih =>
    rw [List.mem_cons, not_or] at h
    obtain ⟨hclass, hmodule⟩ := undeclare_get?_of_ne uri g h.1
    obtain ⟨hclasses, hmodules⟩ := ih (undeclare uri g name) h.2
    rw [List.foldl_cons]
    exact ⟨hclasses.trans hclass, hmodules.trans hmodule⟩

theorem map_bare_eq (c : Option ClassInfo) :
    c.map ClassInfo.bare = (c.map ClassInfo.withoutSubclasses).map ClassInfo.bare := by
  cases c <;> rfl

theorem foldl_undeclare_get? (uri : String) (names : List String) (g : Graph) (other : String) :
    ((names.foldl (undeclare uri) g).classes.get? other).map ClassInfo.bare =
        (if other ∈ names ∧ g.remains uri other = false then none
        else (g.classes.get? other).map ClassInfo.bare) ∧
      ((names.foldl (undeclare uri) g).modules.get? other).map ModuleInfo.placeless =
        if other ∈ names ∧ g.remains uri other = false then none
        else (g.modules.get? other).map ModuleInfo.placeless := by
  induction names generalizing g with
  | nil => simp
  | cons name rest ih =>
    obtain ⟨hclasses, hmodules⟩ := ih (undeclare uri g name)
    rw [List.foldl_cons, hclasses, hmodules, remains_undeclare]
    by_cases hname : other = name
    · subst hname
      obtain ⟨hclass, hmodule⟩ := undeclare_get? uri g other
      rw [hclass, hmodule]
      cases hremains : g.remains uri other <;> simp
    · obtain ⟨hclass, hmodule⟩ := undeclare_get?_of_ne uri g hname
      rw [map_bare_eq, hclass, ← map_bare_eq, hmodule]
      simp [hname]

theorem moduleCores_dropMixin (g : Graph) (e : MixinEdge) :
    (g.dropMixin e).moduleCores = g.moduleCores := by
  unfold dropMixin
  dsimp only
  split
  · rfl
  · exact OrderedMap.map_modify_of _ _ _ _ fun _ => rfl

def isShared (g : Graph) (e : MixinEdge) : Bool :=
  (g.mixinEdges.erase e).any fun o => o.owner == e.owner && o.module == e.module

theorem classes_dropMixin (g : Graph) (e : MixinEdge) (name : String) :
    (g.dropMixin e).classes.get? name = (g.classes.get? name).map fun c =>
      if g.isShared e = false ∧ name = e.owner then { c with mixins := c.mixins.erase e.module }
      else c := by
  unfold dropMixin isShared
  dsimp only
  split
  · next hshared => simp [hshared]
  · next hlast =>
    rw [Bool.not_eq_true] at hlast
    simp only [hlast, true_and]
    exact OrderedMap.get?_modify _ _ _ _

theorem users_dropMixin (g : Graph) (e : MixinEdge) (name : String) :
    (g.dropMixin e).users name =
      if g.isShared e then g.users name
      else (g.users name).map fun lists x =>
        if name = g.mixinTarget e then (lists x).erase e.owner else lists x := by
  unfold dropMixin isShared
  dsimp only
  split
  · rfl
  · unfold users
    rw [OrderedMap.get?_modify, Option.map_map, Option.map_map]
    congr 1
    funext m x
    change (if name = g.mixinTarget e then _ else m : ModuleInfo).users x = _
    split
    · cases x <;> rfl
    · rfl

theorem mixinEdges_dropMixin (g : Graph) (e : MixinEdge) :
    (g.dropMixin e).mixinEdges = g.mixinEdges.erase e := by
  obtain ⟨classes, modules, heq⟩ := dropMixin_eq g e
  rw [heq]

theorem mem_mixinEdges_dropMixin {g : Graph} {e e' : MixinEdge} (hne : e' ≠ e) :
    e' ∈ (g.dropMixin e).mixinEdges ↔ e' ∈ g.mixinEdges := by
  rw [mixinEdges_dropMixin]
  exact List.mem_erase_of_ne hne

theorem mem_of_mem_dropMixin {g : Graph} {e e' : MixinEdge}
    (hmem : e' ∈ (g.dropMixin e).mixinEdges) : e' ∈ g.mixinEdges := by
  rw [mixinEdges_dropMixin] at hmem
  exact List.mem_of_mem_erase hmem

theorem foldl_dropMixin_get?_of_ne (edges : List MixinEdge) (g : Graph) (name : String)
    (h : ∀ e ∈ edges, name ≠ e.owner) :
    (edges.foldl dropMixin g).classes.get? name = g.classes.get? name := by
  induction edges generalizing g with
  | nil => rfl
  | cons e rest ih =>
    rw [List.foldl_cons, ih _ fun e' he' => h e' (List.mem_cons_of_mem e he'), classes_dropMixin]
    simp [h e List.mem_cons_self]

theorem foldl_dropMixin_fixed (edges : List MixinEdge) (g : Graph) (name : String) :
    ((edges.foldl dropMixin g).classes.get? name).map ClassInfo.fixed =
        (g.classes.get? name).map ClassInfo.fixed ∧
      (edges.foldl dropMixin g).moduleCores = g.moduleCores := by
  induction edges generalizing g with
  | nil => exact ⟨rfl, rfl⟩
  | cons e rest ih =>
    obtain ⟨hclass, hmodules⟩ := ih (g.dropMixin e)
    rw [List.foldl_cons, hclass, hmodules, moduleCores_dropMixin, classes_dropMixin, Option.map_map]
    refine ⟨?_, rfl⟩
    congr 1
    funext c
    simp only [Function.comp]
    split <;> rfl

def listOf? (g : Graph) (name : String) : Option (List String) :=
  ((g.classes.get? name).map ClassInfo.methods).or ((g.modules.get? name).map ModuleInfo.methods)

theorem listOf?_mapMethodIds (g : Graph) (owner : String) (f : List String → List String)
    (name : String) :
    (g.mapMethodIds owner f).listOf? name =
      (g.listOf? name).map fun ids => if name = owner then f ids else ids := by
  unfold mapMethodIds listOf?
  by_cases hname : name = owner
  · subst hname
    split
    · next hclass =>
      obtain ⟨c, hc⟩ := Option.isSome_iff_exists.mp hclass
      simp [OrderedMap.get?_modify, hc]
    · next hclass =>
      rw [OrderedMap.contains, Option.not_isSome_iff_eq_none] at hclass
      simp [OrderedMap.get?_modify, hclass, Function.comp_def]
  · split <;> simp [OrderedMap.get?_modify, hname]

theorem listOf?_foldl_dropMixin (edges : List MixinEdge) (g : Graph) (name : String) :
    (edges.foldl dropMixin g).listOf? name = g.listOf? name := by
  induction edges generalizing g with
  | nil => rfl
  | cons e rest ih =>
    have hmodule := congrArg (fun cores => (OrderedMap.get? cores name).map ModuleInfo.methods)
      (moduleCores_dropMixin g e)
    simp only [get?_moduleCores, Option.map_map] at hmodule
    have hclass : ((g.dropMixin e).classes.get? name).map ClassInfo.methods =
        (g.classes.get? name).map ClassInfo.methods := by
      rw [classes_dropMixin, Option.map_map]
      congr 1
      funext c
      simp only [Function.comp]
      split <;> rfl
    rw [List.foldl_cons, ih, listOf?, hclass]
    exact congrArg (Option.or _) hmodule

theorem listOf?_dropMethod (g : Graph) (m : MethodInfo) (name : String) :
    (g.dropMethod m).listOf? name =
      (g.listOf? name).map fun ids => if name = m.className.getD "" then ids.erase m.id else ids :=
  listOf?_mapMethodIds { g with methods := g.methods.erase m.id } _ _ name

theorem listOf?_foldl_dropMethod (methods : List MethodInfo) (g : Graph) (name : String) :
    (methods.foldl dropMethod g).listOf? name = (g.listOf? name).map fun ids =>
      ids.diff ((methods.filter fun m => name = m.className.getD "").map MethodInfo.id) := by
  induction methods generalizing g with
  | nil => simp
  | cons m rest ih =>
    rw [List.foldl_cons, ih, listOf?_dropMethod, Option.map_map, List.filter_cons]
    congr 1
    funext ids
    simp only [Function.comp, decide_eq_true_eq]
    split <;> simp [List.diff_cons]

theorem dropMethod_get? (g : Graph) (m : MethodInfo) (name : String) :
    (g.dropMethod m).classes.get? name = (g.classes.get? name).map (fun c =>
        if name = m.className.getD "" then { c with methods := c.methods.erase m.id } else c) ∧
      (g.dropMethod m).modules.get? name = (g.modules.get? name).map fun k =>
        if name = m.className.getD "" ∧ g.classes.contains name = false then
          { k with methods := k.methods.erase m.id }
        else k := by
  unfold dropMethod mapMethodIds
  split
  · next hclass =>
    constructor
    · exact OrderedMap.get?_modify _ _ _ _
    · dsimp only at hclass ⊢
      by_cases hname : name = m.className.getD ""
      · simp [hname, hclass]
      · simp [hname]
  · next hclass =>
    dsimp only at hclass ⊢
    rw [OrderedMap.get?_modify]
    rw [Bool.not_eq_true] at hclass
    by_cases hname : name = m.className.getD ""
    · rw [hname]
      rw [OrderedMap.contains, Option.isSome_eq_false_iff, Option.isNone_iff_eq_none] at hclass
      simp [OrderedMap.contains, hclass]
    · simp [hname]

theorem foldl_dropMethod_fixed (methods : List MethodInfo) (g : Graph) (name : String) :
    ((methods.foldl dropMethod g).classes.get? name).map ClassInfo.fixed =
        (g.classes.get? name).map ClassInfo.fixed ∧
      ((methods.foldl dropMethod g).classes.get? name).map ClassInfo.mixins =
        (g.classes.get? name).map ClassInfo.mixins ∧
      ((methods.foldl dropMethod g).modules.get? name).map ModuleInfo.fixed =
        (g.modules.get? name).map ModuleInfo.fixed := by
  induction methods generalizing g with
  | nil => exact ⟨rfl, rfl, rfl⟩
  | cons m rest ih =>
    obtain ⟨hfixed, hmixins, hmodule⟩ := ih (g.dropMethod m)
    obtain ⟨hclass, hmodule'⟩ := dropMethod_get? g m name
    rw [List.foldl_cons, hfixed, hmixins, hmodule, hclass, hmodule', Option.map_map, Option.map_map,
      Option.map_map]
    refine ⟨?_, ?_, ?_⟩
    all_goals
      congr 1
      funext k
      simp only [Function.comp]
      split <;> rfl

theorem foldl_dropMethod_of_not_listed (methods : List MethodInfo) (g : Graph) (name : String)
    (hc : ∀ m ∈ methods, name = m.className.getD "" → ∀ c, g.classes.get? name = some c →
      m.id ∉ c.methods)
    (hm : ∀ m ∈ methods, name = m.className.getD "" → ∀ k, g.modules.get? name = some k →
      m.id ∉ k.methods) :
    (methods.foldl dropMethod g).classes.get? name = g.classes.get? name ∧
      (methods.foldl dropMethod g).modules.get? name = g.modules.get? name := by
  induction methods generalizing g with
  | nil => exact ⟨rfl, rfl⟩
  | cons m rest ih =>
    obtain ⟨hclass, hmodule⟩ := dropMethod_get? g m name
    have hsame : (g.dropMethod m).classes.get? name = g.classes.get? name := by
      rw [hclass]
      cases hget : g.classes.get? name with
      | none => rfl
      | some c =>
        rw [Option.map_some]
        split
        · next hname => rw [List.erase_of_not_mem (hc m List.mem_cons_self hname c hget)]
        · rfl
    have hsame' : (g.dropMethod m).modules.get? name = g.modules.get? name := by
      rw [hmodule]
      cases hget : g.modules.get? name with
      | none => rfl
      | some k =>
        rw [Option.map_some]
        split
        · next hname => rw [List.erase_of_not_mem (hm m List.mem_cons_self hname.1 k hget)]
        · rfl
    have hrest := ih (g.dropMethod m)
      (fun m' hm' hname c hget => hc m' (List.mem_cons_of_mem m hm') hname c (by rw [← hsame, hget]))
      (fun m' hm' hname k hget => hm m' (List.mem_cons_of_mem m hm') hname k (by rw [← hsame', hget]))
    rw [List.foldl_cons]
    exact ⟨hrest.1.trans hsame, hrest.2.trans hsame'⟩

end Graph

end CodeAtlas
