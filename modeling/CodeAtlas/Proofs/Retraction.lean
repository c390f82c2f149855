import CodeAtlas.Proofs.Contribution
import CodeAtlas.Proofs.Declarations

/-!
Taking a file back takes back that file and nothing else. What was located in it is gone, every class
and module that stays is located in a file that still declares it, and whatever other files put into
the graph is kept in its order.
-/

namespace CodeAtlas

namespace Graph

def place (g : Graph) (name : String) : Option Location :=
  ((g.classes.get? name).map ClassInfo.location).or ((g.modules.get? name).map ModuleInfo.location)

def Placed (g : Graph) : Prop :=
  ∀ name l, g.place name = some l → ∃ files, g.declaredIn.get? name = some files ∧ l.uri ∈ files

theorem place_eq_cores (g : Graph) (name : String) :
    g.place name =
      ((g.classCores.get? name).map ClassInfo.location).or
        ((g.moduleCores.get? name).map ModuleInfo.location) := by
  rw [place, get?_classCores, get?_moduleCores, Option.map_map, Option.map_map]
  rfl

theorem Placed.of_place {g g' : Graph} (h : g.Placed) (hplace : ∀ name, g'.place name = g.place name)
    (hdeclared : g'.declaredIn = g.declaredIn) : g'.Placed := by
  intro name l hl
  rw [hplace] at hl
  rw [hdeclared]
  exact h name l hl

theorem mem_addUnique {α : Type} [DecidableEq α] {l : List α} {a b : α} :
    b ∈ addUnique l a ↔ b ∈ l ∨ b = a := by
  unfold addUnique
  split
  · next h =>
    constructor
    · exact Or.inl
    · rintro (hb | rfl)
      · exact hb
      · exact h
  · simp

theorem get?_declare (g : Graph) (name uri other : String) :
    (g.declare name uri).declaredIn.get? other =
      if name = other then some (addUnique ((g.declaredIn.get? name).getD []) uri)
      else g.declaredIn.get? other :=
  OrderedMap.get?_insert _ _ _ _

theorem declaredIn_addClass (g : Graph) (c : ClassInfo) :
    (g.addClass c).declaredIn = (g.declare c.fullName c.location.uri).declaredIn := by
  have hlink (k : Graph) : (k.linkSuperclass c.fullName).declaredIn = k.declaredIn := by
    obtain ⟨classes, h⟩ := linkSuperclass_eq k c.fullName
    rw [h]
  unfold addClass
  dsimp only
  split
  · split
    · rw [hlink]
    · rfl
  · exact hlink _

theorem declaredIn_addModule (g : Graph) (m : ModuleInfo) :
    (g.addModule m).declaredIn = (g.declare m.fullName m.location.uri).declaredIn := by
  unfold addModule
  dsimp only
  split <;> rfl

theorem Placed.declare {g g' : Graph} (h : g.Placed) {name : String} {l : Location}
    (hdeclared : g'.declaredIn = (g.declare name l.uri).declaredIn)
    (hother : ∀ other, other ≠ name → g'.place other = g.place other)
    (hname : ∀ l', g'.place name = some l' → g.place name = some l' ∨ l' = l) : g'.Placed := by
  intro other l' hl'
  rw [hdeclared, get?_declare]
  by_cases hother' : name = other
  · subst hother'
    refine ⟨_, if_pos rfl, ?_⟩
    rw [mem_addUnique]
    rcases hname l' hl' with hold | rfl
    · obtain ⟨files, hfiles, hmem⟩ := h name l' hold
      rw [hfiles]
      exact Or.inl hmem
    · exact Or.inr rfl
  · rw [if_neg hother']
    apply h
    rw [← hother other (Ne.symm hother')]
    exact hl'

theorem Placed.addClass {g : Graph} (h : g.Placed) (c : ClassInfo) : (g.addClass c).Placed := by
  apply h.declare (declaredIn_addClass g c)
  · intro other hother
    rw [place_eq_cores, place_eq_cores, classCores_addClass, if_neg hother, moduleCores_addClass]
  · intro l hl
    rw [place_eq_cores, classCores_addClass, if_pos rfl] at hl
    rw [place_eq_cores]
    unfold declaredCore at hl
    split at hl
    · next old hold => exact Or.inl (by simpa [hold, ClassInfo.merge, ClassInfo.core] using hl)
    · exact Or.inr (by simpa [ClassInfo.core] using hl.symm)

theorem Placed.addModule {g : Graph} (h : g.Placed) (m : ModuleInfo) : (g.addModule m).Placed := by
  apply h.declare (declaredIn_addModule g m)
  · intro other hother
    rw [place_eq_cores, place_eq_cores, moduleCores_addModule, if_neg hother, classCores_addModule]
  · intro l hl
    rw [place_eq_cores, moduleCores_addModule, if_pos rfl, classCores_addModule] at hl
    rw [place_eq_cores]
    unfold declaredModuleCore at hl
    cases hc : g.classCores.get? m.fullName with
    | some c => exact Or.inl (by simpa [hc] using hl)
    | none =>
      cases hm : g.moduleCores.get? m.fullName with
      | some old => exact Or.inl (by simpa [hc, hm] using hl)
      | none => exact Or.inr (by simpa [hc, hm, ModuleInfo.core] using hl.symm)

theorem place_mapMethodIds (g : Graph) (owner : String) (f : List String → List String)
    (name : String) : (g.mapMethodIds owner f).place name = g.place name := by
  have hclass (c : Option ClassInfo) :
      (c.map fun c => if name = owner then { c with methods := f c.methods } else c).map
        ClassInfo.location = c.map ClassInfo.location := by
    cases c with
    | none => rfl
    | some c => split <;> rfl
  have hmodule (m : Option ModuleInfo) (p : Prop) [Decidable p] :
      (m.map fun m => if p then { m with methods := f m.methods } else m).map
        ModuleInfo.location = m.map ModuleInfo.location := by
    cases m with
    | none => rfl
    | some m => by_cases hp : p <;> simp [hp]
  rw [place_eq_cores, place_eq_cores, classCores_mapMethodIds, moduleCores_mapMethodIds, hclass,
    hmodule]

theorem declaredIn_mapMethodIds (g : Graph) (owner : String) (f : List String → List String) :
    (g.mapMethodIds owner f).declaredIn = g.declaredIn := by
  obtain ⟨classes, modules, h⟩ := mapMethodIds_eq g owner f
  rw [h]

theorem Placed.addMixin {g : Graph} (h : g.Placed) (e : MixinEdge) : (g.addMixin e).Placed := by
  refine h.of_place (fun name => ?_) rfl
  have hclass (c : Option ClassInfo) :
      (c.map fun c => if name = e.owner then { c with mixins := addUnique c.mixins e.module }
        else c).map ClassInfo.location = c.map ClassInfo.location := by
    cases c with
    | none => rfl
    | some c => split <;> rfl
  rw [place_eq_cores, place_eq_cores, classCores_addMixin, moduleCores_addMixin, hclass]

theorem Placed.addMethod {g : Graph} (h : g.Placed) (m : MethodInfo) : (g.addMethod m).Placed := by
  unfold Graph.addMethod
  dsimp only
  split
  · split
    · exact h.of_place (fun _ => rfl) rfl
    · exact h.of_place (fun _ => place_mapMethodIds _ _ _ _) (declaredIn_mapMethodIds _ _ _)
  · exact h.of_place (fun _ => rfl) rfl

def otherFiles (uri : String) (files : List String) : Option (List String) :=
  if (files.filter (· ≠ uri)).isEmpty then none else some (files.filter (· ≠ uri))

theorem getD_otherFiles (uri : String) (files : List String) :
    (otherFiles uri files).getD [] = files.filter (· ≠ uri) := by
  unfold otherFiles
  split
  · next hempty => exact (List.isEmpty_iff.mp hempty).symm
  · rfl

theorem declaredIn_undeclare (uri : String) (g : Graph) (name other : String) :
    (undeclare uri g name).declaredIn.get? other =
      if name = other then otherFiles uri ((g.declaredIn.get? name).getD [])
      else g.declaredIn.get? other := by
  unfold undeclare otherFiles
  dsimp only
  split
  · obtain ⟨classes, h⟩ := dropClass_eq { g with declaredIn := g.declaredIn.erase name } name
    rw [h]
    dsimp only
    rw [OrderedMap.get?_erase]
    simp only [eq_comm]
  · generalize ((g.declaredIn.get? name).getD []).filter (· ≠ uri) = files
    obtain ⟨classes, modules, h⟩ :=
      relocate_eq { g with declaredIn := g.declaredIn.insert name files } name files
    rw [h]
    dsimp only
    rw [OrderedMap.get?_insert]

theorem location_dropClass (g : Graph) (name other : String) :
    ((g.dropClass name).classes.get? other).map ClassInfo.location =
      if other = name then none else (g.classes.get? other).map ClassInfo.location := by
  unfold dropClass
  split
  · next hnone =>
    split
    · next h => rw [h, hnone, Option.map_none]
    · rfl
  · dsimp only
    rw [OrderedMap.get?_modify, OrderedMap.get?_erase]
    by_cases h : other = name
    · rw [if_pos h, if_pos h]
      rfl
    · rw [if_neg h, if_neg h, Option.map_map]
      congr 1
      funext c
      simp only [Function.comp]
      split <;> rfl

theorem modules_dropClass (g : Graph) (name : String) : (g.dropClass name).modules = g.modules := by
  obtain ⟨classes, h⟩ := dropClass_eq g name
  rw [h]

def moved (files : List String) (l : Location) : Location :=
  if files.contains l.uri then l else Location.ofFile (files.headD "")

theorem uri_moved_mem {files : List String} (h : files ≠ []) (l : Location) :
    (moved files l).uri ∈ files := by
  unfold moved
  split
  · next hmem => simpa using hmem
  · cases files with
    | nil => exact absurd rfl h
    | cons uri rest => exact List.mem_cons_self

theorem place_relocate (g : Graph) (name : String) {files : List String} (h : files ≠ [])
    (other : String) :
    (g.relocate name files).place other =
      (g.place other).map fun l => if other = name then moved files l else l := by
  unfold relocate
  split
  · exact absurd rfl h
  · next uri rest =>
    dsimp only
    split
    · next hclass =>
      simp only [place, OrderedMap.get?_modify]
      cases hc : g.classes.get? other with
      | some c => by_cases ho : other = name <;> simp [ho, moved]
      | none =>
        have ho : other ≠ name := by
          rintro rfl
          simp [OrderedMap.contains, hc] at hclass
        cases g.modules.get? other <;> simp [ho]
    · next hclass =>
      simp only [place, OrderedMap.get?_modify]
      cases hc : g.classes.get? other with
      | some c =>
        have ho : other ≠ name := by
          rintro rfl
          simp [OrderedMap.contains, hc] at hclass
        simp [ho]
      | none =>
        cases g.modules.get? other with
        | none => rfl
        | some m => by_cases ho : other = name <;> simp [ho, moved]

theorem Placed.undeclare {g : Graph} (h : g.Placed) (uri name : String) :
    (undeclare uri g name).Placed := by
  intro other l hl
  rw [declaredIn_undeclare]
  unfold Graph.undeclare at hl
  unfold otherFiles
  dsimp only at hl
  split at hl
  · next hempty =>
    have hne : other ≠ name := by
      rintro rfl
      simp [place, location_dropClass] at hl
    rw [if_neg (Ne.symm hne)]
    apply h
    rw [place, location_dropClass, if_neg hne] at hl
    simpa [place, modules_dropClass, hne] using hl
  · next hsome =>
    rw [List.isEmpty_iff] at hsome
    rw [place_relocate _ _ hsome] at hl
    obtain ⟨l', hl', rfl⟩ := Option.map_eq_some_iff.mp hl
    by_cases hname : other = name
    · subst hname
      simp only [if_true]
      rw [if_neg (by simpa using hsome)]
      exact ⟨_, rfl, uri_moved_mem hsome l'⟩
    · rw [if_neg hname, if_neg (Ne.symm hname)]
      exact h other l' hl'

theorem Placed.foldl_undeclare {g : Graph} (h : g.Placed) (uri : String) (names : List String) :
    (names.foldl (Graph.undeclare uri) g).Placed :=
  List.foldlRecOn names _ h fun _ hg name _ => hg.undeclare uri name

theorem not_mem_foldl_undeclare (uri : String) (names : List String) (g : Graph)
    (h : ∀ name files, g.declaredIn.get? name = some files → uri ∈ files → name ∈ names) :
    ∀ name files, (names.foldl (undeclare uri) g).declaredIn.get? name = some files →
      uri ∉ files := by
  induction names generalizing g with
  | nil =>
    intro name files hfiles hmem
    exact absurd (h name files hfiles hmem) List.not_mem_nil
  | cons name₀ rest ih =>
    apply ih
    intro name files hfiles hmem
    rw [declaredIn_undeclare] at hfiles
    split at hfiles
    · unfold otherFiles at hfiles
      split at hfiles
      · cases hfiles
      · cases hfiles
        simp at hmem
    · next hne =>
      rcases List.mem_cons.mp (h name files hfiles hmem) with rfl | hrest
      · exact absurd rfl hne
      · exact hrest

theorem place_modify (g : Graph) (owner target : String) (f : ClassInfo → ClassInfo)
    (h : ModuleInfo → ModuleInfo) (hf : ∀ c, (f c).location = c.location)
    (hh : ∀ m, (h m).location = m.location) (name : String) :
    { g with classes := g.classes.modify owner f, modules := g.modules.modify target h }.place name =
      g.place name := by
  have hclass : ((g.classes.modify owner f).get? name).map ClassInfo.location =
      (g.classes.get? name).map ClassInfo.location := by
    rw [OrderedMap.get?_modify, Option.map_map]
    congr 1
    funext c
    simp only [Function.comp]
    split
    · exact hf c
    · rfl
  have hmodule : ((g.modules.modify target h).get? name).map ModuleInfo.location =
      (g.modules.get? name).map ModuleInfo.location := by
    rw [OrderedMap.get?_modify, Option.map_map]
    congr 1
    funext m
    simp only [Function.comp]
    split
    · exact hh m
    · rfl
  simp only [place, hclass, hmodule]

theorem place_dropMixin (g : Graph) (e : MixinEdge) (name : String) :
    (g.dropMixin e).place name = g.place name := by
  unfold dropMixin
  dsimp only
  split
  · rfl
  · refine place_modify g _ _ _ _ ?_ ?_ name
    · exact fun _ => rfl
    · exact fun _ => rfl

theorem Placed.dropMixin {g : Graph} (h : g.Placed) (e : MixinEdge) : (g.dropMixin e).Placed := by
  obtain ⟨classes, modules, heq⟩ := dropMixin_eq g e
  exact h.of_place (place_dropMixin g e) (by rw [heq])

theorem Placed.foldl_dropMixin {g : Graph} (h : g.Placed) (edges : List MixinEdge) :
    (edges.foldl Graph.dropMixin g).Placed :=
  List.foldlRecOn edges _ h fun _ hg e _ => hg.dropMixin e

theorem place_dropMethod (g : Graph) (m : MethodInfo) (name : String) :
    (g.dropMethod m).place name = g.place name := place_mapMethodIds _ _ _ _

theorem Placed.dropMethod {g : Graph} (h : g.Placed) (m : MethodInfo) : (g.dropMethod m).Placed :=
  h.of_place (place_dropMethod g m) (declaredIn_mapMethodIds _ _ _)

theorem Placed.foldl_dropMethod {g : Graph} (h : g.Placed) (methods : List MethodInfo) :
    (methods.foldl Graph.dropMethod g).Placed :=
  List.foldlRecOn methods _ h fun _ hg m _ => hg.dropMethod m

def withoutDeclarations (g : Graph) (uri : String) : Graph :=
  (g.declaredIn.filter fun _ files => files.contains uri).keys.foldl (undeclare uri) g

def withoutMixins (g : Graph) (uri : String) : Graph :=
  (g.mixinEdges.filter fun e => e.uri == uri).foldl dropMixin g

def withoutMethods (g : Graph) (uri : String) : Graph :=
  (g.methods.values.filter fun m => m.location.uri == uri).foldl dropMethod g

def withoutFile (g : Graph) (uri : String) : Graph :=
  ((g.withoutDeclarations uri).withoutMixins uri).withoutMethods uri

theorem removeFile_hierarchy (g : Graph) (uri : String) :
    (g.removeFile uri).classes = (g.withoutFile uri).classes ∧
    (g.removeFile uri).modules = (g.withoutFile uri).modules ∧
    (g.removeFile uri).declaredIn = (g.withoutFile uri).declaredIn := by
  have hrefresh (k : Graph) : k.refresh.classes = k.classes ∧ k.refresh.modules = k.modules ∧
      k.refresh.declaredIn = k.declaredIn := by
    unfold refresh
    split <;> exact ⟨rfl, rfl, rfl⟩
  exact hrefresh _

theorem Placed.removeFile {g : Graph} (h : g.Placed) (uri : String) : (g.removeFile uri).Placed := by
  obtain ⟨hclasses, hmodules, hdeclared⟩ := removeFile_hierarchy g uri
  have hwithout : (g.withoutFile uri).Placed :=
    ((h.foldl_undeclare uri _).foldl_dropMixin _).foldl_dropMethod _
  apply hwithout.of_place _ hdeclared
  intro name
  rw [place, place, hclasses, hmodules]

theorem declaredIn_withoutMixins (g : Graph) (uri : String) :
    (g.withoutMixins uri).declaredIn = g.declaredIn := by
  obtain ⟨classes, modules, h⟩ := foldl_dropMixin_eq (g.mixinEdges.filter fun e => e.uri == uri) g
  rw [withoutMixins, h]

theorem declaredIn_withoutMethods (g : Graph) (uri : String) :
    (g.withoutMethods uri).declaredIn = g.declaredIn := by
  obtain ⟨classes, modules, h⟩ :=
    foldl_dropMethod_eq (g.methods.values.filter fun m => m.location.uri == uri) g
  rw [withoutMethods, h]

theorem declaredIn_removeFile (g : Graph) (uri : String) :
    (g.removeFile uri).declaredIn = (g.withoutDeclarations uri).declaredIn := by
  obtain ⟨-, -, hdeclared⟩ := removeFile_hierarchy g uri
  rw [hdeclared, withoutFile, declaredIn_withoutMethods, declaredIn_withoutMixins]

theorem not_mem_declaredIn_removeFile (g : Graph) (uri : String) :
    ∀ name files, (g.removeFile uri).declaredIn.get? name = some files → uri ∉ files := by
  rw [declaredIn_removeFile]
  apply not_mem_foldl_undeclare
  intro name files hfiles hmem
  have hget : (g.declaredIn.filter fun _ files => files.contains uri).get? name = some files := by
    rw [OrderedMap.get?_filter, hfiles, Option.filter_some, if_pos (by simpa using hmem)]
  exact OrderedMap.mem_keys_iff.mpr ⟨files, hget⟩

theorem Placed.apply {g : Graph} (h : g.Placed) (change : Mutation) : (g.apply change).Placed := by
  cases change with
  | addClass c => exact h.addClass c
  | addModule m => exact h.addModule m
  | addMixin e => exact h.addMixin e
  | addMethod m => exact h.addMethod m
  | addCall e => exact h.of_place (fun _ => rfl) rfl
  | addUsage u => exact h.of_place (fun _ => rfl) rfl
  | addReference r => exact h.of_place (fun _ => rfl) rfl
  | addAssociation a => exact h.of_place (fun _ => rfl) rfl
  | addType t =>
    obtain ⟨types, heq⟩ := addType_eq g t
    rw [Graph.apply, heq]
    exact h.of_place (fun _ => rfl) rfl
  | addDependency d => exact h.of_place (fun _ => rfl) rfl
  | refresh =>
    unfold Graph.apply Graph.refresh
    dsimp only
    split
    · exact h.of_place (fun _ => rfl) rfl
    · exact h
  | removeFile uri => exact h.removeFile uri
  | clear =>
    intro name l hl
    cases hl

theorem Placed.run {g : Graph} (h : g.Placed) (changes : List Mutation) :
    (g.run changes).Placed := by
  induction changes generalizing g with
  | nil => exact h
  | cons change rest ih => exact ih (h.apply change)

def DependenciesKeyed (g : Graph) : Prop := ∀ uri, ∀ d ∈ g.dependenciesOf uri, d.source = uri

theorem DependenciesKeyed.addDependency {g : Graph} (h : g.DependenciesKeyed) (d : Dependency) :
    (g.addDependency d).DependenciesKeyed := by
  intro uri d' hd'
  rw [dependenciesOf, Graph.addDependency, OrderedMap.append, OrderedMap.get?_insert] at hd'
  split at hd'
  · next hsource =>
    rcases List.mem_append.mp hd' with hold | hnew
    · exact hsource ▸ h d.source d' hold
    · rw [List.mem_singleton.mp hnew, hsource]
  · exact h uri d' hd'

theorem DependenciesKeyed.removeFile {g : Graph} (h : g.DependenciesKeyed) (uri : String) :
    (g.removeFile uri).DependenciesKeyed := by
  intro v d hd
  obtain ⟨classes, modules, declaredIn, heq⟩ := removeFile_eq g uri
  rw [dependenciesOf, heq, OrderedMap.get?_erase] at hd
  split at hd
  · cases hd
  · exact h v d hd

theorem DependenciesKeyed.apply {g : Graph} (h : g.DependenciesKeyed) (change : Mutation) :
    (g.apply change).DependenciesKeyed := by
  cases change with
  | addClass c =>
    obtain ⟨classes, declaredIn, heq⟩ := addClass_eq g c
    rw [Graph.apply, heq]
    exact h
  | addModule m =>
    obtain ⟨modules, declaredIn, heq⟩ := addModule_eq g m
    rw [Graph.apply, heq]
    exact h
  | addMethod m =>
    obtain ⟨classes, modules, heq⟩ := addMethod_eq g m
    rw [Graph.apply, heq]
    exact h
  | addType t =>
    obtain ⟨types, heq⟩ := addType_eq g t
    rw [Graph.apply, heq]
    exact h
  | addDependency d => exact h.addDependency d
  | refresh =>
    unfold Graph.apply Graph.refresh
    dsimp only
    split <;> exact h
  | removeFile uri => exact h.removeFile uri
  | clear =>
    intro uri d hd
    cases hd
  | _ => exact h

theorem DependenciesKeyed.run {g : Graph} (h : g.DependenciesKeyed) (changes : List Mutation) :
    (g.run changes).DependenciesKeyed := by
  induction changes generalizing g with
  | nil => exact h
  | cons change rest ih => exact ih (h.apply change)

structure Free (g : Graph) (uri : String) : Prop where
  methods : ∀ m ∈ g.methods.values, m.location.uri ≠ uri
  calls : ∀ e ∈ g.calls, e.location.uri ≠ uri
  usages : ∀ u ∈ g.usages, u.location.uri ≠ uri
  references : ∀ symbol, ∀ r ∈ g.referencesTo symbol, r.location.uri ≠ uri
  associations : ∀ model, ∀ a ∈ g.associationsOf model, a.location.uri ≠ uri
  types : ∀ t ∈ g.types.values, t.location.uri ≠ uri
  mixins : ∀ e ∈ g.mixinEdges, e.uri ≠ uri
  dependencies : g.dependencies.get? uri = none

/-- All that other files put into `g` is in `h`, in its order. Methods are compared without their
links; calls and usages lead where they lead in `h`. -/
structure Keeps (g h : Graph) (uri : String) : Prop where
  references : ∀ symbol,
    h.referencesTo symbol = (g.referencesTo symbol).filter fun r => r.location.uri != uri
  symbols : h.references.keys.Sublist g.references.keys
  associations : ∀ model,
    h.associationsOf model = (g.associationsOf model).filter fun a => a.location.uri != uri
  models : h.associations.keys.Sublist g.associations.keys
  dependencies : ∀ file,
    h.dependenciesOf file = (g.dependenciesOf file).filter fun d => d.source != uri
  files : h.dependencies.keys.Sublist g.dependencies.keys
  types : h.types.values = g.types.values.filter fun t => t.location.uri != uri
  mixins : h.mixinEdges = g.mixinEdges.filter fun e => e.uri != uri
  usages : h.usages = (g.usages.filter fun u => u.location.uri != uri).map h.dispatchUsage
  methods : h.methods.values.map MethodInfo.unlinked =
    (g.methods.values.filter fun m => m.location.uri != uri).map MethodInfo.unlinked
  calls : h.calls = (g.calls.filter fun e => e.location.uri != uri).map h.dispatch

theorem keys_keepItems_sublist {α : Type} (m : OrderedMap String (List α)) (p : α → Bool) :
    (keepItems m p).keys.Sublist m.keys := by
  rw [keepItems, ← OrderedMap.keys_map m fun _ items => items.filter p]
  exact OrderedMap.keys_filter_sublist _ _

theorem foldl_erase_methods {methods : OrderedMap String MethodInfo} (hk : Keyed methods)
    (uri : String) :
    ((methods.values.filter fun m => m.location.uri == uri).map MethodInfo.id).foldl
      OrderedMap.erase methods = methods.filter fun _ m => m.location.uri != uri := by
  rw [OrderedMap.foldl_erase_eq_filter]
  apply OrderedMap.filter_congr
  intro id m hm
  have hid : m.id = id := hk id m hm
  have hiff : id ∈ (methods.values.filter fun m => m.location.uri == uri).map MethodInfo.id ↔
      m.location.uri = uri := by
    constructor
    · intro hmem
      obtain ⟨m', hm', hid'⟩ := List.mem_map.mp hmem
      obtain ⟨hvalue, huri⟩ := List.mem_filter.mp hm'
      obtain ⟨id', hget⟩ := OrderedMap.mem_values_iff.mp hvalue
      have hsame : id' = id := by rw [← hk id' m' hget, hid']
      rw [hsame, hm] at hget
      cases hget
      simpa using huri
    · intro huri
      rw [← hid]
      apply List.mem_map_of_mem
      exact List.mem_filter.mpr ⟨OrderedMap.mem_values_iff.mpr ⟨id, hm⟩, by simpa using huri⟩
  by_cases huri : m.location.uri = uri <;> simp [hiff, huri]

theorem values_unlink (methods : OrderedMap String MethodInfo) :
    (unlink methods).values = methods.values.map MethodInfo.unlinked := by
  simp [unlink, OrderedMap.values, OrderedMap.map, MethodInfo.unlinked, Function.comp_def]

theorem methods_removeFile {g : Graph} (hk : Keyed g.methods) (uri : String) :
    (g.removeFile uri).methods.values.map MethodInfo.unlinked =
      (g.methods.values.filter fun m => m.location.uri != uri).map MethodInfo.unlinked := by
  obtain ⟨classes, modules, declaredIn, heq⟩ := removeFile_eq g uri
  rw [← values_unlink, heq, refresh_of_stale rfl]
  dsimp only
  rw [unlink_relink, foldl_erase_methods hk, values_unlink, OrderedMap.values_filter]

theorem calls_removeFile (g : Graph) (uri : String) :
    (g.removeFile uri).calls =
        (g.calls.filter fun e => e.location.uri != uri).map (g.removeFile uri).dispatch ∧
      (g.removeFile uri).usages =
        (g.usages.filter fun u => u.location.uri != uri).map (g.removeFile uri).dispatchUsage := by
  obtain ⟨classes, modules, declaredIn, heq⟩ := removeFile_eq g uri
  generalize hpruned : ({ g with
    classes, modules, declaredIn
    mixinEdges := g.mixinEdges.filter fun e => !(e.uri == uri)
    methods := ((g.methods.values.filter fun m => m.location.uri == uri).map
      MethodInfo.id).foldl OrderedMap.erase g.methods
    calls := g.calls.filter fun e => e.location.uri != uri
    usages := g.usages.filter fun u => u.location.uri != uri
    stale := true } : Graph) = pruned at heq
  have hh : (g.removeFile uri).hierarchy = pruned.hierarchy := by
    rw [heq]
    exact hierarchy_refresh pruned
  have hstale : pruned.stale = true := by rw [← hpruned]
  rw [dispatch_congr hh, dispatchUsage_congr hh, heq, refresh_of_stale hstale, ← hpruned]
  exact ⟨rfl, rfl⟩

theorem dependenciesOf_removeFile {g : Graph} (hd : g.DependenciesKeyed) (uri file : String) :
    (g.removeFile uri).dependenciesOf file =
      (g.dependenciesOf file).filter fun d => d.source != uri := by
  obtain ⟨classes, modules, declaredIn, heq⟩ := removeFile_eq g uri
  rw [heq, dependenciesOf, OrderedMap.get?_erase]
  split
  · next h =>
    symm
    rw [Option.getD_none, List.filter_eq_nil_iff]
    intro d hmem
    simp [hd file d hmem, h]
  · next h =>
    symm
    apply List.filter_eq_self.mpr
    intro d hmem
    simp [hd file d hmem, h]

theorem keeps_removeFile {g : Graph} (hk : Keyed g.methods) (hd : g.DependenciesKeyed)
    (uri : String) : Keeps g (g.removeFile uri) uri := by
  obtain ⟨classes, modules, declaredIn, heq⟩ := removeFile_eq g uri
  constructor
  case methods => exact methods_removeFile hk uri
  case calls => exact (calls_removeFile g uri).1
  case usages => exact (calls_removeFile g uri).2
  case dependencies => exact dependenciesOf_removeFile hd uri
  case references =>
    intro symbol
    rw [heq]
    exact getD_keepItems _ _ _
  case symbols =>
    rw [heq]
    exact keys_keepItems_sublist _ _
  case associations =>
    intro model
    rw [heq]
    exact getD_keepItems _ _ _
  case models =>
    rw [heq]
    exact keys_keepItems_sublist _ _
  case files =>
    rw [heq]
    exact OrderedMap.keys_filter_sublist _ _
  case types =>
    rw [heq]
    exact OrderedMap.values_filter _ _
  case mixins =>
    rw [heq]
    exact mixinEdges_refresh _

theorem Keeps.free {g h : Graph} {uri : String} (hkeeps : Keeps g h uri)
    (hdeps : h.dependencies.get? uri = none) : h.Free uri := by
  constructor
  case dependencies => exact hdeps
  case methods =>
    intro m hm
    have hmem : m.unlinked ∈ h.methods.values.map MethodInfo.unlinked := List.mem_map_of_mem hm
    rw [hkeeps.methods] at hmem
    obtain ⟨m', hm', hsame⟩ := List.mem_map.mp hmem
    have hlocation := congrArg MethodInfo.location hsame
    change m'.location = m.location at hlocation
    rw [← hlocation]
    simpa using (List.mem_filter.mp hm').2
  case calls =>
    intro e he
    rw [hkeeps.calls] at he
    obtain ⟨e', he', rfl⟩ := List.mem_map.mp he
    rw [location_dispatch]
    simpa using (List.mem_filter.mp he').2
  case usages =>
    intro u hu
    rw [hkeeps.usages] at hu
    obtain ⟨u', hu', rfl⟩ := List.mem_map.mp hu
    have hplace := congrArg Prod.fst (place_dispatchUsage h u')
    rw [Usage.place_fst, Usage.place_fst] at hplace
    rw [hplace]
    simpa using (List.mem_filter.mp hu').2
  case references =>
    intro symbol r hr
    rw [hkeeps.references] at hr
    simpa using (List.mem_filter.mp hr).2
  case associations =>
    intro model a ha
    rw [hkeeps.associations] at ha
    simpa using (List.mem_filter.mp ha).2
  case types =>
    intro t ht
    rw [hkeeps.types] at ht
    simpa using (List.mem_filter.mp ht).2
  case mixins =>
    intro e he
    rw [hkeeps.mixins] at he
    simpa using (List.mem_filter.mp he).2

/-- After any changes, taking a file back leaves nothing that is located in it; what stays of the
hierarchy is declared by other files and located in one of them; and all that other files put into
the graph is kept. -/
theorem removeFile_retracts_one_file (changes : List Mutation) (uri : String) :
    let g := empty.run changes
    let h := g.removeFile uri
    h.Free uri ∧
    (∀ name c, h.classes.get? name = some c →
      ∃ files, h.declaredIn.get? name = some files ∧ files ≠ [] ∧ uri ∉ files ∧
        c.location.uri ∈ files) ∧
    (∀ name m, h.modules.get? name = some m → h.classes.get? name = none →
      ∃ files, h.declaredIn.get? name = some files ∧ files ≠ [] ∧ uri ∉ files ∧
        m.location.uri ∈ files) ∧
    Keeps g h uri := by
  intro g h
  have hk : Keyed g.methods := keyed_run keyed_empty changes
  have hd : g.DependenciesKeyed := by
    apply DependenciesKeyed.run
    intro uri d hmem
    cases hmem
  have hg : g.Placed := by
    apply Placed.run
    intro name l hl
    cases hl
  have hkeeps : Keeps g h uri := keeps_removeFile hk hd uri
  have hdeps : h.dependencies.get? uri = none := by
    obtain ⟨classes, modules, declaredIn, heq⟩ := removeFile_eq g uri
    simp [h, heq]
  have hplaced (name : String) (l : Location) (hl : h.place name = some l) :
      ∃ files, h.declaredIn.get? name = some files ∧ files ≠ [] ∧ uri ∉ files ∧ l.uri ∈ files := by
    obtain ⟨files, hfiles, hmem⟩ := hg.removeFile uri name l hl
    have hother : uri ∉ files := not_mem_declaredIn_removeFile g uri name files hfiles
    exact ⟨files, hfiles, List.ne_nil_of_mem hmem, hother, hmem⟩
  refine ⟨hkeeps.free hdeps, ?_, ?_, hkeeps⟩
  · intro name c hc
    apply hplaced
    simp [place, hc]
  · intro name m hm hnone
    apply hplaced
    simp [place, hm, hnone]

end Graph

end CodeAtlas
