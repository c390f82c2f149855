import CodeAtlas.Proofs.Superclasses

namespace CodeAtlas

def MixinEdge.isExtension (e : MixinEdge) : Bool := decide (e.kind = .extended)

def ModuleInfo.users (m : ModuleInfo) (extension : Bool) : List String :=
  if extension then m.extendedIn else m.includedIn

theorem ModuleInfo.users_register (m : ModuleInfo) (e : MixinEdge) (x : Bool) :
    (m.register e).users x =
      if e.isExtension = x then addUnique (m.users x) e.owner else m.users x := by
  unfold register MixinEdge.isExtension users
  by_cases he : e.kind = .extended <;> cases x <;> simp [he]

theorem ModuleInfo.mem_foldl_register {edges : List MixinEdge} {m : ModuleInfo} {x : Bool}
    {owner : String} :
    owner ∈ (edges.foldl register m).users x ↔
      owner ∈ m.users x ∨ ∃ e ∈ edges, e.owner = owner ∧ e.isExtension = x := by
  induction edges generalizing m with
  | nil => simp
  | cons e rest ih =>
    rw [List.foldl_cons, ih, users_register]
    by_cases he : e.isExtension = x
    · rw [if_pos he, Graph.mem_addUnique, or_assoc]
      apply or_congr Iff.rfl
      simp [he, eq_comm]
    · rw [if_neg he]
      apply or_congr Iff.rfl
      simp [he]

theorem ModuleInfo.nodup_foldl_register {m : ModuleInfo} {x : Bool} (h : (m.users x).Nodup)
    (edges : List MixinEdge) : ((edges.foldl register m).users x).Nodup := by
  induction edges generalizing m with
  | nil => exact h
  | cons e rest ih =>
    apply ih
    rw [users_register]
    split
    · exact nodup_addUnique h e.owner
    · exact h

def declaredModules (changes : List Mutation) : List ModuleInfo :=
  changes.filterMap fun
    | .addModule m => some m
    | _ => none

def declaredMixins (changes : List Mutation) : List MixinEdge :=
  changes.filterMap fun
    | .addMixin e => some e
    | _ => none

theorem mem_declaredModules {changes : List Mutation} {m : ModuleInfo} :
    m ∈ declaredModules changes ↔ .addModule m ∈ changes := by
  unfold declaredModules
  rw [List.mem_filterMap]
  constructor
  · rintro ⟨change, hmem, heq⟩
    cases change <;> cases heq
    exact hmem
  · exact fun hmem => ⟨_, hmem, rfl⟩

theorem mem_declaredMixins {changes : List Mutation} {e : MixinEdge} :
    e ∈ declaredMixins changes ↔ .addMixin e ∈ changes := by
  unfold declaredMixins
  rw [List.mem_filterMap]
  constructor
  · rintro ⟨change, hmem, heq⟩
    cases change <;> cases heq
    exact hmem
  · exact fun hmem => ⟨_, hmem, rfl⟩

/-- A mixin can mean one of the declared modules at most. A mixin that means none is looked up under
the empty name, which no module has. -/
def UnambiguousMixins (changes : List Mutation) : Prop :=
  "" ∉ (declaredModules changes).map ModuleInfo.fullName ∧
  ∀ e ∈ declaredMixins changes, ∀ p ∈ (declaredModules changes).map ModuleInfo.fullName,
    p ∈ e.paths → ∀ q ∈ (declaredModules changes).map ModuleInfo.fullName, q ∈ e.paths → q = p

instance (changes : List Mutation) : Decidable (UnambiguousMixins changes) :=
  inferInstanceAs (Decidable ("" ∉ (declaredModules changes).map ModuleInfo.fullName ∧
    ∀ e ∈ declaredMixins changes, ∀ p ∈ (declaredModules changes).map ModuleInfo.fullName,
      p ∈ e.paths → ∀ q ∈ (declaredModules changes).map ModuleInfo.fullName, q ∈ e.paths → q = p))

namespace Graph

def users (g : Graph) (name : String) : Option (Bool → List String) :=
  (g.modules.get? name).map ModuleInfo.users

theorem contains_of_users {g : Graph} {name : String} {lists : Bool → List String}
    (h : g.users name = some lists) : g.modules.contains name = true := by
  obtain ⟨m, hm, -⟩ := Option.map_eq_some_iff.mp h
  rw [OrderedMap.contains, hm, Option.isSome_some]

theorem users_of_contains {g : Graph} {name : String} (h : g.modules.contains name = true) :
    ∃ lists, g.users name = some lists := by
  obtain ⟨m, hm⟩ := Option.isSome_iff_exists.mp h
  exact ⟨m.users, by rw [users, hm, Option.map_some]⟩

structure MixinsKnown (changes : List Mutation) (g : Graph) : Prop where
  modules : ∀ name lists, g.users name = some lists →
    name ∈ (declaredModules changes).map ModuleInfo.fullName
  edges : ∀ e ∈ g.mixinEdges, e ∈ declaredMixins changes

def mixinTarget (g : Graph) (e : MixinEdge) : String := (g.resolveModule e.module e.owner).getD ""

namespace MixinsKnown

variable {changes : List Mutation} {g : Graph} {e : MixinEdge} {name : String}
  {lists : Bool → List String}

theorem resolveModule_iff (h : g.MixinsKnown changes) (hmixins : UnambiguousMixins changes)
    (he : e ∈ declaredMixins changes) :
    g.resolveModule e.module e.owner = some name ↔ name ∈ e.paths ∧ g.modules.contains name = true := by
  rw [resolveModule_eq_find?]
  apply find?_eq_some_iff_of_unique
  intro p hp hkp q hq hkq
  obtain ⟨_, hp'⟩ := users_of_contains hkp
  obtain ⟨_, hq'⟩ := users_of_contains hkq
  exact hmixins.2 e he p (h.modules p _ hp') hp q (h.modules q _ hq') hq

theorem mixinTarget_eq_iff (h : g.MixinsKnown changes) (hmixins : UnambiguousMixins changes)
    (he : e ∈ declaredMixins changes) (hname : g.users name = some lists) :
    name = g.mixinTarget e ↔ name ∈ e.paths := by
  have hiff : g.resolveModule e.module e.owner = some name ↔ _ := h.resolveModule_iff hmixins he
  rw [and_iff_left (contains_of_users hname)] at hiff
  rw [mixinTarget, ← hiff]
  cases hresolve : g.resolveModule e.module e.owner with
  | none =>
    have hne : name ≠ "" := by
      rintro rfl
      exact hmixins.1 (h.modules "" lists hname)
    simp [hne]
  | some k => simp [eq_comm]

end MixinsKnown

structure MixedIn (changes : List Mutation) (g : Graph) : Prop extends g.MixinsKnown changes where
  nodup : ∀ name lists, g.users name = some lists → ∀ x, (lists x).Nodup
  mem_users : ∀ name lists, g.users name = some lists → ∀ x owner,
    owner ∈ lists x ↔
      ∃ e ∈ g.mixinEdges, e.owner = owner ∧ e.isExtension = x ∧ name ∈ e.paths

theorem users_addMixin (g : Graph) (e : MixinEdge) (name : String) :
    (g.addMixin e).users name = (g.users name).map fun lists x =>
      if name = g.mixinTarget e ∧ e.isExtension = x then addUnique (lists x) e.owner
      else lists x := by
  have htarget : (g.addMixin e).modules = g.modules.modify (g.mixinTarget e) (·.register e) := rfl
  unfold users
  rw [htarget, OrderedMap.get?_modify, Option.map_map, Option.map_map]
  congr 1
  funext m x
  simp only [Function.comp]
  by_cases hname : name = g.mixinTarget e
  · simp [hname, ModuleInfo.users_register]
  · simp [hname]

theorem users_addModule (g : Graph) (m : ModuleInfo) (name : String) :
    (g.addModule m).users name =
      if name = m.fullName ∧ g.modules.contains m.fullName = false then
        some ((g.mixinEdges.filter fun e =>
          (modulePaths e.module e.owner).find? (g.modules.insert m.fullName m).contains =
            some m.fullName).foldl ModuleInfo.register m).users
      else g.users name := by
  have hdeclare : (g.declare m.fullName m.location.uri).modules = g.modules := rfl
  unfold addModule
  dsimp only
  rw [hdeclare]
  split
  · next hcontains =>
    rw [if_neg (by simp [hcontains])]
    rfl
  · next hcontains =>
    rw [Bool.not_eq_true] at hcontains
    unfold users
    dsimp only
    rw [OrderedMap.get?_insert, OrderedMap.get?_insert]
    by_cases hname : name = m.fullName
    · rw [if_pos hname.symm, if_pos ⟨hname, hcontains⟩, Option.map_some]
      rfl
    · rw [if_neg (Ne.symm hname), if_neg (Ne.symm hname), if_neg (by simp [hname])]

namespace MixedIn

variable {changes : List Mutation} {g g' : Graph}

theorem of_users (h : g.MixedIn changes) (hu : ∀ name, g'.users name = g.users name)
    (he : g'.mixinEdges = g.mixinEdges) : g'.MixedIn changes := by
  have husers : g'.users = g.users := funext hu
  refine ⟨⟨?_, ?_⟩, ?_, ?_⟩
  · rw [husers]
    exact h.modules
  · rw [he]
    exact h.edges
  · rw [husers]
    exact h.nodup
  · rw [husers, he]
    exact h.mem_users

theorem addMixin (h : g.MixedIn changes) (hmixins : UnambiguousMixins changes) {e : MixinEdge}
    (he : .addMixin e ∈ changes) : (g.addMixin e).MixedIn changes := by
  have hdeclared := mem_declaredMixins.mpr he
  have hedges : (g.addMixin e).mixinEdges = g.mixinEdges ++ [e] := rfl
  have hold {name : String} {lists' : Bool → List String}
      (hlists' : (g.addMixin e).users name = some lists') :
      ∃ lists, g.users name = some lists ∧ (fun x =>
        if name = g.mixinTarget e ∧ e.isExtension = x then addUnique (lists x) e.owner
        else lists x) = lists' := by
    rw [users_addMixin] at hlists'
    exact Option.map_eq_some_iff.mp hlists'
  refine ⟨⟨?_, ?_⟩, ?_, ?_⟩
  · intro name lists' hlists'
    obtain ⟨lists, hlists, -⟩ := hold hlists'
    exact h.modules name lists hlists
  · intro e' he'
    rw [hedges] at he'
    rcases List.mem_append.mp he' with hmem | hmem
    · exact h.edges e' hmem
    · rw [List.mem_singleton.mp hmem]
      exact hdeclared
  · intro name lists' hlists' x
    obtain ⟨lists, hlists, rfl⟩ := hold hlists'
    dsimp only
    split
    · exact nodup_addUnique (h.nodup name lists hlists x) e.owner
    · exact h.nodup name lists hlists x
  · intro name lists' hlists' x owner
    obtain ⟨lists, hlists, rfl⟩ := hold hlists'
    have htarget := h.mixinTarget_eq_iff hmixins hdeclared hlists
    have hmem : (owner ∈ if name = g.mixinTarget e ∧ e.isExtension = x then
        addUnique (lists x) e.owner else lists x) ↔
        owner ∈ lists x ∨ (e.owner = owner ∧ e.isExtension = x ∧ name ∈ e.paths) := by
      rw [← htarget]
      split
      · next hboth => simp [mem_addUnique, hboth, eq_comm]
      · next hnot =>
        have hnot' : ¬(e.owner = owner ∧ e.isExtension = x ∧ name = g.mixinTarget e) :=
          fun hall => hnot ⟨hall.2.2, hall.2.1⟩
        simp [hnot']
    rw [hmem, h.mem_users name lists hlists, hedges]
    simp [or_and_right, exists_or]

theorem addModule (h : g.MixedIn changes) (hmixins : UnambiguousMixins changes) {m : ModuleInfo}
    (hm : .addModule m ∈ changes) (hfresh : ∀ x, m.users x = []) :
    (g.addModule m).MixedIn changes := by
  have hedges : (g.addModule m).mixinEdges = g.mixinEdges := by
    obtain ⟨modules, declaredIn, heq⟩ := addModule_eq g m
    rw [heq]
  have hdeclared : m.fullName ∈ (declaredModules changes).map ModuleInfo.fullName :=
    List.mem_map_of_mem (mem_declaredModules.mpr hm)
  by_cases hcontains : g.modules.contains m.fullName = true
  · apply h.of_users _ hedges
    intro name
    rw [users_addModule, if_neg (by simp [hcontains])]
  · rw [Bool.not_eq_true] at hcontains
    -- In the graph that has the module, a mixin means it just if it lies on its paths.
    have hfind {e : MixinEdge} (he : e ∈ g.mixinEdges) :
        (modulePaths e.module e.owner).find? (g.modules.insert m.fullName m).contains =
          some m.fullName ↔ m.fullName ∈ e.paths := by
      have hknown (p : String) (hp : (g.modules.insert m.fullName m).contains p = true) :
          p ∈ (declaredModules changes).map ModuleInfo.fullName := by
        rw [OrderedMap.contains_insert] at hp
        split at hp
        · next heq => exact heq ▸ hdeclared
        · obtain ⟨lists, hlists⟩ := users_of_contains hp
          exact h.modules p lists hlists
      rw [find?_eq_some_iff_of_unique]
      · rw [OrderedMap.contains_insert, if_pos rfl]
        exact and_iff_left rfl
      · intro p hp hkp q hq hkq
        exact hmixins.2 e (h.edges e he) p (hknown p hkp) hp q (hknown q hkq) hq
    have husers (name : String) := users_addModule g m name
    simp only [hcontains, and_true] at husers
    refine ⟨⟨?_, ?_⟩, ?_, ?_⟩
    · intro name lists hlists
      rw [husers] at hlists
      split at hlists
      · next hname => exact hname ▸ hdeclared
      · exact h.modules name lists hlists
    · rw [hedges]
      exact h.edges
    · intro name lists hlists x
      rw [husers] at hlists
      split at hlists
      · cases hlists
        apply ModuleInfo.nodup_foldl_register
        rw [hfresh]
        exact List.nodup_nil
      · exact h.nodup name lists hlists x
    · intro name lists hlists x owner
      rw [husers] at hlists
      rw [hedges]
      split at hlists
      · next hname =>
        subst hname
        cases hlists
        rw [ModuleInfo.mem_foldl_register, hfresh]
        constructor
        · rintro (hmem | ⟨e, he, howner, hx⟩)
          · cases hmem
          · obtain ⟨he, hpath⟩ := List.mem_filter.mp he
            exact ⟨e, he, howner, hx, (hfind he).mp (by simpa using hpath)⟩
        · rintro ⟨e, he, howner, hx, hpath⟩
          refine Or.inr ⟨e, List.mem_filter.mpr ⟨he, ?_⟩, howner, hx⟩
          simpa using (hfind he).mpr hpath
      · exact h.mem_users name lists hlists x owner

theorem users_mapMethodIds (g : Graph) (owner : String) (f : List String → List String)
    (name : String) : (g.mapMethodIds owner f).users name = g.users name := by
  unfold mapMethodIds
  split
  · rfl
  · unfold users
    rw [OrderedMap.get?_modify, Option.map_map]
    congr 1
    funext m
    simp only [Function.comp]
    split <;> rfl

theorem addMethod (h : g.MixedIn changes) (m : MethodInfo) : (g.addMethod m).MixedIn changes := by
  have hinsert (methods : OrderedMap String MethodInfo) :
      { g with methods, stale := true }.MixedIn changes := h.of_users (fun _ => rfl) rfl
  unfold Graph.addMethod
  dsimp only
  split
  · split
    · exact hinsert _
    · apply (hinsert _).of_users (users_mapMethodIds _ _ _)
      obtain ⟨classes, modules, heq⟩ := mapMethodIds_eq _ _ _
      rw [heq]
  · exact hinsert _

theorem addClass (h : g.MixedIn changes) (c : ClassInfo) : (g.addClass c).MixedIn changes := by
  obtain ⟨classes, declaredIn, heq⟩ := addClass_eq g c
  rw [heq]
  exact h.of_users (fun _ => rfl) rfl

theorem apply (h : g.MixedIn changes) (hmixins : UnambiguousMixins changes)
    (hfresh : ∀ m ∈ declaredModules changes, ∀ x, m.users x = []) {change : Mutation}
    (hadd : change.isAddition = true) (hchange : change ∈ changes) :
    (g.apply change).MixedIn changes := by
  cases change with
  | addClass c => exact h.addClass c
  | addModule m => exact h.addModule hmixins hchange (hfresh m (mem_declaredModules.mpr hchange))
  | addMixin e => exact h.addMixin hmixins hchange
  | addMethod m => exact h.addMethod m
  | addType t =>
    obtain ⟨types, heq⟩ := addType_eq g t
    rw [Graph.apply, heq]
    exact h.of_users (fun _ => rfl) rfl
  | refresh =>
    unfold Graph.apply Graph.refresh
    dsimp only
    split
    · exact h.of_users (fun _ => rfl) rfl
    · exact h
  | removeFile uri => cases hadd
  | clear => cases hadd
  | _ => exact h.of_users (fun _ => rfl) rfl

theorem run (h : g.MixedIn changes) (hmixins : UnambiguousMixins changes)
    (hfresh : ∀ m ∈ declaredModules changes, ∀ x, m.users x = []) {part : List Mutation}
    (hadd : ∀ change ∈ part, change.isAddition = true)
    (hpart : ∀ change ∈ part, change ∈ changes) : (g.run part).MixedIn changes := by
  induction part generalizing g with
  | nil => exact h
  | cons change rest ih =>
    have hfirst := h.apply hmixins hfresh (hadd change List.mem_cons_self)
      (hpart change List.mem_cons_self)
    apply ih hfirst
    · exact fun later hlater => hadd later (List.mem_cons_of_mem change hlater)
    · exact fun later hlater => hpart later (List.mem_cons_of_mem change hlater)

end MixedIn

theorem mixedIn_run {changes : List Mutation} (hadd : ∀ change ∈ changes, change.isAddition = true)
    (hfresh : ∀ m ∈ declaredModules changes, ∀ x, m.users x = [])
    (hmixins : UnambiguousMixins changes) : (empty.run changes).MixedIn changes := by
  have hempty : empty.MixedIn changes := by
    refine ⟨⟨?_, ?_⟩, ?_, ?_⟩
    · intro name lists hlists
      cases hlists
    · intro e he
      cases he
    · intro name lists hlists
      cases hlists
    · intro name lists hlists
      cases hlists
  exact hempty.run hmixins hfresh hadd fun _ hchange => hchange

theorem mixinEdges_run {changes : List Mutation}
    (hadd : ∀ change ∈ changes, change.isAddition = true) (g : Graph) :
    (g.run changes).mixinEdges = g.mixinEdges ++ declaredMixins changes := by
  induction changes generalizing g with
  | nil => simp [run, declaredMixins]
  | cons change rest ih =>
    have hstep : (g.apply change).mixinEdges = g.mixinEdges ++ declaredMixins [change] := by
      cases change with
      | addClass c =>
        obtain ⟨classes, declaredIn, heq⟩ := addClass_eq g c
        rw [Graph.apply, heq]
        exact (List.append_nil _).symm
      | addModule m =>
        obtain ⟨modules, declaredIn, heq⟩ := addModule_eq g m
        rw [Graph.apply, heq]
        exact (List.append_nil _).symm
      | addMixin e => rfl
      | addMethod m =>
        obtain ⟨classes, modules, heq⟩ := addMethod_eq g m
        rw [Graph.apply, heq]
        exact (List.append_nil _).symm
      | addType t =>
        obtain ⟨types, heq⟩ := addType_eq g t
        rw [Graph.apply, heq]
        exact (List.append_nil _).symm
      | refresh =>
        rw [Graph.apply, mixinEdges_refresh]
        exact (List.append_nil _).symm
      | removeFile uri => cases hadd _ List.mem_cons_self
      | clear => cases hadd _ List.mem_cons_self
      | _ => exact (List.append_nil _).symm
    have hrest := ih (fun later hlater => hadd later (List.mem_cons_of_mem change hlater))
      (g.apply change)
    have happend : declaredMixins [change] ++ declaredMixins rest = declaredMixins (change :: rest) :=
      List.filterMap_append.symm
    rw [hstep, List.append_assoc, happend] at hrest
    exact hrest

end Graph

end CodeAtlas
