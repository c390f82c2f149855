import CodeAtlas.Proofs.Deletion

/-!
The owners that a module lists while files come and go. They are those of the recorded mixins that mean
the module, as long as no mixin goes over from one module to another, and an owner that has a module
from several files has it in the same way from each. Otherwise the lists can be wrong: a mixin that goes
over leaves its owner behind, and one that is taken back takes the owner out of both lists, or out of
neither, whatever the mixins that stay say.
-/

namespace CodeAtlas.Graph

def Means (g : Graph) (e : MixinEdge) (name : String) : Prop :=
  g.resolveModule e.module e.owner = some name

instance (g : Graph) (e : MixinEdge) (name : String) : Decidable (g.Means e name) :=
  inferInstanceAs (Decidable (g.resolveModule e.module e.owner = some name))

def MovesNoMixin (g : Graph) (change : Mutation) : Prop :=
  ∀ e ∈ g.mixinEdges, ∀ name ∈ g.resolveModule e.module e.owner,
    ∀ name' ∈ (g.apply change).resolveModule e.module e.owner, name' = name

def MixedAlike (g : Graph) (uri : String) : Prop :=
  ∀ e ∈ g.mixinEdges, ∀ e' ∈ g.mixinEdges, e.uri = uri → e'.uri ≠ uri → e'.owner = e.owner →
    ∀ name ∈ g.resolveModule e.module e.owner, g.Means e' name →
      e'.module = e.module ∧ e'.isExtension = e.isExtension

def KeepsMixinsPlain (g : Graph) (change : Mutation) : Prop :=
  g.MovesNoMixin change ∧
    match change with
    | .addModule m => m.fullName ≠ ""
    | .removeFile uri => g.MixedAlike uri
    | _ => True

def KeepMixinsPlain (g : Graph) : List Mutation → Prop
  | [] => True
  | change :: rest => g.KeepsMixinsPlain change ∧ (g.apply change).KeepMixinsPlain rest

instance (g : Graph) (change : Mutation) : Decidable (g.MovesNoMixin change) :=
  inferInstanceAs (Decidable (∀ e ∈ g.mixinEdges, ∀ name ∈ g.resolveModule e.module e.owner,
    ∀ name' ∈ (g.apply change).resolveModule e.module e.owner, name' = name))

instance (g : Graph) (uri : String) : Decidable (g.MixedAlike uri) :=
  inferInstanceAs (Decidable (∀ e ∈ g.mixinEdges, ∀ e' ∈ g.mixinEdges, e.uri = uri → e'.uri ≠ uri →
    e'.owner = e.owner → ∀ name ∈ g.resolveModule e.module e.owner, g.Means e' name →
      e'.module = e.module ∧ e'.isExtension = e.isExtension))

instance (g : Graph) (change : Mutation) : Decidable (g.KeepsMixinsPlain change) := by
  unfold KeepsMixinsPlain
  cases change <;> infer_instance

instance decidableKeepMixinsPlain (g : Graph) : (changes : List Mutation) →
    Decidable (g.KeepMixinsPlain changes)
  | [] => inferInstanceAs (Decidable True)
  | change :: rest =>
    have := decidableKeepMixinsPlain (g.apply change) rest
    inferInstanceAs (Decidable (g.KeepsMixinsPlain change ∧ (g.apply change).KeepMixinsPlain rest))

variable {g g' : Graph} {e : MixinEdge} {name : String} {lists : Bool → List String}

theorem contains_iff_users : g.modules.contains name = true ↔ ∃ lists, g.users name = some lists :=
  ⟨users_of_contains, fun ⟨_, h⟩ => contains_of_users h⟩

theorem Means.contains (h : g.Means e name) : g.modules.contains name = true := by
  rw [Means, resolveModule_eq_find?] at h
  exact List.find?_some h

theorem Means.of_fewer (h : g'.Means e name)
    (hle : ∀ other, g.modules.contains other = true → g'.modules.contains other = true)
    (hname : g.modules.contains name = true) : g.Means e name :=
  find?_of_fewer hle h hname

theorem resolveModule_congr (h : ∀ other, g'.modules.contains other = g.modules.contains other) :
    g'.resolveModule = g.resolveModule := by
  funext module owner
  rw [resolveModule_eq_find?, resolveModule_eq_find?, funext h]

theorem contains_of_users_eq (h : ∀ other, g'.users other = g.users other) (other : String) :
    g'.modules.contains other = g.modules.contains other := by
  rw [Bool.eq_iff_iff, contains_iff_users, contains_iff_users, h]

structure UsersExact (g : Graph) : Prop where
  named : g.modules.contains "" = false
  nodup : ∀ name lists, g.users name = some lists → ∀ x, (lists x).Nodup
  mem_users : ∀ name lists, g.users name = some lists → ∀ x owner,
    owner ∈ lists x ↔ ∃ e ∈ g.mixinEdges, e.owner = owner ∧ e.isExtension = x ∧ g.Means e name

theorem mixinTarget_eq_iff (hnamed : g.modules.contains "" = false)
    (hname : g.modules.contains name = true) (e : MixinEdge) :
    name = g.mixinTarget e ↔ g.Means e name := by
  rw [mixinTarget, Means]
  cases hresolve : g.resolveModule e.module e.owner with
  | none =>
    have hne : name ≠ "" := by
      rintro rfl
      rw [hnamed] at hname
      cases hname
    simp [hne]
  | some k => simp [eq_comm]

namespace UsersExact

theorem of_users (h : g.UsersExact) (hu : ∀ other, g'.users other = g.users other)
    (he : g'.mixinEdges = g.mixinEdges) : g'.UsersExact := by
  have hcontains := contains_of_users_eq hu
  have hresolve := resolveModule_congr hcontains
  constructor
  · rw [hcontains, h.named]
  · intro name lists hlists
    exact h.nodup name lists (hu name ▸ hlists)
  · intro name lists hlists x owner
    rw [h.mem_users name lists (hu name ▸ hlists), he]
    simp only [Means, hresolve]

theorem empty : Graph.empty.UsersExact := by
  refine ⟨rfl, ?_, ?_⟩
  · intro name lists hlists
    cases hlists
  · intro name lists hlists
    cases hlists

theorem addMixin (h : g.UsersExact) (e : MixinEdge) : (g.addMixin e).UsersExact := by
  have hedges : (g.addMixin e).mixinEdges = g.mixinEdges ++ [e] := rfl
  have hcontains (other : String) :
      (g.addMixin e).modules.contains other = g.modules.contains other :=
    OrderedMap.contains_modify _ _ _ _
  have hresolve := resolveModule_congr hcontains
  have hold {name : String} {lists' : Bool → List String}
      (hlists' : (g.addMixin e).users name = some lists') :
      ∃ lists, g.users name = some lists ∧ (fun x =>
        if name = g.mixinTarget e ∧ e.isExtension = x then addUnique (lists x) e.owner
        else lists x) = lists' := by
    rw [users_addMixin] at hlists'
    exact Option.map_eq_some_iff.mp hlists'
  refine ⟨?_, ?_, ?_⟩
  · rw [hcontains, h.named]
  · intro name lists' hlists' x
    obtain ⟨lists, hlists, rfl⟩ := hold hlists'
    dsimp only
    split
    · exact nodup_addUnique (h.nodup name lists hlists x) e.owner
    · exact h.nodup name lists hlists x
  · intro name lists' hlists' x owner
    obtain ⟨lists, hlists, rfl⟩ := hold hlists'
    have htarget := mixinTarget_eq_iff h.named (contains_of_users hlists) e
    have hmem : (owner ∈ if name = g.mixinTarget e ∧ e.isExtension = x then
        addUnique (lists x) e.owner else lists x) ↔
        owner ∈ lists x ∨ (e.owner = owner ∧ e.isExtension = x ∧ g.Means e name) := by
      rw [← htarget]
      split
      · next hboth => simp [mem_addUnique, hboth, eq_comm]
      · next hnot =>
        have hnot' : ¬(e.owner = owner ∧ e.isExtension = x ∧ name = g.mixinTarget e) :=
          fun hall => hnot ⟨hall.2.2, hall.2.1⟩
        simp [hnot']
    rw [hmem, h.mem_users name lists hlists, hedges]
    simp [Means, hresolve, or_and_right, exists_or]

theorem addModule (h : g.UsersExact) {m : ModuleInfo} (hfresh : ∀ x, m.users x = [])
    (hname : m.fullName ≠ "") (hmoves : g.MovesNoMixin (.addModule m)) :
    (g.addModule m).UsersExact := by
  have hedges : (g.addModule m).mixinEdges = g.mixinEdges := by
    obtain ⟨modules, declaredIn, heq⟩ := addModule_eq g m
    rw [heq]
  have husers (other : String) := users_addModule g m other
  cases hcontains : g.modules.contains m.fullName with
  | true =>
    apply h.of_users _ hedges
    intro other
    rw [husers, if_neg (by simp [hcontains])]
  | false =>
    simp only [hcontains, and_true] at husers
    have hmore (other : String) : (g.addModule m).modules.contains other =
        (g.modules.insert m.fullName m).contains other := by
      rw [OrderedMap.contains_insert, Bool.eq_iff_iff, contains_iff_users, husers]
      by_cases hother : other = m.fullName
      · simp [hother]
      · rw [if_neg hother, if_neg (Ne.symm hother), contains_iff_users]
    have hmeans (e : MixinEdge) (other : String) : (g.addModule m).Means e other ↔
        (modulePaths e.module e.owner).find? (g.modules.insert m.fullName m).contains =
          some other := by
      rw [Means, resolveModule_eq_find?, funext hmore]
    have hle (other : String) (hother : g.modules.contains other = true) :
        (g.addModule m).modules.contains other = true := by
      rw [hmore, OrderedMap.contains_insert, hother]
      split <;> rfl
    refine ⟨?_, ?_, ?_⟩
    · rw [hmore, OrderedMap.contains_insert, if_neg hname, h.named]
    · intro name lists hlists x
      rw [husers] at hlists
      split at hlists
      · cases hlists
        apply ModuleInfo.nodup_foldl_register
        rw [hfresh]
        exact List.nodup_nil
      · exact h.nodup name lists hlists x
    · intro name lists hlists x owner
      rw [husers] at hlists
      rw [hedges]
      split at hlists
      · next hsame =>
        subst hsame
        cases hlists
        rw [ModuleInfo.mem_foldl_register, hfresh]
        simp only [List.not_mem_nil, false_or, List.mem_filter, decide_eq_true_eq, hmeans]
        constructor
        · rintro ⟨e, ⟨he, hpath⟩, howner, hx⟩
          exact ⟨e, he, howner, hx, hpath⟩
        · rintro ⟨e, he, howner, hx, hpath⟩
          exact ⟨e, ⟨he, hpath⟩, howner, hx⟩
      · rw [h.mem_users name lists hlists x owner]
        have hstored := contains_of_users hlists
        have hsame (e : MixinEdge) (he : e ∈ g.mixinEdges) :
            g.Means e name ↔ (g.addModule m).Means e name := by
          constructor
          · intro hmeant
            -- the mixin still finds a module, and a change moves it to no other
            cases hnow : (g.addModule m).resolveModule e.module e.owner with
            | none =>
              rw [resolveModule_eq_find?] at hnow
              have hpath := List.mem_of_find?_eq_some (hmeant : e.paths.find? _ = some name)
              exact absurd (hle name hstored) (List.find?_eq_none.mp hnow name hpath)
            | some name' =>
              have heq : name' = name := hmoves e he name hmeant name' hnow
              exact heq ▸ hnow
          · exact fun hmeant => hmeant.of_fewer hle hstored
        constructor
        · rintro ⟨e, he, howner, hx, hmeant⟩
          exact ⟨e, he, howner, hx, (hsame e he).mp hmeant⟩
        · rintro ⟨e, he, howner, hx, hmeant⟩
          exact ⟨e, he, howner, hx, (hsame e he).mpr hmeant⟩

end UsersExact

theorem contains_dropMixin (g : Graph) (e : MixinEdge) (name : String) :
    (g.dropMixin e).modules.contains name = g.modules.contains name := by
  rw [← contains_moduleCores, ← contains_moduleCores, moduleCores_dropMixin]

theorem means_dropMixin (g : Graph) (e e' : MixinEdge) (name : String) :
    (g.dropMixin e).Means e' name ↔ g.Means e' name := by
  rw [Means, resolveModule_congr (contains_dropMixin g e), Means]

/-- What holds while the mixins of a file are dropped. An owner is listed as long as some mixin gives it
the module, in the way in which some mixin gave it before, and the mixins of other files keep their
places. -/
structure UsersOnTheWay (recorded : List MixinEdge) (uri : String) (g : Graph) : Prop where
  named : g.modules.contains "" = false
  nodup : ∀ name lists, g.users name = some lists → ∀ x, (lists x).Nodup
  edges : ∀ e ∈ g.mixinEdges, e ∈ recorded
  alike : ∀ e ∈ recorded, ∀ e' ∈ recorded, e.uri = uri → e'.uri ≠ uri → e'.owner = e.owner →
    ∀ name, g.Means e name → g.Means e' name →
      e'.module = e.module ∧ e'.isExtension = e.isExtension
  sourced : ∀ name lists, g.users name = some lists → ∀ x, ∀ owner ∈ lists x,
    ∃ e ∈ recorded, e.owner = owner ∧ e.isExtension = x ∧ g.Means e name
  reached : ∀ name lists, g.users name = some lists → ∀ x, ∀ owner ∈ lists x,
    ∃ e ∈ g.mixinEdges, e.owner = owner ∧ g.Means e name
  kept : ∀ name lists, g.users name = some lists → ∀ e ∈ g.mixinEdges, e.uri ≠ uri →
    g.Means e name → e.owner ∈ lists e.isExtension

namespace UsersOnTheWay

variable {recorded : List MixinEdge} {uri : String}

theorem dropMixin_of_shared (h : g.UsersOnTheWay recorded uri) (hshared : g.isShared e = true) :
    (g.dropMixin e).UsersOnTheWay recorded uri := by
  have husers (name : String) : (g.dropMixin e).users name = g.users name := by
    rw [users_dropMixin, hshared, if_pos rfl]
  obtain ⟨o, ho, hsame⟩ := List.any_eq_true.mp hshared
  rw [Bool.and_eq_true, beq_iff_eq, beq_iff_eq] at hsame
  rw [← mixinEdges_dropMixin] at ho
  constructor
  case named => rw [contains_dropMixin, h.named]
  case nodup =>
    intro name lists hlists
    exact h.nodup name lists (husers name ▸ hlists)
  case edges => exact fun e' he' => h.edges e' (mem_of_mem_dropMixin he')
  case alike =>
    simp only [means_dropMixin]
    exact h.alike
  case sourced =>
    intro name lists hlists
    simp only [means_dropMixin]
    exact h.sourced name lists (husers name ▸ hlists)
  case reached =>
    intro name lists hlists x owner hmem
    simp only [means_dropMixin]
    obtain ⟨e', he', howner, hmeant⟩ := h.reached name lists (husers name ▸ hlists) x owner hmem
    by_cases heq : e' = e
    · subst heq
      refine ⟨o, ho, hsame.1.trans howner, ?_⟩
      rw [Means, hsame.1, hsame.2]
      exact hmeant
    · exact ⟨e', (mem_mixinEdges_dropMixin heq).mpr he', howner, hmeant⟩
  case kept =>
    intro name lists hlists e' he' hother hmeant
    exact h.kept name lists (husers name ▸ hlists) e' (mem_of_mem_dropMixin he') hother
      ((means_dropMixin g e e' name).mp hmeant)

theorem dropMixin_of_last (h : g.UsersOnTheWay recorded uri) (he : e ∈ recorded)
    (hfile : e.uri = uri) (hlast : g.isShared e = false) :
    (g.dropMixin e).UsersOnTheWay recorded uri := by
  have hold {name : String} {lists' : Bool → List String}
      (hlists' : (g.dropMixin e).users name = some lists') :
      ∃ lists, g.users name = some lists ∧ (fun x =>
        if name = g.mixinTarget e then (lists x).erase e.owner else lists x) = lists' := by
    rw [users_dropMixin, hlast] at hlists'
    exact Option.map_eq_some_iff.mp hlists'
  have hlisted {name : String} {lists : Bool → List String} (hlists : g.users name = some lists)
      (x : Bool) (owner : String) :
      (owner ∈ if name = g.mixinTarget e then (lists x).erase e.owner else lists x) ↔
        owner ∈ lists x ∧ ¬(g.Means e name ∧ owner = e.owner) := by
    rw [← mixinTarget_eq_iff h.named (contains_of_users hlists)]
    split
    · next htarget =>
      rw [(h.nodup name lists hlists x).mem_erase_iff, and_comm, and_iff_right htarget]
    · next htarget => simp [htarget]
  constructor
  case named => rw [contains_dropMixin, h.named]
  case nodup =>
    intro name lists' hlists' x
    obtain ⟨lists, hlists, rfl⟩ := hold hlists'
    dsimp only
    split
    · exact (h.nodup name lists hlists x).erase e.owner
    · exact h.nodup name lists hlists x
  case edges => exact fun e' he' => h.edges e' (mem_of_mem_dropMixin he')
  case alike =>
    simp only [means_dropMixin]
    exact h.alike
  case sourced =>
    intro name lists' hlists' x owner hmem
    obtain ⟨lists, hlists, rfl⟩ := hold hlists'
    simp only [means_dropMixin]
    exact h.sourced name lists hlists x owner ((hlisted hlists x owner).mp hmem).1
  case reached =>
    intro name lists' hlists' x owner hmem
    obtain ⟨lists, hlists, rfl⟩ := hold hlists'
    simp only [means_dropMixin]
    obtain ⟨hmem, hnot⟩ := (hlisted hlists x owner).mp hmem
    obtain ⟨e', he', howner, hmeant⟩ := h.reached name lists hlists x owner hmem
    have heq : e' ≠ e := by
      rintro rfl
      exact hnot ⟨hmeant, howner.symm⟩
    exact ⟨e', (mem_mixinEdges_dropMixin heq).mpr he', howner, hmeant⟩
  case kept =>
    intro name lists' hlists' e' he' hother hmeant
    obtain ⟨lists, hlists, rfl⟩ := hold hlists'
    rw [means_dropMixin] at hmeant
    have hmem := mem_of_mem_dropMixin he'
    have hkept := h.kept name lists hlists e' hmem hother hmeant
    refine (hlisted hlists e'.isExtension e'.owner).mpr ⟨hkept, ?_⟩
    -- a mixin of another file by which the owner has the module shares it with the dropped one
    rintro ⟨hdropped, howner⟩
    obtain ⟨hmodule, -⟩ := h.alike e he e' (h.edges e' hmem) hfile hother howner name hdropped hmeant
    rw [mixinEdges_dropMixin] at he'
    have hshared : g.isShared e = true :=
      List.any_eq_true.mpr ⟨e', he', by simp [howner, hmodule]⟩
    rw [hlast] at hshared
    cases hshared

theorem foldl_dropMixin (h : g.UsersOnTheWay recorded uri) {edges : List MixinEdge}
    (hedges : ∀ e ∈ edges, e ∈ recorded ∧ e.uri = uri) :
    (edges.foldl Graph.dropMixin g).UsersOnTheWay recorded uri := by
  induction edges generalizing g with
  | nil => exact h
  | cons e rest ih =>
    obtain ⟨he, hfile⟩ := hedges e List.mem_cons_self
    have hrest : ∀ e' ∈ rest, e' ∈ recorded ∧ e'.uri = uri :=
      fun e' he' => hedges e' (List.mem_cons_of_mem e he')
    cases hshared : g.isShared e with
    | true => exact ih (h.dropMixin_of_shared hshared) hrest
    | false => exact ih (h.dropMixin_of_last he hfile hshared) hrest

theorem usersExact (h : g.UsersOnTheWay recorded uri) (hdone : ∀ e ∈ g.mixinEdges, e.uri ≠ uri)
    (hleft : ∀ e ∈ recorded, e.uri ≠ uri → e ∈ g.mixinEdges) : g.UsersExact := by
  refine ⟨h.named, h.nodup, ?_⟩
  intro name lists hlists x owner
  constructor
  · intro hmem
    obtain ⟨e, he, rfl, hx, hmeant⟩ := h.sourced name lists hlists x owner hmem
    by_cases hfile : e.uri = uri
    · obtain ⟨e', he', howner, hmeant'⟩ := h.reached name lists hlists x e.owner hmem
      have halike := h.alike e he e' (h.edges e' he') hfile (hdone e' he') howner name hmeant hmeant'
      exact ⟨e', he', howner, halike.2.trans hx, hmeant'⟩
    · exact ⟨e, hleft e he hfile, rfl, hx, hmeant⟩
  · rintro ⟨e, he, rfl, rfl, hmeant⟩
    exact h.kept name lists hlists e he (hdone e he) hmeant

end UsersOnTheWay

theorem users_undeclare {uri name other : String} (h : (undeclare uri g name).users other = some lists) :
    g.users other = some lists := by
  unfold undeclare at h
  dsimp only at h
  split at h
  · unfold users at h
    rw [OrderedMap.get?_erase, modules_dropClass] at h
    split at h
    · cases h
    · exact h
  · unfold relocate at h
    split at h
    · exact h
    · dsimp only at h
      split at h
      · exact h
      · unfold users at h ⊢
        rw [OrderedMap.get?_modify, Option.map_map] at h
        rw [← h]
        congr 1
        funext m
        simp only [Function.comp]
        split <;> rfl

theorem users_withoutDeclarations {uri : String}
    (h : (g.withoutDeclarations uri).users name = some lists) : g.users name = some lists := by
  unfold withoutDeclarations at h
  generalize (g.declaredIn.filter fun _ files => files.contains uri).keys = names at h
  induction names generalizing g with
  | nil => exact h
  | cons first rest ih => exact users_undeclare (ih h)

theorem users_withoutMethods (g : Graph) (uri name : String) :
    (g.withoutMethods uri).users name = g.users name := by
  unfold withoutMethods
  generalize (g.methods.values.filter fun m => m.location.uri == uri) = methods
  induction methods generalizing g with
  | nil => rfl
  | cons m rest ih =>
    rw [List.foldl_cons, ih, dropMethod, MixedIn.users_mapMethodIds]
    rfl

theorem users_removeFile (g : Graph) (uri name : String) :
    (g.removeFile uri).users name = ((g.withoutDeclarations uri).withoutMixins uri).users name := by
  rw [users, (removeFile_hierarchy g uri).2.1, ← users, withoutFile, users_withoutMethods]

theorem mixinEdges_removeFile (g : Graph) (uri : String) :
    (g.removeFile uri).mixinEdges = g.mixinEdges.filter fun e => !(e.uri == uri) := by
  obtain ⟨classes, modules, declaredIn, heq⟩ := removeFile_eq g uri
  rw [heq]
  exact mixinEdges_refresh _

theorem contains_withoutMixins (g : Graph) (uri name : String) :
    (g.withoutMixins uri).modules.contains name = g.modules.contains name := by
  unfold withoutMixins
  generalize (g.mixinEdges.filter fun e => e.uri == uri) = edges
  induction edges generalizing g with
  | nil => rfl
  | cons e rest ih => rw [List.foldl_cons, ih, contains_dropMixin]

namespace UsersExact

theorem removeFile (h : g.UsersExact) {uri : String} (hmoves : g.MovesNoMixin (.removeFile uri))
    (halike : g.MixedAlike uri) : (g.removeFile uri).UsersExact := by
  have hcontains (name : String) : (g.removeFile uri).modules.contains name =
      (g.withoutDeclarations uri).modules.contains name := by
    rw [Bool.eq_iff_iff, contains_iff_users, users_removeFile, ← contains_iff_users,
      contains_withoutMixins]
  have hfewer (name : String) (hname : (g.withoutDeclarations uri).modules.contains name = true) :
      g.modules.contains name = true := by
    obtain ⟨lists, hlists⟩ := contains_iff_users.mp hname
    exact contains_iff_users.mpr ⟨lists, users_withoutDeclarations hlists⟩
  have hmeans {e : MixinEdge} (he : e ∈ g.mixinEdges) {name : String}
      (hname : (g.withoutDeclarations uri).modules.contains name = true) :
      (g.withoutDeclarations uri).Means e name ↔ g.Means e name := by
    constructor
    · intro hmeant
      have hnow : (g.apply (.removeFile uri)).resolveModule e.module e.owner = some name := by
        rw [Graph.apply, resolveModule_congr hcontains]
        exact hmeant
      -- before the file went the mixin meant a module as well, and it has not gone over
      cases hbefore : g.resolveModule e.module e.owner with
      | none =>
        have hpath : name ∈ e.paths := List.mem_of_find?_eq_some (hmeant : e.paths.find? _ = some name)
        rw [resolveModule_eq_find?] at hbefore
        exact absurd (hfewer name hname) (List.find?_eq_none.mp hbefore name hpath)
      | some name' =>
        have heq : name = name' := hmoves e he name' hbefore name hnow
        rw [heq]
        exact hbefore
    · exact fun hmeant => hmeant.of_fewer hfewer hname
  have hway : (g.withoutDeclarations uri).UsersOnTheWay g.mixinEdges uri := by
    constructor
    case named =>
      rw [← Bool.not_eq_true]
      intro hname
      have hnamed := hfewer "" hname
      rw [h.named] at hnamed
      cases hnamed
    case nodup =>
      intro name lists hlists
      exact h.nodup name lists (users_withoutDeclarations hlists)
    case edges =>
      rw [mixinEdges_withoutDeclarations]
      exact fun _ he => he
    case alike =>
      intro e he e' he' hfile hother howner name hmeant hmeant'
      have hname := hmeant.contains
      exact halike e he e' he' hfile hother howner name ((hmeans he hname).mp hmeant)
        ((hmeans he' hname).mp hmeant')
    case sourced =>
      intro name lists hlists x owner hmem
      obtain ⟨e, he, howner, hx, hmeant⟩ :=
        (h.mem_users name lists (users_withoutDeclarations hlists) x owner).mp hmem
      exact ⟨e, he, howner, hx, (hmeans he (contains_of_users hlists)).mpr hmeant⟩
    case reached =>
      intro name lists hlists x owner hmem
      rw [mixinEdges_withoutDeclarations]
      obtain ⟨e, he, howner, -, hmeant⟩ :=
        (h.mem_users name lists (users_withoutDeclarations hlists) x owner).mp hmem
      exact ⟨e, he, howner, (hmeans he (contains_of_users hlists)).mpr hmeant⟩
    case kept =>
      intro name lists hlists e he hother hmeant
      rw [mixinEdges_withoutDeclarations] at he
      refine (h.mem_users name lists (users_withoutDeclarations hlists) e.isExtension e.owner).mpr ?_
      exact ⟨e, he, rfl, rfl, (hmeans he (contains_of_users hlists)).mp hmeant⟩
  have hdropped : ((g.withoutDeclarations uri).withoutMixins uri).UsersOnTheWay g.mixinEdges uri := by
    apply hway.foldl_dropMixin
    intro e he
    rw [mixinEdges_withoutDeclarations, List.mem_filter, beq_iff_eq] at he
    exact he
  have hedges : ((g.withoutDeclarations uri).withoutMixins uri).mixinEdges =
      g.mixinEdges.filter fun e => !(e.uri == uri) := by
    rw [mixinEdges_withoutMixins, mixinEdges_withoutDeclarations]
  have hexact : ((g.withoutDeclarations uri).withoutMixins uri).UsersExact := by
    apply hdropped.usersExact
    · intro e he
      rw [hedges] at he
      simpa using (List.mem_filter.mp he).2
    · intro e he hother
      rw [hedges]
      exact List.mem_filter.mpr ⟨he, by simpa using hother⟩
  apply hexact.of_users (users_removeFile g uri)
  rw [hedges, mixinEdges_removeFile]

theorem addMethod (h : g.UsersExact) (m : MethodInfo) : (g.addMethod m).UsersExact := by
  have hinsert (methods : OrderedMap String MethodInfo) :
      { g with methods, stale := true }.UsersExact := h.of_users (fun _ => rfl) rfl
  rcases addMethod_cases g m with heq | ⟨owner, -, -, heq⟩
  · rw [heq]
    exact hinsert _
  · rw [heq]
    apply (hinsert _).of_users (MixedIn.users_mapMethodIds _ _ _)
    obtain ⟨classes, modules, hmap⟩ := mapMethodIds_eq _ _ _
    rw [hmap]

theorem apply (h : g.UsersExact) {change : Mutation}
    (hfresh : ∀ m, change = .addModule m → ∀ x, m.users x = [])
    (hplain : g.KeepsMixinsPlain change) : (g.apply change).UsersExact := by
  cases change with
  | addClass c =>
    obtain ⟨classes, declaredIn, heq⟩ := addClass_eq g c
    rw [Graph.apply, heq]
    exact h.of_users (fun _ => rfl) rfl
  | addModule m => exact h.addModule (hfresh m rfl) hplain.2 hplain.1
  | addMixin e => exact h.addMixin e
  | addMethod m => exact h.addMethod m
  | addType t =>
    obtain ⟨types, heq⟩ := addType_eq g t
    rw [Graph.apply, heq]
    exact h.of_users (fun _ => rfl) rfl
  | refresh =>
    rw [Graph.apply]
    unfold Graph.refresh
    dsimp only
    split
    · exact h.of_users (fun _ => rfl) rfl
    · exact h
  | removeFile uri => exact h.removeFile hplain.1 hplain.2
  | clear => exact UsersExact.empty
  | _ => exact h.of_users (fun _ => rfl) rfl

theorem run (h : g.UsersExact) {changes : List Mutation}
    (hfresh : ∀ m ∈ declaredModules changes, ∀ x, m.users x = [])
    (hplain : g.KeepMixinsPlain changes) : (g.run changes).UsersExact := by
  induction changes generalizing g with
  | nil => exact h
  | cons change rest ih =>
    have hfirst : (g.apply change).UsersExact := by
      apply h.apply _ hplain.1
      intro m hm
      exact hfresh m (mem_declaredModules.mpr (hm ▸ List.mem_cons_self))
    apply ih hfirst _ hplain.2
    intro m hm
    exact hfresh m (mem_declaredModules.mpr (List.mem_cons_of_mem change (mem_declaredModules.mp hm)))

end UsersExact

/-- A module lists an owner once among those that include it if a recorded mixin of the owner, and no
extension, means the module, and does not list it otherwise; the same for those that extend it and the
extensions. -/
def UsersMirrorMixins (g : Graph) : Prop :=
  ∀ name m, g.modules.get? name = some m → ∀ owner,
    (m.includedIn.count owner =
      if ∃ e ∈ g.mixinEdges, e.owner = owner ∧ e.kind ≠ .extended ∧ g.Means e name then 1 else 0) ∧
    m.extendedIn.count owner =
      if ∃ e ∈ g.mixinEdges, e.owner = owner ∧ e.kind = .extended ∧ g.Means e name then 1 else 0

theorem UsersExact.count_users (h : g.UsersExact) {m : ModuleInfo}
    (hm : g.modules.get? name = some m) (x : Bool) (owner : String) :
    (m.users x).count owner =
      if ∃ e ∈ g.mixinEdges, e.owner = owner ∧ e.isExtension = x ∧ g.Means e name then 1 else 0 := by
  have hlists : g.users name = some m.users := by rw [users, hm, Option.map_some]
  rw [(h.nodup name _ hlists x).count]
  simp only [h.mem_users name _ hlists]

/-- After any changes that leave it plain which module each owner has, in whatever order modules and
mixins come and files go, the lists of every module mirror the recorded mixins. -/
theorem module_users_mirror_mixins (changes : List Mutation)
    (hfresh : ∀ m ∈ declaredModules changes, m.includedIn = [] ∧ m.extendedIn = [])
    (hplain : empty.KeepMixinsPlain changes) : (empty.run changes).UsersMirrorMixins := by
  have hexact : (empty.run changes).UsersExact := by
    apply UsersExact.empty.run _ hplain
    intro m hm x
    cases x
    · exact (hfresh m hm).1
    · exact (hfresh m hm).2
  intro name m hm owner
  constructor
  · simpa [MixinEdge.isExtension, ModuleInfo.users] using hexact.count_users hm false owner
  · simpa [MixinEdge.isExtension, ModuleInfo.users] using hexact.count_users hm true owner

def moduleIn (file fullName : String) : Mutation :=
  .addModule { name := fullName, fullName, location := Location.ofFile file }

def pricedCart : List Mutation :=
  [.addMixin ⟨"Shop::Cart", "Priced", .included, "cart.rb"⟩, moduleIn "priced.rb" "Shop::Priced",
    .addMixin ⟨"Shop::Cart", "Priced", .prepended, "more.rb"⟩,
    .addMixin ⟨"Shop::Tool", "::Shop::Priced", .extended, "tool.rb"⟩, .removeFile "cart.rb"]

theorem module_users_mirror_mixins_pricedCart :
    (∀ m ∈ declaredModules pricedCart, m.includedIn = [] ∧ m.extendedIn = []) ∧
    empty.KeepMixinsPlain pricedCart ∧
    ((empty.run pricedCart).modules.get? "Shop::Priced").map ModuleInfo.includedIn =
      some ["Shop::Cart"] ∧
    (empty.run pricedCart).UsersMirrorMixins := by
  have hfresh : ∀ m ∈ declaredModules pricedCart, m.includedIn = [] ∧ m.extendedIn = [] := by decide
  have hplain : empty.KeepMixinsPlain pricedCart := by decide
  exact ⟨hfresh, hplain, by decide, module_users_mirror_mixins pricedCart hfresh hplain⟩

def otherKind : List Mutation :=
  [moduleIn "util.rb" "Util", .addMixin ⟨"A", "Util", .included, "a.rb"⟩,
    .addMixin ⟨"A", "Util", .extended, "b.rb"⟩, .removeFile "a.rb"]

def otherSpelling : List Mutation :=
  [moduleIn "util.rb" "Util", .addMixin ⟨"A", "Util", .included, "a.rb"⟩,
    .addMixin ⟨"A", "::Util", .included, "b.rb"⟩, .removeFile "a.rb"]

def nearerModule : List Mutation :=
  [moduleIn "util.rb" "Util", .addMixin ⟨"Shop::Cart", "Util", .included, "cart.rb"⟩,
    moduleIn "shop.rb" "Shop::Util"]

theorem module_users_differ_from_mixins :
    ¬(empty.run otherKind).UsersMirrorMixins ∧ ¬(empty.run otherSpelling).UsersMirrorMixins ∧
    ¬(empty.run nearerModule).UsersMirrorMixins := by
  refine ⟨fun h => ?_, fun h => ?_, fun h => ?_⟩
  · have hcount := (h "Util" { name := "Util", fullName := "Util", location := Location.ofFile "util.rb"
                               includedIn := ["A"], extendedIn := ["A"] } (by decide) "A").1
    revert hcount
    decide
  · have hcount := (h "Util" { name := "Util", fullName := "Util"
                               location := Location.ofFile "util.rb" } (by decide) "A").1
    revert hcount
    decide
  · have hcount := (h "Util" { name := "Util", fullName := "Util", location := Location.ofFile "util.rb"
                               includedIn := ["Shop::Cart"] } (by decide) "Shop::Cart").1
    revert hcount
    decide

end CodeAtlas.Graph
