import CodeAtlas.Proofs.CallResolution

namespace CodeAtlas

structure OfNames (P : String → ClassInfo → Prop) : Prop where
  congr {key : String} {c c' : ClassInfo} (h : P key c) (hname : c'.name = c.name)
    (hfull : c'.fullName = c.fullName) : P key c'

def StoredAll (P : String → ClassInfo → Prop) (classes : OrderedMap String ClassInfo) : Prop :=
  ∀ key c, classes.get? key = some c → P key c

variable {P : String → ClassInfo → Prop}

namespace StoredAll

variable {classes : OrderedMap String ClassInfo}

theorem map (h : StoredAll P classes) (f : String → ClassInfo → ClassInfo)
    (hf : ∀ key c, P key c → P key (f key c)) : StoredAll P (classes.map f) := by
  intro key c' hc'
  rw [OrderedMap.get?_map] at hc'
  obtain ⟨c, hc, rfl⟩ := Option.map_eq_some_iff.mp hc'
  exact hf key c (h key c hc)

theorem modify (h : StoredAll P classes) (name : String) (f : ClassInfo → ClassInfo)
    (hf : ∀ key c, P key c → P key (f c)) : StoredAll P (classes.modify name f) := by
  apply h.map
  intro key c hc
  split
  · exact hf key c hc
  · exact hc

theorem insert (h : StoredAll P classes) {key : String} {c : ClassInfo} (hc : P key c) :
    StoredAll P (classes.insert key c) := by
  intro key' c' hc'
  rw [OrderedMap.get?_insert] at hc'
  split at hc'
  · next hkey =>
    cases hc'
    exact hkey ▸ hc
  · exact h key' c' hc'

theorem erase (h : StoredAll P classes) (name : String) : StoredAll P (classes.erase name) := by
  intro key c hc
  rw [OrderedMap.get?_erase] at hc
  split at hc
  · cases hc
  · exact h key c hc

end StoredAll

namespace Graph

theorem classes_refresh (g : Graph) : g.refresh.classes = g.classes :=
  congrArg (fun h => h.classes) (hierarchy_refresh g)

theorem storedAll_foldl {α : Type} {f : Graph → α → Graph}
    (hf : ∀ (g : Graph) (a : α), StoredAll P g.classes → StoredAll P (f g a).classes) {g : Graph}
    (h : StoredAll P g.classes) (items : List α) : StoredAll P (items.foldl f g).classes := by
  induction items generalizing g with
  | nil => exact h
  | cons a rest ih => exact ih (hf g a h)

section Changes

variable {g : Graph} (hP : OfNames P) (h : StoredAll P g.classes)
include hP h

theorem storedAll_linkSuperclass (name : String) : StoredAll P (g.linkSuperclass name).classes := by
  unfold linkSuperclass
  split
  · exact h
  · split
    · apply StoredAll.modify
      · exact h.modify _ _ fun _ _ hc => hP.congr hc rfl rfl
      · exact fun _ _ hc => hP.congr hc rfl rfl
    · exact h

theorem storedAll_adoptSubclasses (name : String) :
    StoredAll P (g.adoptSubclasses name).classes := by
  apply StoredAll.modify
  · apply h.map
    intro key c hc
    split
    · exact hP.congr hc rfl rfl
    · exact hc
  · exact fun _ _ hc => hP.congr hc rfl rfl

theorem storedAll_addClass {c : ClassInfo} (hc : P c.fullName c) :
    StoredAll P (g.addClass c).classes := by
  unfold addClass
  dsimp only
  split
  · next old hold =>
    have hmerged : StoredAll P (g.classes.insert c.fullName (old.merge c)) :=
      h.insert (hP.congr (h c.fullName old hold) rfl rfl)
    split
    · exact storedAll_linkSuperclass hP (g := { g.declare _ _ with classes := _ }) hmerged _
    · exact hmerged
  · apply StoredAll.modify
    · apply storedAll_adoptSubclasses hP
      apply storedAll_linkSuperclass hP
      exact h.insert hc
    · exact fun _ _ hc => hP.congr hc rfl rfl

theorem storedAll_mapMethodIds (owner : String) (f : List String → List String) :
    StoredAll P (g.mapMethodIds owner f).classes := by
  unfold mapMethodIds
  split
  · exact h.modify _ _ fun _ _ hc => hP.congr hc rfl rfl
  · exact h

theorem storedAll_addMethod (m : MethodInfo) : StoredAll P (g.addMethod m).classes := by
  unfold addMethod
  dsimp only
  split
  · split
    · exact h
    · exact storedAll_mapMethodIds hP (g := { g with methods := _, stale := true }) h _ _
  · exact h

theorem storedAll_undeclare (uri name : String) : StoredAll P (undeclare uri g name).classes := by
  unfold undeclare
  dsimp only
  split
  · unfold dropClass
    split
    · exact h
    · exact (h.erase name).modify _ _ fun _ _ hc => hP.congr hc rfl rfl
  · unfold relocate
    split
    · exact h
    · dsimp only
      split
      · exact h.modify _ _ fun _ _ hc => hP.congr hc rfl rfl
      · exact h

theorem storedAll_dropMixin (e : MixinEdge) : StoredAll P (g.dropMixin e).classes := by
  unfold dropMixin
  dsimp only
  split
  · exact h
  · exact h.modify _ _ fun _ _ hc => hP.congr hc rfl rfl

theorem storedAll_removeFile (uri : String) : StoredAll P (g.removeFile uri).classes := by
  unfold removeFile
  dsimp only
  rw [classes_refresh]
  apply storedAll_foldl (P := P) (f := dropMethod)
  · intro g m hg
    exact storedAll_mapMethodIds hP (g := { g with methods := g.methods.erase m.id }) hg _ _
  apply storedAll_foldl fun g e hg => storedAll_dropMixin hP hg e
  apply storedAll_foldl fun g name hg => storedAll_undeclare hP hg uri name
  exact h

theorem storedAll_apply (change : Mutation) (hchange : ∀ c, change = .addClass c → P c.fullName c) :
    StoredAll P (g.apply change).classes := by
  cases change with
  | addClass c => exact storedAll_addClass hP h (hchange c rfl)
  | addModule m =>
    obtain ⟨modules, declaredIn, heq⟩ := addModule_eq g m
    rw [apply, heq]
    exact h
  | addMixin e => exact h.modify _ _ fun _ _ hc => hP.congr hc rfl rfl
  | addMethod m => exact storedAll_addMethod hP h m
  | addType t =>
    obtain ⟨types, heq⟩ := addType_eq g t
    rw [apply, heq]
    exact h
  | refresh =>
    rw [apply, classes_refresh]
    exact h
  | removeFile uri => exact storedAll_removeFile hP h uri
  | clear =>
    intro key c hc
    cases hc
  | _ => exact h

theorem storedAll_run (changes : List Mutation) (hchanges : ∀ c, .addClass c ∈ changes → P c.fullName c) :
    StoredAll P (g.run changes).classes := by
  induction changes generalizing g with
  | nil => exact h
  | cons change rest ih =>
    apply ih
    · exact storedAll_apply hP h change fun c hc => hchanges c (hc ▸ List.mem_cons_self)
    · exact fun c hc => hchanges c (List.mem_cons_of_mem change hc)

end Changes

theorem storedAll_fullName (changes : List Mutation) :
    StoredAll (fun key c => c.fullName = key) (empty.run changes).classes := by
  apply storedAll_run
  · exact ⟨fun hc _ hfull => hfull.trans hc⟩
  · intro key c hc
    cases hc
  · exact fun _ _ => rfl

end Graph

end CodeAtlas
