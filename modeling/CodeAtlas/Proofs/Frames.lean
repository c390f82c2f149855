import CodeAtlas.Graph.Mutation

namespace CodeAtlas.Graph

theorem mapMethodIds_eq (g : Graph) (owner : String) (f : List String → List String) :
    ∃ classes modules, g.mapMethodIds owner f = { g with classes, modules } := by
  unfold mapMethodIds
  split
  · exact ⟨_, g.modules, rfl⟩
  · exact ⟨g.classes, _, rfl⟩

theorem linkSuperclass_eq (g : Graph) (name : String) :
    ∃ classes, g.linkSuperclass name = { g with classes } := by
  unfold linkSuperclass
  split
  · exact ⟨g.classes, rfl⟩
  · split
    · exact ⟨_, rfl⟩
    · exact ⟨g.classes, rfl⟩

theorem addClass_eq (g : Graph) (c : ClassInfo) :
    ∃ classes declaredIn, g.addClass c = { g with classes, declaredIn, stale := true } := by
  unfold addClass declare
  dsimp only
  split
  · split
    · exact (linkSuperclass_eq _ _).imp fun classes h => ⟨_, h⟩
    · exact ⟨_, _, rfl⟩
  · obtain ⟨classes, h⟩ := linkSuperclass_eq
      { (g.declare c.fullName c.location.uri) with
        classes := g.classes.insert c.fullName c } c.fullName
    simp only [declare] at h
    rw [h]
    exact ⟨_, _, rfl⟩

theorem addModule_eq (g : Graph) (m : ModuleInfo) :
    ∃ modules declaredIn, g.addModule m = { g with modules, declaredIn, stale := true } := by
  unfold addModule declare
  dsimp only
  split
  · exact ⟨g.modules, _, rfl⟩
  · exact ⟨_, _, rfl⟩

theorem addMethod_eq (g : Graph) (m : MethodInfo) :
    ∃ classes modules, g.addMethod m =
      { g with
        classes, modules, methods := g.methods.insert m.id (g.withLinks m), stale := true } := by
  unfold addMethod
  dsimp only
  split
  · split
    · exact ⟨g.classes, g.modules, rfl⟩
    · exact mapMethodIds_eq _ _ _
  · exact ⟨g.classes, g.modules, rfl⟩

theorem addType_eq (g : Graph) (t : TypeRecord) : ∃ types, (g.addType t).1 = { g with types } := by
  unfold addType
  split
  · exact ⟨_, rfl⟩
  · exact ⟨g.types, rfl⟩

theorem relocate_eq (g : Graph) (name : String) (files : List String) :
    ∃ classes modules, g.relocate name files = { g with classes, modules } := by
  unfold relocate
  split
  · exact ⟨g.classes, g.modules, rfl⟩
  · dsimp only
    split
    · exact ⟨_, g.modules, rfl⟩
    · exact ⟨g.classes, _, rfl⟩

theorem dropClass_eq (g : Graph) (name : String) :
    ∃ classes, g.dropClass name = { g with classes } := by
  unfold dropClass
  split
  · exact ⟨g.classes, rfl⟩
  · exact ⟨_, rfl⟩

theorem undeclare_eq (uri : String) (g : Graph) (name : String) :
    ∃ classes modules declaredIn,
      undeclare uri g name = { g with classes, modules, declaredIn } := by
  unfold undeclare
  dsimp only
  split
  · obtain ⟨classes, h⟩ := dropClass_eq { g with declaredIn := g.declaredIn.erase name } name
    rw [h]
    exact ⟨_, _, _, rfl⟩
  · obtain ⟨classes, modules, h⟩ := relocate_eq _ name _
    exact ⟨classes, modules, _, h⟩

theorem foldl_undeclare_eq (uri : String) (names : List String) (g : Graph) :
    ∃ classes modules declaredIn,
      names.foldl (undeclare uri) g = { g with classes, modules, declaredIn } := by
  induction names generalizing g with
  | nil => exact ⟨g.classes, g.modules, g.declaredIn, rfl⟩
  | cons name rest ih =>
    obtain ⟨classes, modules, declaredIn, h⟩ := undeclare_eq uri g name
    rw [List.foldl_cons, h]
    exact ih _

theorem dropMixin_eq (g : Graph) (e : MixinEdge) :
    ∃ classes modules,
      g.dropMixin e = { g with classes, modules, mixinEdges := g.mixinEdges.erase e } := by
  unfold dropMixin
  dsimp only
  split
  · exact ⟨g.classes, g.modules, rfl⟩
  · exact ⟨_, _, rfl⟩

theorem foldl_dropMixin_eq (edges : List MixinEdge) (g : Graph) :
    ∃ classes modules, edges.foldl dropMixin g =
      { g with classes, modules, mixinEdges := edges.foldl List.erase g.mixinEdges } := by
  induction edges generalizing g with
  | nil => exact ⟨g.classes, g.modules, rfl⟩
  | cons e rest ih =>
    obtain ⟨classes, modules, h⟩ := dropMixin_eq g e
    rw [List.foldl_cons, h]
    exact ih _

theorem dropMethod_eq (g : Graph) (m : MethodInfo) :
    ∃ classes modules,
      g.dropMethod m = { g with classes, modules, methods := g.methods.erase m.id } :=
  mapMethodIds_eq _ _ _

theorem foldl_dropMethod_eq (methods : List MethodInfo) (g : Graph) :
    ∃ classes modules, methods.foldl dropMethod g =
      { g with
        classes, modules
        methods := (methods.map MethodInfo.id).foldl OrderedMap.erase g.methods } := by
  induction methods generalizing g with
  | nil => exact ⟨g.classes, g.modules, rfl⟩
  | cons m rest ih =>
    obtain ⟨classes, modules, h⟩ := dropMethod_eq g m
    rw [List.foldl_cons, h]
    exact ih _

theorem foldl_erase_filter {α : Type} [DecidableEq α] (p : α → Bool) (l : List α) :
    (l.filter p).foldl List.erase l = l.filter fun a => !p a := by
  -- `kept` is what the scan has passed over: none of it is erased any more.
  have scan (kept : List α) (hk : ∀ a ∈ kept, p a = false) :
      (l.filter p).foldl List.erase (kept ++ l) = kept ++ l.filter fun a => !p a := by
    induction l generalizing kept with
    | nil => rfl
    | cons a l ih =>
      by_cases hp : p a = true
      · have ha : a ∉ kept := fun hmem => by rw [hk a hmem] at hp; cases hp
        rw [List.filter_cons_of_pos hp, List.foldl_cons, List.erase_append_right _ ha,
          List.erase_cons_head, ih kept hk, List.filter_cons_of_neg (by simp [hp])]
      · have hp' : p a = false := by simpa using hp
        have hk' : ∀ b ∈ kept ++ [a], p b = false := by
          intro b hb
          rcases List.mem_append.mp hb with hb | hb
          · exact hk b hb
          · rw [List.mem_singleton.mp hb, hp']
        rw [List.filter_cons_of_neg hp, List.filter_cons_of_pos (by simp [hp'])]
        simpa using ih (kept ++ [a]) hk'
  simpa using scan [] (by simp)

theorem refresh_of_stale {g : Graph} (h : g.stale = true) :
    g.refresh =
      { g with
        calls := g.calls.map g.dispatch
        usages := g.usages.map g.dispatchUsage
        methods := relink g.methods (g.calls.map g.dispatch) (g.usages.map g.dispatchUsage)
        stale := false } := by
  simp [refresh, h]

theorem refresh_of_not_stale {g : Graph} (h : g.stale = false) : g.refresh = g := by
  simp [refresh, h]

theorem stale_refresh (g : Graph) : g.refresh.stale = false := by
  cases hstale : g.stale with
  | true => rw [refresh_of_stale hstale]
  | false => rw [refresh_of_not_stale hstale, hstale]

theorem removeFile_eq (g : Graph) (uri : String) :
    ∃ classes modules declaredIn,
      g.removeFile uri =
        { ({ g with
            classes, modules, declaredIn
            mixinEdges := g.mixinEdges.filter fun e => !(e.uri == uri)
            methods := ((g.methods.values.filter fun m => m.location.uri == uri).map
              MethodInfo.id).foldl OrderedMap.erase g.methods
            calls := g.calls.filter fun e => e.location.uri != uri
            usages := g.usages.filter fun u => u.location.uri != uri
            stale := true } : Graph).refresh with
          references := keepItems g.references fun r => r.location.uri != uri
          associations := keepItems g.associations fun a => a.location.uri != uri
          types := g.types.filter fun _ t => t.location.uri != uri
          dependencies := g.dependencies.erase uri } := by
  unfold removeFile
  dsimp only
  obtain ⟨cs, ms, declaredIn, h⟩ := foldl_undeclare_eq uri
    (g.declaredIn.filter fun _ files => files.contains uri).keys g
  rw [h]
  obtain ⟨cs, ms, h⟩ := foldl_dropMixin_eq (g.mixinEdges.filter fun e => e.uri == uri)
    { g with classes := cs, modules := ms, declaredIn }
  rw [h, foldl_erase_filter]
  obtain ⟨cs, ms, h⟩ := foldl_dropMethod_eq (g.methods.values.filter fun m => m.location.uri == uri)
    { g with
      classes := cs, modules := ms, declaredIn
      mixinEdges := g.mixinEdges.filter fun e => !(e.uri == uri) }
  rw [h]
  exact ⟨cs, ms, declaredIn, rfl⟩

end CodeAtlas.Graph
