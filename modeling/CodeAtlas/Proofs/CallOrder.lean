import CodeAtlas.Proofs.CallResolution

namespace CodeAtlas

open MethodInfo

def Mutation.isHierarchy : Mutation → Bool
  | .addClass _ | .addModule _ | .addMixin _ | .addMethod _ => true
  | _ => false

def Mutation.isCall : Mutation → Bool
  | .addCall _ | .addUsage _ => true
  | _ => false

/-- The third list has the changes of the hierarchy and the calls of the other two, each in their
order, and refreshes anywhere. -/
inductive Interleaving : List Mutation → List Mutation → List Mutation → Prop
  | nil : Interleaving [] [] []
  | hierarchy {c : Mutation} {hs ks cs : List Mutation} (hc : c.isHierarchy = true)
      (rest : Interleaving hs ks cs) : Interleaving (c :: hs) ks (c :: cs)
  | call {c : Mutation} {hs ks cs : List Mutation} (hc : c.isCall = true)
      (rest : Interleaving hs ks cs) : Interleaving hs (c :: ks) (c :: cs)
  | refresh {hs ks cs : List Mutation} (rest : Interleaving hs ks cs) :
      Interleaving hs ks (.refresh :: cs)

def recordedCalls (changes : List Mutation) : List CallEdge :=
  changes.filterMap fun
    | .addCall e => some e
    | _ => none

def recordedUsages (changes : List Mutation) : List Usage :=
  changes.filterMap fun
    | .addUsage u => some u
    | _ => none

namespace Graph

def skeleton (g : Graph) : Graph :=
  { g with calls := [], usages := [], methods := unlink g.methods, stale := false }

theorem hierarchy_skeleton (g : Graph) : g.skeleton.hierarchy = g.hierarchy := by
  simp only [hierarchy, skeleton, unlink_unlink]

theorem skeleton_addCall (g : Graph) (e : CallEdge) : (g.addCall e).skeleton = g.skeleton := by
  simp only [skeleton, addCall, unlink_linkCall]

theorem skeleton_addUsage (g : Graph) (u : Usage) : (g.addUsage u).skeleton = g.skeleton := by
  simp only [skeleton, addUsage, unlink_linkUsage]

theorem skeleton_refresh (g : Graph) : g.refresh.skeleton = g.skeleton := by
  cases hs : g.stale with
  | true => rw [refresh_of_stale hs]; simp only [skeleton, unlink_relink]
  | false => rw [refresh_of_not_stale hs]

theorem skeleton_linkSuperclass (g : Graph) (name : String) :
    (g.linkSuperclass name).skeleton = g.skeleton.linkSuperclass name := by
  have hsame : (g.skeleton.classes.get? name).bind g.skeleton.resolveSuperclass =
      (g.classes.get? name).bind g.resolveSuperclass := rfl
  unfold linkSuperclass
  rw [hsame]
  split
  · rfl
  · exact apply_ite skeleton _ _ _

theorem waitingMethods_skeleton (g : Graph) (owner : String) :
    g.skeleton.waitingMethods owner = g.waitingMethods owner := by
  have hvalues : g.skeleton.methods.values = g.methods.values.map unlinked := by
    simp [skeleton, unlink, OrderedMap.values, OrderedMap.map, unlinked, Function.comp_def]
  unfold waitingMethods
  rw [hvalues, List.filter_map, List.map_map]
  rfl

theorem skeleton_declare (g : Graph) (name uri : String) :
    (g.skeleton.declare name uri).skeleton = (g.declare name uri).skeleton := by
  simp only [declare, skeleton, unlink_unlink]

theorem skeleton_setClasses {g g' : Graph} (h : g.skeleton = g'.skeleton)
    (classes : OrderedMap String ClassInfo) :
    { g with classes }.skeleton = { g'  with classes }.skeleton :=
  congrArg (fun k : Graph => { k with classes }) h

theorem skeleton_adoptSubclasses (g : Graph) (name : String) :
    (g.adoptSubclasses name).skeleton = g.skeleton.adoptSubclasses name := rfl

theorem skeleton_adoptMethods (g : Graph) (name : String) :
    { g with
      classes := g.classes.modify name fun c =>
        { c with methods := (g.waitingMethods name).foldl addUnique c.methods } }.skeleton =
    { g.skeleton with
      classes := g.skeleton.classes.modify name fun c =>
        { c with methods := (g.skeleton.waitingMethods name).foldl addUnique c.methods } } := by
  rw [waitingMethods_skeleton]
  rfl

theorem skeleton_addClass (g : Graph) (c : ClassInfo) :
    (g.addClass c).skeleton = (g.skeleton.addClass c).skeleton := by
  have hd := (skeleton_declare g c.fullName c.location.uri).symm
  have hclasses : (g.skeleton.declare c.fullName c.location.uri).classes = g.classes := rfl
  have hclasses' : (g.declare c.fullName c.location.uri).classes = g.classes := rfl
  unfold addClass
  dsimp only
  rw [hclasses, hclasses']
  cases g.classes.get? c.fullName with
  | some old =>
    have hm := skeleton_setClasses hd (g.classes.insert c.fullName (old.merge c))
    dsimp only
    split
    · rw [skeleton_linkSuperclass, skeleton_linkSuperclass, hm]
    · exact hm
  | none =>
    have hi := skeleton_setClasses hd (g.classes.insert c.fullName c)
    dsimp only
    rw [skeleton_adoptMethods, skeleton_adoptMethods, skeleton_adoptSubclasses,
      skeleton_adoptSubclasses, skeleton_linkSuperclass, skeleton_linkSuperclass, hi]

theorem skeleton_addModule (g : Graph) (m : ModuleInfo) :
    (g.addModule m).skeleton = (g.skeleton.addModule m).skeleton := by
  have hd := (skeleton_declare g m.fullName m.location.uri).symm
  have hw := waitingMethods_skeleton g m.fullName
  unfold addModule
  dsimp only
  rw [apply_ite skeleton, apply_ite skeleton]
  refine ite_congr rfl (fun _ => hd) fun _ => ?_
  simp only [skeleton, declare, unlink_unlink]
  congr 3
  exact congrArg (List.foldl addUnique _) hw.symm

theorem skeleton_addMixin (g : Graph) (e : MixinEdge) :
    (g.addMixin e).skeleton = (g.skeleton.addMixin e).skeleton := by
  simp only [addMixin, skeleton, unlink_unlink]
  rfl

theorem skeleton_mapMethodIds (g : Graph) (owner : String) (f : List String → List String) :
    (g.mapMethodIds owner f).skeleton = g.skeleton.mapMethodIds owner f :=
  apply_ite skeleton _ _ _

theorem unlink_insert_withLinks (g : Graph) (methods : OrderedMap String MethodInfo)
    (m : MethodInfo) :
    unlink (methods.insert m.id (g.withLinks m)) = (unlink methods).insert m.id m.unlinked := by
  rw [unlink, OrderedMap.map_insert]
  exact congrArg ((unlink methods).insert m.id) (unlinked_withLinks g m)

theorem skeleton_addMethod (g : Graph) (m : MethodInfo) :
    (g.addMethod m).skeleton = (g.skeleton.addMethod m).skeleton := by
  have hi : { g with methods := g.methods.insert m.id (g.withLinks m), stale := true }.skeleton =
      { g.skeleton with
        methods := g.skeleton.methods.insert m.id (g.skeleton.withLinks m)
        stale := true }.skeleton := by
    simp only [skeleton, unlink_insert_withLinks, unlink_unlink]
  unfold addMethod
  dsimp only
  split
  · split
    · exact hi
    · rw [skeleton_mapMethodIds, skeleton_mapMethodIds, hi]
  · exact hi

theorem skeleton_apply_hierarchy {c : Mutation} (hc : c.isHierarchy = true) {g g' : Graph}
    (h : g.skeleton = g'.skeleton) : (g.apply c).skeleton = (g'.apply c).skeleton := by
  cases c with
  | addClass c => rw [apply, apply, skeleton_addClass, h, ← skeleton_addClass]
  | addModule m => rw [apply, apply, skeleton_addModule, h, ← skeleton_addModule]
  | addMixin e => rw [apply, apply, skeleton_addMixin, h, ← skeleton_addMixin]
  | addMethod m => rw [apply, apply, skeleton_addMethod, h, ← skeleton_addMethod]
  | _ => cases hc

theorem skeleton_apply_call {c : Mutation} (hc : c.isCall = true) (g : Graph) :
    (g.apply c).skeleton = g.skeleton := by
  cases c with
  | addCall e => exact skeleton_addCall g e
  | addUsage u => exact skeleton_addUsage g u
  | _ => cases hc

theorem apply_hierarchy {c : Mutation} (hc : c.isHierarchy = true) (g : Graph) :
    (g.apply c).calls = g.calls ∧ (g.apply c).usages = g.usages ∧ (g.apply c).stale = true := by
  cases c with
  | addClass c =>
    obtain ⟨classes, declaredIn, heq⟩ := addClass_eq g c
    rw [apply, heq]
    exact ⟨rfl, rfl, rfl⟩
  | addModule m =>
    obtain ⟨modules, declaredIn, heq⟩ := addModule_eq g m
    rw [apply, heq]
    exact ⟨rfl, rfl, rfl⟩
  | addMixin e => exact ⟨rfl, rfl, rfl⟩
  | addMethod m =>
    obtain ⟨classes, modules, heq⟩ := addMethod_eq g m
    rw [apply, heq]
    exact ⟨rfl, rfl, rfl⟩
  | _ => cases hc

theorem map_dispatch_refresh (g k : Graph) :
    g.refresh.calls.map k.dispatch = g.calls.map k.dispatch := by
  cases hs : g.stale with
  | true =>
    rw [refresh_of_stale hs, List.map_map]
    exact List.map_congr_left fun e _ => dispatch_dispatch k g e
  | false => rw [refresh_of_not_stale hs]

theorem map_dispatchUsage_refresh (g k : Graph) :
    g.refresh.usages.map k.dispatchUsage = g.usages.map k.dispatchUsage := by
  cases hs : g.stale with
  | true =>
    rw [refresh_of_stale hs, List.map_map]
    exact List.map_congr_left fun u _ => dispatchUsage_dispatchUsage k g u
  | false => rw [refresh_of_not_stale hs]

end Graph

namespace Interleaving

open CodeAtlas.Graph

variable {hs ks cs : List Mutation}

theorem skeleton_run (h : Interleaving hs ks cs) {g g' : Graph} (hg : g.skeleton = g'.skeleton) :
    (g.run cs).skeleton = (g'.run hs).skeleton := by
  induction h generalizing g g' with
  | nil => exact hg
  | hierarchy hc _ ih => exact ih (skeleton_apply_hierarchy hc hg)
  | call hc _ ih => exact ih ((skeleton_apply_call hc g).trans hg)
  | refresh _ ih => exact ih ((skeleton_refresh g).trans hg)

theorem calls_run (h : Interleaving hs ks cs) (g k : Graph) :
    (g.run cs).calls.map k.dispatch = (g.calls ++ recordedCalls ks).map k.dispatch := by
  induction h generalizing g with
  | nil => simp [run, recordedCalls]
  | @hierarchy c hs ks cs hc _ ih =>
    have hstep := ih (g.apply c)
    rwa [(apply_hierarchy hc g).1] at hstep
  | @call c hs ks cs hc _ ih =>
    cases c with
    | addCall e =>
      calc ((g.addCall e).run cs).calls.map k.dispatch
          = (g.calls ++ [g.dispatch e] ++ recordedCalls ks).map k.dispatch := ih (g.addCall e)
        _ = (g.calls ++ recordedCalls (.addCall e :: ks)).map k.dispatch := by
          simp [recordedCalls, dispatch_dispatch]
    | addUsage u => exact ih (g.addUsage u)
    | _ => cases hc
  | refresh _ ih =>
    have hstep := ih g.refresh
    rwa [List.map_append, map_dispatch_refresh, ← List.map_append] at hstep

theorem usages_run (h : Interleaving hs ks cs) (g k : Graph) :
    (g.run cs).usages.map k.dispatchUsage =
      (g.usages ++ recordedUsages ks).map k.dispatchUsage := by
  induction h generalizing g with
  | nil => simp [run, recordedUsages]
  | @hierarchy c hs ks cs hc _ ih =>
    have hstep := ih (g.apply c)
    rwa [(apply_hierarchy hc g).2.1] at hstep
  | @call c hs ks cs hc _ ih =>
    cases c with
    | addCall e => exact ih (g.addCall e)
    | addUsage u =>
      calc ((g.addUsage u).run cs).usages.map k.dispatchUsage
          = (g.usages ++ [g.dispatchUsage u] ++ recordedUsages ks).map k.dispatchUsage :=
            ih (g.addUsage u)
        _ = (g.usages ++ recordedUsages (.addUsage u :: ks)).map k.dispatchUsage := by
          simp [recordedUsages, dispatchUsage_dispatchUsage]
    | _ => cases hc
  | refresh _ ih =>
    have hstep := ih g.refresh
    rwa [List.map_append, map_dispatchUsage_refresh, ← List.map_append] at hstep

theorem mirrored_run (h : Interleaving hs ks cs) {g : Graph} (hk : Keyed g.methods)
    (hm : g.stale = false → g.Mirrored) (hs : (g.run cs).stale = false) : (g.run cs).Mirrored := by
  induction h generalizing g with
  | nil => exact hm hs
  | @hierarchy c _ _ _ hc _ ih =>
    apply ih (keyed_apply hk c) _ hs
    intro hstale
    rw [(apply_hierarchy hc g).2.2] at hstale
    cases hstale
  | @call c _ _ _ hc _ ih =>
    cases c with
    | addCall e =>
      exact ih (keyed_apply hk _) (fun hstale => (hm hstale).apply (.addCall e) (by simp)) hs
    | addUsage u =>
      exact ih (keyed_apply hk _) (fun hstale => (hm hstale).apply (.addUsage u) (by simp)) hs
    | _ => cases hc
  | refresh _ ih =>
    have hr := mirrored_refresh hk hm
    exact ih hr.keyed (fun _ => hr) hs

end Interleaving

theorem Mirrors.relink_eq {methods : OrderedMap String MethodInfo} {calls : List CallEdge}
    {usages : List Usage} (hk : Keyed methods) (h : Mirrors methods calls usages) :
    Graph.relink methods calls usages = methods := by
  have hu := Graph.unlink_relink methods calls usages
  have hr := Mirrors.relink hk calls usages
  apply OrderedMap.ext_get?
  · calc (Graph.relink methods calls usages).keys
        = (Graph.unlink (Graph.relink methods calls usages)).keys := (OrderedMap.keys_map _ _).symm
      _ = methods.keys := by rw [hu]; exact OrderedMap.keys_map _ _
  · intro id
    -- The two methods under one id agree but for their links, and their links mirror the same calls.
    have hid : ((Graph.relink methods calls usages).get? id).map unlinked =
        (methods.get? id).map unlinked := by
      rw [← Graph.get?_unlink, hu, Graph.get?_unlink]
    cases hm : methods.get? id with
    | none => simpa [hm] using hid
    | some m =>
      rw [hm] at hid
      obtain ⟨m', hm', heq⟩ := Option.map_eq_some_iff.mp hid
      rw [hm', hr id m' hm', h id m hm, ← linkedBy_unlinked, heq, linkedBy_unlinked]

namespace Graph

def resolving (g : Graph) (calls : List CallEdge) (usages : List Usage) : Graph :=
  { g with
    calls := calls.map g.dispatch
    usages := usages.map g.dispatchUsage
    methods := relink g.methods (calls.map g.dispatch) (usages.map g.dispatchUsage)
    stale := false }

theorem relink_unlink (methods : OrderedMap String MethodInfo) (calls : List CallEdge)
    (usages : List Usage) : relink (unlink methods) calls usages = relink methods calls usages := by
  rw [relink, unlink_unlink, relink]

theorem refresh_eq_resolving {g : Graph} (hc : g.stale = false → g.Current)
    (hm : g.stale = false → g.Mirrored) :
    g.refresh = g.skeleton.resolving g.calls g.usages := by
  have hd := dispatch_congr (hierarchy_skeleton g)
  have hu := dispatchUsage_congr (hierarchy_skeleton g)
  unfold resolving
  rw [hd, hu]
  cases hs : g.stale with
  | true =>
    rw [refresh_of_stale hs]
    simp only [skeleton, relink_unlink]
  | false =>
    have hlinks := (hm hs).mirrors.relink_eq (hm hs).keyed
    rw [refresh_of_not_stale hs, (hc hs).map_dispatch, (hc hs).map_dispatchUsage]
    simp only [skeleton, relink_unlink, hlinks, ← hs]

end Graph

theorem Interleaving.refresh_run {hs ks cs : List Mutation} (h : Interleaving hs ks cs) :
    (Graph.empty.run cs).refresh =
      (Graph.empty.run hs).skeleton.resolving (recordedCalls ks) (recordedUsages ks) := by
  have hc := Graph.current_run cs (g := .empty) fun _ => Graph.current_empty
  have hm := h.mirrored_run (g := .empty) Graph.Mirrored.empty.keyed fun _ => Graph.Mirrored.empty
  rw [Graph.refresh_eq_resolving hc hm, h.skeleton_run rfl]
  unfold Graph.resolving
  rw [h.calls_run, h.usages_run]
  rfl

/-- Two interleavings of the same changes of the hierarchy with the same calls and usages lead to the
same graph, once it is refreshed. -/
theorem Graph.refresh_run_interleaving {hs ks cs cs' : List Mutation}
    (h : Interleaving hs ks cs) (h' : Interleaving hs ks cs') :
    (empty.run cs).refresh = (empty.run cs').refresh :=
  h.refresh_run.trans h'.refresh_run.symm

def Graph.inheritedMethod : List Mutation :=
  [.addClass
    { name := "Child", fullName := "Child", location := ⟨"a.rb", 0, 0⟩, superclass := some "Base" },
   .addClass { name := "Base", fullName := "Base", location := ⟨"b.rb", 0, 0⟩ },
   .addMethod
    { id := "Base#save", name := "save", location := ⟨"b.rb", 1, 0⟩, className := some "Base" }]

def Graph.inheritedUses : List Mutation :=
  [.addCall
    { caller := "Child#run", callee := "Child#save", location := ⟨"a.rb", 2, 4⟩, confidence := 0.7
      target := some { owner := "Child", method := "save" } },
   .addUsage
    { methodId := "Child#save", location := ⟨"a.rb", 3, 0⟩
      target := some { owner := "Child", method := "save" } }]

theorem Graph.refresh_run_interleaving_inherited :
    (empty.run (inheritedUses ++ inheritedMethod)).refresh =
      (empty.run
        (inheritedMethod.take 1 ++ inheritedUses.take 1 ++ [.refresh] ++ inheritedMethod.drop 1 ++
          inheritedUses.drop 1)).refresh :=
  refresh_run_interleaving
    (.call rfl (.call rfl (.hierarchy rfl (.hierarchy rfl (.hierarchy rfl .nil)))))
    (.hierarchy rfl (.call rfl (.refresh (.hierarchy rfl (.hierarchy rfl (.call rfl .nil))))))

end CodeAtlas
