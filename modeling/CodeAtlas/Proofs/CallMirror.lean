import CodeAtlas.Proofs.Frames

namespace CodeAtlas

theorem eraseDups_concat (l : List String) (a : String) :
    (l ++ [a]).eraseDups = addUnique l.eraseDups a := by
  rw [List.eraseDups_append, addUnique]
  by_cases h : a ∈ l
  · simp [h, List.mem_eraseDups, List.removeAll]
  · simp [h, List.mem_eraseDups, List.removeAll, List.eraseDups_cons]

def calleesOf (calls : List CallEdge) (id : String) : List String :=
  (calls.filter fun e => e.caller == id).map CallEdge.callee

def callersOf (calls : List CallEdge) (id : String) : List String :=
  (calls.filter fun e => e.callee == id).map CallEdge.caller

def useCount (calls : List CallEdge) (usages : List Usage) (id : String) : Nat :=
  calls.countP (fun e => e.callee == id) + usages.countP fun u => u.methodId == id

namespace MethodInfo

def linkedBy (calls : List CallEdge) (usages : List Usage) (m : MethodInfo) : MethodInfo :=
  { m with
    calls := (calleesOf calls m.id).eraseDups
    calledBy := (callersOf calls m.id).eraseDups
    usageCount := useCount calls usages m.id }

def unlinked (m : MethodInfo) : MethodInfo := { m with calls := [], calledBy := [], usageCount := 0 }

def enterCall (e : CallEdge) (m : MethodInfo) : MethodInfo :=
  { m with
    calls := if e.caller = m.id then addUnique m.calls e.callee else m.calls
    calledBy := if e.callee = m.id then addUnique m.calledBy e.caller else m.calledBy
    usageCount := if e.callee = m.id then m.usageCount + 1 else m.usageCount }

def enterUsage (u : Usage) (m : MethodInfo) : MethodInfo :=
  { m with usageCount := if u.methodId = m.id then m.usageCount + 1 else m.usageCount }

theorem unlinked_eq_self {m : MethodInfo} (hcalls : m.calls = []) (hcalledBy : m.calledBy = [])
    (huses : m.usageCount = 0) : m.unlinked = m := by
  cases m
  cases hcalls
  cases hcalledBy
  cases huses
  rfl

theorem linkedBy_nil (m : MethodInfo) : m.linkedBy [] [] = m.unlinked := rfl

theorem linkedBy_unlinked (calls : List CallEdge) (usages : List Usage) (m : MethodInfo) :
    m.unlinked.linkedBy calls usages = m.linkedBy calls usages := rfl

theorem linkedBy_concat_call (calls : List CallEdge) (usages : List Usage) (e : CallEdge)
    (m : MethodInfo) :
    m.linkedBy (calls ++ [e]) usages = (m.linkedBy calls usages).enterCall e := by
  unfold linkedBy enterCall
  congr 1
  · by_cases h : e.caller = m.id <;> simp [calleesOf, h, eraseDups_concat]
  · by_cases h : e.callee = m.id <;> simp [callersOf, h, eraseDups_concat]
  · by_cases h : e.callee = m.id <;> simp [useCount, h]; omega

theorem foldl_enterCall (m : MethodInfo) (done calls : List CallEdge) :
    calls.foldl (fun m e => m.enterCall e) (m.linkedBy done []) = m.linkedBy (done ++ calls) [] := by
  induction calls generalizing done with
  | nil => simp
  | cons e rest ih =>
    rw [List.foldl_cons, ← linkedBy_concat_call, ih, List.append_assoc, List.singleton_append]

theorem linkedBy_concat_usage (calls : List CallEdge) (usages : List Usage) (u : Usage)
    (m : MethodInfo) :
    m.linkedBy calls (usages ++ [u]) = (m.linkedBy calls usages).enterUsage u := by
  unfold linkedBy enterUsage
  congr 1
  by_cases h : u.methodId = m.id <;> simp [useCount, h]; omega

end MethodInfo

open MethodInfo

theorem Graph.get?_unlink (methods : OrderedMap String MethodInfo) (id : String) :
    (unlink methods).get? id = (methods.get? id).map unlinked :=
  OrderedMap.get?_map methods _ id

def Keyed (methods : OrderedMap String MethodInfo) : Prop :=
  ∀ id m, methods.get? id = some m → m.id = id

/-- The links of every method are those that the calls and usages give it. -/
def Mirrors (methods : OrderedMap String MethodInfo) (calls : List CallEdge)
    (usages : List Usage) : Prop :=
  ∀ id m, methods.get? id = some m → m = m.linkedBy calls usages

namespace Keyed

variable {methods : OrderedMap String MethodInfo}

theorem map (h : Keyed methods) (f : String → MethodInfo → MethodInfo)
    (hf : ∀ k m, (f k m).id = m.id) : Keyed (methods.map f) := by
  intro id m' hm'
  rw [OrderedMap.get?_map] at hm'
  obtain ⟨m, hm, rfl⟩ := Option.map_eq_some_iff.mp hm'
  rw [hf, h id m hm]

theorem modify (h : Keyed methods) (k : String) (f : MethodInfo → MethodInfo)
    (hf : ∀ m, (f m).id = m.id) : Keyed (methods.modify k f) := by
  apply h.map
  intro k' m
  split
  · exact hf m
  · rfl

theorem linkCall (h : Keyed methods) (e : CallEdge) : Keyed (Graph.linkCall methods e) := by
  apply Keyed.modify
  · exact h.modify _ _ fun _ => rfl
  · exact fun _ => rfl

theorem linkUsage (h : Keyed methods) (u : Usage) : Keyed (Graph.linkUsage methods u) :=
  h.modify _ _ fun _ => rfl

theorem unlink (h : Keyed methods) : Keyed (Graph.unlink methods) := h.map _ fun _ _ => rfl

theorem foldl_linkCall (h : Keyed methods) (calls : List CallEdge) :
    Keyed (calls.foldl Graph.linkCall methods) := by
  induction calls generalizing methods with
  | nil => exact h
  | cons e rest ih => exact ih (h.linkCall e)

theorem foldl_linkUsage (h : Keyed methods) (usages : List Usage) :
    Keyed (usages.foldl Graph.linkUsage methods) := by
  induction usages generalizing methods with
  | nil => exact h
  | cons u rest ih => exact ih (h.linkUsage u)

theorem relink (h : Keyed methods) (calls : List CallEdge) (usages : List Usage) :
    Keyed (Graph.relink methods calls usages) :=
  (h.unlink.foldl_linkCall calls).foldl_linkUsage usages

theorem insert (h : Keyed methods) (m : MethodInfo) : Keyed (methods.insert m.id m) := by
  intro id m' hm'
  rw [OrderedMap.get?_insert] at hm'
  split at hm'
  · next hid =>
    cases hm'
    exact hid
  · exact h id m' hm'

theorem foldl_erase (h : Keyed methods) (ids : List String) :
    Keyed (ids.foldl OrderedMap.erase methods) := by
  intro id m hm
  rw [OrderedMap.get?_foldl_erase] at hm
  split at hm
  · cases hm
  · exact h id m hm

theorem get?_linkCall (h : Keyed methods) (e : CallEdge) (id : String) :
    (Graph.linkCall methods e).get? id = (methods.get? id).map (enterCall e) := by
  rw [Graph.linkCall, OrderedMap.get?_modify, OrderedMap.get?_modify]
  cases hm : methods.get? id with
  | none => rfl
  | some m =>
    have hid := h id m hm
    subst hid
    simp only [Option.map_some, enterCall, eq_comm (a := m.id)]
    split <;> split <;> rfl

theorem get?_linkUsage (h : Keyed methods) (u : Usage) (id : String) :
    (Graph.linkUsage methods u).get? id = (methods.get? id).map (enterUsage u) := by
  rw [Graph.linkUsage, OrderedMap.get?_modify]
  cases hm : methods.get? id with
  | none => rfl
  | some m =>
    have hid := h id m hm
    subst hid
    simp only [Option.map_some, enterUsage, eq_comm (a := m.id)]
    split <;> rfl

end Keyed

namespace Mirrors

variable {methods : OrderedMap String MethodInfo} {calls : List CallEdge} {usages : List Usage}

theorem linkCall (hk : Keyed methods) (h : Mirrors methods calls usages) (e : CallEdge) :
    Mirrors (Graph.linkCall methods e) (calls ++ [e]) usages := by
  intro id m' hm'
  rw [hk.get?_linkCall] at hm'
  obtain ⟨m, hm, rfl⟩ := Option.map_eq_some_iff.mp hm'
  calc enterCall e m = enterCall e (m.linkedBy calls usages) := by rw [← h id m hm]
    _ = m.linkedBy (calls ++ [e]) usages := (linkedBy_concat_call calls usages e m).symm
    _ = (enterCall e m).linkedBy (calls ++ [e]) usages := rfl

theorem linkUsage (hk : Keyed methods) (h : Mirrors methods calls usages) (u : Usage) :
    Mirrors (Graph.linkUsage methods u) calls (usages ++ [u]) := by
  intro id m' hm'
  rw [hk.get?_linkUsage] at hm'
  obtain ⟨m, hm, rfl⟩ := Option.map_eq_some_iff.mp hm'
  calc enterUsage u m = enterUsage u (m.linkedBy calls usages) := by rw [← h id m hm]
    _ = m.linkedBy calls (usages ++ [u]) := (linkedBy_concat_usage calls usages u m).symm
    _ = (enterUsage u m).linkedBy calls (usages ++ [u]) := rfl

theorem unlink (methods : OrderedMap String MethodInfo) : Mirrors (Graph.unlink methods) [] [] := by
  intro id m' hm'
  rw [Graph.get?_unlink] at hm'
  obtain ⟨m, -, rfl⟩ := Option.map_eq_some_iff.mp hm'
  rfl

theorem foldl_linkCall (hk : Keyed methods) (h : Mirrors methods calls usages)
    (more : List CallEdge) :
    Mirrors (more.foldl Graph.linkCall methods) (calls ++ more) usages := by
  induction more generalizing methods calls with
  | nil => simpa using h
  | cons e rest ih => simpa using ih (hk.linkCall e) (h.linkCall hk e)

theorem foldl_linkUsage (hk : Keyed methods) (h : Mirrors methods calls usages)
    (more : List Usage) :
    Mirrors (more.foldl Graph.linkUsage methods) calls (usages ++ more) := by
  induction more generalizing methods usages with
  | nil => simpa using h
  | cons u rest ih => simpa using ih (hk.linkUsage u) (h.linkUsage hk u)

theorem relink (hk : Keyed methods) (calls : List CallEdge) (usages : List Usage) :
    Mirrors (Graph.relink methods calls usages) calls usages :=
  ((unlink methods).foldl_linkCall hk.unlink calls).foldl_linkUsage
    (hk.unlink.foldl_linkCall calls) usages

theorem insert (h : Mirrors methods calls usages) (m : MethodInfo) :
    Mirrors (methods.insert m.id (m.linkedBy calls usages)) calls usages := by
  intro id m' hm'
  rw [OrderedMap.get?_insert] at hm'
  split at hm'
  · cases hm'
    rfl
  · exact h id m' hm'

end Mirrors

namespace Graph

theorem withLinks_eq_foldl (g : Graph) (m : MethodInfo) :
    g.withLinks m =
      { g.calls.foldl (fun m e => m.enterCall e) m with
        usageCount := (g.calls.foldl (fun m e => m.enterCall e) m).usageCount +
          g.usages.countP fun u => u.methodId == (g.calls.foldl (fun m e => m.enterCall e) m).id } := by
  have hstep : (fun (m : MethodInfo) (e : CallEdge) =>
      let m :=
        if e.callee = m.id then
          { m with calledBy := addUnique m.calledBy e.caller, usageCount := m.usageCount + 1 }
        else m
      if e.caller = m.id then { m with calls := addUnique m.calls e.callee } else m) =
      fun m e => m.enterCall e := by
    funext m e
    simp only [enterCall]
    split <;> split <;> rfl
  unfold withLinks
  rw [hstep, List.countP_eq_length_filter]

theorem withLinks_eq (g : Graph) {m : MethodInfo} (hm : m.unlinked = m) :
    g.withLinks m = m.linkedBy g.calls g.usages := by
  have hcalls := foldl_enterCall m [] g.calls
  rw [linkedBy_nil, hm, List.nil_append] at hcalls
  rw [withLinks_eq_foldl, hcalls]
  simp [linkedBy, useCount]

theorem unlinked_withLinks (g : Graph) (m : MethodInfo) : (g.withLinks m).unlinked = m.unlinked := by
  have hcalls : (g.calls.foldl (fun m e => m.enterCall e) m).unlinked = m.unlinked := by
    induction g.calls generalizing m with
    | nil => rfl
    | cons e rest ih => exact ih (m.enterCall e)
  rw [withLinks_eq_foldl]
  exact hcalls

theorem keyed_addMethod {g : Graph} (hk : Keyed g.methods) (m : MethodInfo) :
    Keyed (g.addMethod m).methods := by
  obtain ⟨classes, modules, heq⟩ := addMethod_eq g m
  have hid : (g.withLinks m).unlinked.id = m.unlinked.id := by rw [unlinked_withLinks]
  rw [heq]
  exact hid ▸ hk.insert (g.withLinks m)

theorem keyed_refresh {g : Graph} (hk : Keyed g.methods) : Keyed g.refresh.methods := by
  cases hs : g.stale with
  | true =>
    rw [refresh_of_stale hs]
    exact hk.relink _ _
  | false => rwa [refresh_of_not_stale hs]

theorem keyed_removeFile {g : Graph} (hk : Keyed g.methods) (uri : String) :
    Keyed (g.removeFile uri).methods := by
  obtain ⟨classes, modules, declaredIn, heq⟩ := removeFile_eq g uri
  rw [heq]
  apply keyed_refresh
  exact hk.foldl_erase _

theorem keyed_empty : Keyed empty.methods := by
  intro id m hm
  cases hm

theorem keyed_apply {g : Graph} (hk : Keyed g.methods) (change : Mutation) :
    Keyed (g.apply change).methods := by
  cases change with
  | addClass c =>
    obtain ⟨classes, declaredIn, heq⟩ := addClass_eq g c
    rw [apply, heq]
    exact hk
  | addModule m =>
    obtain ⟨modules, declaredIn, heq⟩ := addModule_eq g m
    rw [apply, heq]
    exact hk
  | addMixin e => exact hk
  | addMethod m => exact keyed_addMethod hk m
  | addCall e => exact hk.linkCall _
  | addUsage u => exact hk.linkUsage _
  | addReference r => exact hk
  | addAssociation a => exact hk
  | addType t =>
    obtain ⟨types, heq⟩ := addType_eq g t
    rw [apply, heq]
    exact hk
  | addDependency d => exact hk
  | refresh => exact keyed_refresh hk
  | removeFile uri => exact keyed_removeFile hk uri
  | clear => exact keyed_empty

theorem keyed_run {g : Graph} (hk : Keyed g.methods) (changes : List Mutation) :
    Keyed (g.run changes).methods := by
  induction changes generalizing g with
  | nil => exact hk
  | cons change rest ih => exact ih (keyed_apply hk change)

structure Mirrored (g : Graph) : Prop where
  keyed : Keyed g.methods
  mirrors : Mirrors g.methods g.calls g.usages

theorem Mirrored.empty : Mirrored empty := by
  refine ⟨keyed_empty, ?_⟩
  intro id m hm
  cases hm

theorem mirrors_addMethod {g : Graph} (h : g.Mirrored) {m : MethodInfo} (hm : m.unlinked = m) :
    Mirrors (g.addMethod m).methods (g.addMethod m).calls (g.addMethod m).usages := by
  obtain ⟨classes, modules, heq⟩ := addMethod_eq g m
  rw [heq, g.withLinks_eq hm]
  exact h.mirrors.insert m

theorem mirrored_refresh {g : Graph} (hk : Keyed g.methods) (h : g.stale = false → g.Mirrored) :
    g.refresh.Mirrored := by
  refine ⟨keyed_refresh hk, ?_⟩
  cases hs : g.stale with
  | true =>
    rw [refresh_of_stale hs]
    exact Mirrors.relink hk _ _
  | false =>
    rw [refresh_of_not_stale hs]
    exact (h hs).mirrors

theorem mirrored_removeFile {g : Graph} (hk : Keyed g.methods) (uri : String) :
    (g.removeFile uri).Mirrored := by
  refine ⟨keyed_removeFile hk uri, ?_⟩
  obtain ⟨classes, modules, declaredIn, heq⟩ := removeFile_eq g uri
  rw [heq]
  exact (mirrored_refresh (hk.foldl_erase _) fun hs => by cases hs).mirrors

theorem Mirrored.apply {g : Graph} (h : g.Mirrored) (change : Mutation)
    (hm : ∀ m, change = .addMethod m → m.unlinked = m) : (g.apply change).Mirrored := by
  refine ⟨keyed_apply h.keyed change, ?_⟩
  cases change with
  | addClass c =>
    obtain ⟨classes, declaredIn, heq⟩ := addClass_eq g c
    rw [Graph.apply, heq]
    exact h.mirrors
  | addModule m =>
    obtain ⟨modules, declaredIn, heq⟩ := addModule_eq g m
    rw [Graph.apply, heq]
    exact h.mirrors
  | addMixin e => exact h.mirrors
  | addMethod m => exact mirrors_addMethod h (hm m rfl)
  | addCall e => exact h.mirrors.linkCall h.keyed _
  | addUsage u => exact h.mirrors.linkUsage h.keyed _
  | addReference r => exact h.mirrors
  | addAssociation a => exact h.mirrors
  | addType t =>
    obtain ⟨types, heq⟩ := addType_eq g t
    rw [Graph.apply, heq]
    exact h.mirrors
  | addDependency d => exact h.mirrors
  | refresh => exact (mirrored_refresh h.keyed fun _ => h).mirrors
  | removeFile uri => exact (mirrored_removeFile h.keyed uri).mirrors
  | clear => exact Mirrored.empty.mirrors

theorem Mirrored.run {g : Graph} (h : g.Mirrored) (changes : List Mutation)
    (hm : ∀ m, .addMethod m ∈ changes → m.unlinked = m) : (g.run changes).Mirrored := by
  induction changes generalizing g with
  | nil => exact h
  | cons change rest ih =>
    apply ih (h.apply change fun m hc => hm m (hc ▸ List.mem_cons_self))
    exact fun m hmem => hm m (List.mem_cons_of_mem _ hmem)

theorem mem_calleesOf {calls : List CallEdge} {caller callee : String} :
    callee ∈ calleesOf calls caller ↔ ∃ e ∈ calls, e.caller = caller ∧ e.callee = callee := by
  simp [calleesOf, and_assoc]

theorem mem_callersOf {calls : List CallEdge} {caller callee : String} :
    caller ∈ callersOf calls callee ↔ ∃ e ∈ calls, e.caller = caller ∧ e.callee = callee := by
  simp [callersOf, and_assoc, and_comm]

/-- After any changes the links of every method mirror the recorded calls and usages, also while the
calls are stale; so of two methods one lists the other as callee iff that one lists it as caller. -/
theorem links_mirror_calls (changes : List Mutation)
    (hm : ∀ m, .addMethod m ∈ changes → m.calls = [] ∧ m.calledBy = [] ∧ m.usageCount = 0) :
    let g := empty.run changes
    (∀ m ∈ g.methods.values,
      m.calls = (calleesOf g.calls m.id).eraseDups ∧
      m.calledBy = (callersOf g.calls m.id).eraseDups ∧
      m.usageCount = g.calls.countP (fun e => e.callee == m.id) +
        g.usages.countP (fun u => u.methodId == m.id)) ∧
    ∀ m ∈ g.methods.values, ∀ n ∈ g.methods.values, n.id ∈ m.calls ↔ m.id ∈ n.calledBy := by
  intro g
  have hg : g.Mirrored := by
    apply Mirrored.empty.run changes
    intro m hmem
    obtain ⟨hcalls, hcalledBy, huses⟩ := hm m hmem
    exact unlinked_eq_self hcalls hcalledBy huses
  have hlinks (m : MethodInfo) (hmem : m ∈ g.methods.values) : m = m.linkedBy g.calls g.usages := by
    obtain ⟨id, hid⟩ := OrderedMap.mem_values_iff.mp hmem
    exact hg.mirrors id m hid
  have hcalls (m : MethodInfo) (hmem : m ∈ g.methods.values) :
      m.calls = (calleesOf g.calls m.id).eraseDups := congrArg MethodInfo.calls (hlinks m hmem)
  have hcalledBy (m : MethodInfo) (hmem : m ∈ g.methods.values) :
      m.calledBy = (callersOf g.calls m.id).eraseDups :=
    congrArg MethodInfo.calledBy (hlinks m hmem)
  refine ⟨fun m hmem => ⟨hcalls m hmem, hcalledBy m hmem,
    congrArg MethodInfo.usageCount (hlinks m hmem)⟩, ?_⟩
  intro m hmem n hnmem
  rw [hcalls m hmem, hcalledBy n hnmem, List.mem_eraseDups, List.mem_eraseDups, mem_calleesOf,
    mem_callersOf]

/-- A call and a usage that come before the method they reach, which is declared twice, and a file
that is taken back. -/
def lateMethod : List Mutation :=
  [.addCall
    { caller := "A#run", callee := "B#go", location := ⟨"a.rb", 1, 2⟩, confidence := 0.5
      target := some { owner := "B", method := "go" } },
   .addUsage { methodId := "B#go", location := ⟨"a.rb", 3, 0⟩ },
   .addMethod { id := "B#go", name := "go", location := ⟨"b.rb", 1, 0⟩, className := some "B" },
   .addClass { name := "B", fullName := "B", location := ⟨"b.rb", 0, 0⟩ },
   .addMethod { id := "A#run", name := "run", location := ⟨"a.rb", 0, 0⟩ },
   .addMethod { id := "B#go", name := "go", location := ⟨"c.rb", 4, 0⟩, className := some "B" },
   .removeFile "b.rb"]

theorem links_mirror_calls_lateMethod :
    let g := empty.run lateMethod
    (∀ m, .addMethod m ∈ lateMethod → m.calls = [] ∧ m.calledBy = [] ∧ m.usageCount = 0) ∧
    ∀ m ∈ g.methods.values,
      m.calls = (calleesOf g.calls m.id).eraseDups ∧
      m.calledBy = (callersOf g.calls m.id).eraseDups ∧
      m.usageCount = g.calls.countP (fun e => e.callee == m.id) +
        g.usages.countP (fun u => u.methodId == m.id) := by
  intro g
  have hfresh : ∀ m, .addMethod m ∈ lateMethod →
      m.calls = [] ∧ m.calledBy = [] ∧ m.usageCount = 0 := by
    intro m hm
    simp only [lateMethod, List.mem_cons, List.not_mem_nil, reduceCtorEq, Mutation.addMethod.injEq,
      or_false, false_or] at hm
    rcases hm with rfl | rfl | rfl <;> exact ⟨rfl, rfl, rfl⟩
  exact ⟨hfresh, (links_mirror_calls lateMethod hfresh).1⟩

end Graph

end CodeAtlas
