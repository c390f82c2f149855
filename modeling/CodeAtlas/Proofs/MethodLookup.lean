import CodeAtlas.Graph.Mutation
import CodeAtlas.Proofs.DepthFirst

namespace CodeAtlas

abbrev MethodInfo.Answers (m : MethodInfo) (name : String) (classLevel : Bool) : Prop :=
  m.name = name ∧ m.isClassMethod = classLevel

namespace Graph

theorem depthFirst_ancestry (g : Graph) (owner : String) :
    DepthFirst g.linearParents [] [owner] (g.ancestry owner) := by
  apply depthFirst_walk
  intro name hname
  have hnone : g.classes.get? name = none := by
    cases hget : g.classes.get? name with
    | none => rfl
    | some c => exact absurd (OrderedMap.mem_keys_iff.mpr ⟨c, hget⟩) hname
  rw [linearParents, hnone]

theorem find?_firstByName (methods : List MethodInfo) (name : String) :
    (firstByName methods).find? (·.name == name) = methods.find? (·.name == name) := by
  have hfold (acc : List MethodInfo) :
      (methods.foldl (fun acc m => if acc.any (·.name == m.name) then acc else acc ++ [m])
        acc).find? (·.name == name) = (acc ++ methods).find? (·.name == name) := by
    induction methods generalizing acc with
    | nil => simp
    | cons m methods ih =>
      rw [List.foldl_cons, ih]
      split
      · next hany =>
        simp only [List.find?_append, List.find?_cons]
        split
        · next hname =>
          -- another method of this name has been met before
          obtain ⟨other, hother, hsame⟩ := List.any_eq_true.mp hany
          have hfound : (acc.find? (·.name == name)).isSome := by
            rw [List.find?_isSome]
            exact ⟨other, hother, by rw [beq_iff_eq] at *; exact hsame.trans hname⟩
          rw [Option.or_of_isSome hfound, Option.or_of_isSome hfound]
        · rfl
      · rw [List.append_assoc]
        rfl
  exact hfold []

theorem nodup_names_firstByName (methods : List MethodInfo) :
    ((firstByName methods).map MethodInfo.name).Nodup := by
  have hfold (acc : List MethodInfo) (hacc : (acc.map MethodInfo.name).Nodup) :
      ((methods.foldl (fun acc m => if acc.any (·.name == m.name) then acc else acc ++ [m])
        acc).map MethodInfo.name).Nodup := by
    induction methods generalizing acc with
    | nil => exact hacc
    | cons m methods ih =>
      rw [List.foldl_cons]
      apply ih
      split
      · exact hacc
      · next hany =>
        rw [List.map_append]
        apply hacc.append (List.nodup_singleton _)
        simpa using hany
  exact hfold [] List.nodup_nil

theorem find?_level {methods : List MethodInfo} (h : (methods.map MethodInfo.name).Nodup)
    (name : String) (classLevel : Bool) :
    methods.find? (fun m => m.name == name && m.isClassMethod == classLevel) =
      (methods.find? (·.name == name)).filter (·.isClassMethod == classLevel) := by
  induction methods with
  | nil => rfl
  | cons m methods ih =>
    rw [List.map_cons, List.nodup_cons] at h
    by_cases hname : m.name = name
    · subst hname
      have hnone : methods.find? (fun m' => m'.name == m.name) = none := by
        rw [List.find?_eq_none]
        intro m' hm' hsame
        exact h.1 (List.mem_map.mpr ⟨m', hm', by simpa using hsame⟩)
      have hrest := ih h.2
      rw [hnone] at hrest
      cases hlevel : m.isClassMethod == classLevel <;> simp [hlevel, hrest, Option.filter]
    · have hother : (m.name == name) = false := by simpa using hname
      rw [List.find?_cons, List.find?_cons, hother, Bool.false_and]
      exact ih h.2

theorem findMethod_eq (g : Graph) (owner name : String) (classLevel : Bool) :
    g.findMethod owner name classLevel =
      match ((g.ancestry owner).flatMap g.methodsOf).find? (·.name == name) with
      | some m => if m.isClassMethod = classLevel then m.id else methodId owner name classLevel
      | none => methodId owner name classLevel := by
  unfold findMethod availableMethods
  rw [find?_level (nodup_names_firstByName _), find?_firstByName]
  cases ((g.ancestry owner).flatMap g.methodsOf).find? (·.name == name) with
  | none => rfl
  | some m =>
    by_cases hlevel : m.isClassMethod = classLevel <;> simp [Option.filter, hlevel]

/-- A method is searched for along the hierarchy of its owner, each class and module visited once, in
depth-first order. Of the methods met on the way, the first of the name and level is found, unless a
method of the same name and the other level is met before; then, and if there is none of the name and
level, the answer is the id that a method of the owner itself would have. -/
theorem nearest_method_found (g : Graph) (owner name : String) (classLevel : Bool) :
    let order := g.ancestry owner
    DepthFirst g.linearParents [] [owner] order ∧ order.Nodup ∧
    (∀ other, other ∈ order ↔
      Relation.ReflTransGen (fun a b => b ∈ g.linearParents a) owner other) ∧
    (∀ before m after, order.flatMap g.methodsOf = before ++ m :: after →
      m.Answers name classLevel → (∀ earlier ∈ before, ¬earlier.Answers name classLevel) →
      g.findMethod owner name classLevel =
        if ∃ earlier ∈ before, earlier.name = name then methodId owner name classLevel
        else m.id) ∧
    ((∀ m ∈ order.flatMap g.methodsOf, ¬m.Answers name classLevel) →
      g.findMethod owner name classLevel = methodId owner name classLevel) := by
  have hvisit := g.depthFirst_ancestry owner
  refine ⟨hvisit, hvisit.nodup List.nodup_nil, hvisit.mem_iff, ?_, ?_⟩
  · intro before m after hmet hm hbefore
    rw [findMethod_eq, hmet, List.find?_append]
    cases hfirst : before.find? (·.name == name) with
    | some earlier =>
      have hmem := List.mem_of_find?_eq_some hfirst
      have hname : earlier.name = name := by simpa using List.find?_some hfirst
      have hlevel : earlier.isClassMethod ≠ classLevel :=
        fun hsame => hbefore earlier hmem ⟨hname, hsame⟩
      rw [if_pos ⟨earlier, hmem, hname⟩]
      exact if_neg hlevel
    | none =>
      have hnone : ¬∃ earlier ∈ before, earlier.name = name := by
        simpa using hfirst
      rw [if_neg hnone]
      simp [hm.1, hm.2]
  · intro hnone
    rw [findMethod_eq]
    cases hfirst : ((g.ancestry owner).flatMap g.methodsOf).find? (·.name == name) with
    | none => rfl
    | some m =>
      have hmem := List.mem_of_find?_eq_some hfirst
      have hname : m.name = name := by simpa using List.find?_some hfirst
      exact if_neg fun hlevel => hnone m hmem ⟨hname, hlevel⟩

def methodIn (file owner name : String) (isClassMethod : Bool) : Mutation :=
  .addMethod
    { id := methodId owner name isClassMethod, name, location := Location.ofFile file
      className := some owner, isClassMethod }

def jobs : List Mutation :=
  [.addClass
     { name := "Mail", fullName := "Mail", location := Location.ofFile "mail.rb"
       superclass := some "Job" },
   methodIn "mail.rb" "Mail" "deliver" false,
   .addModule { name := "Queued", fullName := "Queued", location := Location.ofFile "queued.rb" },
   methodIn "queued.rb" "Queued" "enqueue" true,
   .addClass
     { name := "Job", fullName := "Job", location := Location.ofFile "job.rb"
       mixins := ["Queued"] },
   methodIn "job.rb" "Job" "deliver" true,
   methodIn "job.rb" "Job" "enqueue" true]

theorem ancestry_jobs : (empty.run jobs).ancestry "Mail" = ["Mail", "Job", "Queued"] := by
  have hkeys : (empty.run jobs).classes.keys = ["Mail", "Job"] := by decide
  have hmail : (empty.run jobs).linearParents "Mail" = ["Job"] := by decide
  have hjob : (empty.run jobs).linearParents "Job" = ["Queued"] := by decide
  simp [ancestry, reached, walk, hkeys, hmail, hjob]

theorem nearest_method_found_job :
    let g := empty.run jobs
    g.ancestry "Mail" = ["Mail", "Job", "Queued"] ∧
    DepthFirst g.linearParents [] ["Mail"] ["Mail", "Job", "Queued"] ∧
    (((g.ancestry "Mail").flatMap g.methodsOf).filter (·.Answers "enqueue" true)).map
      MethodInfo.id = ["Job.enqueue", "Queued.enqueue"] ∧
    g.findMethod "Mail" "enqueue" true = "Job.enqueue" ∧
    g.findMethod "Mail" "stop" true = "Mail.stop" := by
  intro g
  obtain ⟨hvisit, -, -, hfound, -⟩ := nearest_method_found g "Mail" "enqueue" true
  obtain ⟨-, -, -, -, hnone⟩ := nearest_method_found g "Mail" "stop" true
  rw [ancestry_jobs] at hvisit hfound hnone ⊢
  let met := ["Mail", "Job", "Queued"].flatMap g.methodsOf
  let m : MethodInfo :=
    { id := "Job.enqueue", name := "enqueue", location := Location.ofFile "job.rb"
      className := some "Job", isClassMethod := true }
  have hmet : met = met.take 2 ++ m :: met.drop 3 := by decide
  have hother : ∀ earlier ∈ met.take 2, earlier.name ≠ "enqueue" := by decide
  have hjob : g.findMethod "Mail" "enqueue" true = "Job.enqueue" := by
    rw [hfound _ m _ hmet ⟨rfl, rfl⟩ fun earlier hmem hm => hother earlier hmem hm.1, if_neg]
    rintro ⟨earlier, hmem, hname⟩
    exact hother earlier hmem hname
  exact ⟨rfl, hvisit, by decide, hjob, hnone (by decide)⟩

theorem level_hidden_by_name :
    let g := empty.run jobs
    (((g.ancestry "Mail").flatMap g.methodsOf).filter (·.Answers "deliver" true)).map
      MethodInfo.id = ["Job.deliver"] ∧
    g.findMethod "Mail" "deliver" true = "Mail.deliver" := by
  intro g
  rw [findMethod_eq, ancestry_jobs]
  decide

end Graph

end CodeAtlas
