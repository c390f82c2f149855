import CodeAtlas.Proofs.MethodLookup

namespace CodeAtlas.Graph

/-- One step up from a class, to a module that it mixes in or to its superclass, where that resolves.
The empty name stands for nothing. -/
inductive Inherits (g : Graph) : String → String → Prop where
  | mixin {owner name module : String} {c : ClassInfo} :
      g.classes.get? owner = some c → name ∈ c.mixins →
      g.resolveModule name owner = some module → module ≠ "" → Inherits g owner module
  | superclass {owner parent : String} {c : ClassInfo} :
      g.classes.get? owner = some c → g.resolveSuperclass c = some parent → parent ≠ "" →
      Inherits g owner parent

def Offers (g : Graph) (owner name : String) : Prop :=
  ∃ id ∈ g.methodIds owner, ∃ m, g.methods.get? id = some m ∧ m.name = name

theorem mem_linearParents_iff {g : Graph} {owner other : String} :
    other ∈ g.linearParents owner ↔ g.Inherits owner other := by
  unfold linearParents
  cases hget : g.classes.get? owner with
  | none =>
    constructor
    · intro hmem
      cases hmem
    · intro hstep
      cases hstep with
      | mixin hc => rw [hget] at hc; cases hc
      | superclass hc => rw [hget] at hc; cases hc
  | some c =>
    simp only [List.mem_filter, List.mem_append, List.mem_filterMap, Option.mem_toList,
      Bool.not_eq_eq_eq_not, Bool.not_true, String.isEmpty_eq_false_iff]
    constructor
    · rintro ⟨⟨name, hname, hresolved⟩ | hresolved, hnonempty⟩
      · exact .mixin hget hname hresolved hnonempty
      · exact .superclass hget hresolved hnonempty
    · intro hstep
      cases hstep with
      | mixin hc hname hresolved hnonempty =>
        rw [hget] at hc
        cases hc
        exact ⟨.inl ⟨_, hname, hresolved⟩, hnonempty⟩
      | superclass hc hresolved hnonempty =>
        rw [hget] at hc
        cases hc
        exact ⟨.inr hresolved, hnonempty⟩

theorem exists_methodsOf_iff {g : Graph} {owner name : String} :
    (∃ m ∈ g.methodsOf owner, m.name = name) ↔ g.Offers owner name := by
  simp only [methodsOf, List.mem_filterMap, Offers]
  constructor
  · rintro ⟨m, ⟨id, hid, hm⟩, hname⟩
    exact ⟨id, hid, m, hm, hname⟩
  · rintro ⟨id, hid, m, hm, hname⟩
    exact ⟨m, ⟨id, hid, hm⟩, hname⟩

theorem mem_ancestry_iff {g : Graph} {owner other : String} :
    other ∈ g.ancestry owner ↔ Relation.ReflTransGen g.Inherits owner other := by
  have hsame : (fun a b => b ∈ g.linearParents a) = g.Inherits := by
    funext a b
    exact propext mem_linearParents_iff
  rw [(g.depthFirst_ancestry owner).mem_iff, hsame]

theorem find?_availableMethods (g : Graph) (owner name : String) :
    (g.availableMethods owner).find? (·.name == name) =
      ((g.ancestry owner).flatMap g.methodsOf).find? (·.name == name) :=
  find?_firstByName _ _

theorem exists_mem_iff_find? {methods : List MethodInfo} {name : String} :
    (∃ m ∈ methods, m.name = name) ↔ (methods.find? (·.name == name)).isSome = true := by
  rw [List.find?_isSome]
  simp only [beq_iff_eq]

theorem find?_of_mem {methods : List MethodInfo} (h : (methods.map MethodInfo.name).Nodup)
    {m : MethodInfo} (hm : m ∈ methods) : methods.find? (·.name == m.name) = some m := by
  induction methods with
  | nil => cases hm
  | cons first rest ih =>
    rw [List.map_cons, List.nodup_cons] at h
    rcases List.mem_cons.mp hm with rfl | hrest
    · simp
    · have hother : first.name ≠ m.name := by
        intro hsame
        exact h.1 (hsame ▸ List.mem_map_of_mem hrest)
      rw [List.find?_cons_of_neg (by simpa using hother)]
      exact ih h.2 hrest

theorem find?_flatMap_methodsOf {g : Graph} {owners : List String} {name : String} {m : MethodInfo}
    (h : (owners.flatMap g.methodsOf).find? (·.name == name) = some m) :
    ∃ before owner after, owners = before ++ owner :: after ∧
      (g.methodsOf owner).find? (·.name == name) = some m ∧
      ∀ earlier ∈ before, ¬g.Offers earlier name := by
  induction owners with
  | nil => cases h
  | cons first rest ih =>
    rw [List.flatMap_cons, List.find?_append] at h
    cases hfirst : (g.methodsOf first).find? (·.name == name) with
    | some m' =>
      rw [hfirst, Option.some_or] at h
      refine ⟨[], first, rest, rfl, hfirst.trans h, ?_⟩
      simp
    | none =>
      rw [hfirst, Option.none_or] at h
      obtain ⟨before, owner, after, rfl, hfound, hbefore⟩ := ih h
      refine ⟨first :: before, owner, after, rfl, hfound, ?_⟩
      intro earlier hearlier
      rcases List.mem_cons.mp hearlier with rfl | hlater
      · rw [← exists_methodsOf_iff, exists_mem_iff_find?, hfirst]
        simp
      · exact hbefore earlier hlater

/-- The methods of a class have different names. There is one of a name just if something that the
class reaches, over mixins and superclasses, offers the name; and each comes from the first that does,
in the depth-first order of owners, mixins before the superclass. -/
theorem available_methods_complete (g : Graph) (owner : String) :
    let available := g.availableMethods owner
    let order := g.ancestry owner
    (available.map MethodInfo.name).Nodup ∧
    (∀ name, (∃ m ∈ available, m.name = name) ↔
      ∃ other, Relation.ReflTransGen g.Inherits owner other ∧ g.Offers other name) ∧
    DepthFirst g.linearParents [] [owner] order ∧
    ∀ m ∈ available, ∃ before other after, order = before ++ other :: after ∧
      (g.methodsOf other).find? (·.name == m.name) = some m ∧
      ∀ earlier ∈ before, ¬g.Offers earlier m.name := by
  intro available order
  have hnames : (available.map MethodInfo.name).Nodup := nodup_names_firstByName _
  refine ⟨hnames, ?_, g.depthFirst_ancestry owner, ?_⟩
  · intro name
    rw [exists_mem_iff_find?, find?_availableMethods, ← exists_mem_iff_find?]
    simp only [List.mem_flatMap, ← exists_methodsOf_iff, ← mem_ancestry_iff]
    constructor
    · rintro ⟨m, ⟨other, hother, hm⟩, hname⟩
      exact ⟨other, hother, m, hm, hname⟩
    · rintro ⟨other, hother, m, hm, hname⟩
      exact ⟨m, ⟨other, hother, hm⟩, hname⟩
  · intro m hm
    apply find?_flatMap_methodsOf
    rw [← find?_availableMethods]
    exact find?_of_mem hnames hm

end CodeAtlas.Graph
