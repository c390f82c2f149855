import CodeAtlas.Graph.Declare
import CodeAtlas.Graph.Hierarchy
import CodeAtlas.Proofs.DepthFirst

namespace CodeAtlas.Graph

def Lists (g : Graph) (name sub : String) : Prop :=
  ∃ c, g.classes.get? name = some c ∧ sub ∈ c.subclasses

/-- The name that stands above a stored class: what its superclass resolves to, or else the superclass
as it is written. The empty name stands for nothing. -/
def Extends (g : Graph) (name parent : String) : Prop :=
  ∃ c written, g.classes.get? name = some c ∧ c.superclass = some written ∧ written ≠ "" ∧
    parent = ((g.resolveSuperclass c).filter (· ≠ "")).getD written

theorem mem_directSubclasses_iff {g : Graph} {name sub : String} :
    sub ∈ g.directSubclasses name ↔ g.Lists name sub := by
  unfold directSubclasses Lists
  cases g.classes.get? name <;> simp

theorem depthFirst_subclasses (g : Graph) (name : String) :
    DepthFirst g.directSubclasses [] [name] (name :: g.allSubclasses name) := by
  have hwalk : DepthFirst g.directSubclasses [] [name]
      (reached g.classes.keys g.directSubclasses name) := by
    apply depthFirst_walk
    intro other hother
    rw [directSubclasses, OrderedMap.get?_eq_none_iff.mpr hother]
  obtain ⟨rest, hrest⟩ := List.head?_eq_some_iff.mp hwalk.head?
  rw [hrest] at hwalk
  rw [allSubclasses, hrest]
  exact hwalk

theorem nodup_allSubclasses (g : Graph) (name : String) :
    name ∉ g.allSubclasses name ∧ (g.allSubclasses name).Nodup :=
  List.nodup_cons.mp ((g.depthFirst_subclasses name).nodup List.nodup_nil)

theorem mem_allSubclasses_iff {g : Graph} {name other : String} :
    other ∈ g.allSubclasses name ↔ other ≠ name ∧ Relation.ReflTransGen g.Lists name other := by
  have hlists : (fun a b => b ∈ g.directSubclasses a) = g.Lists := by
    funext a b
    exact propext mem_directSubclasses_iff
  rw [← hlists, ← (g.depthFirst_subclasses name).mem_iff, List.mem_cons]
  constructor
  · intro hother
    refine ⟨?_, .inr hother⟩
    rintro rfl
    exact (g.nodup_allSubclasses other).1 hother
  · rintro ⟨hne, hsame | hother⟩
    · exact absurd hsame hne
    · exact hother

theorem exists_lists_before {g : Graph} {name sub : String} {before after : List String}
    (h : g.allSubclasses name = before ++ sub :: after) :
    ∃ parent ∈ name :: before, g.Lists parent sub := by
  have hsub : (name :: g.allSubclasses name)[before.length + 1]? = some sub := by
    rw [h]
    simp
  rcases (g.depthFirst_subclasses name).led_to hsub (Nat.zero_le _) with
    hstart | ⟨j, hj, parent, hparent, hnext⟩
  · -- the start is visited first, and does not come again below itself
    rw [List.mem_singleton] at hstart
    have hmem : sub ∈ g.allSubclasses name := by
      rw [h]
      simp
    rw [hstart] at hmem
    exact absurd hmem (g.nodup_allSubclasses name).1
  · refine ⟨parent, ?_, mem_directSubclasses_iff.mp hnext⟩
    rw [h, ← List.cons_append, List.getElem?_append_left (by simpa using hj)] at hparent
    exact List.mem_of_getElem? hparent

theorem parent?_eq (g : Graph) (name : String) :
    g.parent? name = (g.classes.get? name).bind fun c =>
      (c.superclass.filter (· ≠ "")).map fun written =>
        ((g.resolveSuperclass c).filter (· ≠ "")).getD written := by
  unfold parent?
  cases g.classes.get? name with
  | none => rfl
  | some c =>
    simp only [Option.bind_eq_bind, Option.bind_some]
    cases c.superclass with
    | none => rfl
    | some written =>
      by_cases hempty : written = ""
      · simp [hempty, Option.filter]
      · cases g.resolveSuperclass c with
        | none => simp [hempty, Option.filter]
        | some s => by_cases hs : s = "" <;> simp [hempty, hs, Option.filter]

theorem parent?_eq_some_iff {g : Graph} {name parent : String} :
    g.parent? name = some parent ↔ g.Extends name parent := by
  rw [parent?_eq]
  simp only [Option.bind_eq_some_iff, Option.map_eq_some_iff, Option.filter_eq_some_iff,
    decide_eq_true_eq, Extends]
  constructor
  · rintro ⟨c, hc, written, ⟨hwritten, hne⟩, rfl⟩
    exact ⟨c, written, hc, hwritten, hne, rfl⟩
  · rintro ⟨c, written, hc, hwritten, hne, rfl⟩
    exact ⟨c, hc, written, ⟨hwritten, hne⟩, rfl⟩

theorem exists_extends {g : Graph} {name : String} {c : ClassInfo}
    (hc : g.classes.get? name = some c) (hsuper : c.hasSuperclass = true) :
    ∃ parent, g.Extends name parent := by
  obtain ⟨written, hwritten, hne⟩ := (Option.any_eq_true _ _).mp hsuper
  exact ⟨_, c, written, hc, hwritten, by simpa using hne, rfl⟩

theorem depthFirst_chain (g : Graph) {name : String} (hname : name ≠ "") :
    DepthFirst (fun c => (g.parent? c).toList) [] [name] (g.inheritanceChain name) := by
  rw [inheritanceChain, if_neg (by simpa using hname)]
  apply depthFirst_walk
  intro other hother
  have hnone : g.parent? other = none := by
    rw [parent?, OrderedMap.get?_eq_none_iff.mpr hother]
    rfl
  rw [hnone]
  rfl

theorem isChain_inheritanceChain (g : Graph) {name : String} (hname : name ≠ "") :
    (g.inheritanceChain name).IsChain g.Extends := by
  have hstep : (fun a b => b ∈ (g.parent? a).toList) = g.Extends := by
    funext a b
    rw [Option.mem_toList, parent?_eq_some_iff]
  rw [← hstep]
  apply (g.depthFirst_chain hname).isChain
  · intro other
    cases g.parent? other <;> simp
  · simp
  · exact .singleton name

theorem mem_chain_of_extends (g : Graph) {name other parent : String} (hname : name ≠ "")
    (hother : other ∈ g.inheritanceChain name) (hparent : g.Extends other parent) :
    parent ∈ g.inheritanceChain name := by
  apply (g.depthFirst_chain hname).closed other hother List.not_mem_nil
  rw [Option.mem_toList]
  exact parent?_eq_some_iff.mpr hparent

theorem getElem?_one_chain_iff (g : Graph) {name parent : String} (hname : name ≠ "") :
    (g.inheritanceChain name)[1]? = some parent ↔ g.Extends name parent ∧ parent ≠ name := by
  have hvisit := g.depthFirst_chain hname
  have hchain := g.isChain_inheritanceChain hname
  have hnodup := hvisit.nodup List.nodup_nil
  have hclosed (hparent : g.Extends name parent) : parent ∈ g.inheritanceChain name :=
    g.mem_chain_of_extends hname (hvisit.subset.2 List.mem_cons_self) hparent
  obtain ⟨rest, hrest⟩ := List.head?_eq_some_iff.mp hvisit.head?
  rw [hrest] at hchain hnodup hclosed ⊢
  cases rest with
  | nil =>
    refine iff_of_false (by simp) ?_
    rintro ⟨hparent, hne⟩
    exact hne (List.mem_singleton.mp (hclosed hparent))
  | cons second more =>
    have hsecond : g.Extends name second := (List.isChain_cons_cons.mp hchain).1
    have hne : second ≠ name := by
      rintro rfl
      exact (List.nodup_cons.mp hnodup).1 List.mem_cons_self
    rw [List.getElem?_cons_succ, List.getElem?_cons_zero, Option.some.injEq]
    constructor
    · rintro rfl
      exact ⟨hsecond, hne⟩
    · rintro ⟨hparent, -⟩
      rw [← parent?_eq_some_iff] at hsecond hparent
      exact Option.some.inj (hsecond.symm.trans hparent)

theorem chain_ends {g : Graph} {name last : String} (hname : name ≠ "")
    (hlast : last ∈ g.inheritanceChain name) :
    g.classes.get? last = none ∨
      (∃ c, g.classes.get? last = some c ∧ c.hasSuperclass = false) ∨
      ∃ parent ∈ g.inheritanceChain name, g.Extends last parent := by
  cases hget : g.classes.get? last with
  | none => exact .inl rfl
  | some c =>
    refine .inr ?_
    cases hsuper : c.hasSuperclass with
    | false => exact .inl ⟨c, rfl, hsuper⟩
    | true =>
      obtain ⟨parent, hparent⟩ := exists_extends hget hsuper
      exact .inr ⟨parent, g.mem_chain_of_extends hname hlast hparent, hparent⟩

/-- Below a class stand just the other names that can be reached through the lists of stored classes,
each once, in depth-first order and so behind a class that lists it. Above it stands a line of
different names, each extended by the one before, which ends where nothing is stored or extended, or
where the next name stands in the line already. -/
theorem hierarchy_walks_exact (g : Graph) (name : String) :
    let below := g.allSubclasses name
    let chain := g.inheritanceChain name
    (below.Nodup ∧ name ∉ below ∧
      (∀ other, other ∈ below ↔ other ≠ name ∧ Relation.ReflTransGen g.Lists name other) ∧
      DepthFirst g.directSubclasses [] [name] (name :: below) ∧
      ∀ before sub after, below = before ++ sub :: after →
        ∃ parent ∈ name :: before, g.Lists parent sub) ∧
    chain.Nodup ∧ chain.head? = (if name = "" then none else some name) ∧
      chain.IsChain g.Extends ∧
      ∀ before last, chain = before ++ [last] →
        g.classes.get? last = none ∨
        (∃ c, g.classes.get? last = some c ∧ c.hasSuperclass = false) ∨
        ∃ parent ∈ chain, g.Extends last parent := by
  intro below chain
  constructor
  · obtain ⟨hnot, hnodup⟩ := g.nodup_allSubclasses name
    refine ⟨hnodup, hnot, fun _ => mem_allSubclasses_iff, g.depthFirst_subclasses name, ?_⟩
    intro before sub after hbelow
    exact exists_lists_before hbelow
  · by_cases hname : name = ""
    · have hchain : chain = [] := by
        subst hname
        rfl
      rw [hchain]
      simp [hname]
    · have hvisit := g.depthFirst_chain hname
      refine ⟨hvisit.nodup List.nodup_nil, ?_, g.isChain_inheritanceChain hname, ?_⟩
      · rw [if_neg hname]
        exact hvisit.head?
      · intro before last hchain
        apply chain_ends hname
        change last ∈ chain
        rw [hchain]
        simp

end CodeAtlas.Graph
