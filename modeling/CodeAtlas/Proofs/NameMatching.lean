import CodeAtlas.Proofs.TopResults

namespace CodeAtlas.Search

open Text

inductive Answers (query name : List Char) : Tier → Prop where
  | whole (h : query = name) : Answers query name .exact
  | front (h : query <+: name) (hne : query ≠ name) : Answers query name .start
  | inside (h : query <:+: name) (hnot : ¬query <+: name) : Answers query name .substring
  | apart (h : query.Sublist name) (hnot : ¬query <:+: name) : Answers query name .fuzzy

namespace Answers

variable {query name : List Char} {t t' : Tier}

theorem sublist (h : Answers query name t) : query.Sublist name := by
  cases h with
  | whole h => exact h ▸ List.Sublist.refl _
  | front h => exact h.sublist
  | inside h => exact h.sublist
  | apart h => exact h

theorem unique (h : Answers query name t) (h' : Answers query name t') : t = t' := by
  have hrefl : query = name → query <+: name := fun heq => heq ▸ List.prefix_refl _
  cases h <;> cases h' <;> grind [List.IsPrefix.isInfix]

end Answers

theorem answers_of_tier? {name query : String} {t : Tier} (h : tier? name query = some t) :
    Answers (lower query.toList) (lower name.toList) t := by
  unfold tier? at h
  dsimp only at h
  split at h
  · next heq =>
    cases h
    exact .whole heq.symm
  next hne =>
  split at h
  · next hfront =>
    cases h
    exact .front (List.isPrefixOf_iff_prefix.mp hfront) (Ne.symm hne)
  next hfront =>
  rw [List.isPrefixOf_iff_prefix] at hfront
  split at h
  · next hinside =>
    cases h
    exact .inside (occursIn_iff.mp hinside) hfront
  next hinside =>
  rw [occursIn_iff] at hinside
  split at h
  · next happart =>
    cases h
    exact .apart (isSubsequence_iff.mp happart) hinside
  · cases h

theorem tier?_isSome_iff {name query : String} :
    (tier? name query).isSome ↔ (lower query.toList).Sublist (lower name.toList) := by
  constructor
  · intro h
    obtain ⟨t, ht⟩ := Option.isSome_iff_exists.mp h
    exact (answers_of_tier? ht).sublist
  · intro h
    unfold tier?
    simp only [isSubsequence_iff.mpr h, if_true]
    repeat' split
    all_goals rfl

theorem tier?_eq_some_iff {name query : String} {t : Tier} :
    tier? name query = some t ↔ Answers (lower query.toList) (lower name.toList) t := by
  constructor
  · exact answers_of_tier?
  · intro h
    obtain ⟨t', ht'⟩ := Option.isSome_iff_exists.mp (tier?_isSome_iff.mpr h.sublist)
    rw [ht', (answers_of_tier? ht').unique h]

namespace Engine

variable (e : Engine) (g : Graph) (now : Float) (query : String) (ctx : Context)

theorem reasons_of_mem_matching {r : Result} (h : r ∈ e.matching g now query ctx) :
    ∃ t, tier? r.symbol.name query = some t ∧ r.reasons.head?.map Reason.factor = some t.factor := by
  obtain ⟨s, -, hs⟩ := List.mem_filterMap.mp h
  obtain ⟨t, ht, rfl⟩ := Option.map_eq_some_iff.mp hs
  exact ⟨t, ht, rfl⟩

theorem mem_matching_of_mem_search {limit : Option Int} {r : Result}
    (h : r ∈ (e.search g now query ctx limit).1) : r ∈ e.matching g now query ctx := by
  rw [search_eq_take] at h
  exact (ranked_perm _).mem_iff.mp (List.mem_of_mem_take h)

theorem symbols_search {limit : Option Int} (h : e.count ≤ (e.wanted limit).toNat) :
    ((e.search g now query ctx limit).1.map Rated.symbol).Perm
      (e.all.filter fun s => (tier? s.name query).isSome) := by
  have hlength : (ranked (e.matching g now query ctx)).length ≤ (e.wanted limit).toNat := by
    have hmatching : (e.matching g now query ctx).length ≤ e.all.length := List.length_filterMap_le _ _
    rw [(ranked_perm _).length_eq]
    exact hmatching.trans h
  rw [search_eq_take, List.take_of_length_le hlength, ← symbols_matching e g now query ctx]
  exact (ranked_perm _).map _

end Engine

theorem Tier.factor_injective : Function.Injective Tier.factor := by
  intro t t' h
  cases t <;> cases t' <;> simp [factor] at h ⊢

/-- A search finds the symbols in whose names the characters of the query occur in order, and the first
reason of a result is how the name answers the query. -/
theorem search_finds_subsequences (e : Engine) (g : Graph) (now : Float) (query : String) (ctx : Context)
    (limit : Option Int) :
    let asked := lower query.toList
    let found := (e.search g now query ctx limit).1
    (e.count ≤ (e.wanted limit).toNat →
      (found.map Rated.symbol).Perm (e.all.filter fun s => asked.Sublist (lower s.name.toList))) ∧
    (∀ r ∈ found, ∀ t : Tier, r.reasons.head?.map Reason.factor = some t.factor ↔
      Answers asked (lower r.symbol.name.toList) t) ∧
    ∀ text pattern : String,
      fuzzyMatch text pattern = true ↔ (lower pattern.toList).Sublist (lower text.toList) := by
  intro asked found
  refine ⟨?_, ?_, fun text pattern => isSubsequence_iff⟩
  · intro hlimit
    have hsame : (fun s : Symbol => (tier? s.name query).isSome) =
        fun s => decide (asked.Sublist (lower s.name.toList)) := by
      funext s
      exact Bool.eq_iff_iff.mpr (tier?_isSome_iff.trans decide_eq_true_iff.symm)
    rw [← hsame]
    exact e.symbols_search g now query ctx hlimit
  · intro r hr t
    obtain ⟨t', ht', hfactor⟩ := e.reasons_of_mem_matching g now query ctx
      (e.mem_matching_of_mem_search g now query ctx hr)
    rw [hfactor, Option.some_inj, ← tier?_eq_some_iff, ht', Option.some_inj]
    exact Tier.factor_injective.eq_iff

def classAt (line : Nat) (name : String) : Symbol := ⟨name, .classKind, ⟨"/ws/a.rb", line, 0⟩, none⟩

def titles : Engine :=
  { symbols := (∅ : OrderedMap String (List Symbol)).insert "/ws/a.rb"
      (["UltraSecretReport", "AdminUser", "UserProfile", "User", "Post"].map (classAt 0)) }

theorem search_finds_subsequences_titles :
    let found := (titles.search .empty 0 "user" {} none).1
    titles.count ≤ (titles.wanted none).toNat ∧
    (found.map Rated.symbol).Perm (titles.all.take 4) ∧
    ∀ r ∈ found, r.symbol.name = "AdminUser" →
      r.reasons.head?.map Reason.factor = some .substringMatch := by
  intro found
  have hcount : titles.count ≤ (titles.wanted none).toNat := by decide
  obtain ⟨hsymbols, hreasons, -⟩ := search_finds_subsequences titles .empty 0 "user" {} none
  have hmatching : titles.all.filter (fun s => (lower "user".toList).Sublist (lower s.name.toList)) =
      titles.all.take 4 := by decide
  refine ⟨hcount, hmatching ▸ hsymbols hcount, fun r hr hname => ?_⟩
  apply (hreasons r hr .substring).mpr
  rw [hname]
  exact .inside (by decide +kernel) (by decide +kernel)

end CodeAtlas.Search
