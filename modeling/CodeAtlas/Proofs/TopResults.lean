import CodeAtlas.Proofs.Confidence
import CodeAtlas.Search.Engine

namespace CodeAtlas

theorem Confidence.isNaN_of_le_self {x : Float} (h : x ≤ x) : x.isNaN = false := by
  have hle : (x.toModel.unpack.compare x.toModel.unpack).any Ordering.isLE = true := of_decide_eq_true h
  rw [Float.isNaN, Float.Model.isNaN]
  cases hx : x.toModel.unpack with
  | notANumber =>
    rw [hx] at hle
    cases hle
  | _ => rfl

namespace Search

def ties (a b : Result) : Bool := a.score ≤ b.score && b.score ≤ a.score

def Comparable (results : List Result) : Prop :=
  ∀ a ∈ results, ∀ b ∈ results, a.score ≤ b.score ∨ b.score ≤ a.score

/-- The same results by descending score, those with equal scores in the order they had. -/
structure Ranks (results sorted : List Result) : Prop where
  perm : sorted.Perm results
  descending : sorted.Pairwise fun a b => b.score ≤ a.score
  stable : ∀ r ∈ results, sorted.filter (ties r) = results.filter (ties r)

theorem ties_iff {a b : Result} : ties a b = true ↔ a.score ≤ b.score ∧ b.score ≤ a.score := by
  rw [ties, Bool.and_eq_true, decide_eq_true_iff, decide_eq_true_iff]

namespace Comparable

open Confidence

variable {results : List Result} (h : Comparable results)
include h

theorem isNaN {r : Result} (hr : r ∈ results) : r.score.isNaN = false :=
  isNaN_of_le_self ((h r hr r hr).elim id id)

theorem ties_self {r : Result} (hr : r ∈ results) : ties r r = true :=
  ties_iff.mpr ((h r hr r hr).elim (fun hle => ⟨hle, hle⟩) fun hle => ⟨hle, hle⟩)

theorem le_iff {a b : Result} (ha : a ∈ results) (hb : b ∈ results) :
    a.score ≤ b.score ↔ place a.score ≤ place b.score :=
  Confidence.le_iff (h.isNaN ha) (h.isNaN hb)

theorem not_lt_of_le {a b : Result} (ha : a ∈ results) (hb : b ∈ results) (hle : a.score ≤ b.score) :
    ¬b.score < a.score := by
  rw [Confidence.lt_iff (h.isNaN hb) (h.isNaN ha), not_lt]
  exact (h.le_iff ha hb).mp hle

theorem ranked_eq : ranked results = results.mergeSort fun a b => place b.score ≤ place a.score := by
  have hself : (results.all fun r => decide (r.score ≤ r.score)) = true :=
    List.all_eq_true.mpr fun r hr => decide_eq_true ((h r hr r hr).elim id id)
  have hsame : ∀ a ∈ results, ∀ b ∈ results,
      decide (b.score ≤ a.score) = decide (place (id b).score ≤ place (id a).score) :=
    fun a ha b hb => decide_eq_decide.mpr (h.le_iff hb ha)
  have hsorted := List.map_mergeSort (s := fun a b : Result => place b.score ≤ place a.score) hsame
  rw [ranked, if_pos hself]
  rwa [List.map_id, List.map_id] at hsorted

theorem ranks_ranked : Ranks results (ranked results) := by
  have htrans : ∀ a b c : Result, decide (place b.score ≤ place a.score) = true →
      decide (place c.score ≤ place b.score) = true → decide (place c.score ≤ place a.score) = true := by
    intro a b c hab hbc
    exact decide_eq_true ((of_decide_eq_true hbc).trans (of_decide_eq_true hab))
  have htotal : ∀ a b : Result,
      (decide (place b.score ≤ place a.score) || decide (place a.score ≤ place b.score)) = true := by
    intro a b
    simpa using le_total (place b.score) (place a.score)
  have hperm : (ranked results).Perm results := ranked_perm results
  refine ⟨hperm, ?_, ?_⟩
  · have hsorted := List.pairwise_mergeSort htrans htotal results
    rw [← h.ranked_eq] at hsorted
    exact hsorted.imp_of_mem fun ha hb hle =>
      (h.le_iff (hperm.mem_iff.mp hb) (hperm.mem_iff.mp ha)).mpr (of_decide_eq_true hle)
  · intro r hr
    -- Those that tie with one result are in order already, so that sorting keeps them as they stand.
    have htied : (results.filter (ties r)).Pairwise fun a b => decide (place b.score ≤ place a.score) = true := by
      apply List.pairwise_of_forall_mem_list
      intro a ha b hb
      obtain ⟨hmem, hle⟩ := List.mem_filter.mp ha
      obtain ⟨hmem', hle'⟩ := List.mem_filter.mp hb
      exact decide_eq_true (((h.le_iff hmem' hr).mp (ties_iff.mp hle').2).trans
        ((h.le_iff hr hmem).mp (ties_iff.mp hle).1))
    have hsublist := (List.sublist_mergeSort htrans htotal htied List.filter_sublist).filter (ties r)
    rw [← h.ranked_eq, List.filter_filter] at hsublist
    simp only [Bool.and_self] at hsublist
    exact (hsublist.eq_of_length (hperm.filter _).length_eq.symm).symm

end Comparable

theorem eq_head_of_ranks {a b : Result} {first second : List Result}
    (hperm : (a :: first).Perm (b :: second)) (hself : ties a a = true)
    (hfirst : ∀ c ∈ first, c.score ≤ a.score) (hsecond : ∀ c ∈ second, c.score ≤ b.score)
    (hstable : (a :: first).filter (ties a) = (b :: second).filter (ties a)) : a = b := by
  rcases List.mem_cons.mp (hperm.mem_iff.mp List.mem_cons_self) with heq | ha
  · exact heq
  rcases List.mem_cons.mp (hperm.mem_iff.mpr List.mem_cons_self) with heq | hb
  · exact heq.symm
  have htied : ties a b = true := ties_iff.mpr ⟨hsecond a ha, hfirst b hb⟩
  rw [List.filter_cons_of_pos hself, List.filter_cons_of_pos htied] at hstable
  exact (List.cons.inj hstable).1

theorem Ranks.unique {results first second : List Result} (hself : ∀ r ∈ results, ties r r = true)
    (hfirst : Ranks results first) (hsecond : Ranks results second) : first = second := by
  have hperm := hfirst.perm.trans hsecond.perm.symm
  have hstable : ∀ r ∈ first, first.filter (ties r) = second.filter (ties r) := by
    intro r hr
    have hr := hfirst.perm.mem_iff.mp hr
    rw [hfirst.stable r hr, hsecond.stable r hr]
  replace hself : ∀ r ∈ first, ties r r = true := fun r hr => hself r (hfirst.perm.mem_iff.mp hr)
  replace hfirst := hfirst.descending
  replace hsecond := hsecond.descending
  clear results
  induction first generalizing second with
  | nil => exact hperm.nil_eq
  | cons a first ih =>
    cases second with
    | nil => exact absurd hperm.symm.nil_eq (List.cons_ne_nil _ _).symm
    | cons b second =>
      obtain ⟨hbehind, htail⟩ := List.pairwise_cons.mp hfirst
      obtain ⟨hbehind', htail'⟩ := List.pairwise_cons.mp hsecond
      obtain ⟨haa, hselves⟩ := List.forall_mem_cons.mp hself
      obtain rfl := eq_head_of_ranks hperm haa hbehind hbehind' (hstable a List.mem_cons_self)
      rw [ih hperm.cons_inv ?_ hselves htail htail']
      intro r hr
      have hrest := hstable r (List.mem_cons_of_mem a hr)
      rw [List.filter_cons, List.filter_cons] at hrest
      split at hrest
      · exact (List.cons.inj hrest).2
      · exact hrest

namespace Engine

def matching (e : Engine) (g : Graph) (now : Float) (query : String) (ctx : Context) : List Result :=
  e.all.filterMap (e.score? g now ctx query)

def wanted (e : Engine) : Option Int → Int
  | none => e.config.limit
  | some n => max n 0

theorem symbol_of_score? {e : Engine} {g : Graph} {now : Float} {ctx : Context} {query : String} (s : Symbol) :
    (e.score? g now ctx query s).map Rated.symbol = if (tier? s.name query).isSome then some s else none := by
  unfold score? rate?
  cases tier? s.name query <;> rfl

theorem symbols_matching (e : Engine) (g : Graph) (now : Float) (query : String) (ctx : Context) :
    (e.matching g now query ctx).map Rated.symbol = e.all.filter fun s => (tier? s.name query).isSome := by
  rw [matching, List.map_filterMap, ← List.filterMap_eq_filter]
  congr 1
  funext s
  rw [symbol_of_score?]
  rfl

theorem search_eq_take (e : Engine) (g : Graph) (now : Float) (query : String) (ctx : Context)
    (limit : Option Int) : (e.search g now query ctx limit).1 =
      (ranked (e.matching g now query ctx)).take (e.wanted limit).toNat := by
  cases limit with
  | none => rfl
  | some n =>
    have hlimit : (max n 0).toNat = n.toNat := by omega
    rw [wanted, hlimit]
    rfl

end Engine

/-- A search returns the best of what matches: the first matches by descending score, and where scores are
equal in the order of the index. -/
theorem search_returns_best (e : Engine) (g : Graph) (now : Float) (query : String) (ctx : Context)
    (h : Comparable (e.matching g now query ctx)) :
    let matching := e.matching g now query ctx
    let found := fun limit => (e.search g now query ctx limit).1
    matching.map Rated.symbol = e.all.filter (fun s => (tier? s.name query).isSome) ∧
    ∃ sorted, (∀ other, Ranks matching other ↔ other = sorted) ∧
      ∀ limit,
        let n := min (e.wanted limit).toNat matching.length
        found limit = sorted.take n ∧
        (∀ r ∈ found limit, ∀ m ∈ sorted.drop n, ¬r.score < m.score) ∧
        (∀ r ∈ matching, (found limit).filter (ties r) <+: matching.filter (ties r)) ∧
        ∀ limit', e.wanted limit ≤ e.wanted limit' → found limit <+: found limit' := by
  intro matching found
  have hranks : Ranks matching (ranked matching) := h.ranks_ranked
  have hfound (limit : Option Int) : found limit = (ranked matching).take (e.wanted limit).toNat :=
    e.search_eq_take g now query ctx limit
  have hmem {r : Result} : r ∈ ranked matching ↔ r ∈ matching := hranks.perm.mem_iff
  refine ⟨e.symbols_matching g now query ctx, ranked matching, ?_, fun limit => ?_⟩
  · intro other
    constructor
    · exact fun hother => hother.unique (fun r hr => h.ties_self hr) hranks
    · rintro rfl
      exact hranks
  intro n
  have htake : found limit = (ranked matching).take n := by
    rw [hfound, List.take_eq_take_min, hranks.perm.length_eq]
  refine ⟨htake, ?_, ?_, ?_⟩
  · intro r hr m hm
    rw [htake] at hr
    have hdescending := hranks.descending
    rw [← List.take_append_drop n (ranked matching), List.pairwise_append] at hdescending
    exact h.not_lt_of_le (hmem.mp (List.mem_of_mem_drop hm)) (hmem.mp (List.mem_of_mem_take hr))
      (hdescending.2.2 r hr m hm)
  · intro r hr
    rw [← hranks.stable r hr, htake]
    exact (List.take_prefix n _).filter _
  · intro limit' hle
    rw [hfound, hfound]
    exact List.take_prefix_take_left (Int.toNat_le_toNat hle)

def namesakes : Engine :=
  { symbols := ((∅ : OrderedMap String (List Symbol)).insert "/ws/a.rb"
      [⟨"Users", .classKind, ⟨"/ws/a.rb", 0, 0⟩, none⟩, ⟨"User", .classKind, ⟨"/ws/a.rb", 4, 0⟩, none⟩]).insert
      "/ws/b.rb" [⟨"User", .moduleKind, ⟨"/ws/b.rb", 0, 0⟩, none⟩, ⟨"Post", .classKind, ⟨"/ws/b.rb", 2, 0⟩, none⟩] }

theorem search_returns_best_namesakes :
    let matching := namesakes.matching .empty 0 "user" {}
    let found := fun limit => (namesakes.search .empty 0 "user" {} limit).1
    Comparable matching ∧
    matching.map (fun r => (r.symbol.name, r.score)) = [("Users", 295), ("User", 420), ("User", 420)] ∧
    (∃ sorted, Ranks matching sorted ∧ found (some 2) = sorted.take 2) ∧ found (some 2) <+: found none := by
  intro matching found
  have hcomparable : Comparable matching := by
    unfold Comparable
    decide +kernel
  have hlength : matching.length = 3 := by decide
  obtain ⟨-, sorted, hsorted, hfound⟩ := search_returns_best namesakes .empty 0 "user" {} hcomparable
  obtain ⟨htake, -, -, hprefix⟩ := hfound (some 2)
  rw [show namesakes.matching .empty 0 "user" {} = matching from rfl, hlength] at htake
  exact ⟨hcomparable, by decide +kernel, ⟨sorted, (hsorted sorted).mpr rfl, htake⟩,
    hprefix none (by decide)⟩

end Search

end CodeAtlas
