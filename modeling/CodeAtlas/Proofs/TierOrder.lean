import CodeAtlas.Search.Engine
import Mathlib.Algebra.Order.Field.Rat
import Mathlib.Tactic.Linarith
import Mathlib.Tactic.Positivity
import Mathlib.Tactic.Ring

/-!
Tiers and bonuses, in exact numbers. Where no bonus weight is negative, the spacing that is asked of
the weights puts every symbol of a better tier before every symbol of a worse one, whatever bonuses
either of them gets. The spacing is asked of the sum of the bonus weights, and negative ones that
bring the sum down are never taken off a score; so with them a worse tier can come first.
-/

namespace CodeAtlas

open Config

namespace Search

def Tier.rank : Tier → Nat
  | .exact => 0
  | .start => 1
  | .substring => 2
  | .fuzzy => 3

end Search

structure Config.Weights.NonnegBonuses (w : Weights ℚ) : Prop where
  usageFrequency : 0 ≤ w.usageFrequency
  recency : 0 ≤ w.recency
  contextMatch : 0 ≤ w.contextMatch
  projectCode : 0 ≤ w.projectCode
  fileTypeMatch : 0 ≤ w.fileTypeMatch
  scopeMatch : 0 ≤ w.scopeMatch

namespace Search

variable {w : Weights ℚ}

theorem foldl_add (l : List ℚ) (a : ℚ) : l.foldl (· + ·) a = a + l.foldl (· + ·) 0 := by
  induction l generalizing a with
  | nil => simp
  | cons b l ih =>
    rw [List.foldl_cons, List.foldl_cons, ih (a + b), ih (0 + b)]
    ring

theorem total_cons (r : Reason ℚ) (rs : List (Reason ℚ)) : total (r :: rs) = r.weight + total rs := by
  rw [total, List.map_cons, List.foldl_cons, foldl_add, zero_add]
  rfl

theorem total_filter_cons (r : Reason ℚ) (rs : List (Reason ℚ)) :
    total ((r :: rs).filter fun r => 0 < r.weight) =
      max r.weight 0 + total (rs.filter fun r => 0 < r.weight) := by
  by_cases h : 0 < r.weight
  · rw [List.filter_cons_of_pos (by simpa using h), total_cons, max_eq_left h.le]
  · rw [List.filter_cons_of_neg (by simpa using h), max_eq_right (not_lt.mp h), zero_add]

theorem total_bonuses (w : Weights ℚ) (s : Signals ℚ) :
    total (bonuses w s) =
      max (s.usage * w.usageFrequency) 0 + max (s.recency * w.recency) 0 +
        max (s.context * w.contextMatch) 0 + max (if s.projectCode then w.projectCode else 0) 0 +
        max (if s.fileType then w.fileTypeMatch else 0) 0 +
        max (if s.scope then w.scopeMatch else 0) 0 := by
  have hnil : total ([].filter fun r : Reason ℚ => 0 < r.weight) = 0 := rfl
  rw [bonuses]
  simp only [total_filter_cons, hnil]
  ring

theorem share_bonus_le {share weight : ℚ} (hshare : 0 ≤ share ∧ share ≤ 1) (hweight : 0 ≤ weight) :
    max (share * weight) 0 ≤ weight := by
  apply max_le _ hweight
  calc share * weight ≤ 1 * weight := mul_le_mul_of_nonneg_right hshare.2 hweight
    _ = weight := one_mul weight

theorem flag_bonus_le (flag : Bool) {weight : ℚ} (hweight : 0 ≤ weight) :
    max (if flag then weight else 0) 0 ≤ weight := by
  cases flag <;> simp [hweight]

structure Signals.Proper (s : Signals ℚ) : Prop where
  usage : 0 ≤ s.usage ∧ s.usage ≤ 1
  recency : 0 ≤ s.recency ∧ s.recency ≤ 1
  context : 0 ≤ s.context ∧ s.context ≤ 1

theorem total_bonuses_nonneg (w : Weights ℚ) (s : Signals ℚ) : 0 ≤ total (bonuses w s) := by
  rw [total_bonuses]
  positivity

theorem total_bonuses_le (hw : w.NonnegBonuses) {s : Signals ℚ} (hs : s.Proper) :
    total (bonuses w s) ≤ w.maxBonus := by
  have husage := share_bonus_le hs.usage hw.usageFrequency
  have hrecency := share_bonus_le hs.recency hw.recency
  have hcontext := share_bonus_le hs.context hw.contextMatch
  have hproject := flag_bonus_le s.projectCode hw.projectCode
  have htype := flag_bonus_le s.fileType hw.fileTypeMatch
  have hscope := flag_bonus_le s.scope hw.scopeMatch
  rw [total_bonuses, Weights.maxBonus]
  linarith

theorem sum_tenths_proper {shares : List Nat} (h : ∀ n ∈ shares, n ≤ 10) :
    let sum : ℚ := (shares.map fun (n : Nat) => (n : ℚ) / ((10 : Nat) : ℚ)).foldl (· + ·) 0
    0 ≤ sum ∧ sum ≤ shares.length := by
  induction shares with
  | nil => simp
  | cons n shares ih =>
    obtain ⟨hlow, hhigh⟩ := ih fun m hm => h m (List.mem_cons_of_mem n hm)
    have hn : (n : ℚ) ≤ 10 := by exact_mod_cast h n List.mem_cons_self
    have hn0 : (0 : ℚ) ≤ n := Nat.cast_nonneg n
    have hshare : (0 : ℚ) ≤ (n : ℚ) / ((10 : Nat) : ℚ) ∧ (n : ℚ) / ((10 : Nat) : ℚ) ≤ 1 := by
      push_cast
      constructor <;> linarith
    dsimp only
    rw [List.map_cons, List.foldl_cons, foldl_add, List.length_cons, Nat.cast_add, Nat.cast_one]
    constructor <;> linarith

theorem meanOfTenths_proper {shares : List Nat} (h : ∀ n ∈ shares, n ≤ 10) :
    0 ≤ (meanOfTenths shares : ℚ) ∧ (meanOfTenths shares : ℚ) ≤ 1 := by
  obtain ⟨hlow, hhigh⟩ := sum_tenths_proper h
  rw [meanOfTenths]
  split
  · simp
  · next hne =>
    have hpos : (0 : ℚ) < shares.length := by
      exact_mod_cast List.length_pos_iff.mpr (by simpa using hne)
    exact ⟨div_nonneg hlow hpos.le, (div_le_one hpos).mpr hhigh⟩

theorem contextShares_le (g : Graph) (ctx : Context) (s : Symbol) :
    ∀ n ∈ contextShares g ctx s, n ≤ 10 := by
  intro n hn
  simp only [contextShares, List.mem_append, List.mem_ite_nil_right, List.mem_singleton] at hn
  omega

theorem signals_proper (g : Graph) (ctx : Context) (s : Symbol) {usage recency : ℚ}
    (husage : 0 ≤ usage ∧ usage ≤ 1) (hrecency : 0 ≤ recency ∧ recency ≤ 1) :
    (signals g ctx s usage recency).Proper :=
  ⟨husage, hrecency, meanOfTenths_proper (contextShares_le g ctx s)⟩

theorem tierWeight_lt (hspaced : w.spaced = true) (hmax : 0 ≤ w.maxBonus) {better worse : Tier}
    (h : better.rank < worse.rank) : tierWeight w worse + w.maxBonus < tierWeight w better := by
  simp only [Weights.spaced, Weights.gaps, List.all_cons, List.all_nil, Bool.and_true,
    Bool.and_eq_true, Bool.not_eq_true', decide_eq_false_iff_not, not_le] at hspaced
  obtain ⟨hexact, hstart, hsubstring⟩ := hspaced
  -- `h` rules out all pairs but the six in which the second tier is worse
  cases better <;> cases worse <;> simp [Tier.rank] at h <;> simp only [tierWeight] <;> linarith

theorem score_lt (hspaced : w.spaced = true) (hw : w.NonnegBonuses) {better worse : Tier}
    (h : better.rank < worse.rank) (s : Signals ℚ) {t : Signals ℚ} (ht : t.Proper) :
    total (reasons w worse t) < total (reasons w better s) := by
  have hmax : 0 ≤ w.maxBonus := (total_bonuses_nonneg w t).trans (total_bonuses_le hw ht)
  rw [reasons, reasons, total_cons, total_cons]
  calc tierWeight w worse + total (bonuses w t)
      ≤ tierWeight w worse + w.maxBonus := by linarith [total_bonuses_le hw ht]
    _ < tierWeight w better := tierWeight_lt hspaced hmax h
    _ ≤ tierWeight w better + total (bonuses w s) := by linarith [total_bonuses_nonneg w s]

theorem pairwise_ranked (results : List (Rated ℚ)) :
    (ranked results).Pairwise fun a b => b.score ≤ a.score := by
  have hall : (results.all fun r => decide (r.score ≤ r.score)) = true := by simp
  rw [ranked, if_pos hall]
  have htrans : ∀ a b c : Rated ℚ, decide (b.score ≤ a.score) = true →
      decide (c.score ≤ b.score) = true → decide (c.score ≤ a.score) = true := by
    intro a b c hab hbc
    exact decide_eq_true ((of_decide_eq_true hbc).trans (of_decide_eq_true hab))
  have htotal : ∀ a b : Rated ℚ,
      (decide (b.score ≤ a.score) || decide (a.score ≤ b.score)) = true := by
    intro a b
    simpa using le_total b.score a.score
  exact (List.pairwise_mergeSort htrans htotal results).imp fun h => of_decide_eq_true h

theorem mem_ranked {results : List (Rated ℚ)} {r : Rated ℚ} (h : r ∈ ranked results) :
    r ∈ results :=
  (ranked_perm results).mem_iff.mp h

/-- A symbol of a better tier has the higher score, and stands before those of worse tiers. -/
theorem better_tier_outranks {w : Weights ℚ} (hspaced : w.spaced = true)
    (hbonuses : w.NonnegBonuses) (g : Graph) (ctx : Context) (query : String)
    {usage recency : Symbol → ℚ} (husage : ∀ s, 0 ≤ usage s ∧ usage s ≤ 1)
    (hrecency : ∀ s, 0 ≤ recency s ∧ recency s ≤ 1) (symbols : List Symbol) (limit : Nat) :
    let rated := fun s => rate? w g ctx query (usage s) (recency s) s
    (∀ s t better worse, tier? s.name query = some better → tier? t.name query = some worse →
      better.rank < worse.rank →
        ∃ a b, rated s = some a ∧ rated t = some b ∧ b.score < a.score) ∧
    ((ranked (symbols.filterMap rated)).take limit).Pairwise fun a b =>
      ∀ first second, tier? a.symbol.name query = some first →
        tier? b.symbol.name query = some second → first.rank ≤ second.rank := by
  intro rated
  have hproper (s : Symbol) : (signals g ctx s (usage s) (recency s)).Proper :=
    signals_proper g ctx s (husage s) (hrecency s)
  have hrated (s : Symbol) (tier : Tier) (h : tier? s.name query = some tier) :
      rated s = some ⟨s, total (reasons w tier (signals g ctx s (usage s) (recency s))),
        reasons w tier (signals g ctx s (usage s) (recency s))⟩ := by
    simp only [rated, rate?, h, Option.map_some]
  have hscores : ∀ s t better worse, tier? s.name query = some better →
      tier? t.name query = some worse → better.rank < worse.rank →
        ∃ a b, rated s = some a ∧ rated t = some b ∧ b.score < a.score := by
    intro s t better worse hs ht hrank
    exact ⟨_, _, hrated s better hs, hrated t worse ht,
      score_lt hspaced hbonuses hrank _ (hproper t)⟩
  -- a result is what its own symbol is rated
  have hown (r : Rated ℚ) (hr : r ∈ ranked (symbols.filterMap rated)) : rated r.symbol = some r := by
    obtain ⟨s, -, hs⟩ := List.mem_filterMap.mp (mem_ranked hr)
    have hsymbol : r.symbol = s := by
      simp only [rated, rate?, Option.map_eq_some_iff] at hs
      obtain ⟨tier, -, rfl⟩ := hs
      rfl
    rw [hsymbol, hs]
  refine ⟨hscores, List.Pairwise.sublist (List.take_sublist _ _) ?_⟩
  apply (pairwise_ranked (symbols.filterMap rated)).imp_of_mem
  intro a b ha hb hle first second hfirst hsecond
  by_contra hworse
  obtain ⟨b', a', hb', ha', hlt⟩ :=
    hscores b.symbol a.symbol second first hsecond hfirst (not_le.mp hworse)
  rw [hown b hb] at hb'
  rw [hown a ha] at ha'
  cases hb'
  cases ha'
  exact absurd hle (not_le.mpr hlt)

def defaultWeights : Weights ℚ :=
  { exactMatch := 400, prefixMatch := 275, substringMatch := 150, fuzzyMatch := 25
    usageFrequency := 20, recency := 15, contextMatch := 30, projectCode := 10
    fileTypeMatch := 20, scopeMatch := 10 }

def librarySymbol : Symbol := ⟨"User", .classKind, ⟨"/vendor/bundle/user.rb", 0, 0⟩, none⟩

def projectSymbol : Symbol := ⟨"Users", .classKind, ⟨"/app/users.rb", 0, 0⟩, none⟩

theorem better_tier_outranks_library :
    tier? "User" "user" = some .exact ∧ tier? "Users" "user" = some .start ∧
    ∃ a b, rate? defaultWeights .empty {} "user" 0 0 librarySymbol = some a ∧
      rate? defaultWeights .empty {} "user" 1 1 projectSymbol = some b ∧ b.score < a.score := by
  have hexact : tier? "User" "user" = some .exact := by decide
  have hstart : tier? "Users" "user" = some .start := by decide
  have hshare (s : Symbol) : 0 ≤ (if s = projectSymbol then 1 else 0 : ℚ) ∧
      (if s = projectSymbol then 1 else 0 : ℚ) ≤ 1 := by split <;> norm_num
  have hscores := (better_tier_outranks (w := defaultWeights) (by decide +kernel)
    ⟨by decide, by decide, by decide, by decide, by decide, by decide⟩ .empty {} "user"
    hshare hshare [] 0).1 librarySymbol projectSymbol .exact .start hexact hstart (by decide)
  exact ⟨hexact, hstart, hscores⟩

def offsetWeights : Weights ℚ :=
  { exactMatch := 40, prefixMatch := 30, substringMatch := 20, fuzzyMatch := 10
    usageFrequency := 0, recency := -50, contextMatch := 0, projectCode := 50
    fileTypeMatch := 0, scopeMatch := 0 }

theorem worse_tier_outranks :
    offsetWeights.spaced = true ∧
    tier? librarySymbol.name "User" = some .exact ∧ tier? projectSymbol.name "User" = some .start ∧
    (rate? offsetWeights .empty {} "User" 0 0 librarySymbol).map Rated.score = some 40 ∧
    (rate? offsetWeights .empty {} "User" 0 0 projectSymbol).map Rated.score = some 80 := by
  decide +kernel

end Search

end CodeAtlas
