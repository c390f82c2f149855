import CodeAtlas.Proofs.Confidence
import CodeAtlas.Proofs.Libraries

namespace CodeAtlas.Config

namespace Checked

variable {α β : Type}

def Gives (c : Checked α) (P : α → Prop) : Prop := c.refusals = [] → P c.value

theorem gives_pure {P : α → Prop} {a : α} (h : P a) : Gives (pure a) P := fun _ => h

theorem gives_any (c : Checked α) : c.Gives fun _ => True := fun _ => trivial

theorem Gives.bind {c : Checked α} {f : α → Checked β} {P : α → Prop} {Q : β → Prop}
    (hc : c.Gives P) (hf : ∀ a, P a → (f a).Gives Q) : (c >>= f).Gives Q := by
  intro h
  obtain ⟨hfirst, hsecond⟩ : c.refusals = [] ∧ (f c.value).refusals = [] :=
    List.append_eq_nil_iff.mp h
  exact hf c.value (hc hfirst) hsecond

theorem Gives.of_toExcept {c : Checked α} {P : α → Prop} (h : c.Gives P) {a : α}
    (ha : c.toExcept = .ok a) : P a := by
  unfold toExcept at ha
  split at ha
  · next hnone =>
    cases ha
    exact h (List.isEmpty_iff.mp hnone)
  · cases ha

end Checked

open Checked

section

variable {α : Type} {P : α → Prop} {default : α} {path : List String} {fields : Json.Fields}
  {name : String}

theorem gives_setting {read : Json → Except Cause α} (hdefault : P default)
    (hread : ∀ v a, read v = .ok a → P a) : (setting path fields name default read).Gives P := by
  unfold setting
  split
  · exact gives_pure hdefault
  · next v _ =>
    split
    · next a ha => exact gives_pure (hread v a ha)
    · exact fun hnone => nomatch hnone

theorem gives_group {read : List String → Json.Fields → Checked α} (hdefault : P default)
    (hread : ∀ path fields, (read path fields).Gives P) :
    (group path fields name default read).Gives P := by
  unfold group
  split
  · exact gives_pure hdefault
  · next inner _ => exact hread _ inner
  · exact fun hnone => nomatch hnone

end

structure Indexer.Bounded (s : Indexer) : Prop where
  batchSize : 1 ≤ s.batchSize
  timeoutSeconds : 0 < s.timeoutSeconds
  batchYieldSeconds : 0 ≤ s.batchYieldSeconds
  maxFileSizeKb : 1 ≤ s.maxFileSizeKb

structure Search.Bounded (s : Search) : Prop where
  limit : 1 ≤ s.limit
  popularAccessCount : 2 ≤ s.popularAccessCount
  recencyDecayHours : 0 < s.recencyDecayHours
  weights : s.weights.spaced = true

theorem Indexer.bounded_default : ({} : Indexer).Bounded :=
  ⟨by decide, by decide, by decide, by decide⟩

theorem Search.bounded_default : ({} : Search).Bounded :=
  ⟨by decide, by decide, by decide, by decide +kernel⟩

section

variable {ε : Type} {lib : Library ε} (hlib : lib.Sound)

include hlib

theorem gives_readIndexer (path : List String) (fields : Json.Fields) :
    (readIndexer lib path fields).Gives Indexer.Bounded := by
  have d := Indexer.bounded_default
  refine (gives_setting d.batchSize (hlib.int _)).bind fun batchSize hbatch => ?_
  refine (gives_setting d.timeoutSeconds (hlib.float _)).bind fun timeoutSeconds htimeout => ?_
  refine (gives_setting d.batchYieldSeconds (hlib.float _)).bind fun _ hyield => ?_
  refine (gives_setting d.maxFileSizeKb (hlib.int _)).bind fun maxFileSizeKb hsize => ?_
  -- the other settings have no bounds
  refine (gives_any _).bind fun extensions _ => (gives_any _).bind fun skipDirs _ => ?_
  refine (gives_any _).bind fun cacheDir _ => (gives_any _).bind fun cacheFile _ => ?_
  refine (gives_any _).bind fun schemaPath _ => (gives_any _).bind fun routesPath _ => ?_
  exact gives_pure ⟨hbatch, htimeout, hyield, hsize⟩

omit hlib in
theorem gives_readWeights (path : List String) (fields : Json.Fields) :
    (readWeights lib path fields).Gives fun w => w.spaced = true := by
  unfold readWeights
  dsimp only
  split
  · exact fun hnone => nomatch hnone
  · next hspaced =>
    intro hnone
    simpa [hnone] using hspaced

theorem gives_readSearch (path : List String) (fields : Json.Fields) :
    (readSearch lib path fields).Gives Search.Bounded := by
  have d := Search.bounded_default
  refine (gives_setting d.limit (hlib.int _)).bind fun limit hlimit => ?_
  refine (gives_setting d.popularAccessCount (hlib.int _)).bind fun _ hpopular => ?_
  refine (gives_setting d.recencyDecayHours (hlib.float _)).bind fun _ hrecency => ?_
  refine (gives_group (P := fun w => w.spaced = true) d.weights gives_readWeights).bind
    fun weights hweights => ?_
  exact gives_pure ⟨hlimit, hpopular, hrecency, hweights⟩

theorem gives_readConfig (fields : Json.Fields) :
    (readConfig lib fields).Gives fun c => c.indexer.Bounded ∧ c.search.Bounded := by
  refine (gives_group Indexer.bounded_default (gives_readIndexer hlib)).bind
    fun indexer hindexer => ?_
  refine (gives_group Search.bounded_default (gives_readSearch hlib)).bind
    fun search hsearch => ?_
  exact gives_pure ⟨hindexer, hsearch⟩

theorem bounded_ofFields {fields : Json.Fields} {c : Config} (h : ofFields lib fields = .ok c) :
    c.indexer.Bounded ∧ c.search.Bounded :=
  (gives_readConfig hlib fields).of_toExcept h

end

theorem lt_gap_of_spaced {w : Weights Float} (h : w.spaced = true) {gap : Float}
    (hgap : gap ∈ w.gaps) :
    w.maxBonus < gap ∨ gap.isNaN = true ∨ w.maxBonus.isNaN = true := by
  have hnot : ¬gap ≤ w.maxBonus := by simpa using List.all_eq_true.mp h gap hgap
  by_cases hnumber : gap.isNaN = false ∧ w.maxBonus.isNaN = false
  · left
    rw [Confidence.le_iff hnumber.1 hnumber.2, not_le] at hnot
    exact (Confidence.lt_iff hnumber.2 hnumber.1).mpr hnot
  · right
    simpa [imp_iff_not_or] using hnumber

theorem load_eq_ok {ε : Type} {lib : Library ε} {layers : List Layer} {timeout : Option String}
    {c : Config} (h : load lib layers timeout = .ok c) :
    ∃ fields given limit, mergeLayers lib layers = .ok fields ∧ ofFields lib fields = .ok given ∧
      lib.timeLimit timeout = .ok limit ∧
      c = { given with
        indexer.timeoutSeconds := limit.getD given.indexer.timeoutSeconds } := by
  obtain ⟨fields, hmerged, h⟩ := bind_eq_ok h
  obtain ⟨given, hgiven, h⟩ := bind_eq_ok h
  obtain ⟨limit, hlimit, h⟩ := bind_eq_ok h
  refine ⟨fields, given, limit, hmerged, mapError_eq_ok hgiven, mapError_eq_ok hlimit, ?_⟩
  cases limit with
  | none =>
    cases h
    rfl
  | some x =>
    cases h
    rfl

theorem exists_of_load {ε : Type} {lib : Library ε} {P : Config → Prop} [DecidablePred P]
    {layers : List Layer} {timeout : Option String}
    (h : (load lib layers timeout).toOption.any (fun c => decide (P c)) = true) :
    ∃ c, load lib layers timeout = .ok c ∧ P c := by
  cases hload : load lib layers timeout with
  | error fault =>
    rw [hload] at h
    cases h
  | ok c =>
    rw [hload] at h
    exact ⟨c, rfl, of_decide_eq_true h⟩

/-- A configuration that is loaded is within the bounds of its settings, but for two values. The time
limit is that of the environment, whatever it is, if the environment gives one; and a gap between two
tiers of weights is larger than the bonuses together only if neither of them is NaN. -/
theorem loaded_settings_within_bounds {ε : Type} {lib : Library ε} (hlib : lib.Sound)
    {layers : List Layer} {timeout : Option String} {c : Config}
    (h : load lib layers timeout = .ok c) :
    1 ≤ c.indexer.batchSize ∧ 0 ≤ c.indexer.batchYieldSeconds ∧ 1 ≤ c.indexer.maxFileSizeKb ∧
    (timeout = none → 0 < c.indexer.timeoutSeconds) ∧
    (∃ limit, lib.timeLimit timeout = .ok limit ∧
      (limit = none → 0 < c.indexer.timeoutSeconds) ∧
      ∀ x, limit = some x → c.indexer.timeoutSeconds = x) ∧
    1 ≤ c.search.limit ∧ 2 ≤ c.search.popularAccessCount ∧ 0 < c.search.recencyDecayHours ∧
    ∀ gap ∈ c.search.weights.gaps, c.search.weights.maxBonus < gap ∨ gap.isNaN = true ∨
      c.search.weights.maxBonus.isNaN = true := by
  obtain ⟨fields, given, limit, -, hgiven, hlimit, rfl⟩ := load_eq_ok h
  obtain ⟨hindexer, hsearch⟩ := bounded_ofFields hlib hgiven
  have hfiles : limit = none → 0 < limit.getD given.indexer.timeoutSeconds := by
    rintro rfl
    exact hindexer.timeoutSeconds
  refine ⟨hindexer.batchSize, hindexer.batchYieldSeconds, hindexer.maxFileSizeKb, ?_,
    ⟨limit, hlimit, hfiles, ?_⟩, hsearch.limit, hsearch.popularAccessCount,
    hsearch.recencyDecayHours, fun gap => lt_gap_of_spaced hsearch.weights⟩
  · rintro rfl
    rw [hlib.timeLimit] at hlimit
    exact hfiles (Except.ok.inj hlimit).symm
  · rintro x rfl
    rfl

def unorderedLayer : Layer where
  file := "config.yaml"
  content := "search:\n  limit: 5\n  weights:\n    exact_match: nan\n".toUTF8

def unorderedDocument : Json :=
  .obj [("search", .obj [("limit", .int 5), ("weights", .obj [("exact_match", .str "nan")])])]

def unorderedLibrary : Library Unit :=
  tableLibrary
    [("search:\n  limit: 5\n  weights:\n    exact_match: nan\n", unorderedDocument)]
    [("nan", 0.0 / 0.0), ("0.5", 0.5), ("-5", -5)]

theorem sound_unorderedLibrary : unorderedLibrary.Sound := by
  have hweights : Json.Distinct (.obj [("exact_match", .str "nan")]) :=
    .obj (by decide) (by simp [Json.Distinct.str])
  have hsearch : Json.Distinct
      (.obj [("limit", .int 5), ("weights", .obj [("exact_match", .str "nan")])]) :=
    .obj (by decide) (by simp [hweights, Json.Distinct.int])
  have hdocument : unorderedDocument.Distinct := .obj (by decide) (by simp [hsearch])
  exact sound_tableLibrary (by simp [hdocument]) _

theorem loaded_settings_within_bounds_unordered :
    ∃ c, load unorderedLibrary [unorderedLayer] (some "0.5") = .ok c ∧ 1 ≤ c.search.limit ∧
      c.indexer.timeoutSeconds = 0.5 ∧
      ∀ gap ∈ c.search.weights.gaps, c.search.weights.maxBonus < gap ∨ gap.isNaN = true ∨
        c.search.weights.maxBonus.isNaN = true := by
  obtain ⟨c, hc, -⟩ :
      ∃ c, load unorderedLibrary [unorderedLayer] (some "0.5") = .ok c ∧ c.search.limit = 5 :=
    exists_of_load (by decide +kernel)
  obtain ⟨-, -, -, -, ⟨limit, htimeout, -, hlimit⟩, hsearch, -, -, hgaps⟩ :=
    loaded_settings_within_bounds sound_unorderedLibrary hc
  exact ⟨c, hc, hsearch, hlimit 0.5 (Except.ok.inj htimeout).symm, hgaps⟩

theorem exists_loaded_out_of_bounds :
    (∃ c, load unorderedLibrary [] (some "-5") = .ok c ∧ c.indexer.timeoutSeconds < 0) ∧
    ∃ c, load unorderedLibrary [unorderedLayer] none = .ok c ∧
      ∃ gap ∈ c.search.weights.gaps, ¬c.search.weights.maxBonus < gap :=
  ⟨exists_of_load (by decide +kernel), exists_of_load (by decide +kernel)⟩

end CodeAtlas.Config
