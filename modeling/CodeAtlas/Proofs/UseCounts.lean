import CodeAtlas.Project.Ingest
import CodeAtlas.Proofs.NameMatching
import CodeAtlas.Proofs.Paths
import Mathlib.Data.List.Perm.Subperm

namespace CodeAtlas.Search

open Text

theorem SymbolKind.colon_not_mem_name (k : SymbolKind) : ':' ∉ k.name.toList := by
  cases k <;> decide

theorem SymbolKind.name_injective : Function.Injective SymbolKind.name := by
  intro k k' h
  cases k <;> cases k' <;> simp [name] at h ⊢

theorem behindColons_key (s : Symbol) : behindColons s.key.toList = s.kind.name.toList := by
  have hsplit : s.key.toList =
      (s.location.uri.toList ++ ':' :: s.name.toList) ++ ':' :: s.kind.name.toList := by
    simp [Symbol.key]
  rw [hsplit, behindColons_append s.kind.colon_not_mem_name]

theorem key_eq_iff {s t : Symbol} (hs : ':' ∉ s.name.toList) (ht : ':' ∉ t.name.toList) :
    s.key = t.key ↔ s.location.uri = t.location.uri ∧ s.name = t.name ∧ s.kind = t.kind := by
  constructor
  · intro h
    have hkind : s.kind = t.kind := by
      apply SymbolKind.name_injective
      rw [← String.toList_inj, ← behindColons_key, ← behindColons_key, h]
    rw [Symbol.key, Symbol.key, hkind, String.append_left_inj, String.append_left_inj] at h
    have hname : s.name = t.name := by
      have hlast := congrArg (fun k : String => behindColons k.toList) h
      simpa [behindColons_append hs, behindColons_append ht, String.toList_inj] using hlast
    rw [hname, String.append_left_inj, String.append_left_inj] at h
    exact ⟨h, hname, hkind⟩
  · rintro ⟨huri, hname, hkind⟩
    rw [Symbol.key, huri, hname, hkind, Symbol.key]

def Use.again (u : Use) (now : Float) (times : Nat) : Use :=
  if times = 0 then u else ⟨u.accessCount + times, some now⟩

theorem Use.again_again (u : Use) (now : Float) (m n : Nat) :
    (u.again now m).again now n = u.again now (m + n) := by
  unfold again
  by_cases hm : m = 0 <;> by_cases hn : n = 0 <;> simp [hm, hn, Nat.add_assoc]

def countKey (key : String) (symbols : List Symbol) : Nat := (symbols.map Symbol.key).count key

theorem countKey_append (key : String) (a b : List Symbol) :
    countKey key (a ++ b) = countKey key a + countKey key b := by
  rw [countKey, List.map_append, List.count_append]
  rfl

theorem countKey_eq_count {s : Symbol} {symbols : List Symbol} (h : ∀ t ∈ symbols, t.key = s.key → t = s) :
    countKey s.key symbols = symbols.count s := by
  rw [countKey, List.count, List.count, List.countP_map]
  apply List.countP_congr
  intro t ht
  simp only [Function.comp_apply, beq_iff_eq]
  exact ⟨h t ht, congrArg Symbol.key⟩

namespace Engine

theorem use_touch (e : Engine) (now : Float) (s t : Symbol) :
    (touch now e s).use t = (e.use t).again now (countKey t.key [s]) := by
  unfold use use? touch
  rw [OrderedMap.get?_insert]
  by_cases h : s.key = t.key
  · simp [countKey, Use.again, use, use?, h]
  · simp [countKey, Use.again, h]

theorem use_foldl_touch (e : Engine) (now : Float) (found : List Symbol) (t : Symbol) :
    (found.foldl (touch now) e).use t = (e.use t).again now (countKey t.key found) := by
  induction found generalizing e with
  | nil => rfl
  | cons s found ih => rw [List.foldl_cons, ih, use_touch, Use.again_again, ← countKey_append]; rfl

def found (e : Engine) (g : Graph) (now : Float) (query : String) (ctx : Context) (limit : Option Int) :
    List Symbol :=
  (e.search g now query ctx limit).1.map Rated.symbol

theorem use_search (e : Engine) (g : Graph) (now : Float) (query : String) (ctx : Context)
    (limit : Option Int) (t : Symbol) : (e.search g now query ctx limit).2.use t =
      (e.use t).again now (countKey t.key (e.found g now query ctx limit)) :=
  use_foldl_touch e now _ t

theorem found_subperm (e : Engine) (g : Graph) (now : Float) (query : String) (ctx : Context)
    (limit : Option Int) :
    (e.found g now query ctx limit).Subperm (e.all.filter fun s => (tier? s.name query).isSome) := by
  have htake : (e.found g now query ctx limit).Sublist
      ((ranked (e.matching g now query ctx)).map Rated.symbol) := by
    rw [found, search_eq_take]
    exact (List.take_sublist _ _).map _
  rw [← e.symbols_matching g now query ctx]
  exact htake.subperm.trans ((ranked_perm _).map _).subperm

theorem found_subset (e : Engine) (g : Graph) (now : Float) (query : String) (ctx : Context)
    (limit : Option Int) : e.found g now query ctx limit ⊆ e.all :=
  ((e.found_subperm g now query ctx limit).trans List.filter_sublist.subperm).subset

theorem use_index (e : Engine) (uri : String) (symbols : List Symbol) (t : Symbol) :
    (e.index uri symbols).use t = e.use t := by
  have hkept (uses : OrderedMap String Use) :
      ((symbols.foldl (fun uses s =>
        if uses.contains s.key then uses else uses.insert s.key {}) uses).get? t.key).getD {} =
        (uses.get? t.key).getD {} := by
    induction symbols generalizing uses with
    | nil => rfl
    | cons s symbols ih =>
      rw [List.foldl_cons, ih]
      split
      · rfl
      · next hnew =>
        rw [OrderedMap.get?_insert]
        split
        · next hkey =>
          rw [hkey, OrderedMap.contains, Bool.not_eq_true, Option.isSome_eq_false_iff,
            Option.isNone_iff_eq_none] at hnew
          rw [hnew]
          rfl
        · rfl
  exact hkept e.uses

end Engine

inductive Operation where
  | index (uri : String) (symbols : List Symbol)
  | removeFile (uri : String)
  | search (g : Graph) (now : Float) (query : String) (ctx : Context) (limit : Option Int)
  | clear

structure Finding where
  time : Float
  symbols : List Symbol

def useIn (past : List Finding) (key : String) : Use :=
  { accessCount := countKey key (past.flatMap Finding.symbols)
    lastAccessed := (past.find? fun f => countKey key f.symbols ≠ 0).map Finding.time }

def indexed (operations : List Operation) : List Symbol :=
  operations.flatMap fun
    | .index _ symbols => symbols
    | _ => []

namespace Engine

def step (e : Engine) : Operation → Engine
  | .index uri symbols => e.index uri symbols
  | .removeFile uri => e.removeFile uri
  | .search g now query ctx limit => (e.search g now query ctx limit).2
  | .clear => e.clear

def recorded (e : Engine) (past : List Finding) : Operation → List Finding
  | .search g now query ctx limit => ⟨now, e.found g now query ctx limit⟩ :: past
  | .index _ _ => past
  | .removeFile _ => past
  | .clear => []

def run (e : Engine) (past : List Finding) : List Operation → Engine × List Finding
  | [] => (e, past)
  | o :: operations => (e.step o).run (e.recorded past o) operations

theorem use_step {e : Engine} {past : List Finding} {s : Symbol} (h : e.use s = useIn past s.key)
    (o : Operation) : (e.step o).use s = useIn (e.recorded past o) s.key := by
  cases o with
  | index uri symbols => exact (e.use_index uri symbols s).trans h
  | removeFile uri => exact h
  | clear => rfl
  | search g now query ctx limit =>
    rw [step, use_search, h, recorded, Use.again]
    generalize e.found g now query ctx limit = symbols
    by_cases hcount : countKey s.key symbols = 0
    · simp [useIn, countKey_append, hcount]
    · simp [useIn, countKey_append, hcount, Nat.add_comm]

theorem use_run {e : Engine} {past : List Finding} {s : Symbol} (h : e.use s = useIn past s.key)
    (operations : List Operation) :
    (e.run past operations).1.use s = useIn (e.run past operations).2 s.key := by
  induction operations generalizing e past with
  | nil => exact h
  | cons o operations ih => exact ih (use_step h o)

theorem mem_all_iff {e : Engine} {s : Symbol} :
    s ∈ e.all ↔ ∃ uri symbols, e.symbols.get? uri = some symbols ∧ s ∈ symbols := by
  rw [all, List.mem_flatten]
  constructor
  · rintro ⟨symbols, hsymbols, hs⟩
    obtain ⟨uri, huri⟩ := OrderedMap.mem_values_iff.mp hsymbols
    exact ⟨uri, symbols, huri, hs⟩
  · rintro ⟨uri, symbols, huri, hs⟩
    exact ⟨symbols, OrderedMap.mem_values_iff.mpr ⟨uri, huri⟩, hs⟩

theorem all_search (e : Engine) (g : Graph) (now : Float) (query : String) (ctx : Context)
    (limit : Option Int) : (e.search g now query ctx limit).2.all = e.all := by
  have htouch (found : List Symbol) (e : Engine) : (found.foldl (touch now) e).symbols = e.symbols := by
    induction found generalizing e with
    | nil => rfl
    | cons s found ih => exact ih (touch now e s)
  have hsymbols : (e.search g now query ctx limit).2.symbols = e.symbols := htouch _ e
  rw [all, hsymbols]
  rfl

structure DrawnFrom (symbols : List Symbol) (e : Engine) (past : List Finding) : Prop where
  all : e.all ⊆ symbols
  past : past.flatMap Finding.symbols ⊆ symbols

namespace DrawnFrom

variable {symbols : List Symbol} {e : Engine} {past : List Finding}

theorem step (h : DrawnFrom symbols e past) {o : Operation} (ho : indexed [o] ⊆ symbols) :
    DrawnFrom symbols (e.step o) (e.recorded past o) := by
  cases o with
  | index uri new =>
    refine ⟨?_, h.past⟩
    intro s hs
    obtain ⟨uri', entry, hentry, hmem⟩ := mem_all_iff.mp hs
    rw [Engine.step, index, OrderedMap.get?_insert] at hentry
    split at hentry
    · cases hentry
      exact ho (by simpa [indexed] using hmem)
    · exact h.all (mem_all_iff.mpr ⟨uri', entry, hentry, hmem⟩)
  | removeFile uri =>
    refine ⟨?_, h.past⟩
    intro s hs
    obtain ⟨uri', entry, hentry, hmem⟩ := mem_all_iff.mp hs
    rw [Engine.step, removeFile, OrderedMap.get?_erase] at hentry
    split at hentry
    · cases hentry
    · exact h.all (mem_all_iff.mpr ⟨uri', entry, hentry, hmem⟩)
  | clear => exact ⟨List.nil_subset _, List.nil_subset _⟩
  | search g now query ctx limit =>
    constructor
    · rw [Engine.step, all_search]
      exact h.all
    · rw [recorded, List.flatMap_cons]
      exact List.append_subset.mpr
        ⟨List.Subset.trans (e.found_subset g now query ctx limit) h.all, h.past⟩

theorem run (h : DrawnFrom symbols e past) {operations : List Operation}
    (hindexed : indexed operations ⊆ symbols) :
    DrawnFrom symbols (e.run past operations).1 (e.run past operations).2 := by
  induction operations generalizing e past with
  | nil => exact h
  | cons o operations ih =>
    have hsplit : indexed (o :: operations) = indexed [o] ++ indexed operations := by simp [indexed]
    rw [hsplit, List.append_subset] at hindexed
    exact ih (h.step hindexed.1) hindexed.2

end DrawnFrom

end Engine

open Engine

/-- A search counts one use for each result under its key. If a symbol is the only one with its key, its own
results alone are counted: over one search, and over all operations since the last clearing. -/
theorem use_follows_results (e : Engine) :
    (∀ g now query ctx limit,
      let found := e.found g now query ctx limit
      let after := (e.search g now query ctx limit).2
      (∀ s, after.use s = (e.use s).again now (countKey s.key found)) ∧
      (e.all.Nodup → ∀ s, (∀ t ∈ e.all, t.key = s.key → t = s) →
        (s ∈ found → after.use s = ⟨(e.use s).accessCount + 1, some now⟩) ∧
        (s ∉ found → after.use s = e.use s))) ∧
    (∀ operations s,
      let after := e.clear.run [] operations
      after.1.use s = useIn after.2 s.key ∧
      ((∀ t ∈ indexed operations, t.key = s.key → t = s) →
        (after.1.use s).accessCount = (after.2.flatMap Finding.symbols).count s)) ∧
    ∀ s t : Symbol, ':' ∉ s.name.toList → ':' ∉ t.name.toList →
      (s.key = t.key ↔ s.location.uri = t.location.uri ∧ s.name = t.name ∧ s.kind = t.kind) := by
  refine ⟨?_, ?_, fun s t => key_eq_iff⟩
  · intro g now query ctx limit found after
    refine ⟨e.use_search g now query ctx limit, fun hdistinct s hs => ?_⟩
    have hnodup : found.Nodup := by
      obtain ⟨l, hperm, hsub⟩ := e.found_subperm g now query ctx limit
      exact hperm.nodup_iff.mp ((hdistinct.filter _).sublist hsub)
    have huse : after.use s = (e.use s).again now (found.count s) := by
      rw [← countKey_eq_count fun t ht => hs t (e.found_subset g now query ctx limit ht)]
      exact e.use_search g now query ctx limit s
    rw [huse, hnodup.count]
    constructor
    · intro hmem
      rw [if_pos hmem]
      rfl
    · intro hmem
      rw [if_neg hmem]
      rfl
  · intro operations s after
    have huse : after.1.use s = useIn after.2 s.key := use_run rfl operations
    refine ⟨huse, fun hs => ?_⟩
    have hpast : after.2.flatMap Finding.symbols ⊆ indexed operations :=
      (DrawnFrom.run ⟨List.nil_subset _, List.nil_subset _⟩ (List.Subset.refl _)).past
    rw [huse, useIn]
    exact countKey_eq_count fun t ht => hs t (hpast ht)

theorem use_follows_results_titles :
    let after := (titles.search .empty 0 "user" {} none).2
    let later := titles.clear.run [] [.index "/ws/a.rb" titles.all, .search .empty 0 "user" {} none,
      .index "/ws/a.rb" titles.all, .search .empty 1 "post" {} none]
    titles.all.Nodup ∧
    (after.use (classAt 0 "User")).accessCount = 1 ∧ (after.use (classAt 0 "Post")).accessCount = 0 ∧
    (later.1.use (classAt 0 "User")).accessCount =
      (later.2.flatMap Finding.symbols).count (classAt 0 "User") ∧
    (classAt 0 "User").key ≠ (classAt 0 "Post").key := by
  intro after later
  have hdistinct : titles.all.Nodup := by decide +kernel
  have hown (name : String) (h : name ∈ ["User", "Post"]) :
      ∀ t ∈ titles.all, t.key = (classAt 0 name).key → t = classAt 0 name := by
    simp only [List.mem_cons, List.not_mem_nil, or_false] at h
    rcases h with rfl | rfl <;> decide
  obtain ⟨hsearch, hoperations, hkeys⟩ := use_follows_results titles
  have hfound : (titles.found .empty 0 "user" {} none).Perm (titles.all.filter fun s => (tier? s.name "user").isSome) :=
    titles.symbols_search .empty 0 "user" {} (by decide)
  have huser := ((hsearch .empty 0 "user" {} none).2 hdistinct (classAt 0 "User") (hown _ (by simp))).1
    (hfound.mem_iff.mpr (by decide))
  have hpost := ((hsearch .empty 0 "user" {} none).2 hdistinct (classAt 0 "Post") (hown _ (by simp))).2
    (mt hfound.mem_iff.mp (by decide))
  refine ⟨hdistinct, by rw [huser]; rfl, by rw [hpost]; rfl, (hoperations _ _).2 ?_, ?_⟩
  · intro t ht
    apply hown "User" (by simp) t
    simpa [indexed] using ht
  · rw [Ne, hkeys _ _ (by decide) (by decide)]
    decide

def jobsText : String := "class A\n  def run\n  end\nend\nclass B\n  def run\n  end\nend\n"

def jobs : Engine := ({} : Engine).index "/ws/a.rb" (Project.symbols "/ws/a.rb" (Source.scan jobsText))

def runOf (owner : String) (line : Nat) : Symbol := ⟨"run", .methodKind, ⟨"/ws/a.rb", line, 0⟩, some owner⟩

theorem all_jobs : jobs.all = [classAt 0 "A", runOf "A" 1, classAt 4 "B", runOf "B" 5] := by
  decide +kernel

theorem matching_jobs :
    jobs.all.filter (fun s => (tier? s.name "run").isSome) = [runOf "A" 1, runOf "B" 5] := by
  rw [all_jobs]
  decide

theorem use_shared_by_namesakes :
    jobs.all.Nodup ∧ runOf "A" 1 ∈ jobs.all ∧ runOf "B" 5 ∈ jobs.all ∧
    (let found := jobs.found .empty 0 "run" {} none
     let after := (jobs.search .empty 0 "run" {} none).2
     found.Perm [runOf "A" 1, runOf "B" 5] ∧
     (after.use (runOf "A" 1)).accessCount = 2 ∧ (after.use (runOf "B" 5)).accessCount = 2) ∧
    (let found := jobs.found .empty 0 "run" {} (some 1)
     let after := (jobs.search .empty 0 "run" {} (some 1)).2
     ∃ s ∈ jobs.all, s ∉ found ∧ (jobs.use s).accessCount = 0 ∧ (after.use s).accessCount = 1) := by
  have hunused (s : Symbol) : jobs.use s = {} := Engine.use_index {} _ _ s
  have hA : runOf "A" 1 ∈ jobs.all := by simp [all_jobs]
  have hB : runOf "B" 5 ∈ jobs.all := by simp [all_jobs]
  have hcount : jobs.count ≤ (jobs.wanted none).toNat := by
    rw [count, all_jobs]
    decide
  have hboth : (jobs.found .empty 0 "run" {} none).Perm [runOf "A" 1, runOf "B" 5] := by
    rw [← matching_jobs]
    exact jobs.symbols_search .empty 0 "run" {} hcount
  have htwice (s : Symbol) (hs : s.key = (runOf "A" 1).key) :
      ((jobs.search .empty 0 "run" {} none).2.use s).accessCount = 2 := by
    rw [use_search, hunused, countKey, (hboth.map Symbol.key).count_eq, hs]
    rfl
  obtain ⟨x, hx⟩ : ∃ x, jobs.found .empty 0 "run" {} (some 1) = [x] := by
    apply List.length_eq_one_iff.mp
    have hlength := congrArg List.length (jobs.symbols_matching .empty 0 "run" {})
    rw [matching_jobs, List.length_map] at hlength
    rw [found, search_eq_take, List.length_map, List.length_take, (ranked_perm _).length_eq, hlength]
    rfl
  have honce (s : Symbol) (hs : s.key = x.key) :
      ((jobs.search .empty 0 "run" {} (some 1)).2.use s).accessCount = 1 := by
    rw [use_search, hunused, hx, hs, countKey, List.map_singleton, List.count_singleton_self]
    rfl
  have hnodup : jobs.all.Nodup := by
    rw [all_jobs]
    decide
  refine ⟨hnodup, hA, hB, ⟨hboth, htwice _ rfl, htwice _ rfl⟩, ?_⟩
  have hmem : x = runOf "A" 1 ∨ x = runOf "B" 5 := by
    have hsubset := (jobs.found_subperm .empty 0 "run" {} (some 1)).subset
    rw [matching_jobs, hx] at hsubset
    simpa using hsubset
  rcases hmem with rfl | rfl
  · exact ⟨runOf "B" 5, hB, by simp [hx, runOf], by rw [hunused], honce _ rfl⟩
  · exact ⟨runOf "A" 1, hA, by simp [hx, runOf], by rw [hunused], honce _ rfl⟩

end CodeAtlas.Search
