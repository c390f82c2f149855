import CodeAtlas.Proofs.Frames
import CodeAtlas.Proofs.SessionHistory

namespace CodeAtlas.Project

open Workspace

def contentHash? (t : FileTree) (uri : String) : Option String :=
  (t.text (Path.ofText uri)).toOption.map Digest.ofText

namespace Session

structure SameSetup (s s' : Session) : Prop where
  root : s'.root = s.root
  config : s'.config = s.config
  previous : s'.previous = s.previous
  incomplete : s'.incomplete = s.incomplete
  time : s'.time = s.time

namespace SameSetup

variable {s s' s'' : Session}

theorem refl (s : Session) : s.SameSetup s := ⟨rfl, rfl, rfl, rfl, rfl⟩

theorem trans (h : s.SameSetup s') (h' : s'.SameSetup s'') : s.SameSetup s'' :=
  ⟨h'.root.trans h.root, h'.config.trans h.config, h'.previous.trans h.previous,
    h'.incomplete.trans h.incomplete, h'.time.trans h.time⟩

theorem indexText (s : Session) (uri text : String) (fault : Bool) :
    s.SameSetup (s.indexText uri text fault).1 := by
  unfold Session.indexText
  dsimp only
  split
  · exact refl s
  · split <;> split <;> constructor <;> simp only [Session.retract]

theorem retract (s : Session) (uri : String) : s.SameSetup (s.retract uri) := by
  constructor <;> simp only [Session.retract]

theorem foldl_retract (s : Session) (uris : List String) :
    s.SameSetup (uris.foldl Session.retract s) := by
  induction uris generalizing s with
  | nil => exact refl s
  | cons uri rest ih => exact (retract s uri).trans (ih (s.retract uri))

theorem discovered (d : Disturbance) (s : Session) (files : List String) :
    s.SameSetup (discovered d s files).session := by
  obtain ⟨hroot, hconfig, hprevious, hincomplete, htime⟩ :=
    foldl_retract s (s.hashes.keys.filter fun uri => !files.contains uri)
  exact ⟨hroot, hconfig, hprevious, hincomplete, htime⟩

theorem workspace (h : s.SameSetup s') : s'.workspace = s.workspace := by
  rw [Session.workspace, h.root, h.config, Session.workspace]

theorem cachePath (h : s.SameSetup s') : s'.cachePath = s.cachePath := by
  rw [Session.cachePath, h.root, h.config, Session.cachePath]

end SameSetup

variable {s : Session} {t : FileTree}

theorem indexText_of_known {uri text : String} (fault : Bool)
    (h : s.hashes.get? uri = some (Digest.ofText text)) :
    s.indexText uri text fault = (s, .skipped) := by
  simp [indexText, h]

theorem indexText_of_other {uri text : String}
    (h : s.hashes.get? uri ≠ some (Digest.ofText text)) :
    (s.indexText uri text false).2 = .indexed := by
  simp [indexText, h]

theorem get?_indexText (s : Session) (uri text v : String) :
    (s.indexText uri text false).1.hashes.get? v =
      if uri = v then some (Digest.ofText text) else s.hashes.get? v := by
  by_cases hsame : s.hashes.get? uri = some (Digest.ofText text)
  · rw [indexText_of_known false hsame]
    split
    · next heq =>
      subst heq
      exact hsame
    · rfl
  · simp only [indexText, hsame, if_false, Bool.false_eq_true, OrderedMap.get?_insert]
    split
    · rfl
    · next hne =>
      split
      · rw [retract, OrderedMap.get?_erase, if_neg (Ne.symm hne)]
      · rfl

def indexFile (t : FileTree) (s : Session) (uri : String) : Session × Outcome :=
  match t.text (Path.ofText uri) with
  | .ok text => s.indexText uri text false
  | .error _ => (s, .failed)

theorem sameSetup_indexFile (t : FileTree) (s : Session) (uri : String) :
    s.SameSetup (indexFile t s uri).1 := by
  unfold indexFile
  split
  · exact .indexText s uri _ false
  · exact .refl s

theorem get?_indexFile (t : FileTree) (s : Session) (uri v : String) :
    (indexFile t s uri).1.hashes.get? v =
      if uri = v then (contentHash? t uri).or (s.hashes.get? v) else s.hashes.get? v := by
  unfold indexFile contentHash?
  cases t.text (Path.ofText uri) with
  | ok text => simp [get?_indexText, Except.toOption]
  | error f => simp [Except.toOption]

theorem indexFile_of_known {uri digest : String} (hfile : contentHash? t uri = some digest)
    (hsession : s.hashes.get? uri = some digest) : indexFile t s uri = (s, .skipped) := by
  unfold contentHash? at hfile
  unfold indexFile
  cases htext : t.text (Path.ofText uri) with
  | ok text =>
    rw [htext] at hfile
    cases hfile
    exact indexText_of_known false hsession
  | error f =>
    rw [htext] at hfile
    cases hfile

theorem indexFile_of_new {uri digest : String} (hfile : contentHash? t uri = some digest)
    (hsession : s.hashes.get? uri = none) : (indexFile t s uri).2 = .indexed := by
  unfold contentHash? at hfile
  unfold indexFile
  cases htext : t.text (Path.ofText uri) with
  | ok text =>
    apply indexText_of_other
    rw [hsession]
    simp
  | error f =>
    rw [htext] at hfile
    cases hfile

def indexEach (t : FileTree) (s : Session) : List String → Session × List (String × Outcome)
  | [] => (s, [])
  | uri :: rest =>
    let (s, outcome) := indexFile t s uri
    let (s, more) := indexEach t s rest
    (s, (uri, outcome) :: more)

theorem indexEach_append (t : FileTree) (s : Session) (uris more : List String) :
    indexEach t s (uris ++ more) =
      ((indexEach t (indexEach t s uris).1 more).1,
        (indexEach t s uris).2 ++ (indexEach t (indexEach t s uris).1 more).2) := by
  induction uris generalizing s with
  | nil => rfl
  | cons uri rest ih => simp only [List.cons_append, indexEach, ih]

theorem map_fst_indexEach (t : FileTree) (s : Session) (uris : List String) :
    (indexEach t s uris).2.map Prod.fst = uris := by
  induction uris generalizing s with
  | nil => rfl
  | cons uri rest ih => simp only [indexEach, List.map_cons, ih]

theorem sameSetup_indexEach (t : FileTree) (s : Session) (uris : List String) :
    s.SameSetup (indexEach t s uris).1 := by
  induction uris generalizing s with
  | nil => exact .refl s
  | cons uri rest ih =>
    rw [indexEach]
    exact (sameSetup_indexFile t s uri).trans (ih (indexFile t s uri).1)

theorem get?_indexEach (t : FileTree) (s : Session) (uris : List String) (v : String) :
    (indexEach t s uris).1.hashes.get? v =
      if v ∈ uris then (contentHash? t v).or (s.hashes.get? v) else s.hashes.get? v := by
  induction uris generalizing s with
  | nil => simp [indexEach]
  | cons uri rest ih =>
    simp only [indexEach, ih, get?_indexFile, List.mem_cons]
    by_cases heq : uri = v
    · subst heq
      cases contentHash? t uri <;> simp
    · simp [heq, Ne.symm heq]

theorem get?_indexEach_of_mem {uris : List String} {v : String} (hmem : v ∈ uris)
    (hread : (contentHash? t v).isSome) :
    (indexEach t s uris).1.hashes.get? v = contentHash? t v := by
  rw [get?_indexEach, if_pos hmem, Option.or_of_isSome hread]

theorem indexEach_of_known {uris : List String}
    (h : ∀ uri ∈ uris, (contentHash? t uri).isSome ∧ s.hashes.get? uri = contentHash? t uri) :
    indexEach t s uris = (s, uris.map fun uri => (uri, .skipped)) := by
  induction uris with
  | nil => rfl
  | cons uri rest ih =>
    obtain ⟨hsome, hsession⟩ := h uri List.mem_cons_self
    obtain ⟨digest, hfile⟩ := Option.isSome_iff_exists.mp hsome
    have hskip := indexFile_of_known hfile (hsession.trans hfile)
    simp only [indexEach, hskip, ih fun v hv => h v (List.mem_cons_of_mem _ hv), List.map_cons]

theorem indexEach_of_new {uris : List String} (hnodup : uris.Nodup)
    (h : ∀ uri ∈ uris, (contentHash? t uri).isSome ∧ s.hashes.get? uri = none) :
    (indexEach t s uris).2 = uris.map fun uri => (uri, .indexed) := by
  induction uris generalizing s with
  | nil => rfl
  | cons uri rest ih =>
    obtain ⟨hnot, hnodup⟩ := List.nodup_cons.mp hnodup
    obtain ⟨hsome, hsession⟩ := h uri List.mem_cons_self
    obtain ⟨digest, hfile⟩ := Option.isSome_iff_exists.mp hsome
    have hrest : ∀ v ∈ rest, (contentHash? t v).isSome ∧
        (indexFile t s uri).1.hashes.get? v = none := by
      intro v hv
      obtain ⟨hsome, hnone⟩ := h v (List.mem_cons_of_mem _ hv)
      have hne : uri ≠ v := fun heq => hnot (heq ▸ hv)
      exact ⟨hsome, by rw [get?_indexFile, if_neg hne, hnone]⟩
    simp only [indexEach, indexFile_of_new hfile hsession, ih hnodup hrest, List.map_cons]

theorem get?_retractMissing (s : Session) (files : List String) (v : String) :
    (retractMissing s files).hashes.get? v = if v ∈ files then s.hashes.get? v else none := by
  have hfold (uris : List String) (s : Session) :
      (uris.foldl retract s).hashes = uris.foldl OrderedMap.erase s.hashes := by
    induction uris generalizing s with
    | nil => rfl
    | cons uri rest ih => exact ih (s.retract uri)
  rw [retractMissing, hfold, OrderedMap.get?_foldl_erase]
  by_cases hmem : v ∈ files
  · simp [hmem]
  · cases hget : s.hashes.get? v with
    | none => simp
    | some digest =>
      have hkey : v ∈ s.hashes.keys := OrderedMap.mem_keys_iff.mpr ⟨digest, hget⟩
      simp [hmem, hkey]

theorem retractMissing_of_found {files : List String}
    (h : ∀ uri, uri ∉ files → s.hashes.get? uri = none) : retractMissing s files = s := by
  have hnone : s.hashes.keys.filter (fun uri => !files.contains uri) = [] := by
    rw [List.filter_eq_nil_iff]
    intro uri hkey
    obtain ⟨digest, hget⟩ := OrderedMap.mem_keys_iff.mp hkey
    by_cases hmem : uri ∈ files
    · simp [hmem]
    · rw [h uri hmem] at hget
      cases hget
  rw [retractMissing, hnone]
  rfl

end Session

open Session

variable {d : Disturbance} {t : FileTree} {r : Running}

theorem sameSetup_readBatch (d : Disturbance) (t : FileTree) (r : Running) (uris : List String) :
    r.session.SameSetup (readBatch d t r uris).1.session := by
  induction uris generalizing r with
  | nil => exact .refl _
  | cons uri rest ih =>
    have hfile : r.session.SameSetup (readFile d t r uri).1.session := by
      rcases readFile_cases d t r uri with ⟨hsession, -⟩ | ⟨text, -, hsession, -⟩
      · rw [hsession]
        exact .refl _
      · rw [hsession]
        exact .indexText _ uri text false
    rw [readBatch]
    exact hfile.trans (ih (readFile d t r uri).1)

theorem sameSetup_runBatches (d : Disturbance) (t : FileTree) (r : Running) (done : Nat)
    (bs : List (List String)) : r.session.SameSetup (runBatches d t r done bs).1.session := by
  induction bs generalizing r done with
  | nil => exact .refl _
  | cons batch rest ih =>
    rw [runBatches]
    split
    · exact .refl _
    · have hbatch := sameSetup_readBatch d t r (d.order.of batch)
      rw [← session_runBatch d t r batch (done + batch.length)] at hbatch
      dsimp only
      rcases hr : runBatch d t r batch (done + batch.length) with ⟨r', _ | i⟩
      · rw [hr] at hbatch
        exact hbatch.trans (ih r' _)
      · rw [hr] at hbatch
        exact hbatch

theorem sameSetup_runAll (d : Disturbance) (t : FileTree) (s : Session) :
    s.SameSetup (runAll d t s).1.session := by
  unfold runAll
  dsimp only
  split
  · exact .refl s
  · split
    · exact .refl s
    · exact (SameSetup.discovered d s _).trans (sameSetup_runBatches d t _ 0 _)

theorem sameSetup_indexWorkspace (s : Session) (t : FileTree) (d : Disturbance) :
    SameSetup { s with incomplete := (indexWorkspace s t d).session.incomplete }
      (indexWorkspace s t d).session := by
  rcases session_indexWorkspace s t d with ⟨hsame, -⟩ | ⟨-, state, incomplete, hsession⟩
  · rw [hsame]
    exact .refl s
  · obtain ⟨hroot, hconfig, hprevious, -, htime⟩ :=
      sameSetup_runAll d t { s with state := .discovering, incomplete := true }
    rw [hsession]
    exact ⟨hroot, hconfig, hprevious, rfl, htime⟩

def Readable (d : Disturbance) (t : FileTree) (uris : List String) : Prop :=
  ∀ uri ∈ uris, uri ∉ d.failing ∧ (contentHash? t uri).isSome

theorem readFile_eq (d : Disturbance) (t : FileTree) (r : Running) (uri : String) :
    r.cancelled = true ∧ readFile d t r uri = (r, .ok .cancelled) ∨
    uri ∈ d.failing ∧ readFile d t r uri = (r, .ok .failed) ∨
    (∃ i, (readFile d t r uri).2 = .error i) ∨
    r.cancelled = false ∧ ∃ nested, readFile d t r uri =
      ({ r with
          session := (indexFile t r.session uri).1
          cancelled := d.cancelling.contains uri
          nested }, .ok (indexFile t r.session uri).2) := by
  unfold readFile
  split
  · next hcancelled => exact .inl ⟨hcancelled, rfl⟩
  next hcancelled =>
  have hgoing : r.cancelled = false := by simpa using hcancelled
  split
  · next hfail => exact .inr (.inl ⟨by simpa using hfail, rfl⟩)
  split
  · exact .inr (.inr (.inl ⟨_, rfl⟩))
  dsimp only
  generalize hr₁ : (if d.cancelling.contains uri = true then { r with cancelled := true } else r) = r₁
  have h₁ : r₁ = { r with cancelled := d.cancelling.contains uri } := by
    rw [← hr₁]
    split
    · next hcancel => rw [hcancel]
    · next hcancel => rw [Bool.eq_false_iff.mpr hcancel, ← hgoing]
  generalize hr₂ : (if d.reentering.contains uri = true then
    { r₁ with nested := r₁.nested ++ [rejection r₁.session.state] } else r₁) = r₂
  have h₂ : ∃ nested, r₂ = { r with cancelled := d.cancelling.contains uri, nested } := by
    rw [← hr₂, h₁]
    split
    · exact ⟨_, rfl⟩
    · exact ⟨r.nested, rfl⟩
  obtain ⟨nested, rfl⟩ := h₂
  split
  · exact .inr (.inr (.inl ⟨_, rfl⟩))
  split
  · exact .inr (.inr (.inl ⟨_, rfl⟩))
  refine .inr (.inr (.inr ⟨hgoing, nested, ?_⟩))
  unfold indexFile
  cases t.text (Path.ofText uri) <;> rfl

theorem readFile_done {uri : String} {outcome : Outcome}
    (hout : (readFile d t r uri).2 = .ok outcome)
    (hgoing : (readFile d t r uri).1.cancelled = false) (hread : uri ∉ d.failing) :
    r.cancelled = false ∧ (readFile d t r uri).1.session = (indexFile t r.session uri).1 ∧
    (readFile d t r uri).1.counters = r.counters ∧ outcome = (indexFile t r.session uri).2 := by
  rcases readFile_eq d t r uri with ⟨hcancelled, heq⟩ | ⟨hfail, -⟩ | ⟨i, hi⟩ | ⟨hr, nested, heq⟩
  · rw [heq] at hgoing
    rw [hcancelled] at hgoing
    cases hgoing
  · exact absurd hfail hread
  · rw [hi] at hout
    cases hout
  · simp only [heq, Except.ok.injEq] at hout ⊢
    simp only [hr, hout, and_self]

def outcomes (es : List (String × Outcome)) : List (String × Except Interruption Outcome) :=
  es.map fun e => (e.1, .ok e.2)

theorem readBatch_done {uris : List String} {es : List (String × Outcome)}
    (hout : (readBatch d t r uris).2 = outcomes es)
    (hgoing : (readBatch d t r uris).1.cancelled = false) (hread : Readable d t uris) :
    r.cancelled = false ∧ (readBatch d t r uris).1.session = (indexEach t r.session uris).1 ∧
    (readBatch d t r uris).1.counters = r.counters ∧ es = (indexEach t r.session uris).2 := by
  induction uris generalizing r es with
  | nil =>
    have hnil : es = [] := by simpa [readBatch, outcomes] using hout
    exact ⟨hgoing, rfl, rfl, hnil⟩
  | cons uri rest ih =>
    cases es with
    | nil => cases hout
    | cons e es =>
      simp only [readBatch, outcomes, List.map_cons, List.cons.injEq, Prod.ext_iff] at hout hgoing ⊢
      obtain ⟨⟨rfl, hfirst⟩, hout⟩ := hout
      obtain ⟨hnext, hsession, hcounters, rfl⟩ :=
        ih hout hgoing fun v hv => hread v (List.mem_cons_of_mem _ hv)
      obtain ⟨hr, hsession', hcounters', houtcome⟩ :=
        readFile_done hfirst hnext (hread e.1 List.mem_cons_self).1
      rw [hsession'] at hsession ⊢
      simp only [indexEach, ← houtcome, and_true]
      exact ⟨hr, hsession, hcounters.trans hcounters'⟩

theorem Interruption.eq_nil_of_first? {is : List Interruption} (h : first? is = none) : is = [] := by
  cases is with
  | nil => rfl
  | cons i rest => simp [first?] at h

theorem count_congr {s s' : Session} {uri : String} (hprevious : s'.previous = s.previous)
    (hhashes : s'.hashes.get? uri = s.hashes.get? uri) (c : Counters) (outcome : Outcome) :
    count s' c uri outcome = count s c uri outcome := by
  cases outcome <;> simp [count, hprevious, hhashes]

def tally (s : Session) (c : Counters) (outcomes : List (String × Outcome)) : Counters :=
  outcomes.foldl (fun c e => count s c e.1 e.2) c

theorem tally_append (s : Session) (c : Counters) (es more : List (String × Outcome)) :
    tally s c (es ++ more) = tally s (tally s c es) more :=
  List.foldl_append

theorem tally_congr {s s' : Session} (hprevious : s'.previous = s.previous)
    {outcomes : List (String × Outcome)}
    (hhashes : ∀ e ∈ outcomes, s'.hashes.get? e.1 = s.hashes.get? e.1) (c : Counters) :
    tally s' c outcomes = tally s c outcomes := by
  induction outcomes generalizing c with
  | nil => rfl
  | cons e rest ih =>
    have hcount := count_congr hprevious (hhashes e List.mem_cons_self) c e.2
    simp only [tally, List.foldl_cons, hcount]
    exact ih (fun v hv => hhashes v (List.mem_cons_of_mem _ hv)) _

theorem exists_outcomes {found : List (String × Except Interruption Outcome)}
    (h : ∀ e ∈ found, ∃ outcome, e.2 = .ok outcome) : ∃ es, found = outcomes es := by
  induction found with
  | nil => exact ⟨[], rfl⟩
  | cons e rest ih =>
    obtain ⟨⟨outcome, hfirst⟩, hrest⟩ := List.forall_mem_cons.mp h
    obtain ⟨es, rfl⟩ := ih hrest
    exact ⟨(e.1, outcome) :: es, by rw [← Prod.eta e, hfirst]; rfl⟩

theorem outcomes_of_runBatch {batch : List String} {done : Nat}
    (h : (runBatch d t r batch done).2 = none) :
    ∃ es, (readBatch d t r (d.order.of batch)).2 = outcomes es := by
  apply exists_outcomes
  intro e he
  unfold runBatch at h
  dsimp only at h
  split at h
  · cases h
  next hfirst =>
  have hnone := List.filterMap_eq_nil_iff.mp (Interruption.eq_nil_of_first? hfirst) e he
  rcases hout : e.2 with i | outcome
  · simp [hout] at hnone
  · exact ⟨outcome, rfl⟩

theorem runBatch_reports {batch : List String} {es : List (String × Outcome)}
    (h : (readBatch d t r (d.order.of batch)).2 = outcomes es) (done : Nat) :
    runBatch d t r batch done =
      let read := (readBatch d t r (d.order.of batch)).1
      let counters := tally read.session read.counters es
      ({ read with
          cancelled := read.cancelled || d.cancelAfter.any (· ≤ (done : Int))
          counters
          progress := read.progress ++ [(done, counters.total)] }, none) := by
  rcases hrb : readBatch d t r (d.order.of batch) with ⟨r', found⟩
  rw [hrb] at h
  dsimp only at h
  subst h
  have hnone : es.filterMap (fun _ => (none : Option Interruption)) = [] := by simp
  unfold runBatch tally
  simp only [hrb, outcomes, List.filterMap_map, Function.comp_def, hnone, Interruption.first?,
    List.find?_nil, List.head?_nil, Option.or_none, List.foldl_map]
  cases d.cancelAfter.any (· ≤ (done : Int)) <;> simp

theorem Readable.order {batch : List String} (h : Readable d t batch) :
    Readable d t (d.order.of batch) :=
  fun uri huri => h uri ((d.order.perm batch).mem_iff.mp huri)

theorem runBatch_done {batch : List String} {done : Nat}
    (hout : (runBatch d t r batch done).2 = none)
    (hgoing : (runBatch d t r batch done).1.cancelled = false) (hread : Readable d t batch) :
    let read := indexEach t r.session (d.order.of batch)
    (runBatch d t r batch done).1.session = read.1 ∧
    (runBatch d t r batch done).1.counters = tally read.1 r.counters read.2 := by
  obtain ⟨es, hes⟩ := outcomes_of_runBatch hout
  rw [runBatch_reports hes done] at hgoing ⊢
  obtain ⟨hgoing, -⟩ := Bool.or_eq_false_iff.mp hgoing
  obtain ⟨-, hsession, hcounters, rfl⟩ := readBatch_done hes hgoing hread.order
  dsimp only
  rw [hsession, hcounters]
  exact ⟨rfl, rfl⟩

theorem cancelled_runBatches {done : Nat} {bs : List (List String)}
    (h : (runBatches d t r done bs).1.cancelled = false) : r.cancelled = false := by
  cases bs with
  | nil => exact h
  | cons batch rest =>
    cases hr : r.cancelled with
    | false => rfl
    | true =>
      rw [runBatches, if_pos hr] at h
      exact hr.symm.trans h

def ReadOrder.ofAll (order : ReadOrder) (bs : List (List String)) : List String :=
  bs.flatMap order.of

@[simp]
theorem ReadOrder.of_listed (batch : List String) : ReadOrder.listed.of batch = batch := rfl

@[simp]
theorem ReadOrder.ofAll_listed (bs : List (List String)) :
    ReadOrder.listed.ofAll bs = bs.flatten :=
  List.flatMap_id

theorem ReadOrder.perm_ofAll (order : ReadOrder) (bs : List (List String)) :
    (order.ofAll bs).Perm bs.flatten := by
  induction bs with
  | nil => exact .refl _
  | cons batch rest ih => exact (order.perm batch).append ih

theorem runBatches_done {done : Nat} {bs : List (List String)}
    (hout : (runBatches d t r done bs).2 = none)
    (hgoing : (runBatches d t r done bs).1.cancelled = false) (hread : Readable d t bs.flatten) :
    let read := indexEach t r.session (d.order.ofAll bs)
    (runBatches d t r done bs).1.session = read.1 ∧
    (runBatches d t r done bs).1.counters = tally read.1 r.counters read.2 := by
  induction bs generalizing r done with
  | nil => exact ⟨rfl, rfl⟩
  | cons batch rest ih =>
    have hr := cancelled_runBatches hgoing
    rw [runBatches, if_neg (by simp [hr])] at hout hgoing ⊢
    rcases hbatch : runBatch d t r batch (done + batch.length) with ⟨r', _ | i⟩
    · simp only [hbatch] at hout hgoing ⊢
      have hbatchRead : Readable d t batch := fun uri h => hread uri (by simp [h])
      have hrestRead : Readable d t rest.flatten := fun uri h => hread uri (by
        rw [List.flatten_cons]
        exact List.mem_append_right _ h)
      have hone := runBatch_done (congrArg Prod.snd hbatch)
        (by rw [hbatch]; exact cancelled_runBatches hgoing) hbatchRead
      rw [hbatch] at hone
      obtain ⟨hsession, hcounters⟩ := hone
      obtain ⟨hsession', hcounters'⟩ := ih hout hgoing hrestRead
      rw [hsession] at hsession' hcounters'
      rw [ReadOrder.ofAll, List.flatMap_cons, ← ReadOrder.ofAll, indexEach_append, tally_append]
      refine ⟨hsession', ?_⟩
      rw [hcounters', hcounters]
      -- What is counted of the files of this batch does not change in the rest of the run.
      congr 1
      symm
      apply tally_congr (sameSetup_indexEach t _ _).previous
      intro e he
      have hmem : e.1 ∈ d.order.of batch := by
        rw [← map_fst_indexEach t r.session (d.order.of batch)]
        exact List.mem_map_of_mem he
      have hsome := (hbatchRead.order e.1 hmem).2
      rw [get?_indexEach, get?_indexEach_of_mem hmem hsome]
      split
      · exact Option.or_of_isSome hsome
      · rfl
    · simp only [hbatch] at hout
      cases hout

theorem flatten_batches {α : Type} (size : Nat) (l : List α) : (batches size l).flatten = l := by
  fun_induction batches size l with
  | case1 => rfl
  | case2 a rest ih => rw [List.flatten_cons, ih, List.cons_append, List.take_append_drop]

section Undisturbed

theorem readFile_undisturbed (hr : r.cancelled = false) (uri : String) :
    readFile {} t r uri =
      ({ r with session := (indexFile t r.session uri).1 }, .ok (indexFile t r.session uri).2) := by
  have hgoing : ¬r.cancelled = true := by simp [hr]
  unfold readFile indexFile
  rw [if_neg hgoing]
  cases t.text (Path.ofText uri) <;> rfl

theorem readBatch_undisturbed (hr : r.cancelled = false) (uris : List String) :
    readBatch {} t r uris =
      ({ r with session := (indexEach t r.session uris).1 },
        outcomes (indexEach t r.session uris).2) := by
  induction uris generalizing r with
  | nil => rfl
  | cons uri rest ih =>
    have hrest := ih (r := { r with session := (indexFile t r.session uri).1 }) hr
    simp only [readBatch, readFile_undisturbed hr, hrest, indexEach, outcomes, List.map_cons]

theorem runBatches_undisturbed (hr : r.cancelled = false) (done : Nat) (bs : List (List String)) :
    (runBatches {} t r done bs).2 = none ∧ (runBatches {} t r done bs).1.cancelled = false := by
  induction bs generalizing r done with
  | nil => exact ⟨rfl, hr⟩
  | cons batch rest ih =>
    have hbatch := readBatch_undisturbed (t := t) hr (ReadOrder.listed.of batch)
    have heq := runBatch_reports (congrArg Prod.snd hbatch) (done + batch.length)
    rw [runBatches, if_neg (by simp [hr])]
    simp only [heq, hbatch]
    exact ih (by simp [hr]) _

end Undisturbed

variable {s : Session}

theorem runAll_done (hout : (runAll d t s).2 = none) (hgoing : (runAll d t s).1.cancelled = false)
    (hread : Readable d t (s.workspace.findFiles t)) :
    let files := s.workspace.findFiles t
    let uris := d.order.ofAll (batches s.config.indexer.batchSize.toNat files)
    let read := indexEach t (discovered d s files).session uris
    (runAll d t s).1.session = read.1 ∧
    (runAll d t s).1.counters = tally read.1 { total := files.length } read.2 := by
  unfold runAll at hout hgoing ⊢
  cases htime : isNoTime s.config.indexer.timeoutSeconds with
  | true =>
    simp only [htime] at hout
    cases hout
  | false =>
    cases herror : d.discoveryError with
    | some message =>
      simp only [htime, herror] at hout
      cases hout
    | none =>
      simp only [htime, herror, Bool.false_eq_true, if_false] at hout hgoing ⊢
      exact runBatches_done hout hgoing (by rwa [flatten_batches])

namespace RunReport

def completed (report : RunReport) : Bool :=
  report.result.any fun result => result.state = .idle && !result.canRetry

end RunReport

abbrev Session.Busy (s : Session) : Prop := s.state = .discovering ∨ s.state = .batchIndexing

def underway (s : Session) (t : FileTree) (d : Disturbance) : Running × Option Interruption :=
  runAll d t { s with state := .discovering, incomplete := true }

theorem indexWorkspace_of_stored (hfree : ¬s.Busy)
    (hrun : underway s t d = (r, none)) (hgoing : r.cancelled = false) {stored : Bool}
    (hstored : (r.session.saveCache t).stored = .ok stored) :
    indexWorkspace s t d =
      { session := { r.session.refresh with state := .idle, incomplete := false }
        files := (r.session.saveCache t).files
        result := some { state := .idle, counters := r.counters, message := doneMessage r.counters }
        progress := r.progress
        nested := r.nested } := by
  unfold underway at hrun
  unfold indexWorkspace
  simp only [if_neg hfree, hrun, hgoing, hstored, Bool.false_eq_true, if_false]
  rfl

theorem indexWorkspace_ends (s : Session) (t : FileTree) (d : Disturbance) :
    s.Busy ∧ indexWorkspace s t d =
      { session := s, files := t, result := some (rejection s.state) } ∨
    ¬s.Busy ∧ (indexWorkspace s t d).completed = false ∧
      (indexWorkspace s t d).session.incomplete = true ∧
      ((indexWorkspace s t d).files = t ∨
        ∃ f, ((underway s t d).1.session.saveCache t).stored = .error f ∧
          (indexWorkspace s t d).files = ((underway s t d).1.session.saveCache t).files) ∨
    ¬s.Busy ∧ ∃ r stored, underway s t d = (r, none) ∧ r.cancelled = false ∧
      (r.session.saveCache t).stored = .ok stored := by
  unfold indexWorkspace underway
  by_cases hbusy : s.Busy
  · exact .inl ⟨hbusy, if_pos hbusy⟩
  refine .inr ?_
  rw [if_neg hbusy]
  have hsetup := sameSetup_runAll d t { s with state := .discovering, incomplete := true }
  rcases hrun : runAll d t { s with state := .discovering, incomplete := true } with ⟨r, stop⟩
  rw [hrun] at hsetup
  have hincomplete : r.session.incomplete = true := hsetup.incomplete
  cases stop with
  | some i => cases i <;> exact .inl ⟨hbusy, rfl, hincomplete, .inl rfl⟩
  | none =>
    cases hgoing : r.cancelled with
    | true => simp [hgoing, hbusy, hincomplete, RunReport.completed, refresh]
    | false =>
      cases hstored : (r.session.saveCache t).stored with
      | error f => simp [hgoing, hstored, hbusy, hincomplete, RunReport.completed, refresh]
      | ok stored => exact .inr ⟨hbusy, r, stored, rfl, hgoing, hstored⟩

theorem not_completed_of_busy (h : s.Busy) : (indexWorkspace s t d).completed = false := by
  unfold indexWorkspace
  rw [if_pos h]
  rcases h with h | h <;> simp [RunReport.completed, rejection, h]

theorem stored_of_completed (h : (indexWorkspace s t d).completed = true) :
    ¬s.Busy ∧
    ∃ r stored, underway s t d = (r, none) ∧ r.cancelled = false ∧
      (r.session.saveCache t).stored = .ok stored := by
  rcases indexWorkspace_ends s t d with ⟨hbusy, -⟩ | ⟨-, hnot, -⟩ | hdone
  · rw [not_completed_of_busy hbusy] at h
    cases h
  · rw [hnot] at h
    cases h
  · exact hdone

theorem saved_of_completed (h : (indexWorkspace s t d).completed = true) :
    (indexWorkspace s t d).files = ((indexWorkspace s t d).session.saveCache t).files ∧
    ∃ stored, ((indexWorkspace s t d).session.saveCache t).stored = .ok stored := by
  obtain ⟨hfree, r, stored, hrun, hgoing, hstored⟩ := stored_of_completed h
  have hsame : Session.saveCache { r.session.refresh with state := .idle, incomplete := false } t =
      r.session.saveCache t := rfl
  rw [indexWorkspace_of_stored hfree hrun hgoing hstored]
  dsimp only
  rw [hsame]
  exact ⟨rfl, stored, hstored⟩

/-- What a run makes of a session by reading files in the given order, once it has found those that
there are, and what becomes of them. -/
def Session.readInOrder (s : Session) (t : FileTree) (uris : List String) :
    Session × List (String × Outcome) :=
  let found := discovered {} { s with state := .discovering, incomplete := true }
    (s.workspace.findFiles t)
  indexEach t found.session uris

def Session.readAll (s : Session) (t : FileTree) : Session × List (String × Outcome) :=
  s.readInOrder t (s.workspace.findFiles t)

def Session.indexed (s : Session) (t : FileTree) (d : Disturbance) : List String :=
  d.order.ofAll (batches s.config.indexer.batchSize.toNat (s.workspace.findFiles t))

theorem Session.perm_indexed (s : Session) (t : FileTree) (d : Disturbance) :
    (s.indexed t d).Perm (s.workspace.findFiles t) := by
  have hperm := d.order.perm_ofAll
    (batches s.config.indexer.batchSize.toNat (s.workspace.findFiles t))
  rwa [flatten_batches] at hperm

theorem Session.indexed_listed (s : Session) (t : FileTree) :
    s.indexed t {} = s.workspace.findFiles t := by
  rw [indexed, ReadOrder.ofAll_listed, flatten_batches]

theorem indexWorkspace_of_completed (h : (indexWorkspace s t d).completed = true)
    (hread : Readable d t (s.workspace.findFiles t)) :
    let read := s.readInOrder t (s.indexed t d)
    ∃ stored progress nested, (read.1.saveCache t).stored = .ok stored ∧
      indexWorkspace s t d =
        { session := { read.1.refresh with state := .idle, incomplete := false }
          files := (read.1.saveCache t).files
          result :=
            let counters := tally read.1 { total := (s.workspace.findFiles t).length } read.2
            some { state := .idle, counters, message := doneMessage counters }
          progress
          nested } := by
  obtain ⟨hfree, r, stored, hrun, hgoing, hstored⟩ := stored_of_completed h
  have heq := indexWorkspace_of_stored hfree hrun hgoing hstored
  unfold underway at hrun
  obtain ⟨hsession, hcounters⟩ :=
    runAll_done (congrArg Prod.snd hrun) (by rw [hrun]; exact hgoing) hread
  rw [hrun] at hsession hcounters
  replace hsession : r.session = (s.readInOrder t (s.indexed t d)).1 := hsession
  replace hcounters : r.counters = tally (s.readInOrder t (s.indexed t d)).1
    { total := (s.workspace.findFiles t).length } (s.readInOrder t (s.indexed t d)).2 := hcounters
  rw [hsession] at hstored heq
  rw [hcounters] at heq
  exact ⟨stored, r.progress, r.nested, hstored, heq⟩

theorem completed_undisturbed (hfree : ¬s.Busy)
    (htime : isNoTime s.config.indexer.timeoutSeconds = false)
    (hread : Readable {} t (s.workspace.findFiles t)) {stored : Bool}
    (hstored : ((s.readAll t).1.saveCache t).stored = .ok stored) :
    (indexWorkspace s t {}).completed = true := by
  have hdone : (underway s t {}).2 = none ∧ (underway s t {}).1.cancelled = false := by
    unfold underway runAll
    simp only [htime, Bool.false_eq_true, if_false]
    exact runBatches_undisturbed rfl _ _
  obtain ⟨hout, hgoing⟩ := hdone
  have hsession : (underway s t {}).1.session = (s.readAll t).1 := by
    rw [Session.readAll, ← Session.indexed_listed]
    exact (runAll_done hout hgoing hread).1
  rw [← hsession] at hstored
  have hrun : underway s t {} = ((underway s t {}).1, none) := by rw [← hout]
  rw [indexWorkspace_of_stored hfree hrun hgoing hstored]
  rfl

theorem sameSetup_readInOrder (s : Session) (t : FileTree) (uris : List String) :
    SameSetup { s with state := .discovering, incomplete := true } (s.readInOrder t uris).1 := by
  rw [readInOrder]
  exact .trans (.discovered {} _ _) (sameSetup_indexEach t _ _)

theorem get?_readInOrder {uris : List String} (hperm : uris.Perm (s.workspace.findFiles t)) {v : String}
    (hread : Readable d t (s.workspace.findFiles t)) :
    (s.readInOrder t uris).1.hashes.get? v =
      if v ∈ s.workspace.findFiles t then contentHash? t v else none := by
  have hfound := get?_retractMissing { s with state := .discovering, incomplete := true }
    (s.workspace.findFiles t) v
  rw [readInOrder, get?_indexEach, discovered, hfound]
  simp only [hperm.mem_iff]
  split
  · next hmem => rw [Option.or_of_isSome (hread v hmem).2]
  · rfl

theorem get?_completed (h : (indexWorkspace s t d).completed = true)
    (hread : Readable d t (s.workspace.findFiles t)) (uri : String) :
    (indexWorkspace s t d).session.hashes.get? uri =
      if uri ∈ s.workspace.findFiles t then contentHash? t uri else none := by
  obtain ⟨stored, progress, nested, -, heq⟩ := indexWorkspace_of_completed h hread
  rw [heq]
  exact get?_readInOrder (s.perm_indexed t d) hread

end CodeAtlas.Project
