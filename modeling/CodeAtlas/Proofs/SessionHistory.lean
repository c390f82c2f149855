import CodeAtlas.Project.Run
import CodeAtlas.Proofs.Results

/-!
The histories of a session. What holds of the index, and is kept when a text is indexed, a file is
taken back, calls are resolved and the session ends, holds after every history: runs, however they
are cut short, and file events are made of these steps.
-/

namespace CodeAtlas.Project

open Workspace

namespace Session

def indexedText (s : Session) (uri text : String) (fault : Bool) : List (String × String) :=
  if (s.indexText uri text fault).2 = .indexed then [(uri, text)] else []

theorem loadSchema_eq {s s' : Session} {t : FileTree} (h : s.loadSchema t = .ok s') :
    ∃ schema, s' = { s with schema } := by
  unfold loadSchema at h
  split at h
  · cases h
    exact ⟨_, rfl⟩
  · next path _ =>
    obtain ⟨found, -, h⟩ := bind_eq_ok h
    cases h
    exact ⟨_, rfl⟩

theorem loadRoutes_eq {s s' : Session} {t : FileTree} {path : Path}
    (h : s.loadRoutes t path = .ok s') : ∃ routes, s' = { s with routes } := by
  unfold loadRoutes at h
  split at h
  · cases h
    exact ⟨_, rfl⟩
  · split at h
    · cases h
    · cases h
      exact ⟨_, rfl⟩

theorem attempt_induction {ε : Type} {P : Session → Prop}
    {steps : List (Session → Except ε Session)}
    (hsteps : ∀ step ∈ steps, ∀ s s', P s → step s = .ok s' → P s') {s : Session} (hs : P s) :
    P (s.attempt steps).1 := by
  induction steps generalizing s with
  | nil => exact hs
  | cons step rest ih =>
    rw [attempt]
    split
    · next s' hstep =>
      apply ih fun step' hmem => hsteps step' (List.mem_cons_of_mem _ hmem)
      exact hsteps step List.mem_cons_self s s' hs hstep
    · exact hs

end Session

def readTexts (t : FileTree) (outcomes : List (String × Except Interruption Outcome)) :
    List (String × String) :=
  outcomes.filterMap fun (uri, outcome) =>
    match outcome, t.text (Path.ofText uri) with
    | .ok .indexed, .ok text => some (uri, text)
    | _, _ => none

theorem readFile_cases (d : Disturbance) (t : FileTree) (r : Running) (uri : String) :
    (readFile d t r uri).1.session = r.session ∧ (readFile d t r uri).2 ≠ .ok .indexed ∨
    ∃ text, t.text (Path.ofText uri) = .ok text ∧
      (readFile d t r uri).1.session = (r.session.indexText uri text false).1 ∧
      (readFile d t r uri).2 = .ok (r.session.indexText uri text false).2 := by
  unfold readFile
  split
  · exact .inl ⟨rfl, by simp⟩
  split
  · exact .inl ⟨rfl, by simp⟩
  split
  · exact .inl ⟨rfl, by simp⟩
  dsimp only
  generalize hr₁ : (if d.cancelling.contains uri = true then { r with cancelled := true } else r) = r₁
  have hs₁ : r₁.session = r.session := by
    rw [← hr₁]
    split <;> rfl
  generalize hr₂ : (if d.reentering.contains uri = true then
    { r₁ with nested := r₁.nested ++ [rejection r₁.session.state] } else r₁) = r₂
  have hs₂ : r₂.session = r.session := by
    rw [← hr₂, ← hs₁]
    split <;> rfl
  split
  · exact .inl ⟨hs₂, by simp⟩
  split
  · exact .inl ⟨hs₂, by simp⟩
  split
  · exact .inl ⟨hs₂, by simp⟩
  · next text htext =>
    rw [hs₂]
    exact .inr ⟨text, htext, rfl, rfl⟩

theorem session_runBatch (d : Disturbance) (t : FileTree) (r : Running) (batch : List String)
    (done : Nat) :
    (runBatch d t r batch done).1.session = (readBatch d t r (d.order.of batch)).1.session := by
  unfold runBatch
  dsimp only
  split
  · rfl
  · dsimp only
    split <;> rfl

def batchTexts (d : Disturbance) (t : FileTree) (r : Running) (done : Nat) :
    List (List String) → List (String × String)
  | [] => []
  | batch :: rest =>
    if r.cancelled then []
    else
      let done := done + batch.length
      readTexts t (readBatch d t r (d.order.of batch)).2 ++
        match runBatch d t r batch done with
        | (r, none) => batchTexts d t r done rest
        | (_, some _) => []

def workspaceTexts (d : Disturbance) (t : FileTree) (s : Session) : List (String × String) :=
  if isNoTime s.config.indexer.timeoutSeconds ∨ d.discoveryError.isSome then []
  else
    let files := s.workspace.findFiles t
    batchTexts d t (discovered d s files) 0 (batches s.config.indexer.batchSize.toNat files)

theorem session_indexWorkspace (s : Session) (t : FileTree) (d : Disturbance) :
    (indexWorkspace s t d).session = s ∧ (s.state = .discovering ∨ s.state = .batchIndexing) ∨
    ¬(s.state = .discovering ∨ s.state = .batchIndexing) ∧
    ∃ state incomplete, (indexWorkspace s t d).session =
      { (runAll d t { s with state := .discovering, incomplete := true }).1.session.refresh with
        state, incomplete } := by
  unfold indexWorkspace
  split
  · next hbusy => exact .inl ⟨rfl, hbusy⟩
  · next hfree =>
    refine .inr ⟨hfree, ?_⟩
    dsimp only
    split
    · exact ⟨_, _, rfl⟩
    · exact ⟨_, _, rfl⟩
    · exact ⟨_, _, rfl⟩
    · split
      · exact ⟨_, _, rfl⟩
      · split
        · exact ⟨_, _, rfl⟩
        · exact ⟨_, _, rfl⟩

/-- What happens to a session. A run or an event that waits for its files lets other actions in
between; the last three are its parts, which with `indexText` make up the whole. -/
inductive Action where
  | load (t : FileTree)
  | indexText (uri text : String) (fault : Bool)
  | event (t : FileTree) (event : FileEvent) (uri : String)
  | run (t : FileTree) (d : Disturbance)
  | dispose (t : FileTree)
  | enter (state : RunState) (incomplete : Bool)
  | discovered (d : Disturbance) (files : List String)
  | refresh

namespace Session

def act (s : Session) : Action → Session
  | .load t => (s.load t).1
  | .indexText uri text fault => (s.indexText uri text fault).1
  | .event t event uri =>
    match s.handle t event uri with
    | .ok (s, _) => s
    | .error _ => s
  | .run t d => (indexWorkspace s t d).session
  | .dispose t => (s.dispose t).session
  | .enter state incomplete => { s with state, incomplete }
  | .discovered d files => (discovered d s files).session
  | .refresh => s.refresh

def texts (s : Session) : Action → List (String × String)
  | .indexText uri text fault => s.indexedText uri text fault
  | .event t event uri =>
    match s.request t event uri with
    | .ok (.index text) => s.indexedText uri text false
    | _ => []
  | .run t d =>
    if s.state = .discovering ∨ s.state = .batchIndexing then []
    else workspaceTexts d t { s with state := .discovering, incomplete := true }
  | _ => []

def after (s : Session) (actions : List Action) : Session := actions.foldl act s

def journal (s : Session) : List Action → List (String × String)
  | [] => []
  | action :: rest => s.texts action ++ (s.act action).journal rest

end Session

/-- What the steps keep. It speaks of the index and of the texts that were last indexed; what else
there is in a session may change. -/
structure IndexInvariant (P : Session → OrderedMap String String → Prop) : Prop where
  quiet : ∀ {s s' : Session} {texts}, P s texts → s'.graph = s.graph → s'.engine = s.engine →
    s'.hashes = s.hashes → s'.metadata = s.metadata → P s' texts
  refresh : ∀ {s : Session} {texts}, P s texts → P s.refresh texts
  retract : ∀ {s : Session} {texts}, P s texts → ∀ uri, P (s.retract uri) texts
  indexText : ∀ {s : Session} {texts}, P s texts → ∀ uri text fault,
    P (s.indexText uri text fault).1 (texts.insertAll (s.indexedText uri text fault))
  ended : ∀ {s : Session} {texts}, P s texts →
    P { s with graph := .empty, engine := s.engine.clear, hashes := ∅, metadata := ∅ } texts

namespace IndexInvariant

variable {P : Session → OrderedMap String String → Prop} {s : Session} {r : Running}
  {texts : OrderedMap String String}

theorem readFile (hP : IndexInvariant P) (h : P r.session texts) (d : Disturbance) (t : FileTree)
    (uri : String) :
    P (readFile d t r uri).1.session
      (texts.insertAll (readTexts t [(uri, (Project.readFile d t r uri).2)])) := by
  rcases readFile_cases d t r uri with ⟨hsession, hout⟩ | ⟨text, htext, hsession, hout⟩
  · have hnone : readTexts t [(uri, (Project.readFile d t r uri).2)] = [] := by
      rw [readTexts, List.filterMap_cons]
      dsimp only
      split
      · rfl
      · next hsome =>
        split at hsome
        · next heq _ => exact absurd heq hout
        · cases hsome
    rw [hsession, hnone]
    exact h
  · have htexts : readTexts t [(uri, (Project.readFile d t r uri).2)] =
        r.session.indexedText uri text false := by
      rw [hout, Session.indexedText]
      cases (r.session.indexText uri text false).2 <;> simp [readTexts, htext]
    rw [hsession, htexts]
    exact hP.indexText h uri text false

theorem readBatch (hP : IndexInvariant P) (h : P r.session texts) (d : Disturbance) (t : FileTree)
    (uris : List String) :
    P (readBatch d t r uris).1.session
      (texts.insertAll (readTexts t (Project.readBatch d t r uris).2)) := by
  induction uris generalizing r texts with
  | nil => exact h
  | cons uri rest ih =>
    have hrest := ih (hP.readFile h d t uri)
    rw [← OrderedMap.insertAll_append, readTexts, readTexts, ← List.filterMap_append] at hrest
    exact hrest

theorem runBatches (hP : IndexInvariant P) (h : P r.session texts) (d : Disturbance) (t : FileTree)
    (done : Nat) (bs : List (List String)) :
    P (runBatches d t r done bs).1.session (texts.insertAll (batchTexts d t r done bs)) := by
  induction bs generalizing r texts done with
  | nil => exact h
  | cons batch rest ih =>
    rw [Project.runBatches, batchTexts]
    split
    · exact h
    · have hbatch := hP.readBatch h d t (d.order.of batch)
      rw [← session_runBatch d t r batch (done + batch.length)] at hbatch
      dsimp only
      rw [OrderedMap.insertAll_append]
      rcases hr : runBatch d t r batch (done + batch.length) with ⟨r', _ | i⟩
      · rw [hr] at hbatch
        exact ih hbatch _
      · rw [hr] at hbatch
        exact hbatch

theorem foldl_retract (hP : IndexInvariant P) (h : P s texts) (uris : List String) :
    P (uris.foldl Session.retract s) texts := by
  induction uris generalizing s with
  | nil => exact h
  | cons uri rest ih => exact ih (hP.retract h uri)

theorem discovered (hP : IndexInvariant P) (h : P s texts) (d : Disturbance)
    (files : List String) : P (discovered d s files).session texts :=
  hP.quiet (hP.foldl_retract h _) rfl rfl rfl rfl

theorem runAll (hP : IndexInvariant P) (h : P s texts) (d : Disturbance) (t : FileTree) :
    P (runAll d t s).1.session (texts.insertAll (workspaceTexts d t s)) := by
  unfold Project.runAll workspaceTexts
  dsimp only
  cases htime : isNoTime s.config.indexer.timeoutSeconds with
  | true => exact h
  | false =>
    cases hfault : d.discoveryError with
    | some message => exact h
    | none => exact hP.runBatches (hP.discovered h d _) d t 0 _

theorem run (hP : IndexInvariant P) (h : P s texts) (t : FileTree) (d : Disturbance) :
    P (indexWorkspace s t d).session (texts.insertAll (s.texts (.run t d))) := by
  rw [Session.texts]
  rcases session_indexWorkspace s t d with ⟨hsame, hbusy⟩ | ⟨hfree, state, incomplete, hsession⟩
  · rw [if_pos hbusy, hsame]
    exact h
  · rw [if_neg hfree, hsession]
    have hstart : P { s with state := .discovering, incomplete := true } texts :=
      hP.quiet h rfl rfl rfl rfl
    exact hP.quiet (hP.refresh (hP.runAll hstart d t)) rfl rfl rfl rfl

theorem load (hP : IndexInvariant P) (h : P s texts) (t : FileTree) : P (s.load t).1 texts := by
  apply Session.attempt_induction (P := fun s => P s texts) _ h
  intro step hstep k k' hk hok
  simp only [List.mem_cons, List.not_mem_nil, or_false] at hstep
  rcases hstep with rfl | rfl | rfl
  · obtain ⟨previous, -, rfl⟩ := map_eq_ok hok
    exact hP.quiet hk rfl rfl rfl rfl
  · obtain ⟨schema, rfl⟩ := Session.loadSchema_eq (mapError_eq_ok hok)
    exact hP.quiet hk rfl rfl rfl rfl
  · obtain ⟨path, -, hroutes⟩ := bind_eq_ok (mapError_eq_ok hok)
    obtain ⟨routes, rfl⟩ := Session.loadRoutes_eq hroutes
    exact hP.quiet hk rfl rfl rfl rfl

theorem handle (hP : IndexInvariant P) (h : P s texts) {t : FileTree} {event : FileEvent}
    {uri : String} {answer : Session × Bool} (hok : s.handle t event uri = .ok answer) :
    P answer.1 (texts.insertAll (s.texts (.event t event uri))) := by
  obtain ⟨request, hrequest, hok⟩ := bind_eq_ok hok
  rw [Session.texts, hrequest]
  cases request with
  | readSchema =>
    obtain ⟨k, hk, hok⟩ := bind_eq_ok hok
    obtain ⟨schema, rfl⟩ := Session.loadSchema_eq hk
    cases hok
    exact hP.quiet h rfl rfl rfl rfl
  | readRoutes path =>
    obtain ⟨k, hk, hok⟩ := bind_eq_ok hok
    obtain ⟨routes, rfl⟩ := Session.loadRoutes_eq hk
    cases hok
    exact hP.quiet h rfl rfl rfl rfl
  | retract =>
    cases hok
    exact hP.refresh (hP.retract h uri)
  | index text =>
    cases hok
    exact hP.refresh (hP.indexText h uri text false)
  | nothing =>
    cases hok
    exact h

theorem dispose (hP : IndexInvariant P) (h : P s texts) (t : FileTree) :
    P (s.dispose t).session texts := by
  unfold Session.dispose
  dsimp only
  split
  · exact hP.ended h
  · split
    · exact hP.ended h
    · exact h

theorem act (hP : IndexInvariant P) (h : P s texts) (action : Action) :
    P (s.act action) (texts.insertAll (s.texts action)) := by
  cases action with
  | load t => exact hP.load h t
  | indexText uri text fault => exact hP.indexText h uri text fault
  | event t event uri =>
    cases hok : s.handle t event uri with
    | ok answer =>
      rw [Session.act, hok]
      exact hP.handle h hok
    | error fault =>
      -- An event fails over a path only, before any text is indexed.
      have hnone : s.texts (.event t event uri) = [] := by
        rw [Session.texts]
        split
        · next text hrequest =>
          rw [Session.handle, hrequest] at hok
          cases hok
        · rfl
      rw [Session.act, hok, hnone]
      exact h
  | run t d => exact hP.run h t d
  | dispose t => exact hP.dispose h t
  | enter state incomplete => exact hP.quiet h rfl rfl rfl rfl
  | discovered d files => exact hP.discovered h d files
  | refresh => exact hP.refresh h

theorem after (hP : IndexInvariant P) (h : P s texts) (actions : List Action) :
    P (s.after actions) (texts.insertAll (s.journal actions)) := by
  induction actions generalizing s texts with
  | nil => exact h
  | cons action rest ih =>
    rw [Session.journal, OrderedMap.insertAll_append]
    exact ih (hP.act h action)

end IndexInvariant

end CodeAtlas.Project
