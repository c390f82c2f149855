import CodeAtlas.Proofs.Restart

namespace CodeAtlas.Project

open Workspace Session

variable {s : Session} {t : FileTree} {d : Disturbance}

namespace Session

def cached? (s : Session) (t : FileTree) : Option ByteArray :=
  match s.cachePath with
  | .ok path => (t.bytes path).toOption
  | .error _ => none

def Writable (s : Session) (t : FileTree) : Prop :=
  ∃ path, s.cachePath = .ok path ∧ ∀ content, (t.write path content).fault = none

theorem cached?_of_writable (h : s.Writable t) :
    s.cached? (s.saveCache t).files = some (HashCache.toText s.hashes s.time).toUTF8 := by
  obtain ⟨path, hpath, hwrite⟩ := h
  obtain ⟨-, hbytes⟩ := HashCache.save_of_writable (hwrite .empty) s.hashes s.time
  simp only [cached?, saveCache, hpath, hbytes, Except.toOption]

theorem cached?_of_not_writable (h : ¬s.Writable t) :
    s.cached? (s.saveCache t).files = s.cached? t := by
  unfold cached? saveCache
  cases hpath : s.cachePath with
  | error f => rfl
  | ok path =>
    rcases HashCache.save_cases t path s.hashes s.time with ⟨hfault, -⟩ | ⟨f, -, -, hbytes⟩
    · refine absurd ⟨path, hpath, fun content => ?_⟩ h
      rw [FileTree.fault_write t path content, hfault]
    · exact hbytes

theorem stored_of_writable (h : s.Writable t) : (s.saveCache t).stored = .ok true := by
  obtain ⟨path, hpath, hwrite⟩ := h
  obtain ⟨hstored, -⟩ := HashCache.save_of_writable (hwrite .empty) s.hashes s.time
  simp only [saveCache, hpath, hstored]

end Session

theorem cached?_congr {s' : Session} (h : s'.cachePath = s.cachePath) (t : FileTree) :
    s'.cached? t = s.cached? t := by
  rw [cached?, h, cached?]

theorem bytes_of_cached? {content : ByteArray} (h : s.cached? t = some content) :
    ∃ path, s.cachePath = .ok path ∧ t.bytes path = .ok content := by
  unfold cached? at h
  split at h
  · next path hpath =>
    refine ⟨path, hpath, ?_⟩
    cases hbytes : t.bytes path with
    | error f => simp [hbytes, Except.toOption] at h
    | ok found => simpa [hbytes, Except.toOption] using h
  · cases h

theorem cached?_of_error {f : PathFault} (h : (s.saveCache t).stored = .error f) :
    s.cached? (s.saveCache t).files = s.cached? t := by
  apply cached?_of_not_writable
  intro hwritable
  rw [stored_of_writable hwritable] at h
  cases h

theorem indexWorkspace_cases (s : Session) (t : FileTree) (d : Disturbance) :
    s.Busy ∧ (indexWorkspace s t d).completed = false ∧ (indexWorkspace s t d).session = s ∧
      (indexWorkspace s t d).files = t ∨
    ¬s.Busy ∧ (indexWorkspace s t d).completed = false ∧
      (indexWorkspace s t d).session.incomplete = true ∧
      s.cached? (indexWorkspace s t d).files = s.cached? t ∨
    ¬s.Busy ∧ (indexWorkspace s t d).completed = true ∧
      (indexWorkspace s t d).session.incomplete = false ∧
      (indexWorkspace s t d).files = ((indexWorkspace s t d).session.saveCache t).files := by
  rcases indexWorkspace_ends s t d with
    ⟨hbusy, heq⟩ | ⟨hfree, hnot, hincomplete, hfiles⟩ | ⟨hfree, r, stored, hrun, hgoing, hstored⟩
  · exact .inl ⟨hbusy, not_completed_of_busy hbusy, by rw [heq], by rw [heq]⟩
  · refine .inr (.inl ⟨hfree, hnot, hincomplete, ?_⟩)
    rcases hfiles with hfiles | ⟨f, hstored, hfiles⟩
    · rw [hfiles]
    · have hpath : (underway s t d).1.session.cachePath = s.cachePath :=
        (sameSetup_runAll d t { s with state := .discovering, incomplete := true }).cachePath
      rw [hfiles, ← cached?_congr hpath, ← cached?_congr hpath, cached?_of_error hstored]
  · have heq := indexWorkspace_of_stored hfree hrun hgoing hstored
    have hdone : (indexWorkspace s t d).completed = true := by
      rw [heq]
      rfl
    exact .inr (.inr ⟨hfree, hdone, by rw [heq], (saved_of_completed hdone).1⟩)

theorem Session.SameSetup.handle {event : FileEvent} {uri : String} {answer : Session × Bool}
    (h : s.handle t event uri = .ok answer) : s.SameSetup answer.1 := by
  obtain ⟨request, -, h⟩ := bind_eq_ok h
  cases request with
  | readSchema =>
    obtain ⟨k, hk, h⟩ := bind_eq_ok h
    obtain ⟨schema, rfl⟩ := loadSchema_eq hk
    cases h
    exact ⟨rfl, rfl, rfl, rfl, rfl⟩
  | readRoutes path =>
    obtain ⟨k, hk, h⟩ := bind_eq_ok h
    obtain ⟨routes, rfl⟩ := loadRoutes_eq hk
    cases h
    exact ⟨rfl, rfl, rfl, rfl, rfl⟩
  | retract =>
    cases h
    obtain ⟨hroot, hconfig, hprevious, hincomplete, htime⟩ := SameSetup.retract s uri
    exact ⟨hroot, hconfig, hprevious, hincomplete, htime⟩
  | index text =>
    cases h
    obtain ⟨hroot, hconfig, hprevious, hincomplete, htime⟩ := SameSetup.indexText s uri text false
    exact ⟨hroot, hconfig, hprevious, hincomplete, htime⟩
  | nothing =>
    cases h
    exact .refl s

theorem Session.SameSetup.dispose (s : Session) (t : FileTree) :
    s.SameSetup (s.dispose t).session := by
  unfold Session.dispose
  dsimp only
  split
  · exact ⟨rfl, rfl, rfl, rfl, rfl⟩
  · split
    · exact ⟨rfl, rfl, rfl, rfl, rfl⟩
    · exact .refl s

theorem not_completed_of_cancelled (h : d.cancelled = true) :
    (indexWorkspace s t d).completed = false := by
  cases hdone : (indexWorkspace s t d).completed with
  | false => rfl
  | true =>
    obtain ⟨-, r, stored, hrun, hgoing, -⟩ := stored_of_completed hdone
    unfold underway runAll at hrun
    split at hrun
    · cases hrun
    · split at hrun
      · cases hrun
      · have hstart := cancelled_runBatches (by rw [hrun]; exact hgoing)
        exact h.symm.trans hstart

structure World where
  session : Session
  files : FileTree

/-- What happens to a session and its files. A run that is cut short at any other point than a
disturbance tells is made up of `enter`, `found`, `indexText` and `refresh`. -/
inductive Step where
  | load
  | indexText (uri text : String) (fault : Bool)
  | event (event : FileEvent) (uri : String)
  | run (d : Disturbance)
  | dispose
  | enter (state : RunState)
  | found (files : List String)
  | refresh
  | elsewhere (files : FileTree) (time : Nat)

def Step.isOwn : Step → Bool
  | .elsewhere _ _ => false
  | _ => true

namespace World

def step (w : World) : Step → World
  | .load => { w with session := (w.session.load w.files).1 }
  | .indexText uri text fault => { w with session := (w.session.indexText uri text fault).1 }
  | .event event uri => { w with session := w.session.act (.event w.files event uri) }
  | .run d =>
    let report := indexWorkspace w.session w.files d
    ⟨report.session, report.files⟩
  | .dispose =>
    let ended := w.session.dispose w.files
    ⟨ended.session, ended.files⟩
  | .enter state => { w with session := { w.session with state, incomplete := true } }
  | .found files =>
    { w with session := (discovered {} { w.session with incomplete := true } files).session }
  | .refresh => { w with session := w.session.refresh }
  | .elsewhere files time => ⟨{ w.session with time }, files⟩

def after (w : World) (steps : List Step) : World := steps.foldl step w

def completeAfter (w : World) (before : Bool) : Step → Bool
  | .run d =>
    if w.session.Busy then before else (indexWorkspace w.session w.files d).completed
  | .enter _ | .found _ => false
  | _ => before

def lastCompleted (w : World) (before : Bool) : List Step → Bool
  | [] => before
  | step :: rest => (w.step step).lastCompleted (w.completeAfter before step) rest

def toStore? (w : World) (complete : Bool) : Step → Option HashCache.Hashes
  | .run d =>
    let report := indexWorkspace w.session w.files d
    if report.completed then some report.session.hashes else none
  | .dispose => if complete && !w.session.hashes.isEmpty then some w.session.hashes else none
  | _ => none

def cached? (w : World) : Option ByteArray := w.session.cached? w.files

variable (w : World)

theorem cachePath_step (step : Step) : (w.step step).session.cachePath = w.session.cachePath := by
  cases step with
  | load =>
    obtain ⟨previous, schema, routes, heq⟩ := load_keeps w.session w.files
    rw [step, heq]
    rfl
  | indexText uri text fault => exact (SameSetup.indexText w.session uri text fault).cachePath
  | event event uri =>
    rw [step, act]
    split
    · next hok => exact (SameSetup.handle hok).cachePath
    · rfl
  | run d => exact (sameSetup_indexWorkspace w.session w.files d).cachePath
  | dispose => exact (SameSetup.dispose w.session w.files).cachePath
  | enter state => rfl
  | found files =>
    exact (SameSetup.discovered {} { w.session with incomplete := true } files).cachePath
  | refresh => rfl
  | elsewhere files time => rfl

theorem incomplete_step {before : Bool} (h : w.session.incomplete = !before) (step : Step) :
    (w.step step).session.incomplete = !w.completeAfter before step := by
  cases step with
  | load =>
    obtain ⟨previous, schema, routes, heq⟩ := load_keeps w.session w.files
    rw [step, heq]
    exact h
  | indexText uri text fault =>
    exact (SameSetup.indexText w.session uri text fault).incomplete.trans h
  | event event uri =>
    rw [step, act]
    split
    · next hok => exact (SameSetup.handle hok).incomplete.trans h
    · exact h
  | run d =>
    -- A refused run leaves the flag alone; any other sets it first, and clears it if it completes.
    rw [completeAfter]
    rcases indexWorkspace_cases w.session w.files d with
      ⟨hbusy, -, hsession, -⟩ | ⟨hfree, hdone, hincomplete, -⟩ | ⟨hfree, hdone, hincomplete, -⟩
    · rw [if_pos hbusy, step, hsession]
      exact h
    · rw [if_neg hfree, hdone]
      exact hincomplete
    · rw [if_neg hfree, hdone]
      exact hincomplete
  | dispose => exact (SameSetup.dispose w.session w.files).incomplete.trans h
  | enter state => rfl
  | found files =>
    exact (SameSetup.discovered {} { w.session with incomplete := true } files).incomplete
  | refresh => exact h
  | elsewhere files time => exact h

theorem cached?_step (step : Step) :
    (w.step step).cached? = w.session.cached? (w.step step).files :=
  cached?_congr (w.cachePath_step step) _

theorem files_dispose (s : Session) (t : FileTree) :
    (s.dispose t).files = if s.hashes.isEmpty || s.incomplete then t else (s.saveCache t).files := by
  unfold Session.dispose
  dsimp only
  split
  · rfl
  · split <;> rfl

theorem cached?_step_of_none {complete : Bool} (hflag : w.session.incomplete = !complete)
    {step : Step} (hown : step.isOwn = true) (h : w.toStore? complete step = none) :
    (w.step step).cached? = w.cached? := by
  rw [cached?_step]
  cases step with
  | run d =>
    rcases indexWorkspace_cases w.session w.files d with
      ⟨-, -, -, hfiles⟩ | ⟨-, -, -, hcache⟩ | ⟨-, hdone, -, -⟩
    · rw [step, hfiles]
      rfl
    · exact hcache
    · simp [toStore?, hdone] at h
  | dispose =>
    have hkept : (w.session.hashes.isEmpty || w.session.incomplete) = true := by
      rw [hflag]
      simpa [toStore?, imp_iff_not_or, Bool.or_comm] using h
    rw [step, files_dispose, if_pos hkept]
    rfl
  | elsewhere files time => cases hown
  | _ => rfl

theorem saved_of_toStore? {complete : Bool} (hflag : w.session.incomplete = !complete) {step : Step}
    {hashes : HashCache.Hashes} (h : w.toStore? complete step = some hashes) :
    ∃ s : Session, (w.step step).files = (s.saveCache w.files).files ∧
      s.cachePath = w.session.cachePath ∧ s.hashes = hashes ∧ s.time = w.session.time := by
  cases step with
  | run d =>
    rw [toStore?] at h
    split at h
    · next hdone =>
      cases h
      have hsetup := sameSetup_indexWorkspace w.session w.files d
      exact ⟨_, (saved_of_completed hdone).1, hsetup.cachePath, rfl, hsetup.time⟩
    · cases h
  | dispose =>
    rw [toStore?] at h
    split at h
    · next hstore =>
      cases h
      rw [Bool.and_eq_true, Bool.not_eq_true'] at hstore
      have hwritten : ¬(w.session.hashes.isEmpty || w.session.incomplete) = true := by
        simp [hflag, hstore]
      refine ⟨w.session, ?_, rfl, rfl, rfl⟩
      rw [step, files_dispose, if_neg hwritten]
    · cases h
  | _ => cases h

theorem cached?_step_of_some {complete : Bool} (hflag : w.session.incomplete = !complete)
    {step : Step} {hashes : HashCache.Hashes} (h : w.toStore? complete step = some hashes) :
    (w.session.Writable w.files →
      (w.step step).cached? = some (HashCache.toText hashes w.session.time).toUTF8) ∧
    (¬w.session.Writable w.files → (w.step step).cached? = w.cached?) := by
  obtain ⟨s, hfiles, hpath, hhashes, htime⟩ := w.saved_of_toStore? hflag h
  have hwritable : s.Writable w.files ↔ w.session.Writable w.files := by
    rw [Writable, hpath, Writable]
  rw [cached?_step, hfiles, ← cached?_congr hpath, cached?, ← cached?_congr hpath, ← hwritable,
    ← hhashes, ← htime]
  exact ⟨cached?_of_writable, cached?_of_not_writable⟩

theorem incomplete_after {before : Bool} (h : w.session.incomplete = !before) (steps : List Step) :
    (w.after steps).session.incomplete = !w.lastCompleted before steps := by
  induction steps generalizing w before with
  | nil => exact h
  | cons step rest ih => exact ih (w.step step) (w.incomplete_step h step)

/-- No run of the steps completes, and others leave the stored digests alone. -/
def Unsaved (w : World) : List Step → Prop
  | [] => True
  | step :: rest =>
    (match step with
      | .run d => (indexWorkspace w.session w.files d).completed = false
      | .elsewhere files time => (w.step (.elsewhere files time)).cached? = w.cached?
      | _ => True) ∧ (w.step step).Unsaved rest

theorem cached?_after {w : World} (hflag : w.session.incomplete = true) {steps : List Step}
    (h : w.Unsaved steps) : (w.after steps).cached? = w.cached? := by
  induction steps generalizing w with
  | nil => rfl
  | cons step rest ih =>
    obtain ⟨hstep, hrest⟩ := h
    have hflag : w.session.incomplete = !false := hflag
    -- Only a run that completes could clear the flag, and there is none.
    have hnext : w.completeAfter false step = false := by
      cases step with
      | run d => simp [completeAfter, hstep]
      | _ => rfl
    have hflag' := w.incomplete_step hflag step
    rw [hnext] at hflag'
    have hcache : (w.step step).cached? = w.cached? := by
      cases step with
      | run d => exact w.cached?_step_of_none hflag rfl (by simp [toStore?, hstep])
      | elsewhere files time => exact hstep
      | _ => exact w.cached?_step_of_none hflag rfl rfl
    exact (ih hflag' hrest).trans hcache

/-- What a history of a session does to the stored digests. They are written by a run that completes,
and by the end of the session if the last run has completed or there was none and the session is not
empty; what is written are the digests of that moment. So after a run that does not complete they
stay as they were until one does, also when the session ends. -/
theorem only_complete_runs_are_stored (root : Path) (config : Config) (files : FileTree)
    (before : List Step) :
    let w₀ : World := ⟨Session.start root config, files⟩
    let w := w₀.after before
    let complete := w₀.lastCompleted true before
    (∀ step : Step, step.isOwn = true →
      match w.toStore? complete step with
      | none => (w.step step).cached? = w.cached?
      | some hashes =>
        (w.session.Writable w.files →
          (w.step step).cached? = some (HashCache.toText hashes w.session.time).toUTF8 ∧
          (w.session.time < 10 ^ Json.maxIntegerDigits →
            ∃ stored, (w.step step).session.storedHashes (w.step step).files = .ok stored ∧
              ∀ uri, stored.get? uri = hashes.get? uri)) ∧
        (¬w.session.Writable w.files → (w.step step).cached? = w.cached?)) ∧
    (∀ d later, ¬w.session.Busy → w.Unsaved (.run d :: later) →
      (w.after (.run d :: later)).cached? = w.cached?) ∧
    (complete = false → ∀ later, w.Unsaved later → (w.after later).cached? = w.cached?) := by
  intro w₀ w complete
  have hflag : w.session.incomplete = !complete := w₀.incomplete_after rfl before
  refine ⟨?_, ?_, ?_⟩
  · intro step hown
    split
    · next hnone => exact w.cached?_step_of_none hflag hown hnone
    · next hashes hsome =>
      obtain ⟨hwritable, hnot⟩ := w.cached?_step_of_some hflag hsome
      refine ⟨fun h => ⟨hwritable h, fun htime => ?_⟩, hnot⟩
      obtain ⟨path, hpath, hbytes⟩ := bytes_of_cached? (hwritable h)
      exact ⟨_, storedHashes_of_bytes hpath htime hbytes, HashCache.get?_ofList_sorted hashes⟩
  · intro d later hfree hunsaved
    obtain ⟨hdone, hlater⟩ := hunsaved
    have hnext := w.incomplete_step hflag (.run d)
    rw [completeAfter, if_neg hfree, hdone] at hnext
    have hnone : w.toStore? complete (.run d) = none := by simp [toStore?, hdone]
    have hcache := w.cached?_step_of_none hflag rfl hnone
    exact (cached?_after hnext hlater).trans hcache
  · intro hcomplete later hunsaved
    rw [hcomplete] at hflag
    exact cached?_after hflag hunsaved

def oneKnown : List Step := [.indexText "/app/a.rb" "class A\nend\n" false]

theorem only_complete_runs_are_stored_cancelled :
    let w := World.after ⟨Session.start ⟨"/", ["app"]⟩ {}, twoFiles⟩ oneKnown
    (w.after [.run { cancelled := true }, .event .changed "/app/b.rb", .dispose]).cached? =
      some "[]".toUTF8 ∧
    (w.step (.run {})).cached? =
      some (HashCache.toText (w.step (.run {})).session.hashes 0).toUTF8 := by
  intro w
  obtain ⟨hstep, hcut, -⟩ :=
    only_complete_runs_are_stored ⟨"/", ["app"]⟩ {} twoFiles oneKnown
  have hworkspace : w.session.workspace = ⟨⟨"/", ["app"]⟩, {}⟩ :=
    (SameSetup.indexText _ _ _ _).workspace
  have hread := readable_twoFiles
  rw [← hworkspace] at hread
  have hfree : ¬w.session.Busy := by decide
  have hpath : w.session.cachePath = .ok ⟨"/", ["app", ".railsight", "index.json"]⟩ := rfl
  have hwritable : w.session.Writable twoFiles :=
    ⟨_, hpath, fun content => by rw [FileTree.write_of_file locate_twoFiles rfl]⟩
  have hdone : (indexWorkspace w.session twoFiles {}).completed = true :=
    completed_of_file hfree (by decide) hread hpath locate_twoFiles rfl
  have hcancelled : (indexWorkspace w.session twoFiles { cancelled := true }).completed = false :=
    not_completed_of_cancelled rfl
  have hunsaved : w.Unsaved [.run { cancelled := true }, .event .changed "/app/b.rb", .dispose] :=
    ⟨hcancelled, trivial, trivial, trivial⟩
  constructor
  · exact (hcut { cancelled := true } _ hfree hunsaved).trans rfl
  · have hstored := hstep (.run {}) rfl
    rw [show w.toStore? _ (.run {}) = some (w.step (.run {})).session.hashes from if_pos hdone]
      at hstored
    exact (hstored.1 hwritable).1

end World

end CodeAtlas.Project
