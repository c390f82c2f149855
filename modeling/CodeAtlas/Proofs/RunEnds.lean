import CodeAtlas.Proofs.CacheWrites
import CodeAtlas.Proofs.CallResolution
import CodeAtlas.Proofs.FileTexts

/-!
How runs end. Wherever a run is cut short, the session is free for the next run, the calls are
resolved, and each file is in the index as a whole or not at all. The state is a final one, unless
the digests have no place to be stored in.
-/

namespace CodeAtlas.Project

open Workspace Session

variable {s : Session} {t : FileTree} {d : Disturbance}

def Running.conclude (r : Running) (t : FileTree) (stop : Option Interruption) : RunReport :=
  let finish := fun (state : RunState) (result : Option RunResult) (files : FileTree) =>
    { session := { r.session with state }.refresh, files, result
      progress := r.progress, nested := r.nested : RunReport }
  match stop with
  | some (.crashed message) =>
    finish .idle (some
      { state := .idle, counters := r.counters, canRetry := true
        message := "Indexing failed; results may be incomplete (" ++ message ++ ")" }) t
  | some .timedOut =>
    finish .timedOut (some
      { state := .timedOut, counters := r.counters, canRetry := true
        message := "Indexing timed out; results may be incomplete" }) t
  | some .killed => finish .cancelled none t
  | none =>
    if r.cancelled then
      finish .cancelled (some
        { state := .cancelled, counters := r.counters, message := "Indexing cancelled" }) t
    else
      let saved := r.session.saveCache t
      match saved.stored with
      | .error f => { finish .saving none saved.files with fault := some f }
      | .ok _ =>
        let report := finish .idle (some
          { state := .idle, counters := r.counters, message := doneMessage r.counters })
          saved.files
        { report with session.incomplete := false }

theorem indexWorkspace_eq_conclude (hfree : ¬s.Busy) (t : FileTree) (d : Disturbance) :
    indexWorkspace s t d = (underway s t d).1.conclude t (underway s t d).2 := by
  unfold indexWorkspace
  rw [if_neg hfree]
  rfl

theorem session_conclude (r : Running) (t : FileTree) (stop : Option Interruption) :
    ∃ state incomplete, (r.conclude t stop).session =
        { r.session.refresh with state, incomplete } ∧
      state ∈ [RunState.idle, .saving, .cancelled, .timedOut] := by
  unfold Running.conclude
  dsimp only
  split
  · exact ⟨.idle, _, rfl, by simp⟩
  · exact ⟨.timedOut, _, rfl, by simp⟩
  · exact ⟨.cancelled, _, rfl, by simp⟩
  · split
    · exact ⟨.cancelled, _, rfl, by simp⟩
    · split
      · exact ⟨.saving, _, rfl, by simp⟩
      · exact ⟨.idle, _, rfl, by simp⟩

structure RunReport.Final (report : RunReport) (stop : Option Interruption) : Prop where
  fault : report.fault = none
  state : report.session.state ∈ [RunState.idle, .cancelled, .timedOut]
  result : stop ≠ some .killed → ∃ result, report.result = some result ∧
    result.state = report.session.state ∧
    (result.canRetry = true ↔ stop = some .timedOut ∨ ∃ message, stop = some (.crashed message))

theorem final_conclude {r : Running} {stop : Option Interruption}
    (h : ∃ stored, (r.session.saveCache t).stored = .ok stored) : (r.conclude t stop).Final stop := by
  obtain ⟨stored, hstored⟩ := h
  cases stop with
  | some i =>
    cases i with
    | crashed message =>
      exact ⟨rfl, by simp [Running.conclude, refresh], fun _ => ⟨_, rfl, rfl, by simp⟩⟩
    | killed => exact ⟨rfl, by simp [Running.conclude, refresh], fun h => absurd rfl h⟩
    | timedOut => exact ⟨rfl, by simp [Running.conclude, refresh], fun _ => ⟨_, rfl, rfl, by simp⟩⟩
  | none =>
    cases hcancelled : r.cancelled with
    | true => constructor <;> simp [Running.conclude, hcancelled, refresh]
    | false => constructor <;> simp [Running.conclude, hcancelled, hstored, refresh]

theorem isNoPath_writeFile {path : Path} {content : ByteArray} {f : PathFault}
    (h : t.writeFile path content = .error f) : f.isNoPath = FileTree.hasNull path := by
  unfold FileTree.writeFile at h
  cases hlocate : t.locate path with
  | error f' =>
    rw [hlocate] at h
    cases h
    exact FileTree.isNoPath_locate hlocate
  | ok place =>
    have hnull := (FileTree.locate_eq_ok_iff.mp hlocate).1
    simp only [hlocate, bind, Except.bind] at h
    split at h
    · cases h
      rw [hnull]
      rfl
    · cases h

theorem stored_of_not_null {path : Path} (hpath : s.cachePath = .ok path)
    (hnull : FileTree.hasNull path = false) (t : FileTree) :
    ∃ stored, (s.saveCache t).stored = .ok stored := by
  rw [saveCache, hpath]
  rcases HashCache.save_cases t path s.hashes s.time with ⟨-, hstored, -⟩ | ⟨f, hfault, hstored, -⟩
  · exact ⟨true, hstored⟩
  · have hparent : FileTree.hasNull path.parent = false := by
      obtain ⟨root, parts⟩ := path
      cases parts using List.reverseRecOn with
      | nil => exact hnull
      | append_singleton front last _ =>
        rw [Path.parent, List.dropLast_concat]
        exact FileTree.hasNull_above hnull
    have hplace : f.isNoPath = false := by
      rcases FileTree.write_cases t path with ⟨place, -, -, -, heq⟩ | ⟨f', heq, hmade | ⟨-, hwrite⟩⟩
      · rw [heq] at hfault
        cases hfault
      · rw [heq] at hfault
        cases hfault
        exact (FileTree.isNoPath_makeParts hmade).trans hparent
      · rw [heq] at hfault
        cases hfault
        exact (isNoPath_writeFile (hwrite .empty)).trans hnull
    exact ⟨false, by rw [hstored, hplace]; rfl⟩

/-- The sessions that a run over the files may have come to when something cuts it short: the run
enters, looks for its files and reads them in any order. -/
inductive Session.OnTheWay (t : FileTree) (s : Session) : Session → Prop where
  | entered : OnTheWay t s { s with state := .discovering, incomplete := true }
  | found {k : Session} (h : OnTheWay t s k) (files : List String) :
    OnTheWay t s (discovered {} k files).session
  | read {k : Session} (h : OnTheWay t s k) (uri : String) : OnTheWay t s (indexFile t k uri).1

theorem indexFile_of_text {uri text : String} (h : t.text (Path.ofText uri) = .ok text) :
    indexFile t s uri = s.indexText uri text false := by
  unfold indexFile
  split
  · next text' h' =>
    rw [h] at h'
    cases h'
    rfl
  · next f h' =>
    rw [h] at h'
    cases h'

theorem onTheWay_readBatch {r : Running} (h : s.OnTheWay t r.session) (d : Disturbance)
    (uris : List String) : s.OnTheWay t (readBatch d t r uris).1.session := by
  induction uris generalizing r with
  | nil => exact h
  | cons uri rest ih =>
    have hfile : s.OnTheWay t (readFile d t r uri).1.session := by
      rcases readFile_cases d t r uri with ⟨hsession, -⟩ | ⟨text, htext, hsession, -⟩
      · rw [hsession]
        exact h
      · rw [hsession, ← indexFile_of_text htext]
        exact h.read uri
    rw [readBatch]
    exact ih hfile

theorem onTheWay_runBatches {r : Running} (h : s.OnTheWay t r.session) (d : Disturbance) (done : Nat)
    (bs : List (List String)) : s.OnTheWay t (runBatches d t r done bs).1.session := by
  induction bs generalizing r done with
  | nil => exact h
  | cons batch rest ih =>
    rw [runBatches]
    split
    · exact h
    · have hbatch := onTheWay_readBatch h d (d.order.of batch)
      rw [← session_runBatch d t r batch (done + batch.length)] at hbatch
      dsimp only
      rcases hr : runBatch d t r batch (done + batch.length) with ⟨r', _ | i⟩
      · rw [hr] at hbatch
        exact ih hbatch _
      · rw [hr] at hbatch
        exact hbatch

theorem onTheWay_underway (s : Session) (t : FileTree) (d : Disturbance) :
    s.OnTheWay t (underway s t d).1.session := by
  unfold underway runAll
  dsimp only
  split
  · exact .entered
  · split
    · exact .entered
    · apply onTheWay_runBatches
      exact OnTheWay.entered.found _

theorem Session.OnTheWay.cachePath {k : Session} (h : s.OnTheWay t k) :
    k.cachePath = s.cachePath := by
  induction h with
  | entered => rfl
  | found h files ih => exact (SameSetup.discovered {} _ files).cachePath.trans ih
  | read h uri ih => exact (sameSetup_indexFile t _ uri).cachePath.trans ih

theorem IndexInvariant.and {P Q : Session → OrderedMap String String → Prop}
    (hP : IndexInvariant P) (hQ : IndexInvariant Q) :
    IndexInvariant fun s texts => P s texts ∧ Q s texts where
  quiet h hgraph hengine hhashes hmetadata :=
    ⟨hP.quiet h.1 hgraph hengine hhashes hmetadata, hQ.quiet h.2 hgraph hengine hhashes hmetadata⟩
  refresh h := ⟨hP.refresh h.1, hQ.refresh h.2⟩
  retract h uri := ⟨hP.retract h.1 uri, hQ.retract h.2 uri⟩
  indexText h uri text fault := ⟨hP.indexText h.1 uri text fault, hQ.indexText h.2 uri text fault⟩
  ended h := ⟨hP.ended h.1, hQ.ended h.2⟩

theorem IndexInvariant.onTheWay {P : Session → OrderedMap String String → Prop}
    (hP : IndexInvariant P) (texts : OrderedMap String String) (h : P s texts) {k : Session}
    (hway : s.OnTheWay t k) : ∃ texts, P k texts := by
  induction hway with
  | entered => exact ⟨texts, hP.quiet h rfl rfl rfl rfl⟩
  | found _ files ih =>
    obtain ⟨texts, hk⟩ := ih
    exact ⟨texts, hP.discovered hk {} files⟩
  | read _ uri ih =>
    obtain ⟨texts, hk⟩ := ih
    unfold indexFile
    split
    · exact ⟨_, hP.indexText hk uri _ false⟩
    · exact ⟨texts, hk⟩

def Action.isOutside : Action → Bool
  | .run _ _ | .enter _ _ | .discovered _ _ => false
  | _ => true

inductive Session.Lives (root : Path) (config : Config) : Session → Prop where
  | start : Lives root config (start root config)
  | ran {s : Session} (h : Lives root config s) (t : FileTree) {r : Running}
    (hway : s.OnTheWay t r.session) (stop : Option Interruption) :
    Lives root config (r.conclude t stop).session
  | acted {s : Session} (h : Lives root config s) {action : Action}
    (houtside : action.isOutside = true) : Lives root config (s.act action)

theorem IndexInvariant.lives {P : Session → OrderedMap String String → Prop}
    (hP : IndexInvariant P) {root : Path} {config : Config} (texts : OrderedMap String String)
    (hstart : P (start root config) texts) (h : Lives root config s) : ∃ texts, P s texts := by
  induction h with
  | start => exact ⟨texts, hstart⟩
  | ran _ t hway stop ih =>
    obtain ⟨texts, hs⟩ := ih
    obtain ⟨texts, hk⟩ := hP.onTheWay texts hs hway
    obtain ⟨state, incomplete, heq, -⟩ := session_conclude _ t stop
    rw [heq]
    exact ⟨texts, hP.quiet (hP.refresh hk) rfl rfl rfl rfl⟩
  | acted _ _ ih =>
    obtain ⟨texts, hs⟩ := ih
    exact ⟨_, hP.act hs _⟩

section Outside

theorem state_indexText (s : Session) (uri text : String) (fault : Bool) :
    (s.indexText uri text fault).1.state = s.state := by
  unfold Session.indexText
  dsimp only
  split
  · rfl
  · split <;> split <;> rfl

theorem state_handle {event : FileEvent} {uri : String} {answer : Session × Bool}
    (h : s.handle t event uri = .ok answer) : answer.1.state = s.state := by
  obtain ⟨request, -, h⟩ := bind_eq_ok h
  cases request with
  | readSchema =>
    obtain ⟨k, hk, h⟩ := bind_eq_ok h
    obtain ⟨schema, rfl⟩ := loadSchema_eq hk
    cases h
    rfl
  | readRoutes path =>
    obtain ⟨k, hk, h⟩ := bind_eq_ok h
    obtain ⟨routes, rfl⟩ := loadRoutes_eq hk
    cases h
    rfl
  | retract =>
    cases h
    rfl
  | index text =>
    cases h
    exact state_indexText s uri text false
  | nothing =>
    cases h
    rfl

theorem state_dispose (s : Session) (t : FileTree) : (s.dispose t).session.state = s.state := by
  unfold Session.dispose
  dsimp only
  split
  · rfl
  · split <;> rfl

theorem act_outside {action : Action} (h : action.isOutside = true) :
    (s.act action).state = s.state ∧ (s.act action).cachePath = s.cachePath := by
  cases action with
  | load t =>
    obtain ⟨previous, schema, routes, heq⟩ := load_keeps s t
    rw [act, heq]
    exact ⟨rfl, rfl⟩
  | indexText uri text fault =>
    exact ⟨state_indexText s uri text fault, (SameSetup.indexText s uri text fault).cachePath⟩
  | event t event uri =>
    rw [act]
    split
    · next hok => exact ⟨state_handle hok, (SameSetup.handle hok).cachePath⟩
    · exact ⟨rfl, rfl⟩
  | dispose t => exact ⟨state_dispose s t, (SameSetup.dispose s t).cachePath⟩
  | refresh => exact ⟨rfl, rfl⟩
  | _ => cases h

end Outside

theorem Session.Lives.free {root : Path} {config : Config} (h : Lives root config s) :
    ¬s.Busy ∧ s.cachePath = (Session.start root config).cachePath := by
  induction h with
  | start => exact ⟨by simp [Session.start], rfl⟩
  | @ran s _ t r hway stop ih =>
    obtain ⟨state, incomplete, heq, hstate⟩ := session_conclude r t stop
    rw [heq]
    refine ⟨?_, hway.cachePath.trans ih.2⟩
    rintro (rfl | rfl) <;> simp at hstate
  | acted _ houtside ih =>
    obtain ⟨hstate, hpath⟩ := act_outside houtside
    exact ⟨by rw [Busy, hstate]; exact ih.1, hpath.trans ih.2⟩

def Session.Digested (s : Session) (texts : OrderedMap String String) : Prop :=
  ∀ uri digest, s.hashes.get? uri = some digest →
    ∃ text, texts.get? uri = some text ∧ digest = Digest.ofText text

theorem Session.Digested.of_eq {s' : Session} {texts : OrderedMap String String}
    (h : s.Digested texts) (hhashes : s'.hashes = s.hashes) : s'.Digested texts := by
  unfold Digested
  rw [hhashes]
  exact h

theorem Session.Digested.retract {texts : OrderedMap String String} (h : s.Digested texts)
    (uri : String) : (s.retract uri).Digested texts := by
  intro v digest hv
  rw [Session.retract, OrderedMap.get?_erase] at hv
  split at hv
  · cases hv
  · exact h v digest hv

theorem Session.Digested.indexText {texts : OrderedMap String String} (h : s.Digested texts)
    (uri text : String) (fault : Bool) :
    (s.indexText uri text fault).1.Digested (texts.insertAll (s.indexedText uri text fault)) := by
  unfold indexedText Session.indexText
  dsimp only
  by_cases hsame : s.hashes.get? uri = some (Digest.ofText text)
  · simp only [hsame, if_true, reduceCtorEq, if_false]
    exact h
  · simp only [hsame, if_false]
    generalize hk : (if s.hashes.contains uri = true then s.retract uri else s) = k
    have hclear : k.Digested texts := by
      rw [← hk]
      split
      · exact h.retract uri
      · exact h
    cases fault with
    | true =>
      simp only [if_true, reduceCtorEq, if_false]
      exact hclear.of_eq rfl
    | false =>
      simp only [Bool.false_eq_true, if_false, if_true]
      intro v digest hv
      rw [OrderedMap.get?_insert] at hv
      show ∃ text', (texts.insert uri text).get? v = some text' ∧ _
      rw [OrderedMap.get?_insert]
      split at hv
      · next heq =>
        cases hv
        exact ⟨text, if_pos heq, rfl⟩
      · next hne =>
        rw [if_neg hne]
        exact hclear v digest hv

theorem Session.Digested.invariant : IndexInvariant Digested where
  quiet h _ _ hhashes _ := h.of_eq hhashes
  refresh h := h.of_eq rfl
  retract h := h.retract
  indexText h := h.indexText
  ended _ := by
    intro uri digest huri
    cases huri

theorem current_indexText (h : s.graph.stale = false → s.graph.Current) (uri text : String)
    (fault : Bool) :
    (s.indexText uri text fault).1.graph.stale = false →
      (s.indexText uri text fault).1.graph.Current := by
  unfold Session.indexText
  dsimp only
  split
  · exact h
  · generalize hk : (if s.hashes.contains uri = true then s.retract uri else s) = k
    have hclear : k.graph.stale = false → k.graph.Current := by
      rw [← hk]
      split
      · exact fun _ => Graph.current_removeFile s.graph uri
      · exact h
    cases fault with
    | true => exact fun _ => Graph.current_removeFile _ uri
    | false =>
      obtain ⟨changes, hrun, -, -⟩ := ingest_eq_run k.graph uri (Source.scan text)
      simp only [Bool.false_eq_true, if_false, hrun]
      exact Graph.current_run changes hclear

theorem current_invariant : IndexInvariant fun s _ => s.graph.stale = false → s.graph.Current where
  quiet h hgraph _ _ _ := by
    rw [hgraph]
    exact h
  refresh h := fun _ => Graph.current_refresh h
  retract _ uri := fun _ => Graph.current_removeFile _ uri
  indexText h := current_indexText h
  ended _ := fun _ => Graph.current_empty

def Session.InWhole (s : Session) (uri : String) : Prop :=
  s.hashes.get? uri = none ∧ s.share uri = (∅, []) ∧ s.graph.Vacant uri ∨
  ∃ text, s.hashes.get? uri = some (Digest.ofText text) ∧ s.share uri = textShare uri text

theorem inWhole_of_faithful {texts : OrderedMap String String} (h : s.Faithful texts)
    (hdigested : s.Digested texts) (uri : String) : s.InWhole uri := by
  cases hget : s.hashes.get? uri with
  | none =>
    obtain ⟨hshare, hvacant⟩ := h.absent uri (by simp [OrderedMap.contains, hget])
    exact .inl ⟨hget, hshare, hvacant⟩
  | some digest =>
    obtain ⟨text, htext, hshare⟩ := h.indexed uri (by simp [OrderedMap.contains, hget])
    obtain ⟨text', htext', hdigest⟩ := hdigested uri digest hget
    rw [htext] at htext'
    cases htext'
    exact .inr ⟨text, by rw [hget, hdigest], hshare⟩

theorem inWhole_conclude {root : Path} {config : Config} (h : Lives root config s) {r : Running}
    (hway : s.OnTheWay t r.session) (stop : Option Interruption) (uri : String) :
    (r.conclude t stop).session.InWhole uri := by
  have hstart : (start root config).Faithful ∅ ∧ (start root config).Digested ∅ := by
    refine ⟨Faithful.of_empty ∅ rfl rfl rfl, ?_⟩
    intro uri digest huri
    cases huri
  obtain ⟨texts, hfaithful, hdigested⟩ :=
    (Faithful.invariant.and Digested.invariant).lives ∅ hstart (.ran h t hway stop)
  exact inWhole_of_faithful hfaithful hdigested uri

theorem resolved_conclude {root : Path} {config : Config} (h : Lives root config s) {r : Running}
    (hway : s.OnTheWay t r.session) (stop : Option Interruption) :
    (r.conclude t stop).session.graph.stale = false ∧
      (r.conclude t stop).session.graph.Resolved := by
  have hstart : (start root config).graph.stale = false → (start root config).graph.Current :=
    fun _ => Graph.current_empty
  obtain ⟨-, hs⟩ := current_invariant.lives ∅ hstart h
  obtain ⟨-, hr⟩ := current_invariant.onTheWay ∅ hs hway
  obtain ⟨state, incomplete, heq, -⟩ := session_conclude r t stop
  rw [heq]
  exact ⟨Graph.stale_refresh _, (Graph.current_refresh hr).resolved⟩

/-- Runs never wedge a session, whatever happened to it before. A run is carried out, and wherever it
is cut short the next one can start, the calls are resolved and each file is in the index as a whole
or not at all. If the place of the digests can be a path, the run ends in a final state and reports
that state, and can be repeated just if it failed or ran out of time. -/
theorem runs_never_wedge (root : Path) (config : Config) {s : Session} (h : Lives root config s)
    (t : FileTree) :
    (∀ d, indexWorkspace s t d = (underway s t d).1.conclude t (underway s t d).2 ∧
      s.OnTheWay t (underway s t d).1.session) ∧
    ∀ (r : Running) (stop : Option Interruption), s.OnTheWay t r.session →
      let report := r.conclude t stop
      ¬report.session.Busy ∧
      report.session.graph.stale = false ∧ report.session.graph.Resolved ∧
      (∀ uri, report.session.InWhole uri) ∧
      ∀ path, (start root config).cachePath = .ok path → FileTree.hasNull path = false →
        report.fault = none ∧ report.session.state ∈ [RunState.idle, .cancelled, .timedOut] ∧
        (stop ≠ some .killed → ∃ result, report.result = some result ∧
          result.state = report.session.state ∧
          (result.canRetry = true ↔
            stop = some .timedOut ∨ ∃ message, stop = some (.crashed message))) := by
  refine ⟨fun d => ⟨indexWorkspace_eq_conclude h.free.1 t d, onTheWay_underway s t d⟩, ?_⟩
  intro r stop hway report
  obtain ⟨hstale, hresolved⟩ := resolved_conclude h hway stop
  refine ⟨(Lives.ran h t hway stop).free.1, hstale, hresolved, inWhole_conclude h hway stop, ?_⟩
  intro path hpath hnull
  have hstored := stored_of_not_null (hway.cachePath.trans (h.free.2.trans hpath)) hnull t
  have hfinal : report.Final stop := final_conclude hstored
  exact ⟨hfinal.fault, hfinal.state, hfinal.result⟩

def halfRead : Running :=
  let entered : Session :=
    { start ⟨"/", ["app"]⟩ {} with state := .discovering, incomplete := true }
  let found := (discovered {} entered ["/app/a.rb", "/app/b.rb"]).session
  { session := (indexFile twoFiles found "/app/a.rb").1, cancelled := false }

theorem runs_never_wedge_half_read :
    let report := halfRead.conclude twoFiles (some .timedOut)
    (∃ result, report.result = some result ∧ result.state = report.session.state ∧
      result.canRetry = true) ∧
    report.session.state ∈ [RunState.idle, .cancelled, .timedOut] ∧
    report.session.graph.Resolved ∧
    report.session.InWhole "/app/a.rb" ∧ report.session.InWhole "/app/b.rb" ∧
    report.session.hashes.keys = ["/app/a.rb"] ∧
    ∀ d, indexWorkspace report.session twoFiles d =
      (underway report.session twoFiles d).1.conclude twoFiles
        (underway report.session twoFiles d).2 := by
  intro report
  have hway : (start ⟨"/", ["app"]⟩ {}).OnTheWay twoFiles halfRead.session := by
    have hfound := OnTheWay.found (s := start ⟨"/", ["app"]⟩ {}) (t := twoFiles) .entered
      ["/app/a.rb", "/app/b.rb"]
    exact hfound.read "/app/a.rb"
  obtain ⟨-, hruns⟩ := runs_never_wedge ⟨"/", ["app"]⟩ {} .start twoFiles
  obtain ⟨-, -, hresolved, hwhole, hend⟩ := hruns halfRead (some .timedOut) hway
  obtain ⟨-, hstate, hresult⟩ :=
    hend ⟨"/", ["app", ".railsight", "index.json"]⟩ rfl (by decide)
  obtain ⟨result, heq, hsame, hretry⟩ := hresult (by simp)
  obtain ⟨hagain, -⟩ := runs_never_wedge ⟨"/", ["app"]⟩ {} (.ran .start twoFiles hway _) twoFiles
  exact ⟨⟨result, heq, hsame, hretry.mpr (.inl rfl)⟩, hstate, hresolved, hwhole _, hwhole _,
    by decide, fun d => (hagain d).1⟩

theorem conclude_of_null {r : Running} {path : Path} (hgoing : r.cancelled = false)
    (hpath : r.session.cachePath = .ok path) (hdir : t.DirectoryAt path.parent)
    (hnull : FileTree.hasNull path = true) :
    (r.conclude t none).session.state = .saving ∧ (r.conclude t none).result = none ∧
      (r.conclude t none).fault = some ⟨.nullByte, path.toText⟩ := by
  have hmade : t.makeDirectory path.parent = ⟨t, none⟩ := FileTree.makeParts_of_directory hdir
  have hstored : (r.session.saveCache t).stored = .error ⟨.nullByte, path.toText⟩ := by
    simp [saveCache, hpath, HashCache.save, FileTree.write, hmade, FileTree.writeFile,
      FileTree.locate_of_null hnull, bind, Except.bind, PathFault.isNoPath]
  simp [Running.conclude, hgoing, hstored, refresh]

theorem run_wedged_by_null_character :
    let config : Config := { indexer := { cacheFile := .text "i\x00.json" } }
    let report := indexWorkspace (start ⟨"/", ["app"]⟩ config) twoFiles {}
    report.session.state = .saving ∧ report.result = none := by
  intro config report
  let s := start ⟨"/", ["app"]⟩ config
  have hrun : (underway s twoFiles {}).2 = none ∧ (underway s twoFiles {}).1.cancelled = false := by
    have htime : isNoTime s.config.indexer.timeoutSeconds = false := by decide
    unfold underway runAll
    simp only [htime, Bool.false_eq_true, if_false]
    exact runBatches_undisturbed rfl _ _
  have hpath : (underway s twoFiles {}).1.session.cachePath =
      .ok ⟨"/", ["app", ".railsight", "i\x00.json"]⟩ :=
    (onTheWay_underway s twoFiles {}).cachePath.trans (by decide)
  have hdir : twoFiles.DirectoryAt ⟨"/", ["app", ".railsight"]⟩ := ⟨_, rfl, rfl⟩
  have hend := conclude_of_null hrun.2 hpath hdir (by decide)
  have heq : report = (underway s twoFiles {}).1.conclude twoFiles none := by
    rw [← hrun.1]
    exact indexWorkspace_eq_conclude (by decide) twoFiles {}
  rw [heq]
  exact ⟨hend.1, hend.2.1⟩

end CodeAtlas.Project
