import CodeAtlas.Proofs.CacheWrites
import CodeAtlas.Proofs.ProperTrees

namespace CodeAtlas.Project

open Workspace

structure FileChange where
  folder : List String
  name : String
  files : FileTree

namespace FileChange

def place (c : FileChange) : List String := c.folder ++ [c.name]

def uri (c : FileChange) : String := (⟨"/", c.place⟩ : Path).toText

def event (c : FileChange) (before : FileTree) : FileEvent :=
  match before.content? c.place, c.files.content? c.place with
  | _, none => .deleted
  | none, some _ => .created
  | some _, some _ => .changed

structure Applies (c : FileChange) (w : Workspace) (before : FileTree) : Prop where
  proper : c.files.Proper
  inside : w.root.parts <+: c.folder
  there : (before.content? c.place).isSome ∨ (c.files.content? c.place).isSome
  others : ∀ parts, parts ≠ c.place → c.files.content? parts = before.content? parts

/-- A file that is written is not too large, and does not have the name of a directory that is left
out. -/
def Admitted (c : FileChange) (w : Workspace) : Prop :=
  ∀ content, c.files.content? c.place = some content →
    (content.size : Int) ≤ w.maxBytes ∧ w.isSkipped c.name = false

def written (t : FileTree) (folder : List String) (name : String) (content : ByteArray) : FileChange :=
  ⟨folder, name, { t with entries := t.entries.insert (folder ++ [name]) (.file content) }⟩

def removed (t : FileTree) (folder : List String) (name : String) : FileChange :=
  ⟨folder, name, { t with entries := t.entries.erase (folder ++ [name]) }⟩

section Made

variable {w : Workspace} {t : FileTree} {folder : List String} (name : String)

theorem applies_written (ht : t.Proper) (hinside : w.root.parts <+: folder)
    (hfolder : t.entry? folder = some .directory)
    (hplace : t.entry? (folder ++ [name]) ≠ some .directory) (hname : ProperName name)
    (hshort : (⟨"/", folder ++ [name]⟩ : Path).toText.utf8ByteSize < FileTree.pathLimit)
    (content : ByteArray) : (written t folder name content).Applies w t where
  proper := ht.insert hfolder hplace hname hshort content
  inside := hinside
  there :=
    Or.inr (Option.isSome_of_eq_some ((FileTree.content?_insert (by simp) _ _).trans (if_pos rfl)))
  others parts hne := (FileTree.content?_insert (by simp) _ _).trans (if_neg hne)

theorem applies_removed (ht : t.Proper) (hinside : w.root.parts <+: folder) {content : ByteArray}
    (hfile : t.content? (folder ++ [name]) = some content) : (removed t folder name).Applies w t where
  proper := ht.erase hfile
  inside := hinside
  there := Or.inl (Option.isSome_of_eq_some hfile)
  others parts hne := (FileTree.content?_erase (by simp) _).trans (if_neg hne)

end Made

end FileChange

def Changes (w : Workspace) : FileTree → List FileChange → Prop
  | _, [] => True
  | before, c :: rest => c.Applies w before ∧ Changes w c.files rest

def lastFiles : FileTree → List FileChange → FileTree
  | before, [] => before
  | _, c :: rest => lastFiles c.files rest

namespace Session

def follow (s : Session) (before : FileTree) : List FileChange → Session
  | [] => s
  | c :: rest => (s.act (.event c.files (c.event before) c.uri)).follow c.files rest

def Reloads (s : Session) (uri : String) : Prop :=
  s.schemaPath.bind Path.resolve = .ok (Path.ofText uri) ∨
    s.routesPath.bind Path.resolve = .ok (Path.ofText uri)

instance (s : Session) (uri : String) : Decidable (s.Reloads uri) :=
  inferInstanceAs (Decidable (_ ∨ _))

def HasPlaces (s : Session) : Prop :=
  (∃ path, s.schemaPath.bind Path.resolve = .ok path) ∧
    ∃ path, s.routesPath.bind Path.resolve = .ok path

section Requests

variable {s : Session} (t : FileTree) (event : FileEvent) {uri : String}

theorem request_of_reloads (hplaces : s.HasPlaces) (h : s.Reloads uri) :
    s.request t event uri = .ok .readSchema ∨
      ∃ path, s.request t event uri = .ok (.readRoutes path) := by
  obtain ⟨⟨schema, hschema⟩, routes, hroutes⟩ := hplaces
  obtain ⟨schema', hschema', hresolve⟩ := bind_eq_ok hschema
  obtain ⟨routes', hroutes', hresolve'⟩ := bind_eq_ok hroutes
  rw [Reloads, hschema, hroutes, Except.ok.injEq, Except.ok.injEq] at h
  simp only [request, hschema', hroutes', bind, Except.bind, hresolve, hresolve', pure, Except.pure]
  by_cases hsame : Path.ofText uri = schema
  · exact Or.inl (if_pos hsame)
  · right
    rw [if_neg hsame, if_pos (h.resolve_left (Ne.symm hsame)).symm]
    exact ⟨_, rfl⟩

theorem request_of_other (hplaces : s.HasPlaces) (h : ¬s.Reloads uri) :
    s.request t event uri =
      if !s.workspace.isIndexable uri then .ok .nothing
      else if event = .deleted then .ok (if s.hashes.contains uri then .retract else .nothing)
      else
        match t.text (Path.ofText uri) with
        | .error f => if f.isNoPath then .error f else .ok .nothing
        | .ok text => .ok (.index text) := by
  obtain ⟨⟨schema, hschema⟩, routes, hroutes⟩ := hplaces
  obtain ⟨schema', hschema', hresolve⟩ := bind_eq_ok hschema
  obtain ⟨routes', hroutes', hresolve'⟩ := bind_eq_ok hroutes
  rw [Reloads, hschema, hroutes, Except.ok.injEq, Except.ok.injEq, not_or] at h
  simp only [request, hschema', hroutes', bind, Except.bind, hresolve, hresolve', pure, Except.pure]
  apply (if_neg (Ne.symm h.1)).trans ((if_neg (Ne.symm h.2)).trans ?_)
  cases t.text (Path.ofText uri) <;> rfl

theorem request_of_not_indexable (hplaces : s.HasPlaces) (h : ¬s.Reloads uri)
    (hindexable : s.workspace.isIndexable uri = false) : s.request t event uri = .ok .nothing := by
  rw [request_of_other t event hplaces h, hindexable, Bool.not_false, if_pos rfl]

variable {t event}

theorem hashes_act_of_reloads (hplaces : s.HasPlaces) (h : s.Reloads uri) :
    (s.act (.event t event uri)).hashes = s.hashes := by
  rcases request_of_reloads t event hplaces h with hrequest | ⟨path, hrequest⟩
  · simp only [act, handle, hrequest, bind, Except.bind, pure, Except.pure]
    cases hload : s.loadSchema t with
    | error f => rfl
    | ok s' =>
      obtain ⟨schema, rfl⟩ := loadSchema_eq hload
      rfl
  · simp only [act, handle, hrequest, bind, Except.bind, pure, Except.pure]
    cases hload : s.loadRoutes t path with
    | error f => rfl
    | ok s' =>
      obtain ⟨routes, rfl⟩ := loadRoutes_eq hload
      rfl

theorem handle_of_nothing (h : s.request t event uri = .ok .nothing) :
    s.handle t event uri = .ok (s, false) := by
  simp only [handle, h, bind, Except.bind, pure, Except.pure]

theorem act_of_nothing (h : s.request t event uri = .ok .nothing) :
    s.act (.event t event uri) = s := by
  rw [act, handle_of_nothing h]

theorem act_of_retract (h : s.request t event uri = .ok .retract) :
    s.act (.event t event uri) = (s.retract uri).refresh := by
  simp only [act, handle, h, bind, Except.bind, pure, Except.pure]

theorem handle_of_index {text : String} (h : s.request t event uri = .ok (.index text)) :
    s.handle t event uri =
      .ok ((s.indexText uri text false).1.refresh, (s.indexText uri text false).2 = .indexed) := by
  simp only [handle, h, bind, Except.bind, pure, Except.pure]

theorem act_of_index {text : String} (h : s.request t event uri = .ok (.index text)) :
    s.act (.event t event uri) = (s.indexText uri text false).1.refresh := by
  rw [act, handle_of_index h]

theorem sameSetup_act (s : Session) (t : FileTree) (event : FileEvent) (uri : String) :
    s.SameSetup (s.act (.event t event uri)) := by
  rw [act]
  split
  · next hok => exact .handle hok
  · exact .refl s

end Requests

section Setup

variable {s s' : Session}

theorem SameSetup.reloads_iff (h : s.SameSetup s') (uri : String) : s'.Reloads uri ↔ s.Reloads uri := by
  rw [Reloads, Reloads, schemaPath, routesPath, h.root, h.config, schemaPath, routesPath]

theorem SameSetup.hasPlaces (h : s.SameSetup s') (hplaces : s.HasPlaces) : s'.HasPlaces := by
  rw [HasPlaces, schemaPath, routesPath, h.root, h.config]
  exact hplaces

end Setup

end Session

def scannedHash? (w : Workspace) (t : FileTree) (uri : String) : Option String :=
  if uri ∈ w.findFiles t then contentHash? t uri else none

section Scans

variable {w : Workspace} {t t' : FileTree} {uri : String}

theorem contentHash?_of_proper (ht : t.Proper) {parts : List String} {content : ByteArray}
    (hfile : t.content? parts = some content) :
    contentHash? t (⟨"/", parts⟩ : Path).toText = some (Digest.ofText (Text.decode content)) := by
  rw [contentHash?, ht.ofText_toText hfile, ht.text hfile]
  rfl

theorem scannedHash?_eq_some_iff (ht : t.Proper) {digest : String} :
    scannedHash? w t uri = some digest ↔
      ∃ parts content, t.content? parts = some content ∧ w.Counts parts content ∧
        (⟨"/", parts⟩ : Path).toText = uri ∧ Digest.ofText (Text.decode content) = digest := by
  unfold scannedHash?
  split
  · next hmem =>
    obtain ⟨parts, content, hfile, hcounts, rfl⟩ := mem_findFiles_iff.mp hmem
    rw [contentHash?_of_proper ht hfile, Option.some.injEq]
    constructor
    · exact fun hdigest => ⟨parts, content, hfile, hcounts, rfl, hdigest⟩
    · rintro ⟨parts', content', hfile', -, huri, hdigest⟩
      have hparts := congrArg Path.ofText huri
      rw [ht.ofText_toText hfile', ht.ofText_toText hfile] at hparts
      cases hparts
      rw [hfile] at hfile'
      cases hfile'
      exact hdigest
  · next hnot =>
    simp only [reduceCtorEq, false_iff]
    rintro ⟨parts, content, hfile, hcounts, huri, -⟩
    exact hnot (mem_findFiles_iff.mpr ⟨parts, content, hfile, hcounts, huri⟩)

theorem scannedHash?_of_other {c : FileChange} (hc : c.Applies w t) (ht : t.Proper)
    (huri : uri ≠ c.uri) : scannedHash? w c.files uri = scannedHash? w t uri := by
  have hsame {parts : List String} (hparts : (⟨"/", parts⟩ : Path).toText = uri) :
      c.files.content? parts = t.content? parts := by
    apply hc.others
    rintro rfl
    exact huri hparts.symm
  apply Option.ext
  intro digest
  rw [scannedHash?_eq_some_iff hc.proper, scannedHash?_eq_some_iff ht]
  constructor
  · rintro ⟨parts, content, hfile, hcounts, hparts, hdigest⟩
    exact ⟨parts, content, hsame hparts ▸ hfile, hcounts, hparts, hdigest⟩
  · rintro ⟨parts, content, hfile, hcounts, hparts, hdigest⟩
    exact ⟨parts, content, (hsame hparts).trans hfile, hcounts, hparts, hdigest⟩

end Scans

namespace FileChange

variable {c : FileChange} {w : Workspace} {before : FileTree}

theorem Applies.ofText_uri (hc : c.Applies w before) (hbefore : before.Proper) :
    Path.ofText c.uri = ⟨"/", c.place⟩ := by
  rcases hc.there with h | h
  · obtain ⟨content, hfile⟩ := Option.isSome_iff_exists.mp h
    exact hbefore.ofText_toText hfile
  · obtain ⟨content, hfile⟩ := Option.isSome_iff_exists.mp h
    exact hc.proper.ofText_toText hfile

theorem Applies.isIndexable_of_mem (hc : c.Applies w before) (hbefore : before.Proper)
    (hroot : w.root.root = "/") {t : FileTree} (ht : t.Proper) (h : c.uri ∈ w.findFiles t) :
    (t.content? c.place).isSome ∧ w.isIndexable c.uri = true := by
  have hpath := hc.ofText_uri hbefore
  obtain ⟨parts, content, hfile, hcounts, huri⟩ := mem_findFiles_iff.mp h
  have hparts := congrArg Path.ofText huri
  rw [ht.ofText_toText hfile, hpath] at hparts
  cases hparts
  rw [hfile]
  exact ⟨rfl, hcounts.isIndexable hroot hc.inside hpath⟩

theorem Applies.mem_findFiles_iff (hc : c.Applies w before) (hbefore : before.Proper)
    (hroot : w.root.root = "/") (hadmitted : c.Admitted w) {content : ByteArray}
    (hfile : c.files.content? c.place = some content) :
    c.uri ∈ w.findFiles c.files ↔ w.isIndexable c.uri = true := by
  constructor
  · exact fun h => (hc.isIndexable_of_mem hbefore hroot hc.proper h).2
  · intro hindexable
    obtain ⟨hsize, hname⟩ := hadmitted content hfile
    have hcounts := counts_of_isIndexable hindexable hroot hc.inside (hc.ofText_uri hbefore) hname hsize
    exact Workspace.mem_findFiles_iff.mpr ⟨c.place, content, hfile, hcounts, rfl⟩

theorem event_of_none (h : c.files.content? c.place = none) : c.event before = .deleted := by
  rw [event, h]

theorem event_of_some {content : ByteArray} (h : c.files.content? c.place = some content) :
    c.event before ≠ .deleted := by
  rw [event, h]
  cases before.content? c.place <;> simp

end FileChange

namespace Session

/-- The session has the digests that a run over the files would give it, apart from the files that
make it read something again; of these it has kept the given ones. -/
structure Follows (s : Session) (kept : String → Option String) (t : FileTree) : Prop where
  reloaded : ∀ uri, s.Reloads uri → s.hashes.get? uri = kept uri
  known : ∀ uri, ¬s.Reloads uri → s.hashes.get? uri = scannedHash? s.workspace t uri

section Steps

variable {s : Session} {kept : String → Option String} {before : FileTree} {c : FileChange}

theorem request_of_file (hplaces : s.HasPlaces) (hreload : ¬s.Reloads c.uri)
    (hbefore : before.Proper) (hc : c.Applies s.workspace before) {content : ByteArray}
    (hfile : c.files.content? c.place = some content) {event : FileEvent} (hevent : event ≠ .deleted)
    (hindexable : s.workspace.isIndexable c.uri = true) :
    s.request c.files event c.uri = .ok (.index (Text.decode content)) := by
  rw [request_of_other c.files event hplaces hreload, hindexable, Bool.not_true,
    if_neg Bool.false_ne_true, if_neg hevent, hc.ofText_uri hbefore, hc.proper.text hfile]

theorem Follows.get?_of_not_indexable (h : s.Follows kept before) (hroot : s.root.root = "/")
    (hbefore : before.Proper) (hc : c.Applies s.workspace before) (hreload : ¬s.Reloads c.uri)
    (hindexable : s.workspace.isIndexable c.uri = false) : s.hashes.get? c.uri = none := by
  rw [h.known c.uri hreload]
  apply if_neg
  intro hmem
  rw [(hc.isIndexable_of_mem hbefore hroot hbefore hmem).2] at hindexable
  cases hindexable

theorem Follows.get?_deleted (h : s.Follows kept before) (hplaces : s.HasPlaces)
    (hroot : s.root.root = "/") (hbefore : before.Proper) (hc : c.Applies s.workspace before)
    (hreload : ¬s.Reloads c.uri) (v : String) :
    (s.act (.event c.files .deleted c.uri)).hashes.get? v =
      if v = c.uri then none else s.hashes.get? v := by
  have hunchanged (hnone : s.hashes.get? c.uri = none) :
      s.hashes.get? v = if v = c.uri then none else s.hashes.get? v := by
    split
    · next heq => rw [heq, hnone]
    · rfl
  cases hindexable : s.workspace.isIndexable c.uri with
  | false =>
    rw [act_of_nothing (request_of_not_indexable _ _ hplaces hreload hindexable)]
    exact hunchanged (h.get?_of_not_indexable hroot hbefore hc hreload hindexable)
  | true =>
    have hrequest := request_of_other c.files .deleted hplaces hreload
    rw [hindexable, Bool.not_true, if_neg Bool.false_ne_true, if_pos rfl] at hrequest
    cases hknown : s.hashes.contains c.uri with
    | true =>
      rw [hknown] at hrequest
      rw [act_of_retract hrequest]
      exact OrderedMap.get?_erase s.hashes c.uri v
    | false =>
      rw [hknown] at hrequest
      rw [act_of_nothing hrequest]
      exact hunchanged (by simpa [OrderedMap.contains] using hknown)

theorem Follows.get?_act (h : s.Follows kept before) (hplaces : s.HasPlaces)
    (hroot : s.root.root = "/") (hbefore : before.Proper) (hc : c.Applies s.workspace before)
    (hadmitted : c.Admitted s.workspace) (hreload : ¬s.Reloads c.uri) (v : String) :
    (s.act (.event c.files (c.event before) c.uri)).hashes.get? v =
      if v = c.uri then scannedHash? s.workspace c.files c.uri else s.hashes.get? v := by
  cases hfile : c.files.content? c.place with
  | none =>
    have hgone : scannedHash? s.workspace c.files c.uri = none := by
      apply if_neg
      intro hmem
      have hthere := (hc.isIndexable_of_mem hbefore hroot hc.proper hmem).1
      rw [hfile] at hthere
      cases hthere
    rw [FileChange.event_of_none hfile, h.get?_deleted hplaces hroot hbefore hc hreload, hgone]
  | some content =>
    have hfound := hc.mem_findFiles_iff hbefore hroot hadmitted hfile
    cases hindexable : s.workspace.isIndexable c.uri with
    | false =>
      rw [hindexable] at hfound
      have hnone := h.get?_of_not_indexable hroot hbefore hc hreload hindexable
      have hunfound : scannedHash? s.workspace c.files c.uri = none := if_neg (by simp [hfound])
      rw [act_of_nothing (request_of_not_indexable _ _ hplaces hreload hindexable), hunfound]
      split
      · next heq => rw [heq, hnone]
      · rfl
    | true =>
      have hevent : c.event before ≠ .deleted := FileChange.event_of_some hfile
      have hrequest := request_of_file hplaces hreload hbefore hc hfile hevent hindexable
      have hdigest : scannedHash? s.workspace c.files c.uri =
          some (Digest.ofText (Text.decode content)) := by
        rw [scannedHash?, if_pos (hfound.mpr hindexable)]
        exact contentHash?_of_proper hc.proper hfile
      rw [act_of_index hrequest, hdigest]
      show (s.indexText c.uri _ false).1.hashes.get? v = _
      rw [get?_indexText]
      exact if_congr eq_comm rfl rfl

theorem Follows.act (h : s.Follows kept before) (hplaces : s.HasPlaces)
    (hroot : s.root.root = "/") (hbefore : before.Proper) (hc : c.Applies s.workspace before)
    (hadmitted : c.Admitted s.workspace) :
    (s.act (.event c.files (c.event before) c.uri)).Follows kept c.files := by
  have hsetup := sameSetup_act s c.files (c.event before) c.uri
  -- An event changes at most the digest of its own file, and the scan sees no other change.
  have hothers {v : String} (hv : v ≠ c.uri) (hreload : ¬s.Reloads v) :
      s.hashes.get? v = scannedHash? s.workspace c.files v := by
    rw [h.known v hreload, scannedHash?_of_other hc hbefore hv]
  constructor
  · intro v hv
    rw [hsetup.reloads_iff] at hv
    by_cases hreload : s.Reloads c.uri
    · rw [hashes_act_of_reloads hplaces hreload]
      exact h.reloaded v hv
    · rw [h.get?_act hplaces hroot hbefore hc hadmitted hreload, if_neg]
      · exact h.reloaded v hv
      · rintro rfl
        exact hreload hv
  · intro v hv
    rw [hsetup.reloads_iff] at hv
    rw [hsetup.workspace]
    by_cases hreload : s.Reloads c.uri
    · rw [hashes_act_of_reloads hplaces hreload]
      refine hothers ?_ hv
      rintro rfl
      exact hv hreload
    · rw [h.get?_act hplaces hroot hbefore hc hadmitted hreload]
      split
      · next heq => rw [heq]
      · next hne => exact hothers hne hv

theorem Follows.follow {changes : List FileChange} (h : s.Follows kept before)
    (hplaces : s.HasPlaces) (hroot : s.root.root = "/") (hbefore : before.Proper)
    (hchanges : Changes s.workspace before changes)
    (hadmitted : ∀ c ∈ changes, c.Admitted s.workspace) :
    (s.follow before changes).Follows kept (lastFiles before changes) ∧
      s.SameSetup (s.follow before changes) ∧ (lastFiles before changes).Proper := by
  induction changes generalizing s before with
  | nil => exact ⟨h, .refl s, hbefore⟩
  | cons c rest ih =>
    obtain ⟨hc, hrest⟩ := hchanges
    obtain ⟨hfirst, hadmitted⟩ := List.forall_mem_cons.mp hadmitted
    have hsetup := sameSetup_act s c.files (c.event before) c.uri
    have hroot' : (s.act (.event c.files (c.event before) c.uri)).root.root = "/" :=
      (congrArg Path.root hsetup.root).trans hroot
    rw [← hsetup.workspace] at hrest hadmitted
    obtain ⟨hfollows, hsame, hproper⟩ :=
      ih (h.act hplaces hroot hbefore hc hfirst) (hsetup.hasPlaces hplaces) hroot' hc.proper hrest
        hadmitted
    exact ⟨hfollows, hsetup.trans hsame, hproper⟩

theorem Follows.handle_created (h : s.Follows kept before) (hplaces : s.HasPlaces)
    (hbefore : before.Proper) (hc : c.Applies s.workspace before) (hreload : ¬s.Reloads c.uri)
    (hnew : before.content? c.place = none) {content : ByteArray}
    (hfile : c.files.content? c.place = some content) :
    (∃ s', s.handle c.files .created c.uri = .ok (s', true)) ↔
      s.workspace.isIndexable c.uri = true := by
  cases hindexable : s.workspace.isIndexable c.uri with
  | false =>
    have hrequest := request_of_not_indexable c.files .created hplaces hreload hindexable
    simp [handle_of_nothing hrequest]
  | true =>
    have hcreated : FileEvent.created ≠ .deleted := nofun
    have hrequest := request_of_file hplaces hreload hbefore hc hfile hcreated hindexable
    have hnone : s.hashes.get? c.uri ≠ some (Digest.ofText (Text.decode content)) := by
      rw [h.known c.uri hreload, ne_eq, scannedHash?_eq_some_iff hbefore]
      rintro ⟨parts, content', hfile', -, huri, -⟩
      have hparts := congrArg Path.ofText huri
      rw [hbefore.ofText_toText hfile', hc.ofText_uri hbefore] at hparts
      cases hparts
      rw [hnew] at hfile'
      cases hfile'
    simp [handle_of_index hrequest, indexText_of_other hnone]

end Steps

end Session

section Agreement

open Session

variable {s : Session} {t : FileTree} {d : Disturbance}

theorem readable_of_proper {w : Workspace} (ht : t.Proper)
    (h : ∀ uri ∈ w.findFiles t, uri ∉ d.failing) : Readable d t (w.findFiles t) := by
  intro uri huri
  refine ⟨h uri huri, ?_⟩
  obtain ⟨parts, content, hfile, -, rfl⟩ := mem_findFiles_iff.mp huri
  rw [contentHash?_of_proper ht hfile]
  rfl

theorem follows_of_completed (hdone : (indexWorkspace s t d).completed = true)
    (hread : ∀ uri ∈ s.workspace.findFiles t, uri ∉ d.failing)
    (hsame : s.workspace.SameFiles t (indexWorkspace s t d).files)
    (hproper : (indexWorkspace s t d).files.Proper) :
    (indexWorkspace s t d).session.Follows (indexWorkspace s t d).session.hashes.get?
      (indexWorkspace s t d).files := by
  have hworkspace : (indexWorkspace s t d).session.workspace = s.workspace :=
    (sameSetup_indexWorkspace s t d).workspace
  have hread' : Readable d t (s.workspace.findFiles t) := by
    intro uri huri
    refine ⟨hread uri huri, ?_⟩
    rw [← contentHash?_of_sameFiles hsame huri]
    rw [← hsame.1] at huri hread
    exact (readable_of_proper hproper hread uri huri).2
  refine ⟨fun _ _ => rfl, ?_⟩
  intro uri _
  rw [get?_completed hdone hread', hworkspace, scannedHash?, hsame.1]
  split
  · next huri => exact (contentHash?_of_sameFiles hsame huri).symm
  · rfl

/-- After a complete run, and any changes of files each followed by its event, the session has of
every file the digest that a new session gets from a run over the files as they are then; only of the
schema and the routes file it has the digest of the first run. And a file that is created is indexed
by its event just if it is found. -/
theorem events_agree_with_scans (s : Session) (t : FileTree) (d : Disturbance)
    (changes : List FileChange) (hroot : s.root.root = "/") (hplaces : s.HasPlaces)
    (hdone : (indexWorkspace s t d).completed = true)
    (hread : ∀ uri ∈ s.workspace.findFiles t, uri ∉ d.failing)
    (hsame : s.workspace.SameFiles t (indexWorkspace s t d).files)
    (hproper : (indexWorkspace s t d).files.Proper)
    (hchanges : Changes s.workspace (indexWorkspace s t d).files changes)
    (hadmitted : ∀ c ∈ changes, c.Admitted s.workspace) :
    let first := indexWorkspace s t d
    let after := first.session.follow first.files changes
    let files := lastFiles first.files changes
    (∀ d', let fresh := indexWorkspace (start s.root s.config) files d'
      fresh.completed = true → (∀ uri ∈ s.workspace.findFiles files, uri ∉ d'.failing) →
      ∀ uri, after.hashes.get? uri =
        if s.Reloads uri then first.session.hashes.get? uri else fresh.session.hashes.get? uri) ∧
    ∀ c : FileChange, c.Applies s.workspace files → c.Admitted s.workspace →
      files.content? c.place = none → (c.files.content? c.place).isSome → ¬s.Reloads c.uri →
      ((∃ s', after.handle c.files .created c.uri = .ok (s', true)) ↔
        c.uri ∈ s.workspace.findFiles c.files) := by
  intro first after files
  have hsetup := sameSetup_indexWorkspace s t d
  have hworkspace : first.session.workspace = s.workspace := hsetup.workspace
  have hplaces' : first.session.HasPlaces := hsetup.hasPlaces hplaces
  have hroot' : first.session.root.root = "/" := (congrArg Path.root hsetup.root).trans hroot
  rw [← hworkspace] at hchanges hadmitted
  obtain ⟨hfollows, hafter, hfiles⟩ := (follows_of_completed hdone hread hsame hproper).follow hplaces'
    hroot' hproper hchanges hadmitted
  have hworkspace' : after.workspace = s.workspace := hafter.workspace.trans hworkspace
  have hreloads (uri : String) : after.Reloads uri ↔ s.Reloads uri :=
    (hafter.reloads_iff uri).trans (hsetup.reloads_iff uri)
  constructor
  · intro d' fresh hdone' hread' uri
    split
    · next hreload => exact hfollows.reloaded uri ((hreloads uri).mpr hreload)
    · next hreload =>
      have hscan := hfollows.known uri (mt (hreloads uri).mp hreload)
      rw [hworkspace'] at hscan
      exact hscan.trans (get?_completed hdone' (readable_of_proper hfiles hread') uri).symm
  · intro c hc hc' hnew hthere hreload
    obtain ⟨content, hfile⟩ := Option.isSome_iff_exists.mp hthere
    rw [hc.mem_findFiles_iff hfiles hroot hc' hfile, ← hworkspace']
    exact hfollows.handle_created (hafter.hasPlaces hplaces') hfiles (hworkspace' ▸ hc)
      (mt (hreloads c.uri).mp hreload) hnew hfile

end Agreement

section App

open Session

def appFiles (digests : ByteArray) : FileTree where
  entries := .ofList [
    (["app"], .directory),
    (["app", ".railsight"], .directory),
    (["app", ".railsight", "index.json"], .file digests),
    (["app", "a.rb"], .file "class A\nend\n".toUTF8),
    (["app", "b.rb"], .file "class B\nend\n".toUTF8),
    (["app", "db"], .directory)]

def appStart : Session := start ⟨"/", ["app"]⟩ {}

def appRun : RunReport := indexWorkspace appStart (appFiles .empty) {}

theorem proper_app (digests : ByteArray) : (appFiles digests).Proper := of_decide_eq_true rfl

theorem findFiles_app (digests : ByteArray) :
    appStart.workspace.findFiles (appFiles digests) = ["/app/a.rb", "/app/b.rb"] := by
  rw [Workspace.findFiles, FileTree.below_of_sorted (of_decide_eq_true rfl)]
  rfl

theorem hasPlaces_app : appStart.HasPlaces := ⟨⟨_, rfl⟩, _, rfl⟩

theorem completed_app {t : FileTree} (ht : t.Proper) {digests : ByteArray}
    (h : t.content? ["app", ".railsight", "index.json"] = some digests) :
    (indexWorkspace appStart t {}).completed = true :=
  completed_of_file (by decide) (by decide) (readable_of_proper ht (by simp)) rfl
    (ht.locate (FileTree.mem_of_content? h).1) (FileTree.content?_eq_some_iff.mp h)

def appDigests : ByteArray := (HashCache.toText appRun.session.hashes appRun.session.time).toUTF8

theorem files_app : appRun.files = appFiles appDigests := by
  have hsetup := sameSetup_indexWorkspace appStart (appFiles .empty) {}
  have hpath : appRun.session.cachePath = .ok ⟨"/", ["app", ".railsight", "index.json"]⟩ :=
    hsetup.cachePath.trans rfl
  have hlocate : (appFiles .empty).locate ⟨"/", ["app", ".railsight", "index.json"]⟩ =
      .ok ["app", ".railsight", "index.json"] := rfl
  have hsave := saveCache_of_file hpath hlocate rfl
  have hdone : appRun.completed = true := completed_app (proper_app .empty) rfl
  exact (saved_of_completed hdone).1.trans (congrArg HashCache.Saved.files hsave)

theorem sameFiles_app : appStart.workspace.SameFiles (appFiles .empty) appRun.files := by
  rw [files_app]
  refine ⟨by rw [findFiles_app, findFiles_app], ?_⟩
  rw [findFiles_app]
  simp only [List.forall_mem_cons]
  exact ⟨rfl, rfl, by simp⟩

def appChanges (t : FileTree) : List FileChange :=
  let edited := FileChange.written t ["app"] "a.rb" "class A\n  include B\nend\n".toUTF8
  let deleted := FileChange.removed edited.files ["app"] "b.rb"
  [edited, deleted, .written deleted.files ["app"] "c.rb" "class C\nend\n".toUTF8]

theorem changes_app (digests : ByteArray) :
    Changes appStart.workspace (appFiles digests) (appChanges (appFiles digests)) := by
  have hroot : appStart.workspace.root.parts <+: ["app"] := List.prefix_refl _
  have hedited := FileChange.applies_written "a.rb" (proper_app digests) hroot rfl
    nofun (by decide) (by decide) "class A\n  include B\nend\n".toUTF8
  have hdeleted := FileChange.applies_removed "b.rb" hedited.proper hroot rfl
  have hcreated := FileChange.applies_written "c.rb" hdeleted.proper hroot rfl
    nofun (by decide) (by decide) "class C\nend\n".toUTF8
  exact ⟨hedited, hdeleted, hcreated, trivial⟩

theorem admitted_app (digests : ByteArray) :
    ∀ c ∈ appChanges (appFiles digests), c.Admitted appStart.workspace := by
  refine List.forall_mem_cons.mpr ⟨?_, List.forall_mem_cons.mpr ⟨?_, List.forall_mem_singleton.mpr ?_⟩⟩
  · intro content hfile
    have hcontent : some "class A\n  include B\nend\n".toUTF8 = some content := hfile
    cases hcontent
    exact ⟨by decide +kernel, rfl⟩
  · intro content hfile
    have hgone : none = some content := hfile
    cases hgone
  · intro content hfile
    have hcontent : some "class C\nend\n".toUTF8 = some content := hfile
    cases hcontent
    exact ⟨by decide +kernel, rfl⟩

theorem scannedHash?_app {t : FileTree} (folder : List String) (name : String) (ht : t.Proper)
    {uri text : String}
    (huri : (⟨"/", "app" :: folder ++ [name]⟩ : Path).toText = uri)
    (hfile : t.content? ("app" :: folder ++ [name]) = some text.toUTF8)
    (hcounts : (folder ++ [name]).any appStart.workspace.isSkipped = false ∧
      appStart.workspace.hasExtension ⟨"/", "app" :: folder ++ [name]⟩ = true ∧
      (text.toUTF8.size : Int) ≤ appStart.workspace.maxBytes)
    (hdecode : Text.decode text.toUTF8 = text) :
    scannedHash? appStart.workspace t uri = some (Digest.ofText text) := by
  rw [scannedHash?_eq_some_iff ht]
  refine ⟨_, _, hfile, ⟨⟨⟨folder ++ [name], rfl⟩, ?_⟩, hcounts.1, hcounts.2.1, hcounts.2.2⟩, huri,
    congrArg Digest.ofText hdecode⟩
  simp [appStart, workspace, start]

theorem events_agree_with_scans_app :
    let after := appRun.session.follow appRun.files (appChanges appRun.files)
    appRun.completed = true ∧
    after.hashes.get? "/app/a.rb" = some (Digest.ofText "class A\n  include B\nend\n") ∧
    after.hashes.get? "/app/b.rb" = none ∧
    after.hashes.get? "/app/c.rb" = some (Digest.ofText "class C\nend\n") := by
  have hproper : appRun.files.Proper := files_app ▸ proper_app appDigests
  have hdone : appRun.completed = true := completed_app (proper_app .empty) rfl
  have hchanges : Changes appStart.workspace appRun.files (appChanges appRun.files) :=
    files_app ▸ changes_app appDigests
  obtain ⟨hhashes, -⟩ := events_agree_with_scans appStart (appFiles .empty) {}
    (appChanges appRun.files) rfl hasPlaces_app hdone (by simp) sameFiles_app hproper hchanges
    (files_app ▸ admitted_app appDigests)
  intro after
  let files := lastFiles appRun.files (appChanges appRun.files)
  have hfiles : files.Proper := hchanges.2.2.1.proper
  have hcontent (parts : List String) : files.content? parts =
      (lastFiles (appFiles appDigests) (appChanges (appFiles appDigests))).content? parts := by
    simp only [files, files_app]
  have hdone' : (indexWorkspace appStart files {}).completed = true :=
    completed_app hfiles ((hcontent _).trans rfl)
  have hscan {uri : String} (huri : ¬appStart.Reloads uri) :
      after.hashes.get? uri = scannedHash? appStart.workspace files uri :=
    (hhashes {} hdone' (by simp) uri).trans ((if_neg huri).trans
      (get?_completed hdone' (readable_of_proper hfiles (by simp)) uri))
  refine ⟨hdone, ?_, ?_, ?_⟩
  · rw [hscan (by decide +kernel)]
    exact scannedHash?_app [] "a.rb" hfiles (by decide +kernel)
      ((hcontent _).trans rfl) (by decide +kernel) (by decide +kernel)
  · rw [hscan (by decide)]
    apply if_neg
    intro hmem
    have huri : "/app/b.rb" = (⟨"/", ["app", "b.rb"]⟩ : Path).toText := by decide
    rw [huri] at hmem
    have hthere := (hchanges.2.1.isIndexable_of_mem hchanges.1.proper rfl hfiles hmem).1
    have hgone : files.content? ["app", "b.rb"] = none := (hcontent _).trans rfl
    exact absurd (hgone ▸ hthere) (by simp)
  · rw [hscan (by decide)]
    exact scannedHash?_app [] "c.rb" hfiles (by decide)
      ((hcontent _).trans rfl) (by decide +kernel) (by decide +kernel)

theorem created_schema_not_indexed :
    let c := FileChange.written appRun.files ["app", "db"] "schema.rb" "class S\nend\n".toUTF8
    let after := appRun.session.follow appRun.files [c]
    let fresh := indexWorkspace appStart c.files {}
    appRun.completed = true ∧ c.Applies appStart.workspace appRun.files ∧
    c.event appRun.files = .created ∧ c.uri = "/app/db/schema.rb" ∧ fresh.completed = true ∧
    after.hashes.get? "/app/db/schema.rb" = none ∧
    fresh.session.hashes.get? "/app/db/schema.rb" = some (Digest.ofText "class S\nend\n") := by
  intro c after fresh
  have hdone : appRun.completed = true := completed_app (proper_app .empty) rfl
  have hsetup := sameSetup_indexWorkspace appStart (appFiles .empty) {}
  have hroot : appStart.workspace.root.parts <+: ["app", "db"] := ⟨["db"], rfl⟩
  have hc : c.Applies appStart.workspace appRun.files := by
    simp only [c, files_app]
    exact FileChange.applies_written "schema.rb" (proper_app appDigests) hroot rfl nofun
      (by decide) (by decide) _
  have hcontent (parts : List String) : c.files.content? parts =
      (FileChange.written (appFiles appDigests) ["app", "db"] "schema.rb"
        "class S\nend\n".toUTF8).files.content? parts := by
    simp only [c, files_app]
  have hevent : c.event appRun.files = .created := by
    simp only [c, files_app]
    rfl
  have huri : c.uri = "/app/db/schema.rb" := by
    have htext : (⟨"/", ["app", "db", "schema.rb"]⟩ : Path).toText = "/app/db/schema.rb" := by
      decide
    exact htext
  have hdone' : fresh.completed = true := completed_app hc.proper ((hcontent _).trans rfl)
  refine ⟨hdone, hc, hevent, huri, hdone', ?_, ?_⟩
  · have hreload : appRun.session.Reloads c.uri := by
      apply (hsetup.reloads_iff c.uri).mpr
      rw [huri]
      decide
    have hsame : after.hashes = appRun.session.hashes :=
      hashes_act_of_reloads (hsetup.hasPlaces hasPlaces_app) hreload
    have hread := readable_of_proper (w := appStart.workspace) (d := {}) (proper_app .empty) (by simp)
    have hfirst := get?_completed hdone hread "/app/db/schema.rb"
    rw [findFiles_app, if_neg (by decide)] at hfirst
    rw [hsame]
    exact hfirst
  · have hscan := get?_completed hdone' (readable_of_proper hc.proper (by simp)) "/app/db/schema.rb"
    exact hscan.trans (scannedHash?_app ["db"] "schema.rb" hc.proper
      (by decide) ((hcontent _).trans rfl) (by decide) (by decide +kernel))

end App

end CodeAtlas.Project
