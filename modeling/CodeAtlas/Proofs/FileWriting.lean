import CodeAtlas.Workspace.FileTree
import Mathlib.Data.List.Induction

namespace CodeAtlas.Workspace

theorem Path.toText_concat (root : String) (front : List String) (last : String) :
    (⟨root, front⟩ : Path).toText = "." ∨
    ∃ rest, (⟨root, front ++ [last]⟩ : Path).toText = (⟨root, front⟩ : Path).toText ++ rest := by
  cases front with
  | nil =>
    by_cases hroot : root = ""
    · exact .inl (by simp [toText, hroot])
    · exact .inr ⟨last, by simp [toText, hroot]⟩
  | cons first rest =>
    refine .inr ⟨"/" ++ last, ?_⟩
    rw [toText, toText, String.intercalate_append_of_ne_nil (by simp) (by simp)]
    simp [String.append_assoc]

namespace FileTree

variable {t t' : FileTree} {p : Path} {place : List String}

def hasNull (p : Path) : Bool := p.toText.toList.contains '\x00'

theorem locate_of_null (h : hasNull p = true) : t.locate p = .error ⟨.nullByte, p.toText⟩ := by
  rw [hasNull] at h
  simp only [locate, h, if_true]
  rfl

theorem locate_of_not_null (h : hasNull p = false) :
    t.locate p = (if pathLimit ≤ p.toText.utf8ByteSize then .error .tooLong
      else p.parts.foldlM t.enter []).mapError fun cause => ⟨cause, p.toText⟩ := by
  rw [hasNull] at h
  simp only [locate, h, Bool.false_eq_true, if_false]

theorem locate_eq_ok_iff : t.locate p = .ok place ↔
    hasNull p = false ∧ p.toText.utf8ByteSize < pathLimit ∧
      p.parts.foldlM t.enter [] = .ok place := by
  cases hnull : hasNull p with
  | true => simp [locate_of_null hnull]
  | false =>
    rw [locate_of_not_null hnull]
    split
    · next hlong => simp [Except.mapError, Nat.not_lt.mpr hlong]
    · next hlong =>
      cases p.parts.foldlM t.enter [] with
      | error cause => simp [Except.mapError]
      | ok place' => simp [Except.mapError, Nat.lt_of_not_le hlong]

theorem isNoPath_enter {here : List String} {part text : String} {cause : PathCause}
    (h : t.enter here part = .error cause) : (⟨cause, text⟩ : PathFault).isNoPath = false := by
  unfold enter at h
  split at h
  · cases h
    rfl
  · cases h
    rfl
  · split at h
    · cases h
    · split at h
      · cases h
        rfl
      · cases h

theorem isNoPath_walk {parts here : List String} {text : String} {cause : PathCause}
    (h : parts.foldlM t.enter here = .error cause) :
    (⟨cause, text⟩ : PathFault).isNoPath = false := by
  induction parts generalizing here with
  | nil => cases h
  | cons part rest ih =>
    rw [List.foldlM_cons] at h
    cases hstep : t.enter here part with
    | error cause' =>
      rw [hstep] at h
      cases h
      exact isNoPath_enter hstep
    | ok next =>
      rw [hstep] at h
      exact ih h

theorem isNoPath_locate {f : PathFault} (h : t.locate p = .error f) : f.isNoPath = hasNull p := by
  cases hnull : hasNull p with
  | true =>
    rw [locate_of_null hnull] at h
    cases h
    rfl
  | false =>
    rw [locate_of_not_null hnull] at h
    split at h
    · cases h
      rfl
    · cases hwalk : p.parts.foldlM t.enter [] with
      | ok place => simp [hwalk, Except.mapError] at h
      | error cause =>
        rw [hwalk] at h
        cases h
        exact isNoPath_walk hwalk

def KeepsDirectories (t t' : FileTree) : Prop :=
  ∀ here, t.entry? here = some .directory → t'.entry? here = some .directory

theorem KeepsDirectories.enter (h : t.KeepsDirectories t') {here : List String} {part : String}
    (hok : t.enter here part = .ok place) : t'.enter here part = .ok place := by
  unfold FileTree.enter at hok ⊢
  split at hok
  · cases hok
  · cases hok
  · next hdir =>
    rw [h here hdir]
    exact hok

theorem KeepsDirectories.walk (h : t.KeepsDirectories t') {parts here : List String}
    (hok : parts.foldlM t.enter here = .ok place) : parts.foldlM t'.enter here = .ok place := by
  induction parts generalizing here with
  | nil => exact hok
  | cons part rest ih =>
    rw [List.foldlM_cons] at hok ⊢
    cases hstep : t.enter here part with
    | error cause =>
      rw [hstep] at hok
      cases hok
    | ok next =>
      rw [hstep] at hok
      rw [h.enter hstep]
      exact ih hok

theorem KeepsDirectories.locate (h : t.KeepsDirectories t') (hok : t.locate p = .ok place) :
    t'.locate p = .ok place := by
  rw [locate_eq_ok_iff] at hok ⊢
  exact ⟨hok.1, hok.2.1, h.walk hok.2.2⟩

theorem hasNull_above {root last : String} {front : List String}
    (h : hasNull ⟨root, front ++ [last]⟩ = false) : hasNull ⟨root, front⟩ = false := by
  unfold hasNull at h ⊢
  rcases Path.toText_concat root front last with hdot | ⟨rest, htext⟩
  · rw [hdot]
    decide
  · rw [htext, String.toList_append] at h
    simp only [List.contains_eq_mem, List.mem_append, decide_eq_false_iff_not, not_or] at h ⊢
    exact h.1

theorem size_above {root last : String} {front : List String}
    (h : (⟨root, front ++ [last]⟩ : Path).toText.utf8ByteSize < pathLimit) :
    (⟨root, front⟩ : Path).toText.utf8ByteSize < pathLimit := by
  rcases Path.toText_concat root front last with hdot | ⟨rest, htext⟩
  · rw [hdot]
    decide
  · rw [htext, String.utf8ByteSize_append] at h
    omega

theorem locate_above {root last : String} {front : List String}
    (h : t.locate ⟨root, front ++ [last]⟩ = .ok place) :
    ∃ above, t.locate ⟨root, front⟩ = .ok above ∧ t.entry? above = some .directory := by
  obtain ⟨hnull, hsize, hwalk⟩ := locate_eq_ok_iff.mp h
  rw [List.foldlM_append] at hwalk
  cases habove : front.foldlM t.enter [] with
  | error cause =>
    rw [habove] at hwalk
    cases hwalk
  | ok above =>
    rw [habove] at hwalk
    have hlast : [last].foldlM t.enter above = .ok place := hwalk
    simp only [List.foldlM_cons, List.foldlM_nil, bind_pure] at hlast
    refine ⟨above, locate_eq_ok_iff.mpr ⟨hasNull_above hnull, size_above hsize, habove⟩, ?_⟩
    unfold enter at hlast
    split at hlast
    · cases hlast
    · cases hlast
    · next hdir => exact hdir

def DirectoryAt (t : FileTree) (p : Path) : Prop :=
  ∃ place, t.locate p = .ok place ∧ t.entry? place = some .directory

theorem entry?_insert (hplace : place ≠ []) (e : Entry) (q : List String) :
    FileTree.entry? { t with entries := t.entries.insert place e } q =
      if place = q then some e else t.entry? q := by
  unfold entry?
  cases q with
  | nil => simp [hplace]
  | cons first rest => simp

theorem ne_nil_of_not_directory (h : t.entry? place ≠ some .directory) : place ≠ [] := by
  rintro rfl
  exact h rfl

theorem keepsDirectories_insert (h : t.entry? place ≠ some .directory) (e : Entry) :
    t.KeepsDirectories { t with entries := t.entries.insert place e } := by
  intro here hhere
  rw [entry?_insert (ne_nil_of_not_directory h)]
  split
  · next heq =>
    subst heq
    exact absurd hhere h
  · exact hhere

theorem makeOne_of_ok (h : t.locate p = .ok place) :
    t.makeOne p = if (t.entry? place).isSome then .error ⟨.taken, p.toText⟩
      else .ok { t with entries := t.entries.insert place .directory } := by
  rw [makeOne, h]
  rfl

theorem find_of_ok (h : t.locate p = .ok place) {e : Entry} (he : t.entry? place = some e) :
    t.find p = .ok e := by
  simp [find, h, he, bind, Except.bind]

theorem isDirectory_of_ok (h : t.locate p = .ok place) {e : Entry} (he : t.entry? place = some e) :
    t.isDirectory p = .ok (!e.isFile) := by
  rw [isDirectory, test, find_of_ok h he]

theorem isDirectory_of_error {f : PathFault} (h : t.locate p = .error f) :
    t.isDirectory p ≠ .ok true := by
  have hfind : t.find p = .error f := by
    rw [find, h]
    rfl
  rw [isDirectory, test, hfind]
  dsimp only
  split <;> simp

theorem makeMissing_cases (t : FileTree) (p : Path) :
    (∃ place, t.locate p = .ok place ∧ t.entry? place = none ∧
      t.makeMissing p = ⟨{ t with entries := t.entries.insert place .directory }, none⟩) ∨
    t.DirectoryAt p ∧ t.makeMissing p = ⟨t, none⟩ ∨
    ∃ f, ¬t.DirectoryAt p ∧ t.makeMissing p = ⟨t, some f⟩ ∧ f.isNoPath = hasNull p := by
  cases hlocate : t.locate p with
  | error f =>
    have hone : t.makeOne p = .error f := by
      rw [makeOne, hlocate]
      rfl
    have hno : ¬t.DirectoryAt p := by
      rintro ⟨place, hplace, -⟩
      rw [hlocate] at hplace
      cases hplace
    have hmake : t.makeMissing p = ⟨t, some f⟩ := by
      rw [makeMissing, hone]
      dsimp only
      rw [if_neg]
      rintro ⟨-, hdir⟩
      apply isDirectory_of_error hlocate
      cases h : t.isDirectory p with
      | error f' => simp [h, Except.toOption] at hdir
      | ok b => simpa [h, Except.toOption] using hdir
    exact .inr (.inr ⟨f, hno, hmake, isNoPath_locate hlocate⟩)
  | ok place =>
    have hnull : hasNull p = false := (locate_eq_ok_iff.mp hlocate).1
    cases hentry : t.entry? place with
    | none =>
      refine .inl ⟨place, rfl, hentry, ?_⟩
      simp [makeMissing, makeOne_of_ok hlocate, hentry]
    | some e =>
      have hone := makeOne_of_ok hlocate
      rw [hentry] at hone
      cases e with
      | directory =>
        refine .inr (.inl ⟨⟨place, hlocate, hentry⟩, ?_⟩)
        simp [makeMissing, hone, isDirectory_of_ok hlocate hentry, Entry.isFile, Except.toOption]
      | file content =>
        refine .inr (.inr ⟨⟨.taken, p.toText⟩, ?_, ?_, by rw [hnull]; rfl⟩)
        · rintro ⟨place', hplace', hdir⟩
          rw [hlocate] at hplace'
          cases hplace'
          rw [hentry] at hdir
          cases hdir
        · simp [makeMissing, hone, isDirectory_of_ok hlocate hentry, Entry.isFile, Except.toOption]

theorem makeMissing_of_directory (h : t.DirectoryAt p) : t.makeMissing p = ⟨t, none⟩ := by
  rcases makeMissing_cases t p with ⟨place, hplace, hentry, -⟩ | ⟨-, heq⟩ | ⟨f, hno, -, -⟩
  · obtain ⟨place', hplace', hdir⟩ := h
    rw [hplace] at hplace'
    cases hplace'
    rw [hentry] at hdir
    cases hdir
  · exact heq
  · exact absurd h hno

theorem directoryAt_makeMissing (h : (t.makeMissing p).fault = none) :
    (t.makeMissing p).files.DirectoryAt p := by
  rcases makeMissing_cases t p with ⟨place, hplace, hentry, heq⟩ | ⟨hdir, heq⟩ | ⟨f, -, heq, -⟩
  · have hne : t.entry? place ≠ some .directory := by simp [hentry]
    rw [heq]
    refine ⟨place, (keepsDirectories_insert hne .directory).locate hplace, ?_⟩
    rw [entry?_insert (ne_nil_of_not_directory hne), if_pos rfl]
  · rw [heq]
    exact hdir
  · rw [heq] at h
    cases h

theorem makeMissing_of_fault {f : PathFault} (h : (t.makeMissing p).fault = some f) :
    ¬t.DirectoryAt p ∧ t.makeMissing p = ⟨t, some f⟩ ∧ f.isNoPath = hasNull p := by
  rcases makeMissing_cases t p with ⟨place, -, -, heq⟩ | ⟨-, heq⟩ | ⟨f', hno, heq, hnull⟩
  · rw [heq] at h
    cases h
  · rw [heq] at h
    cases h
  · rw [heq] at h
    cases h
    exact ⟨hno, heq, hnull⟩

theorem makeParts_nil (t : FileTree) (root : String) :
    t.makeParts root [] = t.makeMissing ⟨root, []⟩ := by
  rw [makeParts.eq_def]

theorem makeParts_concat (t : FileTree) (root last : String) (front : List String) :
    t.makeParts root (front ++ [last]) = t.makeMissing ⟨root, front ++ [last]⟩ ∨
    (∃ f, (t.makeMissing ⟨root, front ++ [last]⟩).fault = some f ∧ f.cause = .missing) ∧
    t.makeParts root (front ++ [last]) =
      if (t.makeParts root front).fault.isSome then t.makeParts root front
      else (t.makeParts root front).files.makeMissing ⟨root, front ++ [last]⟩ := by
  obtain ⟨first, rest, hparts⟩ : ∃ first rest, front ++ [last] = first :: rest :=
    List.exists_cons_of_ne_nil (by simp)
  have hfront : front = (first :: rest).dropLast := by rw [← hparts, List.dropLast_concat]
  rw [hparts, makeParts.eq_def t root (first :: rest), hfront]
  dsimp only
  cases hf : (t.makeMissing ⟨root, first :: rest⟩).fault with
  | none => exact .inl rfl
  | some f =>
    by_cases hcause : f.cause = .missing
    · exact .inr ⟨⟨f, rfl, hcause⟩, by simp only [hcause, if_true]⟩
    · exact .inl (by simp only [hcause, if_false])

theorem makeParts_of_directory {root : String} {parts : List String}
    (h : t.DirectoryAt ⟨root, parts⟩) : t.makeParts root parts = ⟨t, none⟩ := by
  have hmissing := makeMissing_of_directory h
  cases parts using List.reverseRecOn with
  | nil => rw [makeParts_nil, hmissing]
  | append_singleton front last _ =>
    rcases makeParts_concat t root last front with heq | ⟨⟨f, hf, -⟩, -⟩
    · rw [heq, hmissing]
    · rw [hmissing] at hf
      cases hf

theorem directoryAt_makeParts {root : String} {parts : List String}
    (h : (t.makeParts root parts).fault = none) :
    (t.makeParts root parts).files.DirectoryAt ⟨root, parts⟩ := by
  cases parts using List.reverseRecOn with
  | nil =>
    rw [makeParts_nil] at h ⊢
    exact directoryAt_makeMissing h
  | append_singleton front last _ =>
    rcases makeParts_concat t root last front with heq | ⟨-, heq⟩
    · rw [heq] at h ⊢
      exact directoryAt_makeMissing h
    · rw [heq] at h ⊢
      split at h
      · next hsome =>
        rw [h] at hsome
        cases hsome
      · next hnone =>
        rw [if_neg hnone]
        exact directoryAt_makeMissing h

theorem isNoPath_makeParts {root : String} {parts : List String} {f : PathFault}
    (h : (t.makeParts root parts).fault = some f) : f.isNoPath = hasNull ⟨root, parts⟩ := by
  induction parts using List.reverseRecOn generalizing f with
  | nil =>
    rw [makeParts_nil] at h
    exact (makeMissing_of_fault h).2.2
  | append_singleton front last ih =>
    rcases makeParts_concat t root last front with heq | ⟨⟨f', hf', hcause⟩, heq⟩
    · rw [heq] at h
      exact (makeMissing_of_fault h).2.2
    · have hnull : hasNull ⟨root, front ++ [last]⟩ = false := by
        rw [← (makeMissing_of_fault hf').2.2, PathFault.isNoPath, hcause]
      rw [heq] at h
      split at h
      · rw [ih h, hasNull_above hnull, hnull]
      · exact (makeMissing_of_fault h).2.2

theorem makeParts_again {root : String} {parts : List String} {f : PathFault}
    (h : (t.makeParts root parts).fault = some f) :
    ∃ f', (t.makeParts root parts).files.makeParts root parts =
      ⟨(t.makeParts root parts).files, some f'⟩ := by
  induction parts using List.reverseRecOn generalizing f with
  | nil =>
    rw [makeParts_nil] at h
    obtain ⟨-, heq, -⟩ := makeMissing_of_fault h
    exact ⟨f, by rw [makeParts_nil t, heq, makeParts_nil, heq]⟩
  | append_singleton front last ih =>
    rcases makeParts_concat t root last front with heq | ⟨-, heq⟩
    · rw [heq] at h
      obtain ⟨-, hmissing, -⟩ := makeMissing_of_fault h
      exact ⟨f, by rw [heq, hmissing, heq, hmissing]⟩
    · cases hfault : (t.makeParts root front).fault with
      | some g =>
        rw [hfault, Option.isSome_some, if_pos rfl] at heq
        obtain ⟨g', hagain⟩ := ih hfault
        rw [heq]
        generalize (t.makeParts root front).files = t₁ at hagain ⊢
        -- The directory above is not there, so the last one cannot be made either.
        have hno (place : List String) : t₁.locate ⟨root, front ++ [last]⟩ ≠ .ok place := by
          intro hplace
          have hdir : t₁.DirectoryAt ⟨root, front⟩ := locate_above hplace
          rw [makeParts_of_directory hdir] at hagain
          cases hagain
        rcases makeMissing_cases t₁ ⟨root, front ++ [last]⟩ with
          ⟨place, hplace, -⟩ | ⟨⟨place, hplace, -⟩, -⟩ | ⟨f', -, hmissing, -⟩
        · exact absurd hplace (hno place)
        · exact absurd hplace (hno place)
        · rcases makeParts_concat t₁ root last front with heq₁ | ⟨-, heq₁⟩
          · exact ⟨f', by rw [heq₁, hmissing]⟩
          · rw [hagain, Option.isSome_some, if_pos rfl] at heq₁
            exact ⟨g', heq₁⟩
      | none =>
        have hdir := directoryAt_makeParts hfault
        rw [hfault, Option.isSome_none, if_neg (by simp)] at heq
        rw [heq] at h
        obtain ⟨-, hmissing, -⟩ := makeMissing_of_fault h
        rw [heq, hmissing]
        generalize (t.makeParts root front).files = t₁ at hdir hmissing ⊢
        rcases makeParts_concat t₁ root last front with heq₁ | ⟨-, heq₁⟩
        · exact ⟨f, by rw [heq₁, hmissing]⟩
        · rw [makeParts_of_directory hdir, Option.isSome_none, if_neg (by simp), hmissing] at heq₁
          exact ⟨f, heq₁⟩

theorem bytes_of_ok {content : ByteArray} (h : t.locate p = .ok place)
    (he : t.entry? place = some (.file content)) : t.bytes p = .ok content := by
  simp [bytes, find_of_ok h he, bind, Except.bind]

theorem bytes_eq_ok {content : ByteArray} (h : t.bytes p = .ok content) :
    ∃ place, t.locate p = .ok place ∧ t.entry? place = some (.file content) := by
  cases hlocate : t.locate p with
  | error f => simp [bytes, find, hlocate, bind, Except.bind] at h
  | ok place =>
    refine ⟨place, rfl, ?_⟩
    cases hentry : t.entry? place with
    | none => simp [bytes, find, hlocate, hentry, bind, Except.bind] at h
    | some e =>
      cases e with
      | directory => simp [bytes, find_of_ok hlocate hentry, bind, Except.bind] at h
      | file content' =>
        rw [bytes_of_ok hlocate hentry] at h
        cases h
        rfl

theorem isFile_of_bytes {content : ByteArray} (h : t.bytes p = .ok content) :
    t.isFile p = .ok true := by
  obtain ⟨place, hlocate, hentry⟩ := bytes_eq_ok h
  rw [isFile, test, find_of_ok hlocate hentry]
  rfl

theorem writeFile_of_ok (h : t.locate p = .ok place) (he : t.entry? place ≠ some .directory)
    (content : ByteArray) :
    t.writeFile p content = .ok { t with entries := t.entries.insert place (.file content) } := by
  simp only [writeFile, h, bind, Except.bind]

theorem writeFile_of_not (h : ¬∃ place, t.locate p = .ok place ∧ t.entry? place ≠ some .directory) :
    ∃ f, ∀ content, t.writeFile p content = .error f := by
  cases hlocate : t.locate p with
  | error f =>
    refine ⟨f, fun content => ?_⟩
    rw [writeFile, hlocate]
    rfl
  | ok place =>
    have hentry : t.entry? place = some .directory := by
      by_contra hne
      exact h ⟨place, hlocate, hne⟩
    refine ⟨⟨.isDirectory, p.toText⟩, fun content => ?_⟩
    simp [writeFile, hlocate, hentry, bind, Except.bind]

theorem write_cases (t : FileTree) (p : Path) :
    (∃ place, (t.makeDirectory p.parent).fault = none ∧
      (t.makeDirectory p.parent).files.locate p = .ok place ∧
      FileTree.entry? (t.makeDirectory p.parent).files place ≠ some .directory ∧
      ∀ content, t.write p content = ⟨{ (t.makeDirectory p.parent).files with
        entries := (t.makeDirectory p.parent).files.entries.insert place (.file content) }, none⟩) ∨
    ∃ f, (∀ content, t.write p content = ⟨(t.makeDirectory p.parent).files, some f⟩) ∧
      ((t.makeDirectory p.parent).fault = some f ∨
        (t.makeDirectory p.parent).fault = none ∧
        ∀ content, (t.makeDirectory p.parent).files.writeFile p content = .error f) := by
  unfold write
  generalize t.makeDirectory p.parent = c
  obtain ⟨t₁, fault⟩ := c
  cases fault with
  | some f => exact .inr ⟨f, by simp⟩
  | none =>
    by_cases hplace : ∃ place, t₁.locate p = .ok place ∧ t₁.entry? place ≠ some .directory
    · obtain ⟨place, hlocate, hentry⟩ := hplace
      refine .inl ⟨place, rfl, hlocate, hentry, fun content => ?_⟩
      simp [writeFile_of_ok hlocate hentry]
    · obtain ⟨f, hf⟩ := writeFile_of_not hplace
      exact .inr ⟨f, by simp [hf]⟩

theorem bytes_write {content : ByteArray} (h : (t.write p content).fault = none) :
    (t.write p content).files.bytes p = .ok content := by
  rcases write_cases t p with ⟨place, -, hlocate, hentry, heq⟩ | ⟨f, heq, -⟩
  · rw [heq]
    apply bytes_of_ok ((keepsDirectories_insert hentry _).locate hlocate)
    rw [entry?_insert (ne_nil_of_not_directory hentry), if_pos rfl]
  · rw [heq] at h
    cases h

theorem write_of_file (hlocate : t.locate p = .ok place) {old : ByteArray}
    (hentry : t.entry? place = some (.file old)) (content : ByteArray) :
    t.write p content = ⟨{ t with entries := t.entries.insert place (.file content) }, none⟩ := by
  have hne : t.entry? place ≠ some .directory := by simp [hentry]
  obtain ⟨root, parts⟩ := p
  have hdir : t.DirectoryAt ⟨root, parts.dropLast⟩ := by
    cases parts using List.reverseRecOn with
    | nil => exact absurd (locate_eq_ok_iff.mp hlocate).2.2 (by rintro ⟨⟩; exact hne rfl)
    | append_singleton front last _ =>
      rw [List.dropLast_concat]
      exact locate_above hlocate
  have hmade : t.makeDirectory (⟨root, parts⟩ : Path).parent = ⟨t, none⟩ :=
    makeParts_of_directory hdir
  simp [write, hmade, writeFile_of_ok hlocate hne]

theorem write_of_bytes {old : ByteArray} (h : t.bytes p = .ok old) (content : ByteArray) :
    (t.write p content).fault = none := by
  obtain ⟨place, hlocate, hentry⟩ := bytes_eq_ok h
  rw [write_of_file hlocate hentry]

theorem write_again {content : ByteArray} {f : PathFault}
    (h : (t.write p content).fault = some f) (content' : ByteArray) :
    ∃ f', (t.write p content).files.write p content' = ⟨(t.write p content).files, some f'⟩ ∧
      f'.isNoPath = f.isNoPath := by
  rcases write_cases t p with ⟨place, -, -, -, heq⟩ | ⟨f₁, heq, hmade | ⟨hmade, hwrite⟩⟩
  · rw [heq] at h
    cases h
  · rw [heq] at h ⊢
    cases h
    obtain ⟨f', hagain⟩ := makeParts_again hmade
    refine ⟨f', by simp [write, makeDirectory, hagain], ?_⟩
    have hfault := congrArg Change.fault hagain
    rw [isNoPath_makeParts hfault, isNoPath_makeParts hmade]
  · rw [heq] at h ⊢
    cases h
    have hsame : (t.makeDirectory p.parent).files.makeDirectory p.parent =
        ⟨(t.makeDirectory p.parent).files, none⟩ :=
      makeParts_of_directory (directoryAt_makeParts hmade)
    exact ⟨f, by simp [write, hsame, hwrite], rfl⟩

theorem fault_write (t : FileTree) (p : Path) (content content' : ByteArray) :
    (t.write p content).fault = (t.write p content').fault := by
  rcases write_cases t p with ⟨place, -, -, -, heq⟩ | ⟨f, heq, -⟩
  · rw [heq, heq]
  · rw [heq, heq]

theorem bytes_of_fault {content : ByteArray} {f : PathFault}
    (h : (t.write p content).fault = some f) : (t.bytes p).toOption = none := by
  cases hbytes : t.bytes p with
  | error f' => rfl
  | ok old =>
    rw [write_of_bytes hbytes content] at h
    cases h

theorem bytes_write_of_fault {content : ByteArray} {f : PathFault}
    (h : (t.write p content).fault = some f) :
    ((t.write p content).files.bytes p).toOption = (t.bytes p).toOption := by
  obtain ⟨f', hagain, -⟩ := write_again h content
  have hfault : ((t.write p content).files.write p content).fault = some f' := by rw [hagain]
  rw [bytes_of_fault h, bytes_of_fault hfault]

end FileTree

end CodeAtlas.Workspace
