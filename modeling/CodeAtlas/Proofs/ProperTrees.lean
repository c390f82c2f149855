import CodeAtlas.Proofs.Restart
import CodeAtlas.Proofs.TextSearch

namespace CodeAtlas.Workspace

open Text

structure ProperName (name : String) : Prop where
  ne_empty : name ≠ ""
  ne_here : name ≠ "."
  ne_above : name ≠ ".."
  no_separator : '/' ∉ name.toList
  no_null : '\x00' ∉ name.toList
  size : name.utf8ByteSize ≤ FileTree.nameLimit

instance (name : String) : Decidable (ProperName name) :=
  decidable_of_iff
    (name ≠ "" ∧ name ≠ "." ∧ name ≠ ".." ∧ '/' ∉ name.toList ∧ '\x00' ∉ name.toList ∧
      name.utf8ByteSize ≤ FileTree.nameLimit)
    ⟨fun ⟨a, b, c, d, e, f⟩ => ⟨a, b, c, d, e, f⟩, fun ⟨a, b, c, d, e, f⟩ => ⟨a, b, c, d, e, f⟩⟩

section Texts

variable {parts : List String}

theorem Path.toList_toText (parts : List String) :
    (⟨"/", parts⟩ : Path).toText.toList = '/' :: ['/'].intercalate (parts.map String.toList) := by
  simp [Path.toText, String.toList_intercalate]

theorem Path.ofText_toText (hne : parts ≠ []) (hnames : ∀ name ∈ parts, ProperName name) :
    Path.ofText (⟨"/", parts⟩ : Path).toText = ⟨"/", parts⟩ := by
  obtain ⟨first, rest, rfl⟩ := List.exists_cons_of_ne_nil hne
  have hsplit : splitOn '/' ('/' :: ['/'].intercalate ((first :: rest).map String.toList)) =
      [] :: (first :: rest).map String.toList := by
    have hpieces : ∀ piece ∈ (first :: rest).map String.toList, '/' ∉ piece :=
      List.forall_mem_map.mpr fun name hname => (hnames name hname).no_separator
    rw [splitOn, if_pos rfl]
    exact congrArg ([] :: ·) (splitOn_intercalate hpieces)
  have hroot : Path.rootOf ('/' :: ['/'].intercalate ((first :: rest).map String.toList)) = "/" := by
    -- The first name has a first character, and it is no slash.
    have hfirst := hnames first List.mem_cons_self
    obtain ⟨c, cs, hc⟩ := List.exists_cons_of_ne_nil (mt String.toList_eq_nil_iff.mp hfirst.ne_empty)
    have hslash : c ≠ '/' := fun heq => hfirst.no_separator (by simp [hc, heq])
    have hrest : ∃ more, ['/'].intercalate ((first :: rest).map String.toList) = c :: more := by
      cases rest <;> simp [hc, List.intercalate_cons_cons]
    obtain ⟨more, hmore⟩ := hrest
    rw [hmore]
    simp [Path.rootOf, hslash]
  rw [Path.ofText, Path.toList_toText, hroot, hsplit]
  congr 1
  have hkept : ∀ name ∈ first :: rest, (name ≠ "" && name ≠ ".") = true := by
    intro name hname
    simp [(hnames name hname).ne_empty, (hnames name hname).ne_here]
  simp only [List.map_cons, String.ofList_toList, List.map_map, Function.comp_def, List.map_id']
  rw [List.filter_cons_of_neg (by simp), List.filter_eq_self.mpr hkept]

end Texts

namespace FileTree

def content? (t : FileTree) (parts : List String) : Option ByteArray :=
  match t.entry? parts with
  | some (.file content) => some content
  | _ => none

structure Proper (t : FileTree) : Prop where
  names : ∀ parts ∈ t.entries.keys, ∀ name ∈ parts, ProperName name
  short : ∀ parts ∈ t.entries.keys, (⟨"/", parts⟩ : Path).toText.utf8ByteSize < pathLimit
  above : ∀ parts ∈ t.entries.keys, ∀ n < parts.length,
    (t.entry? (parts.take n)).any (!·.isFile) = true

instance (t : FileTree) : Decidable t.Proper :=
  decidable_of_iff
    ((∀ parts ∈ t.entries.keys, ∀ name ∈ parts, ProperName name) ∧
      (∀ parts ∈ t.entries.keys, (⟨"/", parts⟩ : Path).toText.utf8ByteSize < pathLimit) ∧
      ∀ parts ∈ t.entries.keys, ∀ n < parts.length,
        (t.entry? (parts.take n)).any (!·.isFile) = true)
    ⟨fun ⟨a, b, c⟩ => ⟨a, b, c⟩, fun ⟨a, b, c⟩ => ⟨a, b, c⟩⟩

variable {t : FileTree} {parts : List String} {content : ByteArray}

theorem content?_eq_some_iff :
    t.content? parts = some content ↔ t.entry? parts = some (.file content) := by
  unfold content?
  split
  · next found hfound => simp [hfound]
  · next hnot =>
    simp only [reduceCtorEq, false_iff]
    exact hnot content

theorem content?_insert (hne : parts ≠ []) (content : ByteArray) (other : List String) :
    content? { t with entries := t.entries.insert parts (.file content) } other =
      if other = parts then some content else t.content? other := by
  unfold content?
  rw [FileTree.entry?_insert hne]
  by_cases heq : other = parts
  · rw [if_pos heq.symm, if_pos heq]
  · rw [if_neg (Ne.symm heq), if_neg heq]

theorem content?_erase (hne : parts ≠ []) (other : List String) :
    content? { t with entries := t.entries.erase parts } other =
      if other = parts then none else t.content? other := by
  unfold content? entry?
  rw [OrderedMap.get?_erase]
  by_cases heq : other = parts
  · have hother : ¬other.isEmpty = true := by simpa [heq] using hne
    rw [if_neg hother, if_pos heq, if_pos heq]
  · rw [if_neg heq, if_neg heq]

theorem mem_of_content? (h : t.content? parts = some content) :
    parts ∈ t.entries.keys ∧ parts ≠ [] := by
  rw [content?_eq_some_iff, entry?] at h
  split at h
  · cases h
  · next hne => exact ⟨OrderedMap.mem_keys_iff.mpr ⟨_, h⟩, by simpa using hne⟩

namespace Proper

theorem entry?_of_any (h : (t.entry? parts).any (!·.isFile) = true) :
    t.entry? parts = some .directory := by
  rw [Option.any_eq_true] at h
  obtain ⟨e, he, hdirectory⟩ := h
  cases e with
  | file content => cases hdirectory
  | directory => exact he

theorem walk (h : t.Proper) (hmem : parts ∈ t.entries.keys) {here rest : List String}
    (hparts : parts = here ++ rest) : rest.foldlM t.enter here = .ok parts := by
  induction rest generalizing here with
  | nil =>
    rw [hparts, List.append_nil]
    rfl
  | cons name rest ih =>
    have hname := h.names parts hmem name (by simp [hparts])
    have hhere : t.entry? here = some .directory := by
      have habove := h.above parts hmem here.length (by simp [hparts])
      rw [hparts, List.take_left] at habove
      exact entry?_of_any habove
    have hstep : t.enter here name = .ok (here ++ [name]) := by
      simp [enter, hhere, hname.ne_above, Nat.not_lt.mpr hname.size]
    rw [List.foldlM_cons, hstep]
    exact ih (by simp [hparts])

theorem locate (h : t.Proper) (hmem : parts ∈ t.entries.keys) : t.locate ⟨"/", parts⟩ = .ok parts := by
  rw [locate_eq_ok_iff]
  refine ⟨?_, h.short parts hmem, h.walk hmem rfl⟩
  rw [hasNull, Path.toList_toText, Bool.eq_false_iff]
  intro hnull
  rw [List.contains_iff_mem, List.mem_cons] at hnull
  rcases hnull with hnull | hnull
  · cases hnull
  rcases mem_of_mem_intercalate hnull with hnull | ⟨piece, hpiece, hnull⟩
  · cases hnull
  · obtain ⟨name, hname, rfl⟩ := List.mem_map.mp hpiece
    exact (h.names parts hmem name hname).no_null hnull

theorem ofText_toText (h : t.Proper) (hfile : t.content? parts = some content) :
    Path.ofText (⟨"/", parts⟩ : Path).toText = ⟨"/", parts⟩ := by
  obtain ⟨hmem, hne⟩ := mem_of_content? hfile
  exact Path.ofText_toText hne (h.names parts hmem)

theorem text (h : t.Proper) (hfile : t.content? parts = some content) :
    t.text ⟨"/", parts⟩ = .ok (decode content) := by
  have hentry := content?_eq_some_iff.mp hfile
  rw [FileTree.text, bytes_of_ok (h.locate (mem_of_content? hfile).1) hentry]
  rfl

theorem insert (h : t.Proper) {folder : List String} {name : String}
    (hfolder : t.entry? folder = some .directory)
    (hplace : t.entry? (folder ++ [name]) ≠ some .directory) (hname : ProperName name)
    (hshort : (⟨"/", folder ++ [name]⟩ : Path).toText.utf8ByteSize < pathLimit) (content : ByteArray) :
    Proper { t with entries := t.entries.insert (folder ++ [name]) (.file content) } := by
  have hkeys {parts : List String}
      (hparts : parts ∈ (t.entries.insert (folder ++ [name]) (.file content)).keys) :
      parts = folder ++ [name] ∨ parts ∈ t.entries.keys := by
    rw [OrderedMap.keys_insert] at hparts
    split at hparts
    · exact Or.inr hparts
    · exact (List.mem_append.mp hparts).symm.imp_left List.mem_singleton.mp
  have hknown (hne : folder ≠ []) : folder ∈ t.entries.keys := by
    rw [FileTree.entry?, if_neg (by simpa using hne)] at hfolder
    exact OrderedMap.mem_keys_iff.mpr ⟨_, hfolder⟩
  constructor
  · intro parts hparts
    rcases hkeys hparts with rfl | hparts
    · refine List.forall_mem_append.mpr ⟨?_, by simpa using hname⟩
      intro part hpart
      exact h.names folder (hknown (List.ne_nil_of_mem hpart)) part hpart
    · exact h.names parts hparts
  · intro parts hparts
    rcases hkeys hparts with rfl | hparts
    · exact hshort
    · exact h.short parts hparts
  · intro parts hparts n hn
    rw [FileTree.entry?_insert (by simp)]
    rcases hkeys hparts with rfl | hparts
    · rw [List.length_append, List.length_singleton] at hn
      rw [List.take_append_of_le_length (by omega), if_neg]
      · by_cases hlast : n = folder.length
        · rw [hlast, List.take_length, hfolder]
          rfl
        · apply h.above folder _ n (by omega)
          apply hknown
          rintro rfl
          simp at hn hlast
          omega
      · intro heq
        have hlength := congrArg List.length heq
        simp at hlength
        omega
    · have habove := h.above parts hparts n hn
      rw [if_neg]
      · exact habove
      · intro heq
        exact hplace (heq ▸ entry?_of_any habove)

theorem erase (h : t.Proper) (hfile : t.content? parts = some content) :
    Proper { t with entries := t.entries.erase parts } := by
  have hentry := content?_eq_some_iff.mp hfile
  have hkeys {other : List String} (hother : other ∈ (t.entries.erase parts).keys) :
      other ∈ t.entries.keys := by
    obtain ⟨e, he⟩ := OrderedMap.mem_keys_iff.mp hother
    rw [OrderedMap.get?_erase] at he
    split at he
    · cases he
    · exact OrderedMap.mem_keys_iff.mpr ⟨e, he⟩
  constructor
  · exact fun other hother => h.names other (hkeys hother)
  · exact fun other hother => h.short other (hkeys hother)
  · intro other hother n hn
    have habove := h.above other (hkeys hother) n hn
    have hne : other.take n ≠ parts := by
      rintro rfl
      rw [hentry] at habove
      cases habove
    have hsame : entry? { t with entries := t.entries.erase parts } (other.take n) =
        t.entry? (other.take n) := by
      simp only [FileTree.entry?, OrderedMap.get?_erase, if_neg hne]
    rw [hsame]
    exact habove

end Proper

end FileTree

theorem FileTree.mem_below_iff {t : FileTree} {dir parts : List String} {e : Entry} :
    (parts, e) ∈ t.below dir ↔
      t.entry? parts = some e ∧ dir <+: parts ∧ dir.length < parts.length := by
  rw [below, List.mem_mergeSort, List.mem_filter, OrderedMap.mem_entries_iff, Bool.and_eq_true,
    decide_eq_true_iff, List.isPrefixOf_iff_prefix]
  cases parts with
  | nil => simp
  | cons first rest => rfl

/-- A file at the place, with the content, is one of those to index: it lies below the root, in no
directory that is left out and under no such name, has one of the endings and is not too large. -/
structure Counts (w : Workspace) (parts : List String) (content : ByteArray) : Prop where
  below : w.root.parts <+: parts ∧ w.root.parts.length < parts.length
  kept : (parts.drop w.root.parts.length).any w.isSkipped = false
  extension : w.hasExtension ⟨"/", parts⟩ = true
  size : (content.size : Int) ≤ w.maxBytes

theorem mem_findFiles_iff {w : Workspace} {t : FileTree} {uri : String} :
    uri ∈ w.findFiles t ↔
      ∃ parts content, t.content? parts = some content ∧ w.Counts parts content ∧
        (⟨"/", parts⟩ : Path).toText = uri := by
  rw [findFiles, List.mem_filterMap]
  constructor
  · rintro ⟨⟨parts, e⟩, hmem, hfound⟩
    obtain ⟨hentry, hbelow⟩ := FileTree.mem_below_iff.mp hmem
    cases e with
    | directory => cases hfound
    | file content =>
      dsimp only at hfound
      split at hfound
      · cases hfound
      · next hskip =>
        split at hfound
        · next hcounts =>
          obtain ⟨hextension, hsize⟩ := Bool.and_eq_true_iff.mp hcounts
          refine ⟨parts, content, FileTree.content?_eq_some_iff.mpr hentry, ?_, Option.some.inj hfound⟩
          exact ⟨hbelow, by simpa using hskip, hextension, of_decide_eq_true hsize⟩
        · cases hfound
  · rintro ⟨parts, content, hfile, hcounts, huri⟩
    refine ⟨(parts, .file content), ?_, ?_⟩
    · exact FileTree.mem_below_iff.mpr ⟨FileTree.content?_eq_some_iff.mp hfile, hcounts.below⟩
    · dsimp only
      rw [if_neg (by simp [hcounts.kept]), if_pos (by simp [hcounts.extension, hcounts.size]), huri]

section Names

variable {w : Workspace} {front : List String} {last uri : String} {content : ByteArray}

theorem isIndexable_iff (hroot : w.root.root = "/") (hbelow : w.root.parts <+: front)
    (huri : Path.ofText uri = ⟨"/", front ++ [last]⟩) :
    w.isIndexable uri = true ↔
      (front.drop w.root.parts.length).any w.isSkipped = false ∧
        w.hasExtension ⟨"/", front ++ [last]⟩ = true := by
  have hwithin : w.root.parts <+: front ++ [last] := hbelow.trans (List.prefix_append _ _)
  have hrelative : (Path.ofText uri).relativeTo? w.root =
      some (front.drop w.root.parts.length ++ [last]) := by
    rw [huri, Path.relativeTo?, hroot, List.isPrefixOf_iff_prefix.mpr hwithin,
      List.drop_append_of_le_length hbelow.length_le]
    rfl
  rw [isIndexable, hrelative]
  dsimp only
  rw [List.dropLast_concat, huri, Bool.and_eq_true, Bool.not_eq_true']

theorem Counts.isIndexable (h : w.Counts (front ++ [last]) content) (hroot : w.root.root = "/")
    (hbelow : w.root.parts <+: front) (huri : Path.ofText uri = ⟨"/", front ++ [last]⟩) :
    w.isIndexable uri = true := by
  have hkept := h.kept
  rw [List.drop_append_of_le_length hbelow.length_le, List.any_append, Bool.or_eq_false_iff] at hkept
  exact (isIndexable_iff hroot hbelow huri).mpr ⟨hkept.1, h.extension⟩

theorem counts_of_isIndexable (h : w.isIndexable uri = true) (hroot : w.root.root = "/")
    (hbelow : w.root.parts <+: front) (huri : Path.ofText uri = ⟨"/", front ++ [last]⟩)
    (hname : w.isSkipped last = false) (hsize : (content.size : Int) ≤ w.maxBytes) :
    w.Counts (front ++ [last]) content := by
  obtain ⟨hkept, hextension⟩ := (isIndexable_iff hroot hbelow huri).mp h
  have hlength : w.root.parts.length ≤ front.length := hbelow.length_le
  refine ⟨⟨hbelow.trans (List.prefix_append _ _), ?_⟩, ?_, hextension, hsize⟩
  · rw [List.length_append, List.length_singleton]
    omega
  · simp [List.drop_append_of_le_length hlength, hkept, hname]

end Names

end CodeAtlas.Workspace
