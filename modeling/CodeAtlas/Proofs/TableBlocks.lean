import CodeAtlas.Proofs.HeaderLines
import CodeAtlas.Schema.Reader

namespace CodeAtlas.Schema

open Text Source

def said (raw : List Char) : List Char :=
  match trim raw with
  | '#' :: _ => []
  | line => line

structure TableBlock where
  opening : List Char
  body : List (List Char)
  closing : List Char
  line : TableLine
  reads_opening : firstAt version? (said opening) = none ∧ tableLine? (said opening) = some line
  reads_body : ∀ raw ∈ body, tableLine? (said raw) = none ∧ said raw ≠ "end".toList
  reads_closing : said closing = "end".toList
  unbroken : ∀ raw ∈ opening :: (body ++ [closing]), Unbroken raw

namespace TableBlock

def name (b : TableBlock) : String := b.line.name

def lines (b : TableBlock) : List (List Char) := b.opening :: (b.body ++ [b.closing])

def marker (b : TableBlock) : List Char := b.line.blockVar ++ ".timestamps".toList

def addresses (b : TableBlock) (name : String) : Bool :=
  b.body.any fun raw =>
    (addIndex? (said raw)).any (·.1 == name) || (addForeignKey? (said raw)).any (·.1 == name)

/-- The lines of earlier blocks that are searched for the time stamps of this one, latest first. -/
def window (b : TableBlock) (before : List TableBlock) : List (List Char) :=
  (before.flatMap lines).reverse.take (timestampWindow - (b.body.length + 1))

end TableBlock

def blocksText (blocks : List TableBlock) : String :=
  String.ofList ((blocks.flatMap TableBlock.lines).flatMap (· ++ ['\n']))

def State.table? (s : State) (name : String) : Option Table := s.schema.tables.get? name

def State.keysOf (s : State) (name : String) : List (String × String) :=
  s.foreignKeys.filter (·.1 == name)

section Statements

def isOuter (blockVar line : List Char) : Bool :=
  (firstAt version? line).isNone && !(blockVar ++ ['.']).isPrefixOf line

def outerIndex? (blockVar line : List Char) : Option (String × Index) :=
  if isOuter blockVar line then addIndex? line else none

def outerKey? (blockVar line : List Char) : Option (String × String) :=
  if isOuter blockVar line && (addIndex? line).isNone then addForeignKey? line else none

def Table.read (blockVar : List Char) (t : Table) (line : List Char) : Table :=
  if (firstAt version? line).isSome then t
  else if (blockVar ++ ".index".toList).isPrefixOf line then
    { t with indexes := t.indexes ++ (indexLine? line).toList }
  else if (blockVar ++ ['.']).isPrefixOf line then
    { t with columns := t.columns ++ (columnLine? blockVar line).toList }
  else t

def Table.addOuter (name : String) (t : Table) : Option (String × Index) → Table
  | some (table, index) => if name = table then { t with indexes := t.indexes ++ [index] } else t
  | none => t

variable {s : State} {t : Table} {v line : List Char}

theorem step_eq (s : State) (raw : List Char) :
    step s raw = { readStatement s (said raw) with
      recent := (raw :: s.recent).take timestampWindow } := by
  have hnothing : readStatement s [] = s := by
    unfold readStatement
    cases hs : s.current with
    | none => rfl
    | some open' =>
      obtain ⟨t, v⟩ := open'
      cases v <;> rfl
  unfold step said
  dsimp only
  split
  · next hblank => simp only [hblank, hnothing]
  · next hcomment => simp only [hcomment, hnothing]
  · next hcode =>
    split
    · next hcomment => exact absurd hcomment (hcode _)
    · rfl

theorem table?_readOther (s : State) (line : List Char) (name : String) :
    (readOther s line).table? name =
      (s.table? name).map (Table.addOuter name · (addIndex? line)) := by
  unfold readOther State.table?
  cases addIndex? line with
  | some found => exact OrderedMap.get?_modify _ _ _ _
  | none => cases addForeignKey? line <;> exact Option.map_id'.symm

theorem keysOf_readOther (s : State) (line : List Char) (name : String) :
    (readOther s line).keysOf name = s.keysOf name ++
      (if (addIndex? line).isNone then addForeignKey? line else none).toList.filter (·.1 == name) := by
  unfold readOther State.keysOf
  cases addIndex? line with
  | some found => simp
  | none => cases addForeignKey? line <;> simp

theorem current_readOther (s : State) (line : List Char) :
    (readOther s line).current = s.current := by
  unfold readOther
  cases addIndex? line with
  | some found => rfl
  | none => cases addForeignKey? line <;> rfl

theorem readStatement_open (hs : s.current = some (t, v)) (htable : tableLine? line = none)
    (hend : line ≠ "end".toList) (name : String) :
    (readStatement s line).current = some (t.read v line, v) ∧
    (readStatement s line).table? name =
      (s.table? name).map (Table.addOuter name · (outerIndex? v line)) ∧
    (readStatement s line).keysOf name =
      s.keysOf name ++ (outerKey? v line).toList.filter (·.1 == name) := by
  have hsame : s.table? name = (s.table? name).map (Table.addOuter name · none) :=
    Option.map_id'.symm
  have hkeys : s.keysOf name =
      s.keysOf name ++ (none : Option (String × String)).toList.filter (·.1 == name) := by simp
  unfold readStatement Table.read outerIndex? outerKey? isOuter
  cases firstAt version? line with
  | some number => exact ⟨hs, hsame, hkeys⟩
  | none =>
    simp only [htable, hs, Option.isSome_none, Bool.false_eq_true, if_false, Option.isNone_none,
      Bool.true_and]
    unfold readInTable
    rw [if_neg hend]
    by_cases hpoint : (v ++ ['.']).isPrefixOf line = true
    · simp only [hpoint, Bool.not_true, Bool.false_and, Bool.false_eq_true, if_false, if_true]
      by_cases hindex : (v ++ ".index".toList).isPrefixOf line = true
      · simp only [hindex, if_true]
        cases indexLine? line with
        | some i => exact ⟨rfl, hsame, hkeys⟩
        | none => exact ⟨by simp [hs], hsame, hkeys⟩
      · simp only [hindex]
        cases columnLine? v line with
        | some c => exact ⟨rfl, hsame, hkeys⟩
        | none => exact ⟨by simp [hs], hsame, hkeys⟩
    · have hindex : ¬(v ++ ".index".toList).isPrefixOf line = true := by
        rw [List.isPrefixOf_iff_prefix] at hpoint ⊢
        exact fun h => hpoint (List.IsPrefix.trans ⟨"index".toList, by simp⟩ h)
      simp only [hpoint, hindex, Bool.not_false, Bool.true_and, Bool.false_eq_true, if_false, if_true]
      exact ⟨(current_readOther s line).trans hs, table?_readOther s line name,
        keysOf_readOther s line name⟩

theorem readStatement_close (hs : s.current = some (t, v)) :
    readStatement s "end".toList =
      { s with
        schema.tables := s.schema.tables.insert (t.finish s.recent v).name (t.finish s.recent v)
        current := none } := by
  rw [readStatement, hs]
  rfl

theorem name_read (v : List Char) (t : Table) (line : List Char) : (t.read v line).name = t.name := by
  unfold Table.read
  split
  · rfl
  · split
    · rfl
    · split <;> rfl

theorem mem_columns_read {c : Column} (h : c ∈ (t.read v line).columns) :
    c ∈ t.columns ∨ columnLine? v line = some c := by
  unfold Table.read at h
  split at h
  · exact .inl h
  · split at h
    · exact .inl h
    · split at h
      · rcases List.mem_append.mp h with h | h
        · exact .inl h
        · exact .inr (Option.mem_toList.mp h)
      · exact .inl h

end Statements

section Stamps

def Table.addStamp (t : Table) (name : String) : Table :=
  if (t.column? name).isSome then t
  else { t with columns := t.columns ++ [{ name, typeName := "datetime", nullable := false }] }

def Table.stamped (t : Table) : Table := (t.addStamp "created_at").addStamp "updated_at"

variable (t : Table)

theorem finish_eq (recent : List (List Char)) (v : List Char) :
    t.finish recent v =
      if recent.any (occursIn (v ++ ".timestamps".toList)) then t.stamped else t := rfl

theorem isSome_column?_iff (name : String) : (t.column? name).isSome ↔ name ∈ t.columnNames := by
  simp [Table.column?, Table.columnNames]

theorem name_addStamp (name : String) : (t.addStamp name).name = t.name := by
  unfold Table.addStamp
  split <;> rfl

theorem addStamp_of_mem {name : String} (h : name ∈ t.columnNames) : t.addStamp name = t :=
  if_pos ((isSome_column?_iff t name).mpr h)

theorem mem_columnNames_addStamp {name other : String} :
    other ∈ (t.addStamp name).columnNames ↔ other ∈ t.columnNames ∨ other = name := by
  by_cases h : name ∈ t.columnNames
  · rw [addStamp_of_mem t h]
    exact ⟨.inl, fun hor => hor.elim id fun heq => heq ▸ h⟩
  · rw [Table.addStamp, if_neg (mt (isSome_column?_iff t name).mp h)]
    simp [Table.columnNames]

theorem mem_columnNames_stamped {name : String} :
    name ∈ t.stamped.columnNames ↔ name ∈ t.columnNames ∨ name ∈ ["created_at", "updated_at"] := by
  rw [Table.stamped, mem_columnNames_addStamp, mem_columnNames_addStamp, or_assoc]
  simp

theorem stamped_of_present (h : ∀ name ∈ ["created_at", "updated_at"], name ∈ t.columnNames) :
    t.stamped = t := by
  rw [Table.stamped, addStamp_of_mem t (h _ (by simp)), addStamp_of_mem t (h _ (by simp))]

theorem columnNames_refer (target : String) : (t.refer target).columnNames = t.columnNames := by
  have hfirst (name : String) (f : Column → Column) (hf : ∀ c, (f c).name = c.name)
      (cs : List Column) : (mapFirst name f cs).map Column.name = cs.map Column.name := by
    induction cs with
    | nil => rfl
    | cons c cs ih =>
      rw [mapFirst]
      split
      · rw [List.map_cons, hf, List.map_cons]
      · rw [List.map_cons, ih, List.map_cons]
  unfold Table.refer
  dsimp only
  split
  · refine hfirst _ _ ?_ t.columns
    exact fun _ => rfl
  · rfl

def Table.referAll (t : Table) (keys : List (String × String)) : Table :=
  keys.foldl (fun t key => t.refer key.2) t

theorem columnNames_referAll (keys : List (String × String)) :
    (t.referAll keys).columnNames = t.columnNames := by
  unfold Table.referAll
  induction keys generalizing t with
  | nil => rfl
  | cons key keys ih => rw [List.foldl_cons, ih, columnNames_refer]

theorem table?_read {s : State} {text : String} (h : (lines text.toList).foldl step {} = s)
    (name : String) :
    (read text).table? name = (s.table? name).map (Table.referAll · (s.keysOf name)) := by
  have hfold (keys : List (String × String)) (schema : Schema) :
      (keys.foldl (fun schema (key : String × String) =>
        { schema with tables := schema.tables.modify key.1 (Table.refer · key.2) }) schema).table? name =
        (schema.table? name).map (Table.referAll · (keys.filter (·.1 == name))) := by
    induction keys generalizing schema with
    | nil => exact Option.map_id'.symm
    | cons key keys ih =>
      rw [List.foldl_cons, ih, Schema.table?, OrderedMap.get?_modify, Option.map_map]
      congr 1
      funext t
      by_cases hname : name = key.1
      · simp [hname, Table.referAll]
      · simp [hname, Ne.symm hname, Table.referAll]
  rw [read, h]
  exact hfold s.foreignKeys s.schema

end Stamps

section Blocks

def outerAdditions (v : List Char) (name : String) (raws : List (List Char)) (t : Table) : Table :=
  raws.foldl (fun t raw => t.addOuter name (outerIndex? v (said raw))) t

def outerKeys (v : List Char) (name : String) (raws : List (List Char)) : List (String × String) :=
  raws.flatMap fun raw => (outerKey? v (said raw)).toList.filter (·.1 == name)

variable {s : State} {t : Table} {v : List Char}

theorem outerAdditions_eq_self {name : String} {raws : List (List Char)}
    (h : ∀ raw ∈ raws, ∀ t : Table, t.addOuter name (outerIndex? v (said raw)) = t) (t : Table) :
    outerAdditions v name raws t = t := by
  unfold outerAdditions
  induction raws with
  | nil => rfl
  | cons raw raws ih =>
    obtain ⟨hraw, hraws⟩ := List.forall_mem_cons.mp h
    rw [List.foldl_cons, hraw, ih hraws]

theorem recent_foldl (ls : List (List Char)) (s : State) (h : s.recent.length ≤ timestampWindow) :
    (ls.foldl step s).recent = (ls.reverse ++ s.recent).take timestampWindow := by
  induction ls generalizing s with
  | nil => exact (List.take_of_length_le h).symm
  | cons raw ls ih =>
    have hnext : (step s raw).recent = (raw :: s.recent).take timestampWindow := rfl
    rw [List.foldl_cons, ih _ (by rw [hnext]; exact List.length_take_le _ _), hnext,
      List.reverse_cons, List.append_assoc, List.singleton_append, List.take_append,
      List.take_append, List.take_take, Nat.min_eq_left (by omega)]

theorem foldl_inside {raws : List (List Char)}
    (h : ∀ raw ∈ raws, tableLine? (said raw) = none ∧ said raw ≠ "end".toList)
    (hs : s.current = some (t, v)) (name : String) :
    (raws.foldl step s).current = some (raws.foldl (fun t raw => t.read v (said raw)) t, v) ∧
    (raws.foldl step s).table? name = (s.table? name).map (outerAdditions v name raws) ∧
    (raws.foldl step s).keysOf name = s.keysOf name ++ outerKeys v name raws := by
  induction raws generalizing s t with
  | nil => exact ⟨hs, Option.map_id'.symm, (List.append_nil _).symm⟩
  | cons raw raws ih =>
    obtain ⟨hraw, hraws⟩ := List.forall_mem_cons.mp h
    obtain ⟨hcurrent, htable, hkeys⟩ := readStatement_open hs hraw.1 hraw.2 name
    have hnext : (step s raw).current = some (t.read v (said raw), v) := by
      rw [step_eq]
      exact hcurrent
    obtain ⟨hcurrent', htable', hkeys'⟩ := ih hraws hnext
    refine ⟨hcurrent', ?_, ?_⟩
    · rw [List.foldl_cons, htable', step_eq]
      change (State.table? (readStatement s (said raw)) name).map _ = _
      rw [htable, Option.map_map]
      rfl
    · rw [List.foldl_cons, hkeys', step_eq]
      change State.keysOf (readStatement s (said raw)) name ++ _ = _
      rw [hkeys, List.append_assoc]
      rfl

namespace TableBlock

variable (b : TableBlock)

def declared : Table :=
  b.body.foldl (fun t raw => t.read b.line.blockVar (said raw)) (newTable b.line)

theorem name_declared : b.declared.name = b.name := by
  have hfold (raws : List (List Char)) (t : Table) :
      (raws.foldl (fun t raw => t.read b.line.blockVar (said raw)) t).name = t.name := by
    induction raws generalizing t with
    | nil => rfl
    | cons raw raws ih => rw [List.foldl_cons, ih, name_read]
  rw [declared, hfold]
  unfold newTable
  split <;> rfl

def searched (recent : List (List Char)) : List (List Char) :=
  ((b.opening :: b.body).reverse ++ recent).take timestampWindow

theorem searched_take (recent : List (List Char)) :
    b.searched (recent.take timestampWindow) = b.searched recent := by
  rw [searched, searched, List.take_append, List.take_append, List.take_take,
    Nat.min_eq_left (Nat.sub_le _ _)]

theorem foldl_lines (s : State) (hrecent : s.recent.length ≤ timestampWindow) (name : String) :
    (b.lines.foldl step s).table? name =
      (if b.name = name then some (b.declared.finish (b.searched s.recent) b.line.blockVar)
        else (s.table? name).map (outerAdditions b.line.blockVar name b.body)) ∧
    (b.lines.foldl step s).keysOf name =
      s.keysOf name ++ outerKeys b.line.blockVar name b.body := by
  have hopen : step s b.opening =
      { s with
        current := some (newTable b.line, b.line.blockVar)
        recent := (b.opening :: s.recent).take timestampWindow } := by
    rw [step_eq, readStatement, b.reads_opening.1, b.reads_opening.2]
  obtain ⟨hcurrent, htable, hkeys⟩ :=
    foldl_inside b.reads_body (congrArg State.current hopen) name
  have hlast : (b.body.foldl step (step s b.opening)).recent = b.searched s.recent :=
    recent_foldl (b.opening :: b.body) s hrecent
  have hlines : b.lines.foldl step s = step (b.body.foldl step (step s b.opening)) b.closing := by
    rw [lines, List.foldl_cons, List.foldl_append]
    rfl
  have hname : (b.declared.finish (b.searched s.recent) b.line.blockVar).name = b.name := by
    rw [finish_eq]
    split
    · rw [Table.stamped, name_addStamp, name_addStamp, b.name_declared]
    · exact b.name_declared
  rw [hlines, step_eq, b.reads_closing, readStatement_close hcurrent, hlast]
  constructor
  · change ((b.body.foldl step (step s b.opening)).schema.tables.insert _ _).get? name = _
    rw [OrderedMap.get?_insert]
    change (if (b.declared.finish (b.searched s.recent) b.line.blockVar).name = name then _ else
      (b.body.foldl step (step s b.opening)).table? name) = _
    rw [hname, htable, hopen]
    rfl
  · change (b.body.foldl step (step s b.opening)).keysOf name = _
    rw [hkeys, hopen]
    rfl

theorem foldl_lines_of_other {name : String} (hname : b.name ≠ name)
    (hother : b.addresses name = false) (s : State) (hrecent : s.recent.length ≤ timestampWindow) :
    (b.lines.foldl step s).table? name = s.table? name ∧
    (b.lines.foldl step s).keysOf name = s.keysOf name := by
  have hbody : ∀ raw ∈ b.body,
      ¬((addIndex? (said raw)).any (·.1 == name) || (addForeignKey? (said raw)).any (·.1 == name)) =
        true := List.any_eq_false.mp hother
  have hindex : ∀ raw ∈ b.body, ∀ t : Table,
      t.addOuter name (outerIndex? b.line.blockVar (said raw)) = t := by
    intro raw hraw t
    have hnot := hbody raw hraw
    unfold outerIndex? Table.addOuter
    split
    · next table index hfound =>
      split at hfound
      · rw [hfound] at hnot
        rw [if_neg]
        rintro rfl
        simp at hnot
      · cases hfound
    · rfl
  have hkeys : outerKeys b.line.blockVar name b.body = [] := by
    unfold outerKeys
    rw [List.flatMap_eq_nil_iff]
    intro raw hraw
    rw [List.filter_eq_nil_iff]
    intro key hkey hsame
    have hnot := hbody raw hraw
    rw [Option.mem_toList] at hkey
    unfold outerKey? at hkey
    split at hkey
    · rw [hkey] at hnot
      simp [hsame] at hnot
    · cases hkey
  obtain ⟨htable, hall⟩ := b.foldl_lines s hrecent name
  rw [if_neg hname, funext fun t => outerAdditions_eq_self hindex t, Option.map_id'] at htable
  rw [hkeys, List.append_nil] at hall
  exact ⟨htable, hall⟩

end TableBlock

theorem foldl_others {name : String} {blocks : List TableBlock}
    (h : ∀ b ∈ blocks, b.name ≠ name ∧ b.addresses name = false) (s : State)
    (hrecent : s.recent.length ≤ timestampWindow) :
    ((blocks.flatMap TableBlock.lines).foldl step s).table? name = s.table? name ∧
    ((blocks.flatMap TableBlock.lines).foldl step s).keysOf name = s.keysOf name := by
  induction blocks generalizing s with
  | nil => exact ⟨rfl, rfl⟩
  | cons b blocks ih =>
    obtain ⟨hb, hblocks⟩ := List.forall_mem_cons.mp h
    obtain ⟨htable, hkeys⟩ := b.foldl_lines_of_other hb.1 hb.2 s hrecent
    have hnext : (b.lines.foldl step s).recent.length ≤ timestampWindow := by
      rw [recent_foldl _ s hrecent]
      exact List.length_take_le _ _
    obtain ⟨htable', hkeys'⟩ := ih hblocks _ hnext
    rw [List.flatMap_cons, List.foldl_append, htable', hkeys']
    exact ⟨htable, hkeys⟩

end Blocks

theorem lines_blocksText (blocks : List TableBlock) :
    lines (blocksText blocks).toList = blocks.flatMap TableBlock.lines := by
  rw [blocksText, String.toList_ofList]
  apply linesFrom_flatMap
  intro raw hraw
  obtain ⟨b, -, hline⟩ := List.mem_flatMap.mp hraw
  exact b.unbroken raw hline

section Alone

variable {before after : List TableBlock} {b : TableBlock}
  (hothers : ∀ other ∈ before ++ after, other.name ≠ b.name ∧ other.addresses b.name = false)
include hothers

theorem table?_blocksText :
    (read (blocksText (before ++ b :: after))).table? b.name =
      some ((b.declared.finish (b.searched (before.flatMap TableBlock.lines).reverse)
        b.line.blockVar).referAll (outerKeys b.line.blockVar b.name b.body)) := by
  obtain ⟨hbefore, hafter⟩ := List.forall_mem_append.mp hothers
  obtain ⟨htable, hkeys⟩ := foldl_others hbefore {} (Nat.zero_le _)
  have hrecent := recent_foldl (before.flatMap TableBlock.lines) {} (Nat.zero_le _)
  rw [List.append_nil] at hrecent
  have hlength : ((before.flatMap TableBlock.lines).foldl step {}).recent.length ≤
      timestampWindow := by
    rw [hrecent]
    exact List.length_take_le _ _
  obtain ⟨hown, hownKeys⟩ := b.foldl_lines _ hlength b.name
  have hlength' := (recent_foldl b.lines _ hlength).symm ▸ List.length_take_le _ _
  obtain ⟨htable', hkeys'⟩ := foldl_others hafter _ hlength'
  have hrun : (lines (blocksText (before ++ b :: after)).toList).foldl step {} =
      (after.flatMap TableBlock.lines).foldl step
        (b.lines.foldl step ((before.flatMap TableBlock.lines).foldl step {})) := by
    rw [lines_blocksText, List.flatMap_append, List.flatMap_cons, List.foldl_append,
      List.foldl_append]
  rw [table?_read hrun, htable', hkeys', hown, hownKeys, hkeys, if_pos rfl, hrecent, b.searched_take]
  rfl

end Alone

section Columns

variable (b : TableBlock)

theorem mem_columnNames_declared {name : String} (h : name ∈ b.declared.columnNames) :
    name = "id" ∨
      ∃ raw ∈ b.body, ∃ c, columnLine? b.line.blockVar (said raw) = some c ∧ c.name = name := by
  have hfold (raws : List (List Char)) (t : Table) {c : Column}
      (hc : c ∈ (raws.foldl (fun t raw => t.read b.line.blockVar (said raw)) t).columns) :
      c ∈ t.columns ∨ ∃ raw ∈ raws, columnLine? b.line.blockVar (said raw) = some c := by
    induction raws generalizing t with
    | nil => exact .inl hc
    | cons raw raws ih =>
      rcases ih _ hc with hread | ⟨other, hother, hline⟩
      · rcases mem_columns_read hread with hold | hline
        · exact .inl hold
        · exact .inr ⟨raw, List.mem_cons_self, hline⟩
      · exact .inr ⟨other, List.mem_cons_of_mem _ hother, hline⟩
  obtain ⟨c, hc, rfl⟩ := List.mem_map.mp h
  rcases hfold b.body (newTable b.line) hc with hkey | ⟨raw, hraw, hline⟩
  · left
    unfold newTable at hkey
    split at hkey
    · cases hkey
    · rw [List.mem_singleton.mp hkey]
  · exact .inr ⟨raw, hraw, c, hline, rfl⟩

theorem any_searched (before : List TableBlock) (p : List Char → Bool) :
    (b.searched (before.flatMap TableBlock.lines).reverse).any p =
      ((b.searched []).any p || (b.window before).any p) := by
  have hlength : (b.opening :: b.body).reverse.length = b.body.length + 1 := by simp
  rw [TableBlock.searched, TableBlock.searched, List.take_append, List.any_append, List.append_nil,
    hlength]
  rfl

theorem mem_of_mem_searched {raw : List Char} (h : raw ∈ b.searched []) :
    raw ∈ b.opening :: b.body := by
  rw [TableBlock.searched, List.append_nil] at h
  exact List.mem_reverse.mp (List.mem_of_mem_take h)

end Columns

/-- The table of a block is the one that is read from the block alone, just if no line of the blocks
before it that is searched for time stamps holds the mark of this block, or the block alone has both
time stamps. Columns come from the block: its primary key, its statements, and time stamps if it asks
for them. -/
theorem blocks_read_alone (before after : List TableBlock) (b : TableBlock)
    (hothers : ∀ other ∈ before ++ after, other.name ≠ b.name ∧ other.addresses b.name = false) :
    ∃ table, (read (blocksText [b])).table? b.name = some table ∧
      ((read (blocksText (before ++ b :: after))).table? b.name = some table ↔
        (∀ raw ∈ b.window before, occursIn b.marker raw = false) ∨
          ∀ name ∈ ["created_at", "updated_at"], name ∈ table.columnNames) ∧
      ∀ name ∈ table.columnNames,
        name = "id" ∨
        (∃ raw ∈ b.body, ∃ c, columnLine? b.line.blockVar (said raw) = some c ∧ c.name = name) ∨
        name ∈ ["created_at", "updated_at"] ∧
          ∃ raw ∈ b.opening :: b.body, occursIn b.marker raw = true := by
  have hnone : ∀ other ∈ ([] ++ [] : List TableBlock),
    other.name ≠ b.name ∧ other.addresses b.name = false := by simp
  have halone := table?_blocksText hnone
  have hwhole := table?_blocksText hothers
  have hany := any_searched b before (occursIn b.marker)
  rw [List.flatMap_nil, List.reverse_nil, finish_eq] at halone
  rw [finish_eq] at hwhole
  change (read _).table? _ = some (Table.referAll (if (b.searched _).any (occursIn b.marker) = true
    then _ else _) _) at hwhole
  change (read _).table? _ = some (Table.referAll (if (b.searched _).any (occursIn b.marker) = true
    then _ else _) _) at halone
  refine ⟨_, halone, ?_, ?_⟩
  · rw [hwhole, hany, columnNames_referAll, Option.some.injEq]
    constructor
    · intro hsame
      by_cases hwindow : (b.window before).any (occursIn b.marker) = true
      · right
        intro name hname
        rw [hwindow, Bool.or_true, if_pos rfl] at hsame
        have hnames := congrArg Table.columnNames hsame
        rw [columnNames_referAll, columnNames_referAll] at hnames
        rw [← hnames, mem_columnNames_stamped]
        exact .inr hname
      · exact .inl (by simpa using hwindow)
    · rintro (hclear | hboth)
      · have hnone : (b.window before).any (occursIn b.marker) = false := by simpa using hclear
        rw [hnone, Bool.or_false]
      · cases hown : (b.searched []).any (occursIn b.marker) with
        | true => rfl
        | false =>
          rw [hown, if_neg Bool.false_ne_true] at hboth
          rw [Bool.false_or, if_neg Bool.false_ne_true, stamped_of_present _ hboth, ite_self]
  · intro name hname
    rw [columnNames_referAll] at hname
    split at hname
    · next hown =>
      rcases (mem_columnNames_stamped _).mp hname with hname | hname
      · exact (mem_columnNames_declared b hname).imp_right .inl
      · obtain ⟨raw, hraw, hmark⟩ := List.any_eq_true.mp hown
        exact .inr (.inr ⟨hname, raw, mem_of_mem_searched b hraw, hmark⟩)
    · exact (mem_columnNames_declared b hname).imp_right .inl

def postsBlock : TableBlock where
  opening := "create_table \"posts\" do |t|".toList
  body := ["  t.string \"title\"".toList, "  t.timestamps".toList]
  closing := "end".toList
  line := ⟨"posts", [], ['t']⟩
  reads_opening := by constructor <;> rfl
  reads_body := by decide
  reads_closing := by decide
  unbroken := by decide

/-- A block long enough to keep the lines that are searched for time stamps apart from those of the
block before it, but for the last. -/
def linksBlock : TableBlock where
  opening := "create_table \"links\" do |t|".toList
  body := ["  t.string \"url\"".toList, "  t.integer \"rank\"".toList,
    "  t.index [\"url\"]".toList]
  closing := "end".toList
  line := ⟨"links", [], ['t']⟩
  reads_opening := by constructor <;> rfl
  reads_body := by decide
  reads_closing := by decide
  unbroken := by decide

theorem blocks_read_alone_links :
    (∀ other ∈ [postsBlock] ++ [], other.name ≠ linksBlock.name ∧
      other.addresses linksBlock.name = false) ∧
    linksBlock.window [postsBlock] = ["end".toList] ∧
    ((read (blocksText [linksBlock])).table? "links").map Table.columnNames =
      some ["id", "url", "rank"] ∧
    (read (blocksText [postsBlock, linksBlock])).table? "links" =
      (read (blocksText [linksBlock])).table? "links" := by
  have hothers : ∀ other ∈ [postsBlock] ++ [], other.name ≠ linksBlock.name ∧
      other.addresses linksBlock.name = false := by
    rw [List.append_nil, List.forall_mem_singleton]
    decide
  have hwindow : linksBlock.window [postsBlock] = ["end".toList] := by decide
  obtain ⟨table, halone, hwhole, -⟩ := blocks_read_alone [postsBlock] [] linksBlock hothers
  have hclear : ∀ raw ∈ linksBlock.window [postsBlock], occursIn linksBlock.marker raw = false := by
    rw [hwindow]
    decide
  exact ⟨hothers, hwindow, by decide, (hwhole.mpr (.inl hclear)).trans halone.symm⟩

def tagsBlock : TableBlock where
  opening := "create_table \"tags\" do |t|".toList
  body := ["  t.string \"name\"".toList]
  closing := "end".toList
  line := ⟨"tags", [], ['t']⟩
  reads_opening := by constructor <;> rfl
  reads_body := by decide
  reads_closing := by decide
  unbroken := by decide

theorem stamps_of_neighbour :
    postsBlock.name ≠ tagsBlock.name ∧ postsBlock.addresses tagsBlock.name = false ∧
    (∀ raw ∈ tagsBlock.lines, occursIn tagsBlock.marker raw = false) ∧
    ((read (blocksText [tagsBlock])).table? "tags").map Table.columnNames = some ["id", "name"] ∧
    ((read (blocksText [postsBlock, tagsBlock])).table? "tags").map Table.columnNames =
      some ["id", "name", "created_at", "updated_at"] := by
  rw [read, read, lines_blocksText, lines_blocksText]
  decide +kernel

end CodeAtlas.Schema
