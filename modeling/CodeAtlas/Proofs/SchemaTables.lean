import CodeAtlas.Proofs.SchemaLines
import Mathlib.Data.List.Basic

namespace CodeAtlas.Schema

open Text Source

def Untimed (line : List Char) : Prop := occursIn "t.timestamps".toList line = false

section Lines

structure Addressed (line rest : List Char) : Prop where
  line_eq : line = 't' :: '.' :: rest
  spelled : Spelled signs rest
  tidy : Tidy line
  untimed : ¬"timestamps".toList <+: rest

theorem ColumnDecl.not_prefix (c : ColumnDecl) {w : String} (hw : Wordy w.toList)
    (hnone : ∀ t ∈ columnTypes, w.toList.isPrefixOf t.toList = false) (rest : List Char) :
    ¬w.toList <+: c.typeName.toList ++ ' ' :: rest := by
  intro h
  have hpre := List.isPrefixOf_iff_prefix.mpr (prefix_of_wordy hw rfl h)
  rw [hnone _ c.typeName_mem] at hpre
  cases hpre

theorem ColumnDecl.addressed (c : ColumnDecl) :
    Addressed c.line (c.typeName.toList ++ ' ' :: (c.name.quoted ++ written c.options)) where
  line_eq := rfl
  spelled := by
    have hspace : Spelled signs [' '] := by decide
    apply (Spelled.of_wordy c.wordy_typeName).append
    apply hspace.append
    apply (c.name.spelled_quoted (by decide)).append
    exact spelled_written (by decide) fun o ho => (c.setting_options o ho).spelled
  tidy := by
    constructor
    · exact ⟨'t', _, rfl, by decide, by decide⟩
    · have hname : ∃ front d, c.name.quoted = front ++ [d] ∧ isBlank d = false :=
        ⟨'"' :: c.name.chars, '"', rfl, by decide⟩
      obtain ⟨front, d, hlast, hd⟩ := last_written hname c.setting_options
      refine ⟨"t.".toList ++ c.typeName.toList ++ ' ' :: front, d, ?_, hd⟩
      rw [ColumnDecl.line, hlast]
      exact (List.append_assoc ("t.".toList ++ c.typeName.toList) (' ' :: front) [d]).symm
  untimed := c.not_prefix (by decide) (by decide) _

theorem IndexDecl.addressed (i : IndexDecl) :
    Addressed i.line ("index [".toList ++ i.columns ++ ']' :: written i.options) where
  line_eq := rfl
  spelled := by
    have hindex : Spelled signs "index [".toList := by decide
    have hbracket : Spelled signs [']'] := by decide
    have hcolumns : Spelled signs i.columns := i.spelled_columns.mono (by decide)
    apply (hindex.append hcolumns).append
    apply hbracket.append
    exact spelled_written (by decide) fun o ho => (i.setting_options o ho).spelled
  tidy := by
    constructor
    · exact ⟨'t', _, rfl, by decide, by decide⟩
    · have hquote : ∃ front d, "t.index [".toList ++ i.columns ++ [']'] = front ++ [d] ∧
          isBlank d = false := ⟨_, ']', rfl, by decide⟩
      have hlast := last_written hquote i.setting_options
      rw [List.append_assoc] at hlast
      exact hlast
  untimed := by
    intro h
    have hpre := List.isPrefixOf_iff_prefix.mpr h
    cases hpre

theorem Statement.addressed (s : Statement) : ∃ rest, Addressed s.line rest := by
  cases s with
  | column c => exact ⟨_, c.addressed⟩
  | index i => exact ⟨_, i.addressed⟩

theorem point_not_mem {pad : List Char} (hpad : ∀ c ∈ pad, isBlank c = true) : '.' ∉ pad :=
  fun hmem => absurd (hpad '.' hmem) (by decide)

theorem untimed_of_no_point {line : List Char} (h : '.' ∉ line) : Untimed line := by
  rw [Untimed, Bool.eq_false_iff, ne_eq, occursIn_iff]
  exact fun hwithin => h (hwithin.subset (by decide))

theorem Addressed.untimed_line {line rest : List Char} (h : Addressed line rest) (pad : Indent) :
    Untimed (pad.chars ++ line) := by
  have hrest : '.' ∉ rest := h.spelled.not_mem (by decide)
  have hpad : '.' ∉ pad.chars ++ ['t'] := by simpa using point_not_mem pad.blank
  rw [Untimed, Bool.eq_false_iff, ne_eq, occursIn_iff, h.line_eq]
  rintro ⟨before, after, hsplit⟩
  have hpoint : (pad.chars ++ ['t']) ++ '.' :: rest =
      (before ++ ['t']) ++ '.' :: ("timestamps".toList ++ after) := by
    rw [List.append_assoc, List.append_assoc]
    exact hsplit.symm.trans (List.append_assoc _ _ _)
  obtain ⟨-, -, heq⟩ := (List.append_cons_inj_of_notMem hpad hrest).mp hpoint
  exact h.untimed ⟨after, heq.symm⟩

theorem TableDecl.tidy_header (t : TableDecl) : Tidy t.header := by
  constructor
  · exact ⟨'c', _, rfl, by decide, by decide⟩
  · refine ⟨"create_table ".toList ++ t.name.quoted ++
      ((if t.withId then [] else ", id: false".toList) ++ " do |t".toList), '|', ?_, by decide⟩
    have hbar (a b c : List Char) (d : Char) : a ++ (b ++ (c ++ [d])) = a ++ (b ++ c) ++ [d] := by simp
    exact hbar _ _ " do |t".toList '|'

theorem TableDecl.spelled_header (t : TableDecl) : Spelled signs t.header := by
  have hfirst : Spelled signs "create_table ".toList := by decide
  have hlast : Spelled signs " do |t|".toList := by decide
  have hid : Spelled signs (if t.withId then [] else ", id: false".toList) := by
    cases t.withId <;> decide
  exact (hfirst.append (t.name.spelled_quoted (by decide))).append (hid.append hlast)

end Lines

section Steps

theorem step_of_tidy {line : List Char} (h : Tidy line) (s : State) (pad : Indent) :
    step s (pad.chars ++ line) =
      { readStatement s line with
        recent := ((pad.chars ++ line) :: s.recent).take timestampWindow } := by
  unfold step
  dsimp only
  rw [trim_of_tidy h pad]
  obtain ⟨c, rest, rfl, -, hhash⟩ := h.first
  split
  · next hempty => cases hempty
  · next hcomment => exact absurd (List.cons.inj hcomment).1 hhash
  · rfl

variable (s : State) (d : TableDecl)

theorem readStatement_header :
    readStatement s d.header =
      { s with current := some ({ d with statements := [] }.table, ['t']) } := by
  have hversion : firstAt version? d.header = none :=
    firstAt_version? (d.spelled_header.not_mem (by decide))
  obtain ⟨options, hline, hid⟩ := tableLine?_header d
  rw [readStatement, hversion]
  dsimp only
  rw [hline]
  dsimp only [newTable]
  rw [hid]
  cases hwith : d.withId <;> simp [TableDecl.table]

theorem readStatement_inside {line rest : List Char} (h : Addressed line rest) {t : Table}
    {v : List Char} (hs : s.current = some (t, v)) : readStatement s line = readInTable s t v line := by
  have hnot : '(' ∉ line := by
    rw [h.line_eq]
    simpa using h.spelled.not_mem (c := '(') (by decide)
  have htable : tableLine? line = none := by
    rw [h.line_eq]
    rfl
  rw [readStatement, firstAt_version? hnot]
  dsimp only
  rw [htable]
  dsimp only
  rw [hs]

variable {s d}

theorem readStatement_line (st : Statement) {done : List Statement}
    (hs : s.current = some ({ d with statements := done }.table, ['t'])) :
    readStatement s st.line =
      { s with current := some ({ d with statements := done ++ [st] }.table, ['t']) } := by
  obtain ⟨rest, haddressed⟩ := st.addressed
  have hend : st.line ≠ "end".toList := by
    rw [haddressed.line_eq]
    exact fun h => absurd (List.cons.inj h).1 (by decide)
  rw [readStatement_inside s haddressed hs, readInTable, if_neg hend]
  cases st with
  | column c =>
    have hindex : ¬(['t'] ++ ".index".toList).isPrefixOf c.line = true := by
      rw [List.isPrefixOf_iff_prefix]
      rintro ⟨more, hmore⟩
      apply c.not_prefix (w := "index") (by decide) (by decide)
      exact ⟨more, (List.cons.inj (List.cons.inj hmore).2).2⟩
    have hpoint : (['t'] ++ ['.']).isPrefixOf c.line = true := rfl
    rw [Statement.line, if_neg hindex, if_pos hpoint, c.columnLine?_line]
    simp [TableDecl.table, Statement.column?, Statement.index?]
  | index i =>
    have hindex : (['t'] ++ ".index".toList).isPrefixOf i.line = true := rfl
    rw [Statement.line, if_pos hindex, i.indexLine?_line]
    simp [TableDecl.table, Statement.column?, Statement.index?]

theorem readStatement_end (hs : s.current = some (d.table, ['t']))
    (hrecent : ∀ line ∈ s.recent, Untimed line) :
    readStatement s "end".toList =
      { s with schema.tables := s.schema.tables.insert d.name.text d.table, current := none } := by
  have hnone : s.recent.any (occursIn (['t'] ++ ".timestamps".toList)) = false := by
    rw [List.any_eq_false]
    intro line hline
    rw [Bool.not_eq_true]
    exact hrecent line hline
  have hinside : readStatement s "end".toList = readInTable s d.table ['t'] "end".toList := by
    rw [readStatement, hs]
    rfl
  rw [hinside, readInTable, if_pos rfl, Table.finish]
  dsimp only
  rw [hnone]
  rfl

end Steps

section Runs

variable {s : State} (indent : Nat → Indent)

theorem untimed_recent {recent : List (List Char)} (h : ∀ line ∈ recent, Untimed line)
    {line : List Char} (hline : Untimed line) :
    ∀ l ∈ (line :: recent).take timestampWindow, Untimed l := by
  intro l hl
  rcases List.mem_cons.mp (List.mem_of_mem_take hl) with rfl | hmem
  · exact hline
  · exact h l hmem

theorem foldl_statements {d : TableDecl} {done : List Statement} (sts : List Statement) (n : Nat)
    (hs : s.current = some ({ d with statements := done }.table, ['t']))
    (hrecent : ∀ line ∈ s.recent, Untimed line) :
    ∃ recent, (∀ line ∈ recent, Untimed line) ∧
      (indented indent n (sts.map Statement.line)).foldl step s =
        { s with current := some ({ d with statements := done ++ sts }.table, ['t']), recent } := by
  -- The table that is open has the statements in `done`. No line looks like time stamps, so that
  -- none are added when the table is closed.
  induction sts generalizing s done n with
  | nil =>
    refine ⟨s.recent, hrecent, ?_⟩
    rw [List.append_nil, ← hs]
    rfl
  | cons st sts ih =>
    obtain ⟨rest, haddressed⟩ := st.addressed
    have hstep := step_of_tidy haddressed.tidy s (indent n)
    rw [readStatement_line st hs] at hstep
    have hrecent' := untimed_recent hrecent (haddressed.untimed_line (indent n))
    rw [List.map_cons, indented, List.foldl_cons, hstep]
    generalize hnext : State.mk _ _ _ _ = next
    obtain ⟨recent, hquiet, hrest⟩ := @ih next (done ++ [st]) (n + 1) (hnext ▸ rfl) (hnext ▸ hrecent')
    refine ⟨recent, hquiet, ?_⟩
    rw [hrest, ← hnext, List.append_assoc]
    rfl

theorem foldl_code (d : TableDecl) (n : Nat) (hrecent : ∀ line ∈ s.recent, Untimed line) :
    ∃ recent, (∀ line ∈ recent, Untimed line) ∧
      (indented indent n d.code).foldl step s =
        { s with
          schema.tables := s.schema.tables.insert d.name.text d.table
          current := none
          recent } := by
  have hheader : Untimed ((indent n).chars ++ d.header) := by
    apply untimed_of_no_point
    intro hmem
    rcases List.mem_append.mp hmem with hpad | hline
    · exact point_not_mem (indent n).blank hpad
    · exact d.spelled_header.not_mem (by decide) hline
  have hopen := step_of_tidy d.tidy_header s (indent n)
  rw [readStatement_header] at hopen
  generalize hopened : State.mk _ _ _ _ = opened at hopen
  have hcurrent : opened.current = some ({ d with statements := [] }.table, ['t']) := hopened ▸ rfl
  obtain ⟨recent, hquiet, hstatements⟩ := foldl_statements indent d.statements (n + 1) hcurrent
    (hopened ▸ untimed_recent hrecent hheader)
  generalize hinner : State.mk _ _ _ _ = inner at hstatements
  have hquiet' : ∀ line ∈ inner.recent, Untimed line := by
    rw [← hinner]
    exact hquiet
  let m := n + 1 + (d.statements.map Statement.line).length
  have htidy : Tidy "end".toList :=
    ⟨⟨'e', _, rfl, by decide, by decide⟩, ⟨"en".toList, 'd', rfl, by decide⟩⟩
  have hclose := step_of_tidy htidy inner (indent m)
  have hlast : Untimed ((indent m).chars ++ "end".toList) := by
    apply untimed_of_no_point
    simpa using point_not_mem (indent m).blank
  rw [readStatement_end (d := d) (hinner ▸ rfl) hquiet'] at hclose
  refine ⟨_, untimed_recent hquiet' hlast, ?_⟩
  rw [TableDecl.code, indented, List.foldl_cons, hopen, indented_append, List.foldl_append,
    hstatements, indented, List.foldl_cons, hclose]
  rw [← hinner, ← hopened]
  rfl

theorem foldl_tables (tables : List TableDecl) (n : Nat) (hs : s.current = none)
    (hrecent : ∀ line ∈ s.recent, Untimed line) :
    ∃ recent, (indented indent n (tables.flatMap TableDecl.code)).foldl step s =
        { s with
          schema.tables := s.schema.tables.insertAll (tables.map fun d => (d.name.text, d.table))
          recent } := by
  induction tables generalizing s n with
  | nil => exact ⟨s.recent, rfl⟩
  | cons d tables ih =>
    obtain ⟨recent, hquiet, hcode⟩ := foldl_code indent d n hrecent
    rw [List.flatMap_cons, indented_append, List.foldl_append, hcode]
    generalize hnext : State.mk _ _ _ _ = next
    obtain ⟨recent', hrest⟩ := @ih next (n + d.code.length) (hnext ▸ rfl) (hnext ▸ hquiet)
    refine ⟨recent', ?_⟩
    rw [hrest, ← hnext, hs]
    rfl

end Runs

theorem unbroken_code (tables : List TableDecl) :
    ∀ line ∈ tables.flatMap TableDecl.code, Unbroken line := by
  have hsigns : Unbroken signs := by decide
  intro line hline
  obtain ⟨d, -, hline⟩ := List.mem_flatMap.mp hline
  rcases List.mem_cons.mp hline with rfl | hline
  · exact d.spelled_header.unbroken hsigns
  rcases List.mem_append.mp hline with hline | hline
  · obtain ⟨st, -, rfl⟩ := List.mem_map.mp hline
    obtain ⟨rest, haddressed⟩ := st.addressed
    rw [haddressed.line_eq]
    have hfirst : Unbroken ['t', '.'] := by decide
    exact List.forall_mem_append.mpr ⟨hfirst, haddressed.spelled.unbroken hsigns⟩
  · rw [List.mem_singleton.mp hline]
    decide

/-- Reading a text that declares tables gives these tables and no others, in the order of their
declarations, each with its primary key, columns and indexes as declared. -/
theorem schema_read_back (tables : List TableDecl) (indent : Nat → Indent)
    (hnames : (tables.map fun d => d.name.text).Nodup) :
    (read (schemaText tables indent)).tables.entries =
      tables.map fun d => (d.name.text, d.table) := by
  have hlines : lines (schemaText tables indent).toList =
      indented indent 0 (tables.flatMap TableDecl.code) := by
    rw [schemaText, String.toList_ofList]
    exact linesFrom_flatMap (unbroken_indented indent (unbroken_code tables) 0)
  obtain ⟨recent, hrun⟩ := foldl_tables (s := {}) indent tables 0 rfl (by simp)
  have hread : (read (schemaText tables indent)).tables =
      .ofList (tables.map fun d => (d.name.text, d.table)) := by
    rw [read, hlines, hrun]
    rfl
  rw [hread]
  apply OrderedMap.entries_ofList
  rw [Assoc.keys, List.map_map]
  exact hnames

def shopTables : List TableDecl :=
  [{ name := ⟨"orders".toList, by decide, by decide⟩
     withId := true
     statements :=
       [.column ⟨⟨"state".toList, by decide, by decide⟩, "string", by decide, true,
          some ⟨"null".toList, by decide, by decide⟩, true⟩,
        .column ⟨⟨"origin".toList, by decide, by decide⟩, "inet", by decide, false, none, false⟩,
        .index ⟨⟨"state".toList, by decide, by decide⟩, [⟨"origin".toList, by decide, by decide⟩], true,
          some ⟨"by_state".toList, by decide, by decide⟩, true⟩] },
   { name := ⟨"items_orders".toList, by decide, by decide⟩
     withId := false
     statements :=
       [.column ⟨⟨"item".toList, by decide, by decide⟩, "references", by decide, true, none, false⟩] }]

def shopText : String :=
  "create_table \"orders\" do |t|\n" ++
  "t.string \"state\", default: null, null: false\n" ++
  "t.inet \"origin\"\n" ++
  "t.index [\"state\", \"origin\"], name: \"by_state\", unique: true\n" ++
  "end\n" ++
  "create_table \"items_orders\", id: false do |t|\n" ++
  "t.references \"item\", null: false\n" ++
  "end\n"

theorem schema_read_back_shop :
    (shopTables.map fun d => d.name.text).Nodup ∧
    (read shopText).tables.entries =
    [("orders",
      { name := "orders"
        columns :=
          [{ name := "id", typeName := "bigint", nullable := false, primaryKey := true },
           { name := "state", typeName := "string", nullable := false, default? := some "null" },
           { name := "origin", typeName := "inet" }]
        indexes := [⟨["state", "origin"], true, "by_state"⟩]
        primaryKey := ["id"] }),
     ("items_orders",
      { name := "items_orders"
        columns :=
          [{ name := "item", typeName := "references", nullable := false
             foreignKey := some { table := "items" } }] })] := by
  have hnames : (shopTables.map fun d => d.name.text).Nodup := by decide
  have htext : schemaText shopTables (fun _ => .flush) = shopText := by decide +kernel
  have hread := schema_read_back shopTables (fun _ => .flush) hnames
  rw [htext] at hread
  exact ⟨hnames, hread.trans (by decide)⟩

end CodeAtlas.Schema
