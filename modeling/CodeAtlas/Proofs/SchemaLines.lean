import CodeAtlas.Proofs.HeaderLines
import CodeAtlas.Proofs.SchemaText

namespace CodeAtlas.Source.Word

open Text Schema

variable (w : Word)

theorem quotedWord?_quoted (rest : List Char) :
    quotedWord? (w.quoted ++ rest) = some (w.text, rest) := by
  have hread : wordChars? (w.chars ++ '"' :: rest) = some (w.chars, '"' :: rest) :=
    wordChars?_append w.wordy w.ne_nil rfl
  simp [quotedWord?, quoted, hread, isQuote, text]

theorem spelled_quoted {set : List Char} (h : '"' ∈ set) : Spelled set w.quoted := by
  have hquote : Spelled set ['"'] := List.forall_mem_singleton.mpr (.inr h)
  exact hquote.append ((Spelled.of_wordy w.wordy).append hquote)

theorem not_mem_quoted {c : Char} (hword : isWord c = false) (hquote : c ≠ '"') : c ∉ w.quoted := by
  simp [quoted, hquote, not_mem_of_wordy w.wordy hword]

theorem isQuote_chars : ∀ c ∈ w.chars, isQuote c = false := by
  intro c hc
  rw [Bool.eq_false_iff]
  intro hquote
  simp only [isQuote, Bool.or_eq_true, decide_eq_true_eq] at hquote
  rcases hquote with rfl | rfl <;> exact not_mem_of_wordy w.wordy (by decide) hc

theorem trimSet_quoted : trimSet ['"', '\x27'] w.quoted = w.chars := by
  have hquotes : ∀ c ∈ w.chars, ['"', '\x27'].contains c = false := by
    intro c hc
    have hnot := w.isQuote_chars c hc
    simpa [isQuote] using hnot
  obtain ⟨first, rest, hfirst⟩ := List.exists_cons_of_ne_nil w.ne_nil
  have hstart : w.quoted.dropWhile (['"', '\x27'].contains ·) = w.chars ++ ['"'] := by
    have hhead := hquotes first (by simp [hfirst])
    rw [quoted, List.dropWhile_cons_of_pos rfl, hfirst, List.cons_append,
      List.dropWhile_cons_of_neg (by simpa using hhead)]
  have hlast := hquotes (w.chars.getLast w.ne_nil) (List.getLast_mem w.ne_nil)
  have hend : (w.chars ++ ['"']).reverse.dropWhile (['"', '\x27'].contains ·) = w.chars.reverse := by
    rw [List.reverse_append, List.reverse_singleton, List.singleton_append,
      List.dropWhile_cons_of_pos rfl, ← List.dropLast_concat_getLast w.ne_nil, List.reverse_append,
      List.reverse_singleton, List.singleton_append, List.dropWhile_cons_of_neg (by simpa using hlast)]
  rw [trimSet, hstart, hend, List.reverse_reverse]

theorem tidy_chars : Tidy w.chars := by
  obtain ⟨c, rest, hchars⟩ := List.exists_cons_of_ne_nil w.ne_nil
  have hc : isWord c = true := w.wordy c (by simp [hchars])
  constructor
  · refine ⟨c, rest, hchars, isBlank_of_isWord hc, ?_⟩
    rintro rfl
    cases hc
  · exact last_of_isWord [] w.wordy w.ne_nil

theorem trim_quoted (pad : Indent) : trim (pad.chars ++ w.quoted) = w.quoted := by
  apply trim_of_tidy
  constructor
  · exact ⟨'"', _, rfl, by decide, by decide⟩
  · exact ⟨'"' :: w.chars, '"', rfl, by decide⟩

end CodeAtlas.Source.Word

namespace CodeAtlas.Schema

open Text Source

def signs : List Char := " ,:\"[]|".toList

theorem trim_eq_self {line : List Char} (h : Tidy line) : trim line = line :=
  trim_of_tidy h .flush

section Options

def joined : List (List Char) → List Char
  | [] => []
  | first :: more => first ++ written more

theorem mem_inOrder {swapped : Bool} {a b : Option (List Char)} {o : List Char} :
    o ∈ inOrder swapped a b ↔ a = some o ∨ b = some o := by
  cases swapped <;> simp [inOrder, or_comm]

structure Setting (o : List Char) : Prop where
  tidy : Tidy o
  spelled : Spelled signs o

theorem furtherOptions_written {options : List (List Char)} (h : ∀ o ∈ options, Setting o) :
    furtherOptions (written options) = joined options := by
  cases options with
  | nil => rfl
  | cons first more =>
    obtain ⟨c, rest, rfl, hc, -⟩ := (h _ List.mem_cons_self).tidy.first
    exact skipBlanks_cons hc (rest ++ written more)

theorem spelled_written {set : List Char} {options : List (List Char)}
    (hcomma : Spelled set ", ".toList) (h : ∀ o ∈ options, Spelled set o) :
    Spelled set (written options) := by
  induction options with
  | nil => exact fun c hc => absurd hc List.not_mem_nil
  | cons first more ih =>
    obtain ⟨hfirst, hmore⟩ := List.forall_mem_cons.mp h
    exact (hcomma.append hfirst).append (ih hmore)

theorem last_written {front : List Char} {options : List (List Char)}
    (hfront : ∃ front' c, front = front' ++ [c] ∧ isBlank c = false)
    (h : ∀ o ∈ options, Setting o) :
    ∃ front' c, front ++ written options = front' ++ [c] ∧ isBlank c = false := by
  induction options generalizing front with
  | nil => simpa [written] using hfront
  | cons first more ih =>
    obtain ⟨hfirst, hmore⟩ := List.forall_mem_cons.mp h
    obtain ⟨front', c, hlast, hc⟩ := hfirst.tidy.last
    have hnext : ∃ front'' d, front ++ (", ".toList ++ first) = front'' ++ [d] ∧ isBlank d = false :=
      ⟨front ++ (", ".toList ++ front'), c, by rw [hlast]; simp, hc⟩
    have hrest := ih hnext hmore
    rw [List.append_assoc] at hrest
    exact hrest

theorem hasSetting_append (key value : String) {front : List Char} (rest : List Char)
    (hfront : front.getLast?.any isWord = false)
    (hvalue : skipBlanks (value.toList ++ rest) = value.toList ++ rest)
    (hrest : atWordEnd rest = true) :
    hasSetting key value (front ++ ((key ++ ":").toList ++ ' ' :: (value.toList ++ rest))) =
      true := by
  rw [hasSetting, Bool.not_eq_true', Bool.eq_false_iff, ne_eq, List.isEmpty_iff,
    findAll_eq_nil_iff]
  intro hnone
  have hhere := hnone front _ rfl (by simp)
  have hskip : skipBlanks (' ' :: (value.toList ++ rest)) = value.toList ++ rest := hvalue
  rw [hfront, if_neg (by simp), word?_append, Option.bind_some, hskip, word?_append,
    Option.bind_some, if_pos hrest] at hhere
  cases hhere

theorem hasSetting_eq_false {key value : String} {front rest : List Char} {c : Char}
    (hkey : (key ++ ":").toList.head? = some c) (hfront : c ∉ front) (hrest : ':' ∉ rest) :
    hasSetting key value (front ++ rest) = false := by
  rw [hasSetting, Bool.not_eq_false', List.isEmpty_iff, findAll_eq_nil_iff]
  intro a b hsplit hb
  have hread : word? (key ++ ":") b = none := by
    cases hread : word? (key ++ ":") b with
    | none => rfl
    | some after =>
      have hhead : b.head? = some c := by
        rw [eq_append_of_word? hread, List.head?_append, hkey]
        rfl
      -- The key begins in the front, or its colon stands in the rest.
      rcases List.append_eq_append_iff.mp hsplit with ⟨m, -, hrest'⟩ | ⟨m, hfront', hb'⟩
      · have hcolon := mem_of_word? hread ':' (by simp)
        exact absurd (hrest' ▸ List.mem_append_right _ hcolon) hrest
      · cases m with
        | nil =>
          have hcolon := mem_of_word? hread ':' (by simp)
          rw [List.nil_append] at hb'
          exact absurd (hb' ▸ hcolon) hrest
        | cons d m =>
          rw [hb', List.cons_append, List.head?_cons, Option.some.injEq] at hhead
          exact absurd (by simp [hfront', hhead]) hfront
  simp [hread]

theorem default?_setting (v : Word) (rest : List Char) (hrest : endsValue? rest = some ()) :
    default? (ColumnDecl.defaultSetting v ++ rest) = some v.text := by
  have hread : word? "default:" (ColumnDecl.defaultSetting v ++ rest) =
      some (' ' :: (v.chars ++ rest)) := rfl
  have hblank : ∀ c ∈ v.chars, isBlank c = false := fun c hc => isBlank_of_isWord (v.wordy c hc)
  have hskip : skipBlanks (' ' :: (v.chars ++ rest)) = v.chars ++ rest := by
    obtain ⟨c, cs, hchars⟩ := List.exists_cons_of_ne_nil v.ne_nil
    rw [hchars, List.cons_append]
    exact skipBlanks_cons (hblank c (by simp [hchars])) _
  have hsplit : splitBefore endsValue? (v.chars ++ rest) = some (v.chars, ()) := by
    apply splitBefore_append v.ne_nil _ hrest
    intro x y hxy _ hy
    obtain ⟨c, y, rfl⟩ := List.exists_cons_of_ne_nil hy
    have hcomma : c ≠ ',' := by
      rintro rfl
      have hmem : ',' ∈ v.chars := by simp [hxy]
      exact not_mem_of_wordy v.wordy (by decide) hmem
    rw [List.cons_append, endsValue?]
    · simp
    · rintro rest' heq
      exact hcomma (List.cons.inj heq).1
  rw [default?, hread]
  simp only [Option.bind_eq_bind, Option.bind_some, hskip, hsplit, trim_eq_self v.tidy_chars]
  rfl

theorem indexName?_setting (n : Word) (rest : List Char) :
    indexName? (IndexDecl.nameSetting n ++ rest) = some n.text := by
  obtain ⟨c, cs, hchars⟩ := List.exists_cons_of_ne_nil n.ne_nil
  have hplain : ∀ d ∈ cs, (!isQuote d) = true := by
    intro d hd
    simp [n.isQuote_chars d (by simp [hchars, hd])]
  have hread : word? "name:" (IndexDecl.nameSetting n ++ rest) =
      some (' ' :: '"' :: (n.chars ++ ['"'] ++ rest)) := rfl
  have hskip : skipBlanks (' ' :: '"' :: (n.chars ++ ['"'] ++ rest)) =
      '"' :: c :: (cs ++ '"' :: rest) := by
    rw [hchars, List.append_assoc]
    rfl
  have htake : (cs ++ '"' :: rest).takeWhile (!isQuote ·) = cs := by
    rw [List.takeWhile_append_of_pos hplain]
    exact List.append_nil cs
  have hdrop : (cs ++ '"' :: rest).dropWhile (!isQuote ·) = '"' :: rest := by
    rw [List.dropWhile_append_of_pos hplain]
    rfl
  rw [indexName?, hread]
  simp only [Option.bind_eq_bind, Option.bind_some, hskip, htake, hdrop]
  rw [← hchars]
  rfl

end Options

theorem setting_append {c : Char} (hc : isWord c = true) (front : List Char) {w : List Char}
    (hw : Wordy w) (hne : w ≠ []) (hfront : Spelled signs (c :: front)) :
    Setting (c :: front ++ w) :=
  ⟨tidy_append hc front hw hne, hfront.append (.of_wordy hw)⟩

namespace ColumnDecl

variable (c : ColumnDecl)

theorem setting_options : ∀ o ∈ c.options, Setting o := by
  intro o ho
  rcases mem_inOrder.mp ho with ho | ho
  · split at ho
    · cases ho
      have hform : "null: false".toList = 'n' :: "ull: ".toList ++ "false".toList := rfl
      rw [hform]
      exact setting_append (by decide) _ (by decide) (by decide) (by decide)
    · cases ho
  · obtain ⟨v, -, rfl⟩ := Option.map_eq_some_iff.mp ho
    have hform : defaultSetting v = 'd' :: "efault: ".toList ++ v.chars := rfl
    rw [hform]
    exact setting_append (by decide) _ v.wordy v.ne_nil (by decide)

theorem read_options :
    hasSetting "null" "false" (furtherOptions (written c.options)) = c.required ∧
      firstAt Schema.default? (furtherOptions (written c.options)) = c.default?.map Word.text := by
  rw [furtherOptions_written c.setting_options]
  obtain ⟨name, typeName, typeName_mem, required, default, defaultFirst⟩ := c
  cases default with
  | none => cases required <;> cases defaultFirst <;> exact ⟨rfl, rfl⟩
  | some v =>
    have hnull : 'n' ∉ "default: ".toList := by decide
    have hcolon : ':' ∉ v.chars ++ [] := by simpa using not_mem_of_wordy v.wordy (by decide)
    have hlast : (defaultSetting v ++ ", ".toList).getLast?.any isWord = false := by
      rw [List.getLast?_append]
      rfl
    have hread := firstAt_of_some (default?_setting v [] rfl)
    cases required with
    | false =>
      have hnone := @hasSetting_eq_false "null" "false" _ _ 'n' rfl hnull hcolon
      rw [← List.append_assoc] at hnone
      cases defaultFirst <;> exact ⟨hnone, hread⟩
    | true =>
      cases defaultFirst with
      | false => exact ⟨rfl, hread⟩
      | true =>
        have hfound := hasSetting_append "null" "false" [] hlast rfl rfl
        rw [List.append_assoc] at hfound
        exact ⟨hfound, firstAt_of_some (default?_setting v (written ["null: false".toList]) rfl)⟩

theorem wordy_typeName : Wordy c.typeName.toList := by
  have hall : ∀ t ∈ columnTypes, Wordy t.toList := by decide
  exact hall _ c.typeName_mem

theorem typeName_ne_nil : c.typeName.toList ≠ [] := by
  have hall : ∀ t ∈ columnTypes, t.toList ≠ [] := by decide
  exact hall _ c.typeName_mem

theorem columnLine?_line : columnLine? ['t'] c.line = some c.column := by
  have hreceiver : wordChars? c.line =
      some (['t'], '.' :: (c.typeName.toList ++ ' ' :: (c.name.quoted ++ written c.options))) := rfl
  have htype : wordChars? (c.typeName.toList ++ ' ' :: (c.name.quoted ++ written c.options)) =
      some (c.typeName.toList, ' ' :: (c.name.quoted ++ written c.options)) :=
    wordChars?_append c.wordy_typeName c.typeName_ne_nil rfl
  have hknown : ['t'] = ['t'] ∧ columnTypes.contains c.typeName = true :=
    ⟨rfl, List.contains_iff_mem.mpr c.typeName_mem⟩
  obtain ⟨hrequired, hdefault⟩ := c.read_options
  rw [columnLine?, hreceiver]
  show (wordChars? (c.typeName.toList ++ ' ' :: (c.name.quoted ++ written c.options))).bind _ = _
  rw [htype]
  show (quotedWord? (c.name.quoted ++ written c.options)).bind _ = _
  rw [c.name.quotedWord?_quoted, Option.bind_some]
  dsimp only
  rw [String.ofList_toList, if_pos hknown, hrequired, hdefault]
  rfl

end ColumnDecl

namespace IndexDecl

variable (i : IndexDecl)

theorem setting_nameSetting (n : Word) : Setting (nameSetting n) where
  tidy := by
    constructor
    · exact ⟨'n', _, rfl, by decide, by decide⟩
    · have hquote := List.append_assoc "name: \"".toList n.chars ['"']
      exact ⟨"name: \"".toList ++ n.chars, '"', hquote.symm, by decide⟩
  spelled := by
    have hkey : Spelled signs "name: ".toList := by decide
    exact hkey.append (n.spelled_quoted (by decide))

theorem setting_options : ∀ o ∈ i.options, Setting o := by
  intro o ho
  rcases mem_inOrder.mp ho with ho | ho
  · split at ho
    · cases ho
      have hform : "unique: true".toList = 'u' :: "nique: ".toList ++ "true".toList := rfl
      rw [hform]
      exact setting_append (by decide) _ (by decide) (by decide) (by decide)
    · cases ho
  · obtain ⟨n, -, rfl⟩ := Option.map_eq_some_iff.mp ho
    exact setting_nameSetting n

theorem read_options :
    hasSetting "unique" "true" (furtherOptions (written i.options)) = i.unique ∧
      firstAt indexName? (furtherOptions (written i.options)) = i.name?.map Word.text := by
  rw [furtherOptions_written i.setting_options]
  obtain ⟨first, others, unique, name, nameFirst⟩ := i
  cases name with
  | none => cases unique <;> cases nameFirst <;> exact ⟨rfl, rfl⟩
  | some n =>
    have hunique : 'u' ∉ "name: ".toList := by decide
    have hcolon : ':' ∉ n.quoted ++ [] := by
      simpa using n.not_mem_quoted (by decide) (by decide)
    have hlast : (nameSetting n ++ ", ".toList).getLast?.any isWord = false := by
      rw [List.getLast?_append]
      rfl
    have hread := firstAt_of_some (indexName?_setting n [])
    cases unique with
    | false =>
      have hnone := @hasSetting_eq_false "unique" "true" _ _ 'u' rfl hunique hcolon
      rw [← List.append_assoc] at hnone
      cases nameFirst <;> exact ⟨hnone, hread⟩
    | true =>
      cases nameFirst with
      | false => exact ⟨rfl, hread⟩
      | true =>
        have hfound := hasSetting_append "unique" "true" [] hlast rfl rfl
        rw [List.append_assoc] at hfound
        exact ⟨hfound, firstAt_of_some (indexName?_setting n (written ["unique: true".toList]))⟩

theorem splitOn_columns : splitOn ',' i.columns =
    i.first.quoted :: i.others.map fun w => ' ' :: w.quoted := by
  have hcomma (w : Word) : ',' ∉ w.quoted := w.not_mem_quoted (by decide) (by decide)
  have hmore (front : List Char) (hfront : ',' ∉ front) (ws : List Word) :
      splitOn ',' (front ++ written (ws.map Word.quoted)) =
        front :: ws.map fun w => ' ' :: w.quoted := by
    induction ws generalizing front with
    | nil =>
      rw [written, List.map_nil, List.flatMap_nil, List.append_nil]
      exact splitOn_of_not_mem hfront
    | cons w ws ih =>
      have hpiece : ',' ∉ ' ' :: w.quoted := List.not_mem_cons_of_ne_of_not_mem (by decide) (hcomma w)
      have hrest := ih _ hpiece
      rw [List.map_cons, List.map_cons, ← hrest]
      exact splitOn_append hfront _
  exact hmore _ (hcomma i.first) i.others

theorem columnList_columns : columnList i.columns = (i.first :: i.others).map Word.text := by
  have htrim (w : Word) : trim w.quoted = w.quoted := w.trim_quoted .flush
  have hpad (w : Word) : trim (' ' :: w.quoted) = w.quoted :=
    w.trim_quoted ⟨[' '], by simp; decide, by decide⟩
  have hne (w : Word) : w.quoted ≠ [] := by simp [Word.quoted]
  have hname (w : Word) : String.ofList (trimSet ['"', '\x27'] w.quoted) = w.text := by
    rw [w.trimSet_quoted, Word.text]
  have hkept (ws : List Word) :
      ((ws.map fun w => ' ' :: w.quoted).filter fun c => !(trim c).isEmpty) =
        ws.map fun w => ' ' :: w.quoted := by
    rw [List.filter_eq_self]
    intro c hc
    obtain ⟨w, -, rfl⟩ := List.mem_map.mp hc
    simp [hpad, hne]
  rw [columnList, i.splitOn_columns, List.filter_cons_of_pos (by simp [htrim, hne]), hkept]
  simp [htrim, hpad, hname]

theorem spelled_columns : Spelled " ,\"".toList i.columns := by
  apply (i.first.spelled_quoted (by decide)).append
  apply spelled_written (by decide)
  intro o ho
  obtain ⟨w, -, rfl⟩ := List.mem_map.mp ho
  exact w.spelled_quoted (by decide)

theorem indexLine?_line : indexLine? i.line = some i.index := by
  have hread : indexLine? i.line = indexColumns? ('[' :: (i.columns ++ ']' :: written i.options)) :=
    rfl
  obtain ⟨rest, hcolumns⟩ : ∃ rest, i.columns = '"' :: rest := ⟨_, rfl⟩
  have hinside : ∀ c ∈ rest, decide (c ≠ ']') = true := by
    have hnot : ']' ∉ i.columns := i.spelled_columns.not_mem (by decide)
    intro c hc
    apply decide_eq_true
    rintro rfl
    exact hnot (by simp [hcolumns, hc])
  have htake : (rest ++ ']' :: written i.options).takeWhile (· ≠ ']') = rest := by
    rw [List.takeWhile_append_of_pos hinside]
    exact List.append_nil rest
  have hdrop : (rest ++ ']' :: written i.options).dropWhile (· ≠ ']') = ']' :: written i.options := by
    rw [List.dropWhile_append_of_pos hinside]
    rfl
  have hbracket (cs : List Char) : word? "[" ('[' :: cs) = some cs := rfl
  have hlist : columnList ('"' :: rest) = (i.first :: i.others).map Word.text := by
    rw [← hcolumns, i.columnList_columns]
  obtain ⟨hunique, hname⟩ := i.read_options
  rw [hread, indexColumns?, hbracket, hcolumns, Option.bind_eq_bind, Option.bind_some]
  simp only [List.cons_append, hdrop, htake, hlist, hunique, hname, index]

end IndexDecl

section Header

variable (t : TableDecl)

theorem tableLine?_of_word {line rest : List Char}
    (h : (word? "create_table" line).bind blanks? = some rest) :
    tableLine? line = (quotedWord? rest).bind fun (name, rest) =>
      match rest with
      | ',' :: rest => (optionsAndBlock? rest).map fun (options, v) => ⟨name, options, v⟩
      | _ => (blockVariable? rest).map fun v => ⟨name, [], v⟩ := by
  rw [← Option.bind_some rest quotedWord?, ← h, tableLine?, Option.bind_assoc, Option.bind_assoc]
  rfl

theorem tableLine?_header : ∃ options, tableLine? t.header = some ⟨t.name.text, options, ['t']⟩ ∧
    hasSetting "id" "false" options = !t.withId := by
  generalize htail : (if t.withId then [] else ", id: false".toList) ++ " do |t|".toList = tail
  have hblanks : (word? "create_table" t.header).bind blanks? = some (t.name.quoted ++ tail) := by
    rw [← htail]
    rfl
  rw [tableLine?_of_word hblanks, t.name.quotedWord?_quoted, Option.bind_some, ← htail]
  cases t.withId with
  | true => exact ⟨[], rfl, rfl⟩
  | false => exact ⟨"id: false".toList, rfl, rfl⟩

end Header

theorem skipRelease_suffix (cs : List Char) : skipRelease cs <:+ cs := by
  unfold skipRelease
  dsimp only
  split
  · next rest =>
    split
    · next more _ hmajor =>
      split
      · next after _ hminor =>
        have hafter : after <:+ more :=
          (List.suffix_cons ']' after).trans (hminor ▸ List.dropWhile_suffix isDigit)
        have hmore : more <:+ rest :=
          (List.suffix_cons '.' more).trans (hmajor ▸ List.dropWhile_suffix isDigit)
        exact (hafter.trans hmore).trans (List.suffix_cons '[' rest)
      · exact List.suffix_refl _
    · exact List.suffix_refl _
  · exact List.suffix_refl _

theorem firstAt_version? {line : List Char} (h : '(' ∉ line) : firstAt version? line = none := by
  apply firstAt_eq_none
  intro rest hrest
  have hnot : '(' ∉ rest := fun hmem => h (hrest.subset hmem)
  unfold version?
  cases hclass : word? "ActiveRecord::Schema" rest with
  | none => rfl
  | some after =>
    have hafter : after <:+ rest := ⟨_, (eq_append_of_word? hclass).symm⟩
    have hdefine : word? ".define(" (skipRelease after) = none := by
      apply word?_eq_none (c := '(') (by decide)
      exact fun hmem => hnot (hafter.subset ((skipRelease_suffix after).subset hmem))
    simp [hdefine]

end CodeAtlas.Schema
