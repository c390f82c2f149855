import CodeAtlas.Proofs.HeaderLines
import CodeAtlas.Proofs.RouteText
import Mathlib.Data.List.TakeWhile

namespace CodeAtlas.Source.Word

open Text Routes

variable (w : Word)

theorem spelled_symbol {signs : List Char} (h : ':' ∈ signs) : Spelled signs w.symbol :=
  List.forall_mem_cons.mpr ⟨Or.inr h, Spelled.of_wordy w.wordy⟩

theorem plainSymbol?_symbol {rest : List Char} (h : atWordEnd rest = true) :
    plainSymbol? (w.symbol ++ rest) = some (w.chars, rest) :=
  wordChars?_append w.wordy w.ne_nil h

end CodeAtlas.Source.Word

namespace CodeAtlas.Routes

open Text Source

structure Neat (line : List Char) : Prop where
  tidy : Tidy line
  unbroken : Unbroken line

def signs : List Char := " .,:[]".toList

theorem Neat.of_spelled {line : List Char} (h : Spelled signs line)
    (hfirst : ∃ c rest, line = c :: rest ∧ isWord c = true)
    (hlast : ∃ front c, line = front ++ [c] ∧ isBlank c = false) : Neat line where
  tidy := by
    obtain ⟨c, rest, rfl, hc⟩ := hfirst
    refine ⟨⟨c, rest, rfl, isBlank_of_isWord hc, ?_⟩, hlast⟩
    rintro rfl
    cases hc
  unbroken := h.unbroken (by decide)

theorem last_do (front : List Char) :
    ∃ front' c, front ++ " do".toList = front' ++ [c] ∧ isBlank c = false :=
  ⟨front ++ " d".toList, 'o', (List.append_assoc front " d".toList ['o']).symm, by decide⟩

theorem spelled_do : Spelled signs " do".toList := by decide

theorem neat_end : Neat "end".toList :=
  Neat.of_spelled (by decide) ⟨'e', "nd".toList, rfl, by decide⟩ ⟨"en".toList, 'd', rfl, by decide⟩

theorem neat_scopeHeader (n : Word) : Neat (scopeHeader n) := by
  have hfront : Spelled signs "namespace ".toList := by decide
  have hsymbol : Spelled signs n.symbol := n.spelled_symbol (by decide)
  apply Neat.of_spelled ((hfront.append hsymbol).append spelled_do)
  · exact ⟨'n', _, rfl, by decide⟩
  · exact last_do _

theorem scopeLine?_scope (n : Word) :
    scopeLine? (scopeHeader n) = some n.text := by
  have hname : plainSymbol? (n.symbol ++ " do".toList) = some (n.chars, " do".toList) :=
    n.plainSymbol?_symbol rfl
  show (plainSymbol? (n.symbol ++ " do".toList)).bind _ = _
  rw [hname]
  rfl

namespace Choice

variable (c : Choice)

def symbolAt (_ : Option Char) (cs : List Char) : Option (List Char × Nat) :=
  (plainSymbol? cs).map fun (name, rest) => (name, taken cs rest)

theorem symbolAt_symbol (n : Word) (prev : Option Char) {rest : List Char}
    (h : atWordEnd rest = true) :
    symbolAt prev (n.symbol ++ rest) = some (n.chars, n.symbol.length) := by
  rw [symbolAt, n.plainSymbol?_symbol h]
  simp [taken]

theorem findFrom_symbol (n : Word) (prev : Option Char) (pos : Nat) {rest : List Char}
    (h : atWordEnd rest = true) :
    findFrom symbolAt 0 prev pos (n.symbol ++ rest) =
      (pos, n.chars) ::
        findFrom symbolAt 0 (n.chars.getLast?.or (some ':')) (pos + n.symbol.length) rest := by
  have hread := symbolAt_symbol n prev h
  rw [Word.symbol, List.cons_append] at hread
  rw [Word.symbol, List.cons_append, findFrom, hread]
  have hskip := @findFrom_skip _ symbolAt n.chars rest (some ':') (pos + 1)
  have hlength : pos + 1 + n.chars.length = pos + (':' :: n.chars).length := by
    rw [List.length_cons]
    omega
  rw [hlength] at hskip
  exact congrArg _ hskip

theorem findFrom_symbols (ns : List Word) (prev : Option Char) (pos : Nat) :
    (findFrom symbolAt 0 prev pos (symbols ns)).map Prod.snd = ns.map Word.chars := by
  induction ns generalizing prev pos with
  | nil => rfl
  | cons n ns ih =>
    cases ns with
    | nil =>
      have hfind := findFrom_symbol n prev pos (show atWordEnd [] = true from rfl)
      rw [List.append_nil] at hfind
      rw [symbols, hfind]
      rfl
    | cons m ns =>
      rw [symbols, findFrom_symbol n prev pos rfl, List.map_cons, List.map_cons]
      · exact congrArg _ (ih (some ' ') _)
      · simp

theorem spelled_symbols (ns : List Word) : Spelled [':', ',', ' '] (symbols ns) := by
  induction ns with
  | nil => exact fun c hc => absurd hc List.not_mem_nil
  | cons n ns ih =>
    have hn : Spelled [':', ',', ' '] n.symbol := n.spelled_symbol (by decide)
    have hcomma : Spelled [':', ',', ' '] [',', ' '] := by decide
    cases ns with
    | nil => exact hn
    | cons m ns => exact hn.append (hcomma.append ih)

theorem actionChoice?_written {rest : List Char} (h : atWordEnd rest = true) :
    actionChoice? (some ' ') ((c.keyword ++ ":").toList ++ ' ' :: (c.list ++ rest)) =
      some ((c.only, c.actions), 1) := by
  have hkept : ∀ cs, ((word? "only:" ((c.keyword ++ ":").toList ++ cs)).map fun rest => (true, rest)).or
      ((word? "except:" ((c.keyword ++ ":").toList ++ cs)).map fun rest => (false, rest)) =
      some (c.only, cs) := by
    intro cs
    rw [keyword]
    cases c.only <;> rfl
  unfold actionChoice?
  rw [if_neg (by decide), hkept]
  dsimp only [Option.bind_eq_bind, Option.bind_some]
  cases hnames : c.names with
  | inl n =>
    have hskip : skipBlanks (' ' :: (c.list ++ rest)) = n.symbol ++ rest := by
      rw [list, hnames]
      rfl
    have hname := n.plainSymbol?_symbol h
    rw [hskip]
    show (plainSymbol? (n.symbol ++ rest)).map _ = _
    rw [hname, actions, hnames]
    rfl
  | inr ns =>
    have hinner : ∀ d ∈ symbols ns, decide (d ≠ ']') = true := by
      intro d hd
      apply decide_eq_true
      rintro rfl
      exact (spelled_symbols ns).not_mem (by decide) hd
    have hskip : skipBlanks (' ' :: (c.list ++ rest)) = '[' :: (symbols ns ++ ']' :: rest) := by
      rw [list, hnames]
      exact congrArg ('[' :: ·) (List.append_assoc (symbols ns) [']'] rest)
    have hdrop : (symbols ns ++ ']' :: rest).dropWhile (· ≠ ']') = ']' :: rest := by
      rw [List.dropWhile_append_of_pos hinner]
      rfl
    have htake : (symbols ns ++ ']' :: rest).takeWhile (· ≠ ']') = symbols ns := by
      rw [List.takeWhile_append_of_pos hinner]
      exact List.append_nil _
    have hfound : (findAll symbolAt (symbols ns)).map (fun m => String.ofList m.2) =
        ns.map Word.text := by
      have hchars := congrArg (List.map String.ofList) (findFrom_symbols ns none 0)
      rw [List.map_map, List.map_map] at hchars
      exact hchars
    rw [hskip, actions, hnames]
    show (if ((symbols ns ++ ']' :: rest).dropWhile (· ≠ ']')).isEmpty then none
      else some ((c.only, (findAll symbolAt ((symbols ns ++ ']' :: rest).takeWhile (· ≠ ']'))).map
        fun m => String.ofList m.2), 1)) = _
    rw [hdrop, htake, hfound]
    rfl

end Choice

namespace ResourceDecl

variable (r : ResourceDecl)

theorem atWordEnd_options {rest : List Char} (h : atWordEnd rest = true) :
    atWordEnd (r.options ++ rest) = true := by
  unfold options
  split
  · exact h
  · rfl

theorem resourceLine?_line {rest : List Char} (h : atWordEnd rest = true) :
    resourceLine? (r.line ++ rest) = some ⟨r.singular, r.name.text, r.options ++ rest⟩ := by
  have hname := r.name.plainSymbol?_symbol (r.atWordEnd_options h)
  have hline : r.line ++ rest = r.keyword.toList ++ ' ' :: (r.name.symbol ++ (r.options ++ rest)) := by
    simp only [line, List.append_assoc, List.cons_append]
  have hkeyword : resourceLine? (r.keyword.toList ++ ' ' :: (r.name.symbol ++ (r.options ++ rest))) =
      (plainSymbol? (r.name.symbol ++ (r.options ++ rest))).bind fun (name, rest) =>
        some ⟨r.singular, String.ofList name, rest⟩ := by
    rw [keyword]
    cases r.singular <;> rfl
  rw [hline, hkeyword, hname]
  rfl

theorem selectActions_options {rest : List Char} (h : atWordEnd rest = true)
    (hrest : rest = [] ∨ rest = " do".toList) :
    selectActions (r.options ++ rest) (if r.singular then singularActions else standardActions) =
      r.actions := by
  unfold options actions
  cases r.choice with
  | none => rcases hrest with rfl | rfl <;> rfl
  | some c =>
    have hread := c.actionChoice?_written h
    obtain ⟨more, hmore⟩ := findFrom_of_some 2 (by simp) hread
    have hwritten : findAll actionChoice? (c.written ++ rest) = (2, c.only, c.actions) :: more := by
      rw [← hmore]
      have hsplit : c.written ++ rest =
          ", ".toList ++ ((c.keyword ++ ":").toList ++ ' ' :: (c.list ++ rest)) := by
        simp only [Choice.written, List.append_assoc, List.cons_append]
      rw [hsplit]
      rfl
    dsimp only
    rw [selectActions, hwritten]
    dsimp only
    cases c.only <;> simp

end ResourceDecl

namespace ExplicitDecl

variable (e : ExplicitDecl)

theorem destination?_destination (rest : List Char) :
    destination? (e.destination ++ rest) = some (e.target.chars, e.action.text, rest) := by
  let isPart := fun (c : Char) => isWord c || c = '/'
  have hpart : ∀ c ∈ e.target.chars, isPart c = true := by
    intro c hc
    simp [isPart, e.target.wordy c hc]
  have haction : wordChars? (e.action.chars ++ '\x27' :: rest) =
      some (e.action.chars, '\x27' :: rest) := wordChars?_append e.action.wordy e.action.ne_nil rfl
  have hassoc (a b c d : List Char) :
      a ++ b ++ '#' :: (c ++ ['\x27']) ++ d = a ++ (b ++ '#' :: (c ++ '\x27' :: d)) := by simp
  have hsplit : e.destination ++ rest =
      "', to: '".toList ++ (e.target.chars ++ '#' :: (e.action.chars ++ '\x27' :: rest)) :=
    hassoc _ _ _ _
  have htake : (e.target.chars ++ '#' :: (e.action.chars ++ '\x27' :: rest)).takeWhile isPart =
      e.target.chars := by
    rw [List.takeWhile_append_of_pos hpart]
    exact List.append_nil _
  have hdrop : (e.target.chars ++ '#' :: (e.action.chars ++ '\x27' :: rest)).dropWhile isPart =
      '#' :: (e.action.chars ++ '\x27' :: rest) := by
    rw [List.dropWhile_append_of_pos hpart]
    rfl
  rw [hsplit]
  show (word? "#" ((e.target.chars ++ '#' :: (e.action.chars ++ '\x27' :: rest)).dropWhile
    isPart)).bind _ = _
  rw [hdrop]
  show (wordChars? (e.action.chars ++ '\x27' :: rest)).bind _ = _
  rw [haction]
  show (if ((e.target.chars ++ '#' :: (e.action.chars ++ '\x27' :: rest)).takeWhile isPart).isEmpty
    then none
    else some ((e.target.chars ++ '#' :: (e.action.chars ++ '\x27' :: rest)).takeWhile isPart, _, _)) = _
  rw [htake, if_neg (by simpa using e.target.ne_nil)]
  rfl

theorem routeName?_naming :
    ((findAll routeName? e.naming).head?.map Prod.snd) = e.name?.map Word.text := by
  unfold naming
  cases e.name? with
  | none => rfl
  | some n =>
    have hread : routeName? (some ' ') ("as: '".toList ++ (n.chars ++ ['\x27'])) =
        some (n.text, 1) := by
      have hname : wordChars? (n.chars ++ ['\x27']) = some (n.chars, ['\x27']) :=
        wordChars?_append n.wordy n.ne_nil rfl
      show (wordChars? (n.chars ++ ['\x27'])).map _ = _
      rw [hname]
      rfl
    obtain ⟨more, hmore⟩ := findFrom_of_some 2 (by simp) hread
    show ((findFrom routeName? 0 (some ' ') 2 ("as: '".toList ++ (n.chars ++ ['\x27']))).head?.map
      Prod.snd) = _
    rw [hmore]
    rfl

theorem splitBefore_path (rest : List Char) :
    splitBefore destination? (e.path ++ (e.destination ++ rest)) =
      some (e.path, e.target.chars, e.action.text, rest) := by
  apply splitBefore_append e.path_ne_nil _ (e.destination?_destination rest)
  intro x y hsplit _ hy
  obtain ⟨c, y, rfl⟩ := List.exists_cons_of_ne_nil hy
  have hc := List.any_eq_false.mp e.path_plain c (by simp [hsplit])
  simp [destination?, hc]

theorem explicitLine?_line :
    explicitLine? e.line =
      some ⟨e.verb, e.path, e.target.chars, e.action.text, e.name?.map Word.text⟩ := by
  have hline : e.line = e.word.toList ++ " '".toList ++ (e.path ++ (e.destination ++ e.naming)) :=
    List.append_assoc _ _ _
  have hverb : explicitLine? (e.word.toList ++ " '".toList ++ (e.path ++ (e.destination ++ e.naming))) =
      (splitBefore destination? (e.path ++ (e.destination ++ e.naming))).bind fun p =>
        some ⟨e.verb, p.1, p.2.1, p.2.2.1, (findAll routeName? p.2.2.2).head?.map Prod.snd⟩ := by
    rw [word]
    cases e.verb <;> rfl
  rw [hline, hverb, e.splitBefore_path, Option.bind_some]
  dsimp only
  rw [e.routeName?_naming]

end ExplicitDecl

section Blocks

theorem opensDo_append (front : List Char) : opensDo (front ++ " do".toList) = true := by
  rw [opensDo, Bool.not_eq_true', Bool.eq_false_iff, ne_eq, List.isEmpty_iff, findAll_eq_nil_iff]
  intro hnone
  have hhere := hnone (front ++ [' ']) "do".toList (List.append_assoc front [' '] _).symm (by simp)
  rw [List.getLast?_concat] at hhere
  cases hhere

theorem opensDo_eq_false {line : List Char} {last : Char} (hlast : line.getLast? = some last)
    (hblank : isBlank last = false) (hbar : last ≠ '|')
    (hdo : ∀ front, line = front ++ "do".toList → front.getLast?.any isWord = true) :
    opensDo line = false := by
  have hend {t : List Char} {d : Char} (ht : t ++ [d] <:+ line) : d = last := by
    obtain ⟨before, rfl⟩ := ht
    rw [← List.append_assoc, List.getLast?_concat] at hlast
    exact Option.some.inj hlast
  have hclosed {t : List Char} (ht : t <:+ line) (hall : skipBlanks t = []) : t = [] := by
    rcases List.eq_nil_or_concat t with rfl | ⟨t, d, rfl⟩
    · rfl
    · have hd := List.dropWhile_eq_nil_iff.mp hall d (by simp)
      rw [List.concat_eq_append] at ht
      rw [hend ht, hblank] at hd
      cases hd
  rw [opensDo, Bool.not_eq_false', List.isEmpty_iff, findAll_eq_nil_iff]
  intro front rest hsplit _
  split
  · rfl
  next hprev =>
  cases hread : word? "do" rest with
  | none => rfl
  | some after =>
    have hrest := eq_append_of_word? hread
    have hafter : after <:+ line :=
      (List.suffix_append _ _).trans (hrest ▸ hsplit ▸ List.suffix_append _ _)
    rw [Option.bind_some]
    split
    · next hall =>
      rw [hclosed hafter hall, List.append_nil] at hrest
      exact absurd (hdo front (hrest ▸ hsplit)) hprev
    · next bars hbars =>
      have hsuffix : bars <:+ line := by
        have hskip : skipBlanks after <:+ line := (List.dropWhile_suffix isBlank).trans hafter
        rw [hbars] at hskip
        exact (List.suffix_cons _ _).trans hskip
      split
      · next d behind hbehind =>
        -- The second bar would be the last character of the line.
        have hd : d = '|' := by
          have hhead := List.head?_dropWhile_not (· ≠ '|') bars
          rw [hbehind] at hhead
          simpa using hhead
        have hbar' : d :: behind <:+ line := hbehind ▸ (List.dropWhile_suffix _).trans hsuffix
        split
        · next hempty =>
          have hnil := hclosed ((List.suffix_cons d behind).trans hbar') (List.isEmpty_iff.mp hempty)
          rw [hnil] at hbar'
          exact absurd (hend (t := []) hbar' ▸ hd) hbar
        · rfl
      · rfl
    · rfl

theorem opensDo_concat (front : List Char) {last : Char} (hblank : isBlank last = false)
    (hbar : last ≠ '|') (ho : last ≠ 'o') : opensDo (front ++ [last]) = false := by
  apply opensDo_eq_false List.getLast?_concat hblank hbar
  intro front' hdo
  have hlast := congrArg List.getLast? hdo
  rw [List.getLast?_concat, List.getLast?_append] at hlast
  exact absurd (Option.some.inj hlast) ho

theorem opensDo_symbol (front : List Char) {n : Word} (h : n.text ≠ "do") :
    opensDo (front ++ n.symbol) = false := by
  obtain ⟨w, last, hsplit⟩ := (List.eq_nil_or_concat n.chars).resolve_left n.ne_nil
  rw [List.concat_eq_append] at hsplit
  have hlast : isWord last = true := n.wordy last (by simp [hsplit])
  have hget : (front ++ n.symbol).getLast? = some last := by
    rw [Word.symbol, hsplit, ← List.cons_append, ← List.append_assoc, List.getLast?_concat]
  apply opensDo_eq_false hget (isBlank_of_isWord hlast)
  · rintro rfl
    cases hlast
  intro front' hdo
  -- Otherwise both the name and `do` are the last word of the line, read from its end.
  by_cases hprev : front'.getLast?.any isWord = true
  · exact hprev
  have hend : atWordEnd front'.reverse = true := by
    rw [List.getLast?_eq_head?_reverse] at hprev
    cases hrev : front'.reverse with
    | nil => rfl
    | cons c more => simpa [hrev, atWordEnd] using hprev
  have hcolon : atWordEnd (':' :: front.reverse) = true := rfl
  have hname := takeWhile_isWord (fun c hc => n.wordy c (List.mem_reverse.mp hc)) hcolon
  have hword := takeWhile_isWord (w := "do".toList.reverse) (by decide) hend
  have hrev : n.chars.reverse ++ ':' :: front.reverse = "do".toList.reverse ++ front'.reverse := by
    rw [← List.reverse_append, ← hdo]
    simp [Word.symbol]
  rw [hrev, hword, List.reverse_inj] at hname
  rw [Word.text, ← hname] at h
  exact absurd rfl h

end Blocks

namespace ResourceDecl

variable (r : ResourceDecl)

theorem line_eq :
    (∃ front n, r.line = front ++ Word.symbol n ∧ (r.EndsInDo ↔ n.text = "do")) ∨
      ∃ front, r.line = front ++ [']'] := by
  unfold line options EndsInDo
  cases r.choice with
  | none => exact Or.inl ⟨r.keyword.toList ++ [' '], r.name, by simp, Iff.rfl⟩
  | some c =>
    have hassoc (a b key list : List Char) :
        a ++ ' ' :: (b ++ (key ++ ' ' :: list)) = a ++ ' ' :: (b ++ (key ++ [' '])) ++ list := by
      simp
    have hline := hassoc r.keyword.toList r.name.symbol
      (", ".toList ++ (c.keyword ++ ":").toList) c.list
    dsimp only
    cases hnames : c.names with
    | inl n =>
      have hlist : c.list = n.symbol := by rw [Choice.list, hnames]
      exact Or.inl ⟨_, n, hline.trans (congrArg _ hlist), Iff.rfl⟩
    | inr ns =>
      have hlist : c.list = '[' :: Choice.symbols ns ++ [']'] := by rw [Choice.list, hnames]; rfl
      exact Or.inr ⟨_, (hline.trans (congrArg _ hlist)).trans (List.append_assoc _ _ _).symm⟩

theorem spelled_line : Spelled signs r.line := by
  have hkeyword : Spelled signs r.keyword.toList := by
    rw [keyword]
    cases r.singular <;> decide
  have hspace : Spelled signs [' '] := by decide
  have hname : Spelled signs r.name.symbol := r.name.spelled_symbol (by decide)
  refine hkeyword.append (hspace.append (hname.append ?_))
  unfold options
  cases r.choice with
  | none => exact fun c hc => absurd hc List.not_mem_nil
  | some c =>
    have hkey : Spelled signs (", ".toList ++ (c.keyword ++ ":").toList) := by
      rw [Choice.keyword]
      cases c.only <;> decide
    refine hkey.append (hspace.append ?_)
    show Spelled signs c.list
    unfold Choice.list
    cases c.names with
    | inl n => exact n.spelled_symbol (by decide)
    | inr ns =>
      have hopen : Spelled signs ['['] := by decide
      have hclose : Spelled signs [']'] := by decide
      exact hopen.append (((Choice.spelled_symbols ns).mono (by decide)).append hclose)

theorem first_line (rest : List Char) :
    ∃ c rest', r.line ++ rest = c :: rest' ∧ isWord c = true := by
  unfold line keyword
  cases r.singular <;> exact ⟨'r', _, rfl, by decide⟩

theorem neat_line : Neat r.line := by
  apply Neat.of_spelled r.spelled_line
  · simpa using r.first_line []
  · rcases r.line_eq with ⟨front, n, hline, -⟩ | ⟨front, hline⟩
    · obtain ⟨front', c, hlast, hc⟩ := last_of_isWord (front ++ [':']) n.wordy n.ne_nil
      rw [List.append_assoc] at hlast
      exact ⟨front', c, hline.trans hlast, hc⟩
    · exact ⟨front, ']', hline, by decide⟩

theorem neat_header : Neat r.header :=
  Neat.of_spelled (r.spelled_line.append spelled_do) (r.first_line _) (last_do _)

theorem opensDo_line (h : ¬r.EndsInDo) : opensDo r.line = false := by
  rcases r.line_eq with ⟨front, n, hline, hdo⟩ | ⟨front, hline⟩
  · rw [hline]
    exact opensDo_symbol front (mt hdo.mpr h)
  · rw [hline]
    exact opensDo_concat front (by decide) (by decide) (by decide)

end ResourceDecl

namespace ExplicitDecl

variable (e : ExplicitDecl)

theorem line_eq : ∃ front, e.line = front ++ ['\x27'] := by
  have hassoc (a b c : List Char) (q : Char) : a ++ (b ++ (c ++ [q])) = a ++ (b ++ c) ++ [q] := by
    simp
  unfold line naming
  cases e.name? with
  | none =>
    rw [List.append_nil]
    exact ⟨_, hassoc _ ("', to: '".toList ++ e.target.chars) ('#' :: e.action.chars) '\x27'⟩
  | some n => exact ⟨_, hassoc _ _ (", as: '".toList ++ n.chars) '\x27'⟩

theorem opensDo_line : opensDo e.line = false := by
  obtain ⟨front, hline⟩ := e.line_eq
  rw [hline]
  exact opensDo_concat front (by decide) (by decide) (by decide)

theorem unbroken_line : Unbroken e.line := by
  let quoted := "\x27#,: ".toList
  have hname (n : Word) : Spelled quoted n.chars := Spelled.of_wordy n.wordy
  have hquote : Spelled quoted ['\x27'] := by decide
  have hto : Spelled quoted "', to: '".toList := by decide
  have hhash : Spelled quoted ['#'] := by decide
  have hdestination : Spelled quoted e.destination :=
    (hto.append (hname e.target)).append (hhash.append ((hname e.action).append hquote))
  have hnaming : Spelled quoted e.naming := by
    have has : Spelled quoted ", as: '".toList := by decide
    unfold naming
    cases e.name? with
    | none => exact fun c hc => absurd hc List.not_mem_nil
    | some n => exact (has.append (hname n)).append hquote
  have hword : Unbroken (e.word.toList ++ " '".toList) := by
    rw [word]
    cases e.verb <;> decide
  have hbehind := (hdestination.append hnaming).unbroken (by decide)
  exact List.forall_mem_append.mpr ⟨List.forall_mem_append.mpr ⟨hword, e.path_unbroken⟩, hbehind⟩

theorem neat_line : Neat e.line where
  tidy := by
    obtain ⟨front, hline⟩ := e.line_eq
    refine ⟨?_, ⟨front, '\x27', hline, by decide⟩⟩
    unfold line word
    cases e.verb <;> exact ⟨_, _, rfl, by decide, by decide⟩
  unbroken := e.unbroken_line

end ExplicitDecl

namespace Heading

variable (h : Heading)

theorem spelled_line : Spelled ['.', ' '] h.line := by
  have hdo : Spelled ['.', ' '] " do".toList := by decide
  exact (h.spelled.mono (by decide)).append hdo

theorem neat_line : Neat h.line := by
  apply Neat.of_spelled (h.spelled_line.mono (by decide))
  · obtain ⟨c, rest, hchars, hc⟩ := h.first
    rw [line, hchars]
    exact ⟨c, _, rfl, hc⟩
  · exact last_do _

theorem startsEnd_line : startsEnd h.line = false := by
  apply startsEnd_eq_false
  rw [line, List.takeWhile_append]
  split
  · next hlength =>
    have hall := (List.takeWhile_prefix isWord).eq_of_length hlength
    have hword : " do".toList.takeWhile isWord = [] := rfl
    rw [hword, List.append_nil, ← hall]
    exact h.not_end
  · exact h.not_end

theorem plainSymbol?_eq_none {cs : List Char} (hcs : ':' ∉ cs) : plainSymbol? cs = none := by
  rw [plainSymbol?, word?_eq_none (by decide) hcs]
  rfl

theorem not_mem_of_reads {w : String} {c : Char} {line rest : List Char} (hc : c ∉ line)
    (hread : (word? w line).bind blanks? = some rest) : c ∉ rest := by
  obtain ⟨after, hword, hblanks⟩ := Option.bind_eq_some_iff.mp hread
  intro hmem
  rw [eq_append_of_word? hword] at hc
  exact hc (List.mem_append_right _ ((blanks?_suffix hblanks).subset hmem))

theorem scopeLine?_line : scopeLine? h.line = none := by
  have hcolon : ':' ∉ h.line := h.spelled_line.not_mem (by decide)
  unfold scopeLine?
  simp only [Option.bind_eq_bind]
  rw [← Option.bind_assoc]
  cases hread : (word? "namespace" h.line).bind blanks? with
  | none => rfl
  | some rest => rw [Option.bind_some, plainSymbol?_eq_none (not_mem_of_reads hcolon hread)]; rfl

theorem resourceLine?_line : resourceLine? h.line = none := by
  have hcolon : ':' ∉ h.line := h.spelled_line.not_mem (by decide)
  unfold resourceLine?
  simp only [Option.bind_eq_bind]
  rw [Option.bind_eq_none_iff]
  rintro ⟨singular, rest⟩ hread
  have hrest : ':' ∉ rest := by
    rcases Option.or_eq_some_iff.mp hread with hread | ⟨-, hread⟩
    all_goals
      obtain ⟨rest', hread, heq⟩ := Option.map_eq_some_iff.mp hread
      cases heq
      exact not_mem_of_reads hcolon hread
  dsimp only
  rw [plainSymbol?_eq_none hrest]
  rfl

theorem explicitLine?_line : explicitLine? h.line = none := by
  unfold explicitLine?
  simp only [Option.bind_eq_bind]
  rw [Option.bind_eq_none_iff]
  rintro ⟨verb, rest⟩ hread
  obtain ⟨⟨w, v⟩, -, hread⟩ := List.exists_of_findSome?_eq_some hread
  obtain ⟨rest', hread, heq⟩ := Option.map_eq_some_iff.mp hread
  cases heq
  have hdouble := not_mem_of_reads (h.spelled_line.not_mem (c := '"') (by decide)) hread
  have hsingle := not_mem_of_reads (h.spelled_line.not_mem (c := '\x27') (by decide)) hread
  cases rest with
  | nil => rfl
  | cons q rest =>
    have hq : ¬isQuote q = true := by
      simp only [isQuote, Bool.or_eq_true, decide_eq_true_eq]
      rintro (rfl | rfl)
      · exact hdouble List.mem_cons_self
      · exact hsingle List.mem_cons_self
    exact if_neg hq

end Heading

end CodeAtlas.Routes
