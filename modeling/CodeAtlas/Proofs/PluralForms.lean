import CodeAtlas.Proofs.Spellings

namespace CodeAtlas.Naming

open Text

structure SmallWord (l : List Char) : Prop where
  small : ∀ c ∈ l, isLowerOrDigit c = true
  ne_nil : l ≠ []

instance (l : List Char) : Decidable (SmallWord l) :=
  decidable_of_iff (l.all isLowerOrDigit = true ∧ l ≠ [])
    ⟨fun h => ⟨List.all_eq_true.mp h.1, h.2⟩, fun h => ⟨List.all_eq_true.mpr h.1, h.2⟩⟩

theorem SmallWord.append {l tail : List Char} (h : SmallWord l) (htail : tail.all isLowerOrDigit = true) :
    SmallWord (l ++ tail) :=
  ⟨fun c hc => (List.mem_append.mp hc).elim (h.small c) (List.all_eq_true.mp htail c), by simp [h.ne_nil]⟩

def EndsIn (endings : List String) (l : List Char) : Prop := ∃ e ∈ endings, e.toList <:+ l
  deriving Decidable

theorem EndsIn.le_length {endings : List String} {n : Nat} (hlong : ∀ e ∈ endings, n ≤ e.toList.length)
    {l : List Char} (h : EndsIn endings l) : n ≤ l.length := by
  obtain ⟨e, he, hsuffix⟩ := h
  exact Nat.le_trans (hlong e he) hsuffix.length_le

theorem endsIn_cons {e : String} {endings : List String} {l : List Char} :
    EndsIn (e :: endings) l ↔ EndsIn [e] l ∨ EndsIn endings l := by
  simp [EndsIn]

theorem endsIn_tail (e : String) (l : List Char) : EndsIn [e] (l ++ e.toList) :=
  ⟨e, List.mem_singleton_self e, l, rfl⟩

theorem EndsIn.disjoint {as bs : List String} (hne : ∀ e ∈ as ++ bs, e.toList ≠ [])
    (hlast : ∀ a ∈ as, ∀ b ∈ bs, a.toList.getLast? ≠ b.toList.getLast?) {l : List Char} (h : EndsIn as l) :
    ¬EndsIn bs l := by
  have last_letter : ∀ e ∈ as ++ bs, e.toList <:+ l → l.getLast? = e.toList.getLast? := by
    rintro e he ⟨front, rfl⟩
    rw [List.getLast?_append, List.getLast?_eq_some_getLast (hne e he), Option.some_or]
  obtain ⟨a, ha, hal⟩ := h
  rintro ⟨b, hb, hbl⟩
  exact hlast a ha b hb
    ((last_letter a (List.mem_append_left _ ha) hal).symm.trans (last_letter b (List.mem_append_right _ hb) hbl))

theorem endsIn_append (endings : List String) (tail : String) (l : List Char) :
    EndsIn (endings.map (· ++ tail)) (l ++ tail.toList) ↔ EndsIn endings l := by
  constructor
  · rintro ⟨e, he, hsuffix⟩
    obtain ⟨a, ha, rfl⟩ := List.mem_map.mp he
    rw [String.toList_append, List.suffix_append_self_iff] at hsuffix
    exact ⟨a, ha, hsuffix⟩
  · rintro ⟨a, ha, hsuffix⟩
    refine ⟨a ++ tail, List.mem_map_of_mem ha, ?_⟩
    rwa [String.toList_append, List.suffix_append_self_iff]

def Misread (l : List Char) : Prop :=
  l ∈ irregular.map (fun row => row.2.toList) ∨
  (EndsIn ["s"] l ∧ ¬EndsIn ["ss"] l ∧ isUncountable l = false) ∨
  (EndsIn ["ie"] l ∧ 3 ≤ l.length) ∨
  EndsIn ["sse", "xe", "ze", "che", "she"] l ∨
  l ∈ ["sery", "specy", "new"].map String.toList
  deriving Decidable

def listed : List (List Char) :=
  uncountable.map String.toList ++ irregular.flatMap fun row => [row.1.toList, row.2.toList]

theorem singular_plural_of_listed : ∀ l ∈ listed, (singular (plural l) = l ↔ ¬Misread l) := by
  decide +kernel

theorem not_mem_listed {l : List Char} :
    l ∉ listed ↔ isUncountable l = false ∧ irregularPlural? l = none ∧ irregularSingular? l = none := by
  simp only [listed, isUncountable, irregularPlural?, irregularSingular?, List.mem_append, List.mem_flatMap,
    List.mem_cons, List.not_mem_nil, or_false, not_or, not_exists, not_and, forall_and, List.any_eq_false,
    Option.map_eq_none_iff, List.find?_eq_none, beq_iff_eq, List.mem_map, @eq_comm _ l]

def Front (front : List Char) : Prop := front = [] ∨ front.getLast? = some '_'

theorem length_dropEnd (n : Nat) (l : List Char) : (dropEnd n l).length = l.length - n := by
  simp [dropEnd]

theorem dropEnd_append {n : Nat} {l : List Char} (h : n ≤ l.length) (front : List Char) :
    dropEnd n (front ++ l) = front ++ dropEnd n l := by
  rw [dropEnd, dropEnd, List.length_append, Nat.add_sub_assoc h, List.take_length_add_append]

theorem dropEnd_append_right (l tail : List Char) : dropEnd tail.length (l ++ tail) = l := by
  simp [dropEnd]

section Words

variable {l : List Char} (hl : SmallWord l)
include hl

theorem dropFinalNewline_word (front : List Char) : dropFinalNewline (front ++ l) = front ++ l := by
  rw [dropFinalNewline, if_neg]
  intro hlast
  obtain ⟨c, hc⟩ := Option.isSome_iff_exists.mp (List.getLast?_isSome.mpr hl.ne_nil)
  rw [List.getLast?_append, hc, Option.some_or, Option.some_inj] at hlast
  subst hlast
  exact not_mem_of_small hl.small (by decide) (List.mem_of_getLast? hc)

theorem splitLastWord_word {front : List Char} (hfront : Front front) :
    splitLastWord (front ++ l) = (front, l) := by
  have hfront' : front.reverse.takeWhile isLowerOrDigit = [] ∧
      front.reverse.dropWhile isLowerOrDigit = front.reverse := by
    rcases hfront with rfl | hlast
    · exact ⟨rfl, rfl⟩
    · obtain ⟨front, rfl⟩ := List.getLast?_eq_some_iff.mp hlast
      simp [show isLowerOrDigit '_' = false by decide]
  have hsmall : ∀ c ∈ l.reverse, isLowerOrDigit c = true := fun c hc => hl.small c (List.mem_reverse.mp hc)
  have hword : ((front ++ l).reverse.takeWhile isLowerOrDigit).reverse = l := by
    rw [List.reverse_append, List.takeWhile_append_of_pos hsmall, hfront'.1, List.append_nil,
      List.reverse_reverse]
  have hrest : (front ++ l).reverse.dropWhile isLowerOrDigit = front.reverse := by
    rw [List.reverse_append, List.dropWhile_append_of_pos hsmall, hfront'.2]
  obtain ⟨c, cs, rfl⟩ := List.exists_cons_of_ne_nil hl.ne_nil
  unfold splitLastWord
  dsimp only
  rw [dropFinalNewline_word hl, hword, hrest]
  rcases hfront with rfl | hlast
  · rfl
  · obtain ⟨front, rfl⟩ := List.getLast?_eq_some_iff.mp hlast
    simp [show isAsciiUpper '_' = false by decide]

theorem endsInOneOf_word (endings : List String) : endsInOneOf endings l = true ↔ EndsIn endings l := by
  have hline : dropFinalNewline l = l := dropFinalNewline_word hl []
  simp [endsInOneOf, hline, EndsIn, List.isSuffixOf_iff_suffix]

theorem plural_front {front : List Char} (hfront : Front front) : plural (front ++ l) = front ++ plural l := by
  have hword : splitLastWord l = ([], l) := splitLastWord_word hl (.inl rfl)
  have hlength : 1 ≤ l.length := List.length_pos_iff.mpr hl.ne_nil
  simp only [plural, splitLastWord_word hl hfront, hword, lower_of_small hl.small, dropEnd_append hlength,
    List.isEmpty_iff, List.append_eq_nil_iff, hl.ne_nil, and_false, ↓reduceIte]
  split
  · rfl
  split
  · rfl
  split
  · rw [List.append_assoc]
  split <;> rw [List.append_assoc]

theorem singular_front {front : List Char} (hfront : Front front) :
    singular (front ++ l) = front ++ singular l := by
  have hword : splitLastWord l = ([], l) := splitLastWord_word hl (.inl rfl)
  simp only [singular, splitLastWord_word hl hfront, hword, lower_of_small hl.small,
    List.isEmpty_iff, List.append_eq_nil_iff, hl.ne_nil, and_false, ↓reduceIte, endsInOneOf_word hl]
  split
  · rfl
  split
  · rfl
  split
  · next hies =>
    simp only [Bool.and_eq_true, decide_eq_true_eq] at hies
    rw [dropEnd_append (Nat.le_of_lt hies.2), List.append_assoc]
  split
  · next hes => exact dropEnd_append (EndsIn.le_length (by decide) hes) front
  split
  · rfl
  split
  · next hs => exact dropEnd_append (List.isSuffixOf_iff_suffix.mp hs).length_le front
  · rfl

theorem stem_of_consonantY (hy : endsInConsonantY l = true) : ∃ stem, stem ≠ [] ∧ l = stem ++ ['y'] := by
  have hline : dropFinalNewline l = l := dropFinalNewline_word hl []
  rw [endsInConsonantY, hline] at hy
  split at hy
  · next c rest hrev =>
    refine ⟨rest.reverse ++ [c], by simp, ?_⟩
    rw [← List.reverse_reverse l, hrev]
    simp
  · cases hy

theorem plural_unlisted (hlisted : l ∉ listed) :
    plural l =
      if endsInConsonantY l then dropEnd 1 l ++ ['i', 'e', 's']
      else if EndsIn ["s", "x", "z", "ch", "sh"] l then l ++ ['e', 's'] else l ++ ['s'] := by
  have hword : splitLastWord l = ([], l) := splitLastWord_word hl (.inl rfl)
  obtain ⟨hun, hone, hmany⟩ := not_mem_listed.mp hlisted
  simp only [plural, hword, lower_of_small hl.small, List.isEmpty_iff, hl.ne_nil, ↓reduceIte, endsInOneOf_word hl,
    hun, hone, hmany, Option.isSome_none, Bool.or_self, Bool.false_eq_true]

theorem singular_unlisted (hlisted : l ∉ listed) :
    singular l =
      if EndsIn ["ies"] l ∧ 3 < l.length then dropEnd 3 l ++ ['y']
      else if EndsIn ["sses", "xes", "zes", "ches", "shes"] l then dropEnd 2 l
      else if EndsIn ["ss"] l then l
      else if EndsIn ["s"] l then dropEnd 1 l else l := by
  have hword : splitLastWord l = ([], l) := splitLastWord_word hl (.inl rfl)
  obtain ⟨hun, hone, hmany⟩ := not_mem_listed.mp hlisted
  simp [singular, hword, lower_of_small hl.small, List.isEmpty_iff, hl.ne_nil, ↓reduceIte, endsInOneOf_word hl,
    hun, hone, hmany, EndsIn]

theorem plural_forms (hlisted : l ∉ listed) :
    (∃ stem, stem ≠ [] ∧ l = stem ++ ['y'] ∧ plural l = stem ++ ['i', 'e', 's']) ∨
    (EndsIn ["s", "x", "z", "ch", "sh"] l ∧ plural l = l ++ "es".toList) ∨
    (¬EndsIn ["s", "x", "z", "ch", "sh"] l ∧ plural l = l ++ "s".toList) := by
  rw [plural_unlisted hl hlisted]
  split
  · next hy =>
    obtain ⟨stem, hne, rfl⟩ := stem_of_consonantY hl hy
    exact .inl ⟨stem, hne, rfl, by simp [dropEnd]⟩
  split
  · next hes => exact .inr (.inl ⟨hes, rfl⟩)
  · next hes => exact .inr (.inr ⟨hes, rfl⟩)

theorem smallWord_plural : SmallWord (plural l) := by
  by_cases hlisted : l ∈ listed
  · exact (show ∀ l ∈ listed, SmallWord (plural l) by decide) l hlisted
  · rcases plural_forms hl hlisted with ⟨stem, hne, rfl, hplural⟩ | ⟨-, hplural⟩ | ⟨-, hplural⟩ <;> rw [hplural]
    · have hstem : SmallWord stem := ⟨fun c hc => hl.small c (List.mem_append_left _ hc), hne⟩
      exact hstem.append (by decide)
    · exact hl.append (by decide)
    · exact hl.append (by decide)

theorem singular_plural_front {front : List Char} (hfront : Front front) :
    singular (plural (front ++ l)) = front ++ singular (plural l) := by
  rw [plural_front hl hfront, singular_front (smallWord_plural hl) hfront]

theorem stem_of_listed (hlisted : l ∉ listed) (hplural : plural l ∈ listed) :
    l ∈ ["sery", "specy", "serie", "specie", "new"].map String.toList := by
  have stems : ∀ w ∈ listed,
      (['i', 'e', 's'] <:+ w → dropEnd 3 w ++ ['y'] ∈ ["sery", "specy"].map String.toList) ∧
      (['e', 's'] <:+ w → ¬EndsIn ["s", "x", "z", "ch", "sh"] (dropEnd 2 w)) ∧
      (['s'] <:+ w → dropEnd 1 w ∈ ["serie", "specie", "new"].map String.toList) := by
    decide
  rcases plural_forms hl hlisted with ⟨stem, -, rfl, hform⟩ | ⟨hes, hform⟩ | ⟨-, hform⟩ <;>
    rw [hform] at hplural <;> obtain ⟨hies, hes', hs⟩ := stems _ hplural
  · have hstem := hies ⟨stem, rfl⟩
    rw [show dropEnd 3 (stem ++ ['i', 'e', 's']) = stem from dropEnd_append_right stem _] at hstem
    exact List.mem_append_left _ hstem
  · have hstem := hes' ⟨l, rfl⟩
    rw [show dropEnd 2 (l ++ "es".toList) = l from dropEnd_append_right l _] at hstem
    exact absurd hes hstem
  · have hstem := hs ⟨l, rfl⟩
    rw [show dropEnd 1 (l ++ "s".toList) = l from dropEnd_append_right l _] at hstem
    exact List.mem_append_right (["sery", "specy"].map String.toList) hstem

theorem singular_plural_of_es (hes : EndsIn ["s", "x", "z", "ch", "sh"] l) (hplural : plural l = l ++ "es".toList)
    (hlisted : plural l ∉ listed) :
    singular (plural l) = l ↔ EndsIn ["ss", "x", "z", "ch", "sh"] l := by
  have hies : EndsIn ["ies"] (l ++ "es".toList) ↔ EndsIn ["i"] l := endsIn_append ["i"] "es" l
  have hsses : EndsIn ["sses", "xes", "zes", "ches", "shes"] (l ++ "es".toList) ↔
      EndsIn ["ss", "x", "z", "ch", "sh"] l := endsIn_append ["ss", "x", "z", "ch", "sh"] "es" l
  have hss : ¬EndsIn ["ss"] (l ++ "es".toList) := by
    have hs : EndsIn ["ss"] ((l ++ ['e']) ++ "s".toList) ↔ EndsIn ["s"] (l ++ ['e']) :=
      endsIn_append ["s"] "s" (l ++ ['e'])
    rw [List.append_assoc] at hs
    exact fun h => (endsIn_tail "e" l).disjoint (by decide) (by decide) (hs.mp h)
  have hi : ¬EndsIn ["i"] l := hes.disjoint (by decide) (by decide)
  rw [singular_unlisted (smallWord_plural hl) hlisted, hplural, if_neg fun h => hi (hies.mp h.1)]
  simp only [hsses]
  split
  · next h => exact iff_of_true (dropEnd_append_right l "es".toList) h
  · next h =>
    rw [if_pos ⟨"s", List.mem_singleton_self _, l ++ ['e'], List.append_assoc l _ _⟩]
    have hlength : (dropEnd 1 (l ++ "es".toList)).length ≠ l.length := by simp [length_dropEnd]
    exact iff_of_false (mt (congrArg List.length) hlength) h

theorem singular_plural_of_s (hs : ¬EndsIn ["s", "x", "z", "ch", "sh"] l) (hplural : plural l = l ++ "s".toList)
    (hlisted : plural l ∉ listed) :
    singular (plural l) = l ↔
      ¬((EndsIn ["ie"] l ∧ 3 ≤ l.length) ∨ EndsIn ["sse", "xe", "ze", "che", "she"] l) := by
  have hies : EndsIn ["ies"] (l ++ "s".toList) ↔ EndsIn ["ie"] l := endsIn_append ["ie"] "s" l
  have hsses : EndsIn ["sses", "xes", "zes", "ches", "shes"] (l ++ "s".toList) ↔
      EndsIn ["sse", "xe", "ze", "che", "she"] l := endsIn_append ["sse", "xe", "ze", "che", "she"] "s" l
  have hss : ¬EndsIn ["ss"] (l ++ "s".toList) := fun h =>
    hs (endsIn_cons.mpr (.inl ((endsIn_append ["s"] "s" l).mp h)))
  have hadded : (l ++ "s".toList).length = l.length + 1 := by simp
  have hpos : 1 ≤ l.length := List.length_pos_iff.mpr hl.ne_nil
  rw [singular_unlisted (smallWord_plural hl) hlisted, hplural]
  simp only [hies, hsses, hadded]
  split
  · next h =>
    have hlength : (dropEnd 3 (l ++ "s".toList) ++ ['y']).length ≠ l.length := by
      simp [length_dropEnd]
      omega
    exact iff_of_false (mt (congrArg List.length) hlength) fun hnot => hnot (.inl ⟨h.1, by omega⟩)
  split
  · next h =>
    have hlength : (dropEnd 2 (l ++ "s".toList)).length ≠ l.length := by
      simp [length_dropEnd]
      omega
    exact iff_of_false (mt (congrArg List.length) hlength) fun hnot => hnot (.inr h)
  · next hie hsse =>
    rw [if_pos (endsIn_tail "s" l)]
    refine iff_of_true (dropEnd_append_right l "s".toList) ?_
    rintro (h | h)
    · exact hie ⟨h.1, by omega⟩
    · exact hsse h

end Words

theorem singular_plural_of_y {stem : List Char} (hl : SmallWord (stem ++ ['y'])) (hne : stem ≠ [])
    (hplural : plural (stem ++ ['y']) = stem ++ ['i', 'e', 's'])
    (hlisted : plural (stem ++ ['y']) ∉ listed) : singular (plural (stem ++ ['y'])) = stem ++ ['y'] := by
  have hlength : 1 ≤ stem.length := List.length_pos_iff.mpr hne
  have hlong : 3 < (stem ++ ['i', 'e', 's']).length := by simp; omega
  rw [singular_unlisted (smallWord_plural hl) hlisted, hplural, if_pos ⟨endsIn_tail "ies" stem, hlong⟩]
  exact congrArg (· ++ ['y']) (dropEnd_append_right stem ['i', 'e', 's'])

theorem misread_unlisted {l : List Char} (hlisted : l ∉ listed) (hplural : plural l ∉ listed) :
    Misread l ↔ (EndsIn ["s"] l ∧ ¬EndsIn ["ss"] l) ∨ (EndsIn ["ie"] l ∧ 3 ≤ l.length) ∨
      EndsIn ["sse", "xe", "ze", "che", "she"] l := by
  have hmany : l ∉ irregular.map (fun row => row.2.toList) := fun h =>
    hlisted ((show ∀ l ∈ irregular.map (fun row => row.2.toList), l ∈ listed by decide) l h)
  have hword : l ∉ ["sery", "specy", "new"].map String.toList := fun h =>
    hplural ((show ∀ l ∈ ["sery", "specy", "new"].map String.toList, plural l ∈ listed by decide) l h)
  simp only [Misread, hmany, hword, (not_mem_listed.mp hlisted).1, false_or, or_false, and_true]

theorem singular_plural_iff {l : List Char} (hl : SmallWord l) : singular (plural l) = l ↔ ¬Misread l := by
  by_cases hlisted : l ∈ listed
  · exact singular_plural_of_listed l hlisted
  by_cases hplural : plural l ∈ listed
  · -- The plural is `series`, `species` or `news`, which stays as it is.
    exact (show ∀ l ∈ ["sery", "specy", "serie", "specie", "new"].map String.toList,
      (singular (plural l) = l ↔ ¬Misread l) by decide) l (stem_of_listed hl hlisted hplural)
  rw [misread_unlisted hlisted hplural]
  -- Each rule of the plural leaves its own tail, and the tail decides which rule of the singular answers.
  rcases plural_forms hl hlisted with ⟨stem, hne, rfl, hform⟩ | ⟨hes, hform⟩ | ⟨hs, hform⟩
  · have hy : EndsIn ["y"] (stem ++ ['y']) := endsIn_tail "y" stem
    refine iff_of_true (singular_plural_of_y hl hne hform hplural) ?_
    rintro (h | h | h)
    · exact hy.disjoint (by decide) (by decide) h.1
    · exact hy.disjoint (by decide) (by decide) h.1
    · exact hy.disjoint (by decide) (by decide) h
  · rw [singular_plural_of_es hl hes hform hplural]
    have he : ¬EndsIn ["ie", "sse", "xe", "ze", "che", "she"] l := hes.disjoint (by decide) (by decide)
    have hs (h : EndsIn ["s"] l) : ¬EndsIn ["x", "z", "ch", "sh"] l := h.disjoint (by decide) (by decide)
    rw [endsIn_cons] at hes he ⊢
    simp only [not_or.mp he, false_and, or_false, not_and, Classical.not_not]
    constructor
    · rintro (hss | hx) h
      · exact hss
      · exact absurd hx (hs h)
    · intro h
      exact hes.imp_left h
  · rw [singular_plural_of_s hl hs hform hplural]
    have hnos : ¬EndsIn ["s"] l := fun h => hs (endsIn_cons.mpr (.inl h))
    simp only [hnos, false_and, false_or]

theorem singularize_pluralize_iff (front word : String) (hword : SmallWord word.toList)
    (hfront : Front front.toList) :
    singularize (pluralize (front ++ word)) = front ++ word ↔ ¬Misread word.toList := by
  rw [← String.toList_inj, singularize, pluralize, String.toList_ofList, String.toList_ofList,
    String.toList_append, singular_plural_front hword hfront, List.append_cancel_left_eq,
    singular_plural_iff hword]

theorem singularize_pluralize_box_movie :
    singularize (pluralize ("line_" ++ "box")) = "line_" ++ "box" ∧
      singularize (pluralize ("home_" ++ "movie")) ≠ "home_" ++ "movie" :=
  ⟨(singularize_pluralize_iff "line_" "box" (by decide) (.inr rfl)).mpr (by decide),
    fun h => (singularize_pluralize_iff "home_" "movie" (by decide) (.inr rfl)).mp h (by decide)⟩

end CodeAtlas.Naming
