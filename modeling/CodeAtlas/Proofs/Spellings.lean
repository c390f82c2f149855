import CodeAtlas.Proofs.Paths
import CodeAtlas.Proofs.TextSearch
import CodeAtlas.Project.Components
import CodeAtlas.Routes.Route

namespace CodeAtlas

namespace Text

theorem forall_ascii {P : Char → Prop} (h : ∀ n < 128, P (Char.ofNat n)) {c : Char} (hc : c.toNat < 128) :
    P c := by
  have hchar := h c.toNat hc
  rwa [Char.ofNat_toNat] at hchar

end Text

open Text

namespace Naming

theorem ascii_of_small {c : Char} (h : isLowerOrDigit c = true) : c.toNat < 128 := by
  simp only [isLowerOrDigit, isAsciiLower, isAsciiDigit, Bool.or_eq_true, Bool.and_eq_true,
    decide_eq_true_eq] at h
  omega

theorem not_mem_of_small {cs : List Char} (h : ∀ c ∈ cs, isLowerOrDigit c = true) {d : Char}
    (hd : isLowerOrDigit d = false) : d ∉ cs := by
  intro hmem
  rw [h d hmem] at hd
  cases hd

theorem isAsciiUpper_of_small {c : Char} (h : isLowerOrDigit c = true) : isAsciiUpper c = false := by
  simp only [isLowerOrDigit, isAsciiLower, isAsciiDigit, Bool.or_eq_true, Bool.and_eq_true,
    decide_eq_true_eq] at h
  simp only [isAsciiUpper, Bool.and_eq_false_iff, decide_eq_false_iff_not]
  omega

theorem toLower_of_small {c : Char} (h : isLowerOrDigit c = true) : c.toLower = c :=
  forall_ascii (P := fun c => isLowerOrDigit c = true → c.toLower = c) (by decide) (ascii_of_small h) h

theorem lower_of_small {cs : List Char} (h : ∀ c ∈ cs, isLowerOrDigit c = true) : lower cs = cs := by
  have hsame : cs.map Char.toLower = cs.map id :=
    List.map_congr_left fun c hc => toLower_of_small (h c hc)
  rw [lower_of_ascii fun c hc => ascii_of_small (h c hc), hsame, List.map_id]

theorem capital_of_small {c : Char} (h : isAsciiLower c = true) :
    isAsciiUpper c.toUpper = true ∧ c.toUpper.toLower = c :=
  forall_ascii (P := fun c => isAsciiLower c = true → isAsciiUpper c.toUpper = true ∧ c.toUpper.toLower = c)
    (by decide) (ascii_of_small (by simp [isLowerOrDigit, h])) h

structure Word where
  first : Char
  rest : List Char
  first_small : isAsciiLower first = true
  rest_small : ∀ c ∈ rest, isLowerOrDigit c = true
  rest_ne_nil : rest ≠ []

namespace Word

variable (w : Word)

def small : List Char := w.first :: w.rest

def capital : List Char := w.first.toUpper :: w.rest

theorem isLowerOrDigit_first : isLowerOrDigit w.first = true := by
  simp [isLowerOrDigit, w.first_small]

theorem isLowerOrDigit_small : ∀ c ∈ w.small, isLowerOrDigit c = true :=
  List.forall_mem_cons.mpr ⟨w.isLowerOrDigit_first, w.rest_small⟩

theorem capitalize_small : capitalize w.small = w.capital := by
  rw [small, capitalize, upperChar, if_pos (ascii_of_small w.isLowerOrDigit_first)]
  rfl

theorem isAsciiUpper_or_small_capital :
    ∀ c ∈ w.capital, isAsciiUpper c = true ∨ isLowerOrDigit c = true :=
  List.forall_mem_cons.mpr
    ⟨Or.inl (capital_of_small w.first_small).1, fun c hc => Or.inr (w.rest_small c hc)⟩

theorem ascii_capital : ∀ c ∈ w.capital, c.toNat < 128 := by
  intro c hc
  rcases w.isAsciiUpper_or_small_capital c hc with h | h
  · simp only [isAsciiUpper, Bool.and_eq_true, decide_eq_true_eq] at h
    omega
  · exact ascii_of_small h

theorem colon_not_mem_capital : ':' ∉ w.capital := by
  intro hmem
  rcases w.isAsciiUpper_or_small_capital ':' hmem with h | h <;> cases h

theorem map_toLower_capital : w.capital.map Char.toLower = w.small := by
  have hrest : w.rest.map Char.toLower = w.rest.map id :=
    List.map_congr_left fun c hc => toLower_of_small (w.rest_small c hc)
  rw [capital, List.map_cons, (capital_of_small w.first_small).2, hrest, List.map_id, small]

end Word

theorem separateWords_small {rest tail : List Char}
    (h : ∀ d, isLowerOrDigit d = true → separateWords (d :: rest) = d :: tail)
    {cs : List Char} (hsmall : ∀ d ∈ cs, isLowerOrDigit d = true) (hne : cs ≠ []) (c : Char) :
    separateWords (c :: (cs ++ rest)) = c :: (cs ++ tail) := by
  induction cs generalizing c with
  | nil => exact absurd rfl hne
  | cons d cs ih =>
    obtain ⟨hd, hcs⟩ := List.forall_mem_cons.mp hsmall
    have hstart (next : Option Char) : startsWord c d next = false := by
      simp [startsWord, isAsciiUpper_of_small hd]
    rw [List.cons_append, separateWords, if_neg (by simp [hstart]), List.cons_append]
    cases cs with
    | nil => rw [List.nil_append, List.nil_append, h d hd]
    | cons e cs => rw [ih hcs (List.cons_ne_nil e cs) d]

theorem separateWords_capitals (words : List Word) :
    separateWords (words.flatMap Word.capital) = joinWith ['_'] (words.map Word.capital) := by
  induction words with
  | nil => rfl
  | cons w words ih =>
    cases words with
    | nil =>
      have halone : separateWords (w.first.toUpper :: (w.rest ++ [])) = w.first.toUpper :: (w.rest ++ []) :=
        separateWords_small (fun _ _ => rfl) w.rest_small w.rest_ne_nil w.first.toUpper
      simpa [Word.capital, joinWith] using halone
    | cons w' words =>
      have hnext : ∀ d, isLowerOrDigit d = true →
          separateWords (d :: (w' :: words).flatMap Word.capital) =
            d :: '_' :: separateWords ((w' :: words).flatMap Word.capital) := by
        intro d hd
        have hcapital : isAsciiUpper w'.first.toUpper = true := (capital_of_small w'.first_small).1
        rw [List.flatMap_cons, Word.capital, List.cons_append, separateWords,
          if_pos (by simp [startsWord, hcapital, hd])]
      have hfirst := separateWords_small hnext w.rest_small w.rest_ne_nil w.first.toUpper
      rw [ih] at hfirst
      simpa [Word.capital, joinWith] using hfirst

theorem map_joinWith (f : Char → Char) (sep : List Char) (ps : List (List Char)) :
    (joinWith sep ps).map f = joinWith (sep.map f) (ps.map (List.map f)) := by
  induction ps with
  | nil => rfl
  | cons p ps ih =>
    cases ps with
    | nil => rfl
    | cons q ps =>
      rw [joinWith, List.map_append, List.map_append, ih]
      · rfl
      · exact List.cons_ne_nil q ps

theorem lower_separateWords (words : List Word) :
    lower (separateWords (words.flatMap Word.capital)) = joinWith ['_'] (words.map Word.small) := by
  have hascii : ∀ c ∈ joinWith ['_'] (words.map Word.capital), c.toNat < 128 := by
    intro c hc
    rcases mem_of_mem_joinWith hc with rfl | ⟨_, hp, hc⟩
    · decide
    · obtain ⟨w, -, rfl⟩ := List.mem_map.mp hp
      exact w.ascii_capital c hc
  rw [separateWords_capitals, lower_of_ascii hascii, map_joinWith, List.map_map]
  congr 1
  exact List.map_congr_left fun w _ => w.map_toLower_capital

theorem camelWord_underscores {words : List Word} (hne : words ≠ []) :
    camelWord (joinWith ['_'] (words.map Word.small)) = words.flatMap Word.capital := by
  have hsplit : splitOn '_' (joinWith ['_'] (words.map Word.small)) = words.map Word.small := by
    apply splitOn_joinWith (by simpa using hne)
    rw [List.forall_mem_map]
    exact fun w _ => not_mem_of_small w.isLowerOrDigit_small (by decide)
  rw [camelWord, hsplit, List.map_map, List.flatMap_def]
  congr 1
  exact List.map_congr_left fun w _ => w.capitalize_small

structure Phrase where
  segments : List (List Word)
  ne_nil : segments ≠ []
  words_ne_nil : ∀ words ∈ segments, words ≠ []

namespace Phrase

variable (p : Phrase)

def constant : String :=
  String.ofList (joinWith [':', ':'] (p.segments.map fun words => words.flatMap Word.capital))

def path : String :=
  String.ofList (joinWith ['/'] (p.segments.map fun words => joinWith ['_'] (words.map Word.small)))

theorem underscore_constant : underscore p.constant = p.path := by
  have hcolon : ∀ part ∈ p.segments.map fun words => words.flatMap Word.capital, ':' ∉ part := by
    rw [List.forall_mem_map]
    intro words _ hmem
    obtain ⟨w, -, hw⟩ := List.mem_flatMap.mp hmem
    exact w.colon_not_mem_capital hw
  rw [underscore, constant, String.toList_ofList, underscored,
    splitPath_joinWith (by simpa using p.ne_nil) hcolon, List.map_map, path]
  congr 2
  exact List.map_congr_left fun words _ => lower_separateWords words

theorem camelize_path : camelize p.path = p.constant := by
  have hslash : ∀ part ∈ p.segments.map fun words => joinWith ['_'] (words.map Word.small),
      '/' ∉ part := by
    rw [List.forall_mem_map]
    intro words _ hmem
    rcases mem_of_mem_joinWith hmem with hsep | ⟨_, hpart, hc⟩
    · cases hsep
    · obtain ⟨w, -, rfl⟩ := List.mem_map.mp hpart
      exact not_mem_of_small w.isLowerOrDigit_small (by decide) hc
  rw [camelize, path, String.toList_ofList, camelized,
    splitOn_joinWith (by simpa using p.ne_nil) hslash, List.map_map, constant]
  congr 2
  exact List.map_congr_left fun words hwords => camelWord_underscores (p.words_ne_nil words hwords)

end Phrase

end Naming

namespace Project

theorem dropController_append (name : List Char) :
    dropController (name ++ "Controller".toList) = name := by
  have hlast : Naming.dropFinalNewline (name ++ "Controller".toList) = name ++ "Controller".toList := by
    rw [Naming.dropFinalNewline, List.getLast?_append]
    rfl
  have hending : "Controller".toList.isSuffixOf (name ++ "Controller".toList) = true :=
    List.isSuffixOf_iff_suffix.mpr (List.suffix_append _ _)
  unfold dropController
  dsimp only
  rw [hlast, if_pos hending, List.drop_length, List.append_nil, Naming.dropEnd, List.length_append,
    Nat.add_sub_cancel, List.take_left]

open Naming Routes Workspace

/-- The spellings of a name are read back from one another, also behind `Controller`, so that the templates
of a controller are looked for under the path that its routes have. -/
theorem spellings_inverse (p : Phrase) :
    underscore p.constant = p.path ∧ camelize p.path = p.constant ∧
    (∀ q : Phrase, p.constant = q.constant ↔ p.path = q.path) ∧
    String.ofList (underscored (dropController (controllerFor p.path).toList)) = p.path ∧
    ∀ (t : FileTree) (root : Path) (action : String),
      view? t root (controllerFor p.path) action = templateEndings.findSomeM? fun ending =>
        existing? t root ["app", "views", p.path, action ++ ending] := by
  have hback : String.ofList (underscored (dropController (controllerFor p.path).toList)) = p.path := by
    rw [controllerFor, p.camelize_path, String.toList_append, dropController_append]
    exact p.underscore_constant
  refine ⟨p.underscore_constant, p.camelize_path, ?_, hback, ?_⟩
  · intro q
    constructor
    · intro h
      rw [← p.underscore_constant, ← q.underscore_constant, h]
    · intro h
      rw [← p.camelize_path, ← q.camelize_path, h]
  · intro t root action
    rw [view?, hback]

def samplePhrase : Phrase where
  segments :=
    [[⟨'a', "dmin".toList, by decide, List.all_eq_true.mp (by decide), by decide⟩],
     [⟨'h', "ttp".toList, by decide, List.all_eq_true.mp (by decide), by decide⟩,
      ⟨'a', "pi2".toList, by decide, List.all_eq_true.mp (by decide), by decide⟩,
      ⟨'k', "ey".toList, by decide, List.all_eq_true.mp (by decide), by decide⟩]]
  ne_nil := by simp
  words_ne_nil := by simp

theorem spellings_inverse_samplePhrase :
    underscore "Admin::HttpApi2Key" = "admin/http_api2_key" ∧
    camelize "admin/http_api2_key" = "Admin::HttpApi2Key" := by
  have hconstant : samplePhrase.constant = "Admin::HttpApi2Key" := by decide
  have hpath : samplePhrase.path = "admin/http_api2_key" := by decide
  obtain ⟨hunderscore, hcamelize, -⟩ := spellings_inverse samplePhrase
  rw [← hconstant, ← hpath]
  exact ⟨hunderscore, hcamelize⟩

end Project

end CodeAtlas
