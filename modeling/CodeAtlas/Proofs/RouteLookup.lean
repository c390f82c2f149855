import CodeAtlas.Proofs.RouteNesting
import CodeAtlas.Proofs.Spellings
import Mathlib.Data.List.Dedup

namespace CodeAtlas

namespace Text

theorem toNat_ofNat {n : Nat} (h : n.isValidChar) : (Char.ofNat n).toNat = n := by
  rw [Char.ofNat, dif_pos h]
  rfl

theorem le_toNat_of_shiftBy {n : Nat} {d : Char} (h : shiftBy upperRows n = some d) : 65 ≤ d.toNat := by
  have hrows : ∀ row ∈ upperRows, 65 ≤ row.1 + row.2.2.2 ∧
      (row.2.1 + row.2.2.2 < 0xD800 ∨
        0xDFFF < row.1 + row.2.2.2 ∧ row.2.1 + row.2.2.2 < 0x110000) := by
    decide +kernel
  obtain ⟨⟨first, last, stride, shift⟩, hfound, rfl⟩ := Option.map_eq_some_iff.mp h
  obtain ⟨hleast, hvalid⟩ := hrows _ (List.mem_of_find?_eq_some hfound)
  have hin : first ≤ n ∧ n ≤ last := by
    have hfits := List.find?_some hfound
    simp only [Bool.and_eq_true, decide_eq_true_eq] at hfits
    exact hfits.1
  dsimp only at hleast hvalid
  have hchar : (n + shift).toNat.isValidChar := by
    unfold Nat.isValidChar
    omega
  rw [toNat_ofNat hchar]
  omega

theorem eq_of_mem_upperChar {c d : Char} (h : d ∈ upperChar c) (hd : d.toNat < 65) : d = c := by
  have hexpansions : ∀ row ∈ upperExpansions, ∀ n ∈ row.2, 65 ≤ (Char.ofNat n).toNat := by
    decide
  have hascii {c : Char} (hc : c.toNat < 128) : c.toUpper.toNat < 65 → c.toUpper = c :=
    forall_ascii (P := fun c => c.toUpper.toNat < 65 → c.toUpper = c) (by decide) hc
  unfold upperChar at h
  split at h
  · next hc =>
    rw [List.mem_singleton.mp h] at hd ⊢
    exact hascii hc hd
  split at h
  · next cs hfound =>
    obtain ⟨row, hrow, rfl⟩ := Option.map_eq_some_iff.mp hfound
    obtain ⟨n, hn, rfl⟩ := List.mem_map.mp h
    have hleast := hexpansions row (List.mem_of_find?_eq_some hrow) n hn
    omega
  · rw [List.mem_singleton] at h
    cases hshift : shiftBy upperRows c.toNat with
    | none =>
      rw [hshift] at h
      exact h
    | some e =>
      rw [hshift, Option.getD_some] at h
      have hleast := le_toNat_of_shiftBy hshift
      rw [← h] at hleast
      omega

theorem mem_of_mem_capitalize {d : Char} {cs : List Char} (h : d ∈ capitalize cs)
    (hd : d.toNat < 65) : d ∈ cs := by
  cases cs with
  | nil => exact h
  | cons c rest =>
    rcases List.mem_append.mp h with h | h
    · exact List.mem_cons.mpr (.inl (eq_of_mem_upperChar h hd))
    · exact List.mem_cons_of_mem c h

end Text

open Text Source

theorem Naming.mem_of_mem_camelized {d : Char} {path : List Char} (h : d ∈ camelized path)
    (hd : d.toNat < 65) (hcolon : d ≠ ':') : d ∈ path := by
  rw [camelized, joinWith_eq_intercalate] at h
  rcases mem_or_mem_of_mem_intercalate h with hsep | ⟨_, hpiece, hmem⟩
  · simp [hcolon] at hsep
  · obtain ⟨segment, hsegment, rfl⟩ := List.mem_map.mp hpiece
    obtain ⟨_, hpart, hmem⟩ := List.mem_flatten.mp hmem
    obtain ⟨word, hword, rfl⟩ := List.mem_map.mp hpart
    exact mem_of_mem_splitOn hsegment (mem_of_mem_splitOn hword (mem_of_mem_capitalize hmem hd))

namespace Routes

section Readers

theorem wordy_of_wordChars? {cs w rest : List Char} (h : wordChars? cs = some (w, rest)) : Wordy w := by
  unfold wordChars? at h
  split at h
  · cases h
  · cases h
    exact fun c hc => List.mem_takeWhile_imp hc

theorem wordy_of_plainSymbol? {cs w rest : List Char} (h : plainSymbol? cs = some (w, rest)) :
    Wordy w := by
  obtain ⟨_, -, hword⟩ := Option.bind_eq_some_iff.mp h
  exact wordy_of_wordChars? hword

theorem wordy_of_scopeLine? {line : List Char} {name : String} (h : scopeLine? line = some name) :
    Wordy name.toList := by
  unfold scopeLine? at h
  simp only [Option.bind_eq_bind, Option.bind_eq_some_iff] at h
  obtain ⟨_, -, _, -, ⟨w, _⟩, hname, _, -, _, -, h⟩ := h
  split at h
  · cases h
    rw [String.toList_ofList]
    exact wordy_of_plainSymbol? hname
  · cases h

theorem wordy_of_resourceLine? {line : List Char} {l : ResourceLine}
    (h : resourceLine? line = some l) : Wordy l.name.toList := by
  unfold resourceLine? at h
  simp only [Option.bind_eq_bind, Option.bind_eq_some_iff] at h
  obtain ⟨_, -, ⟨w, _⟩, hname, h⟩ := h
  cases h
  rw [String.toList_ofList]
  exact wordy_of_plainSymbol? hname

theorem target_of_destination? {cs target rest : List Char} {action : String}
    (h : destination? cs = some (target, action, rest)) :
    (∀ c ∈ target, isWord c = true ∨ c = '/') ∧ Wordy action.toList := by
  unfold destination? at h
  simp only [Option.bind_eq_bind, Option.bind_eq_some_iff] at h
  obtain ⟨_, -, _, -, _, -, _, -, _, -, ⟨w, _⟩, haction, _, -, h⟩ := h
  split at h
  · cases h
  · cases h
    constructor
    · intro c hc
      simpa using List.mem_takeWhile_imp hc
    · rw [String.toList_ofList]
      exact wordy_of_wordChars? haction

theorem target_of_explicitLine? {line : List Char} {l : ExplicitLine}
    (h : explicitLine? line = some l) :
    (∀ c ∈ l.target, isWord c = true ∨ c = '/') ∧ Wordy l.action.toList := by
  unfold explicitLine? at h
  obtain ⟨⟨verb, rest⟩, -, h⟩ := Option.bind_eq_some_iff.mp h
  dsimp only at h
  split at h
  · split at h
    · obtain ⟨⟨path, target, action, rest'⟩, hsplit, h⟩ := Option.bind_eq_some_iff.mp h
      cases h
      obtain ⟨_, hfound⟩ := exists_of_splitBefore hsplit
      exact target_of_destination? hfound
    · cases h
  · cases h

end Readers

def Unmarked (s : String) : Prop := '#' ∉ s.toList

theorem unmarked_of_wordy {s : String} (h : Wordy s.toList) : Unmarked s :=
  not_mem_of_wordy h (by decide)

theorem actionKey_eq_iff {controller action : String} (hcontroller : Unmarked controller)
    (haction : Unmarked action) {c a : String} :
    actionKey controller action = actionKey c a ↔ controller = c ∧ action = a := by
  have hlist (c a : String) : (actionKey c a).toList = c.toList ++ '#' :: a.toList := by
    simp [actionKey]
  rw [← String.toList_inj, hlist, hlist, List.append_cons_inj_of_notMem hcontroller haction]
  simp [String.toList_inj]

theorem unmarked_controllerFor {parts : List String} (h : ∀ p ∈ parts, Unmarked p) :
    Unmarked (controllerFor ("/".intercalate parts)) := by
  intro hmem
  rw [controllerFor, String.toList_append, List.mem_append] at hmem
  rcases hmem with hmem | hmem
  · rw [Naming.camelize, String.toList_ofList] at hmem
    have hpath := Naming.mem_of_mem_camelized hmem (by decide) (by decide)
    rw [String.toList_intercalate] at hpath
    rcases mem_or_mem_of_mem_intercalate hpath with hsep | ⟨_, hpart, hmark⟩
    · revert hsep
      decide
    · obtain ⟨p, hp, rfl⟩ := List.mem_map.mp hpart
      exact h p hp hmark
  · revert hmem
    decide

structure Route.Regular (r : Route) : Prop where
  path : ∃ rest, r.path = "/" ++ rest
  controller : ∃ name, r.controller = name ++ "Controller"
  unmarked_controller : Unmarked r.controller
  unmarked_action : Unmarked r.action

section Declarations

variable {blocks : List Block} (location : Location)

def PlainScopes (blocks : List Block) : Prop := ∀ s ∈ scopes blocks, Unmarked s

theorem exists_pathBefore_append (blocks : List Block) (rest : String) :
    ∃ more, pathBefore blocks ++ ("/" ++ rest) = "/" ++ more := by
  cases hsegments : blocks.filterMap Block.segment? with
  | nil => exact ⟨rest, by simp [pathBefore, hsegments]⟩
  | cons s segments =>
    refine ⟨s ++ String.join (segments.map fun s => "/" ++ s) ++ ("/" ++ rest), ?_⟩
    simp [pathBefore, hsegments, String.append_assoc]

theorem unmarked_actions : ∀ a ∈ singularActions ++ standardActions, Unmarked a.name := by
  unfold Unmarked
  decide

theorem mem_of_mem_selectActions {options : List Char} {actions : List Action} {a : Action}
    (h : a ∈ selectActions options actions) : a ∈ actions := by
  unfold selectActions at h
  split at h
  · exact h
  · exact List.mem_of_mem_filter h

theorem regular_resourceRoutes (hblocks : PlainScopes blocks) {l : ResourceLine}
    (hl : Wordy l.name.toList) : ∀ r ∈ resourceRoutes blocks l location, r.Regular := by
  intro r hr
  obtain ⟨a, ha, rfl⟩ := List.mem_map.mp hr
  have hname : Unmarked (if l.singular then Naming.pluralize l.name else l.name) := by
    split
    · rw [Unmarked, Naming.pluralize, String.toList_ofList]
      exact not_mem_plural (by decide) (unmarked_of_wordy hl)
    · exact unmarked_of_wordy hl
  refine ⟨?_, ⟨_, rfl⟩, ?_, ?_⟩
  · obtain ⟨more, hmore⟩ := exists_pathBefore_append blocks (l.name ++ a.suffix)
    exact ⟨more, by rw [← hmore]; simp only [String.append_assoc]⟩
  · apply unmarked_controllerFor
    exact List.forall_mem_append.mpr ⟨hblocks, List.forall_mem_singleton.mpr hname⟩
  · have hactions := mem_of_mem_selectActions ha
    split at hactions
    · exact unmarked_actions a (List.mem_append_left _ hactions)
    · exact unmarked_actions a (List.mem_append_right _ hactions)

theorem regular_explicitRoute (hblocks : PlainScopes blocks) {l : ExplicitLine}
    (htarget : ∀ c ∈ l.target, isWord c = true ∨ c = '/') (haction : Wordy l.action.toList) :
    (explicitRoute blocks l location).Regular := by
  have hname : Unmarked (String.ofList l.target) := by
    rw [Unmarked, String.toList_ofList]
    exact fun hmem => absurd (htarget '#' hmem) (by decide)
  refine ⟨?_, ⟨_, rfl⟩, ?_, unmarked_of_wordy haction⟩
  · obtain ⟨rest, hrest⟩ : ∃ rest, (if l.path.head? = some '/' then l.path else '/' :: l.path) =
        '/' :: rest := by
      split
      · next hslash => exact List.head?_eq_some_iff.mp hslash
      · exact ⟨l.path, rfl⟩
    obtain ⟨more, hmore⟩ := exists_pathBefore_append blocks (String.ofList rest)
    refine ⟨more, ?_⟩
    rw [explicitRoute, hrest, ← hmore]
    have hcons : String.ofList ('/' :: rest) = "/" ++ String.ofList rest :=
      @String.ofList_append ['/'] rest
    exact congrArg (pathBefore blocks ++ ·) hcons
  · apply unmarked_controllerFor
    exact List.forall_mem_append.mpr ⟨hblocks, List.forall_mem_singleton.mpr hname⟩

end Declarations

def Keyed (routes : Routes) : Prop := ∀ k r, routes.get? k = some r → r.key = k ∧ r.Regular

section Runs

variable {s : State}

theorem Keyed.add {routes : Routes} (h : Keyed routes) {r : Route} (hr : r.Regular) :
    Keyed (add routes r) := by
  intro k r' hget
  rw [Routes.add, OrderedMap.get?_insert] at hget
  split at hget
  · next hkey =>
    cases hget
    exact ⟨hkey, hr⟩
  · exact h k r' hget

theorem Keyed.foldl_add {found : List Route} (hfound : ∀ r ∈ found, r.Regular) {routes : Routes}
    (h : Keyed routes) : Keyed (found.foldl Routes.add routes) := by
  induction found generalizing routes with
  | nil => exact h
  | cons r found ih =>
    obtain ⟨hr, hrest⟩ := List.forall_mem_cons.mp hfound
    exact ih hrest (h.add hr)

theorem scopes_opened (line : List Char) (resource : Option ResourceLine) :
    scopes (if opensDo line then [(resource.map ResourceLine.block).getD .other] else []) = [] := by
  split
  · cases resource <;> rfl
  · rfl

structure State.Sound (s : State) : Prop where
  keyed : Keyed s.routes
  plain : PlainScopes s.blocks

theorem State.Sound.readStatement (h : s.Sound) (line : List Char) (location : Location) :
    (readStatement s line location).Sound := by
  unfold Routes.readStatement
  split
  · -- an `end` closes the innermost block
    refine ⟨h.keyed, fun name hname => h.plain name ?_⟩
    exact ((List.dropLast_sublist s.blocks).filterMap _).subset hname
  split
  · next name hscope =>
    refine ⟨h.keyed, ?_⟩
    rw [PlainScopes, scopes_append]
    apply List.forall_mem_append.mpr ⟨h.plain, List.forall_mem_singleton.mpr ?_⟩
    exact unmarked_of_wordy (wordy_of_scopeLine? hscope)
  · refine ⟨Keyed.foldl_add (List.forall_mem_append.mpr ⟨?_, ?_⟩) h.keyed, ?_⟩
    · split
      · next l hresource =>
        exact regular_resourceRoutes location h.plain (wordy_of_resourceLine? hresource)
      · exact fun r hr => absurd hr List.not_mem_nil
    · split
      · next l hexplicit =>
        obtain ⟨htarget, haction⟩ := target_of_explicitLine? hexplicit
        exact List.forall_mem_singleton.mpr
          (regular_explicitRoute location h.plain htarget haction)
      · exact fun r hr => absurd hr List.not_mem_nil
    · rw [PlainScopes, scopes_append, scopes_opened, List.append_nil]
      exact h.plain

theorem State.Sound.readFrom (h : s.Sound) (uri : String) (n : Nat) (lines : List (List Char)) :
    (readFrom uri s n lines).Sound := by
  induction lines generalizing s n with
  | nil => exact h
  | cons raw rest ih =>
    rw [Routes.readFrom]
    apply ih
    split
    · exact h
    · exact h
    · exact h.readStatement _ _

theorem keyed_read (text uri : String) : Keyed (read text uri) := by
  have hinitial : State.Sound {} := ⟨fun k r hget => (nomatch hget), fun name hname => (nomatch hname)⟩
  exact (hinitial.readFrom uri 0 (lines text.toList)).keyed

end Runs

namespace Keyed

variable {routes : Routes} (h : Keyed routes)

theorem mem_ofController_iff {c : String} {r : Route} :
    r ∈ routes.ofController c ↔ r ∈ routes.values ∧ r.controller = c := by
  simp [ofController]

theorem disjoint_ofController {c c' : String} (hne : c ≠ c') :
    (routes.ofController c).Disjoint (routes.ofController c') := by
  intro r hr hr'
  rw [mem_ofController_iff] at hr hr'
  exact hne (hr.2.symm.trans hr'.2)

include h

theorem get?_key_of_mem {r : Route} (hr : r ∈ routes.values) : routes.get? r.key = some r := by
  obtain ⟨k, hget⟩ := OrderedMap.mem_values_iff.mp hr
  rwa [(h k r hget).1]

theorem route?_eq_some_iff {c a : String} {r : Route} :
    routes.route? c a = some r ↔ r ∈ routes.ofController c ∧ r.action = a := by
  rw [mem_ofController_iff]
  constructor
  · intro hget
    obtain ⟨hkey, hr⟩ := h _ r hget
    obtain ⟨hcontroller, haction⟩ :=
      (actionKey_eq_iff hr.unmarked_controller hr.unmarked_action).mp hkey
    exact ⟨⟨OrderedMap.mem_values_iff.mpr ⟨_, hget⟩, hcontroller⟩, haction⟩
  · rintro ⟨⟨hr, rfl⟩, rfl⟩
    exact h.get?_key_of_mem hr

theorem nodup_values : routes.values.Nodup := by
  apply List.Nodup.map_on _ (List.Nodup.of_map _ routes.nodup)
  rintro ⟨k, r⟩ hfirst ⟨k', r'⟩ hsecond (rfl : r = r')
  obtain ⟨hkey, -⟩ := h k r (OrderedMap.mem_entries_iff.mp hfirst)
  obtain ⟨hkey', -⟩ := h k' r (OrderedMap.mem_entries_iff.mp hsecond)
  rw [← hkey, ← hkey']

theorem filter_ofController (c a : String) :
    (routes.ofController c).filter (fun r => r.action = a) = (routes.route? c a).toList := by
  have hnodup : ((routes.ofController c).filter fun r => r.action = a).Nodup :=
    (h.nodup_values.filter _).filter _
  have hmem : ∀ r, r ∈ (routes.ofController c).filter (fun r => r.action = a) ↔
      r ∈ (routes.route? c a).toList := by
    intro r
    rw [List.mem_filter, decide_eq_true_iff, ← h.route?_eq_some_iff, Option.mem_toList]
  cases hroute : routes.route? c a with
  | none =>
    rw [hroute] at hmem
    exact List.eq_nil_iff_forall_not_mem.mpr fun r hr => List.not_mem_nil ((hmem r).mp hr)
  | some r =>
    rw [hroute] at hmem
    exact List.perm_singleton.mp ((List.perm_ext_iff_of_nodup hnodup (List.nodup_singleton r)).mpr hmem)

theorem flatMap_ofController_perm :
    ((routes.values.map Route.controller).dedup.flatMap routes.ofController).Perm routes.values := by
  have hnodup : ((routes.values.map Route.controller).dedup.flatMap routes.ofController).Nodup := by
    rw [List.nodup_flatMap]
    refine ⟨fun c _ => h.nodup_values.filter _, ?_⟩
    exact (List.nodup_dedup _).imp disjoint_ofController
  apply (List.perm_ext_iff_of_nodup hnodup h.nodup_values).mpr
  intro r
  rw [List.mem_flatMap]
  constructor
  · rintro ⟨c, -, hr⟩
    exact (mem_ofController_iff.mp hr).1
  · intro hr
    exact ⟨r.controller, List.mem_dedup.mpr (List.mem_map_of_mem hr),
      mem_ofController_iff.mpr ⟨hr, rfl⟩⟩

end Keyed

/-- Whatever the text says, every entry of the table is stored under its own controller and action,
and looking an action up finds it just if it is among the routes of its controller, where it is the
only one of its name. The routes of the controllers together are the table. -/
theorem lookups_exact (text uri : String) :
    let routes := read text uri
    (∀ e ∈ routes.entries,
      e.1 = e.2.controller ++ "#" ++ e.2.action ∧ (∃ rest, e.2.path = "/" ++ rest) ∧
      e.2.verb.name ∈ ["GET", "POST", "PUT", "PATCH", "DELETE"] ∧
      (∃ name, e.2.controller = name ++ "Controller") ∧ '#' ∉ e.2.controller.toList) ∧
    (∀ c a r, routes.route? c a = some r ↔ r ∈ routes.ofController c ∧ r.action = a) ∧
    (∀ c a, (routes.ofController c).filter (fun r => r.action = a) = (routes.route? c a).toList) ∧
    (∀ c c', c ≠ c' → (routes.ofController c).Disjoint (routes.ofController c')) ∧
    ((routes.values.map Route.controller).dedup.flatMap routes.ofController).Perm routes.values := by
  intro routes
  have h : Keyed routes := keyed_read text uri
  refine ⟨?_, fun _ _ _ => h.route?_eq_some_iff, h.filter_ofController,
    fun _ _ => Keyed.disjoint_ofController, h.flatMap_ofController_perm⟩
  rintro ⟨k, r⟩ he
  obtain ⟨hkey, hr⟩ := h k r (OrderedMap.mem_entries_iff.mp he)
  have hverb : r.verb.name ∈ ["GET", "POST", "PUT", "PATCH", "DELETE"] := by
    cases r.verb <;> decide
  exact ⟨hkey.symm, hr.path, hverb, hr.controller, hr.unmarked_controller⟩

end Routes

end CodeAtlas
