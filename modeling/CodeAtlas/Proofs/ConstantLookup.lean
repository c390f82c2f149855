import CodeAtlas.Proofs.Dropping
import CodeAtlas.Proofs.Scopes
import CodeAtlas.Proofs.SuperclassOrigins
import Mathlib.Data.List.Induction

namespace CodeAtlas

theorem pairwise_lookUpPaths (name : String) (scope : Option String) :
    (lookUpPaths name scope).Pairwise fun p q => q.length < p.length := by
  unfold lookUpPaths
  split
  · exact List.pairwise_singleton _ _
  · rw [List.pairwise_append, List.pairwise_map]
    refine ⟨(pairwise_scopesFrom scope).imp ?_, List.pairwise_singleton _ _, ?_⟩
    · intro inner outer hlt
      simpa using hlt
    · rintro p hp q hq
      obtain ⟨s, -, rfl⟩ := List.mem_map.mp hp
      rw [List.mem_singleton.mp hq]
      simp only [String.length_append]
      have hcolons : "::".length = 2 := rfl
      omega

structure Namespace where
  segments : List String
  ne_empty : ∀ s ∈ segments, s ≠ ""
  bare : ∀ s ∈ segments, ':' ∉ s.toList

namespace Namespace

def path (s : Namespace) : String := "::".intercalate s.segments

def fullName (s : Namespace) (depth : Nat) (name : String) : String :=
  "::".intercalate (s.segments.take depth ++ [name])

end Namespace

theorem find?_countdown {known : String → Bool} {f : Nat → String} {k : Nat} {r : String} :
    ((List.range k).reverse.map f).find? known = some r ↔
      ∃ j < k, f j = r ∧ known r = true ∧ ∀ i < k, j < i → known (f i) = false := by
  induction k with
  | zero => simp
  | succ k ih =>
    rw [List.range_succ, List.reverse_concat, List.map_cons, List.find?_cons]
    cases hk : known (f k) with
    | true =>
      constructor
      · rintro ⟨rfl⟩
        exact ⟨k, Nat.lt_succ_self k, rfl, hk, fun i hi hlt => by omega⟩
      · rintro ⟨j, hj, rfl, -, hlarger⟩
        by_cases hlast : j = k
        · rw [hlast]
        · rw [hlarger k (Nat.lt_succ_self k) (by omega)] at hk
          cases hk
    | false =>
      dsimp only
      rw [ih]
      constructor
      · rintro ⟨j, hj, rfl, hr, hlarger⟩
        refine ⟨j, by omega, rfl, hr, fun i hi hlt => ?_⟩
        by_cases hlast : i = k
        · rw [hlast, hk]
        · exact hlarger i (by omega) hlt
      · rintro ⟨j, hj, rfl, hr, hlarger⟩
        have hlast : j ≠ k := by
          rintro rfl
          rw [hk] at hr
          cases hr
        exact ⟨j, by omega, rfl, hr, fun i hi hlt => hlarger i (by omega) hlt⟩

section

variable {name : String} (hname : ∀ rest, name.toList ≠ ':' :: ':' :: rest)
include hname

theorem lookUpPaths_concat (outer : List String) {inner : String} (hne : inner ≠ "")
    (hbare : ':' ∉ inner.toList) :
    lookUpPaths name (some ("::".intercalate (outer ++ [inner]))) =
      "::".intercalate (outer ++ [inner] ++ [name]) ::
        lookUpPaths name (some ("::".intercalate outer)) := by
  have hpath : "::".intercalate (outer ++ [inner] ++ [name]) =
      "::".intercalate (outer ++ [inner]) ++ "::" ++ name := by
    rw [String.intercalate_append_of_ne_nil (List.concat_ne_nil _ _) (List.cons_ne_nil _ _),
      String.intercalate_singleton]
  rw [lookUpPaths_of_relative hname, lookUpPaths_of_relative hname,
    scopesFrom_concat outer hne hbare, List.map_cons, List.cons_append, hpath]

theorem lookUpPaths_path (s : Namespace) :
    lookUpPaths name (some s.path) =
      (List.range (s.segments.length + 1)).reverse.map fun depth => s.fullName depth name := by
  obtain ⟨segments, hne, hbare⟩ := s
  dsimp only [Namespace.path, Namespace.fullName]
  -- from the innermost segment outwards, as the search goes
  induction segments using List.reverseRecOn with
  | nil =>
    rw [lookUpPaths_of_relative hname]
    rfl
  | append_singleton outer inner ih =>
    have hinner : inner ∈ outer ++ [inner] := List.mem_concat_self
    have houter := ih (fun s hs => hne s (List.mem_append_left _ hs))
      fun s hs => hbare s (List.mem_append_left _ hs)
    have hall : (outer ++ [inner]).take (outer.length + 1) = outer ++ [inner] :=
      List.take_of_length_le (by simp)
    rw [lookUpPaths_concat hname outer (hne inner hinner) (hbare inner hinner), houter,
      List.length_append, List.length_singleton, List.range_succ (n := outer.length + 1),
      List.reverse_concat, List.map_cons, hall]
    congr 1
    apply List.map_congr_left
    intro depth hdepth
    have hle : depth ≤ outer.length := by simpa [Nat.lt_succ_iff] using hdepth
    rw [List.take_append_of_le_length hle]

theorem Graph.resolveConstant_path (g : Graph) (s : Namespace) (r : String) :
    g.resolveConstant name (some s.path) = some r ↔
      ∃ j ≤ s.segments.length, s.fullName j name = r ∧ g.knows r = true ∧
        ∀ i ≤ s.segments.length, j < i → g.knows (s.fullName i name) = false := by
  rw [resolveConstant_eq_find?, lookUpPaths_path hname, find?_countdown]
  simp only [Nat.lt_succ_iff]

theorem Graph.resolveConstant_path_eq_none (g : Graph) (s : Namespace) :
    g.resolveConstant name (some s.path) = none ↔
      ∀ j ≤ s.segments.length, g.knows (s.fullName j name) = false := by
  rw [resolveConstant_eq_find?, lookUpPaths_path hname, List.find?_eq_none, List.forall_mem_map]
  simp only [List.mem_reverse, List.mem_range, Nat.lt_succ_iff, Bool.not_eq_true]

end

namespace Graph

theorem resolveConstant_absolute (g : Graph) (name : String) (scope : Option String) :
    g.resolveConstant ("::" ++ name) scope = if g.knows name then some name else none := by
  have hchars : ("::" ++ name).toList = ':' :: ':' :: name.toList := by simp
  rw [resolveConstant_eq_find?, lookUpPaths_of_absolute hchars, String.ofList_toList,
    List.find?_singleton]

theorem resolveConstant_of_fewer {g h : Graph} (hsub : ∀ x, h.knows x = true → g.knows x = true)
    (name : String) (scope : Option String) :
    h.resolveConstant name scope = g.resolveConstant name scope ∨
      ∃ f, g.resolveConstant name scope = some f ∧ g.knows f = true ∧ h.knows f = false := by
  rw [resolveConstant_eq_find?, resolveConstant_eq_find?]
  cases hfound : (lookUpPaths name scope).find? g.knows with
  | none =>
    left
    rw [List.find?_eq_none] at hfound ⊢
    exact fun p hp hknown => hfound p hp (hsub p hknown)
  | some f =>
    cases hkept : h.knows f with
    | true => exact .inl (find?_of_fewer hsub hfound hkept)
    | false => exact .inr ⟨f, rfl, List.find?_some hfound, hkept⟩

theorem resolveConstant_run {changes : List Mutation}
    (hadd : ∀ change ∈ changes, change.isAddition = true) (g : Graph) (name : String)
    (scope : Option String) :
    (g.run changes).resolveConstant name scope = g.resolveConstant name scope ∨
      ∃ f ∈ declaredNames changes, (g.run changes).resolveConstant name scope = some f := by
  have hmore : ∀ x, g.knows x = true → (g.run changes).knows x = true :=
    fun x hx => (knows_run hadd g x).mpr (.inl hx)
  refine (resolveConstant_of_fewer hmore name scope).imp Eq.symm ?_
  rintro ⟨f, hfound, hknown, hnew⟩
  refine ⟨f, ?_, hfound⟩
  exact ((knows_run hadd g f).mp hknown).resolve_left (by simp [hnew])

theorem knows_eq_isSome_place (g : Graph) (name : String) :
    g.knows name = (g.place name).isSome := by
  rw [knows, place, Option.isSome_or, Option.isSome_map, Option.isSome_map]
  rfl

theorem knows_undeclare (uri : String) (g : Graph) (name other : String) :
    (undeclare uri g name).knows other = true ↔
      g.knows other = true ∧ ¬(other = name ∧ ∀ file ∈ g.filesOf other, file = uri) := by
  by_cases hown : ∀ file ∈ g.filesOf name, file = uri
  · rw [undeclare_of_own hown, knows_eq_isSome_place, knows_eq_isSome_place]
    by_cases hname : other = name
    · subst hname
      refine iff_of_false ?_ fun h => h.2 ⟨rfl, hown⟩
      simp [place, location_dropClass]
    · simp [place, location_dropClass, hname]
  · have hkept : ¬(other = name ∧ ∀ file ∈ g.filesOf other, file = uri) := by
      rintro ⟨rfl, hother⟩
      exact hown hother
    have hfiles : ((g.declaredIn.get? name).getD []).filter (· ≠ uri) ≠ [] := by
      intro hnone
      apply hown
      intro file hfile
      simpa using List.filter_eq_nil_iff.mp hnone file hfile
    rw [and_iff_left hkept, undeclare]
    dsimp only
    rw [if_neg (by simpa using hfiles), knows_eq_isSome_place, place_relocate _ _ hfiles,
      Option.isSome_map, knows_eq_isSome_place]
    rfl

theorem knows_foldl_undeclare (uri : String) (names : List String) (g : Graph) (other : String) :
    (names.foldl (undeclare uri) g).knows other = true ↔
      g.knows other = true ∧ ¬(other ∈ names ∧ ∀ file ∈ g.filesOf other, file = uri) := by
  induction names generalizing g with
  | nil => simp
  | cons name rest ih =>
    have hfiles : (∀ file ∈ (undeclare uri g name).filesOf other, file = uri) ↔
        ∀ file ∈ g.filesOf other, file = uri := by
      rw [← remains_eq_false, ← remains_eq_false, remains_undeclare]
    rw [List.foldl_cons, ih, knows_undeclare, hfiles, List.mem_cons, and_assoc, or_and_right, not_or]

theorem place_foldl {α : Type} {f : Graph → α → Graph}
    (hf : ∀ g a name, (f g a).place name = g.place name) (l : List α) (g : Graph) (name : String) :
    (l.foldl f g).place name = g.place name :=
  List.foldlRecOn (motive := fun g' => g'.place name = g.place name) l f rfl
    fun g' hg' a _ => (hf g' a name).trans hg'

theorem knows_removeFile (g : Graph) (uri name : String) :
    (g.removeFile uri).knows name = true ↔
      g.knows name = true ∧ ¬(uri ∈ g.filesOf name ∧ ∀ file ∈ g.filesOf name, file = uri) := by
  have hplace : (g.removeFile uri).place name = (g.withoutDeclarations uri).place name := by
    obtain ⟨hclasses, hmodules, -⟩ := removeFile_hierarchy g uri
    -- taking mixins and methods back moves no class or module
    rw [place, hclasses, hmodules, ← place, withoutFile, withoutMethods, withoutMixins,
      place_foldl place_dropMethod, place_foldl place_dropMixin]
  have hdeclared : name ∈ (g.declaredIn.filter fun _ files => files.contains uri).keys ↔
      uri ∈ g.filesOf name := by
    rw [OrderedMap.mem_keys_iff, OrderedMap.get?_filter, filesOf]
    cases g.declaredIn.get? name <;> simp [Option.filter]
  rw [knows_eq_isSome_place, hplace, ← knows_eq_isSome_place, withoutDeclarations,
    knows_foldl_undeclare, hdeclared]

theorem resolveConstant_removeFile (g : Graph) (uri name : String) (scope : Option String) :
    (g.removeFile uri).resolveConstant name scope = g.resolveConstant name scope ∨
      ∃ f, g.resolveConstant name scope = some f ∧
        uri ∈ g.filesOf f ∧ ∀ file ∈ g.filesOf f, file = uri := by
  have hsub : ∀ x, (g.removeFile uri).knows x = true → g.knows x = true :=
    fun x hx => ((knows_removeFile g uri x).mp hx).1
  refine (resolveConstant_of_fewer hsub name scope).imp_right ?_
  rintro ⟨f, hfound, hknown, hlost⟩
  refine ⟨f, hfound, ?_⟩
  by_contra hkept
  rw [(knows_removeFile g uri f).mpr ⟨hknown, hkept⟩] at hlost
  cases hlost

theorem resolveConstant_undeclare (g : Graph) (uri f name : String) (scope : Option String) :
    (undeclare uri g f).resolveConstant name scope = g.resolveConstant name scope ∨
      g.resolveConstant name scope = some f := by
  have hsub : ∀ x, (undeclare uri g f).knows x = true → g.knows x = true :=
    fun x hx => ((knows_undeclare uri g f x).mp hx).1
  refine (resolveConstant_of_fewer hsub name scope).imp_right ?_
  rintro ⟨r, hfound, hknown, hlost⟩
  by_cases hr : r = f
  · rw [hfound, hr]
  · rw [(knows_undeclare uri g f r).mpr ⟨hknown, fun h => hr h.1⟩] at hlost
    cases hlost

/-- Inside a namespace a constant means the innermost full name of it that is known, or nothing if none is;
a path that starts with `::` means what it names, wherever it stands. The full names that are tried become
shorter and shorter, so that the search ends in any scope. A class or module that is added changes what a
constant means only to itself, and one that is taken back changes nothing but what meant it. -/
theorem constants_mean_innermost (g : Graph) (name : String) :
    ((∀ rest, name ≠ "::" ++ rest) → ∀ s : Namespace,
      (∀ r, g.resolveConstant name (some s.path) = some r ↔
        ∃ j ≤ s.segments.length, s.fullName j name = r ∧ g.knows r = true ∧
          ∀ i ≤ s.segments.length, j < i → g.knows (s.fullName i name) = false) ∧
      (g.resolveConstant name (some s.path) = none ↔
        ∀ j ≤ s.segments.length, g.knows (s.fullName j name) = false)) ∧
    (∀ rest, name = "::" ++ rest → ∀ scope,
      g.resolveConstant name scope = if g.knows rest then some rest else none) ∧
    ∀ scope,
      (g.resolveConstant name scope = (lookUpPaths name scope).find? g.knows ∧
        (lookUpPaths name scope).Pairwise fun p q => q.length < p.length) ∧
      (∀ c, (g.addClass c).resolveConstant name scope = g.resolveConstant name scope ∨
        (g.addClass c).resolveConstant name scope = some c.fullName) ∧
      (∀ m, (g.addModule m).resolveConstant name scope = g.resolveConstant name scope ∨
        (g.addModule m).resolveConstant name scope = some m.fullName) ∧
      (∀ uri f, (undeclare uri g f).resolveConstant name scope = g.resolveConstant name scope ∨
        g.resolveConstant name scope = some f) ∧
      ∀ uri, (g.removeFile uri).resolveConstant name scope = g.resolveConstant name scope ∨
        ∃ f, g.resolveConstant name scope = some f ∧
          uri ∈ g.filesOf f ∧ ∀ file ∈ g.filesOf f, file = uri := by
  have hadded (change : Mutation) (f : String) (hadd : change.isAddition = true)
      (hdeclared : declaredNames [change] = [f]) (scope : Option String) :
      (g.apply change).resolveConstant name scope = g.resolveConstant name scope ∨
        (g.apply change).resolveConstant name scope = some f := by
    obtain hsame | ⟨f', hf', hfound⟩ :=
      resolveConstant_run (List.forall_mem_singleton.mpr hadd) g name scope
    · exact .inl hsame
    · rw [hdeclared, List.mem_singleton] at hf'
      exact .inr (hf' ▸ hfound)
  refine ⟨fun hrelative s => ?_, ?_, fun scope => ?_⟩
  · have hname : ∀ rest, name.toList ≠ ':' :: ':' :: rest := by
      intro rest hchars
      apply hrelative (String.ofList rest)
      rw [← String.toList_inj, hchars]
      simp
    exact ⟨resolveConstant_path hname g s, resolveConstant_path_eq_none hname g s⟩
  · rintro rest rfl scope
    exact resolveConstant_absolute g rest scope
  · exact ⟨⟨resolveConstant_eq_find? g name scope, pairwise_lookUpPaths name scope⟩,
      fun c => hadded (.addClass c) c.fullName rfl rfl scope,
      fun m => hadded (.addModule m) m.fullName rfl rfl scope,
      fun uri f => resolveConstant_undeclare g uri f name scope,
      fun uri => resolveConstant_removeFile g uri name scope⟩

def adminReports : Namespace := ⟨["Admin", "Reports"], by decide, by decide⟩

def twoUsers : List Mutation :=
  [classIn "user.rb" "User" none none, classIn "admin.rb" "Admin::User" none (some "Admin")]

theorem constants_mean_innermost_users :
    let g := empty.run twoUsers
    (∀ rest, "User" ≠ "::" ++ rest) ∧ adminReports.path = "Admin::Reports" ∧
    g.resolveConstant "User" (some adminReports.path) = some "Admin::User" ∧
    g.resolveConstant "::User" (some adminReports.path) = some "User" ∧
    (g.removeFile "admin.rb").resolveConstant "User" (some adminReports.path) = some "User" := by
  have hrelative : ∀ rest, "User" ≠ "::" ++ rest := by
    intro rest h
    have hchars := congrArg String.toList h
    simp at hchars
  intro g
  refine ⟨hrelative, by decide, ?_, ?_, ?_⟩
  · exact ((constants_mean_innermost g "User").1 hrelative adminReports).1 "Admin::User" |>.mpr
      ⟨1, by decide, by decide, by decide, by decide⟩
  · exact ((constants_mean_innermost g "::User").2.1 "User" (by decide) _).trans (if_pos (by decide))
  · exact ((constants_mean_innermost (g.removeFile "admin.rb") "User").1 hrelative adminReports).1
      "User" |>.mpr ⟨0, by decide, by decide, by decide, by decide⟩

end Graph

end CodeAtlas
