import CodeAtlas.Naming.Plural

namespace CodeAtlas.Search

open Text

inductive Tier where
  | exact
  | start
  | substring
  | fuzzy
  deriving DecidableEq, Repr

def isSubsequence : (pattern text : List Char) → Bool
  | [], _ => true
  | _ :: _, [] => false
  | p :: ps, t :: ts => if p = t then isSubsequence ps ts else isSubsequence (p :: ps) ts

def fuzzyMatch (text pattern : String) : Bool :=
  isSubsequence (lower pattern.toList) (lower text.toList)

def tier? (name query : String) : Option Tier :=
  let name := lower name.toList
  let query := lower query.toList
  if name = query then some .exact
  else if query.isPrefixOf name then some .start
  else if occursIn query name then some .substring
  else if isSubsequence query name then some .fuzzy
  else none

def lastPathSegment (path : List Char) : List Char :=
  Naming.dropFinalNewline ((splitOn '/' path).getLastD [])

def testedName (path : String) : String :=
  let ending := "_spec.rb".toList
  let file := lastPathSegment path.toList
  if ending.isSuffixOf file && ending.length < file.length then
    String.ofList (Naming.camelized (Naming.dropEnd ending.length file))
  else ""

theorem isSubsequence_iff {ps ts : List Char} : isSubsequence ps ts = true ↔ ps.Sublist ts := by
  induction ts generalizing ps with
  | nil => cases ps <;> simp [isSubsequence]
  | cons t ts ih =>
    cases ps with
    | nil => simp [isSubsequence]
    | cons p ps =>
      by_cases h : p = t
      · subst h
        simp [isSubsequence, ih]
      · have hne : ¬(p :: ps).Sublist (t :: ts) ∨ (p :: ps).Sublist ts := by
          by_cases hs : (p :: ps).Sublist ts
          · exact Or.inr hs
          · refine Or.inl fun hc => ?_
            cases hc with
            | cons _ hc => exact hs hc
            | cons_cons _ _ => exact h rfl
        simp only [isSubsequence, h, if_false, ih]
        exact ⟨fun hs => hs.cons t, fun hs => hne.resolve_left (fun hn => hn hs)⟩

end CodeAtlas.Search
