namespace CodeAtlas.Text

def consFirst (c : Char) : List (List Char) → List (List Char)
  | [] => [[c]]
  | p :: ps => (c :: p) :: ps

def splitOn (sep : Char) : List Char → List (List Char)
  | [] => [[]]
  | c :: rest => if c = sep then [] :: splitOn sep rest else consFirst c (splitOn sep rest)

def splitPath : List Char → List (List Char)
  | [] => [[]]
  | ':' :: ':' :: rest => [] :: splitPath rest
  | c :: rest => consFirst c (splitPath rest)

def lastSegment (path : List Char) : List Char := (splitPath path).getLastD []

def joinWith (sep : List Char) : List (List Char) → List Char
  | [] => []
  | [p] => p
  | p :: ps => p ++ sep ++ joinWith sep ps

def dropHead? : List Char → List Char → Option (List Char)
  | [], cs => some cs
  | _ :: _, [] => none
  | h :: hs, c :: cs => if h = c then dropHead? hs cs else none

def occursIn (needle : List Char) : List Char → Bool
  | [] => needle.isEmpty
  | c :: rest => needle.isPrefixOf (c :: rest) || occursIn needle rest

def firstAt {α : Type} (f : List Char → Option α) : List Char → Option α
  | [] => f []
  | c :: rest => (f (c :: rest)).or (firstAt f rest)

def splitBefore {α : Type} (f : List Char → Option α) : List Char → Option (List Char × α)
  | [] => none
  | c :: rest =>
    match f rest with
    | some a => some ([c], a)
    | none => (splitBefore f rest).map fun (front, a) => (c :: front, a)

/-- Removes every occurrence of a nonempty `needle`, from left to right. `skip` characters belong
to an occurrence already found. -/
def eraseFrom (needle : List Char) : Nat → List Char → List Char
  | _, [] => []
  | skip + 1, _ :: rest => eraseFrom needle skip rest
  | 0, c :: rest =>
    if needle.isPrefixOf (c :: rest) then eraseFrom needle (needle.length - 1) rest
    else c :: eraseFrom needle 0 rest

def eraseAll (needle text : List Char) : List Char := eraseFrom needle 0 text

def mentions (text needle : String) : Bool := occursIn needle.toList text.toList

def startsWith (text head : String) : Bool := head.toList.isPrefixOf text.toList

def endsWith (text tail : String) : Bool := tail.toList.isSuffixOf text.toList

def baseName (path : String) : String := String.ofList (lastSegment path.toList)

theorem splitOn_ne_nil (sep : Char) (cs : List Char) : splitOn sep cs ≠ [] := by
  induction cs with
  | nil => simp [splitOn]
  | cons c rest ih =>
    rw [splitOn]
    split
    · simp
    · cases h : splitOn sep rest <;> simp [consFirst]

theorem joinWith_splitOn (sep : Char) (cs : List Char) : joinWith [sep] (splitOn sep cs) = cs := by
  induction cs with
  | nil => rfl
  | cons c rest ih =>
    obtain ⟨p, ps, h⟩ := List.exists_cons_of_ne_nil (splitOn_ne_nil sep rest)
    rw [splitOn]
    split
    · next hc => subst hc; rw [h] at ih ⊢; simp [joinWith, ih]
    · rw [h] at ih ⊢
      cases ps <;> simp_all [consFirst, joinWith]

theorem occursIn_iff {needle cs : List Char} : occursIn needle cs = true ↔ needle <:+: cs := by
  induction cs with
  | nil => simp [occursIn]
  | cons c rest ih => simp [occursIn, ih, List.infix_cons_iff]

theorem dropHead?_eq_some_iff {h cs rest : List Char} :
    dropHead? h cs = some rest ↔ cs = h ++ rest := by
  induction h generalizing cs with
  | nil => simp [dropHead?]
  | cons a as ih =>
    cases cs with
    | nil => simp [dropHead?]
    | cons c cs =>
      by_cases hc : a = c
      · simp [dropHead?, hc, ih]
      · simp [dropHead?, hc, Ne.symm hc]

end CodeAtlas.Text
