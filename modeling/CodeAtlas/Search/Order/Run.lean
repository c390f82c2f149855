namespace CodeAtlas.Search.Order

variable {α : Type}

def placeIn (before : α → Bool) (items : List α) (lo hi : Nat) : Nat :=
  if lo < hi then
    let mid := (lo + hi) / 2
    if items[mid]?.any before then placeIn before items (mid + 1) hi
    else placeIn before items lo mid
  else lo
termination_by hi - lo

def insertInto (less : α → α → Bool) (items : List α) (x : α) : List α :=
  let n := placeIn (fun v => !less x v) items 0 items.length
  items.take n ++ x :: items.drop n

def splitRun (related : α → α → Bool) : List α → List α × List α
  | [] => ([], [])
  | [a] => ([a], [])
  | a :: b :: rest =>
    if related a b then
      let (run, rest) := splitRun related (b :: rest)
      (a :: run, rest)
    else ([a], b :: rest)

def firstRun (less : α → α → Bool) (items : List α) : List α × List α :=
  match items with
  | a :: b :: _ =>
    if less b a then
      let (run, rest) := splitRun (fun a b => less b a) items
      (run.reverse, rest)
    else splitRun (fun a b => !less b a) items
  | _ => (items, [])

theorem splitRun_append (related : α → α → Bool) (items : List α) :
    (splitRun related items).1 ++ (splitRun related items).2 = items := by
  fun_induction splitRun related items <;> simp_all

theorem length_splitRun (related : α → α → Bool) (a : α) (items : List α) :
    (splitRun related (a :: items)).2.length ≤ items.length := by
  induction items generalizing a with
  | nil => simp [splitRun]
  | cons b items ih =>
    simp only [splitRun]
    split
    · exact Nat.le_succ_of_le (ih b)
    · simp

theorem firstRun_perm (less : α → α → Bool) (items : List α) :
    ((firstRun less items).1 ++ (firstRun less items).2).Perm items := by
  unfold firstRun
  split
  · split
    · exact ((List.reverse_perm _).append_right _).trans (.of_eq (splitRun_append ..))
    · exact .of_eq (splitRun_append ..)
  · simp

theorem length_firstRun (less : α → α → Bool) (a : α) (items : List α) :
    (firstRun less (a :: items)).2.length ≤ items.length := by
  unfold firstRun
  split
  · split <;> exact length_splitRun ..
  · simp

def filledRun (less : α → α → Bool) (least : Nat) (items : List α) : List α × List α :=
  let (run, rest) := firstRun less items
  let n := least - run.length
  ((rest.take n).foldl (insertInto less) run, rest.drop n)

theorem insertInto_perm (less : α → α → Bool) (items : List α) (x : α) :
    (insertInto less items x).Perm (x :: items) := by
  have := List.take_append_drop (placeIn (fun v => !less x v) items 0 items.length) items
  exact List.perm_middle.trans (.of_eq (congrArg (x :: ·) this))

theorem foldl_insertInto_perm (less : α → α → Bool) (items run : List α) :
    (items.foldl (insertInto less) run).Perm (run ++ items) := by
  induction items generalizing run with
  | nil => simp
  | cons x items ih =>
    exact (ih _).trans (((insertInto_perm less run x).append_right items).trans
      List.perm_middle.symm)

theorem filledRun_perm (less : α → α → Bool) (least : Nat) (items : List α) :
    ((filledRun less least items).1 ++ (filledRun less least items).2).Perm items := by
  have := (foldl_insertInto_perm less
    ((firstRun less items).2.take (least - (firstRun less items).1.length))
    (firstRun less items).1).append_right
    ((firstRun less items).2.drop (least - (firstRun less items).1.length))
  rw [List.append_assoc, List.take_append_drop] at this
  exact this.trans (firstRun_perm less items)

theorem length_filledRun (less : α → α → Bool) (least : Nat) (a : α) (items : List α) :
    (filledRun less least (a :: items)).2.length ≤ items.length := by
  have := length_firstRun less a items
  simp [filledRun]
  omega

/-- The least length of a run in a list of so many items: half of them, and half of that, until
fewer than sixty-four are left, and one more if something was lost on the way. -/
def leastRun (n : Nat) : Nat :=
  if n < 64 then n else if n % 2 = 1 then leastOdd (n / 2) else leastRun (n / 2)
where
  leastOdd (n : Nat) : Nat := if n < 64 then n + 1 else leastOdd (n / 2)

end CodeAtlas.Search.Order
