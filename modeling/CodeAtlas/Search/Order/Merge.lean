import CodeAtlas.Search.Order.Run

namespace CodeAtlas.Search.Order

variable {α : Type}

/-- Distances from a place, each about twice the one before, as long as there is a `hit` at them;
the last with a hit and the next one. -/
def stride (hit : Nat → Bool) (limit last next : Nat) : Nat × Nat :=
  if next < limit ∧ hit next then stride hit limit next (2 * next + 1) else (last, min next limit)
termination_by limit - next

def gallop (before : α → Bool) (items : List α) (hint : Nat) : Nat :=
  let isBefore := fun n => items[n]?.any before
  if isBefore hint then
    let (last, next) := stride (fun d => isBefore (hint + d)) (items.length - hint) 0 1
    placeIn before items (hint + last + 1) (hint + next)
  else
    let (last, next) := stride (fun d => !isBefore (hint - d)) (hint + 1) 0 1
    placeIn before items (hint + 1 - next) (hint - last)

def gallopBack (before : α → Bool) (items : List α) : Nat :=
  items.length - gallop before items.reverse (items.length - 1)

def leapLength : Nat := 7

inductive Pace where
  | steps (left right : Nat)
  | leaps
  deriving DecidableEq, Repr

structure Patience where
  kept : Nat := leapLength
  current : Nat := leapLength
  deriving DecidableEq, Repr

namespace Patience

def start (kept : Nat) : Patience := ⟨kept, kept⟩

def more (p : Patience) : Patience := { p with current := p.current + 1 }

def leap (p : Patience) : Patience :=
  let n := if 1 < p.current then p.current - 1 else p.current
  ⟨n, n⟩

def rest (p : Patience) : Patience := ⟨p.current + 1, p.current + 1⟩

end Patience

def afterLeap (p : Patience) (left right : Nat) : Patience × Pace :=
  if leapLength ≤ left ∨ leapLength ≤ right then (p, .leaps) else (p.rest, .steps 0 0)

def onto (done : List α) (m : List α × Nat) : List α × Nat := (done ++ m.1, m.2)

def mergeForth (less : α → α → Bool) (p : Patience) (pace : Pace) (as bs : List α) :
    List α × Nat :=
  match as, bs with
  | [], bs => (bs, p.kept)
  | as, [] => (as, p.kept)
  | a :: as, b :: bs =>
    match pace with
    | .steps left right =>
      if less b a then
        if bs.isEmpty then (b :: a :: as, p.kept)
        else if p.current ≤ right + 1 then onto [b] (mergeForth less p.more .leaps (a :: as) bs)
        else onto [b] (mergeForth less p (.steps 0 (right + 1)) (a :: as) bs)
      else
        if as.length = 1 then (a :: b :: bs ++ as, p.kept)
        else if p.current ≤ left + 1 then onto [a] (mergeForth less p.more .leaps as (b :: bs))
        else onto [a] (mergeForth less p (.steps (left + 1) 0) as (b :: bs))
    | .leaps =>
      let p := p.leap
      let n := gallop (fun v => !less b v) (a :: as) 0
      let done := (a :: as).take n
      match _h : (a :: as).drop n with
      | [] => (done ++ b :: bs, p.kept)
      | a :: as =>
        if n ≠ 0 ∧ as.isEmpty then (done ++ b :: bs ++ [a], p.kept)
        else if bs.isEmpty then (done ++ b :: a :: as, p.kept)
        else
          let m := gallop (fun v => less v a) bs 0
          let done := done ++ b :: bs.take m
          if (bs.drop m).isEmpty then (done ++ a :: as, p.kept)
          else if as.length = 1 then (done ++ a :: bs.drop m ++ as, p.kept)
          else
            let next := afterLeap p n m
            onto (done ++ [a]) (mergeForth less next.1 next.2 as (bs.drop m))
termination_by as.length + bs.length
decreasing_by
  all_goals simp
  have := congrArg List.length _h
  simp at this
  omega

theorem countP_take (q : α → Bool) (n : Nat) (items : List α) :
    (items.take n).countP q = items.countP q - (items.drop n).countP q := by
  conv => rhs; lhs; rw [← List.take_append_drop n items, List.countP_append]
  omega

theorem countP_drop_le (q : α → Bool) (n : Nat) (items : List α) :
    (items.drop n).countP q ≤ items.countP q := (List.drop_sublist n items).countP_le

theorem countP_mergeForth (q : α → Bool) (less : α → α → Bool) (p : Patience) (pace : Pace)
    (as bs : List α) :
    (mergeForth less p pace as bs).1.countP q = as.countP q + bs.countP q := by
  fun_induction mergeForth less p pace as bs <;>
    grind [onto, countP_take, countP_drop_le]

/-- Merges two runs from their ends, all lists in reverse. The first item of the right run is taken
to be the first of all. -/
def mergeBack (less : α → α → Bool) (p : Patience) (pace : Pace) (as bs : List α) :
    List α × Nat :=
  match as, bs with
  | [], bs => (bs, p.kept)
  | as, [] => (as, p.kept)
  | a :: as, b :: bs =>
    match pace with
    | .steps left right =>
      if less b a then
        if as.isEmpty then (a :: b :: bs, p.kept)
        else if p.current ≤ left + 1 then onto [a] (mergeBack less p.more .leaps as (b :: bs))
        else onto [a] (mergeBack less p (.steps (left + 1) 0) as (b :: bs))
      else
        if bs.length = 1 then (b :: a :: as ++ bs, p.kept)
        else if p.current ≤ right + 1 then onto [b] (mergeBack less p.more .leaps (a :: as) bs)
        else onto [b] (mergeBack less p (.steps 0 (right + 1)) (a :: as) bs)
    | .leaps =>
      let p := p.leap
      let n := gallopBack (fun v => !less b v) (a :: as)
      let done := (a :: as).take n
      match _h : (a :: as).drop n with
      | [] => (done ++ b :: bs, p.kept)
      | a :: as =>
        if bs.length = 1 then (done ++ b :: a :: as ++ bs, p.kept)
        else
          let m := gallopBack (fun v => less v a) bs
          let done := done ++ b :: bs.take m
          if m ≠ 0 ∧ (bs.drop m).length ≤ 1 then (done ++ a :: as ++ bs.drop m, p.kept)
          else if as.isEmpty then (done ++ a :: bs.drop m, p.kept)
          else
            let next := afterLeap p n m
            onto (done ++ [a]) (mergeBack less next.1 next.2 as (bs.drop m))
termination_by as.length + bs.length
decreasing_by
  all_goals simp
  have := congrArg List.length _h
  simp at this
  omega

theorem countP_mergeBack (q : α → Bool) (less : α → α → Bool) (p : Patience) (pace : Pace)
    (as bs : List α) :
    (mergeBack less p pace as bs).1.countP q = as.countP q + bs.countP q := by
  fun_induction mergeBack less p pace as bs <;>
    grind [onto, countP_take, countP_drop_le]

/-- Merges two runs, the shorter one into the longer. The first item of all is the first of the
right run, and the last of all is the last of the left run. -/
def mergeInner (less : α → α → Bool) (kept : Nat) (as bs : List α) : List α × Nat :=
  match as.reverse, bs with
  | last :: as', b :: bs' =>
    if as'.isEmpty ∨ bs'.isEmpty then (bs ++ as, kept)
    else if as.length ≤ bs.length then
      onto [b] (mergeForth less (.start kept) (.steps 0 0) as bs')
    else
      let m := mergeBack less (.start kept) (.steps 0 0) as' bs.reverse
      (m.1.reverse ++ [last], m.2)
  | _, _ => (as ++ bs, kept)

theorem countP_mergeInner (q : α → Bool) (less : α → α → Bool) (kept : Nat) (as bs : List α) :
    (mergeInner less kept as bs).1.countP q = as.countP q + bs.countP q := by
  unfold mergeInner
  split
  · rename_i last as' b bs' h
    have : as = as'.reverse ++ [last] := by simpa using congrArg List.reverse h
    subst this
    grind [onto, countP_mergeForth, countP_mergeBack]
  · simp

def mergeRuns (less : α → α → Bool) (kept : Nat) (as bs : List α) : List α × Nat :=
  let n := bs.head?.elim 0 fun b => gallop (fun v => !less b v) as 0
  let m := as.getLast?.elim 0 fun a => gallop (fun v => less v a) bs (bs.length - 1)
  let inner := mergeInner less kept (as.drop n) (bs.take m)
  (as.take n ++ inner.1 ++ bs.drop m, inner.2)

theorem countP_mergeRuns (q : α → Bool) (less : α → α → Bool) (kept : Nat) (as bs : List α) :
    (mergeRuns less kept as bs).1.countP q = as.countP q + bs.countP q := by
  simp only [mergeRuns]
  grind [countP_take, countP_drop_le, countP_mergeInner]

end CodeAtlas.Search.Order
