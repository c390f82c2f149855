import CodeAtlas.Search.Order.Merge

/-!
Putting a list in order by a comparison that need not compare everything. Runs that are in order
already are found, short ones are filled up, and neighbouring runs are merged. Every comparison has
one answer, so the result is fixed also where several orders would be as good.
-/

namespace CodeAtlas.Search.Order

variable {α : Type}

structure Run (α : Type) where
  start : Nat
  items : List α
  weight : Nat := 0

/-- The weight of the border between two runs in a list of `n` items: the first binary place in
which the middles of the runs, as parts of the list, differ. Both are given doubled. -/
def borderWeight (n a b : Nat) (places : Nat) : Nat :=
  match places with
  | 0 => 0
  | places + 1 =>
    if n ≤ a then borderWeight n (2 * (a - n)) (2 * (b - n)) places + 1
    else if n ≤ b then 1
    else borderWeight n (2 * a) (2 * b) places + 1

structure Pending (α : Type) where
  runs : List (Run α) := []
  kept : Nat := leapLength

namespace Pending

def join (less : α → α → Bool) (kept : Nat) (left right : Run α) : Run α × Nat :=
  let (items, kept) := mergeRuns less kept left.items right.items
  ({ start := left.start, items }, kept)

theorem countP_join (q : α → Bool) (less : α → α → Bool) (kept : Nat) (left right : Run α) :
    (join less kept left right).1.items.countP q = left.items.countP q + right.items.countP q :=
  countP_mergeRuns q less kept left.items right.items

def countP (q : α → Bool) (runs : List (Run α)) : Nat := (runs.flatMap Run.items).countP q

@[simp] theorem countP_nil (q : α → Bool) : countP q [] = 0 := rfl

@[simp] theorem countP_cons (q : α → Bool) (run : Run α) (runs : List (Run α)) :
    countP q (run :: runs) = run.items.countP q + countP q runs := by simp [countP]

def settle (less : α → α → Bool) (weight : Nat) (p : Pending α) : Pending α :=
  match _h : p.runs with
  | right :: left :: rest =>
    if weight < left.weight then
      let (run, kept) := join less p.kept left right
      settle less weight ⟨run :: rest, kept⟩
    else p
  | _ => p
termination_by p.runs.length
decreasing_by simp [_h]

theorem countP_settle (q : α → Bool) (less : α → α → Bool) (weight : Nat) (p : Pending α) :
    countP q (p.settle less weight).runs = countP q p.runs := by
  fun_induction settle less weight p <;> grind [countP_join, countP_cons]

def push (less : α → α → Bool) (n : Nat) (items : List α) (p : Pending α) : Pending α :=
  match p.runs with
  | [] => { p with runs := [{ start := 0, items }] }
  | last :: _ =>
    let size := last.items.length
    let middle := 2 * last.start + size
    let weight := borderWeight n middle (middle + size + items.length) (2 * n)
    let p := p.settle less weight
    { p with
      runs := { start := last.start + size, items } ::
        p.runs.modifyHead fun run => { run with weight } }

theorem countP_push (q : α → Bool) (less : α → α → Bool) (n : Nat) (items : List α)
    (p : Pending α) :
    countP q (p.push less n items).runs = countP q p.runs + items.countP q := by
  have modify (runs : List (Run α)) (w : Nat) :
      countP q (runs.modifyHead fun run => { run with weight := w }) = countP q runs := by
    cases runs <;> simp
  unfold push
  split
  · simp [*]
  · rename_i h
    simp [modify, countP_settle, h, Nat.add_comm]

def finish (less : α → α → Bool) (kept : Nat) (runs : List (Run α)) : List α :=
  match runs with
  | [] => []
  | [run] => run.items
  | [right, left] => (mergeRuns less kept left.items right.items).1
  | right :: left :: first :: rest =>
    if first.items.length < right.items.length then
      let (run, kept) := join less kept first left
      finish less kept (right :: run :: rest)
    else
      let (run, kept) := join less kept left right
      finish less kept (run :: first :: rest)
termination_by runs.length

theorem countP_finish (q : α → Bool) (less : α → α → Bool) (kept : Nat) (runs : List (Run α)) :
    (finish less kept runs).countP q = countP q runs := by
  fun_induction finish less kept runs <;>
    grind [countP_join, countP_mergeRuns, countP_nil, countP_cons]

end Pending

def runsOf (less : α → α → Bool) (n : Nat) (p : Pending α) (items : List α) : Pending α :=
  match items with
  | [] => p
  | a :: items =>
    let next := filledRun less (leastRun n) (a :: items)
    runsOf less n (p.push less n next.1) next.2
termination_by items.length
decreasing_by exact Nat.lt_succ_of_le (length_filledRun ..)

theorem countP_runsOf (q : α → Bool) (less : α → α → Bool) (n : Nat) (p : Pending α)
    (items : List α) :
    Pending.countP q (runsOf less n p items).runs = Pending.countP q p.runs + items.countP q := by
  fun_induction runsOf less n p items with
  | case1 => simp
  | case2 p a items next ih =>
    have := (filledRun_perm less (leastRun n) (a :: items)).countP_eq q
    grind [Pending.countP_push]

def sort (less : α → α → Bool) (items : List α) : List α :=
  let p := runsOf less items.length {} items
  Pending.finish less p.kept p.runs

theorem sort_perm (less : α → α → Bool) (items : List α) :
    (sort less items).Perm items := by
  classical
  refine List.perm_iff_count.mpr fun a => ?_
  simp [sort, List.count, Pending.countP_finish, countP_runsOf]

end CodeAtlas.Search.Order
