import CodeAtlas.Text.Range
import CodeAtlas.Text.Split

namespace CodeAtlas.Text.Wildcard

inductive Piece where
  | char (c : Char)
  | any
  | star
  | oneOf (negated : Bool) (ranges : List (Nat × Nat))
  deriving DecidableEq, Repr

/-- What is listed between brackets, cut at the hyphens that make ranges: a hyphen makes none if
fewer than `skip` characters stand before it. `done` is the start of the present part, in reverse. -/
def cutFrom (skip : Nat) (done : List Char) : List Char → List (List Char)
  | [] => [done.reverse]
  | c :: rest =>
    if skip = 0 ∧ c = '-' then done.reverse :: cutFrom 2 [] rest
    else cutFrom (skip - 1) (c :: done) rest

def keepLastHyphen : List (List Char) → List (List Char)
  | [c, []] => [c ++ ['-']]
  | c :: rest => c :: keepLastHyphen rest
  | [] => []

def dropEmptyRanges : List (List Char) → List (List Char)
  | [] => []
  | c :: rest =>
    match dropEmptyRanges rest with
    | [] => [c]
    | d :: more =>
      match c.getLast?, d.head? with
      | some first, some last =>
        if last < first then (c.dropLast ++ d.tail) :: more else c :: d :: more
      | _, _ => c :: d :: more

def rangesOf : List (List Char) → List (Nat × Nat)
  | [] => []
  | [c] => c.map fun a => (a.toNat, a.toNat)
  | c :: d :: more =>
    c.dropLast.map (fun a => (a.toNat, a.toNat)) ++
      match c.getLast?, d with
      | some first, last :: d => (first.toNat, last.toNat) :: rangesOf (d :: more)
      | _, _ => ('-'.toNat, '-'.toNat) :: rangesOf (d :: more)
termination_by parts => parts.length

/-- The set that a list between brackets describes. An exclamation mark in front, also one that came
there when an empty range was taken out, negates it. -/
def setOf (body : List Char) : Piece :=
  let parts := cutFrom (if body.head? = some '!' then 2 else 1) [] body
  match dropEmptyRanges (keepLastHyphen parts) with
  | ('!' :: c) :: more => .oneOf true (rangesOf (c :: more))
  | parts => .oneOf false (rangesOf parts)

/-- A set whose opening bracket has been read, and the rest of the pattern. A closing bracket that
comes first belongs to the set. -/
def readSet? (cs : List Char) : Option (Piece × List Char) :=
  let start :=
    match cs with
    | '!' :: ']' :: _ => 2
    | '!' :: _ => 1
    | ']' :: _ => 1
    | _ => 0
  let more := cs.drop start
  match more.dropWhile (· ≠ ']') with
  | [] => none
  | _ :: rest => some (setOf (cs.take start ++ more.takeWhile (· ≠ ']')), rest)

/-- The pieces of a pattern. `skip` characters belong to a set already read. A bracket that is not
closed stands for itself. -/
def readFrom : Nat → List Char → List Piece
  | _, [] => []
  | skip + 1, _ :: rest => readFrom skip rest
  | 0, c :: rest =>
    match c with
    | '*' => .star :: readFrom 0 rest
    | '?' => .any :: readFrom 0 rest
    | '[' =>
      match readSet? rest with
      | some (set, after) => set :: readFrom (rest.length - after.length) rest
      | none => .char c :: readFrom 0 rest
    | _ => .char c :: readFrom 0 rest

inductive Fault where
  | doubleStar
  deriving DecidableEq, Repr

def Fault.message : Fault → String
  | .doubleStar => "Invalid pattern: '**' can only be an entire path component"

def read (pattern : List Char) : Except Fault (List Piece) :=
  if occursIn ['*', '*'] pattern then .error .doubleStar else .ok (readFrom 0 pattern)

def Piece.admits (c : Char) : Piece → Bool
  | char d => c = d
  | any => true
  | star => false
  | oneOf negated ranges => covers ranges c.toNat != negated

def fits : List Piece → List Char → Bool
  | [], name => name.isEmpty
  | .star :: ps, [] => fits ps []
  | .star :: ps, c :: rest => fits ps (c :: rest) || fits (.star :: ps) rest
  | _ :: _, [] => false
  | p :: ps, c :: rest => p.admits c && fits ps rest
termination_by ps name => ps.length + name.length

theorem fits_map_char_iff {cs name : List Char} :
    fits (cs.map .char) name = true ↔ name = cs := by
  induction cs generalizing name with
  | nil => simp [fits]
  | cons c cs ih =>
    cases name with
    | nil => simp [fits]
    | cons d name => simp [fits, Piece.admits, ih]

/-- Which ends of a name fit a piece and what comes behind it, the whole name first, given which of
them fit what comes behind. -/
def row (p : Piece) : List Char → List Bool → List Bool
  | [], below => [p = .star && below.headD false]
  | c :: rest, below =>
    let more := row p rest below.tail
    (if p = .star then below.headD false || more.headD false
     else p.admits c && below.tail.headD false) :: more

def rows (ps : List Piece) (name : List Char) : List Bool :=
  ps.foldr (fun p below => row p name below) (name.map (fun _ => false) ++ [true])

def fitsByRows (ps : List Piece) (name : List Char) : Bool := (rows ps name).headD false

theorem tail_rows (ps : List Piece) (c : Char) (rest : List Char) :
    (rows ps (c :: rest)).tail = rows ps rest := by
  induction ps with
  | nil => simp [rows]
  | cons p ps ih =>
    change (row p (c :: rest) (rows ps (c :: rest))).tail = row p rest (rows ps rest)
    simp [row, ih]

theorem fitsByRows_eq_fits (ps : List Piece) (name : List Char) :
    fitsByRows ps name = fits ps name := by
  fun_induction fits ps name with
  | case1 name => cases name <;> simp [fitsByRows, rows]
  | case2 ps ih => simpa [fitsByRows, rows, row] using ih
  | case3 ps c rest ih₁ ih₂ =>
    rw [← ih₁, ← ih₂]
    change (row .star (c :: rest) (rows ps (c :: rest))).headD false = _
    simp only [row, tail_rows, fitsByRows]
    rfl
  | case4 p ps h =>
    simp [fitsByRows, rows, row, show p ≠ .star from h]
  | case5 p ps c rest h ih =>
    rw [← ih]
    change (row p (c :: rest) (rows ps (c :: rest))).headD false = _
    simp [row, tail_rows, fitsByRows, show p ≠ .star from h]

end CodeAtlas.Text.Wildcard
