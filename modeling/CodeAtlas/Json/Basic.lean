import CodeAtlas.OrderedMap

namespace CodeAtlas

/-- A text in the data. Escapes can write half of a character without the other half; a text with
such halves in it is kept as a list of codes. -/
inductive Json.Str where
  | text (s : String)
  | broken (codes : List Nat)
  deriving DecidableEq, Repr, Inhabited

namespace Json.Str

instance : Coe String Str := ⟨text⟩

def isHalf (code : Nat) : Bool := 0xD800 ≤ code && code < 0xE000

def ofCodes (codes : List Nat) : Str :=
  if codes.any isHalf then broken codes else text (String.ofList (codes.map Char.ofNat))

def text? : Str → Option String
  | text s => some s
  | broken _ => none

def legible : Str → String
  | text s => s
  | broken codes =>
    String.ofList (codes.map fun code => if isHalf code then '\uFFFD' else Char.ofNat code)

def codes : Str → List Nat
  | text s => s.toList.map Char.toNat
  | broken codes => codes

theorem codes_ofCodes_of_isHalf {codes : List Nat} (h : codes.any isHalf = true) :
    (ofCodes codes).codes = codes := by
  simp [ofCodes, h, Str.codes]

end Json.Str

inductive Json where
  | null
  | bool (b : Bool)
  | int (n : Int)
  | float (x : Float)
  | str (s : Json.Str)
  | arr (items : List Json)
  | obj (fields : List (Json.Str × Json))
  deriving Inhabited

namespace Json

abbrev Fields := List (Str × Json)

def Fields.get? (fields : Fields) (name : String) : Option Json := Assoc.get? (.text name) fields

def field? (v : Json) (name : String) : Option Json :=
  match v with
  | .obj fields => Fields.get? fields name
  | _ => none

/-- An object from the fields in the order they were written; a repeated name keeps its first place
and its last value. -/
def ofFields (fields : Fields) : Json :=
  .obj (fields.foldl (fun acc e => Assoc.insert e.1 e.2 acc) [])

mutual

def depth : Json → Nat
  | .arr items => depthOfItems items + 1
  | .obj fields => depthOfFields fields + 1
  | _ => 0

def depthOfItems : List Json → Nat
  | [] => 0
  | v :: rest => max (depth v) (depthOfItems rest)

def depthOfFields : List (Str × Json) → Nat
  | [] => 0
  | (_, v) :: rest => max (depth v) (depthOfFields rest)

end

mutual

def overlay (base : Option Json) : Json → Json
  | .obj fields =>
    match base with
    | some (.obj below) => .obj (merge below fields)
    | _ => .obj fields
  | v => v

def merge (base : Fields) : Fields → Fields
  | [] => base
  | (name, v) :: rest => merge (Assoc.insert name (overlay (Assoc.get? name base) v) base) rest

end

end Json

end CodeAtlas
