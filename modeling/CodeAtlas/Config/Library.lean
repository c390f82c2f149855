import CodeAtlas.Config.Basic
import CodeAtlas.Decimal.Shortest

namespace CodeAtlas.Config

structure Layer where
  file : String
  content : ByteArray

inductive Cause where
  | intType
  | intParsing
  | intTooLong
  | brokenText
  | intFromFloat
  | finiteNumber
  | floatType
  | floatParsing
  | stringType
  | listType
  | modelType
  | tooSmall
  | notAbove
  | tiersTooClose (maxBonus : Float)

def Cause.message? : Cause → Option String
  | .tiersTooClose bonus =>
    some ("Value error, match tier weights must be spaced further apart than the sum of bonus " ++
      "weights (" ++ Decimal.shortest bonus ++ ")")
  | _ => none

def Cause.text : Cause → String
  | .intType | .intParsing => "not a whole number"
  | .intTooLong => "too long a number"
  | .brokenText => "not a whole text"
  | .intFromFloat => "a number with a fraction"
  | .finiteNumber => "not a finite number"
  | .floatType | .floatParsing => "not a number"
  | .stringType => "not a text"
  | .listType => "not a list"
  | .modelType => "not a group of settings"
  | .tooSmall | .notAbove => "too small"
  | .tiersTooClose bonus => "tiers are closer than all bonuses together, " ++ Decimal.shortest bonus

structure Refusal where
  path : List String
  cause : Cause

def Refusal.text (r : Refusal) : String := ".".intercalate r.path ++ ": " ++ r.cause.text

inductive Bound (α : Type) where
  | free
  | atLeast (least : α)
  | above (limit : α)

def Bound.Holds {α : Type} [LE α] [LT α] : Bound α → α → Prop
  | .free, _ => True
  | .atLeast least, x => least ≤ x
  | .above limit, x => limit < x

instance {α : Type} [LE α] [LT α] [DecidableLE α] [DecidableLT α] (b : Bound α) (x : α) :
    Decidable (b.Holds x) :=
  match b with
  | .free => inferInstanceAs (Decidable True)
  | .atLeast least => inferInstanceAs (Decidable (least ≤ x))
  | .above limit => inferInstanceAs (Decidable (limit < x))

/-- What loading takes from libraries: the document in a settings file, the validation of a field
against its declaration, and the time limit in the environment. The paths of refused texts start at
their list. -/
structure Library (ε : Type) where
  document : Layer → Except ε Json
  int : Bound Int → Json → Except Cause Int
  float : Bound Float → Json → Except Cause Float
  text : Json → Except Cause Json.Str
  texts : Json → Except (List Refusal) (List Json.Str)
  timeLimit : Option String → Except (List Refusal) (Option Float)

end CodeAtlas.Config
