import CodeAtlas.Json.Reader

namespace CodeAtlas.Json

inductive Nest where
  | array
  | object
  deriving DecidableEq, Repr

def Nest.message : Nest → String
  | array => "maximum recursion depth exceeded while decoding a JSON array from a unicode string"
  | object => "maximum recursion depth exceeded while decoding a JSON object from a unicode string"

inductive Quoting where
  | outside
  | inside
  | escaped
  deriving DecidableEq, Repr

/-- The first bracket inside more than `free` others, and the text before it, which is completed by
a value in its place and the closing brackets that it owes. `before` is the text before, in reverse,
and `owed` are the closing brackets. -/
def deepBracket? (free : Nat) (before owed : List Char) (q : Quoting) :
    List Char → Option (Nest × List Char)
  | [] => none
  | c :: rest =>
    match q with
    | .escaped => deepBracket? free (c :: before) owed .inside rest
    | .inside =>
      let q := if c = '"' then .outside else if c = '\\' then .escaped else .inside
      deepBracket? free (c :: before) owed q rest
    | .outside =>
      if c = '[' ∨ c = '\x7b' then
        match free with
        | 0 =>
          some (if c = '[' then .array else .object, before.reverse ++ "null".toList ++ owed)
        | free + 1 =>
          deepBracket? free (c :: before) ((if c = '[' then ']' else '\x7d') :: owed) .outside rest
      else if c = ']' ∨ c = '\x7d' then
        deepBracket? (free + 1) (c :: before) owed.tail .outside rest
      else deepBracket? free (c :: before) owed (if c = '"' then .inside else .outside) rest

def tooDeep? (most : Nat) (text : List Char) : Option Nest :=
  match deepBracket? most [] [] .outside text with
  | some (nest, completed) => if (readWith standard completed).isSome then some nest else none
  | none => none

end CodeAtlas.Json
