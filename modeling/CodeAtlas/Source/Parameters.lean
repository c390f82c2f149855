import CodeAtlas.Code.Basic
import CodeAtlas.Source.Token

namespace CodeAtlas.Source

open Text

def cutAt (sep : Char) (cs : List Char) : List Char × List Char :=
  (cs.takeWhile (· ≠ sep), (cs.dropWhile (· ≠ sep)).drop 1)

def nameOr (default : String) (name : List Char) : String :=
  if name.isEmpty then default else String.ofList name

def startsKeyword (part : List Char) : Bool :=
  match wordChars? part with
  | some (_, ':' :: _) => true
  | _ => false

def readParameter (part : List Char) : Parameter :=
  match part with
  | '&' :: name => { name := nameOr "block" name, block := true }
  | '*' :: '*' :: name => { name := nameOr "options" name, splat := true, keyword := true }
  | '*' :: name => { name := nameOr "args" name, splat := true }
  | _ =>
    if startsKeyword part then
      let (key, value) := cutAt ':' part
      let value := trim value
      { name := String.ofList (trim key), keyword := true
        default? := if value.isEmpty then none else some (String.ofList value) }
    else if part.contains '=' then
      let (key, value) := cutAt '=' part
      { name := String.ofList (trim key), default? := some (String.ofList (trim value)) }
    else { name := String.ofList part }

def readParameters (params : List Char) : List Parameter :=
  (((splitOn ',' params).map trim).filter (!·.isEmpty)).map readParameter

end CodeAtlas.Source
