import CodeAtlas.Host.Document
import CodeAtlas.Host.EnvFile
import CodeAtlas.Host.Value
import CodeAtlas.Text.Case

namespace CodeAtlas.Host

open Text Config

def timeLimit (value : Option String) : Except (List Refusal) (Option Float) :=
  match value with
  | none => .ok none
  | some text =>
    match floatOfText? text with
    | some x => .ok (some x)
    | none => .error [⟨["index_timeout_seconds"], .floatParsing⟩]

def library : Library Document.Fault where
  document l := Document.read l.content
  int := checked readInt
  float := checked readFloat
  text := readString
  texts := readStrings
  timeLimit := timeLimit

def fileVariables (environment : List (String × String)) (file : Option ByteArray) :
    Except Utf8Fault EnvFile.Variables :=
  match file with
  | none => .ok ∅
  | some content =>
    match utf8Fault? content.toList with
    | some fault => .error fault
    | none => .ok (EnvFile.read environment (decode content))

/-- The value of a variable, whose name counts regardless of letter case; of several the last. The
environment comes before the file that adds to it. -/
def lookUp? (environment : List (String × String)) (file : Option ByteArray) (name : String) :
    Except Utf8Fault (Option String) := do
  let isNamed := fun (other : String) => lower other.toList == lower name.toList
  let vars ← fileVariables environment file
  return ((environment.reverse.find? fun e => isNamed e.1).map Prod.snd).or
    ((vars.entries.reverse.find? fun e => isNamed e.1).bind Prod.snd)

end CodeAtlas.Host
