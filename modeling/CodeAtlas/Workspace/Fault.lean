import CodeAtlas.Decimal.Binary
import CodeAtlas.Text.Quoted

namespace CodeAtlas.Workspace

open Text Decimal

inductive PathCause where
  | missing
  | taken
  | notDirectory
  | isDirectory
  | tooLong
  | nullByte
  | halves (position : Nat) (codes : List Nat)
  deriving DecidableEq, Repr

structure PathFault where
  cause : PathCause
  path : String
  deriving DecidableEq, Repr

namespace PathFault

def isNoPath (f : PathFault) : Bool :=
  match f.cause with
  | .nullByte | .halves _ _ => true
  | _ => false

def numbered (number : Nat) (words path : String) : String :=
  "[Errno " ++ natText number ++ "] " ++ words ++ ": " ++ quoted path

def message (f : PathFault) : String :=
  match f.cause with
  | .missing => numbered 2 "No such file or directory" f.path
  | .taken => numbered 17 "File exists" f.path
  | .notDirectory => numbered 20 "Not a directory" f.path
  | .isDirectory => numbered 21 "Is a directory" f.path
  | .tooLong => numbered 36 "File name too long" f.path
  | .nullByte => "embedded null byte"
  | .halves position codes =>
    let subject :=
      match codes with
      | [_] => "character " ++ String.ofList (quotedCodes codes) ++ " in position " ++ natText position
      | _ =>
        "characters in position " ++ natText position ++ "-" ++
          natText (position + codes.length - 1)
    "'utf-8' codec can't encode " ++ subject ++ ": surrogates not allowed"

end PathFault

end CodeAtlas.Workspace
