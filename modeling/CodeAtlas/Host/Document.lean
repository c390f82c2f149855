import CodeAtlas.Host.Document.Token
import CodeAtlas.Json.Reader

/-!
Settings files. A file holds an object in the JSON format, with rules of its own for numbers and
line breaks; a file that holds something else gives no settings.
-/

namespace CodeAtlas.Host.Document

open Text Decimal

/-- In a settings file a number with a power of ten is a number only if it has a fraction and the
power has a sign; otherwise it is taken as text. -/
def numberOf (n : Numeral) : Option Json :=
  match n.power with
  | none => Json.ofNumeral n
  | some p =>
    if n.fraction.isSome && p.sign.isSome then Json.ofNumeral n
    else
      let text := (if n.negative then ['-'] else []) ++ n.whole ++
        (n.fraction.map fun f => '.' :: f).getD [] ++ p.letter :: (p.sign.toList ++ p.digits)
      some (.str (String.ofList text))

def dialect : Json.Dialect where
  number := numberOf
  joins := false
  named := Json.constants ++ ["NaN", "Infinity", "-Infinity"].map fun s => (s, .str s)

/-- What neighbouring line breaks inside a quoted text stand for. A single break is a space; of more
the first is dropped. Separators of lines and paragraphs stay. -/
def folded : List Char → List Char
  | [] => []
  | first :: more =>
    (if first ≠ '\x85' then [first] else if more.isEmpty then [' '] else []) ++
      more.flatMap fun c => if c = '\x85' then ['\\', 'n'] else [c]

/-- Folds the line breaks of a text and drops the blanks around them. `gap` holds the blanks and
`breaks` the breaks that have been read and not been written. -/
def foldBreaks (gap breaks : List Char) : List Char → List Char
  | [] => if breaks.isEmpty then gap else folded breaks
  | c :: rest =>
    if isSpecialBreak c then foldBreaks [] (breaks ++ [c]) rest
    else if c = ' ' || c = '\t' then foldBreaks (gap ++ [c]) breaks rest
    else (if breaks.isEmpty then gap else folded breaks) ++ c :: foldBreaks [] [] rest

inductive Fault where
  | bytes (fault : ByteFault)
  | token (fault : TokenFault)
  | digits (count : Nat)
  deriving DecidableEq, Repr

def markText (file : String) (m : Mark) : String :=
  "\n  in \"" ++ file ++ "\", line " ++ natText (m.line + 1) ++ ", column " ++ natText (m.column + 1)

def Fault.message (file : String) : Fault → String
  | bytes (.undecodable fault) => fault.message
  | bytes (.unprintable code position) =>
    "unacceptable character #x" ++ String.ofList (hexDigits 4 code) ++
      ": special characters are not allowed\n  in \"" ++ file ++ "\", position " ++ natText position
  | token (.tab place) =>
    "while scanning for the next token\nfound character '\\t' that cannot start any token" ++
      markText file place
  | token (.separator start place) =>
    "while scanning a quoted scalar" ++ markText file start ++
      "\nfound unexpected document separator" ++ markText file place
  | token (.colon start place) =>
    "while parsing a flow mapping" ++ markText file start ++
      "\nexpected ',' or '\x7d', but got ':'" ++ markText file place
  | digits count =>
    "Exceeds the limit (4300 digits) for integer string conversion: value has " ++ natText count ++
      " digits; use sys.set_int_max_str_digits() to increase the limit"

def fault? (content : ByteArray) (text : List Char) : Option Fault :=
  let (ts, fault) := tokens text
  match byteFault? content.toList text, fault with
  | some (f, block), some g => if blockOf g.reach < block then some (.token g) else some (.bytes f)
  | some (f, _), none => some (.bytes f)
  | none, some g => some (.token g)
  | none, none => (longNumber? Json.maxIntegerDigits ts).map .digits

def read (content : ByteArray) : Except Fault Json :=
  let text := (decode content).toList
  match fault? content text with
  | some fault => .error fault
  | none =>
    let body := if text.head? = some '\uFEFF' then text.tail else text
    .ok ((Json.readWith dialect (foldBreaks [] [] body)).getD .null)

end CodeAtlas.Host.Document
