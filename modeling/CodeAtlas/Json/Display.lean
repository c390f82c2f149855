import CodeAtlas.Json.Writer
import CodeAtlas.Text.Quoted

namespace CodeAtlas.Json

open Text Decimal

mutual

def shown : Json → List Char
  | .null => "None".toList
  | .bool b => (if b then "True" else "False").toList
  | .int n => intChars n
  | .float x => (shortest x).toList
  | .str s => quotedCodes s.codes
  | .arr items => '[' :: (shownItems items ++ [']'])
  | .obj fields => '\x7b' :: (shownFields fields ++ ['\x7d'])

def shownItems : List Json → List Char
  | [] => []
  | [v] => shown v
  | v :: rest => shown v ++ ',' :: ' ' :: shownItems rest

def shownFields : Fields → List Char
  | [] => []
  | [(name, v)] => quotedCodes name.codes ++ ':' :: ' ' :: shown v
  | (name, v) :: rest => quotedCodes name.codes ++ ':' :: ' ' :: (shown v ++ ',' :: ' ' :: shownFields rest)

end

def display : Json → Str
  | .str s => s
  | v => .text (String.ofList (shown v))

end CodeAtlas.Json
