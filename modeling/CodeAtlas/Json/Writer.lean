import CodeAtlas.Json.Basic
import CodeAtlas.Decimal.Shortest
import CodeAtlas.Text.Quoted

namespace CodeAtlas.Json

open Text Decimal

def unitEscape (u : Nat) : List Char := '\\' :: 'u' :: hexDigits 4 u

def escapeCode (code : Nat) : List Char :=
  match code with
  | 0x22 => ['\\', '"']
  | 0x5C => ['\\', '\\']
  | 0x0A => ['\\', 'n']
  | 0x0D => ['\\', 'r']
  | 0x09 => ['\\', 't']
  | 0x08 => ['\\', 'b']
  | 0x0C => ['\\', 'f']
  | n =>
    if 32 ≤ n ∧ n < 127 then [Char.ofNat n]
    else if n < 0x10000 then unitEscape n
    else
      unitEscape (0xD800 + (n - 0x10000) / 0x400) ++ unitEscape (0xDC00 + (n - 0x10000) % 0x400)

def quote (s : Str) : List Char := '"' :: (s.codes.flatMap escapeCode ++ ['"'])

def floatChars (x : Float) : List Char :=
  match Binary.ofFloat x with
  | .nan => "NaN".toList
  | .infinite negative => (if negative then "-Infinity" else "Infinity").toList
  | b => shortestChars b

mutual

def render : Json → List Char
  | .null => "null".toList
  | .bool b => (if b then "true" else "false").toList
  | .int n => intChars n
  | .float x => floatChars x
  | .str s => quote s
  | .arr items => '[' :: (renderItems items ++ [']'])
  | .obj fields => '\x7b' :: (renderFields fields ++ ['\x7d'])

def renderItems : List Json → List Char
  | [] => []
  | [v] => render v
  | v :: rest => render v ++ ',' :: ' ' :: renderItems rest

def renderFields : Fields → List Char
  | [] => []
  | [(name, v)] => quote name ++ ':' :: ' ' :: render v
  | (name, v) :: rest => quote name ++ ':' :: ' ' :: (render v ++ ',' :: ' ' :: renderFields rest)

end

def write (v : Json) : String := String.ofList (render v)

end CodeAtlas.Json
