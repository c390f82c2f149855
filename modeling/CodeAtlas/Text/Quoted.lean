import CodeAtlas.Text.Printable

namespace CodeAtlas.Text

def hexDigit (n : Nat) : Char := if n < 10 then Char.ofNat (48 + n) else Char.ofNat (87 + n)

def hexDigits : Nat → Nat → List Char
  | 0, _ => []
  | width + 1, n => hexDigits width (n / 16) ++ [hexDigit (n % 16)]

def quoteMark (codes : List Nat) : Char :=
  if codes.contains 0x27 && !codes.contains 0x22 then '"' else '\x27'

def quotedCode (mark : Char) (code : Nat) : List Char :=
  let c := Char.ofNat code
  if c.toNat = code && (c = mark || c = '\\') then ['\\', c]
  else if code = 0x0A then ['\\', 'n']
  else if code = 0x0D then ['\\', 'r']
  else if code = 0x09 then ['\\', 't']
  else if c.toNat = code && isPrintable c then [c]
  else if code < 0x100 then '\\' :: 'x' :: hexDigits 2 code
  else if code < 0x10000 then '\\' :: 'u' :: hexDigits 4 code
  else '\\' :: 'U' :: hexDigits 8 code

def quotedCodes (codes : List Nat) : List Char :=
  let mark := quoteMark codes
  mark :: (codes.flatMap (quotedCode mark) ++ [mark])

def quoted (s : String) : String := String.ofList (quotedCodes (s.toList.map Char.toNat))

end CodeAtlas.Text
