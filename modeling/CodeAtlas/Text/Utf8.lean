import CodeAtlas.Decimal.Binary
import CodeAtlas.Text.Quoted

namespace CodeAtlas.Text

/-- A character whose first bytes have been read: its bits so far, the number of bytes that are
still owed, and the least and the greatest value of the next one. -/
structure OpenChar where
  bits : Nat
  owed : Nat
  least : Nat
  most : Nat
  deriving DecidableEq, Repr

inductive Lead where
  | unreadable
  | whole (c : Char)
  | start (o : OpenChar)
  deriving DecidableEq, Repr

def leadByte (b : Nat) : Lead :=
  if b < 0x80 then .whole (Char.ofNat b)
  else if 0xC2 ≤ b ∧ b ≤ 0xDF then .start ⟨b % 32, 1, 0x80, 0xBF⟩
  else if b = 0xE0 then .start ⟨0, 2, 0xA0, 0xBF⟩
  else if b = 0xED then .start ⟨0xD, 2, 0x80, 0x9F⟩
  else if 0xE1 ≤ b ∧ b ≤ 0xEF then .start ⟨b % 16, 2, 0x80, 0xBF⟩
  else if b = 0xF0 then .start ⟨0, 3, 0x90, 0xBF⟩
  else if 0xF1 ≤ b ∧ b ≤ 0xF3 then .start ⟨b % 8, 3, 0x80, 0xBF⟩
  else if b = 0xF4 then .start ⟨4, 3, 0x80, 0x8F⟩
  else .unreadable

/-- Where the reader stands: the characters read so far, latest first, with `none` for an unreadable
place, and the character that is open. -/
abbrev Reading := List (Option Char) × Option OpenChar

def readLead (done : List (Option Char)) (b : Nat) : Reading :=
  match leadByte b with
  | .unreadable => (none :: done, none)
  | .whole c => (some c :: done, none)
  | .start o => (done, some o)

def readByte : Reading → Nat → Reading
  | (done, none), b => readLead done b
  | (done, some o), b =>
    if o.least ≤ b ∧ b ≤ o.most then
      let bits := o.bits * 64 + b % 64
      if o.owed ≤ 1 then (some (Char.ofNat bits) :: done, none)
      else (done, some ⟨bits, o.owed - 1, 0x80, 0xBF⟩)
    else readLead (none :: done) b

def readBytes (bytes : List UInt8) : List (Option Char) :=
  match bytes.foldl (fun r b => readByte r b.toNat) ([], none) with
  | (done, none) => done.reverse
  | (done, some _) => (none :: done).reverse

inductive Utf8Cause where
  | start
  | continuation
  | cutOff
  deriving DecidableEq, Repr

def Utf8Cause.text : Utf8Cause → String
  | start => "invalid start byte"
  | continuation => "invalid continuation byte"
  | cutOff => "unexpected end of data"

structure Utf8Fault where
  position : Nat
  bytes : List UInt8
  cause : Utf8Cause
  deriving DecidableEq, Repr

def Utf8Fault.message (f : Utf8Fault) : String :=
  let place := Decimal.natText f.position
  let subject :=
    match f.bytes with
    | [b] => "byte 0x" ++ String.ofList (hexDigits 2 b.toNat) ++ " in position " ++ place
    | bs => "bytes in position " ++ place ++ "-" ++ Decimal.natText (f.position + bs.length - 1)
  "'utf-8' codec can't decode " ++ subject ++ ": " ++ f.cause.text

/-- The first unreadable place from a position on, where the bytes `held` of an open character have
been read, latest first. -/
def faultFrom (position : Nat) (held : List UInt8) (o : Option OpenChar) :
    List UInt8 → Option Utf8Fault
  | [] => o.map fun _ => ⟨position - held.length, held.reverse, .cutOff⟩
  | b :: rest =>
    match o with
    | none =>
      match leadByte b.toNat with
      | .unreadable => some ⟨position, [b], .start⟩
      | .whole _ => faultFrom (position + 1) [] none rest
      | .start o => faultFrom (position + 1) [b] (some o) rest
    | some o =>
      if o.least ≤ b.toNat ∧ b.toNat ≤ o.most then
        if o.owed ≤ 1 then faultFrom (position + 1) [] none rest
        else faultFrom (position + 1) (b :: held) (some ⟨0, o.owed - 1, 0x80, 0xBF⟩) rest
      else some ⟨position - held.length, held.reverse, .continuation⟩

def utf8Fault? (bytes : List UInt8) : Option Utf8Fault := faultFrom 0 [] none bytes

def unifyFrom (done : List Char) : List Char → List Char
  | [] => done.reverse
  | '\r' :: '\n' :: rest => unifyFrom ('\n' :: done) rest
  | '\r' :: rest => unifyFrom ('\n' :: done) rest
  | c :: rest => unifyFrom (c :: done) rest

def unifyLineEnds (cs : List Char) : List Char := unifyFrom [] cs

def decode (bytes : ByteArray) : String :=
  String.ofList (unifyLineEnds ((readBytes bytes.toList).map fun c => c.getD (Char.ofNat 0xFFFD)))

def decode? (bytes : ByteArray) : Option String :=
  ((readBytes bytes.toList).mapM id).map fun cs => String.ofList (unifyLineEnds cs)

end CodeAtlas.Text
