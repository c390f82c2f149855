import CodeAtlas.Text.Range
import CodeAtlas.Text.Utf8

namespace CodeAtlas.Host.Document

open Text

def pieceSize : Nat := 8192

def blockOf (position : Nat) : Nat :=
  if position < 8192 then 0 else (position - 8192) / 4096 + 1

/-- The number of characters that a start of a file stands for. A carriage return at its end waits
for what follows. -/
def charCount (bytes : List UInt8) : Nat :=
  let cs := unifyLineEnds ((readBytes bytes).filterMap id)
  if bytes.getLast? = some 13 then cs.length - 1 else cs.length

/-- The bytes at the end of a piece that wait for the next one although they are unreadable so far:
the start of a character, or two bytes that would start half of one. -/
def waiting? (piece : List UInt8) (f : Utf8Fault) : Option (List UInt8) :=
  match f.cause, piece.drop f.position with
  | .cutOff, tail => some tail
  | .continuation, [a, b] => if a = 0xED ∧ 0xA0 ≤ b ∧ b ≤ 0xBF then some [a, b] else none
  | _, _ => none

/-- The first unreadable place of a file, counted from the start of the piece in which it is
noticed, and the number of bytes before that piece. The bytes `held` waited at the end of the piece
before; `done` bytes were read so far. -/
def pieceFault? (held : List UInt8) (done : Nat) (fuel : Nat) (rest : List UInt8) :
    Option (Utf8Fault × Nat) :=
  match fuel with
  | 0 => none
  | fuel + 1 =>
    let piece := held ++ rest.take pieceSize
    let more := fun held => pieceFault? held (done + pieceSize) fuel (rest.drop pieceSize)
    match utf8Fault? piece with
    | none => if rest.isEmpty then none else more []
    | some f =>
      match if rest.isEmpty then none else waiting? piece f with
      | some tail => more tail
      | none => some (f, done - held.length)

/-- A character that may not stand in the text: a control character other than a tab or a line
break, or one of the two codes at the end of the basic plane. -/
def isUnprintable (c : Char) : Bool :=
  covers [(0x0, 0x8), (0xB, 0xC), (0xE, 0x1F), (0x7F, 0x84), (0x86, 0x9F), (0xFFFE, 0xFFFF)] c.toNat

inductive ByteFault where
  | undecodable (fault : Utf8Fault)
  | unprintable (code position : Nat)
  deriving DecidableEq, Repr

/-- The first fault among the bytes of a file, with the block in which it is noticed. Within a block
all bytes are decoded before the characters are looked at. -/
def byteFault? (bytes : List UInt8) (text : List Char) : Option (ByteFault × Nat) :=
  let undecodable :=
    (pieceFault? [] 0 (bytes.length / pieceSize + 2) bytes).map fun (f, before) =>
      (ByteFault.undecodable f, blockOf (charCount (bytes.take before)))
  let unprintable :=
    (text.find? isUnprintable).map fun c =>
      let position := (text.takeWhile (!isUnprintable ·)).length
      (ByteFault.unprintable c.toNat position, blockOf position)
  match undecodable, unprintable with
  | some (f, block), some (g, block') => if block ≤ block' then some (f, block) else some (g, block')
  | some f, none => some f
  | none, g => g

end CodeAtlas.Host.Document
