import Memberwise.Bytes

/-!
# UTF-8

`utf8` gives the bytes of a text. `lossy` reads any byte sequence as text: each longest run of bytes that starts a
well-formed sequence without completing it becomes one U+FFFD, and so does each byte that can start nothing.

The reader is a scanner with one byte of input per step. Between two characters its state is `none`; inside a
sequence it knows how many bytes are missing and the range that the next one must lie in. The ranges exclude
overlong forms, surrogates and numbers above U+10FFFF, so a completed sequence always denotes a character.
-/

namespace Memberwise.Text

/-- The bytes of a text. -/
def utf8 (s : String) : Bytes := s.toList.flatMap String.utf8EncodeChar

/-- The character that stands for ill-formed input. -/
def replacement : Char := '\uFFFD'

/-- An unfinished sequence: the bytes still missing, the range of the next one, and the bits read so far. -/
structure Pending where
  missing : Nat
  low : UInt8
  high : UInt8
  bits : Nat
  deriving DecidableEq, Repr

namespace Pending

/-- The state after a byte that begins a character: the character is complete, the sequence goes on, or the byte
begins nothing. -/
def start (b : UInt8) : List Char × Option Pending :=
  if b < 0x80 then ([Char.ofNat b.toNat], none)
  else if b < 0xC2 then ([replacement], none)
  else if b < 0xE0 then ([], some ⟨1, 0x80, 0xBF, b.toNat % 32⟩)
  else if b = 0xE0 then ([], some ⟨2, 0xA0, 0xBF, 0⟩)
  else if b = 0xED then ([], some ⟨2, 0x80, 0x9F, b.toNat % 16⟩)
  else if b < 0xF0 then ([], some ⟨2, 0x80, 0xBF, b.toNat % 16⟩)
  else if b = 0xF0 then ([], some ⟨3, 0x90, 0xBF, 0⟩)
  else if b < 0xF4 then ([], some ⟨3, 0x80, 0xBF, b.toNat % 8⟩)
  else if b = 0xF4 then ([], some ⟨3, 0x80, 0x8F, b.toNat % 8⟩)
  else ([replacement], none)

/-- One byte of input: the characters that it completes and the state after it. A byte out of range ends the
sequence before it and is then read as a first byte. -/
def step : Option Pending → UInt8 → List Char × Option Pending
  | none, b => start b
  | some p, b =>
    if p.low ≤ b ∧ b ≤ p.high then
      let bits := p.bits * 64 + b.toNat % 64
      if p.missing ≤ 1 then ([Char.ofNat bits], none) else ([], some ⟨p.missing - 1, 0x80, 0xBF, bits⟩)
    else
      let (out, next) := start b
      (replacement :: out, next)

end Pending

/-- A scan under way: the characters so far, last one first, and the state. -/
structure Scan where
  out : List Char
  state : Option Pending

namespace Scan

/-- The scan after one more byte. -/
def push (s : Scan) (b : UInt8) : Scan :=
  let (out, state) := Pending.step s.state b
  ⟨out.reverse ++ s.out, state⟩

/-- All characters, once the input has ended. -/
def finish (s : Scan) : List Char :=
  match s.state with
  | none => s.out.reverse
  | some _ => (replacement :: s.out).reverse

end Scan

/-- The text of a byte sequence, with ill-formed parts replaced. -/
def lossy (bs : Bytes) : String := String.ofList (bs.foldl Scan.push ⟨[], none⟩).finish

end Memberwise.Text
