/-!
Text of bytes. `Utf8.text?` reads well-formed UTF-8 only; `Utf8.lossyText` reads any bytes and
puts one replacement character where no character can be read.
-/

namespace Lineage.Utf8

/-- The text of well-formed UTF-8, and nothing otherwise. -/
def text? (bytes : ByteArray) : Option String :=
  String.fromUTF8? bytes

/-- Stands for bytes that are no character. -/
def replacement : Char := Char.ofNat 0xFFFD

/-- What a first byte above the ASCII range announces. -/
structure Lead where
  /-- The number of bytes that follow. -/
  tails : Nat
  /-- The bits that the first byte contributes. -/
  bits : Nat
  /-- The least value of the second byte: a smaller one would spell a shorter character. -/
  low : Nat := 0x80
  /-- The greatest value of the second byte: a larger one would leave the code space. -/
  high : Nat := 0xBF

def lead? (byte : Nat) : Option Lead :=
  if byte < 0xC2 then none
  else if byte < 0xE0 then some { tails := 1, bits := byte - 0xC0 }
  else if byte = 0xE0 then some { tails := 2, bits := 0, low := 0xA0 }
  else if byte = 0xED then some { tails := 2, bits := 0xD, high := 0x9F }
  else if byte < 0xF0 then some { tails := 2, bits := byte - 0xE0 }
  else if byte = 0xF0 then some { tails := 3, bits := 0, low := 0x90 }
  else if byte < 0xF4 then some { tails := 3, bits := byte - 0xF0 }
  else if byte = 0xF4 then some { tails := 3, bits := 4, high := 0x8F }
  else none

/-- Reads `tails` further bytes of a character, the next of them between `low` and `high`, and
says how many of them belong together: all of a character's, or those before the first misfit. -/
def readTails : (tails bits low high : Nat) → List UInt8 → Char × Nat
  | 0, bits, _, _, _ => (Char.ofNat bits, 0)
  | _ + 1, _, _, _, [] => (replacement, 0)
  | tails + 1, bits, low, high, byte :: rest =>
    if low ≤ byte.toNat ∧ byte.toNat ≤ high then
      let (char, used) := readTails tails (bits * 64 + (byte.toNat - 0x80)) 0x80 0xBF rest
      (char, used + 1)
    else (replacement, 0)

/-- The character that starts at `byte`, and how many bytes after `byte` it takes. -/
def readChar (byte : UInt8) (rest : List UInt8) : Char × Nat :=
  if byte.toNat < 0x80 then (Char.ofNat byte.toNat, 0)
  else
    match lead? byte.toNat with
    | none => (replacement, 0)
    | some lead => readTails lead.tails lead.bits lead.low lead.high rest

def lossyChars : List UInt8 → List Char
  | [] => []
  | byte :: rest =>
    let (char, used) := readChar byte rest
    char :: lossyChars (rest.drop used)
termination_by bytes => bytes.length
decreasing_by simp only [List.length_drop, List.length_cons]; omega

/-- The text of any bytes, with a replacement character for each stretch that is no character. -/
def lossyText (bytes : ByteArray) : String :=
  String.ofList (lossyChars bytes.data.toList)

end Lineage.Utf8
