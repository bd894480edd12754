/-!
# Bytes and the text they spell

Source files are byte sequences; names, quotes and messages are text.  `Utf8.runes` reads bytes from
the front, one character at a time, and yields `none` for each *maximal ill-formed part*: the
longest initial piece of some well-formed character that the bytes continue no further, or a single
byte that starts no character.  Both readings of a byte sequence as text are views of that one list:
the lenient one (`decodeLossy`) shows a replacement character for each ill-formed part and never
fails, the strict one (`decode?`) fails if there is any.

`slice` cuts a byte sequence at two offsets, which may lie anywhere: they are counted from the end
when negative, and clamped to the sequence.
-/

namespace MemoAudit

/-- A sequence of bytes. -/
abbrev Bytes := List UInt8

namespace Bytes

/-- The position in a sequence of the given length that an offset denotes. -/
def clamp (length : Nat) (offset : Int) : Nat :=
  if offset < 0 then (offset + length).toNat else min offset.toNat length

/-- The bytes from one offset up to another. -/
def slice (bytes : Bytes) (start stop : Int) : Bytes :=
  let first := clamp bytes.length start
  (bytes.drop first).take (clamp bytes.length stop - first)

end Bytes

namespace Text.Utf8

/-- What the first byte of a character of several bytes announces: how many bytes follow, the range
of the first of them, and the bits that it contributes itself. -/
structure Lead where
  following : Nat
  low : Nat
  high : Nat
  bits : Nat

/-- The announcement of a first byte outside ASCII.  The narrowed ranges leave out overlong forms,
surrogates and code points beyond the last. -/
def Lead.ofByte? (byte : Nat) : Option Lead :=
  if 0xC2 ≤ byte ∧ byte ≤ 0xDF then some ⟨1, 0x80, 0xBF, byte - 0xC0⟩
  else if byte = 0xE0 then some ⟨2, 0xA0, 0xBF, 0⟩
  else if 0xE1 ≤ byte ∧ byte ≤ 0xEC then some ⟨2, 0x80, 0xBF, byte - 0xE0⟩
  else if byte = 0xED then some ⟨2, 0x80, 0x9F, byte - 0xE0⟩
  else if 0xEE ≤ byte ∧ byte ≤ 0xEF then some ⟨2, 0x80, 0xBF, byte - 0xE0⟩
  else if byte = 0xF0 then some ⟨3, 0x90, 0xBF, 0⟩
  else if 0xF1 ≤ byte ∧ byte ≤ 0xF3 then some ⟨3, 0x80, 0xBF, byte - 0xF0⟩
  else if byte = 0xF4 then some ⟨3, 0x80, 0x8F, byte - 0xF0⟩
  else none

/-- Reads the bytes that a first byte announced onto the bits read so far.  Gives the code point, or
nothing where the bytes do not go on as announced, and the bytes left over in either case. -/
def follow : (count low high bits : Nat) → Bytes → Option Nat × Bytes
  | 0, _, _, bits, rest => (some bits, rest)
  | _ + 1, _, _, _, [] => (none, [])
  | count + 1, low, high, bits, byte :: rest =>
    if low ≤ byte.toNat ∧ byte.toNat ≤ high then
      follow count 0x80 0xBF (bits * 0x40 + (byte.toNat - 0x80)) rest
    else (none, byte :: rest)

/-- The first character, or nothing for an ill-formed part, and the bytes after it. -/
def next (byte : UInt8) (rest : Bytes) : Option Char × Bytes :=
  if byte.toNat < 0x80 then (some (Char.ofNat byte.toNat), rest)
  else
    match Lead.ofByte? byte.toNat with
    | none => (none, rest)
    | some lead =>
      let (code, left) := follow lead.following lead.low lead.high lead.bits rest
      (code.map Char.ofNat, left)

theorem length_follow_le (count low high bits : Nat) (bytes : Bytes) :
    (follow count low high bits bytes).2.length ≤ bytes.length := by
  fun_induction follow count low high bits bytes with
  | case1 => exact Nat.le_refl _
  | case2 => exact Nat.le_refl _
  | case3 _ _ _ _ _ _ _ ih => exact Nat.le_succ_of_le ih
  | case4 => exact Nat.le_refl _

theorem length_next_le (byte : UInt8) (rest : Bytes) : (next byte rest).2.length ≤ rest.length := by
  unfold next
  split
  · exact Nat.le_refl _
  · split
    · exact Nat.le_refl _
    · exact length_follow_le ..

/-- The characters of a byte sequence, with nothing standing for each maximal ill-formed part. -/
def runes : Bytes → List (Option Char)
  | [] => []
  | byte :: rest => (next byte rest).1 :: runes (next byte rest).2
  termination_by bytes => bytes.length
  decreasing_by
    have := length_next_le byte rest
    simp only [List.length_cons]
    omega

/-- The character shown for an ill-formed part. -/
def replacement : Char := Char.ofNat 0xFFFD

/-- The text of a byte sequence, each maximal ill-formed part shown as one replacement character. -/
def decodeLossy (bytes : Bytes) : String :=
  String.ofList ((runes bytes).map (·.getD replacement))

/-- The text of a byte sequence, if it is well formed. -/
def decode? (bytes : Bytes) : Option String :=
  ((runes bytes).mapM id).map String.ofList

/-- The bytes of a text. -/
def encode (s : String) : Bytes := s.toList.flatMap String.utf8EncodeChar

end Text.Utf8

end MemoAudit
