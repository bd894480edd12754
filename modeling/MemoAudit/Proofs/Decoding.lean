import MemoAudit.ParseTree.Basic

/-!
# Bytes that spell a text

Every name and every quote is cut out of a byte sequence and read leniently, so that reading never
fails.  What it is worth is another matter: a replacement character stands for bytes that are gone.
This file says which byte sequences are read without loss.

`Spells` is UTF-8 as one would explain it: the first byte announces how many bytes there are, the
bytes carry the digits of a code point, and it is not allowed to use more bytes than needed or to
write down a surrogate or a number beyond the last code point.  The reader in `Text.Utf8` knows
nothing of this; it has a table with the range of the second byte for each first byte.  That the
table leaves out exactly what is not allowed is the content of `Spells.runes_append`, and what
remains is arithmetic: a character is spelled by its own bytes (`spells_utf8EncodeChar`) and by no
others (`Spells.utf8EncodeChar_eq`).

It follows that reading undoes writing (`decodeLossy_encode`), and that writing undoes reading for
well-formed bytes and for no others (`encode_decodeLossy_iff`).  Ranges of a source inherit both,
wherever their ends lie (`text_transcribes`).
-/

namespace MemoAudit

namespace Text.Utf8

/-! ## Well-formed bytes -/

/-- The byte continues a character. -/
def IsTail (byte : UInt8) : Prop := 0x80 ≤ byte.toNat ∧ byte.toNat ≤ 0xBF

/-- The bytes spell a code point, in the shortest way there is. -/
inductive Spells : Bytes → Nat → Prop
  | one {a : UInt8} (ha : a.toNat ≤ 0x7F) : Spells [a] a.toNat
  | two {a b : UInt8} {code : Nat} (ha : 0xC0 ≤ a.toNat ∧ a.toNat ≤ 0xDF) (hb : IsTail b)
      (hcode : code = (a.toNat - 0xC0) * 0x40 + (b.toNat - 0x80)) (hshortest : 0x80 ≤ code) :
      Spells [a, b] code
  | three {a b c : UInt8} {code : Nat} (ha : 0xE0 ≤ a.toNat ∧ a.toNat ≤ 0xEF) (hb : IsTail b)
      (hc : IsTail c)
      (hcode : code = ((a.toNat - 0xE0) * 0x40 + (b.toNat - 0x80)) * 0x40 + (c.toNat - 0x80))
      (hshortest : 0x800 ≤ code) (hvalid : code.isValidChar) : Spells [a, b, c] code
  | four {a b c d : UInt8} {code : Nat} (ha : 0xF0 ≤ a.toNat ∧ a.toNat ≤ 0xF7) (hb : IsTail b)
      (hc : IsTail c) (hd : IsTail d)
      (hcode : code = (((a.toNat - 0xF0) * 0x40 + (b.toNat - 0x80)) * 0x40 + (c.toNat - 0x80)) *
        0x40 + (d.toNat - 0x80))
      (hshortest : 0x10000 ≤ code) (hvalid : code.isValidChar) : Spells [a, b, c, d] code

/-- The bytes spell code points one after the other, with nothing left over. -/
inductive IsWellFormed : Bytes → Prop
  | nil : IsWellFormed []
  | append {character rest : Bytes} {code : Nat} (hspells : Spells character code)
      (hrest : IsWellFormed rest) : IsWellFormed (character ++ rest)

/-! ## Writing a character -/

theorem Spells.isValidChar {bytes : Bytes} {code : Nat} (h : Spells bytes code) :
    code.isValidChar := by
  cases h with
  | one ha => exact .inl (by omega)
  | two ha hb hcode =>
    unfold IsTail at hb
    exact .inl (by omega)
  | three _ _ _ _ _ hvalid => exact hvalid
  | four _ _ _ _ _ _ hvalid => exact hvalid

/-- The bytes that spell a code point are the ones that its character is written with. -/
theorem Spells.utf8EncodeChar_eq {bytes : Bytes} {code : Nat} (h : Spells bytes code) :
    String.utf8EncodeChar (Char.ofNat code) = bytes := by
  have hval : (Char.ofNat code).val.toNat = code := by
    rw [Char.ofNat, dif_pos h.isValidChar]
    rfl
  unfold String.utf8EncodeChar
  simp only [hval]
  cases h with
  | one ha => rw [if_pos ha, UInt8.ofNat_toNat]
  | two ha hb hcode hshortest =>
    unfold IsTail at hb
    rw [if_neg (by omega), if_pos (by omega)]
    simp only [List.cons.injEq, ← UInt8.toNat_inj, UInt8.toNat_ofNat', and_true]
    omega
  | three ha hb hc hcode hshortest =>
    unfold IsTail at hb hc
    rw [if_neg (by omega), if_neg (by omega), if_pos (by omega)]
    simp only [List.cons.injEq, ← UInt8.toNat_inj, UInt8.toNat_ofNat', and_true]
    omega
  | four ha hb hc hd hcode hshortest =>
    unfold IsTail at hb hc hd
    rw [if_neg (by omega), if_neg (by omega), if_neg (by omega)]
    simp only [List.cons.injEq, ← UInt8.toNat_inj, UInt8.toNat_ofNat', and_true]
    omega

theorem spells_utf8EncodeChar (c : Char) : Spells (String.utf8EncodeChar c) c.toNat := by
  have hvalid : c.toNat.isValidChar := c.valid
  have hval : c.val.toNat = c.toNat := rfl
  unfold String.utf8EncodeChar
  simp only [hval]
  generalize c.toNat = code at hvalid
  by_cases hone : code ≤ 0x7F
  · have hbyte : (UInt8.ofNat code).toNat = code := by
      rw [UInt8.toNat_ofNat']
      omega
    have hspells := Spells.one (a := UInt8.ofNat code) (by rw [hbyte]; exact hone)
    rw [hbyte] at hspells
    rwa [if_pos hone]
  rw [if_neg hone]
  by_cases htwo : code ≤ 0x7FF
  · rw [if_pos htwo]
    refine .two ?_ ?_ ?_ (by omega) <;> simp only [IsTail, UInt8.toNat_ofNat'] <;> omega
  rw [if_neg htwo]
  by_cases hthree : code ≤ 0xFFFF
  · rw [if_pos hthree]
    refine .three ?_ ?_ ?_ ?_ (by omega) hvalid <;> simp only [IsTail, UInt8.toNat_ofNat'] <;> omega
  · rw [if_neg hthree]
    unfold Nat.isValidChar at hvalid
    refine .four ?_ ?_ ?_ ?_ ?_ (by omega) hvalid <;> simp only [IsTail, UInt8.toNat_ofNat'] <;>
      omega

/-! ## Reading a character -/

/-- The table has an entry for the first of three bytes, and the second byte is in its range: below
the range the spelling would not be the shortest, and above it the code point is a surrogate. -/
theorem exists_lead_three {a b c code : Nat} (ha : 0xE0 ≤ a ∧ a ≤ 0xEF) (hb : 0x80 ≤ b ∧ b ≤ 0xBF)
    (hc : 0x80 ≤ c ∧ c ≤ 0xBF)
    (hcode : code = ((a - 0xE0) * 0x40 + (b - 0x80)) * 0x40 + (c - 0x80)) (hshortest : 0x800 ≤ code)
    (hvalid : code.isValidChar) :
    ∃ low high, Lead.ofByte? a = some ⟨2, low, high, a - 0xE0⟩ ∧ low ≤ b ∧ b ≤ high := by
  unfold Nat.isValidChar at hvalid
  have hranges : a = 0xE0 ∨ (0xE1 ≤ a ∧ a ≤ 0xEC) ∨ a = 0xED ∨ (0xEE ≤ a ∧ a ≤ 0xEF) := by omega
  unfold Lead.ofByte?
  rcases hranges with rfl | h | rfl | h
  · exact ⟨0xA0, 0xBF, rfl, by omega, by omega⟩
  · refine ⟨0x80, 0xBF, ?_, by omega, by omega⟩
    rw [if_neg (by omega), if_neg (by omega), if_pos h]
  · exact ⟨0x80, 0x9F, rfl, by omega, by omega⟩
  · refine ⟨0x80, 0xBF, ?_, by omega, by omega⟩
    rw [if_neg (by omega), if_neg (by omega), if_neg (by omega), if_neg (by omega), if_pos h]

/-- The same for the first of four bytes, where above the range lie numbers that are no code points
any more. -/
theorem exists_lead_four {a b c d code : Nat} (ha : 0xF0 ≤ a ∧ a ≤ 0xF7) (hb : 0x80 ≤ b ∧ b ≤ 0xBF)
    (hc : 0x80 ≤ c ∧ c ≤ 0xBF) (hd : 0x80 ≤ d ∧ d ≤ 0xBF)
    (hcode : code = (((a - 0xF0) * 0x40 + (b - 0x80)) * 0x40 + (c - 0x80)) * 0x40 + (d - 0x80))
    (hshortest : 0x10000 ≤ code) (hvalid : code.isValidChar) :
    ∃ low high, Lead.ofByte? a = some ⟨3, low, high, a - 0xF0⟩ ∧ low ≤ b ∧ b ≤ high := by
  unfold Nat.isValidChar at hvalid
  have hranges : a = 0xF0 ∨ (0xF1 ≤ a ∧ a ≤ 0xF3) ∨ a = 0xF4 := by omega
  unfold Lead.ofByte?
  rcases hranges with rfl | h | rfl
  · exact ⟨0x90, 0xBF, rfl, by omega, by omega⟩
  · refine ⟨0x80, 0xBF, ?_, by omega, by omega⟩
    rw [if_neg (by omega), if_neg (by omega), if_neg (by omega), if_neg (by omega),
      if_neg (by omega), if_neg (by omega), if_pos h]
  · exact ⟨0x80, 0x8F, rfl, by omega, by omega⟩

theorem follow_cons {count low high bits : Nat} {byte : UInt8} {rest : Bytes}
    (hlow : low ≤ byte.toNat) (hhigh : byte.toNat ≤ high) :
    follow (count + 1) low high bits (byte :: rest) =
      follow count 0x80 0xBF (bits * 0x40 + (byte.toNat - 0x80)) rest := by
  rw [follow, if_pos ⟨hlow, hhigh⟩]

/-- A first byte with an entry in the table is read with the bytes that it announces. -/
theorem runes_of_lead {byte : UInt8} {lead : Lead} {bytes rest : Bytes} {code : Nat}
    (hbyte : 0x80 ≤ byte.toNat) (hlead : Lead.ofByte? byte.toNat = some lead)
    (hfollow : follow lead.following lead.low lead.high lead.bits bytes = (some code, rest)) :
    runes (byte :: bytes) = some (Char.ofNat code) :: runes rest := by
  have hnext : next byte bytes = (some (Char.ofNat code), rest) := by
    unfold next
    rw [if_neg (by omega), hlead]
    simp only [hfollow, Option.map_some]
  rw [runes, hnext]

/-- What spells a code point is read as its character, whatever comes after it. -/
theorem Spells.runes_append {bytes : Bytes} {code : Nat} (h : Spells bytes code) (rest : Bytes) :
    runes (bytes ++ rest) = some (Char.ofNat code) :: runes rest := by
  cases h with
  | one ha =>
    rename_i a
    have hnext : next a rest = (some (Char.ofNat a.toNat), rest) := by
      rw [next, if_pos (by omega)]
    rw [List.singleton_append, runes, hnext]
  | two ha hb hcode hshortest =>
    rename_i a b
    unfold IsTail at hb
    have hlead : Lead.ofByte? a.toNat = some ⟨1, 0x80, 0xBF, a.toNat - 0xC0⟩ := by
      rw [Lead.ofByte?, if_pos (by omega)]
    have hfollow : follow 1 0x80 0xBF (a.toNat - 0xC0) (b :: rest) = (some code, rest) := by
      rw [follow_cons hb.1 hb.2, hcode, follow]
    exact runes_of_lead (by omega) hlead hfollow
  | three ha hb hc hcode hshortest hvalid =>
    rename_i a b c
    obtain ⟨low, high, hlead, hlow, hhigh⟩ := exists_lead_three ha hb hc hcode hshortest hvalid
    have hfollow : follow 2 low high (a.toNat - 0xE0) (b :: c :: rest) = (some code, rest) := by
      rw [follow_cons hlow hhigh, follow_cons hc.1 hc.2, hcode, follow]
    exact runes_of_lead (by omega) hlead hfollow
  | four ha hb hc hd hcode hshortest hvalid =>
    rename_i a b c d
    obtain ⟨low, high, hlead, hlow, hhigh⟩ := exists_lead_four ha hb hc hd hcode hshortest hvalid
    have hfollow : follow 3 low high (a.toNat - 0xF0) (b :: c :: d :: rest) =
        (some code, rest) := by
      rw [follow_cons hlow hhigh, follow_cons hc.1 hc.2, follow_cons hd.1 hd.2, hcode, follow]
    exact runes_of_lead (by omega) hlead hfollow

/-! ## Texts -/

theorem encode_append (a b : String) : encode (a ++ b) = encode a ++ encode b := by
  rw [encode, encode, encode, String.toList_append, List.flatMap_append]

theorem runes_encode (s : String) : runes (encode s) = s.toList.map some := by
  unfold encode
  induction s.toList with
  | nil => rw [List.flatMap_nil, runes, List.map_nil]
  | cons c cs ih =>
    rw [List.flatMap_cons, (spells_utf8EncodeChar c).runes_append, ih, Char.ofNat_toNat,
      List.map_cons]

/-- Reading undoes writing. -/
theorem decodeLossy_encode (s : String) : decodeLossy (encode s) = s := by
  rw [decodeLossy, runes_encode, List.map_map]
  simp [Function.comp_def]

/-- The bytes of a text are well formed for a strict reader, too. -/
theorem decode?_encode (s : String) : decode? (encode s) = some s := by
  have hall (cs : List Char) : (cs.map some).mapM id = some cs := by
    induction cs with
    | nil => rfl
    | cons c cs ih => rw [List.map_cons, List.mapM_cons, ih]; rfl
  rw [decode?, runes_encode, hall, Option.map_some, String.ofList_toList]

theorem isWellFormed_encode (s : String) : IsWellFormed (encode s) := by
  unfold encode
  induction s.toList with
  | nil => exact .nil
  | cons c cs ih =>
    rw [List.flatMap_cons]
    exact .append (spells_utf8EncodeChar c) ih

theorem exists_encode_of_isWellFormed {bytes : Bytes} (h : IsWellFormed bytes) :
    ∃ s, encode s = bytes := by
  induction h with
  | nil => exact ⟨"", rfl⟩
  | append hspells hrest ih =>
    rename_i character rest code
    obtain ⟨s, rfl⟩ := ih
    refine ⟨String.ofList (Char.ofNat code :: s.toList), ?_⟩
    rw [encode, String.toList_ofList, List.flatMap_cons, hspells.utf8EncodeChar_eq, encode]

/-- Writing undoes reading for well-formed bytes and for no others. -/
theorem encode_decodeLossy_iff {bytes : Bytes} :
    encode (decodeLossy bytes) = bytes ↔ IsWellFormed bytes := by
  constructor
  · intro h
    rw [← h]
    exact isWellFormed_encode _
  · intro h
    obtain ⟨s, rfl⟩ := exists_encode_of_isWellFormed h
    rw [decodeLossy_encode]

end Text.Utf8

/-! ## Ranges -/

open Text.Utf8

/-- A cut at offsets from the front keeps what is before the one and drops what is before the
other; neither has to lie within the bytes, nor the one after the other. -/
theorem Bytes.slice_eq (bytes : Bytes) (start stop : Nat) :
    bytes.slice start stop = (bytes.take stop).drop start := by
  have hclamp (offset : Nat) : clamp bytes.length offset = min offset bytes.length := by
    rw [clamp, if_neg (by omega), Int.toNat_natCast]
  rw [slice, hclamp, hclamp, List.drop_take]
  by_cases hstart : start ≤ bytes.length
  · rw [Nat.min_eq_left hstart, List.take_eq_take_iff, List.length_drop]
    omega
  · rw [List.drop_of_length_le (by omega), List.drop_of_length_le (by omega), List.take_nil,
      List.take_nil]

/-- The bytes of the middle one of three texts. -/
theorem take_drop_encode (before middle after : String) :
    ((encode (before ++ middle ++ after)).take (encode (before ++ middle)).length).drop
      (encode before).length = encode middle := by
  rw [encode_append (before ++ middle), List.take_left, encode_append, List.drop_left]

theorem Span.text_eq {span : Span} {start stop : Nat}
    (h : span.startByte = start ∧ span.endByte = stop) (source : Bytes) :
    span.text source = decodeLossy ((source.take stop).drop start) := by
  rw [text, h.1, h.2, Bytes.slice_eq]

/-- **Byte ranges turn into the right text.**  A span and a node that lie between two offsets are
read as the same text.  If the source is the encoding of a text and the offsets are the ends of a
part of it, then what is read is that part.  For any source and any offsets, beyond its end or in
the wrong order, what is read has the bytes of the range as its encoding exactly if these bytes are
well formed. -/
theorem text_transcribes (span : Span) (token : Token) (start stop : Nat)
    (hspan : span.startByte = start ∧ span.endByte = stop)
    (htoken : token.start.byte = start ∧ token.stop.byte = stop) :
    (∀ before middle after : String, start = (encode before).length →
      stop = (encode (before ++ middle)).length →
        span.text (encode (before ++ middle ++ after)) = middle ∧
          token.text (encode (before ++ middle ++ after)) = middle) ∧
    ∀ source : Bytes,
      (encode (span.text source) = (source.take stop).drop start ↔
        IsWellFormed ((source.take stop).drop start)) ∧
      (encode (token.text source) = (source.take stop).drop start ↔
        IsWellFormed ((source.take stop).drop start)) := by
  have hread := Span.text_eq hspan
  have hnode : ∀ source, token.text source = decodeLossy ((source.take stop).drop start) :=
    Span.text_eq (show token.span.startByte = start ∧ token.span.endByte = stop from htoken)
  constructor
  · rintro before middle after rfl rfl
    rw [hread, hnode, take_drop_encode, decodeLossy_encode]
    exact ⟨rfl, rfl⟩
  · intro source
    rw [hread, hnode]
    exact ⟨encode_decodeLossy_iff, encode_decodeLossy_iff⟩

/-- A variable between letters of two and of four bytes, and a source that breaks off inside its
last letter. -/
theorem text_transcribes_accented :
    let span : Span := ⟨2, 6, default, default⟩
    let token : Token := { kind := "instance_variable", start := ⟨2, 0, 2⟩, stop := ⟨6, 0, 6⟩ }
    (encode "é").length = 2 ∧ (encode ("é" ++ "@à1")).length = 6 ∧
      span.text (encode ("é" ++ "@à1" ++ "😀")) = "@à1" ∧
      token.text (encode ("é" ++ "@à1" ++ "😀")) = "@à1" ∧
      span.text [0xC3, 0xA9, 0x40, 0xC3] = "@\uFFFD" ∧ ¬ IsWellFormed [0x40, 0xC3] := by
  intro span token
  have hbefore : (encode "é").length = 2 := by decide
  have hmiddle : (encode ("é" ++ "@à1")).length = 6 := by decide
  obtain ⟨htext, hrange⟩ := text_transcribes span token 2 6 ⟨rfl, rfl⟩ ⟨rfl, rfl⟩
  obtain ⟨hspan, htoken⟩ := htext "é" "@à1" "😀" hbefore.symm hmiddle.symm
  have hbroken : span.text [0xC3, 0xA9, 0x40, 0xC3] = "@\uFFFD" := by decide +kernel
  refine ⟨hbefore, hmiddle, hspan, htoken, hbroken, fun hwellFormed => ?_⟩
  have hencode := (hrange [0xC3, 0xA9, 0x40, 0xC3]).1.2 hwellFormed
  rw [hbroken] at hencode
  revert hencode
  decide

end MemoAudit
