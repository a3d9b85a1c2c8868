/-! # UTF-8

  The encoding of text as bytes, and the two ways back:

  - `decodeChar?`: one character from exactly its own bytes, as a reader needs
    that decodes what it has just read.
  - `decode?`: a whole text at once, or nothing if any of it is malformed.

  Overlong forms, surrogates and code points above `10ffff` are malformed.

  Core Lean only; no Mathlib.
-/

namespace FloatLang.Utf8

/-- The bytes of a text. -/
def encode (text : List Char) : List UInt8 :=
  text.flatMap String.utf8EncodeChar

/-- The number of bytes of a text. -/
def width : List Char → Nat
  | [] => 0
  | c :: text => c.utf8Size + width text

/-- What is left of a text from byte `n` on. -/
def dropBytes (n : Nat) : List Char → List Char
  | [] => []
  | c :: text => if n = 0 then c :: text else dropBytes (n - c.utf8Size) text

/-- The character that `bytes` encode, all of them together. -/
def decodeChar? (bytes : List UInt8) : Option Char :=
  (bytes.toByteArray.utf8DecodeChar? 0).filter fun c => c.utf8Size = bytes.length

/-- The text that `bytes` encode. -/
def decode? (bytes : List UInt8) : Option String :=
  String.fromUTF8? bytes.toByteArray

/-- The number of bytes that a first byte announces for its character, itself
    included. The announcement is looser than the encoding: `c0`, `c1` and
    `f5` to `f7` announce characters that have no well-formed encoding. -/
def announcedWidth (first : UInt8) : Option Nat :=
  if first ≤ 0x7f then some 1
  else if 0xc0 ≤ first && first ≤ 0xdf then some 2
  else if 0xe0 ≤ first && first ≤ 0xef then some 3
  else if 0xf0 ≤ first && first ≤ 0xf7 then some 4
  else none

/-! ## Encoding and decoding -/

@[simp] theorem encode_nil : encode [] = [] := rfl

@[simp] theorem encode_cons (c : Char) (text : List Char) :
    encode (c :: text) = String.utf8EncodeChar c ++ encode text := rfl

theorem encode_append (a b : List Char) : encode (a ++ b) = encode a ++ encode b :=
  List.flatMap_append

/-! ## Widths -/

@[simp] theorem width_nil : width [] = 0 := rfl

@[simp] theorem width_cons (c : Char) (text : List Char) :
    width (c :: text) = c.utf8Size + width text := rfl

@[simp] theorem width_append (a b : List Char) : width (a ++ b) = width a + width b := by
  induction a with
  | nil => simp
  | cons c a ih => simp [ih, Nat.add_assoc]

/-- Every character has a byte. -/
theorem width_pos {text : List Char} (hne : text ≠ []) : 0 < width text := by
  obtain ⟨c, rest, rfl⟩ := List.exists_cons_of_ne_nil hne
  have hpos := c.utf8Size_pos
  rw [width_cons]
  omega

/-- Behind the bytes of its first part stands the second part of a text. -/
theorem dropBytes_width (a b : List Char) : dropBytes (width a) (a ++ b) = b := by
  induction a with
  | nil => cases b <;> rfl
  | cons c a ih =>
    have hpos := c.utf8Size_pos
    have hne : ¬ width (c :: a) = 0 := by
      rw [width_cons]
      omega
    rw [List.cons_append, dropBytes, if_neg hne, width_cons, Nat.add_sub_cancel_left, ih]

/-! ## Single characters -/

/-- A character is read back from its bytes, and from no others. -/
theorem decodeChar?_eq_some_iff {bytes : List UInt8} {c : Char} :
    decodeChar? bytes = some c ↔ bytes = String.utf8EncodeChar c := by
  constructor
  · intro h
    obtain ⟨hdecode, hsize⟩ := Option.filter_eq_some_iff.mp h
    obtain ⟨rest, hrest⟩ := ByteArray.exists_of_utf8DecodeChar?_eq_some hdecode
    -- the bytes begin with the encoding of `c`, and their number leaves no rest
    have hlist : bytes = String.utf8EncodeChar c ++ rest.data.toList := by
      have := congrArg (fun b : ByteArray => b.data.toList) hrest
      simpa [List.utf8Encode] using this
    have hlength := congrArg List.length hlist
    simp only [List.length_append, String.length_utf8EncodeChar] at hlength
    have hnil : rest.data.toList = [] := by
      apply List.eq_nil_of_length_eq_zero
      have := of_decide_eq_true hsize
      omega
    rw [hlist, hnil, List.append_nil]
  · rintro rfl
    refine Option.filter_eq_some_iff.mpr ⟨?_, by simp⟩
    have h := @ByteArray.utf8DecodeChar?_utf8EncodeChar_append ByteArray.empty c
    simpa using h

/-- Distinct characters have distinct encodings. -/
theorem utf8EncodeChar_inj {c d : Char} (h : String.utf8EncodeChar c = String.utf8EncodeChar d) :
    c = d := by
  have hc := decodeChar?_eq_some_iff.mpr (rfl : String.utf8EncodeChar c = _)
  have hd := decodeChar?_eq_some_iff.mpr h
  exact Option.some.inj (hc.symm.trans hd)

/-! ## Whole texts -/

/-- A text is decoded from its bytes, and from no others. -/
theorem decode?_eq_some_iff {bytes : List UInt8} {text : String} :
    decode? bytes = some text ↔ bytes = encode text.toList := by
  have hbytes : (encode text.toList).toByteArray = text.toByteArray := String.utf8Encode_toList
  unfold decode? String.fromUTF8?
  constructor
  · intro h
    split at h
    · next hvalid =>
      have htext : text.toByteArray = bytes.toByteArray := by
        rw [← Option.some.inj h]
        rfl
      have hlist := congrArg (fun b : ByteArray => b.data.toList) (hbytes.trans htext)
      simpa using hlist.symm
    · cases h
  · rintro rfl
    rw [hbytes, dif_pos text.isValidUTF8]
    rfl

/-! ## First bytes -/

theorem announcedWidth_eq_some_iff {first : UInt8} {w : Nat} :
    announcedWidth first = some w ↔
      first.toNat ≤ 0x7f ∧ w = 1 ∨ 0xc0 ≤ first.toNat ∧ first.toNat ≤ 0xdf ∧ w = 2 ∨
      0xe0 ≤ first.toNat ∧ first.toNat ≤ 0xef ∧ w = 3 ∨
      0xf0 ≤ first.toNat ∧ first.toNat ≤ 0xf7 ∧ w = 4 := by
  simp only [announcedWidth, UInt8.le_iff_toNat_le, Bool.and_eq_true, decide_eq_true_eq,
    UInt8.reduceToNat]
  repeat' split
  all_goals
    simp only [reduceCtorEq, Option.some.injEq, false_iff]
    omega

theorem announcedWidth_eq_none_iff {first : UInt8} :
    announcedWidth first = none ↔
      0x80 ≤ first.toNat ∧ first.toNat ≤ 0xbf ∨ 0xf8 ≤ first.toNat := by
  simp only [announcedWidth, UInt8.le_iff_toNat_le, Bool.and_eq_true, decide_eq_true_eq,
    UInt8.reduceToNat]
  repeat' split
  all_goals
    simp only [reduceCtorEq, false_iff, true_iff]
    omega

/-- The first byte of a character announces the width of the character. -/
theorem utf8EncodeChar_eq_cons (c : Char) :
    ∃ first rest, String.utf8EncodeChar c = first :: rest ∧
      announcedWidth first = some c.utf8Size := by
  rw [← String.length_utf8EncodeChar]
  fun_cases String.utf8EncodeChar c
  all_goals
    refine ⟨_, _, rfl, announcedWidth_eq_some_iff.mpr ?_⟩
    simp only [UInt8.toNat_ofNat', List.length_cons, List.length_nil, and_true]
    omega

/-- A byte that announces itself alone is a character. -/
theorem exists_utf8EncodeChar_eq_singleton {first : UInt8} (h : first.toNat ≤ 0x7f) :
    ∃ c, String.utf8EncodeChar c = [first] := by
  obtain ⟨c, hc⟩ : ∃ c : Char, c.val.toNat = first.toNat :=
    ⟨Char.ofNatAux first.toNat (.inl (by omega)), rfl⟩
  refine ⟨c, ?_⟩
  rw [String.utf8EncodeChar]
  simp only [hc, if_pos h, UInt8.ofNat_toNat]

/-- No character's encoding starts another's. -/
theorem utf8EncodeChar_append_inj {c d : Char} {a b : List UInt8}
    (h : String.utf8EncodeChar c ++ a = String.utf8EncodeChar d ++ b) : c = d ∧ a = b := by
  obtain ⟨first, rest, hc, hwidth⟩ := utf8EncodeChar_eq_cons c
  obtain ⟨first', rest', hd, hwidth'⟩ := utf8EncodeChar_eq_cons d
  have hfirst : first = first' := by
    rw [hc, hd] at h
    exact (List.cons.inj h).1
  have hsize : c.utf8Size = d.utf8Size := by
    rw [hfirst, hwidth'] at hwidth
    exact (Option.some.inj hwidth).symm
  obtain ⟨hchar, hrest⟩ := List.append_inj h (by simp [hsize])
  exact ⟨utf8EncodeChar_inj hchar, hrest⟩

end FloatLang.Utf8
