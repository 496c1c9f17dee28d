/-
  NettyStudy.Text.Unicode — Java strings and their UTF-8 bytes. A `String` is its
  UTF-16 code units, unpaired surrogates included; UTF-8 and UTF-16 are codes of the
  Unicode scalar values (`Char`).

  `getBytes` is `getBytes("UTF-8")`: an unpaired surrogate has no UTF-8 form, and the JDK
  writes '?' in its place. `newString` is `new String(bytes, "UTF-8")`: each malformed
  piece is read U+FFFD. What counts as one malformed piece follows the JDK's
  `UTF_8.Decoder`: the longest start of a well-formed sequence, three bytes for an
  encoded surrogate, else one byte.

  Proved, for text with no unpaired surrogate:
  - `newString_getBytes`: it survives the trip through its bytes.
  - `eq_nil_of_newString`: its bytes and any more never read as it.
  - `high_of_newString_cut`: if its bytes cut short read as it, the cut-off part
    starts with a byte from 0x80 on (the cut is inside a U+FFFD).
  And, for any bytes, `getBytes_newString_iff`: read and written again they are the same
  exactly when they are well-formed UTF-8.
-/

import NettyStudy.Text.Code
import Mathlib.Tactic.SplitIfs

namespace NettyStudy.Text

/-! ## UTF-16 -/

def isHigh (u : UInt16) : Prop := 0xD800 ≤ u.toNat ∧ u.toNat ≤ 0xDBFF

def isLow (u : UInt16) : Prop := 0xDC00 ≤ u.toNat ∧ u.toNat ≤ 0xDFFF

instance (u : UInt16) : Decidable (isHigh u) := inferInstanceAs (Decidable (_ ∧ _))

instance (u : UInt16) : Decidable (isLow u) := inferInstanceAs (Decidable (_ ∧ _))

def utf16Enc (c : Char) : List UInt16 :=
  if c.toNat < 0x10000 then [UInt16.ofNat c.toNat]
  else [UInt16.ofNat (0xD800 + (c.toNat - 0x10000) / 0x400), UInt16.ofNat (0xDC00 + (c.toNat - 0x10000) % 0x400)]

def utf16Next : List UInt16 → Option Char × Nat
  | [] => (none, 0)
  | u :: r =>
    if isHigh u then
      match r with
      | v :: _ =>
        if isLow v then (some (Char.ofNat (0x10000 + (u.toNat - 0xD800) * 0x400 + (v.toNat - 0xDC00))), 2)
        else (none, 1)
      | [] => (none, 1)
    else if isLow u then (none, 1)
    else (some (Char.ofNat u.toNat), 1)

theorem toNat_ofNat {n : Nat} (h : n.isValidChar) : (Char.ofNat n).toNat = n := by
  unfold Char.ofNat
  rw [dif_pos h]
  rfl

theorem char_bounds (c : Char) : c.toNat < 0xD800 ∨ 0xDFFF < c.toNat ∧ c.toNat < 0x110000 := c.valid

theorem unit_toNat {n : Nat} (h : n < 0x10000) : (UInt16.ofNat n).toNat = n := by
  rw [UInt16.toNat_ofNat']; omega

theorem utf16Next_enc (c : Char) (r : List UInt16) :
    utf16Next (utf16Enc c ++ r) = (some c, (utf16Enc c).length) := by
  have hb := char_bounds c
  unfold utf16Enc
  by_cases hs : c.toNat < 0x10000
  · rw [if_pos hs]
    have hu := unit_toNat hs
    simp only [List.cons_append, List.nil_append, utf16Next, isHigh, isLow, hu]
    rw [if_neg (by omega), if_neg (by omega), Char.ofNat_toNat]
    rfl
  · rw [if_neg hs]
    have hh := unit_toNat (n := 0xD800 + (c.toNat - 0x10000) / 0x400) (by omega)
    have hl := unit_toNat (n := 0xDC00 + (c.toNat - 0x10000) % 0x400) (by omega)
    simp only [List.cons_append, List.nil_append, utf16Next, isHigh, isLow, hh, hl]
    rw [if_pos (by omega), if_pos (by omega)]
    have hc : 0x10000 + (0xD800 + (c.toNat - 0x10000) / 0x400 - 0xD800) * 0x400 +
        (0xDC00 + (c.toNat - 0x10000) % 0x400 - 0xDC00) = c.toNat := by omega
    rw [hc, Char.ofNat_toNat]
    rfl

theorem utf16Enc_of_next {bs : List UInt16} {c : Char} {n : Nat} (h : utf16Next bs = (some c, n)) :
    ∃ r, bs = utf16Enc c ++ r ∧ n = (utf16Enc c).length := by
  rcases bs with _ | ⟨u, r⟩
  · simp [utf16Next] at h
  have hu : u.toNat < 0x10000 := u.toNat_lt
  simp only [utf16Next] at h
  split at h
  · rename_i hh
    rcases r with _ | ⟨v, r⟩
    · simp at h
    simp only at h
    split at h
    · rename_i hl
      simp only [Prod.mk.injEq, Option.some.injEq] at h
      obtain ⟨rfl, rfl⟩ := h
      simp only [isHigh, isLow] at hh hl
      have hc := toNat_ofNat (n := 0x10000 + (u.toNat - 0xD800) * 0x400 + (v.toNat - 0xDC00))
        (Or.inr ⟨by omega, by omega⟩)
      have he : utf16Enc (Char.ofNat (0x10000 + (u.toNat - 0xD800) * 0x400 + (v.toNat - 0xDC00))) = [u, v] := by
        unfold utf16Enc
        rw [hc, if_neg (by omega)]
        have e1 : 0xD800 + (0x10000 + (u.toNat - 0xD800) * 0x400 + (v.toNat - 0xDC00) - 0x10000) / 0x400 = u.toNat := by
          omega
        have e2 : 0xDC00 + (0x10000 + (u.toNat - 0xD800) * 0x400 + (v.toNat - 0xDC00) - 0x10000) % 0x400 = v.toNat := by
          omega
        rw [e1, e2, UInt16.ofNat_toNat, UInt16.ofNat_toNat]
      rw [he]
      exact ⟨r, rfl, rfl⟩
    · simp at h
  · rename_i hh
    split at h
    · simp at h
    · rename_i hl
      simp only [Prod.mk.injEq, Option.some.injEq] at h
      obtain ⟨rfl, rfl⟩ := h
      simp only [isHigh, isLow] at hh hl
      have he : utf16Enc (Char.ofNat u.toNat) = [u] := by
        unfold utf16Enc
        rw [toNat_ofNat (n := u.toNat) (by simp only [Nat.isValidChar]; omega), if_pos hu, UInt16.ofNat_toNat]
      rw [he]
      exact ⟨r, rfl, rfl⟩

theorem utf16Next_pos {bs : List UInt16} (h : bs ≠ []) : 0 < (utf16Next bs).2 := by
  rcases bs with _ | ⟨u, r⟩
  · exact absurd rfl h
  simp only [utf16Next]
  (repeat' split) <;> exact Nat.succ_pos _

def utf16 : Code Char UInt16 where
  enc := utf16Enc
  next := utf16Next
  enc_ne_nil c := by unfold utf16Enc; split <;> simp
  next_enc := utf16Next_enc
  enc_of_next := utf16Enc_of_next
  next_pos _ h := utf16Next_pos h

/-! ## UTF-8 -/

def isCont (b : UInt8) : Prop := 0x80 ≤ b.toNat ∧ b.toNat ≤ 0xBF

instance (b : UInt8) : Decidable (isCont b) := inferInstanceAs (Decidable (_ ∧ _))

/-- Whether `b2` may follow the lead byte `b1` of a three- or four-byte sequence. -/
def secondOk (b1 b2 : UInt8) : Prop :=
  isCont b2 ∧ (b1 = 0xE0 → 0xA0 ≤ b2.toNat) ∧ (b1 = 0xF0 → 0x90 ≤ b2.toNat) ∧ (b1 = 0xF4 → b2.toNat ≤ 0x8F)

instance (b1 b2 : UInt8) : Decidable (secondOk b1 b2) := inferInstanceAs (Decidable (_ ∧ _))

/-- How many bytes the decoder replaces by one U+FFFD at a malformed front. -/
def malformedLength : List UInt8 → Nat
  | [] => 0
  | b1 :: r =>
    if 0xE0 ≤ b1.toNat ∧ b1.toNat ≤ 0xF4 then
      match r with
      | [] => 1
      | b2 :: r =>
        if ¬ secondOk b1 b2 then 1
        else match r with
          | [] => 2
          | b3 :: _ => if isCont b3 then 3 else 2
    else 1

def utf8Next (bs : List UInt8) : Option Char × Nat :=
  match bs.toByteArray.utf8DecodeChar? 0 with
  | some c => (some c, c.utf8Size)
  | none => (none, malformedLength bs)

theorem utf8Next_enc (c : Char) (r : List UInt8) :
    utf8Next (String.utf8EncodeChar c ++ r) = (some c, (String.utf8EncodeChar c).length) := by
  unfold utf8Next
  rw [List.toByteArray_append, ByteArray.utf8DecodeChar?_utf8EncodeChar_append, String.length_utf8EncodeChar]

theorem utf8Enc_of_next {bs : List UInt8} {c : Char} {n : Nat} (h : utf8Next bs = (some c, n)) :
    ∃ r, bs = String.utf8EncodeChar c ++ r ∧ n = (String.utf8EncodeChar c).length := by
  unfold utf8Next at h
  split at h
  · rename_i d hd
    simp only [Prod.mk.injEq, Option.some.injEq] at h
    obtain ⟨rfl, rfl⟩ := h
    obtain ⟨l, hl⟩ := ByteArray.exists_of_utf8DecodeChar?_eq_some hd
    refine ⟨l.data.toList, ?_, (String.length_utf8EncodeChar d).symm⟩
    rw [← List.toByteArray_inj, hl, List.toByteArray_append]
    congr 1
    ext1
    simp
  · simp at h

theorem malformedLength_pos {bs : List UInt8} (h : bs ≠ []) : 0 < malformedLength bs := by
  rcases bs with _ | ⟨b, r⟩
  · exact absurd rfl h
  simp only [malformedLength]
  (repeat' split) <;> exact Nat.succ_pos _

theorem utf8Next_pos {bs : List UInt8} (h : bs ≠ []) : 0 < (utf8Next bs).2 := by
  unfold utf8Next
  split
  · rename_i c _; exact c.utf8Size_pos
  · exact malformedLength_pos h

def utf8 : Code Char UInt8 where
  enc := String.utf8EncodeChar
  next := utf8Next
  enc_ne_nil c h := by
    have := c.utf8Size_pos
    rw [← String.length_utf8EncodeChar, h] at this
    exact Nat.lt_irrefl 0 this
  next_enc := utf8Next_enc
  enc_of_next := utf8Enc_of_next
  next_pos _ h := utf8Next_pos h

/-! ## Java strings -/

/-- A Java `String`: its `char`s. -/
abbrev JString := List UInt16

/-- No surrogate of the string stands alone. -/
def Paired (s : JString) : Prop := none ∉ utf16.parse s

instance (s : JString) : Decidable (Paired s) := inferInstanceAs (Decidable (¬ _))

/-- The Java string of a literal. -/
def literal (s : String) : JString := utf16.encode s.toList

def replacement : Char := Char.ofNat 0xFFFD

/-- `s.getBytes("UTF-8")`. -/
def getBytes (s : JString) : List UInt8 :=
  (utf16.parse s).flatMap fun
    | some c => utf8.enc c
    | none => [0x3F]

/-- `new String(bytes, "UTF-8")`. -/
def newString (bytes : List UInt8) : JString := utf16.encode (utf8.read replacement bytes)

theorem paired_iff (s : JString) : Paired s ↔ ∃ cs, s = utf16.encode cs := by
  constructor
  · intro h
    refine ⟨(utf16.parse s).filterMap id, utf16.encode_of_parse _ _ ?_⟩
    have : ∀ l : List (Option Char), none ∉ l → l = (l.filterMap id).map some := by
      intro l
      induction l with
      | nil => intro _; rfl
      | cons x l ih =>
        intro hl
        rcases x with _ | c
        · simp at hl
        · simp only [List.mem_cons, reduceCtorEq, false_or] at hl
          simpa using ih hl
    exact this _ h
  · rintro ⟨cs, rfl⟩
    simp [Paired, utf16.parse_encode]

theorem paired_literal (s : String) : Paired (literal s) := (paired_iff _).mpr ⟨_, rfl⟩

theorem paired_newString (bytes : List UInt8) : Paired (newString bytes) := (paired_iff _).mpr ⟨_, rfl⟩

theorem getBytes_encode (cs : List Char) : getBytes (utf16.encode cs) = utf8.encode cs := by
  rw [getBytes, utf16.parse_encode, List.flatMap_map]
  rfl

theorem newString_getBytes {s : JString} (h : Paired s) : newString (getBytes s) = s := by
  obtain ⟨cs, rfl⟩ := (paired_iff s).mp h
  rw [getBytes_encode, newString, utf8.read_encode]

/-- A text's bytes followed by more never read as the text. -/
theorem eq_nil_of_newString {s : JString} (hs : Paired s) {r : List UInt8} (h : newString (getBytes s ++ r) = s) :
    r = [] := by
  obtain ⟨cs, rfl⟩ := (paired_iff s).mp hs
  rw [getBytes_encode] at h
  exact utf8.read_eq_of_append replacement (utf16.encode_injective h)

/-- A text's bytes cut short read as the text only if the cut is inside a U+FFFD. -/
theorem high_of_newString_cut {s : JString} (hs : Paired s) {u v : List UInt8} (hc : getBytes s = u ++ v)
    (h : newString u = s) : v = [] ∨ ∃ b r, v = b :: r ∧ 0x80 ≤ b.toNat := by
  obtain ⟨cs, rfl⟩ := (paired_iff s).mp hs
  rw [getBytes_encode] at hc
  rcases utf8.read_eq_of_cut replacement hc (utf16.encode_injective h) with h | ⟨p, q, r, hp, hq, he, rfl⟩
  · exact Or.inl h
  · right
    have hw : utf8.enc replacement = [0xEF, 0xBF, 0xBD] := by decide
    rw [hw] at he
    rcases q with _ | ⟨b, q⟩
    · exact absurd rfl hq
    refine ⟨b, q ++ r, rfl, ?_⟩
    have hb : b ∈ [(0xEF : UInt8), 0xBF, 0xBD] := by rw [he]; simp
    simp only [List.mem_cons, List.not_mem_nil, or_false] at hb
    rcases hb with rfl | rfl | rfl <;> decide

/-! ## Bytes to text and back -/

/-- The bytes are well-formed UTF-8. -/
def ValidUtf8 (bytes : List UInt8) : Prop := bytes.toByteArray.IsValidUTF8

theorem validUtf8_iff {bytes : List UInt8} : ValidUtf8 bytes ↔ ∃ cs, bytes = utf8.encode cs := by
  constructor
  · rintro ⟨cs, h⟩
    exact ⟨cs, List.toByteArray_inj.mp h⟩
  · rintro ⟨cs, rfl⟩
    exact ⟨cs, rfl⟩

/-- Bytes read as text and written again are the same bytes exactly when they are
    well-formed UTF-8. -/
theorem getBytes_newString_iff {bytes : List UInt8} : getBytes (newString bytes) = bytes ↔ ValidUtf8 bytes := by
  rw [validUtf8_iff, newString, getBytes_encode]
  constructor
  · intro h
    exact ⟨_, h.symm⟩
  · rintro ⟨cs, rfl⟩
    rw [utf8.read_encode]

/-- Where more bytes follow the text written again and the bytes it was read from, and the
    two agree, so do the text and its bytes, unless those are followed by a byte from
    0x80 on. -/
theorem written_of_append {bytes x y : List UInt8} (h : getBytes (newString bytes) ++ x = bytes ++ y)
    (hy : ∀ b r, y = b :: r → b.toNat < 0x80) : getBytes (newString bytes) = bytes := by
  rcases List.append_eq_append_iff.mp h with ⟨w, hw, -⟩ | ⟨v, hv, rfl⟩
  · have hr : newString (getBytes (newString bytes) ++ w) = newString bytes := by rw [← hw]
    rw [eq_nil_of_newString (paired_newString bytes) hr, List.append_nil] at hw
    exact hw.symm
  · rcases high_of_newString_cut (paired_newString bytes) hv rfl with rfl | ⟨b, r, rfl, hb⟩
    · rw [List.append_nil] at hv
      exact hv
    · exact absurd (hy b (r ++ x) rfl) (Nat.not_lt.mpr hb)

/-- A truncated three-byte sequence is one malformed piece, an encoded surrogate too;
    an overlong lead byte is a piece of its own. -/
example : newString [0x61, 0xE4, 0xB8] = [0x61, 0xFFFD] ∧ newString [0xED, 0xA0, 0x80, 0x62] = [0xFFFD, 0x62] ∧
    newString [0xC0, 0x80] = [0xFFFD, 0xFFFD] ∧ getBytes [0x61, 0xD83D, 0x62] = [0x61, 0x3F, 0x62] := by
  decide

end NettyStudy.Text
