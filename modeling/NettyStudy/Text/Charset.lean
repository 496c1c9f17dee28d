/-
  NettyStudy.Text.Charset — single-byte charsets and UTF-16BE beside UTF-8, as the platform's
  default charset may be one. `getBytes` with US-ASCII or ISO-8859-1 writes a character as its
  code where that is below the charset's limit, and '?' for any other and for an unpaired
  surrogate.

  Proved:
  - `asciiCompatible_getBytes` / `asciiCompatible_singleByte`: all of them write ASCII
    text as its codes.
  - `getBytes_eq_usAscii`: on text with no unpaired surrogate, UTF-8 and US-ASCII write
    the same bytes only for ASCII text.
  - `eq_nil_of_usAscii`: US-ASCII and UTF-16BE do only for the empty text.
-/

import NettyStudy.Text.Unicode

namespace NettyStudy.Text

/-- `s.getBytes(charset)` for a charset of the first `limit` code points. -/
def singleByte (limit : Nat) (s : JString) : List UInt8 :=
  (utf16.parse s).map fun
    | some c => if c.toNat < limit then UInt8.ofNat c.toNat else 0x3F
    | none => 0x3F

def usAscii : JString → List UInt8 := singleByte 0x80

def iso8859_1 : JString → List UInt8 := singleByte 0x100

/-- UTF-16BE, of text with no unpaired surrogate. -/
def utf16be (s : JString) : List UInt8 := s.flatMap fun u => [UInt8.ofNat (u.toNat / 0x100), UInt8.ofNat u.toNat]

def IsAscii (s : JString) : Prop := ∀ u ∈ s, u.toNat < 0x80

instance (s : JString) : Decidable (IsAscii s) :=
  decidable_of_iff (s.all fun u => u.toNat < 0x80) (by simp [IsAscii])

/-- The charset writes ASCII text as its codes. -/
def AsciiCompatible (charset : JString → List UInt8) : Prop :=
  ∀ s, IsAscii s → charset s = s.map fun u => UInt8.ofNat u.toNat

theorem singleByte_encode (limit : Nat) (cs : List Char) : singleByte limit (utf16.encode cs) =
    cs.map fun c => if c.toNat < limit then UInt8.ofNat c.toNat else 0x3F := by
  rw [singleByte, utf16.parse_encode, List.map_map]
  rfl

theorem utf16Enc_ascii {c : Char} (h : c.toNat < 0x80) : utf16.enc c = [UInt16.ofNat c.toNat] := by
  show utf16Enc c = _
  rw [utf16Enc, if_pos (by omega)]

theorem utf8Enc_ascii {c : Char} (h : c.toNat < 0x80) : utf8.enc c = [UInt8.ofNat c.toNat] :=
  String.utf8EncodeChar_eq_singleton (Char.utf8Size_eq_one_iff.mpr (UInt32.le_iff_toNat_le.mpr (Nat.le_of_lt_succ h)))

/-- ASCII text is the text of characters below 0x80. -/
theorem exists_of_isAscii {s : JString} (h : IsAscii s) :
    ∃ cs : List Char, s = utf16.encode cs ∧ ∀ c ∈ cs, c.toNat < 0x80 := by
  induction s with
  | nil => exact ⟨[], rfl, by simp⟩
  | cons u s ih =>
    obtain ⟨cs, rfl, hcs⟩ := ih fun v hv => h v (List.mem_cons_of_mem u hv)
    have hu : u.toNat < 0x80 := h u List.mem_cons_self
    have hc : (Char.ofNat u.toNat).toNat = u.toNat := toNat_ofNat (by simp only [Nat.isValidChar]; omega)
    refine ⟨Char.ofNat u.toNat :: cs, ?_, ?_⟩
    · rw [utf16.encode_cons, utf16Enc_ascii (by omega), hc, UInt16.ofNat_toNat]
      rfl
    · intro c hm
      rcases List.mem_cons.mp hm with rfl | hm
      · omega
      · exact hcs c hm

theorem map_encode_ascii {cs : List Char} (h : ∀ c ∈ cs, c.toNat < 0x80) :
    ((utf16.encode cs).map fun u => UInt8.ofNat u.toNat) = cs.map fun c => UInt8.ofNat c.toNat := by
  induction cs with
  | nil => rfl
  | cons c cs ih =>
    have hc := h c List.mem_cons_self
    rw [utf16.encode_cons, List.map_append, ih fun d hd => h d (List.mem_cons_of_mem c hd), utf16Enc_ascii hc,
      List.map_singleton, unit_toNat (by omega)]
    rfl

theorem asciiCompatible_getBytes : AsciiCompatible getBytes := by
  intro s hs
  obtain ⟨cs, rfl, hcs⟩ := exists_of_isAscii hs
  rw [getBytes_encode, map_encode_ascii hcs]
  clear hs
  induction cs with
  | nil => rfl
  | cons c cs ih =>
    rw [utf8.encode_cons, ih fun d hd => hcs d (List.mem_cons_of_mem c hd), utf8Enc_ascii (hcs c List.mem_cons_self)]
    rfl

theorem asciiCompatible_singleByte {limit : Nat} (h : 0x80 ≤ limit) : AsciiCompatible (singleByte limit) := by
  intro s hs
  obtain ⟨cs, rfl, hcs⟩ := exists_of_isAscii hs
  rw [singleByte_encode, map_encode_ascii hcs]
  refine List.map_congr_left fun c hc => ?_
  have := hcs c hc
  rw [if_pos (by omega)]

/-- One byte a character is all UTF-8 writes only where every character is ASCII. -/
theorem ascii_of_encode_length : ∀ {cs : List Char}, (utf8.encode cs).length ≤ cs.length →
    ∀ c ∈ cs, c.toNat < 0x80 := by
  have hle : ∀ cs : List Char, cs.length ≤ (utf8.encode cs).length := by
    intro cs
    induction cs with
    | nil => exact Nat.le_refl 0
    | cons c cs ih =>
      have := List.length_pos_iff.mpr (utf8.enc_ne_nil c)
      rw [utf8.encode_cons, List.length_append, List.length_cons]
      omega
  intro cs
  induction cs with
  | nil => intro _ c hc; cases hc
  | cons c cs ih =>
    intro h
    rw [utf8.encode_cons, List.length_append, List.length_cons] at h
    have hpos := List.length_pos_iff.mpr (utf8.enc_ne_nil c)
    have hcs := hle cs
    have hc : c.utf8Size = 1 := by
      rw [← String.length_utf8EncodeChar]
      show (utf8.enc c).length = 1
      omega
    intro d hd
    rcases List.mem_cons.mp hd with rfl | hd
    · exact Nat.lt_succ_of_le (UInt32.le_iff_toNat_le.mp (Char.utf8Size_eq_one_iff.mp hc))
    · exact ih (by omega) d hd

/-- UTF-8 and US-ASCII write the same bytes only for ASCII text. -/
theorem getBytes_eq_usAscii {s : JString} (hs : Paired s) : getBytes s = usAscii s ↔ IsAscii s := by
  constructor
  · intro h
    obtain ⟨cs, rfl⟩ := (paired_iff s).mp hs
    rw [getBytes_encode, usAscii, singleByte_encode] at h
    have hlen := congrArg List.length h
    rw [List.length_map] at hlen
    intro u hu
    obtain ⟨c, hc, hu⟩ := List.mem_flatMap.mp hu
    have hlt := ascii_of_encode_length (Nat.le_of_eq hlen) c hc
    rw [utf16Enc_ascii hlt, List.mem_singleton] at hu
    rw [hu, unit_toNat (by omega)]
    exact hlt
  · intro h
    rw [asciiCompatible_getBytes s h]
    exact (asciiCompatible_singleByte (Nat.le_refl 0x80) s h).symm

/-- US-ASCII writes at most a byte a unit, UTF-16BE two. -/
theorem eq_nil_of_usAscii {s : JString} (hs : Paired s) (h : usAscii s = utf16be s) : s = [] := by
  obtain ⟨cs, rfl⟩ := (paired_iff s).mp hs
  have hle : ∀ cs : List Char, cs.length ≤ (utf16.encode cs).length := by
    intro cs
    induction cs with
    | nil => exact Nat.le_refl 0
    | cons c cs ih =>
      have := List.length_pos_iff.mpr (utf16.enc_ne_nil c)
      rw [utf16.encode_cons, List.length_append, List.length_cons]
      omega
  have hlen := congrArg List.length h
  rw [usAscii, singleByte_encode, List.length_map, utf16be, List.length_flatMap] at hlen
  have hcs := hle cs
  have hsum : ((utf16.encode cs).map fun u => [UInt8.ofNat (u.toNat / 0x100), UInt8.ofNat u.toNat].length).sum =
      (utf16.encode cs).length * 2 := by simp
  refine List.length_eq_zero_iff.mp ?_
  omega

/-- 'é' is two bytes in UTF-8, one in ISO-8859-1 and '?' in US-ASCII. -/
example : getBytes [0xE9] = [0xC3, 0xA9] ∧ iso8859_1 [0xE9] = [0xE9] ∧ usAscii [0xE9] = [0x3F] := by decide

end NettyStudy.Text
