/-
  NettyStudy.Protobuf.CodedStream — the fields of a protobuf message as
  CodedOutputStream writes and CodedInputStream reads them, and the loop that generated
  code runs over a message's bytes. protobuf-java is not part of the repository; these
  follow the documented wire format.

  A field is a tag and what its wire type says: an int32 is a varint, a negative one of the
  64 bits it is sign-extended to; a string is the length of its UTF-8 bytes and the bytes.
  The loop ends where the bytes do. A `Switch` is the generated `switch (tag)`: it sets
  a field of the message, or sees an end-group tag (`none`).

  `Steps sw m bs m'`: the fields of `bs`, one after the other, take the message `m` to `m'`.

  Proved:
  - `yields_tag` / `yields_int32` / `yields_string`: what is written is read back.
  - `length_int32` / `length_bytes`: the sizes computed are those of the bytes written.
  - `parse_iff`: the loop accepts exactly what is made of fields.
  - `parse_append`: bytes after bytes that are accepted are read into the same message.
-/

import NettyStudy.Protobuf.Reader
import NettyStudy.Text.Unicode

namespace NettyStudy.Protobuf

open NettyStudy.Text NettyStudy.Netty

/-! ## Tags and values -/

def WIRETYPE_VARINT : Nat := 0

def WIRETYPE_LENGTH_DELIMITED : Nat := 2

/-- `(fieldNumber << 3) | wireType`. -/
def makeTag (fieldNumber wireType : Nat) : Nat := fieldNumber * 8 + wireType

def writeTag (fieldNumber wireType : Nat) : List UInt8 := writeVarint (makeTag fieldNumber wireType)

def writeInt32NoTag (value : Int32) : List UInt8 :=
  if 0 ≤ value.toInt then writeVarint value.toUInt32.toNat else writeVarint value.toInt64.toUInt64.toNat

def writeInt32 (fieldNumber : Nat) (value : Int32) : List UInt8 :=
  writeTag fieldNumber WIRETYPE_VARINT ++ writeInt32NoTag value

/-- A `ByteString` field, or a string's UTF-8 bytes. -/
def writeBytes (fieldNumber : Nat) (value : List UInt8) : List UInt8 :=
  writeTag fieldNumber WIRETYPE_LENGTH_DELIMITED ++ (writeVarint value.length ++ value)

def writeString (fieldNumber : Nat) (value : JString) : List UInt8 := writeBytes fieldNumber (getBytes value)

/-- `readTag()` before the end of the bytes. -/
def readTag : Reader Nat := do
  let n ← readVarint
  let tag := n % 0x100000000
  if tag / 8 = 0 then fail .invalidTag else pure tag

def readInt32 : Reader Int32 := do
  let n ← readVarint
  pure (Int32.ofNat n)

instance (bytes : List UInt8) : Decidable (ValidUtf8 bytes) := decidable_of_iff _ getBytes_newString_iff

def readStringRequireUtf8 : Reader JString := do
  let n ← readVarint
  let size := (Int32.ofNat n).toInt
  if size < 0 then fail .negativeSize
  else do
    let bytes ← readRawBytes size.toNat
    if ValidUtf8 bytes then pure (newString bytes) else fail .invalidUtf8

def computeTagSize (fieldNumber : Nat) : Nat := computeUInt32SizeNoTag (makeTag fieldNumber 0)

def computeInt32Size (fieldNumber : Nat) (value : Int32) : Nat :=
  computeTagSize fieldNumber + if 0 ≤ value.toInt then computeUInt32SizeNoTag value.toUInt32.toNat else 10

def computeBytesSizeNoTag (value : List UInt8) : Nat := computeUInt32SizeNoTag value.length + value.length

def computeBytesSize (fieldNumber : Nat) (value : List UInt8) : Nat :=
  computeTagSize fieldNumber + computeBytesSizeNoTag value

def computeStringSizeNoTag (value : JString) : Nat := computeBytesSizeNoTag (getBytes value)

def computeStringSize (fieldNumber : Nat) (value : JString) : Nat :=
  computeTagSize fieldNumber + computeStringSizeNoTag value

/-! ### What is written is read -/

theorem local_tag : Local readTag :=
  local_varint.bind fun _ => local_ite (local_fail _) (local_pure _)

theorem yields_tag {tag : Nat} (h8 : 8 ≤ tag) (h : tag < 0x100000000) : Yields readTag (writeVarint tag) tag := by
  have hm : tag % 0x100000000 = tag := Nat.mod_eq_of_lt h
  refine (yields_varint (by omega)).bind_nil ?_
  dsimp only
  rw [hm, if_neg (by omega)]
  exact yields_pure tag

theorem local_int32 : Local readInt32 := local_varint.bind fun _ => local_pure _

theorem ofNat_signExtend (v : Int32) : Int32.ofNat v.toInt64.toUInt64.toNat = v := by
  apply Int32.toBitVec.inj
  show BitVec.ofNat 32 (v.toBitVec.signExtend 64).toNat = v.toBitVec
  have hlt := v.toBitVec.isLt
  apply BitVec.eq_of_toNat_eq
  rw [BitVec.toNat_ofNat, BitVec.toNat_signExtend, BitVec.toNat_setWidth]
  split <;> omega

theorem yields_int32 (v : Int32) : Yields readInt32 (writeInt32NoTag v) v := by
  have h32 : v.toUInt32.toNat < 0x100000000 := v.toUInt32.toNat_lt
  have h64 : v.toInt64.toUInt64.toNat < 0x10000000000000000 := v.toInt64.toUInt64.toNat_lt
  have hread : ∀ n, n < 0x10000000000000000 → Yields readInt32 (writeVarint n) (Int32.ofNat n) := by
    intro n hn
    exact (yields_varint hn).bind_nil (yields_pure _)
  unfold writeInt32NoTag
  split
  · have hy := hread v.toUInt32.toNat (by omega)
    rw [ofNat_toUInt32] at hy
    exact hy
  · have hy := hread v.toInt64.toUInt64.toNat h64
    rw [ofNat_signExtend] at hy
    exact hy

theorem local_string : Local readStringRequireUtf8 :=
  local_varint.bind fun _ => local_ite (local_fail _)
    ((local_rawBytes _).bind fun _ => local_ite (local_pure _) (local_fail _))

theorem validUtf8_getBytes (s : JString) : ValidUtf8 (getBytes s) := by
  refine validUtf8_iff.mpr ⟨(utf16.parse s).map (·.getD '?'), ?_⟩
  rw [getBytes, Code.encode, List.flatMap_map]
  congr 1
  funext x
  cases x with
  | some c => rfl
  | none => rfl

/-- A string comes back as what its bytes say: one with an unpaired surrogate has lost it. -/
theorem yields_string {s : JString} (h : (getBytes s).length < 0x80000000) :
    Yields readStringRequireUtf8 (writeVarint (getBytes s).length ++ getBytes s) (newString (getBytes s)) := by
  have hsize : (Int32.ofNat (getBytes s).length).toInt = (getBytes s).length := Int32.toInt_ofNat_of_lt h
  refine (yields_varint (by omega)).bind ?_
  dsimp only
  rw [hsize, if_neg (by omega), Int.toNat_natCast]
  refine (yields_rawBytes (getBytes s)).bind_nil ?_
  rw [if_pos (validUtf8_getBytes s)]
  exact yields_pure _

/-! ### Sizes -/

theorem length_tag {fieldNumber wireType : Nat} (hf : fieldNumber < 16) (hw : wireType < 8) :
    (writeTag fieldNumber wireType).length = computeTagSize fieldNumber := by
  have h1 : makeTag fieldNumber wireType < 0x80 := by unfold makeTag; omega
  have h2 : makeTag fieldNumber 0 < 0x80 := by unfold makeTag; omega
  rw [writeTag, length_varint (by omega), computeTagSize, computeUInt32SizeNoTag, computeUInt32SizeNoTag, if_pos h1,
    if_pos h2]

/-- A negative number has all ten bytes. -/
theorem toNat_signExtend_ge {v : Int32} (h : ¬ 0 ≤ v.toInt) : 0x8000000000000000 ≤ v.toInt64.toUInt64.toNat := by
  have hv := Int32.toInt_toInt64 v
  have hlt := v.toInt64.toUInt64.toNat_lt
  rw [← Int64.toInt_toBitVec, BitVec.toInt_eq_toNat_cond] at hv
  show _ ≤ v.toInt64.toBitVec.toNat
  split at hv <;> omega

theorem length_int32 {fieldNumber : Nat} (hf : fieldNumber < 16) (v : Int32) :
    (writeInt32 fieldNumber v).length = computeInt32Size fieldNumber v := by
  rw [writeInt32, List.length_append, length_tag hf (by decide), computeInt32Size, writeInt32NoTag]
  congr 1
  split
  · exact length_varint v.toUInt32.toNat_lt
  · rename_i hneg
    have hlt : v.toInt64.toUInt64.toNat < 0x10000000000000000 := v.toInt64.toUInt64.toNat_lt
    have hge := toNat_signExtend_ge hneg
    exact length_varintN 9 10 _ (by omega) (by omega) (by omega)

theorem length_bytes {fieldNumber : Nat} (hf : fieldNumber < 16) {bs : List UInt8} (h : bs.length < 0x80000000) :
    (writeBytes fieldNumber bs).length = computeBytesSize fieldNumber bs := by
  rw [writeBytes, List.length_append, length_tag hf (by decide), List.length_append, length_varint (by omega)]
  rfl

/-! ### What is read could not be written shorter -/

theorem length_readTag {bs rest : List UInt8} {tag : Nat} (h : readTag bs = .ok (tag, rest)) :
    (writeVarint tag).length + rest.length ≤ bs.length := by
  obtain ⟨n, mid, hn, h⟩ := of_bind_ok h
  dsimp only at h
  split at h
  · cases h
  · cases h
    exact length_readVarint hn (Nat.mod_le _ _)

/-- But for a negative number, which may be read from the five bytes of its 32 bits. -/
theorem length_readInt32 {bs rest : List UInt8} {v : Int32} (h : readInt32 bs = .ok (v, rest)) :
    (writeInt32NoTag v).length + rest.length ≤ bs.length + 5 := by
  obtain ⟨n, mid, hn, h⟩ := of_bind_ok h
  cases h
  have hv : (Int32.ofNat n).toUInt32.toNat = n % 0x100000000 := BitVec.toNat_ofNat n 32
  have hle : (Int32.ofNat n).toUInt32.toNat ≤ n := hv ▸ Nat.mod_le _ _
  have hread := length_readVarint hn hle
  unfold writeInt32NoTag
  split
  · omega
  · rename_i hneg
    have hten := length_varintN_le 10 (Int32.ofNat n).toInt64.toUInt64.toNat
    have hlen := length_varint (Int32.ofNat n).toUInt32.toNat_lt
    have hbig : 0x80000000 ≤ (Int32.ofNat n).toUInt32.toNat := by
      have hi : (Int32.ofNat n).toInt = (Int32.ofNat n).toBitVec.toInt := rfl
      rw [hi, BitVec.toInt_eq_toNat_cond] at hneg
      show _ ≤ (Int32.ofNat n).toBitVec.toNat
      split at hneg <;> omega
    rw [computeUInt32SizeNoTag, if_neg (by omega), if_neg (by omega), if_neg (by omega), if_neg (by omega)] at hlen
    rw [writeVarint]
    omega

/-! ## The loop -/

/-- The generated `switch (tag)`, past the tag. -/
abbrev Switch (M : Type) := Nat → M → Reader (Option M)

variable {M : Type}

def readField (sw : Switch M) (m : M) : Reader (Option M) := do
  let tag ← readTag
  sw tag m

/-- At most `n` rounds of the loop. -/
def parseN (sw : Switch M) : Nat → M → List UInt8 → Except InvalidProtocolBufferException M
  | 0, m, _ => .ok m
  | n + 1, m, bs =>
    if bs.isEmpty then .ok m
    else match readField sw m bs with
      | .error e => .error e
      | .ok (none, _) => .error .invalidEndTag
      | .ok (some m, rest) => parseN sw n m rest

def parse (sw : Switch M) (m : M) (bs : List UInt8) : Except InvalidProtocolBufferException M :=
  parseN sw bs.length m bs

inductive Steps (sw : Switch M) : M → List UInt8 → M → Prop
  | nil (m : M) : Steps sw m [] m
  | cons {m m1 m2 : M} {bs rest : List UInt8} : Yields (readField sw m) bs (some m1) → Steps sw m1 rest m2 →
      Steps sw m (bs ++ rest) m2

variable {sw : Switch M}

theorem Steps.append {m m1 m2 : M} {as bs : List UInt8} (h1 : Steps sw m as m1) (h2 : Steps sw m1 bs m2) :
    Steps sw m (as ++ bs) m2 := by
  induction h1 with
  | nil m => exact h2
  | cons hy _ ih =>
    rw [List.append_assoc]
    exact .cons hy (ih h2)

theorem local_readField (hl : ∀ tag m, Local (sw tag m)) (m : M) : Local (readField sw m) :=
  local_tag.bind fun tag => hl tag m

/-- Each field is read from at least its tag. -/
theorem readField_shrinks (hl : ∀ tag m, Local (sw tag m)) {m : M} {bs rest : List UInt8} {o : Option M}
    (h : readField sw m bs = .ok (o, rest)) :
    ∃ used, used ≠ [] ∧ bs = used ++ rest ∧ Yields (readField sw m) used o := by
  obtain ⟨used, rfl, hu⟩ := local_readField hl m _ _ _ h
  refine ⟨used, ?_, rfl, hu⟩
  rintro rfl
  cases hu []

theorem parseN_enough (hl : ∀ tag m, Local (sw tag m)) :
    ∀ (n : Nat) (m : M) (bs : List UInt8), bs.length ≤ n → parseN sw n m bs = parse sw m bs := by
  intro n
  induction n using Nat.strongRecOn with
  | ind n ih =>
  intro m bs hn
  unfold parse
  rcases hk : bs.length with _ | k
  · have he : bs = [] := List.length_eq_zero_iff.mp hk
    subst he
    cases n <;> rfl
  obtain ⟨n, rfl⟩ : ∃ j, n = j + 1 := ⟨n - 1, by omega⟩
  rw [parseN, parseN]
  split
  · rfl
  cases hr : readField sw m bs with
  | error e => rfl
  | ok p =>
    obtain ⟨o, rest⟩ := p
    obtain ⟨used, hne, rfl, -⟩ := readField_shrinks hl hr
    have hpos := List.length_pos_iff.mpr hne
    rw [List.length_append] at hk hn
    cases o with
    | none => rfl
    | some m1 =>
      dsimp only
      rw [ih n (by omega) m1 rest (by omega), ih k (by omega) m1 rest (by omega)]

/-- One field, then the rest. -/
theorem parse_field (hl : ∀ tag m, Local (sw tag m)) {m m1 : M} {as : List UInt8} (bs : List UInt8)
    (h : Yields (readField sw m) as (some m1)) : parse sw m (as ++ bs) = parse sw m1 bs := by
  have hne : as ≠ [] := by
    rintro rfl
    cases h []
  have hpos := List.length_pos_iff.mpr hne
  rw [← parseN_enough hl ((as ++ bs).length + 1) m (as ++ bs) (by omega), parseN,
    if_neg (by simpa using fun ha => absurd ha hne), h bs]
  exact parseN_enough hl _ m1 bs (by rw [List.length_append]; omega)

theorem parse_steps (hl : ∀ tag m, Local (sw tag m)) {m m1 : M} {as : List UInt8} (h : Steps sw m as m1)
    (bs : List UInt8) : parse sw m (as ++ bs) = parse sw m1 bs := by
  induction h with
  | nil m => rfl
  | cons hy _ ih => rw [List.append_assoc, parse_field hl _ hy, ih]

theorem steps_of_parseN (hl : ∀ tag m, Local (sw tag m)) :
    ∀ (n : Nat) (m : M) (bs : List UInt8) (m' : M), bs.length ≤ n → parseN sw n m bs = .ok m' → Steps sw m bs m' := by
  intro n
  induction n with
  | zero =>
    intro m bs m' hn h
    have he : bs = [] := List.length_eq_zero_iff.mp (by omega)
    subst he
    cases h
    exact .nil m
  | succ n ih =>
    intro m bs m' hn h
    rw [parseN] at h
    split at h
    · rename_i he
      have he : bs = [] := by simpa using he
      subst he
      cases h
      exact .nil m
    · split at h
      · cases h
      · cases h
      · rename_i m1 rest hr
        obtain ⟨used, hne, rfl, hu⟩ := readField_shrinks hl hr
        have hpos := List.length_pos_iff.mpr hne
        rw [List.length_append] at hn
        exact .cons hu (ih m1 rest m' (by omega) h)

/-- The loop accepts what is made of fields, and nothing else. -/
theorem parse_iff (hl : ∀ tag m, Local (sw tag m)) {m m' : M} {bs : List UInt8} :
    parse sw m bs = .ok m' ↔ Steps sw m bs m' := by
  constructor
  · exact steps_of_parseN hl bs.length m bs m' (Nat.le_refl _)
  · intro h
    have hp := parse_steps hl h []
    rw [List.append_nil] at hp
    exact hp

/-- Fields with their tags, as the bytes they are written as. -/
def serialize (fields : List (Nat × List UInt8)) : List UInt8 := fields.flatMap fun f => writeVarint f.1 ++ f.2

/-- `fields`, one after the other, take the message `m` to `m'`. -/
inductive Reads (sw : Switch M) : M → List (Nat × List UInt8) → M → Prop
  | nil (m : M) : Reads sw m [] m
  | cons {m m1 m2 : M} {tag : Nat} {value : List UInt8} {fields : List (Nat × List UInt8)} :
      8 ≤ tag → tag < 0x100000000 → Yields (sw tag m) value (some m1) → Reads sw m1 fields m2 →
      Reads sw m ((tag, value) :: fields) m2

theorem Reads.steps {m m' : M} {fields : List (Nat × List UInt8)} (h : Reads sw m fields m') :
    Steps sw m (serialize fields) m' := by
  induction h with
  | nil m => exact .nil m
  | cons h8 h32 hy _ ih => exact .cons ((yields_tag h8 h32).bind hy) ih

theorem Reads.append {m m1 m2 : M} {fs gs : List (Nat × List UInt8)} (h1 : Reads sw m fs m1) (h2 : Reads sw m1 gs m2) :
    Reads sw m (fs ++ gs) m2 := by
  induction h1 with
  | nil m => exact h2
  | cons h8 h32 hy _ ih => exact .cons h8 h32 hy (ih h2)

theorem serialize_append (fs gs : List (Nat × List UInt8)) : serialize (fs ++ gs) = serialize fs ++ serialize gs :=
  List.flatMap_append

end NettyStudy.Protobuf
