/-
  NettyStudy.Protobuf.GeneratedMessage — what the code protoc generates rests on: string
  fields held as text or as bytes, the fields a message does not know, and what a message
  type's switch and its writer owe each other.

  A `LazyString` is a `volatile Object` that is a String or a ByteString of well-formed
  UTF-8: a getter of the one form leaves that form behind. What it says is its `utf8`.

  UnknownFieldSet is protobuf-java's and not part of the repository. What messages rely on
  is its documented contract: it keeps the fields merged into it, what it writes and merges
  again is the same fields, and it writes a field in no more bytes than it was read from.

  Proved, for every message type with such a switch and writer (`Format`):
  - `Format.parse_serialize`: what is written is parsed to what it was written for.
  - `Format.parse_ok`: what is parsed can be written.
  - `Format.parse_append_serialize`: a message written behind bytes is merged into theirs.
-/

import NettyStudy.Protobuf.CodedStream

namespace NettyStudy.Protobuf

open NettyStudy.Text

/-! ## String fields -/

/-- A ByteString that has passed `checkByteStringIsUtf8`, or was encoded from a String. -/
abbrev Utf8 := {bytes : List UInt8 // ValidUtf8 bytes}

def copyFromUtf8 (s : JString) : Utf8 := ⟨getBytes s, validUtf8_getBytes s⟩

def toStringUtf8 (b : Utf8) : JString := newString b.1

theorem getBytes_ne_nil {s : JString} (h : s ≠ []) : getBytes s ≠ [] := by
  obtain ⟨x, xs, hp⟩ := List.exists_cons_of_ne_nil (utf16.parse_ne_nil h)
  rw [getBytes, hp, List.flatMap_cons]
  cases x with
  | some c => simp [utf8.enc_ne_nil c]
  | none => simp

theorem copyFromUtf8_toStringUtf8 (b : Utf8) : copyFromUtf8 (toStringUtf8 b) = b :=
  Subtype.ext (getBytes_newString_iff.mpr b.2)

/-- No array is longer. -/
def Utf8.Fits (b : Utf8) : Prop := b.1.length < 0x80000000

instance (b : Utf8) : Decidable b.Fits := inferInstanceAs (Decidable (_ < _))

theorem fits_nil : (copyFromUtf8 []).Fits := by decide

/-- Over an empty string any string stays. -/
theorem orElse_nil (b : Utf8) : (if b.1.isEmpty then copyFromUtf8 [] else b) = b := by
  split
  · rename_i h
    exact Subtype.ext (List.isEmpty_iff.mp h).symm
  · rfl

theorem orElse_zero (v : Int32) : (if v ≠ 0 then v else 0) = v := by
  split
  · rfl
  · rename_i h
    exact (of_not_not h).symm

inductive LazyString where
  | string (s : JString)
  | byteString (b : Utf8)
  deriving DecidableEq

namespace LazyString

/-- The String, and the field once it holds it. -/
def get : LazyString → JString × LazyString
  | .string s => (s, .string s)
  | .byteString b => (toStringUtf8 b, .string (toStringUtf8 b))

/-- The ByteString, and the field once it holds it. -/
def getByteString : LazyString → Utf8 × LazyString
  | .string s => (copyFromUtf8 s, .byteString (copyFromUtf8 s))
  | .byteString b => (b, .byteString b)

/-- What the field says, in either form. -/
def utf8 : LazyString → Utf8
  | .string s => copyFromUtf8 s
  | .byteString b => b

@[simp] theorem get_string (s : JString) : (string s).get = (s, .string s) := rfl

@[simp] theorem get_byteString (b : Utf8) : (byteString b).get = (toStringUtf8 b, .string (toStringUtf8 b)) := rfl

@[simp] theorem utf8_get (x : LazyString) : x.get.2.utf8 = x.utf8 := by
  cases x with
  | string s => rfl
  | byteString b => exact copyFromUtf8_toStringUtf8 b

@[simp] theorem copyFromUtf8_get (x : LazyString) : copyFromUtf8 x.get.1 = x.utf8 := by
  cases x with
  | string s => rfl
  | byteString b => exact copyFromUtf8_toStringUtf8 b

@[simp] theorem getByteString_fst (x : LazyString) : x.getByteString.1 = x.utf8 := by cases x <;> rfl

@[simp] theorem getByteString_snd (x : LazyString) : x.getByteString.2 = .byteString x.utf8 := by cases x <;> rfl

theorem utf8_getByteString (x : LazyString) : x.getByteString.2.utf8 = x.utf8 := by cases x <;> rfl

@[simp] theorem utf8_byteString (b : Utf8) : (byteString b).utf8 = b := rfl

@[simp] theorem utf8_string (b : Utf8) : (string (toStringUtf8 b)).utf8 = b := copyFromUtf8_toStringUtf8 b

/-- There is text where there are bytes. -/
theorem isEmpty_get (x : LazyString) : x.get.1.isEmpty = x.utf8.1.isEmpty := by
  rw [← copyFromUtf8_get x, copyFromUtf8]
  rcases hs : x.get.1 with _ | ⟨u, us⟩
  · rfl
  · have hne := getBytes_ne_nil (List.cons_ne_nil u us)
    simpa using hne

end LazyString

namespace GeneratedMessageV3

def writeString (fieldNumber : Nat) : LazyString → List UInt8
  | .string s => Protobuf.writeString fieldNumber s
  | .byteString b => writeBytes fieldNumber b.1

def computeStringSize (fieldNumber : Nat) : LazyString → Nat
  | .string s => Protobuf.computeStringSize fieldNumber s
  | .byteString b => computeBytesSize fieldNumber b.1

def computeStringSizeNoTag : LazyString → Nat
  | .string s => Protobuf.computeStringSizeNoTag s
  | .byteString b => computeBytesSizeNoTag b.1

theorem writeString_eq (fieldNumber : Nat) (x : LazyString) :
    writeString fieldNumber x = writeBytes fieldNumber x.utf8.1 := by cases x <;> rfl

theorem computeStringSize_eq (fieldNumber : Nat) (x : LazyString) :
    computeStringSize fieldNumber x = computeBytesSize fieldNumber x.utf8.1 := by cases x <;> rfl

theorem computeStringSizeNoTag_eq (x : LazyString) : computeStringSizeNoTag x = computeBytesSizeNoTag x.utf8.1 := by
  cases x <;> rfl

end GeneratedMessageV3

/-! ## Sizes -/

/-- `int` sums wrap around. -/
theorem ofNat_sum (l : List Nat) : Int32.ofNat l.sum = (l.map Int32.ofNat).sum := by
  induction l with
  | nil => rfl
  | cons n l ih => rw [List.sum_cons, List.map_cons, List.sum_cons, Int32.ofNat_add, ih]

/-- An array's size is its length where an array can be that long; where it cannot, no size
    is. -/
theorem toInt_ofNat_iff (n : Nat) : (n : Int) = (Int32.ofNat n).toInt ↔ n < 0x80000000 := by
  constructor
  · intro h
    have := (Int32.ofNat n).toInt_lt
    omega
  · exact fun h => (Int32.toInt_ofNat_of_lt h).symm

/-! ## Fields of one kind -/

variable {M : Type} {sw : Switch M}

def int32Field (tag : Nat) (v : Int32) : List (Nat × List UInt8) :=
  if v ≠ 0 then [(tag, writeInt32NoTag v)] else []

def delimited (b : Utf8) : List UInt8 := writeVarint b.1.length ++ b.1

def stringField (tag : Nat) (b : Utf8) : List (Nat × List UInt8) :=
  if b.1.isEmpty then [] else [(tag, delimited b)]

def repeatedField (tag : Nat) (bs : List Utf8) : List (Nat × List UInt8) := bs.map fun b => (tag, delimited b)

/-- Where a field is left out its size is. -/
theorem length_int32Written {fieldNumber : Nat} (hf : fieldNumber < 16) (v : Int32) :
    (if v ≠ 0 then writeInt32 fieldNumber v else []).length = if v ≠ 0 then computeInt32Size fieldNumber v else 0 := by
  split
  · exact length_int32 hf v
  · rfl

theorem length_stringWritten {fieldNumber : Nat} (hf : fieldNumber < 16) {b : Utf8} (hb : b.Fits) :
    (if !b.1.isEmpty then writeBytes fieldNumber b.1 else []).length =
      if !b.1.isEmpty then computeBytesSize fieldNumber b.1 else 0 := by
  split
  · exact length_bytes hf hb
  · rfl

theorem serialize_int32Field (fieldNumber : Nat) (v : Int32) :
    serialize (int32Field (makeTag fieldNumber WIRETYPE_VARINT) v) =
      if v ≠ 0 then writeInt32 fieldNumber v else [] := by
  unfold int32Field
  split
  · exact List.append_nil _
  · rfl

/-- A tag of one byte, and the number. -/
theorem length_int32Field_tag {tag : Nat} (h : tag < 0x80) (v : Int32) :
    (serialize (int32Field tag v)).length ≤ 1 + (writeInt32NoTag v).length := by
  unfold int32Field
  split
  · rw [serialize, List.flatMap_singleton, List.length_append, length_varint_one h]
  · exact Nat.zero_le _

theorem length_stringField {tag : Nat} (h : tag < 0x80) (b : Utf8) :
    (serialize (stringField tag b)).length ≤ 1 + (delimited b).length := by
  unfold stringField
  split
  · exact Nat.zero_le _
  · rw [serialize, List.flatMap_singleton, List.length_append, length_varint_one h]

theorem length_repeatedField {tag : Nat} (h : tag < 0x80) (bs : List Utf8) (b : Utf8) :
    (serialize (repeatedField tag (bs ++ [b]))).length =
      (serialize (repeatedField tag bs)).length + (1 + (delimited b).length) := by
  have hone : (serialize (repeatedField tag [b])).length = 1 + (delimited b).length := by
    rw [repeatedField, List.map_singleton, serialize, List.flatMap_singleton, List.length_append,
      length_varint_one h]
  rw [repeatedField, List.map_append, serialize_append, List.length_append]
  exact congrArg _ hone

/-- A tag and a number of ten bytes at most each. -/
theorem length_int32Field_le (tag : Nat) (v : Int32) : (serialize (int32Field tag v)).length ≤ 20 := by
  unfold int32Field
  split
  · have htag := length_varintN_le 10 tag
    have hv : (writeInt32NoTag v).length ≤ 10 := by
      unfold writeInt32NoTag
      split
      · exact length_varintN_le 10 _
      · exact length_varintN_le 10 _
    rw [serialize, List.flatMap_singleton, List.length_append]
    exact Nat.add_le_add htag hv
  · exact Nat.zero_le _

theorem serialize_stringField (fieldNumber : Nat) (b : Utf8) :
    serialize (stringField (makeTag fieldNumber WIRETYPE_LENGTH_DELIMITED) b) =
      if !b.1.isEmpty then writeBytes fieldNumber b.1 else [] := by
  unfold stringField
  cases b.1.isEmpty with
  | true => rfl
  | false => exact List.append_nil _

theorem serialize_repeatedField (fieldNumber : Nat) (bs : List Utf8) :
    serialize (repeatedField (makeTag fieldNumber WIRETYPE_LENGTH_DELIMITED) bs) =
      bs.flatMap fun b => writeBytes fieldNumber b.1 := by
  rw [repeatedField, serialize, List.flatMap_map]
  rfl

theorem yields_delimited {b : Utf8} (h : b.Fits) : Yields readStringRequireUtf8 (delimited b) (toStringUtf8 b) := by
  have hb : getBytes (toStringUtf8 b) = b.1 := congrArg Subtype.val (copyFromUtf8_toStringUtf8 b)
  have hy := yields_string (s := toStringUtf8 b) (by rw [hb]; exact h)
  rw [hb] at hy
  exact hy

/-- A string that is read is one whose bytes fit an array, and were there. -/
theorem of_readString {bs rest : List UInt8} {s : JString} (h : readStringRequireUtf8 bs = .ok (s, rest)) :
    ∃ b : Utf8, (b.Fits ∧ s = toStringUtf8 b) ∧ (delimited b).length + rest.length ≤ bs.length := by
  obtain ⟨n, mid, hn, h⟩ := of_bind_ok h
  dsimp only at h
  split at h
  · cases h
  obtain ⟨bytes, mid', hb, h⟩ := of_bind_ok h
  split at h
  · rename_i hv
    cases h
    have hlt := (Int32.ofNat n).toInt_lt
    unfold readRawBytes at hb
    split at hb
    · rename_i hsize hle
      cases hb
      have hlen : (mid.take (Int32.ofNat n).toInt.toNat).length = (Int32.ofNat n).toInt.toNat :=
        List.length_take_of_le hle
      have hn' : (Int32.ofNat n).toInt.toNat ≤ n := by
        have hi : (Int32.ofNat n).toInt = (BitVec.ofNat 32 n).toInt := rfl
        have := Nat.mod_le n 0x100000000
        rw [hi, BitVec.toInt_eq_toNat_cond, BitVec.toNat_ofNat]
        split <;> omega
      have hread := length_readVarint hn hn'
      refine ⟨⟨_, hv⟩, ⟨?_, rfl⟩, ?_⟩
      · rw [Utf8.Fits, hlen]
        omega
      · rw [delimited, List.length_append, List.length_drop, hlen]
        omega
    · cases hb
  · cases h

section
variable {tag : Nat} (h8 : 8 ≤ tag) (h32 : tag < 0x100000000)
include h8 h32

/-- A switch that reads an int32 at `tag` and sets it. -/
theorem reads_int32 {f : Int32 → M} (v0 : Int32)
    (hsw : sw tag (f v0) = readInt32 >>= fun v => pure (some (f v))) (v : Int32) :
    Reads sw (f v0) (int32Field tag v) (f (if v ≠ 0 then v else v0)) := by
  unfold int32Field
  split
  · refine .cons h8 h32 ?_ (.nil _)
    rw [hsw]
    exact (yields_int32 v).bind_nil (yields_pure _)
  · exact .nil _

/-- One that reads a string at `tag` and sets it. -/
theorem reads_string {f : Utf8 → M} {g : JString → M} (b0 : Utf8)
    (hsw : sw tag (f b0) = readStringRequireUtf8 >>= fun s => pure (some (g s)))
    (hg : ∀ b, g (toStringUtf8 b) = f b) {b : Utf8} (hb : b.Fits) :
    Reads sw (f b0) (stringField tag b) (f (if b.1.isEmpty then b0 else b)) := by
  unfold stringField
  split
  · exact .nil _
  · refine .cons h8 h32 ?_ (.nil _)
    rw [hsw, ← hg]
    exact (yields_delimited hb).bind_nil (yields_pure _)

/-- One that reads a string at `tag` and adds it. -/
theorem reads_repeated {f : List Utf8 → M} {g : List Utf8 → JString → M}
    (hsw : ∀ bs0, sw tag (f bs0) = readStringRequireUtf8 >>= fun s => pure (some (g bs0 s)))
    (hg : ∀ bs0 b, g bs0 (toStringUtf8 b) = f (bs0 ++ [b])) {bs : List Utf8} :
    (∀ b ∈ bs, b.Fits) → ∀ bs0, Reads sw (f bs0) (repeatedField tag bs) (f (bs0 ++ bs)) := by
  induction bs with
  | nil =>
    intro _ bs0
    rw [List.append_nil]
    exact .nil _
  | cons b bs ih =>
    intro hb bs0
    have htail := ih (fun b' hb' => hb b' (List.mem_cons_of_mem _ hb')) (bs0 ++ [b])
    rw [List.append_assoc] at htail
    refine .cons h8 h32 ?_ htail
    rw [hsw, ← hg]
    exact (yields_delimited (hb b List.mem_cons_self)).bind_nil (yields_pure _)

end

/-! ### What a switch reads and keeps -/

/-- A switch that reads a value and sets it sets one that was read. -/
theorem of_sets {α : Type} {r : Reader α} {set : α → M} {bs rest : List UInt8} {m : M}
    (h : (r >>= fun x => pure (some (set x))) bs = .ok (some m, rest)) :
    ∃ x, r bs = .ok (x, rest) ∧ m = set x := by
  obtain ⟨x, mid, hx, hm⟩ := of_bind_ok h
  cases hm
  exact ⟨x, hx, rfl⟩

theorem of_setsString {set : JString → M} {bs rest : List UInt8} {m : M}
    (h : (readStringRequireUtf8 >>= fun s => pure (some (set s))) bs = .ok (some m, rest)) :
    ∃ b : Utf8, b.Fits ∧ m = set (toStringUtf8 b) ∧ (delimited b).length + rest.length ≤ bs.length := by
  obtain ⟨s, hs, hm⟩ := of_sets h
  obtain ⟨b, ⟨hb, rfl⟩, hlen⟩ := of_readString hs
  exact ⟨b, hb, hm, hlen⟩

/-! ## Fields a message does not know -/

class UnknownFieldSet (S : Type) where
  getDefaultInstance : S
  mergeFieldFrom : Switch S
  /-- What a builder of the first makes when the second is merged into it. -/
  mergeFrom : S → S → S
  /-- The fields it writes. -/
  fields : S → List (Nat × List UInt8)
  local_mergeFieldFrom : ∀ tag s, Local (mergeFieldFrom tag s)
  fields_default : fields getDefaultInstance = []
  mergeFrom_default : ∀ s, mergeFrom getDefaultInstance s = s
  reads : ∀ s u, Reads mergeFieldFrom s (fields u) (mergeFrom s u)
  /-- It has only fields that were merged into it. -/
  tag_merged : ∀ {tag s bs s' rest}, mergeFieldFrom tag s bs = .ok (some s', rest) →
    ∀ f ∈ fields s', f.1 = tag ∨ ∃ g ∈ fields s, g.1 = f.1
  /-- It writes a field in no more bytes than it was read from. -/
  length_merged : ∀ {tag s bs s' rest}, mergeFieldFrom tag s bs = .ok (some s', rest) →
    (serialize (fields s')).length + rest.length ≤
      (serialize (fields s)).length + (writeVarint tag).length + bs.length

namespace UnknownFieldSet

variable {S : Type} [UnknownFieldSet S]

def writeTo (u : S) : List UInt8 := serialize (fields u)

/-- Before it is an `int`. -/
def getSerializedSize (u : S) : Nat := ((fields u).map fun f => (writeVarint f.1).length + f.2.length).sum

theorem length_serialize (fs : List (Nat × List UInt8)) :
    (serialize fs).length = (fs.map fun f => (writeVarint f.1).length + f.2.length).sum := by
  simp [serialize, List.length_flatMap]

theorem length_writeTo (u : S) : (writeTo u).length = getSerializedSize u := length_serialize _

/-- What merging fields makes of a set has no other tags. -/
theorem tag_reads {s s' : S} {fs : List (Nat × List UInt8)} (h : Reads mergeFieldFrom s fs s') :
    ∀ f ∈ fields s', (∃ g ∈ fields s, g.1 = f.1) ∨ ∃ g ∈ fs, g.1 = f.1 := by
  induction h with
  | nil s => exact fun f hf => .inl ⟨f, hf, rfl⟩
  | @cons s s1 s2 tag value fs _ _ hy _ ih =>
    intro f hf
    rcases ih f hf with ⟨g, hg, he⟩ | ⟨g, hg, he⟩
    · rcases tag_merged (hy []) g hg with ht | ⟨g', hg', he'⟩
      · exact .inr ⟨(tag, value), List.mem_cons_self, ht.symm.trans he⟩
      · exact .inl ⟨g', hg', he'.trans he⟩
    · exact .inr ⟨g, List.mem_cons_of_mem _ hg, he⟩

theorem mergeFrom_getDefaultInstance (s : S) : mergeFrom s getDefaultInstance = s := by
  have h := reads s (getDefaultInstance : S)
  rw [fields_default] at h
  generalize mergeFrom s getDefaultInstance = s' at h
  cases h
  rfl

end UnknownFieldSet

/-- A tag and the 64-bit number of a varint field. -/
abbrev VarintField :=
  {f : Nat × Nat // (f.1 % 8 = WIRETYPE_VARINT ∧ 8 ≤ f.1 ∧ f.1 < 0x100000000) ∧ f.2 < 0x10000000000000000}

/-- Sets of varint fields, which throw on any other; those of one field number are as
    protobuf-java's, which sorts fields by number. -/
abbrev Varints := List VarintField

namespace Varints

def mergeFieldFrom : Switch Varints := fun tag s =>
  if h : tag % 8 = WIRETYPE_VARINT ∧ 8 ≤ tag ∧ tag < 0x100000000 then do
    let n ← readVarint
    pure (some (s ++ [⟨(tag, n % 0x10000000000000000), h, Nat.mod_lt _ (by decide)⟩]))
  else fail .invalidWireType

theorem local_mergeFieldFrom (tag : Nat) (s : Varints) : Local (mergeFieldFrom tag s) := by
  unfold mergeFieldFrom
  split
  · exact local_varint.bind fun _ => local_pure _
  · exact local_fail _

/-- The varint fields of `u`, one after the other, are added behind those of `s`. -/
theorem reads (u : Varints) :
    ∀ s, Reads mergeFieldFrom s (u.map fun f => (f.1.1, writeVarint f.1.2)) (s ++ u) := by
  induction u with
  | nil =>
    intro s
    rw [List.append_nil]
    exact .nil s
  | cons f u ih =>
    intro s
    obtain ⟨⟨tag, n⟩, htag, hn⟩ := f
    have htail := ih (s ++ [⟨(tag, n), htag, hn⟩])
    rw [List.append_assoc] at htail
    refine .cons htag.2.1 htag.2.2 ?_ htail
    rw [mergeFieldFrom, dif_pos htag]
    refine (yields_varint hn).bind_nil ?_
    simp only [Nat.mod_eq_of_lt hn]
    exact yields_pure _

theorem tag_merged {tag : Nat} {s s' : Varints} {bs rest : List UInt8}
    (h : mergeFieldFrom tag s bs = .ok (some s', rest)) :
    ∀ f ∈ s'.map (fun f => (f.1.1, writeVarint f.1.2)),
      f.1 = tag ∨ ∃ g ∈ s.map (fun f => (f.1.1, writeVarint f.1.2)), g.1 = f.1 := by
  unfold mergeFieldFrom at h
  split at h
  · obtain ⟨n, mid, -, h⟩ := of_bind_ok h
    cases h
    intro f hf
    rw [List.map_append, List.mem_append] at hf
    rcases hf with hf | hf
    · exact .inr ⟨f, hf, rfl⟩
    · rw [List.mem_singleton.mp hf]
      exact .inl rfl
  · cases h

theorem length_merged {tag : Nat} {s s' : Varints} {bs rest : List UInt8}
    (h : mergeFieldFrom tag s bs = .ok (some s', rest)) :
    (serialize (s'.map fun f => (f.1.1, writeVarint f.1.2))).length + rest.length ≤
      (serialize (s.map fun f => (f.1.1, writeVarint f.1.2))).length + (writeVarint tag).length + bs.length := by
  unfold mergeFieldFrom at h
  split at h
  · obtain ⟨n, mid, hn, h⟩ := of_bind_ok h
    cases h
    have hread := length_readVarint hn (Nat.mod_le n 0x10000000000000000)
    have hone : ∀ m, (serialize [(tag, writeVarint m)]).length = (writeVarint tag).length + (writeVarint m).length := by
      intro m
      rw [serialize, List.flatMap_singleton, List.length_append]
    rw [List.map_append, serialize_append, List.length_append, List.map_singleton, hone]
    dsimp only
    omega
  · cases h

instance : UnknownFieldSet Varints where
  getDefaultInstance := []
  mergeFieldFrom := mergeFieldFrom
  mergeFrom s u := s ++ u
  fields s := s.map fun f => (f.1.1, writeVarint f.1.2)
  local_mergeFieldFrom := local_mergeFieldFrom
  fields_default := rfl
  mergeFrom_default _ := rfl
  reads s u := reads u s
  tag_merged := tag_merged
  length_merged := length_merged

end Varints

open UnknownFieldSet in
/-- The default branch of a switch: a message's unknown fields, of tags it does not know. -/
theorem reads_unknown {S : Type} [UnknownFieldSet S] {known : List Nat} {f : S → M}
    (hsw : ∀ tag, tag ∉ known → ∀ s, sw tag (f s) = mergeFieldFrom tag s >>= fun o => pure (o.map f))
    {fs : List (Nat × List UInt8)} (hk : ∀ g ∈ fs, g.1 ∉ known) {s s' : S} (h : Reads mergeFieldFrom s fs s') :
    Reads sw (f s) fs (f s') := by
  induction h with
  | nil s => exact .nil _
  | @cons s s1 s2 tag value fields h8 h32 hy _ ih =>
    refine .cons h8 h32 ?_ (ih fun g hg => hk g (List.mem_cons_of_mem _ hg))
    rw [hsw tag (hk (tag, value) List.mem_cons_self)]
    exact hy.bind_nil (yields_pure _)

open UnknownFieldSet in
/-- An unknown field leaves a message whose unknown fields are still of tags it does not
    know, and have not grown by more than was read. -/
theorem of_unknown {S : Type} [UnknownFieldSet S] {known : List Nat} {tag : Nat} (ht : tag ∉ known) {s : S} {f : S → M}
    (hs : ∀ g ∈ fields s, g.1 ∉ known) {bs rest : List UInt8} {m : M}
    (h : (mergeFieldFrom tag s >>= fun o => pure (o.map f)) bs = .ok (some m, rest)) :
    ∃ u, m = f u ∧ (∀ g ∈ fields u, g.1 ∉ known) ∧
      (serialize (fields u)).length + rest.length ≤
        (serialize (fields s)).length + (writeVarint tag).length + bs.length := by
  obtain ⟨o, mid, ho, hm⟩ := of_bind_ok h
  cases o with
  | none => cases hm
  | some u =>
    cases hm
    refine ⟨u, rfl, fun g hg => ?_, length_merged ho⟩
    rcases tag_merged ho g hg with hg | ⟨g', hg', hg⟩
    · rw [hg]
      exact ht
    · rw [← hg]
      exact hs g' hg'

/-! ## Message types -/

/-- A message type: the values its fields take, its parser's switch over messages that
    hold them as the parser does, and the fields its writer writes. -/
structure Format (M V : Type) where
  switch : Switch M
  /-- What the parser builds for a value. -/
  ofValue : V → M
  getDefaultInstance : V
  fields : V → List (Nat × List UInt8)
  mergeFrom : V → V → V
  /-- The values a parser builds. -/
  Ok : V → Prop
  local_switch : ∀ tag m, Local (switch tag m)
  ok_default : Ok getDefaultInstance
  mergeFrom_default : ∀ v, mergeFrom getDefaultInstance v = v
  reads : ∀ v {u}, Ok u → Reads switch (ofValue v) (fields u) (ofValue (mergeFrom v u))
  built : ∀ {tag v bs m rest}, Ok v → switch tag (ofValue v) bs = .ok (some m, rest) → ∃ v', m = ofValue v' ∧ Ok v'

namespace Format

variable {V : Type} (F : Format M V)

def parseFrom (bs : List UInt8) : Except InvalidProtocolBufferException M :=
  parse F.switch (F.ofValue F.getDefaultInstance) bs

def toByteArray (v : V) : List UInt8 := serialize (F.fields v)

variable {F}

theorem steps_serialize (v : V) {u : V} (h : F.Ok u) :
    Steps F.switch (F.ofValue v) (F.toByteArray u) (F.ofValue (F.mergeFrom v u)) := (F.reads v h).steps

theorem parse_serialize {u : V} (h : F.Ok u) : F.parseFrom (F.toByteArray u) = .ok (F.ofValue u) := by
  have hs := steps_serialize F.getDefaultInstance h
  rw [F.mergeFrom_default] at hs
  exact (parse_iff F.local_switch).mpr hs

theorem steps_ok {m m' : M} {bs : List UInt8} (h : Steps F.switch m bs m') :
    (∃ v, m = F.ofValue v ∧ F.Ok v) → ∃ v, m' = F.ofValue v ∧ F.Ok v := by
  induction h with
  | nil m => exact fun hv => hv
  | @cons m m1 m2 bs rest hy _ ih =>
    rintro ⟨v, rfl, hv⟩
    apply ih
    have h := hy []
    rw [readField, bind_eq] at h
    split at h
    · exact F.built hv h
    · cases h

/-- What is parsed is a message that can be written. -/
theorem parse_ok {bs : List UInt8} {m : M} (h : F.parseFrom bs = .ok m) : ∃ v, m = F.ofValue v ∧ F.Ok v :=
  steps_ok ((parse_iff F.local_switch).mp h) ⟨_, rfl, F.ok_default⟩

end Format

end NettyStudy.Protobuf
