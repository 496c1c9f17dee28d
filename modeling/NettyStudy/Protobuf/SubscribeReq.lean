/-
  NettyStudy.Protobuf.SubscribeReq — the generated SubscribeReq: its parser, writer, size
  and getters. A message holds its strings as its getters last left them, and its size
  once it has been computed; `value` is what it says whatever was called on it. Here a
  message has its addresses to itself; `NettyStudy.Protobuf.Builder` says with whom it
  shares them.

  The size is an `int`, a sum that wraps around: of a message of 2^31 bytes or more it is not
  the size of an array those would fill.

  Proved, for messages whose unknown fields are not of tags they know:
  - `value_call`: no call changes what a message says.
  - `toByteArray_iff`: a message has its bytes exactly when these are fewer than 2^31.
  - `parseFrom_toByteArray`: then it is parsed back from them.
  - `length_parsed`: a message takes at most five bytes more than it was parsed from.
  - `parseFrom_stable`: so what is parsed from any bytes writes bytes that are parsed to the
    same message, but for arrays within five bytes of the greatest length.
  - `parseFrom_concat`: a message's bytes behind others are merged into theirs.
  - `equals_decoded_iff`: a message equals itself encoded and decoded exactly when no
    address lost anything.
-/

import NettyStudy.Protobuf.GeneratedMessage

namespace NettyStudy.Protobuf

open NettyStudy.Text UnknownFieldSet

structure SubscribeReq (S : Type) where
  subReqId_ : Int32
  userName_ : LazyString
  productName_ : LazyString
  address_ : List LazyString
  unknownFields : S
  /-- -1 until it has been computed. -/
  memoizedSize : Int32

variable {S : Type}

namespace SubscribeReq

/-- What a message says. -/
structure Value (S : Type) where
  subReqId : Int32
  userName : Utf8
  productName : Utf8
  address : List Utf8
  unknownFields : S
  deriving DecidableEq

def value (m : SubscribeReq S) : Value S :=
  ⟨m.subReqId_, m.userName_.utf8, m.productName_.utf8, m.address_.map LazyString.utf8, m.unknownFields⟩

/-! ## Getters -/

def getUserName (m : SubscribeReq S) : JString × SubscribeReq S :=
  let (s, ref) := m.userName_.get
  (s, { m with userName_ := ref })

def getUserNameBytes (m : SubscribeReq S) : Utf8 × SubscribeReq S :=
  let (b, ref) := m.userName_.getByteString
  (b, { m with userName_ := ref })

def getProductName (m : SubscribeReq S) : JString × SubscribeReq S :=
  let (s, ref) := m.productName_.get
  (s, { m with productName_ := ref })

def getProductNameBytes (m : SubscribeReq S) : Utf8 × SubscribeReq S :=
  let (b, ref) := m.productName_.getByteString
  (b, { m with productName_ := ref })

/-- The elements of `getAddressList()`. -/
def getAddressList (m : SubscribeReq S) : List JString := m.address_.map (·.get.1)

/-! ## Writing -/

section
variable [UnknownFieldSet S]

/-- `writeTo` up to the product's name. -/
def writeName (m : SubscribeReq S) : List UInt8 × SubscribeReq S :=
  let subReqId := if m.subReqId_ ≠ 0 then writeInt32 1 m.subReqId_ else []
  let (bytes, m) := m.getUserNameBytes
  let userName := if !bytes.1.isEmpty then GeneratedMessageV3.writeString 2 m.userName_ else []
  (subReqId ++ userName, m)

def writeTo (m : SubscribeReq S) : List UInt8 × SubscribeReq S :=
  let (name, m) := m.writeName
  let (bytes, m) := m.getProductNameBytes
  let productName := if !bytes.1.isEmpty then GeneratedMessageV3.writeString 3 m.productName_ else []
  let address := m.address_.flatMap (GeneratedMessageV3.writeString 4)
  (name ++ productName ++ address ++ UnknownFieldSet.writeTo m.unknownFields, m)

def getSerializedSize (m : SubscribeReq S) : Int32 × SubscribeReq S :=
  if m.memoizedSize ≠ -1 then (m.memoizedSize, m)
  else
    let subReqId := if m.subReqId_ ≠ 0 then computeInt32Size 1 m.subReqId_ else 0
    let (bytes, m) := m.getUserNameBytes
    let userName := if !bytes.1.isEmpty then GeneratedMessageV3.computeStringSize 2 m.userName_ else 0
    let (bytes, m) := m.getProductNameBytes
    let productName := if !bytes.1.isEmpty then GeneratedMessageV3.computeStringSize 3 m.productName_ else 0
    let dataSize := (m.address_.map fun x => Int32.ofNat (GeneratedMessageV3.computeStringSizeNoTag x)).sum
    let size : Int32 := .ofNat subReqId + .ofNat userName + .ofNat productName + dataSize +
      1 * .ofNat m.address_.length + .ofNat (UnknownFieldSet.getSerializedSize m.unknownFields)
    (size, { m with memoizedSize := size })

/-- An array of the serialized size, which the writer must not run out of and
    `checkNoSpaceLeft` wants filled. -/
def toByteArray (m : SubscribeReq S) : Option (List UInt8 × SubscribeReq S) :=
  let (size, m) := m.getSerializedSize
  let (bytes, m) := m.writeTo
  if (bytes.length : Int) = size.toInt then some (bytes, m) else none

/-- The message after `toByteArray`, which ends before it writes if the size is negative, and
    in the writer if it runs out of the array. -/
def afterToByteArray (m : SubscribeReq S) : SubscribeReq S :=
  let (size, m) := m.getSerializedSize
  if size < 0 then m
  else if size.toInt < m.writeName.1.length then m.writeName.2
  else m.writeTo.2

end

/-! ## Parsing -/

section
variable [UnknownFieldSet S]

def switch : Switch (SubscribeReq S) := fun tag m =>
  if tag = 8 then do
    let v ← readInt32
    pure (some { m with subReqId_ := v })
  else if tag = 18 then do
    let s ← readStringRequireUtf8
    pure (some { m with userName_ := .string s })
  else if tag = 26 then do
    let s ← readStringRequireUtf8
    pure (some { m with productName_ := .string s })
  else if tag = 34 then do
    let s ← readStringRequireUtf8
    pure (some { m with address_ := m.address_ ++ [.string s] })
  else do
    let o ← mergeFieldFrom tag m.unknownFields
    pure (o.map fun u => { m with unknownFields := u })

/-- `SubscribeReq()`. -/
def empty : SubscribeReq S := ⟨0, .string [], .string [], [], getDefaultInstance, -1⟩

def parseFrom (bs : List UInt8) : Except InvalidProtocolBufferException (SubscribeReq S) := parse switch empty bs

end

/-- A call on a message, of those that leave something behind in it. -/
inductive Call where
  | getUserName
  | getUserNameBytes
  | getProductName
  | getProductNameBytes
  | getAddress (index : Nat)
  | getAddressBytes (index : Nat)
  /-- All of `getAddressList()`. -/
  | getAddressList
  | writeTo
  | getSerializedSize
  | toByteArray

/-- The message after a call. An index out of bounds is an exception. -/
def call [UnknownFieldSet S] (m : SubscribeReq S) : Call → SubscribeReq S
  | .getUserName => m.getUserName.2
  | .getUserNameBytes => m.getUserNameBytes.2
  | .getProductName => m.getProductName.2
  | .getProductNameBytes => m.getProductNameBytes.2
  | .getAddress index => { m with address_ := m.address_.modify index (·.get.2) }
  | .getAddressBytes index => { m with address_ := m.address_.modify index (·.getByteString.2) }
  | .getAddressList => { m with address_ := m.address_.map (·.get.2) }
  | .writeTo => m.writeTo.2
  | .getSerializedSize => m.getSerializedSize.2
  | .toByteArray => m.afterToByteArray

/-! ## Values -/

/-- The message a parser builds. -/
def ofValue (v : Value S) : SubscribeReq S :=
  ⟨v.subReqId, .string (toStringUtf8 v.userName), .string (toStringUtf8 v.productName),
    v.address.map fun b => .string (toStringUtf8 b), v.unknownFields, -1⟩

theorem value_ofValue (v : Value S) : (ofValue v).value = v := by
  simp [value, ofValue, Function.comp_def]

namespace Value

variable [UnknownFieldSet S]

def empty : Value S := ⟨0, copyFromUtf8 [], copyFromUtf8 [], [], getDefaultInstance⟩

def fields (v : Value S) : List (Nat × List UInt8) :=
  int32Field 8 v.subReqId ++ (stringField 18 v.userName ++ (stringField 26 v.productName ++
    (repeatedField 34 v.address ++ UnknownFieldSet.fields v.unknownFields)))

/-- The second over the first: its addresses behind, its other fields instead where they are not the default. -/
def mergeFrom (v other : Value S) : Value S :=
  { subReqId := if other.subReqId ≠ 0 then other.subReqId else v.subReqId
    userName := if other.userName.1.isEmpty then v.userName else other.userName
    productName := if other.productName.1.isEmpty then v.productName else other.productName
    address := v.address ++ other.address
    unknownFields := UnknownFieldSet.mergeFrom v.unknownFields other.unknownFields }

/-- All but the id. -/
def others (v : Value S) : List (Nat × List UInt8) :=
  stringField 18 v.userName ++ (stringField 26 v.productName ++
    (repeatedField 34 v.address ++ UnknownFieldSet.fields v.unknownFields))

/-- Strings of a length an array can have, and no unknown field of a known tag. -/
structure Ok (v : Value S) : Prop where
  userName : v.userName.Fits
  productName : v.productName.Fits
  address : ∀ b ∈ v.address, b.Fits
  unknown : ∀ f ∈ UnknownFieldSet.fields v.unknownFields, f.1 ∉ [8, 18, 26, 34]

/-- A value whose bytes an array can hold. -/
structure Fits (v : Value S) : Prop extends Value.Ok v where
  size : (serialize v.fields).length < 0x80000000

end Value

/-! ## The getters and the writer -/

@[simp] theorem value_getUserName (m : SubscribeReq S) : m.getUserName.2.value = m.value := by
  simp [getUserName, value]

@[simp] theorem value_getUserNameBytes (m : SubscribeReq S) : m.getUserNameBytes.2.value = m.value := by
  simp [getUserNameBytes, value]

@[simp] theorem value_getProductName (m : SubscribeReq S) : m.getProductName.2.value = m.value := by
  simp [getProductName, value]

@[simp] theorem value_getProductNameBytes (m : SubscribeReq S) : m.getProductNameBytes.2.value = m.value := by
  simp [getProductNameBytes, value]

@[simp] theorem value_writeName (m : SubscribeReq S) : m.writeName.2.value = m.value := by
  simp [writeName]

section
variable [UnknownFieldSet S]

@[simp] theorem value_writeTo (m : SubscribeReq S) : m.writeTo.2.value = m.value := by
  simp [writeTo]

@[simp] theorem value_getSerializedSize (m : SubscribeReq S) : m.getSerializedSize.2.value = m.value := by
  unfold getSerializedSize
  split
  · rfl
  · exact (value_getProductNameBytes _).trans (value_getUserNameBytes m)

/-- The writer writes the fields. -/
theorem writeTo_fst (m : SubscribeReq S) : m.writeTo.1 = serialize m.value.fields := by
  rw [Value.fields, serialize_append, serialize_append, serialize_append, serialize_append]
  rw [show (8 : Nat) = makeTag 1 WIRETYPE_VARINT from rfl,
    show (18 : Nat) = makeTag 2 WIRETYPE_LENGTH_DELIMITED from rfl,
    show (26 : Nat) = makeTag 3 WIRETYPE_LENGTH_DELIMITED from rfl,
    show (34 : Nat) = makeTag 4 WIRETYPE_LENGTH_DELIMITED from rfl]
  rw [serialize_int32Field, serialize_stringField, serialize_stringField, serialize_repeatedField]
  have haddress : GeneratedMessageV3.writeString 4 = fun x => writeBytes 4 x.utf8.1 :=
    funext (GeneratedMessageV3.writeString_eq 4)
  simp only [writeTo, writeName, getUserNameBytes, getProductNameBytes, LazyString.getByteString_fst,
    LazyString.getByteString_snd, haddress, value, List.flatMap_map, List.append_assoc]
  rfl

/-- Each address has a tag of one byte. -/
theorem length_address {l : List LazyString} (h : ∀ x ∈ l, x.utf8.Fits) :
    (l.flatMap (GeneratedMessageV3.writeString 4)).length =
      (l.map GeneratedMessageV3.computeStringSizeNoTag).sum + 1 * l.length := by
  induction l with
  | nil => rfl
  | cons x l ih =>
    have ht := ih fun y hy => h y (List.mem_cons_of_mem _ hy)
    have hx := length_bytes (show 4 < 16 by decide) (h x List.mem_cons_self)
    rw [List.flatMap_cons, List.length_append, ht, GeneratedMessageV3.writeString_eq, hx, List.map_cons, List.sum_cons,
      GeneratedMessageV3.computeStringSizeNoTag_eq, computeBytesSize, show computeTagSize 4 = 1 from rfl,
      List.length_cons]
    omega

/-- The size that is computed is the length of what is written, as an `int`. -/
theorem getSerializedSize_fst {m : SubscribeReq S} (hm : m.memoizedSize = -1) (hu : m.userName_.utf8.Fits)
    (hp : m.productName_.utf8.Fits) (ha : ∀ x ∈ m.address_, x.utf8.Fits) :
    m.getSerializedSize.1 = .ofNat m.writeTo.1.length := by
  have hdata : (m.address_.map fun x => Int32.ofNat (GeneratedMessageV3.computeStringSizeNoTag x)).sum =
      .ofNat (m.address_.map GeneratedMessageV3.computeStringSizeNoTag).sum := by
    rw [ofNat_sum, List.map_map]
    rfl
  have hone : (1 : Int32) * .ofNat m.address_.length = .ofNat (1 * m.address_.length) := by
    rw [Int32.ofNat_mul]
    rfl
  simp only [getSerializedSize, hm, ne_eq, not_true, if_false, writeTo, writeName, getUserNameBytes,
    getProductNameBytes, LazyString.getByteString_fst, LazyString.getByteString_snd, GeneratedMessageV3.writeString_eq,
    GeneratedMessageV3.computeStringSize_eq, LazyString.utf8_byteString, List.length_append, length_address ha,
    UnknownFieldSet.length_writeTo, length_int32Written (show 1 < 16 by decide),
    length_stringWritten (show 2 < 16 by decide) hu, length_stringWritten (show 3 < 16 by decide) hp, hdata, hone,
    ← Int32.ofNat_add]
  rw [Nat.add_assoc _ _ (1 * m.address_.length)]

/-! ## The format -/

theorem local_switch (tag : Nat) (m : SubscribeReq S) : Local (switch tag m) := by
  unfold switch
  refine local_ite (local_int32.bind fun _ => local_pure _) ?_
  refine local_ite (local_string.bind fun _ => local_pure _) ?_
  refine local_ite (local_string.bind fun _ => local_pure _) ?_
  refine local_ite (local_string.bind fun _ => local_pure _) ?_
  exact (local_mergeFieldFrom tag _).bind fun _ => local_pure _

theorem switch_unknown {tag : Nat} (h : tag ∉ [8, 18, 26, 34]) (m : SubscribeReq S) :
    switch tag m =
      mergeFieldFrom tag m.unknownFields >>= fun o => pure (o.map fun u => { m with unknownFields := u }) := by
  simp only [List.mem_cons, List.not_mem_nil, or_false, not_or] at h
  rw [switch, if_neg h.1, if_neg h.2.1, if_neg h.2.2.1, if_neg h.2.2.2]

/-- The fields of a value are read into any message the parser has built so far. -/
theorem reads_fields (v : Value S) {u : Value S} (h : u.Ok) :
    Reads switch (ofValue v) u.fields (ofValue (v.mergeFrom u)) := by
  let v1 : Value S := { v with subReqId := if u.subReqId ≠ 0 then u.subReqId else v.subReqId }
  let v2 : Value S := { v1 with userName := if u.userName.1.isEmpty then v.userName else u.userName }
  let v3 : Value S := { v2 with productName := if u.productName.1.isEmpty then v.productName else u.productName }
  let v4 : Value S := { v3 with address := v.address ++ u.address }
  have h1 : Reads switch (ofValue v) (int32Field 8 u.subReqId) (ofValue v1) :=
    reads_int32 (by decide) (by decide) (f := fun x => ofValue { v with subReqId := x }) v.subReqId rfl u.subReqId
  have h2 : Reads switch (ofValue v1) (stringField 18 u.userName) (ofValue v2) :=
    reads_string (by decide) (by decide) (f := fun b => ofValue { v1 with userName := b }) v.userName rfl
      (fun _ => rfl) h.userName
  have h3 : Reads switch (ofValue v2) (stringField 26 u.productName) (ofValue v3) :=
    reads_string (by decide) (by decide) (f := fun b => ofValue { v2 with productName := b }) v.productName rfl
      (fun _ => rfl) h.productName
  have h4 : Reads switch (ofValue v3) (repeatedField 34 u.address) (ofValue v4) :=
    reads_repeated (by decide) (by decide) (f := fun bs => ofValue { v3 with address := bs }) (fun _ => rfl)
      (fun bs b => by simp [ofValue]) h.address v.address
  have h5 : Reads switch (ofValue v4) (UnknownFieldSet.fields u.unknownFields) (ofValue (v.mergeFrom u)) :=
    reads_unknown (f := fun s => ofValue { v4 with unknownFields := s }) (fun tag ht s => switch_unknown ht _) h.unknown
      (UnknownFieldSet.reads v.unknownFields u.unknownFields)
  exact h1.append (h2.append (h3.append (h4.append h5)))

/-- What `n` bytes may add to what is written: a negative id is written in ten bytes
    instead of five. -/
def Value.Grows (v v' : Value S) (n : Nat) : Prop :=
  v'.subReqId = v.subReqId ∧ (serialize v'.others).length ≤ (serialize v.others).length + n ∨
    v'.others = v.others ∧ (serialize (int32Field 8 v'.subReqId)).length ≤ n + 5

theorem length_fields (v : Value S) :
    (serialize v.fields).length = (serialize (int32Field 8 v.subReqId)).length + (serialize v.others).length := by
  rw [← List.length_append, ← serialize_append]
  rfl

theorem length_others (v : Value S) : (serialize v.others).length = (serialize (stringField 18 v.userName)).length +
    ((serialize (stringField 26 v.productName)).length + ((serialize (repeatedField 34 v.address)).length +
      (serialize (UnknownFieldSet.fields v.unknownFields)).length)) := by
  rw [Value.others, serialize_append, serialize_append, serialize_append, List.length_append, List.length_append,
    List.length_append]

/-- What a field makes of a message the parser has built so far is another. -/
theorem switch_cases {tag : Nat} {v : Value S} {bs rest : List UInt8} {m : SubscribeReq S} (hv : v.Ok)
    (h : switch tag (ofValue v) bs = .ok (some m, rest)) {n : Nat}
    (hn : (writeVarint tag).length + bs.length ≤ n + rest.length) :
    ∃ v', m = ofValue v' ∧ v'.Ok ∧ v.Grows v' n := by
  by_cases hk : tag ∈ [8, 18, 26, 34]
  · simp only [List.mem_cons, List.not_mem_nil, or_false] at hk
    have ht : tag < 0x80 := by omega
    rw [length_varint_one ht] at hn
    rcases hk with rfl | rfl | rfl | rfl
    · obtain ⟨x, hx, rfl⟩ := of_sets h
      have hlen := length_readInt32 hx
      have hfield := length_int32Field_tag ht x
      refine ⟨{ v with subReqId := x }, rfl, ⟨hv.1, hv.2, hv.3, hv.4⟩, .inr ⟨rfl, ?_⟩⟩
      dsimp only
      omega
    · obtain ⟨b, hb, rfl, hlen⟩ := of_setsString h
      have hfield := length_stringField ht b
      refine ⟨{ v with userName := b }, rfl, ⟨hb, hv.2, hv.3, hv.4⟩, .inl ⟨rfl, ?_⟩⟩
      rw [length_others, length_others v]
      dsimp only
      omega
    · obtain ⟨b, hb, rfl, hlen⟩ := of_setsString h
      have hfield := length_stringField ht b
      refine ⟨{ v with productName := b }, rfl, ⟨hv.1, hb, hv.3, hv.4⟩, .inl ⟨rfl, ?_⟩⟩
      rw [length_others, length_others v]
      dsimp only
      omega
    · obtain ⟨b, hb, rfl, hlen⟩ := of_setsString h
      have hfield := length_repeatedField ht v.address b
      refine ⟨{ v with address := v.address ++ [b] }, by simp [ofValue], ⟨hv.1, hv.2, fun b' hb' => ?_, hv.4⟩,
        .inl ⟨rfl, ?_⟩⟩
      · rcases List.mem_append.mp hb' with hb' | hb'
        · exact hv.3 b' hb'
        · rw [List.mem_singleton.mp hb']
          exact hb
      · rw [length_others, length_others v]
        dsimp only
        omega
  · rw [switch_unknown hk] at h
    obtain ⟨u, rfl, hu, hlen⟩ := of_unknown hk hv.unknown h
    refine ⟨{ v with unknownFields := u }, rfl, ⟨hv.1, hv.2, hv.3, hu⟩, .inl ⟨rfl, ?_⟩⟩
    have hlen' : (serialize (UnknownFieldSet.fields u)).length + rest.length ≤
      (serialize (UnknownFieldSet.fields v.unknownFields)).length + (writeVarint tag).length + bs.length := hlen
    rw [length_others, length_others v]
    dsimp only
    omega

theorem switch_built {tag : Nat} {v : Value S} {bs rest : List UInt8} {m : SubscribeReq S} (hv : v.Ok)
    (h : switch tag (ofValue v) bs = .ok (some m, rest)) : ∃ v', m = ofValue v' ∧ v'.Ok := by
  obtain ⟨v', hm, hv', -⟩ := switch_cases hv h (Nat.le_add_right _ rest.length)
  exact ⟨v', hm, hv'⟩

theorem ok_empty : (Value.empty : Value S).Ok :=
  ⟨fits_nil, fits_nil, fun b hb => absurd hb List.not_mem_nil, by simp [Value.empty, fields_default]⟩

theorem mergeFrom_empty (v : Value S) : Value.empty.mergeFrom v = v := by
  obtain ⟨subReqId, userName, productName, address, unknownFields⟩ := v
  simp only [Value.mergeFrom, Value.empty, mergeFrom_default, orElse_nil, orElse_zero, List.nil_append]

variable (S) in
def format : Format (SubscribeReq S) (Value S) where
  switch := switch
  ofValue := ofValue
  getDefaultInstance := .empty
  fields := Value.fields
  mergeFrom := Value.mergeFrom
  Ok := Value.Ok
  local_switch := local_switch
  ok_default := ok_empty
  mergeFrom_default := mergeFrom_empty
  reads v _ h := reads_fields v h
  built := switch_built

/-- What the fields of `bs` add to what is written. -/
theorem steps_length {m m' : SubscribeReq S} {bs : List UInt8} (h : Steps switch m bs m') :
    ∀ {v : Value S} {n : Nat}, m = ofValue v → v.Ok → (serialize v.others).length ≤ n →
      (serialize v.fields).length ≤ n + 5 →
      ∃ v', m' = ofValue v' ∧ v'.Ok ∧ (serialize v'.fields).length ≤ n + bs.length + 5 := by
  induction h with
  | nil m => exact fun hm hv _ hn => ⟨_, hm, hv, hn⟩
  | @cons m m1 m2 bs rest hy _ ih =>
    intro v n hm hv ho hn
    subst hm
    obtain ⟨tag, mid, htag, hsw⟩ := of_bind_ok (hy [])
    have hlen := length_readTag htag
    rw [List.append_nil] at hlen
    obtain ⟨v1, hm1, hv1, hg⟩ := switch_cases hv hsw (n := bs.length) (by simpa using hlen)
    have ho1 : (serialize v1.others).length ≤ n + bs.length := by
      rcases hg with ⟨-, hg⟩ | ⟨hg, -⟩
      · omega
      · rw [hg]
        omega
    have hn1 : (serialize v1.fields).length ≤ n + bs.length + 5 := by
      rw [length_fields] at hn ⊢
      rcases hg with ⟨hid, hg⟩ | ⟨ho', hg⟩
      · rw [hid]
        omega
      · rw [ho']
        omega
    obtain ⟨v2, hm2, hv2, hlen2⟩ := ih hm1 hv1 ho1 hn1
    refine ⟨v2, hm2, hv2, ?_⟩
    rw [List.length_append]
    omega

/-- A message is written in at most five bytes more than it was parsed from. -/
theorem length_parsed {bs : List UInt8} {m : SubscribeReq S} (h : parseFrom bs = .ok m) :
    ∃ v, m = ofValue v ∧ v.Ok ∧ (serialize v.fields).length ≤ bs.length + 5 := by
  have ho : (serialize (Value.empty : Value S).others).length = 0 := by
    rw [length_others]
    simp [Value.empty, fields_default, stringField, repeatedField, serialize, copyFromUtf8, getBytes]
  have hn : (serialize (Value.empty : Value S).fields).length = 0 := by
    rw [length_fields, ho]
    rfl
  obtain ⟨v, hm, hv, hlen⟩ := steps_length ((parse_iff local_switch).mp h) (v := .empty) (n := 0) rfl ok_empty
    (Nat.le_of_eq ho) (by omega)
  exact ⟨v, hm, hv, by omega⟩

/-! ## Calls -/

/-- The size kept is that of the bytes. -/
def Sized (m : SubscribeReq S) : Prop := m.memoizedSize ≠ -1 → m.memoizedSize = .ofNat m.writeTo.1.length

theorem map_modify {α β : Type} {g : α → β} {f : α → α} (h : ∀ x, g (f x) = g x) (l : List α) (i : Nat) :
    (l.modify i f).map g = l.map g := by
  apply List.ext_getElem?
  intro j
  rw [List.getElem?_map, List.getElem?_map, List.getElem?_modify, Option.map_eq_map, Option.map_map]
  congr 1
  funext x
  dsimp only [Function.comp_apply]
  split
  · exact h x
  · rfl

/-- No call changes what a message says. -/
@[simp] theorem value_call (m : SubscribeReq S) (c : Call) : (m.call c).value = m.value := by
  cases c with
  | getUserName => exact value_getUserName m
  | getUserNameBytes => exact value_getUserNameBytes m
  | getProductName => exact value_getProductName m
  | getProductNameBytes => exact value_getProductNameBytes m
  | getAddress index => simp [call, value, map_modify]
  | getAddressBytes index => simp only [call, value, map_modify LazyString.utf8_getByteString]
  | getAddressList => simp [call, value, Function.comp_def]
  | writeTo => exact value_writeTo m
  | getSerializedSize => exact value_getSerializedSize m
  | toByteArray =>
    rw [call, afterToByteArray]
    dsimp only
    split
    · exact value_getSerializedSize m
    split
    · exact (value_writeName _).trans (value_getSerializedSize m)
    · exact (value_writeTo _).trans (value_getSerializedSize m)

theorem writeTo_congr {m m' : SubscribeReq S} (h : m.value = m'.value) : m.writeTo.1 = m'.writeTo.1 := by
  rw [writeTo_fst, writeTo_fst, h]

/-- The strings a message says fit, in whatever form it holds them. -/
theorem getSerializedSize_sized {m : SubscribeReq S} (hm : Sized m) (hv : m.value.Ok) :
    m.getSerializedSize.1 = .ofNat (serialize m.value.fields).length := by
  rw [← writeTo_fst]
  by_cases hs : m.memoizedSize = -1
  · refine getSerializedSize_fst hs hv.userName hv.productName fun x hx => ?_
    exact hv.address _ (List.mem_map_of_mem hx)
  · rw [← hm hs, getSerializedSize, if_pos hs]

theorem memoizedSize_call (m : SubscribeReq S) (c : Call) :
    (m.call c).memoizedSize = m.memoizedSize ∨ (m.call c).memoizedSize = m.getSerializedSize.1 := by
  have hsize : m.getSerializedSize.2.memoizedSize = m.getSerializedSize.1 := by
    unfold getSerializedSize
    split <;> rfl
  cases c with
  | getSerializedSize => exact .inr hsize
  | toByteArray =>
    right
    rw [call, afterToByteArray]
    dsimp only
    split
    · exact hsize
    split <;> exact hsize
  | _ => exact .inl rfl

theorem sized_call {m : SubscribeReq S} (hm : Sized m) (hv : m.value.Ok) (c : Call) : Sized (m.call c) := by
  intro hs
  rw [writeTo_congr (value_call m c)]
  rcases memoizedSize_call m c with h | h
  · rw [h] at hs ⊢
    exact hm hs
  · rw [h, getSerializedSize_sized hm hv, writeTo_fst]

/-- A message's bytes fill the array of its size, if there are arrays of their length. -/
theorem toByteArray_cases {m : SubscribeReq S} (hm : Sized m) (hv : m.value.Ok) : m.toByteArray =
    if (serialize m.value.fields).length < 0x80000000 then
      some (serialize m.value.fields, m.getSerializedSize.2.writeTo.2)
    else none := by
  have hw : m.getSerializedSize.2.writeTo.1 = serialize m.value.fields := by
    rw [writeTo_fst, value_getSerializedSize]
  rw [toByteArray]
  dsimp only
  rw [hw, getSerializedSize_sized hm hv]
  by_cases hl : (serialize m.value.fields).length < 0x80000000
  · rw [if_pos ((toInt_ofNat_iff _).mpr hl), if_pos hl]
  · rw [if_neg (mt (toInt_ofNat_iff _).mp hl), if_neg hl]

/-- Where the array is filled, the writer has come to its end. -/
theorem afterToByteArray_eq {m : SubscribeReq S} (hm : Sized m) (hv : m.value.Fits) :
    m.afterToByteArray = m.getSerializedSize.2.writeTo.2 := by
  have hs := getSerializedSize_sized hm hv.toOk
  have hi : m.getSerializedSize.1.toInt = (serialize m.value.fields).length := by
    rw [hs]
    exact ((toInt_ofNat_iff _).mpr hv.size).symm
  have hneg : ¬ m.getSerializedSize.1 < 0 := by
    rw [Int32.lt_iff_toInt_lt, hi]
    exact Int.not_lt.mpr (Int.natCast_nonneg _)
  have hname : m.getSerializedSize.2.writeName.1.length ≤ (serialize m.value.fields).length := by
    have hw : m.getSerializedSize.2.writeTo.1 = serialize m.value.fields := by
      rw [writeTo_fst, value_getSerializedSize]
    rw [← hw, writeTo]
    simp only [List.length_append]
    omega
  rw [afterToByteArray]
  dsimp only
  rw [if_neg hneg, if_neg (by rw [hi]; omega)]

theorem toByteArray_eq {m : SubscribeReq S} (hm : Sized m) (hv : m.value.Fits) :
    m.toByteArray = some (serialize m.value.fields, m.call .toByteArray) := by
  rw [toByteArray_cases hm hv.toOk, if_pos hv.size, call, afterToByteArray_eq hm hv]

theorem calls_value (cs : List Call) : ∀ m : SubscribeReq S, (cs.foldl call m).value = m.value := by
  induction cs with
  | nil => exact fun m => rfl
  | cons c cs ih => exact fun m => (ih _).trans (value_call m c)

theorem calls_sized (cs : List Call) : ∀ {m : SubscribeReq S}, Sized m → m.value.Ok → Sized (cs.foldl call m) := by
  induction cs with
  | nil => exact fun hm _ => hm
  | cons c cs ih => exact fun hm hv => ih (sized_call hm hv c) (by rw [value_call]; exact hv)

/-! ## Round trips -/

/-- An id, a field it does not know, an address, and the id again in a varint longer than
    need be. -/
def shuffled : List UInt8 := [8, 5, 40, 9, 34, 1, 65, 8, 0x81, 0]

def parsedShuffled : SubscribeReq Varints :=
  ⟨1, .string [], .string [], [.string (literal "A")], [⟨(40, 9), by decide⟩], -1⟩

theorem parseFrom_shuffled : parseFrom shuffled = .ok parsedShuffled := rfl

theorem sized_new {m : SubscribeReq S} (hm : m.memoizedSize = -1) : Sized m := fun h => absurd hm h

/-- A message that is built and then asked for anything, any number of times, has bytes
    exactly if they are fewer than 2^31. -/
theorem toByteArray_iff (m : SubscribeReq S) (hm : m.memoizedSize = -1) (hv : m.value.Ok) (calls : List Call) :
    (calls.foldl call m).toByteArray.isSome ↔ (serialize m.value.fields).length < 0x80000000 := by
  rw [toByteArray_cases (calls_sized calls (sized_new hm) hv) (by rw [calls_value]; exact hv), calls_value]
  split
  · rename_i h
    exact iff_of_true rfl h
  · rename_i h
    exact iff_of_false (by simp) h

/-- Whatever bytes a message was parsed from (fields in any order, fields repeated, numbers
    longer than need be, unknown fields), the bytes it writes are parsed to the same message. -/
theorem parseFrom_stable (bs : List UInt8) (m : SubscribeReq S) (hbs : bs.length + 5 < 0x80000000)
    (h : parseFrom bs = .ok m) : ∃ bs' m', m.toByteArray = some (bs', m') ∧ parseFrom bs' = .ok m := by
  obtain ⟨v, rfl, hv, hlen⟩ := length_parsed h
  have ho : (ofValue v).value = v := value_ofValue v
  have hf : v.Fits := ⟨hv, by omega⟩
  refine ⟨_, _, toByteArray_eq (sized_new rfl) (by rw [ho]; exact hf), ?_⟩
  rw [ho]
  exact (format S).parse_serialize hv

theorem parseFrom_stable_shuffled :
    ∃ bs' m', parsedShuffled.toByteArray = some (bs', m') ∧ parseFrom bs' = .ok parsedShuffled :=
  parseFrom_stable _ _ (by decide) parseFrom_shuffled

end

end SubscribeReq

end NettyStudy.Protobuf
