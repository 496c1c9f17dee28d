/-
  NettyStudy.Protobuf.SubscribeResp — the generated SubscribeResp: its parser, writer and
  size, after the same template as SubscribeReq's, with no repeated field.

  Proved: `toByteArray_eq`, a message's bytes fill the array of its size; `format`, they
  are parsed back, and what is parsed can be written.
-/

import NettyStudy.Protobuf.GeneratedMessage

namespace NettyStudy.Protobuf

open NettyStudy.Text UnknownFieldSet

variable {S : Type}

structure SubscribeResp (S : Type) where
  subReqId_ : Int32
  respCode_ : Int32
  desc_ : LazyString
  unknownFields : S
  memoizedSize : Int32

namespace SubscribeResp

structure Value (S : Type) where
  subReqId : Int32
  respCode : Int32
  desc : Utf8
  unknownFields : S
  deriving DecidableEq

def value (m : SubscribeResp S) : Value S := ⟨m.subReqId_, m.respCode_, m.desc_.utf8, m.unknownFields⟩

def getDescBytes (m : SubscribeResp S) : Utf8 × SubscribeResp S :=
  let (b, ref) := m.desc_.getByteString
  (b, { m with desc_ := ref })

/-- The message a parser builds. -/
def ofValue (v : Value S) : SubscribeResp S :=
  ⟨v.subReqId, v.respCode, .string (toStringUtf8 v.desc), v.unknownFields, -1⟩

theorem value_ofValue (v : Value S) : (ofValue v).value = v := by
  simp [value, ofValue]

variable [UnknownFieldSet S]

def writeTo (m : SubscribeResp S) : List UInt8 × SubscribeResp S :=
  let subReqId := if m.subReqId_ ≠ 0 then writeInt32 1 m.subReqId_ else []
  let respCode := if m.respCode_ ≠ 0 then writeInt32 2 m.respCode_ else []
  let (bytes, m) := m.getDescBytes
  let desc := if !bytes.1.isEmpty then GeneratedMessageV3.writeString 3 m.desc_ else []
  (subReqId ++ respCode ++ desc ++ UnknownFieldSet.writeTo m.unknownFields, m)

def getSerializedSize (m : SubscribeResp S) : Int32 × SubscribeResp S :=
  if m.memoizedSize ≠ -1 then (m.memoizedSize, m)
  else
    let subReqId := if m.subReqId_ ≠ 0 then computeInt32Size 1 m.subReqId_ else 0
    let respCode := if m.respCode_ ≠ 0 then computeInt32Size 2 m.respCode_ else 0
    let (bytes, m) := m.getDescBytes
    let desc := if !bytes.1.isEmpty then GeneratedMessageV3.computeStringSize 3 m.desc_ else 0
    let size : Int32 := .ofNat subReqId + .ofNat respCode + .ofNat desc +
      .ofNat (UnknownFieldSet.getSerializedSize m.unknownFields)
    (size, { m with memoizedSize := size })

def toByteArray (m : SubscribeResp S) : Option (List UInt8 × SubscribeResp S) :=
  let (size, m) := m.getSerializedSize
  let (bytes, m) := m.writeTo
  if (bytes.length : Int) = size.toInt then some (bytes, m) else none

def switch : Switch (SubscribeResp S) := fun tag m =>
  if tag = 8 then do
    let v ← readInt32
    pure (some { m with subReqId_ := v })
  else if tag = 16 then do
    let v ← readInt32
    pure (some { m with respCode_ := v })
  else if tag = 26 then do
    let s ← readStringRequireUtf8
    pure (some { m with desc_ := .string s })
  else do
    let o ← mergeFieldFrom tag m.unknownFields
    pure (o.map fun u => { m with unknownFields := u })

/-- `SubscribeResp()`. -/
def empty : SubscribeResp S := ⟨0, 0, .string [], getDefaultInstance, -1⟩

def parseFrom (bs : List UInt8) : Except InvalidProtocolBufferException (SubscribeResp S) := parse switch empty bs

namespace Value

def empty : Value S := ⟨0, 0, copyFromUtf8 [], getDefaultInstance⟩

def fields (v : Value S) : List (Nat × List UInt8) :=
  int32Field 8 v.subReqId ++ (int32Field 16 v.respCode ++ (stringField 26 v.desc ++
    UnknownFieldSet.fields v.unknownFields))

def mergeFrom (v other : Value S) : Value S :=
  { subReqId := if other.subReqId ≠ 0 then other.subReqId else v.subReqId
    respCode := if other.respCode ≠ 0 then other.respCode else v.respCode
    desc := if other.desc.1.isEmpty then v.desc else other.desc
    unknownFields := UnknownFieldSet.mergeFrom v.unknownFields other.unknownFields }

structure Ok (v : Value S) : Prop where
  desc : v.desc.Fits
  unknown : ∀ f ∈ UnknownFieldSet.fields v.unknownFields, f.1 ∉ [8, 16, 26]

end Value

theorem writeTo_fst (m : SubscribeResp S) : m.writeTo.1 = serialize m.value.fields := by
  rw [Value.fields, serialize_append, serialize_append, serialize_append]
  rw [show (8 : Nat) = makeTag 1 WIRETYPE_VARINT from rfl, show (16 : Nat) = makeTag 2 WIRETYPE_VARINT from rfl,
    show (26 : Nat) = makeTag 3 WIRETYPE_LENGTH_DELIMITED from rfl]
  rw [serialize_int32Field, serialize_int32Field, serialize_stringField]
  simp only [writeTo, getDescBytes, LazyString.getByteString_fst, LazyString.getByteString_snd, value,
    List.append_assoc]
  rfl

/-- A message that has not been asked for its size writes bytes that fill the array of it,
    if there are arrays of their length. -/
theorem toByteArray_eq {m : SubscribeResp S} (hs : m.memoizedSize = -1) (hv : m.value.Ok)
    (hl : (serialize m.value.fields).length < 0x80000000) :
    ∃ m', m.toByteArray = some (serialize m.value.fields, m') := by
  have hdesc : m.desc_.utf8.Fits := hv.desc
  have hsize : m.getSerializedSize.1 = .ofNat m.writeTo.1.length := by
    simp only [getSerializedSize, hs, ne_eq, not_true, if_false, writeTo, getDescBytes, LazyString.getByteString_fst,
      LazyString.getByteString_snd, GeneratedMessageV3.writeString_eq, GeneratedMessageV3.computeStringSize_eq,
      LazyString.utf8_byteString, List.length_append, UnknownFieldSet.length_writeTo,
      length_int32Written (show 1 < 16 by decide), length_int32Written (show 2 < 16 by decide),
      length_stringWritten (show 3 < 16 by decide) hdesc, Int32.ofNat_add]
  have hvalue : m.getSerializedSize.2.value = m.value := by
    simp [getSerializedSize, hs, getDescBytes, value]
  have hw : m.getSerializedSize.2.writeTo.1 = m.writeTo.1 := by rw [writeTo_fst, writeTo_fst, hvalue]
  refine ⟨m.getSerializedSize.2.writeTo.2, ?_⟩
  rw [toByteArray]
  dsimp only
  rw [hw, hsize, writeTo_fst, if_pos ((toInt_ofNat_iff _).mpr hl)]

theorem local_switch (tag : Nat) (m : SubscribeResp S) : Local (switch tag m) := by
  unfold switch
  refine local_ite (local_int32.bind fun _ => local_pure _) ?_
  refine local_ite (local_int32.bind fun _ => local_pure _) ?_
  refine local_ite (local_string.bind fun _ => local_pure _) ?_
  exact (local_mergeFieldFrom tag _).bind fun _ => local_pure _

theorem switch_unknown {tag : Nat} (h : tag ∉ [8, 16, 26]) (m : SubscribeResp S) :
    switch tag m =
      mergeFieldFrom tag m.unknownFields >>= fun o => pure (o.map fun u => { m with unknownFields := u }) := by
  simp only [List.mem_cons, List.not_mem_nil, or_false, not_or] at h
  rw [switch, if_neg h.1, if_neg h.2.1, if_neg h.2.2]

theorem reads_fields (v : Value S) {u : Value S} (h : u.Ok) :
    Reads switch (ofValue v) u.fields (ofValue (v.mergeFrom u)) := by
  let v1 : Value S := { v with subReqId := if u.subReqId ≠ 0 then u.subReqId else v.subReqId }
  let v2 : Value S := { v1 with respCode := if u.respCode ≠ 0 then u.respCode else v.respCode }
  let v3 : Value S := { v2 with desc := if u.desc.1.isEmpty then v.desc else u.desc }
  have h1 : Reads switch (ofValue v) (int32Field 8 u.subReqId) (ofValue v1) :=
    reads_int32 (by decide) (by decide) (f := fun x => ofValue { v with subReqId := x }) v.subReqId rfl u.subReqId
  have h2 : Reads switch (ofValue v1) (int32Field 16 u.respCode) (ofValue v2) :=
    reads_int32 (by decide) (by decide) (f := fun x => ofValue { v1 with respCode := x }) v.respCode rfl u.respCode
  have h3 : Reads switch (ofValue v2) (stringField 26 u.desc) (ofValue v3) :=
    reads_string (by decide) (by decide) (f := fun b => ofValue { v2 with desc := b }) v.desc rfl (fun _ => rfl) h.desc
  have h4 : Reads switch (ofValue v3) (UnknownFieldSet.fields u.unknownFields) (ofValue (v.mergeFrom u)) :=
    reads_unknown (f := fun s => ofValue { v3 with unknownFields := s }) (fun tag ht s => switch_unknown ht _) h.unknown
      (UnknownFieldSet.reads v.unknownFields u.unknownFields)
  exact h1.append (h2.append (h3.append h4))

theorem switch_built {tag : Nat} {v : Value S} {bs rest : List UInt8} {m : SubscribeResp S} (hv : v.Ok)
    (h : switch tag (ofValue v) bs = .ok (some m, rest)) : ∃ v', m = ofValue v' ∧ v'.Ok := by
  by_cases hk : tag ∈ [8, 16, 26]
  · simp only [List.mem_cons, List.not_mem_nil, or_false] at hk
    rcases hk with rfl | rfl | rfl
    · obtain ⟨x, -, rfl⟩ := of_sets h
      exact ⟨{ v with subReqId := x }, rfl, hv.1, hv.2⟩
    · obtain ⟨x, -, rfl⟩ := of_sets h
      exact ⟨{ v with respCode := x }, rfl, hv.1, hv.2⟩
    · obtain ⟨b, hb, rfl, -⟩ := of_setsString h
      exact ⟨{ v with desc := b }, rfl, hb, hv.2⟩
  · rw [switch_unknown hk] at h
    obtain ⟨u, rfl, hu, -⟩ := of_unknown hk hv.unknown h
    exact ⟨{ v with unknownFields := u }, rfl, hv.1, hu⟩

theorem ok_empty : (Value.empty : Value S).Ok := ⟨fits_nil, by simp [Value.empty, fields_default]⟩

theorem mergeFrom_empty (v : Value S) : Value.empty.mergeFrom v = v := by
  obtain ⟨subReqId, respCode, desc, unknownFields⟩ := v
  simp only [Value.mergeFrom, Value.empty, mergeFrom_default, orElse_nil, orElse_zero]

variable (S) in
def format : Format (SubscribeResp S) (Value S) where
  switch := switch
  ofValue := ofValue
  getDefaultInstance := .empty
  fields := Value.fields
  mergeFrom := Value.mergeFrom
  Ok := Value.Ok
  local_switch := local_switch
  ok_default := ok_empty
  mergeFrom_default := mergeFrom_empty
  reads v _ h := reads_fields v h
  built := switch_built

end SubscribeResp

end NettyStudy.Protobuf
