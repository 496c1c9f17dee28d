/-
  NettyStudy.Seria.ProtobufTransport — the Protocol Buffers client and server down to the
  bytes of their connection: ProtobufVarint32FrameDecoder, ProtobufDecoder,
  ProtobufVarint32LengthFieldPrepender, ProtobufEncoder and the handler at both ends. The
  requests are built by the generated builder.

  Proved, over every interleaving of the two ends' events and every cut of their bytes:
  - `bytes_refine`: the ends do what `NettyStudy.Seria.Subscribe` says of objects, and never close.
  - `bytes_correlate`: the requests read are a start of those sent, the responses received
    one of those to the requests read; all of them once no byte is on its way.
-/

import NettyStudy.Seria.Transport
import NettyStudy.Protobuf.Builder
import NettyStudy.Protobuf.SubscribeResp
import NettyStudy.Protobuf.Varint32Frame

namespace NettyStudy.Seria.ProtobufTransport

open NettyStudy.Netty NettyStudy.Text NettyStudy.Protobuf Transport

variable {S : Type} [UnknownFieldSet S]

/-! ## The messages -/

/-- The calls of `subReq` on its builder. -/
def subReqOps (reqId : Int32) : List SubscribeReq.Op :=
  [.newBuilder, .builder 0 (.setProductName ⟨literal "Netty Boot", by decide⟩),
    .builder 0 (.setUserName ⟨literal "yicj", by decide⟩), .builder 0 (.setSubReqId reqId),
    .builder 0 (.addAllAddress [⟨literal "aaaaaaaaaaaaaaaaaaa", by decide⟩, ⟨literal "bbbbbbbbbbbbbbbbbbb", by decide⟩,
      ⟨literal "ccccccccccccccccccc", by decide⟩]), .build 0]

/-- What they build, the first message there is after the default instance. -/
def SubReqClientHandler.subReq (reqId : Int32) : SubscribeReq S :=
  let w := (SubscribeReq.run (SubscribeReq.World.init S) (subReqOps reqId)).1
  match w.messages[1]? with
  | some m => m.load w.lists
  | none => .empty

theorem subReq_eq (reqId : Int32) : SubReqClientHandler.subReq (S := S) reqId =
    { subReqId_ := reqId, userName_ := .string (literal "yicj"), productName_ := .string (literal "Netty Boot")
      address_ := [.string (literal "aaaaaaaaaaaaaaaaaaa"), .string (literal "bbbbbbbbbbbbbbbbbbb"),
        .string (literal "ccccccccccccccccccc")]
      unknownFields := UnknownFieldSet.getDefaultInstance, memoizedSize := -1 } := rfl

def SubReqServerHandler.resp (subReqId : Int32) : SubscribeResp S :=
  { subReqId_ := subReqId, respCode_ := 200, desc_ := .string (literal "网上预订成功3天后，发送到指定的地址")
    unknownFields := UnknownFieldSet.getDefaultInstance, memoizedSize := -1 }

variable (S) in
abbrev pair : Pair where
  Req := SubscribeReq S
  Resp := SubscribeResp S
  subReq := SubReqClientHandler.subReq
  reqId := SubscribeReq.subReqId_
  resp := SubReqServerHandler.resp
  respId := SubscribeResp.subReqId_
  reqId_subReq _ := rfl
  respId_resp _ := rfl

/-! ## The codecs -/

theorem ok_subReq (i : Int32) : (SubReqClientHandler.subReq (S := S) i).value.Ok where
  userName := show (copyFromUtf8 (literal "yicj")).Fits by decide
  productName := show (copyFromUtf8 (literal "Netty Boot")).Fits by decide
  address := show ∀ b ∈ [copyFromUtf8 (literal "aaaaaaaaaaaaaaaaaaa"), copyFromUtf8 (literal "bbbbbbbbbbbbbbbbbbb"),
    copyFromUtf8 (literal "ccccccccccccccccccc")], b.Fits by decide
  unknown := by
    rw [subReq_eq, SubscribeReq.value, UnknownFieldSet.fields_default]
    exact fun _ h => absurd h List.not_mem_nil

/-- Its strings come back as they were. -/
theorem ofValue_subReq (i : Int32) :
    SubscribeReq.ofValue (SubReqClientHandler.subReq (S := S) i).value = SubReqClientHandler.subReq i := by
  have hl : ∀ s, toStringUtf8 (copyFromUtf8 (literal s)) = literal s := fun s => newString_getBytes (paired_literal s)
  simp only [subReq_eq, SubscribeReq.value, SubscribeReq.ofValue, List.map_cons, List.map_nil, LazyString.utf8, hl]

theorem fits_subReq (i : Int32) : Fits (serialize (SubReqClientHandler.subReq (S := S) i).value.fields) := by
  have hid := length_int32Field_le 8 i
  have hname : (serialize (stringField 18 (copyFromUtf8 (literal "yicj")))).length ≤ 100 := by decide
  have hproduct : (serialize (stringField 26 (copyFromUtf8 (literal "Netty Boot")))).length ≤ 100 := by decide
  have haddress : (serialize (repeatedField 34 [copyFromUtf8 (literal "aaaaaaaaaaaaaaaaaaa"),
      copyFromUtf8 (literal "bbbbbbbbbbbbbbbbbbb"),
      copyFromUtf8 (literal "ccccccccccccccccccc")])).length ≤ 100 := by decide
  rw [Fits, SubscribeReq.Value.fields, subReq_eq]
  simp only [SubscribeReq.value, UnknownFieldSet.fields_default, serialize_append, List.length_append, List.map_cons,
    List.map_nil, LazyString.utf8]
  have hnil : (serialize []).length = 0 := rfl
  omega

theorem ok_resp (i : Int32) : (SubReqServerHandler.resp (S := S) i).value.Ok where
  desc := show (copyFromUtf8 (literal "网上预订成功3天后，发送到指定的地址")).Fits by decide
  unknown := by
    rw [SubscribeResp.value, SubReqServerHandler.resp, UnknownFieldSet.fields_default]
    exact fun _ h => absurd h List.not_mem_nil

theorem ofValue_resp (i : Int32) :
    SubscribeResp.ofValue (SubReqServerHandler.resp (S := S) i).value = SubReqServerHandler.resp i := by
  have hl : ∀ s, toStringUtf8 (copyFromUtf8 (literal s)) = literal s := fun s => newString_getBytes (paired_literal s)
  simp only [SubReqServerHandler.resp, SubscribeResp.value, SubscribeResp.ofValue, LazyString.utf8, hl]

theorem fits_resp (i : Int32) : Fits (serialize (SubReqServerHandler.resp (S := S) i).value.fields) := by
  have hid := length_int32Field_le 8 i
  have hcode := length_int32Field_le 16 200
  have hdesc : (serialize (stringField 26 (copyFromUtf8 (literal "网上预订成功3天后，发送到指定的地址")))).length ≤ 100 := by
    decide
  rw [Fits, SubscribeResp.Value.fields, SubReqServerHandler.resp]
  simp only [SubscribeResp.value, UnknownFieldSet.fields_default, serialize_append, List.length_append, LazyString.utf8]
  have hnil : (serialize []).length = 0 := rfl
  omega

variable (S) in
/-- The client's encoder and the server's decoder. -/
def requests : Codec (SubscribeReq S) where
  Part := List UInt8
  framing := framing
  encode m := m.toByteArray.map fun r => frame r.1
  decode bytes := (SubscribeReq.parseFrom bytes).toOption
  Sent m := ∃ i, m = SubReqClientHandler.subReq i
  part m := serialize m.value.fields
  encode_eq := by
    rintro _ ⟨i, rfl⟩
    rw [SubscribeReq.toByteArray_eq (SubscribeReq.sized_new (by rw [subReq_eq])) ⟨ok_subReq i, fits_subReq i⟩]
    rfl
  ok_part := by
    rintro _ ⟨i, rfl⟩
    exact fits_subReq i
  decode_part := by
    rintro _ ⟨i, rfl⟩
    have hp := (SubscribeReq.format S).parse_serialize (ok_subReq i)
    rw [show (SubscribeReq.format S).ofValue _ = _ from ofValue_subReq i] at hp
    exact congrArg Except.toOption hp

variable (S) in
/-- The server's encoder and the client's decoder. -/
def responses : Codec (SubscribeResp S) where
  Part := List UInt8
  framing := framing
  encode m := m.toByteArray.map fun r => frame r.1
  decode bytes := (SubscribeResp.parseFrom bytes).toOption
  Sent m := ∃ i, m = SubReqServerHandler.resp i
  part m := serialize m.value.fields
  encode_eq := by
    rintro _ ⟨i, rfl⟩
    obtain ⟨m', h⟩ :=
      SubscribeResp.toByteArray_eq (m := SubReqServerHandler.resp (S := S) i) rfl (ok_resp i) (fits_resp i)
    rw [h]
    rfl
  ok_part := by
    rintro _ ⟨i, rfl⟩
    exact fits_resp i
  decode_part := by
    rintro _ ⟨i, rfl⟩
    have hp := (SubscribeResp.format S).parse_serialize (ok_resp i)
    rw [show (SubscribeResp.format S).ofValue _ = _ from ofValue_resp i] at hp
    exact congrArg Except.toOption hp

variable (S) in
def codecs : Codecs (pair S) := ⟨requests S, responses S⟩

theorem serves : (codecs S).Serves := ⟨fun i => ⟨i, rfl⟩, fun i => ⟨i, rfl⟩⟩

/-! ## The ends -/

/-- Over any events, whatever bytes each read takes, neither end closes, and the requests
    read, the responses received, those queued and those on their way are as in a run of
    objects with the same events. -/
theorem bytes_refine (es : List Event) : ∃ es', List.Forall₂ Matches es es' ∧
    Refines (codecs S) (run (codecs S) es) (es'.foldl (Seria.step (pair S)) (Seria.init (pair S))) :=
  refines_run serves es refines_init

/-- Over any events the requests read are a start of those sent, and all of them when none
    of the client's bytes is on its way; the responses received are a start of the answers
    to these, and all of them when none of the server's bytes is. -/
theorem bytes_correlate (es : List Event) :
    (run (codecs S) es).server.read <+: (sends false es).map SubReqClientHandler.subReq ∧
    (run (codecs S) es).client.read <+:
      (run (codecs S) es).server.read.map (fun req => SubReqServerHandler.resp req.subReqId_) ∧
    ((run (codecs S) es).client.out.wire.transit = [] →
      (run (codecs S) es).server.read = (sends false es).map SubReqClientHandler.subReq) ∧
    ((run (codecs S) es).server.out.wire.transit = [] →
      (run (codecs S) es).client.read =
        (run (codecs S) es).server.read.map fun req => SubReqServerHandler.resp req.subReqId_) :=
  correlates serves es

end NettyStudy.Seria.ProtobufTransport
