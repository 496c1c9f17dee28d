/-
  NettyStudy.Seria.JbossTransport — the JBoss Marshalling client and server down to the
  bytes of their connection: MarshallingDecoder, MarshallingEncoder and the handler at both
  ends. An object is written behind its length in four bytes; the decoder takes lengths up
  to a maximum that counts these four.

  Marshallers are not part of the repository: here they are any functions. What a decoder
  does behind an object that is too long is left out, the handlers having closed the channel.

  Proved: `marshalled_correlate`, where requests and responses come back from what they are
  marshalled to and that is at most 1020 bytes, over every interleaving of the two ends'
  events and every cut of their bytes.
-/

import NettyStudy.Seria.Transport

namespace NettyStudy.Seria.JbossTransport

open NettyStudy.Netty Transport

variable {α : Type}

/-! ## The codec -/

/-- What `MarshallingCodeCFactory` makes its encoder and decoder of. -/
structure Provider (α : Type) where
  marshal : α → Option (List UInt8)
  unmarshal : List UInt8 → Except Throwable α

/-- The second argument of `new MarshallingDecoder(provider, 1024)`. -/
def maxObjectSize : Nat := 1024

namespace Provider

variable (P : Provider α)

def encode (a : α) : Option (List UInt8) :=
  (P.marshal a).map fun bytes => intBytes (Int32.ofNat bytes.length) ++ bytes

def decode : Decode α Unit := fun s =>
  let bytes := s.buf.readable
  let frameLength := (intAt bytes 0).toUInt32.toNat + 4
  if bytes.length < 4 then .ok () s
  else if maxObjectSize < frameLength then .error .tooLongFrame { s with buf := s.buf.skip frameLength }
  else if bytes.length < frameLength then .ok () s
  else match P.unmarshal ((bytes.drop 4).take (frameLength - 4)) with
    | .ok a => .ok () ⟨s.buf.skip frameLength, s.out ++ [a]⟩
    | .error e => .error e { s with buf := s.buf.skip frameLength }

def decoder : Decoder α where
  decode := P.decode
  reads s := by
    have hskip : ∀ n, (s.buf.skip n).readable.length ≤ s.buf.readable.length := by
      intro n
      rw [ByteBuf.readable_skip, List.length_drop]
      exact Nat.sub_le _ _
    unfold decode
    dsimp only
    split
    · exact Nat.le_refl _
    split
    · exact hskip _
    split
    · exact Nat.le_refl _
    split
    · exact hskip _
    · exact hskip _

/-- An object that comes back from what it is marshalled to, which is not too long. -/
def Marshals (a : α) : Prop :=
  ∃ bytes, P.marshal a = some bytes ∧ P.unmarshal bytes = .ok a ∧ bytes.length + 4 ≤ maxObjectSize

variable {P}

theorem length_at {n : Nat} (h : n < 0x100000000) (tail : List UInt8) :
    (intAt (intBytes (Int32.ofNat n) ++ tail) 0).toUInt32.toNat = n := by
  have hi := intAt_append [] (Int32.ofNat n) tail
  rw [List.nil_append] at hi
  rw [show intAt _ 0 = _ from hi, toUInt32_ofNat h]

variable {a : α} {bytes : List UInt8} (hu : P.unmarshal bytes = .ok a) (hl : bytes.length + 4 ≤ maxObjectSize)
include hl

include hu in
theorem decodes_object (rest : List UInt8) :
    Decodes P.decoder (intBytes (Int32.ofNat bytes.length) ++ bytes ++ rest) [a] rest := by
  have hlt : bytes.length < 0x100000000 := by rw [maxObjectSize] at hl; omega
  intro b hb
  refine ⟨b.skip (bytes.length + 4), ?_, ?_⟩
  · show P.decode ⟨b, []⟩ = _
    rw [List.append_assoc] at hb
    unfold decode
    simp only [hb, length_at hlt]
    rw [if_neg (by simp), if_neg (by omega), if_neg (by simp; omega)]
    have hbody : ((intBytes (Int32.ofNat bytes.length) ++ (bytes ++ rest)).drop 4).take (bytes.length + 4 - 4) =
        bytes := by
      rw [List.drop_left' (length_intBytes _), Nat.add_sub_cancel, List.take_left]
    rw [hbody, hu]
    rfl
  · rw [ByteBuf.readable_skip, hb, List.drop_left' (by simp; omega)]

/-- On the start of an object the decoder waits. -/
theorem decodes_start {p q : List UInt8} (hf : intBytes (Int32.ofNat bytes.length) ++ bytes = p ++ q) (hq : q ≠ []) :
    Decodes P.decoder p [] p := by
  have hlt : bytes.length < 0x100000000 := by rw [maxObjectSize] at hl; omega
  intro b hb
  refine ⟨b, ?_, hb⟩
  show P.decode ⟨b, []⟩ = _
  unfold decode
  simp only [hb]
  by_cases h4 : p.length < 4
  · rw [if_pos h4]
  · -- the length is all there, and the object is not
    have hpq := congrArg List.length hf
    simp only [List.length_append, length_intBytes] at hpq
    have hpos := List.length_pos_iff.mpr hq
    obtain ⟨w, rfl⟩ : ∃ w, p = intBytes (Int32.ofNat bytes.length) ++ w := by
      obtain ⟨w, hw⟩ : intBytes (Int32.ofNat bytes.length) <+: p :=
        List.prefix_of_prefix_length_le (List.prefix_append _ _) ⟨q, hf.symm⟩ (by simp; omega)
      exact ⟨w, hw.symm⟩
    rw [if_neg h4, length_at hlt, if_neg (by omega), if_pos (by omega)]

variable (P) in
def framing : Framing α where
  decoder := P.decoder
  frame a := (P.encode a).getD []
  Ok := P.Marshals
  decodes_frame := by
    rintro a ⟨bytes, hm, hu, hl⟩ rest
    rw [encode, hm]
    exact decodes_object hu hl rest
  decodes_nil b hb := ⟨b, by show P.decode ⟨b, []⟩ = _; rw [decode, hb]; rfl, hb⟩
  decodes_start := by
    rintro a p q ⟨bytes, hm, -, hl⟩ hf hq
    rw [encode, hm] at hf
    exact decodes_start hl hf hq
  frame_ne_nil := by
    rintro a ⟨bytes, hm, -, -⟩
    rw [encode, hm]
    exact List.cons_ne_nil _ _

variable (P) in
def codec : Codec α where
  Part := α
  framing := P.framing
  encode := P.encode
  decode := some
  Sent := P.Marshals
  part := id
  encode_eq := by
    rintro a ⟨bytes, hm, -, -⟩
    show P.encode a = some ((P.encode a).getD [])
    rw [encode, hm]
    rfl
  ok_part h := h
  decode_part _ := rfl

end Provider

/-! ## The ends -/

open Jboss

/-- The codecs of pipelines with these marshallers. -/
def codecs (req : Provider SubscribeReq) (resp : Provider SubscribeResp) : Codecs Jboss.pair := ⟨req.codec, resp.codec⟩

/-- With marshallers that requests and responses come back from, over any events: the
    requests read are a start of those sent, and all of them when none of the client's bytes
    is on its way; the responses received are a start of the answers to these, and all of
    them when none of the server's bytes is. -/
theorem marshalled_correlate (req : Provider SubscribeReq) (resp : Provider SubscribeResp)
    (hreq : ∀ i, req.Marshals (SubReqClientHandler.subReq i)) (hresp : ∀ i, resp.Marshals (SubReqServerHandler.resp i))
    (es : List Event) :
    (run (codecs req resp) es).server.read <+: (sends false es).map SubReqClientHandler.subReq ∧
    (run (codecs req resp) es).client.read <+:
      (run (codecs req resp) es).server.read.map (fun r => SubReqServerHandler.resp r.subReqID) ∧
    ((run (codecs req resp) es).client.out.wire.transit = [] →
      (run (codecs req resp) es).server.read = (sends false es).map SubReqClientHandler.subReq) ∧
    ((run (codecs req resp) es).server.out.wire.transit = [] →
      (run (codecs req resp) es).client.read =
        (run (codecs req resp) es).server.read.map fun r => SubReqServerHandler.resp r.subReqID) :=
  correlates (T := codecs req resp) ⟨hreq, hresp⟩ es

/-! ### Marshallers that write every field -/

/-- A string's UTF-8 bytes behind their number. -/
def writeUTF (s : String) : List UInt8 := intBytes (Int32.ofNat s.toByteArray.size) ++ s.toByteArray.data.toList

abbrev Unmarshaller := StateT (List UInt8) (Except Throwable)

def readInt : Unmarshaller Int32 := fun bytes => .ok (intAt bytes 0, bytes.drop 4)

def readUTF : Unmarshaller String := fun bytes =>
  let n := (intAt bytes 0).toUInt32.toNat
  match String.fromUTF8? ⟨((bytes.drop 4).take n).toArray⟩ with
  | some s => .ok (s, bytes.drop (4 + n))
  | none => .error (.runtime "malformed input")

def writeReq (r : SubscribeReq) : List UInt8 :=
  intBytes r.subReqID ++ (writeUTF r.userName ++ (writeUTF r.productName ++
    (writeUTF r.phoneNumber ++ writeUTF r.address)))

def readReq : Unmarshaller SubscribeReq := do
  let subReqID ← readInt
  let userName ← readUTF
  let productName ← readUTF
  let phoneNumber ← readUTF
  let address ← readUTF
  pure ⟨subReqID, userName, productName, phoneNumber, address⟩

def writeResp (r : SubscribeResp) : List UInt8 := intBytes r.subReqID ++ (intBytes r.respCode ++ writeUTF r.desc)

def readResp : Unmarshaller SubscribeResp := do
  let subReqID ← readInt
  let respCode ← readInt
  let desc ← readUTF
  pure ⟨subReqID, respCode, desc⟩

def reqFields : Provider SubscribeReq := ⟨fun r => some (writeReq r), fun bytes => (readReq bytes).map Prod.fst⟩

def respFields : Provider SubscribeResp := ⟨fun r => some (writeResp r), fun bytes => (readResp bytes).map Prod.fst⟩

theorem readInt_append (v : Int32) (rest : List UInt8) : readInt (intBytes v ++ rest) = .ok (v, rest) := by
  have hi := intAt_append [] v rest
  rw [List.nil_append] at hi
  rw [readInt, show intAt _ 0 = _ from hi, List.drop_left' (length_intBytes v)]

theorem fromUTF8?_toByteArray (s : String) : String.fromUTF8? s.toByteArray = some s := dif_pos s.isValidUTF8

theorem readUTF_append {s : String} (hs : s.toByteArray.size < 0x100000000) (rest : List UInt8) :
    readUTF (writeUTF s ++ rest) = .ok (s, rest) := by
  have hl : s.toByteArray.data.toList.length = s.toByteArray.size := Array.length_toList
  have htake : (s.toByteArray.data.toList ++ rest).take s.toByteArray.size = s.toByteArray.data.toList :=
    List.take_left' hl
  rw [readUTF, writeUTF, List.append_assoc]
  rw [Provider.length_at hs, ← List.drop_drop, List.drop_left' (length_intBytes _), htake, Array.toArray_toList,
    fromUTF8?_toByteArray, List.drop_left' hl]

theorem unmarshal_bind {β γ : Type} {m : Unmarshaller β} {f : β → Unmarshaller γ} {bytes rest : List UInt8} {b : β}
    (h : m bytes = .ok (b, rest)) : (m >>= f) bytes = f b rest := by
  show (m bytes >>= fun r => f r.1 r.2) = _
  rw [h]
  rfl

/-- A string read at the end of the bytes. -/
theorem readUTF_last {s : String} (hs : s.toByteArray.size < 0x100000000) : readUTF (writeUTF s) = .ok (s, []) := by
  have h := readUTF_append hs []
  rw [List.append_nil] at h
  exact h

theorem readReq_writeReq {r : SubscribeReq} (hu : r.userName.toByteArray.size < 0x100000000)
    (hp : r.productName.toByteArray.size < 0x100000000) (hn : r.phoneNumber.toByteArray.size < 0x100000000)
    (ha : r.address.toByteArray.size < 0x100000000) : readReq (writeReq r) = .ok (r, []) := by
  rw [readReq, writeReq, unmarshal_bind (readInt_append _ _), unmarshal_bind (readUTF_append hu _),
    unmarshal_bind (readUTF_append hp _), unmarshal_bind (readUTF_append hn _), unmarshal_bind (readUTF_last ha)]
  rfl

theorem readResp_writeResp {r : SubscribeResp} (hd : r.desc.toByteArray.size < 0x100000000) :
    readResp (writeResp r) = .ok (r, []) := by
  rw [readResp, writeResp, unmarshal_bind (readInt_append _ _), unmarshal_bind (readInt_append _ _),
    unmarshal_bind (readUTF_last hd)]
  rfl

theorem length_writeUTF (s : String) : (writeUTF s).length = 4 + s.toByteArray.size := by
  rw [writeUTF, List.length_append, length_intBytes]
  exact congrArg _ Array.length_toList

theorem marshals_reqFields (i : Int32) : reqFields.Marshals (SubReqClientHandler.subReq i) := by
  have hread : readReq (writeReq (SubReqClientHandler.subReq i)) = .ok (SubReqClientHandler.subReq i, []) :=
    readReq_writeReq (show "yicj".toByteArray.size < _ by decide)
      (show "Netty for marshalling".toByteArray.size < _ by decide)
      (show "157xxxxxxxx".toByteArray.size < _ by decide)
      (show "北京市朝阳区天辰东路奥林匹克公园".toByteArray.size < _ by decide)
  refine ⟨_, rfl, congrArg (Except.map Prod.fst) hread, ?_⟩
  rw [writeReq]
  simp only [List.length_append, length_intBytes, length_writeUTF]
  show 4 + (4 + "yicj".toByteArray.size + (4 + "Netty for marshalling".toByteArray.size +
    (4 + "157xxxxxxxx".toByteArray.size + (4 + "北京市朝阳区天辰东路奥林匹克公园".toByteArray.size)))) + 4 ≤ maxObjectSize
  decide

theorem marshals_respFields (i : Int32) : respFields.Marshals (SubReqServerHandler.resp i) := by
  have hread : readResp (writeResp (SubReqServerHandler.resp i)) = .ok (SubReqServerHandler.resp i, []) :=
    readResp_writeResp (show (SubReqServerHandler.resp 0).desc.toByteArray.size < _ by decide)
  refine ⟨_, rfl, congrArg (Except.map Prod.fst) hread, ?_⟩
  rw [writeResp]
  simp only [List.length_append, length_intBytes, length_writeUTF]
  show 4 + (4 + (4 + (SubReqServerHandler.resp 0).desc.toByteArray.size)) + 4 ≤ maxObjectSize
  decide

/-- A batch of which 30 bytes are read, a heartbeat, and all the rest. -/
def cutRun : List Event := [.active, .serverRead 30, .userEvent .idleState, .serverRead 2000, .clientRead 2000]

theorem marshalled_correlate_fields :
    (run (codecs reqFields respFields) cutRun).server.read <+: (sends false cutRun).map SubReqClientHandler.subReq ∧
    (run (codecs reqFields respFields) cutRun).client.read <+:
      (run (codecs reqFields respFields) cutRun).server.read.map (fun r => SubReqServerHandler.resp r.subReqID) ∧
    ((run (codecs reqFields respFields) cutRun).client.out.wire.transit = [] →
      (run (codecs reqFields respFields) cutRun).server.read = (sends false cutRun).map SubReqClientHandler.subReq) ∧
    ((run (codecs reqFields respFields) cutRun).server.out.wire.transit = [] →
      (run (codecs reqFields respFields) cutRun).client.read =
        (run (codecs reqFields respFields) cutRun).server.read.map fun r => SubReqServerHandler.resp r.subReqID) :=
  marshalled_correlate reqFields respFields marshals_reqFields marshals_respFields cutRun

end NettyStudy.Seria.JbossTransport
