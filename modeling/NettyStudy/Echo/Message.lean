/-
  NettyStudy.Echo.Message — the Message protocol of echo-common: the value objects,
  `MessageEncoder.encode` and `MessageDecoder.decode`.

  A frame is the tag byte, four header bytes, a 32-byte session id slot, the payload
  length and the command as big-endian ints, then the payload. The encoder writes the
  session id with the platform's default charset and takes the length from the header.
  Null fields are not modelled: header, session id and data are always there.

  `Accepts` is the decoder's frame grammar on the readable bytes and `messageOf` the
  message it reads there. The five lemmas `decode_short` … `decode_accepts` are all a
  call can do: which exception, and what is consumed by then; `of_decode_ok` inverts a
  call that completes.

  Proved: `decode_exact`, over every buffer decode completes exactly when the grammar
  accepts, with that message and the frame consumed; no run of successful calls is
  longer than a 45th of the bytes, and the loop ends in an empty buffer or a throw.
-/

import NettyStudy.Netty.ByteToMessageDecoder
import NettyStudy.Text.Unicode

namespace NettyStudy.Echo

open NettyStudy.Text NettyStudy.Netty

structure Header where
  tag : UInt8
  encode : UInt8
  encrypt : UInt8
  extend1 : UInt8
  extend2 : UInt8
  sessionid : JString
  length : Int32 := 1024
  cammand : Int32
  deriving DecidableEq

/-- `new Header(sessionid)`: the fields it does not set keep their initial values. -/
def Header.ofSessionid (sessionid : JString) : Header :=
  { tag := 0, encode := 0, encrypt := 0, extend1 := 0, extend2 := 0, sessionid := sessionid, cammand := 0 }

structure Message where
  header : Header
  data : JString
  deriving DecidableEq

def HEAD_LENGHT : Nat := 45

def PACKAGE_TAG : UInt8 := 0x01

/-- `platform` is `getBytes()` with the platform's default charset. -/
def MessageEncoder.encode (platform : JString → List UInt8) (msg : Message) : List UInt8 :=
  let header := msg.header
  [PACKAGE_TAG, header.encode, header.encrypt, header.extend1, header.extend2] ++ platform header.sessionid ++
    intBytes header.length ++ intBytes header.cammand ++ getBytes msg.data

def MessageDecoder.decode : Decode Message Unit := do
  let n ← readableBytes
  throwIf (n < HEAD_LENGHT) (.corruptedFrame "包长度问题")
  let tag ← readByte
  throwIf (tag ≠ PACKAGE_TAG) (.corruptedFrame "标志错误")
  let encode ← readByte
  let encrypt ← readByte
  let extend1 ← readByte
  let extend2 ← readByte
  let sessionByte ← readBytes 32
  let sessionid := newString sessionByte
  let length ← readInt
  let cammand ← readInt
  let header : Header := ⟨tag, encode, encrypt, extend1, extend2, sessionid, length, cammand⟩
  let size ← newByteArray length
  let data ← readBytes size
  add ⟨header, newString data⟩

/-! ## The frame grammar -/

/-- The length field of the frame at the front. -/
def lengthField (r : List UInt8) : Int := (intAt r 37).toInt

/-- The readable bytes start with a whole frame. -/
def Accepts (r : List UInt8) : Prop :=
  HEAD_LENGHT ≤ r.length ∧ r.getD 0 0 = PACKAGE_TAG ∧ 0 ≤ lengthField r ∧ lengthField r ≤ (r.length : Int) - HEAD_LENGHT

instance (r : List UInt8) : Decidable (Accepts r) := inferInstanceAs (Decidable (_ ∧ _))

def headerOf (r : List UInt8) : Header :=
  ⟨r.getD 0 0, r.getD 1 0, r.getD 2 0, r.getD 3 0, r.getD 4 0, newString ((r.drop 5).take 32), intAt r 37, intAt r 41⟩

def messageOf (r : List UInt8) : Message := ⟨headerOf r, newString ((r.drop 45).take (lengthField r).toNat)⟩

/-- Text is only ever read without unpaired surrogates. -/
theorem paired_messageOf (r : List UInt8) : Paired (messageOf r).header.sessionid ∧ Paired (messageOf r).data :=
  ⟨paired_newString _, paired_newString _⟩

/-- What is thrown where the grammar does not accept, and how much is consumed by then:
    the tag byte is read before it is compared, the head before the payload. -/
def rejection (r : List UInt8) : Throwable × Nat :=
  if r.length < HEAD_LENGHT then (.corruptedFrame "包长度问题", 0)
  else if r.getD 0 0 ≠ PACKAGE_TAG then (.corruptedFrame "标志错误", 1)
  else if lengthField r < 0 then (.negativeArraySize, 45)
  else (.indexOutOfBounds, 45)

/-! ## What a decode call does -/

open MessageDecoder (decode)

variable {s : DecodeSt Message}

theorem decode_short (h : s.buf.readable.length < HEAD_LENGHT) :
    decode s = .error (.corruptedFrame "包长度问题") s := by
  rw [decode, bind_ok (readableBytes_ok s), bind_error (throwIf_pos h)]

theorem decode_tag (h : HEAD_LENGHT ≤ s.buf.readable.length) (ht : s.buf.readable.getD 0 0 ≠ PACKAGE_TAG) :
    decode s = .error (.corruptedFrame "标志错误") { s with buf := s.buf.skip 1 } := by
  unfold HEAD_LENGHT at h
  rw [decode, bind_ok (readableBytes_ok s), bind_ok (throwIf_neg (by unfold HEAD_LENGHT; omega)), readByte,
    bind_ok (reading_ok (by omega)), bind_error (throwIf_pos ht)]

/-- `decode` up to `new byte[length]`. -/
def MessageDecoder.decodeHeader : Decode Message Header := do
  let n ← readableBytes
  throwIf (n < HEAD_LENGHT) (.corruptedFrame "包长度问题")
  let tag ← readByte
  throwIf (tag ≠ PACKAGE_TAG) (.corruptedFrame "标志错误")
  let encode ← readByte
  let encrypt ← readByte
  let extend1 ← readByte
  let extend2 ← readByte
  let sessionByte ← readBytes 32
  let sessionid := newString sessionByte
  let length ← readInt
  let cammand ← readInt
  pure ⟨tag, encode, encrypt, extend1, extend2, sessionid, length, cammand⟩

open MessageDecoder (decodeHeader)

theorem decode_decodeHeader : decode = decodeHeader >>= fun header => newByteArray header.length >>= fun size =>
    readBytes size >>= fun data => add ⟨header, newString data⟩ := by
  simp only [decode, decodeHeader, bind_assoc, pure_bind]

/-- With a whole head under the right tag, the head is read. -/
theorem decodeHeader_ok (h : HEAD_LENGHT ≤ s.buf.readable.length) (ht : s.buf.readable.getD 0 0 = PACKAGE_TAG) :
    decodeHeader s = .ok (headerOf s.buf.readable) { s with buf := s.buf.skip 45 } := by
  unfold HEAD_LENGHT at h
  rw [decodeHeader, bind_ok (readableBytes_ok s), bind_ok (throwIf_neg (by unfold HEAD_LENGHT; omega)), readByte,
    readBytes, readInt]
  have read : ∀ {β γ : Type} (k n : Nat) (f : List UInt8 → β) (g : β → Decode Message γ), k + n ≤ 45 →
      (reading n f >>= g) { s with buf := s.buf.skip k } =
        g (f (s.buf.readable.drop k)) { s with buf := s.buf.skip (k + n) } := by
    intro β γ k n f g hk
    rw [bind_ok (reading_ok (by simp; omega))]
    simp
  rw [bind_ok (reading_ok (by omega)), bind_ok (throwIf_neg (by simpa using ht)), read 1 1 _ _ (by omega),
    read 2 1 _ _ (by omega), read 3 1 _ _ (by omega), read 4 1 _ _ (by omega), read 5 32 _ _ (by omega),
    read 37 4 _ _ (by omega), read 41 4 _ _ (by omega)]
  simp only [getD_drop, intAt_drop, Nat.add_zero]
  rfl

/-- The payload is next. -/
theorem decode_head (h : HEAD_LENGHT ≤ s.buf.readable.length) (ht : s.buf.readable.getD 0 0 = PACKAGE_TAG) :
    decode s = (newByteArray (intAt s.buf.readable 37) >>= fun size => readBytes size >>= fun data =>
      add ⟨headerOf s.buf.readable, newString data⟩) { s with buf := s.buf.skip 45 } := by
  rw [decode_decodeHeader, bind_ok (decodeHeader_ok h ht)]
  rfl

theorem decode_negative (h : HEAD_LENGHT ≤ s.buf.readable.length) (ht : s.buf.readable.getD 0 0 = PACKAGE_TAG)
    (hl : lengthField s.buf.readable < 0) :
    decode s = .error .negativeArraySize { s with buf := s.buf.skip 45 } := by
  rw [decode_head h ht, bind_error (newByteArray_error hl)]

theorem decode_overrun (h : HEAD_LENGHT ≤ s.buf.readable.length) (ht : s.buf.readable.getD 0 0 = PACKAGE_TAG)
    (h0 : 0 ≤ lengthField s.buf.readable)
    (hl : (s.buf.readable.length : Int) - HEAD_LENGHT < lengthField s.buf.readable) :
    decode s = .error .indexOutOfBounds { s with buf := s.buf.skip 45 } := by
  rw [decode_head h ht, bind_ok (newByteArray_ok h0), readBytes, bind_error (reading_error ?_)]
  unfold HEAD_LENGHT at h hl
  unfold lengthField at h0 hl
  simp only [ByteBuf.readable_skip, List.length_drop]
  omega

theorem decode_accepts (h : Accepts s.buf.readable) :
    decode s = .ok () ⟨s.buf.skip (45 + (lengthField s.buf.readable).toNat), s.out ++ [messageOf s.buf.readable]⟩ := by
  obtain ⟨h45, ht, h0, hl⟩ := h
  rw [decode_head h45 ht, bind_ok (newByteArray_ok h0), readBytes, bind_ok (reading_ok ?_)]
  · simp only [ByteBuf.readable_skip, ByteBuf.skip_skip]
    rfl
  · unfold HEAD_LENGHT at h45 hl
    unfold lengthField at h0 hl
    simp only [ByteBuf.readable_skip, List.length_drop]
    omega

/-- Where the grammar does not accept, `rejection` is thrown and no message is added. -/
theorem decode_rejects (h : ¬ Accepts s.buf.readable) :
    decode s = .error (rejection s.buf.readable).1 { s with buf := s.buf.skip (rejection s.buf.readable).2 } := by
  unfold rejection
  by_cases h45 : s.buf.readable.length < HEAD_LENGHT
  · rw [if_pos h45, decode_short h45, ByteBuf.skip_zero]
  by_cases ht : s.buf.readable.getD 0 0 ≠ PACKAGE_TAG
  · rw [if_neg h45, if_pos ht, decode_tag (by omega) ht]
  rw [if_neg h45, if_neg ht]
  have ht : s.buf.readable.getD 0 0 = PACKAGE_TAG := by simpa using ht
  by_cases h0 : lengthField s.buf.readable < 0
  · rw [if_pos h0, decode_negative (by omega) ht h0]
  · rw [if_neg h0, decode_overrun (by omega) ht (by omega)]
    apply Classical.byContradiction; intro hl
    exact h ⟨by omega, ht, by omega, by omega⟩

/-- A call that completes accepted a frame, added its message and consumed it. -/
theorem of_decode_ok {s' : DecodeSt Message} (h : decode s = .ok () s') :
    Accepts s.buf.readable ∧
      s' = ⟨s.buf.skip (45 + (lengthField s.buf.readable).toNat), s.out ++ [messageOf s.buf.readable]⟩ := by
  by_cases ha : Accepts s.buf.readable
  · rw [decode_accepts ha] at h
    injection h with _ h
    exact ⟨ha, h.symm⟩
  · rw [decode_rejects ha] at h
    cases h

theorem accepts_le {r : List UInt8} (h : Accepts r) : 45 + (lengthField r).toNat ≤ r.length := by
  obtain ⟨h45, -, h0, hl⟩ := h
  unfold HEAD_LENGHT at h45 hl
  omega

/-! ## The decoder in the framework -/

def messageDecoder : Decoder Message where
  decode := decode
  reads s := by
    by_cases h : Accepts s.buf.readable
    · rw [decode_accepts h]; simp [finalSt]
    · rw [decode_rejects h]; simp [finalSt]

theorem decodes_accepted {bs : List UInt8} (h : Accepts bs) :
    Decodes messageDecoder bs [messageOf bs] (bs.drop (45 + (lengthField bs).toNat)) := by
  rintro b rfl
  exact ⟨_, decode_accepts (s := ⟨b, []⟩) h, b.readable_skip _⟩

theorem throws_rejected {bs : List UInt8} (h : ¬ Accepts bs) :
    Throws messageDecoder bs [] (rejection bs).1 (bs.drop (rejection bs).2) := by
  rintro b rfl
  exact ⟨_, decode_rejects (s := ⟨b, []⟩) h, b.readable_skip _⟩

/-- Over any bytes the loop ends, after at most a 45th as many messages, in an empty
    buffer or a throw. -/
theorem loop_total : ∀ (n : Nat) (bs : List UInt8), bs.length ≤ n →
    ∃ xs t rest, Loop messageDecoder bs xs t rest ∧ 45 * xs.length ≤ bs.length ∧ (t = none → rest = []) := by
  intro n
  induction n using Nat.strongRecOn with
  | ind n ih =>
  intro bs hn
  by_cases hb : bs = []
  · subst hb; exact ⟨[], none, [], .done, by simp, fun _ => rfl⟩
  by_cases h : Accepts bs
  · have hle := accepts_le h
    have hlen : (bs.drop (45 + (lengthField bs).toNat)).length = bs.length - (45 + (lengthField bs).toNat) :=
      List.length_drop
    obtain ⟨xs, t, rest, hl, hx, ht⟩ := ih _ (by omega) (bs.drop (45 + (lengthField bs).toNat)) (Nat.le_refl _)
    exact ⟨_, t, rest, .step (decodes_accepted h) (by omega) hl,
      by simp only [List.length_append, List.length_singleton]; omega, ht⟩
  · exact ⟨[], _, _, .throws hb (throws_rejected h), by simp, fun h => by cases h⟩

/-- Successful calls consume at least 45 bytes each. -/
theorem calls_le {n : Nat} {b b' : ByteBuf} (h : Calls messageDecoder n b b') : 45 * n ≤ b.readable.length := by
  induction h with
  | zero b => simp
  | @succ n b b1 b' xs hd _ ih =>
    obtain ⟨ha, hs⟩ := of_decode_ok hd
    obtain rfl : b1 = b.skip (45 + (lengthField b.readable).toNat) := congrArg DecodeSt.buf hs
    have hle : 45 + (lengthField b.readable).toNat ≤ b.readable.length := accepts_le ha
    rw [ByteBuf.readable_skip, List.length_drop] at ih
    omega

/-- Over every buffer, decode completes exactly when the readable bytes start with a
    whole frame; it then adds the one message of that frame and consumes the frame.
    No more than a 45th of the bytes are successful calls, and the loop ends. -/
theorem decode_exact (s : DecodeSt Message) :
    ((∃ s', decode s = .ok () s') ↔ Accepts s.buf.readable) ∧
    (∀ s', decode s = .ok () s' →
      s'.out = s.out ++ [messageOf s.buf.readable] ∧
      s'.buf.bytes = s.buf.bytes ∧
      s'.buf.readerIndex = s.buf.readerIndex + 45 + (lengthField s.buf.readable).toNat) ∧
    (∀ n b', Calls messageDecoder n s.buf b' → n ≤ s.buf.readable.length / HEAD_LENGHT) ∧
    (callDecode messageDecoder s.buf).fired.length ≤ s.buf.readable.length / HEAD_LENGHT ∧
    ((callDecode messageDecoder s.buf).thrown = none → (callDecode messageDecoder s.buf).buf.readable = []) := by
  refine ⟨⟨fun ⟨s', h⟩ => (of_decode_ok h).1, fun h => ⟨_, decode_accepts h⟩⟩, ?_, ?_, ?_⟩
  · intro s' h
    obtain ⟨ha, rfl⟩ := of_decode_ok h
    have hle := accepts_le ha
    have hlen : s.buf.readable.length = s.buf.bytes.length - s.buf.readerIndex := List.length_drop
    exact ⟨rfl, rfl, by simp only [ByteBuf.skip]; omega⟩
  · intro n b' h
    have := calls_le h
    unfold HEAD_LENGHT
    omega
  · obtain ⟨xs, t, rest, hl, hx, ht⟩ := loop_total _ s.buf.readable (Nat.le_refl _)
    obtain ⟨b', hp, hb'⟩ := hl.callDecode s.buf rfl
    rw [hp]
    refine ⟨by simp only [HEAD_LENGHT]; omega, fun h => ?_⟩
    rw [hb']; exact ht h

end NettyStudy.Echo
