/-
  NettyStudy.Protobuf.Varint32Frame — Netty's ProtobufVarint32LengthFieldPrepender and
  ProtobufVarint32FrameDecoder (netty 4.1.34, not part of the repository): a frame is its
  length, as a varint of at most five bytes, and its bytes. The decoder waits for all of
  both; a longer varint and a negative length are a CorruptedFrameException.

  Proved: `truncated_varintN`, the start of a varint is not one; `framing`, the decoder
  knows where a frame ends.
-/

import NettyStudy.Netty.Framing
import NettyStudy.Protobuf.Reader

namespace NettyStudy.Protobuf

open NettyStudy.Netty

/-! ## The codec -/

/-- `ProtobufVarint32LengthFieldPrepender.encode`. -/
def frame (body : List UInt8) : List UInt8 := writeVarintN 5 body.length ++ body

/-- `ProtobufVarint32FrameDecoder.decode`. -/
def decodeFrame : Decode (List UInt8) Unit := fun s =>
  match readVarintN 5 s.buf.readable with
  | .error .truncatedMessage => .ok () s
  | .error _ => .error (.corruptedFrame "malformed varint.") { s with buf := s.buf.skip 5 }
  | .ok (n, rest) =>
    let length := (Int32.ofNat n).toInt
    let buf := s.buf.skip (s.buf.readable.length - rest.length)
    if length < 0 then .error (.corruptedFrame ("negative length: " ++ toString length)) { s with buf := buf }
    else if rest.length < length.toNat then .ok () s
    else .ok () ⟨buf.skip length.toNat, s.out ++ [rest.take length.toNat]⟩

def frameDecoder : Decoder (List UInt8) where
  decode := decodeFrame
  reads s := by
    unfold decodeFrame
    split
    · exact Nat.le_refl _
    · rw [finalSt, ByteBuf.readable_skip, List.length_drop]
      exact Nat.sub_le _ _
    · dsimp only
      split
      · rw [finalSt, ByteBuf.readable_skip, List.length_drop]
        exact Nat.sub_le _ _
      · split
        · exact Nat.le_refl _
        · rw [finalSt, ByteBuf.readable_skip, ByteBuf.readable_skip, List.length_drop, List.length_drop]
          omega

/-! ## Starts of varints -/

theorem readVarintN_cons (k : Nat) (b : UInt8) (p : List UInt8) :
    readVarintN (k + 1) (b :: p) =
      if b.toNat < 0x80 then .ok (b.toNat, p)
      else match readVarintN k p with
        | .ok (m, rest) => .ok (b.toNat - 0x80 + 0x80 * m, rest)
        | .error e => .error e := by
  rw [readVarintN, bind_eq]
  show (if b.toNat < 0x80 then pure b.toNat
    else readVarintN k >>= fun m => pure (b.toNat - 0x80 + 0x80 * m) : Reader Nat) p = _
  split
  · rfl
  · rw [bind_eq]
    cases readVarintN k p with
    | ok x => rfl
    | error e => rfl

/-- What is not cut short stays as it is when more bytes follow. -/
theorem error_append : ∀ (k : Nat) {p : List UInt8} {e : InvalidProtocolBufferException},
    readVarintN k p = .error e → e ≠ .truncatedMessage → ∀ q, readVarintN k (p ++ q) = .error e := by
  intro k
  induction k with
  | zero => exact fun h _ _ => h
  | succ k ih =>
    intro p e h he q
    cases p with
    | nil =>
      cases h
      exact absurd rfl he
    | cons b p =>
      rw [List.cons_append, readVarintN_cons]
      rw [readVarintN_cons] at h
      split at h
      · cases h
      · rename_i hb
        rw [if_neg hb]
        split at h
        · cases h
        · rename_i hp
          rw [ih hp (by rintro rfl; cases h; exact he rfl) q]
          exact h

/-- The start of a varint is cut short. -/
theorem truncated_varintN {k n : Nat} {p q : List UInt8} (hy : Yields (readVarintN k) (p ++ q) n) (hq : q ≠ []) :
    readVarintN k p = .error .truncatedMessage := by
  have hall := hy []
  rw [List.append_nil] at hall
  cases hp : readVarintN k p with
  | ok x =>
    obtain ⟨m, rest⟩ := x
    obtain ⟨used, rfl, hu⟩ := local_varintN k _ _ _ hp
    rw [List.append_assoc, hu] at hall
    have hnil : rest ++ q = [] := congrArg Prod.snd (Except.ok.inj hall)
    exact absurd (List.append_eq_nil_iff.mp hnil).2 hq
  | error e =>
    by_cases he : e = .truncatedMessage
    · rw [he]
    · rw [error_append k hp he] at hall
      cases hall

/-! ## Frames -/

/-- A length an int can have. -/
def Fits (body : List UInt8) : Prop := body.length < 0x80000000

theorem yields_length {body : List UInt8} (h : Fits body) :
    Yields (readVarintN 5) (writeVarintN 5 body.length) body.length :=
  yields_varintN 4 body.length (Nat.lt_of_lt_of_le h (by decide))

theorem decodes_frame {body : List UInt8} (h : Fits body) (rest : List UInt8) :
    Decodes frameDecoder (frame body ++ rest) [body] rest := by
  intro b hb
  have hy := yields_length h (body ++ rest)
  have hlen : (Int32.ofNat body.length).toInt = body.length := Int32.toInt_ofNat_of_lt h
  have hbs : b.readable = writeVarintN 5 body.length ++ (body ++ rest) := by rw [hb, frame, List.append_assoc]
  have hskip : b.readable.length - (body ++ rest).length = (writeVarintN 5 body.length).length := by
    rw [hbs, List.length_append]
    omega
  rw [← hbs] at hy
  refine ⟨(b.skip (writeVarintN 5 body.length).length).skip body.length, ?_, ?_⟩
  · show decodeFrame ⟨b, []⟩ = _
    rw [decodeFrame]
    simp only [hy, hlen, hskip]
    rw [if_neg (by omega), Int.toNat_natCast, if_neg (by rw [List.length_append]; omega), List.take_left]
    rfl
  · rw [ByteBuf.readable_skip, ByteBuf.readable_skip, hbs, List.drop_left, List.drop_left]

/-- On the start of a frame the decoder waits, for its length or for the rest of it. -/
theorem decodes_start {body p q : List UInt8} (h : Fits body) (hf : frame body = p ++ q) (hq : q ≠ []) :
    Decodes frameDecoder p [] p := by
  intro b hb
  have hlen : (Int32.ofNat body.length).toInt = body.length := Int32.toInt_ofNat_of_lt h
  refine ⟨b, ?_, hb⟩
  show decodeFrame ⟨b, []⟩ = _
  rw [decodeFrame]
  simp only [hb]
  rcases List.append_eq_append_iff.mp hf with ⟨w, rfl, hw⟩ | ⟨w, hw, rfl⟩
  · -- all of the length, and not all of the bytes
    simp only [yields_length h w, hlen]
    have hpos := List.length_pos_iff.mpr hq
    have hl := congrArg List.length hw
    rw [List.length_append] at hl
    rw [if_neg (by omega), Int.toNat_natCast, if_pos (by omega)]
  · by_cases hnil : w = []
    · subst hnil
      rw [List.append_nil] at hw
      have hy := yields_length h []
      rw [List.append_nil, hw] at hy
      simp only [hy, hlen]
      have hpos := List.length_pos_iff.mpr hq
      rw [List.nil_append] at hpos
      rw [if_neg (by omega), Int.toNat_natCast, if_pos (by simpa using hpos)]
    · have hy := yields_length h
      rw [hw] at hy
      simp only [truncated_varintN hy hnil]

def framing : Framing (List UInt8) where
  decoder := frameDecoder
  frame := frame
  Ok := Fits
  decodes_frame := decodes_frame
  decodes_nil b hb := ⟨b, by show decodeFrame ⟨b, []⟩ = _; rw [decodeFrame, hb]; rfl, hb⟩
  decodes_start := decodes_start
  frame_ne_nil h he := by
    have := yields_length h []
    rw [(List.append_eq_nil_iff.mp he).1] at this
    cases this

end NettyStudy.Protobuf
