/-
  NettyStudy.Echo.Rejection — what MessageDecoder does with a buffer it does not accept.

  Of its checks only the first, for a whole head, is made before anything is read, and
  only the first two throw CorruptedFrameException. The length field is not checked at
  all: a negative one fails in `new byte[length]`, one behind which there are too few
  bytes in `readBytes`, after the array has been allocated.

  Proved, over every buffer:
  - `restored_iff`: a call that throws leaves the buffer as it was exactly when there was
    no whole head.
  - `rejectsCleanly_iff`: the rejection is a CorruptedFrameException and the array no
    larger than the bytes left, exactly where the first two checks fail or the length
    field is one the bytes bear out.
-/

import NettyStudy.Echo.RoundTrip

namespace NettyStudy.Echo

open NettyStudy.Text NettyStudy.Netty
open MessageDecoder (decode decodeHeader)

/-! ## The buffer after a throw -/

/-- No message was added, and buffer and reader index are as they were. -/
def Restored (s s' : DecodeSt Message) : Prop :=
  s'.out = s.out ∧ s'.buf.readerIndex = s.buf.readerIndex ∧ s'.buf.readable = s.buf.readable

/-- A call that throws has not accepted; it added nothing and consumed what `rejection`
    says. -/
theorem of_decode_error {s s' : DecodeSt Message} {e : Throwable} (h : decode s = .error e s') :
    ¬ Accepts s.buf.readable ∧ e = (rejection s.buf.readable).1 ∧
      s' = { s with buf := s.buf.skip (rejection s.buf.readable).2 } := by
  by_cases ha : Accepts s.buf.readable
  · rw [decode_accepts ha] at h
    cases h
  · rw [decode_rejects ha] at h
    injection h with he hs
    exact ⟨ha, he.symm, hs.symm⟩

theorem rejection_short {r : List UInt8} (h : r.length < HEAD_LENGHT) : (rejection r).2 = 0 := by
  rw [rejection, if_pos h]

/-- With a whole head there, something of it is consumed before the throw. -/
theorem rejection_consumes {r : List UInt8} (h : ¬ r.length < HEAD_LENGHT) :
    0 < (rejection r).2 ∧ (rejection r).2 ≤ r.length := by
  unfold rejection
  rw [if_neg h]
  unfold HEAD_LENGHT at h
  split
  · exact ⟨by decide, by show 1 ≤ r.length; omega⟩
  split
  · exact ⟨by decide, by show 45 ≤ r.length; omega⟩
  · exact ⟨by decide, by show 45 ≤ r.length; omega⟩

/-- A call that throws leaves the buffer as it was exactly when it lacked a whole head. -/
theorem restored_iff (s s' : DecodeSt Message) (e : Throwable) (h : decode s = .error e s') :
    Restored s s' ↔ s.buf.readable.length < HEAD_LENGHT := by
  obtain ⟨-, -, rfl⟩ := of_decode_error h
  constructor
  · intro hr
    apply Classical.byContradiction
    intro hs
    obtain ⟨hpos, hle⟩ := rejection_consumes hs
    have hlen := congrArg List.length hr.2.2
    rw [ByteBuf.readable_skip, List.length_drop] at hlen
    omega
  · intro hs
    rw [rejection_short hs, ByteBuf.skip_zero]
    exact ⟨rfl, rfl, rfl⟩

/-- 44 bytes of a frame behind three that have been read, and a message decoded before. -/
def partialHead : DecodeSt Message :=
  ⟨(ByteBuf.wrap (List.replicate 3 0xFF ++ (frame EchoClientHandler.channelActive).take 44)).skip 3,
    [EchoServerHandler.reply]⟩

theorem restored_partialHead :
    partialHead.buf.readerIndex = 3 ∧ partialHead.buf.readable.length = 44 ∧
      decode partialHead = .error (.corruptedFrame "包长度问题") partialHead ∧
      (Restored partialHead partialHead ↔ partialHead.buf.readable.length < HEAD_LENGHT) := by
  have hlen : partialHead.buf.readable.length = 44 := by decide
  have hd : decode partialHead = .error (.corruptedFrame "包长度问题") partialHead :=
    decode_short (by rw [hlen]; decide)
  exact ⟨by decide, hlen, hd, restored_iff partialHead partialHead _ hd⟩

/-- 45 bytes under a wrong tag, of which the tag byte is gone after the throw. -/
theorem not_restored_tag :
    ∃ s', decode ⟨.wrap (List.replicate 45 0), []⟩ = .error (.corruptedFrame "标志错误") s' ∧
      ¬ Restored ⟨.wrap (List.replicate 45 0), []⟩ s' := by
  refine ⟨_, decode_tag (s := ⟨.wrap (List.replicate 45 0), []⟩) (by decide) (by decide), ?_⟩
  intro h
  exact absurd h.2.1 (by decide)

/-! ## What is thrown, and what is allocated -/

/-- The call completes or throws CorruptedFrameException; if it gets to
    `new byte[length]`, the length is one the bytes still readable bear out. -/
def RejectsCleanly (s : DecodeSt Message) : Prop :=
  ((∃ s', decode s = .ok () s') ∨ ∃ message s', decode s = .error (.corruptedFrame message) s') ∧
    ∀ header s', decodeHeader s = .ok header s' →
      0 ≤ header.length.toInt ∧ header.length.toInt ≤ s'.buf.readable.length

/-- A head that was read was whole and under the right tag. -/
theorem of_decodeHeader_ok {s s' : DecodeSt Message} {header : Header} (h : decodeHeader s = .ok header s') :
    HEAD_LENGHT ≤ s.buf.readable.length ∧ s.buf.readable.getD 0 0 = PACKAGE_TAG ∧
      header = headerOf s.buf.readable ∧ s' = { s with buf := s.buf.skip 45 } := by
  by_cases h45 : s.buf.readable.length < HEAD_LENGHT
  · rw [decodeHeader, bind_ok (readableBytes_ok s), bind_error (throwIf_pos h45)] at h
    cases h
  by_cases ht : s.buf.readable.getD 0 0 = PACKAGE_TAG
  · rw [decodeHeader_ok (by omega) ht] at h
    injection h with hh hs
    exact ⟨by omega, ht, hh.symm, hs.symm⟩
  · rw [decodeHeader, bind_ok (readableBytes_ok s), bind_ok (throwIf_neg h45), readByte,
      bind_ok (reading_ok (by unfold HEAD_LENGHT at h45; omega)), bind_error (throwIf_pos ht)] at h
    cases h

theorem rejection_corrupted {r : List UInt8} (h : r.length < HEAD_LENGHT ∨ r.getD 0 0 ≠ PACKAGE_TAG) :
    ∃ message, (rejection r).1 = .corruptedFrame message := by
  unfold rejection
  split
  · exact ⟨_, rfl⟩
  · rename_i h45
    rw [if_pos (h.resolve_left h45)]
    exact ⟨_, rfl⟩

/-- The rejection is clean exactly where there is no whole head, the tag is wrong, or the
    length field is between 0 and the number of bytes behind the head. -/
theorem rejectsCleanly_iff (s : DecodeSt Message) :
    RejectsCleanly s ↔ s.buf.readable.length < HEAD_LENGHT ∨ s.buf.readable.getD 0 0 ≠ PACKAGE_TAG ∨
      0 ≤ lengthField s.buf.readable ∧ lengthField s.buf.readable ≤ (s.buf.readable.length : Int) - HEAD_LENGHT := by
  -- the length the array is made with, and the bytes readable then
  have hlen : (headerOf s.buf.readable).length.toInt = lengthField s.buf.readable := rfl
  have hleft : (s.buf.skip 45).readable.length = s.buf.readable.length - HEAD_LENGHT := by simp [HEAD_LENGHT]
  constructor
  · intro h
    by_cases h45 : s.buf.readable.length < HEAD_LENGHT
    · exact Or.inl h45
    by_cases ht : s.buf.readable.getD 0 0 = PACKAGE_TAG
    · obtain ⟨h0, hl⟩ := h.2 _ _ (decodeHeader_ok (by omega) ht)
      rw [hlen] at h0 hl
      rw [hleft] at hl
      exact Or.inr (Or.inr ⟨h0, by omega⟩)
    · exact Or.inr (Or.inl ht)
  · intro h
    refine ⟨?_, ?_⟩
    · by_cases ha : Accepts s.buf.readable
      · exact Or.inl ⟨_, decode_accepts ha⟩
      · have hc : s.buf.readable.length < HEAD_LENGHT ∨ s.buf.readable.getD 0 0 ≠ PACKAGE_TAG := by
          apply Classical.byContradiction
          intro hc
          simp only [not_or, Nat.not_lt, not_not] at hc
          rcases h with h45 | ht | hl
          · omega
          · exact ht hc.2
          · exact ha ⟨hc.1, hc.2, hl⟩
        obtain ⟨message, hm⟩ := rejection_corrupted hc
        exact Or.inr ⟨message, _, hm ▸ decode_rejects ha⟩
    · intro header s' hh
      obtain ⟨h45, ht, rfl, rfl⟩ := of_decodeHeader_ok hh
      rw [hlen, hleft]
      rcases h with h | h | ⟨h0, hl⟩
      · omega
      · exact absurd ht h
      · exact ⟨h0, by omega⟩

/-- A 45-byte packet that claims a byte of payload. -/
def boastful : List UInt8 :=
  [PACKAGE_TAG, 0, 0, 0, 0] ++ List.replicate 32 0x61 ++ [0, 0, 0, 1] ++ [0, 0, 0, 0]

/-- A byte is allocated that is not there, and the exception is not a
    CorruptedFrameException. -/
theorem not_rejectsCleanly_boastful :
    (∃ header s', decodeHeader ⟨.wrap boastful, []⟩ = .ok header s' ∧ header.length.toInt = 1 ∧
      s'.buf.readable = []) ∧
    (∃ s', decode ⟨.wrap boastful, []⟩ = .error .indexOutOfBounds s') ∧ ¬ RejectsCleanly ⟨.wrap boastful, []⟩ := by
  have hh := decodeHeader_ok (s := ⟨.wrap boastful, []⟩) (by decide) (by decide)
  refine ⟨⟨_, _, hh, by decide, by decide⟩, ⟨_, decode_overrun (s := ⟨.wrap boastful, []⟩) (by decide) (by decide)
    (by decide) (by decide)⟩, ?_⟩
  intro h
  exact absurd (h.2 _ _ hh).2 (by decide)

end NettyStudy.Echo
