/-
  NettyStudy.Junit.FrameChunk — FrameChunkDecoder of junit-channel: all the readable
  bytes are one frame, unless they are more than `maxFrameSize`; then they are
  discarded and TooLongFrameException is thrown. The constructor takes any int.

  Proved:
  - `loop_frameChunk`: either way a read's bytes are gone when the loop ends.
  - `frameChunk_runs`: over any non-empty reads the frames are the reads of allowed
    length, each longer one throws, and nothing is held after any of them.
-/

import NettyStudy.Netty.ByteToMessageDecoder

namespace NettyStudy.Junit

open NettyStudy.Netty

structure FrameChunkDecoder where
  maxFrameSize : Int32

namespace FrameChunkDecoder

variable (d : FrameChunkDecoder)

def decode : Decode (List UInt8) Unit := do
  let readableByes ← readableBytes
  if d.maxFrameSize.toInt < readableByes then
    clearInput
    throw .tooLongFrame
  let buf ← readBytes readableByes
  add buf

/-- The bytes are a frame. -/
def Fits (bs : List UInt8) : Prop := (bs.length : Int) ≤ d.maxFrameSize.toInt

instance (bs : List UInt8) : Decidable (d.Fits bs) := inferInstanceAs (Decidable (_ ≤ _))

variable {d} {s : DecodeSt (List UInt8)}

theorem decode_fits (h : d.Fits s.buf.readable) :
    d.decode s = .ok () ⟨s.buf.skip s.buf.readable.length, s.out ++ [s.buf.readable]⟩ := by
  rw [decode, bind_ok (readableBytes_ok s), if_neg (Int.not_lt.mpr h)]
  show (readBytes s.buf.readable.length >>= add) s = _
  rw [readBytes, bind_ok (reading_ok (Nat.le_refl _)), List.take_length]
  rfl

theorem decode_long (h : ¬ d.Fits s.buf.readable) :
    d.decode s = .error .tooLongFrame { s with buf := s.buf.clear } := by
  rw [decode, bind_ok (readableBytes_ok s), if_pos (Int.not_le.mp h)]
  rfl

def decoder (d : FrameChunkDecoder) : Decoder (List UInt8) where
  decode := d.decode
  reads s := by
    by_cases h : d.Fits s.buf.readable
    · rw [decode_fits h, finalSt, ByteBuf.readable_skip, List.length_drop]
      exact Nat.sub_le _ _
    · rw [decode_long h, finalSt, ByteBuf.readable_clear]
      exact Nat.zero_le _

/-- The frames and the exception of one read. -/
def framesOf (d : FrameChunkDecoder) (chunk : List UInt8) : List (List UInt8) := if d.Fits chunk then [chunk] else []

def thrownOn (d : FrameChunkDecoder) (chunk : List UInt8) : Option Throwable :=
  if d.Fits chunk then none else some .tooLongFrame

theorem flatMap_framesOf (d : FrameChunkDecoder) (chunks : List (List UInt8)) :
    chunks.flatMap d.framesOf = chunks.filter d.Fits := by
  induction chunks with
  | nil => rfl
  | cons c cs ih =>
    by_cases h : d.Fits c <;> simp [framesOf, h, ih]

/-- Either way a read's bytes are gone when the loop ends. -/
theorem loop_frameChunk (d : FrameChunkDecoder) {bs : List UInt8} (hb : bs ≠ []) :
    Loop d.decoder bs (d.framesOf bs) (d.thrownOn bs) [] := by
  by_cases h : d.Fits bs
  · have hd : Decodes d.decoder bs [bs] [] := by
      intro b hb
      subst hb
      exact ⟨_, decode_fits (s := ⟨b, []⟩) h, by simp⟩
    rw [framesOf, thrownOn, if_pos h, if_pos h]
    exact .step hd (List.length_pos_iff.mpr hb) .done
  · have ht : Throws d.decoder bs [] .tooLongFrame [] := by
      intro b hb
      subst hb
      exact ⟨_, decode_long (s := ⟨b, []⟩) h, by simp⟩
    rw [framesOf, thrownOn, if_neg h, if_neg h]
    exact .throws hb ht

/-- Over any non-empty reads the frames are the reads of allowed length, in order; each
    longer one throws, and only those; nothing is held after any of them, and the close
    fires nothing. -/
theorem frameChunk_runs (d : FrameChunkDecoder) (chunks : List (List UInt8)) (h : [] ∉ chunks) :
    (run d.decoder none chunks).fired = chunks.filter (fun c => (c.length : Int) ≤ d.maxFrameSize.toInt) ∧
    (run d.decoder none chunks).thrown =
      chunks.map (fun c => if d.maxFrameSize.toInt < c.length then some .tooLongFrame else none) ∧
    (∀ n, heldBytes (run d.decoder none (chunks.take n)).cumulation = []) ∧
    channelInputClosed d.decoder (run d.decoder none chunks).cumulation = ⟨[], none⟩ := by
  have hr : ∀ cs : List (List UInt8), [] ∉ cs →
      run d.decoder none cs = ⟨none, cs.filter d.Fits, cs.map d.thrownOn⟩ := by
    intro cs hcs
    rw [run_wholes fun bs hb => d.loop_frameChunk fun he => hcs (he ▸ hb), flatMap_framesOf]
  rw [hr chunks h]
  refine ⟨rfl, ?_, ?_, channelInputClosed_none⟩
  · apply List.map_congr_left
    intro c _
    by_cases hc : d.Fits c
    · rw [thrownOn, if_pos hc, if_neg (Int.not_lt.mpr hc)]
    · rw [thrownOn, if_neg hc, if_pos (Int.not_le.mp hc)]
  · intro n
    rw [hr _ fun hm => h (List.mem_of_mem_take hm)]
    rfl

/-- The reads of the repository's test: 2, 4 and 3 bytes, frames of at most 3. -/
theorem frameChunk_runs_test :
    (run (decoder ⟨3⟩) none [[0, 1], [2, 3, 4, 5], [6, 7, 8]]).fired = [[0, 1], [6, 7, 8]] ∧
    (run (decoder ⟨3⟩) none [[0, 1], [2, 3, 4, 5], [6, 7, 8]]).thrown = [none, some .tooLongFrame, none] := by
  obtain ⟨hf, ht, -, -⟩ := frameChunk_runs ⟨3⟩ [[0, 1], [2, 3, 4, 5], [6, 7, 8]] (by decide)
  exact ⟨hf.trans (by decide), ht.trans (by decide)⟩

end FrameChunkDecoder

end NettyStudy.Junit
