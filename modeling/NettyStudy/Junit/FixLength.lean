/-
  NettyStudy.Junit.FixLength — FixLengthFrameDecoder of junit-channel: frames of a fixed
  length, all that the input holds in one decode call. Netty's own FixedLengthFrameDecoder
  (the one the repository's test instantiates) takes at most one frame per call.

  The splitter both implement: `blocks`, the consecutive full blocks of a byte string,
  and `residue`, what is left over.

  Proved, for every positive frame length:
  - `blocks_append` / `residue_append`: where the input is cut makes no difference.
  - `decodeLoop_ok`: the decoder's while loop takes all the full blocks.
  - `loop_fixLength` / `loop_fixedLength`: the framework's loop around either decoder
    splits its bytes.
  - `fixLength_splits`: over any reads the frames are the blocks of the stream and the
    bytes held are the residue; the close fires nothing; both decoders do the same.
-/

import NettyStudy.Netty.ByteToMessageDecoder

namespace NettyStudy.Junit

open NettyStudy.Netty

/-! ## The splitter -/

section
variable {α : Type} {k : Nat}

/-- The full blocks of `k` elements, from the front. -/
def blocks (k : Nat) (xs : List α) : List (List α) :=
  (List.range (xs.length / k)).map fun i => (xs.drop (k * i)).take k

/-- What is behind the full blocks. -/
def residue (k : Nat) (xs : List α) : List α := xs.drop (k * (xs.length / k))

theorem blocks_short {xs : List α} (h : xs.length < k) : blocks k xs = [] := by
  rw [blocks, Nat.div_eq_of_lt h]
  rfl

theorem residue_short {xs : List α} (h : xs.length < k) : residue k xs = xs := by
  rw [residue, Nat.div_eq_of_lt h]
  rfl

theorem length_residue (hk : 0 < k) (xs : List α) : (residue k xs).length < k := by
  have := Nat.div_add_mod xs.length k
  have := Nat.mod_lt xs.length hk
  rw [residue, List.length_drop]
  omega

theorem blocks_long (hk : 0 < k) {xs : List α} (h : k ≤ xs.length) :
    blocks k xs = xs.take k :: blocks k (xs.drop k) := by
  simp only [blocks, List.length_drop, Nat.div_eq_sub_div hk h, List.range_succ_eq_map, List.map_cons, List.map_map,
    Nat.mul_zero, List.drop_zero, List.cons.injEq, true_and]
  apply List.map_congr_left
  intro i _
  simp only [Function.comp, List.drop_drop, Nat.mul_succ, Nat.add_comm]

theorem residue_long (hk : 0 < k) {xs : List α} (h : k ≤ xs.length) : residue k xs = residue k (xs.drop k) := by
  rw [residue, residue, List.length_drop, List.drop_drop, Nat.div_eq_sub_div hk h, Nat.mul_succ, Nat.add_comm]

/-- The blocks and the residue of two pieces are the first piece's blocks, then those of
    its residue and the second piece. -/
theorem splits_append (hk : 0 < k) : ∀ (n : Nat) (xs ys : List α), xs.length ≤ n →
    blocks k (xs ++ ys) = blocks k xs ++ blocks k (residue k xs ++ ys) ∧
      residue k (xs ++ ys) = residue k (residue k xs ++ ys) := by
  intro n
  induction n using Nat.strongRecOn with
  | ind n ih =>
  intro xs ys hn
  by_cases h : xs.length < k
  · rw [blocks_short h, residue_short h]
    exact ⟨rfl, rfl⟩
  · have h : k ≤ xs.length := by omega
    have ha : k ≤ (xs ++ ys).length := by rw [List.length_append]; omega
    obtain ⟨hb, hr⟩ := ih (xs.drop k).length (by rw [List.length_drop]; omega) (xs.drop k) ys (Nat.le_refl _)
    rw [blocks_long hk ha, residue_long hk ha, blocks_long hk h, residue_long hk h, List.drop_append_of_le_length h,
      List.take_append_of_le_length h, hb, hr]
    exact ⟨rfl, rfl⟩

theorem blocks_append (hk : 0 < k) (xs ys : List α) :
    blocks k (xs ++ ys) = blocks k xs ++ blocks k (residue k xs ++ ys) :=
  (splits_append hk _ xs ys (Nat.le_refl _)).1

theorem residue_append (hk : 0 < k) (xs ys : List α) : residue k (xs ++ ys) = residue k (residue k xs ++ ys) :=
  (splits_append hk _ xs ys (Nat.le_refl _)).2

theorem flatten_blocks (hk : 0 < k) : ∀ (n : Nat) (xs : List α), xs.length ≤ n →
    (blocks k xs).flatten ++ residue k xs = xs := by
  intro n
  induction n using Nat.strongRecOn with
  | ind n ih =>
  intro xs hn
  by_cases h : xs.length < k
  · rw [blocks_short h, residue_short h]
    rfl
  · have h : k ≤ xs.length := by omega
    have := ih (xs.drop k).length (by rw [List.length_drop]; omega) (xs.drop k) (Nat.le_refl _)
    rw [blocks_long hk h, residue_long hk h, List.flatten_cons, List.append_assoc, this, List.take_append_drop]

theorem length_of_mem_blocks {xs b : List α} (h : b ∈ blocks k xs) : b.length = k := by
  obtain ⟨i, hi, rfl⟩ := List.mem_map.mp h
  have hi : k * (i + 1) ≤ xs.length :=
    Nat.le_trans (Nat.mul_le_mul_left k (List.mem_range.mp hi)) (Nat.mul_div_le xs.length k)
  rw [Nat.mul_succ] at hi
  rw [List.length_take, List.length_drop]
  omega

end

/-! ## The decoders -/

structure FixLengthFrameDecoder where
  frameLength : Int32
  pos : 0 < frameLength.toInt

namespace FixLengthFrameDecoder

/-- The constructor. -/
def new (frameLength : Int32) : Except Throwable FixLengthFrameDecoder :=
  if h : frameLength.toInt ≤ 0 then
    .error (.illegalArgument ("长度必须为正整数！[frameLength] : " ++ toString frameLength.toInt))
  else .ok ⟨frameLength, by omega⟩

/-- It makes a decoder of every positive length and of no other. -/
theorem new_ok (frameLength : Int32) :
    (∃ d, new frameLength = .ok d ∧ d.frameLength = frameLength) ↔ 0 < frameLength.toInt := by
  unfold new
  by_cases h : frameLength.toInt ≤ 0
  · simp only [dif_pos h, reduceCtorEq, false_and, exists_false, false_iff]
    omega
  · simp only [dif_neg h, Except.ok.injEq, exists_eq_left', true_iff]
    omega

def size (d : FixLengthFrameDecoder) : Nat := d.frameLength.toInt.toNat

theorem size_pos (d : FixLengthFrameDecoder) : 0 < d.size := by
  have := d.pos
  unfold size
  omega

/-- At most `n` rounds of `decode`'s while loop. -/
def decodeLoop (k : Nat) : Nat → Decode (List UInt8) Unit
  | 0 => pure ()
  | n + 1 => do
    let readable ← readableBytes
    if k ≤ readable then
      let buf ← readBytes k
      add buf
      decodeLoop k n

/-- A round takes at least one byte, so the readable bytes bound the rounds. -/
def decode (d : FixLengthFrameDecoder) : Decode (List UInt8) Unit := do
  let readable ← readableBytes
  decodeLoop d.size readable

/-- The loop takes all the full blocks, with rounds to spare. -/
theorem decodeLoop_ok {k : Nat} (hk : 0 < k) : ∀ (n : Nat) (s : DecodeSt (List UInt8)), s.buf.readable.length ≤ n →
    ∃ b, decodeLoop k n s = .ok () ⟨b, s.out ++ blocks k s.buf.readable⟩ ∧ b.readable = residue k s.buf.readable := by
  intro n
  induction n with
  | zero =>
    intro s h
    have hs : s.buf.readable.length < k := by omega
    rw [blocks_short hs, residue_short hs, List.append_nil]
    exact ⟨s.buf, rfl, rfl⟩
  | succ n ih =>
    intro s h
    rw [decodeLoop, bind_ok (readableBytes_ok s)]
    by_cases hs : s.buf.readable.length < k
    · rw [if_neg (by omega), blocks_short hs, residue_short hs, List.append_nil]
      exact ⟨s.buf, rfl, rfl⟩
    · have hl : k ≤ s.buf.readable.length := by omega
      rw [if_pos hl, readBytes, bind_ok (reading_ok hl), blocks_long hk hl, residue_long hk hl]
      obtain ⟨b, hb, hr⟩ := ih ⟨s.buf.skip k, s.out ++ [s.buf.readable.take k]⟩
        (by rw [ByteBuf.readable_skip, List.length_drop]; omega)
      simp only [ByteBuf.readable_skip, List.append_assoc, List.singleton_append] at hb hr
      exact ⟨b, hb, hr⟩

theorem decode_ok (d : FixLengthFrameDecoder) (s : DecodeSt (List UInt8)) :
    ∃ b, d.decode s = .ok () ⟨b, s.out ++ blocks d.size s.buf.readable⟩ ∧
      b.readable = residue d.size s.buf.readable := by
  rw [decode, bind_ok (readableBytes_ok s)]
  exact decodeLoop_ok d.size_pos _ s (Nat.le_refl _)

def decoder (d : FixLengthFrameDecoder) : Decoder (List UInt8) where
  decode := d.decode
  reads s := by
    obtain ⟨b, hb, hr⟩ := d.decode_ok s
    rw [hb, finalSt, hr, residue, List.length_drop]
    exact Nat.sub_le _ _

theorem decodes (d : FixLengthFrameDecoder) (bs : List UInt8) :
    Decodes d.decoder bs (blocks d.size bs) (residue d.size bs) := by
  intro b hb
  obtain ⟨b', hd, hr⟩ := d.decode_ok ⟨b, []⟩
  rw [show (⟨b, []⟩ : DecodeSt (List UInt8)).buf.readable = bs from hb] at hd hr
  exact ⟨b', hd, hr⟩

/-- A call takes all the blocks, the next one nothing. -/
theorem loop_fixLength (d : FixLengthFrameDecoder) (bs : List UInt8) :
    Loop d.decoder bs (blocks d.size bs) none (residue d.size bs) := by
  have hw := d.decodes (residue d.size bs)
  have hr := length_residue d.size_pos bs
  rw [blocks_short hr, residue_short hr] at hw
  by_cases h : bs.length < d.size
  · rw [blocks_short h, residue_short h]
    rw [residue_short h] at hw
    exact .wait hw
  · have hs := Loop.step (d.decodes bs) (by omega) (.wait hw)
    rwa [List.append_nil] at hs

/-! ## One frame per call -/

/-- Netty's own `FixedLengthFrameDecoder.decode`: one frame, if it is there. -/
def decodeOne (d : FixLengthFrameDecoder) : Decode (List UInt8) Unit := do
  let readable ← readableBytes
  if d.size ≤ readable then
    let buf ← readBytes d.size
    add buf

theorem decodeOne_short {d : FixLengthFrameDecoder} {s : DecodeSt (List UInt8)} (h : s.buf.readable.length < d.size) :
    d.decodeOne s = .ok () s := by
  rw [decodeOne, bind_ok (readableBytes_ok s), if_neg (by omega)]
  rfl

theorem decodeOne_long {d : FixLengthFrameDecoder} {s : DecodeSt (List UInt8)} (h : d.size ≤ s.buf.readable.length) :
    d.decodeOne s = .ok () ⟨s.buf.skip d.size, s.out ++ [s.buf.readable.take d.size]⟩ := by
  rw [decodeOne, bind_ok (readableBytes_ok s), if_pos h, readBytes, bind_ok (reading_ok h)]
  rfl

def decoderOne (d : FixLengthFrameDecoder) : Decoder (List UInt8) where
  decode := d.decodeOne
  reads s := by
    by_cases h : s.buf.readable.length < d.size
    · rw [decodeOne_short h]
      exact Nat.le_refl _
    · rw [decodeOne_long (by omega), finalSt, ByteBuf.readable_skip, List.length_drop]
      exact Nat.sub_le _ _

theorem decodesOne_short {d : FixLengthFrameDecoder} {bs : List UInt8} (h : bs.length < d.size) :
    Decodes d.decoderOne bs [] bs := by
  intro b hb
  exact ⟨b, decodeOne_short (by rw [hb]; exact h), hb⟩

theorem decodesOne_long {d : FixLengthFrameDecoder} {bs : List UInt8} (h : d.size ≤ bs.length) :
    Decodes d.decoderOne bs [bs.take d.size] (bs.drop d.size) := by
  intro b hb
  subst hb
  exact ⟨_, decodeOne_long (s := ⟨b, []⟩) h, b.readable_skip _⟩

/-- Each call but the last takes one block. -/
theorem loop_one (d : FixLengthFrameDecoder) : ∀ (n : Nat) (bs : List UInt8), bs.length ≤ n →
    Loop d.decoderOne bs (blocks d.size bs) none (residue d.size bs) := by
  intro n
  induction n using Nat.strongRecOn with
  | ind n ih =>
  intro bs hn
  have hk := d.size_pos
  by_cases h : bs.length < d.size
  · rw [blocks_short h, residue_short h]
    exact .wait (decodesOne_short h)
  · have h : d.size ≤ bs.length := by omega
    have hlen : (bs.drop d.size).length < bs.length := by rw [List.length_drop]; omega
    have hl := Loop.step (decodesOne_long h) hlen (ih _ (by omega) (bs.drop d.size) (Nat.le_refl _))
    rw [blocks_long hk h, residue_long hk h]
    exact hl

/-! ## Runs -/

/-- A decoder whose loop is the splitter: what a run does, whatever the reads, and that
    the close fires nothing where decode waits on the bytes held. -/
theorem run_blocks {dec : Decoder (List UInt8)} {k : Nat} (hk : 0 < k)
    (hl : ∀ bs, Loop dec bs (blocks k bs) none (residue k bs)) (hw : ∀ bs, bs.length < k → Decodes dec bs [] bs)
    (chunks : List (List UInt8)) :
    ∃ c, run dec none chunks = ⟨c, blocks k chunks.flatten, chunks.map fun _ => none⟩ ∧
      heldBytes c = residue k chunks.flatten ∧ channelInputClosed dec c = ⟨[], none⟩ := by
  obtain ⟨c, hr, hc⟩ := run_splits hl (blocks_append hk) (residue_append hk) chunks none
    (blocks_short hk) (residue_short hk)
  refine ⟨c, hr, hc, channelInputClosed_wait (hw _ ?_)⟩
  rw [hc]
  exact length_residue hk _

/-- Over any reads, empty ones included, the frames are the full blocks of the bytes
    received and the rest of them, shorter than a frame, is held; nothing is thrown, the
    close fires nothing, and a decoder that takes one frame per call does the same. -/
theorem fixLength_splits (d : FixLengthFrameDecoder) (chunks : List (List UInt8)) :
    let r := run d.decoder none chunks
    let one := run d.decoderOne none chunks
    r.fired = blocks d.size chunks.flatten ∧
    (∀ f ∈ r.fired, f.length = d.size) ∧
    heldBytes r.cumulation = residue d.size chunks.flatten ∧
    (heldBytes r.cumulation).length < d.size ∧
    r.fired.flatten ++ heldBytes r.cumulation = chunks.flatten ∧
    (∀ t ∈ r.thrown, t = none) ∧
    channelInputClosed d.decoder r.cumulation = ⟨[], none⟩ ∧
    one.fired = r.fired ∧ heldBytes one.cumulation = heldBytes r.cumulation ∧ one.thrown = r.thrown ∧
    channelInputClosed d.decoderOne one.cumulation = channelInputClosed d.decoder r.cumulation := by
  have hw : ∀ bs : List UInt8, bs.length < d.size → Decodes d.decoder bs [] bs := by
    intro bs h
    have := d.decodes bs
    rwa [blocks_short h, residue_short h] at this
  obtain ⟨c, hr, hc, hcl⟩ := run_blocks d.size_pos d.loop_fixLength hw chunks
  obtain ⟨c1, hr1, hc1, hcl1⟩ := run_blocks d.size_pos (fun bs => d.loop_one _ bs (Nat.le_refl _))
    (fun _ h => decodesOne_short h) chunks
  simp only [hr, hr1, hc, hc1, hcl, hcl1, true_and, and_true]
  refine ⟨fun f hf => length_of_mem_blocks hf, ?_, ?_, ?_⟩
  · exact length_residue d.size_pos _
  · exact flatten_blocks d.size_pos _ _ (Nat.le_refl _)
  · intro t ht
    obtain ⟨-, -, h⟩ := List.mem_map.mp ht
    exact h.symm

end FixLengthFrameDecoder

end NettyStudy.Junit
