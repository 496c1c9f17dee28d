/-
  NettyStudy.Junit.AbsInteger — AbsIntegerEncoder of junit-channel: the ints of a buffer,
  each as its `Math.abs`. MessageToMessageEncoder calls encode once for each buffer written
  and passes on what it adds to the output list; an empty list is an EncoderException.

  `Math.abs` negates in 32 bits: of the least int it is that int again.

  Proved:
  - `encode_ok`: encode adds the absolute value of every whole int of the buffer.
  - `emitted_eq`: however ints are grouped into buffers of whole ints, one value is emitted
    for each, in order.
  - `absolute_iff`: these are the absolute values exactly when the least int is not among
    the ints.
-/

import NettyStudy.Junit.FixLength

namespace NettyStudy.Junit

open NettyStudy.Netty

/-! ## The ints of a buffer -/

/-- The whole ints of a byte string, from the front. -/
def ints (bs : List UInt8) : List Int32 := (blocks 4 bs).map fun b => intAt b 0

theorem intAt_take (bs : List UInt8) : intAt (bs.take 4) 0 = intAt bs 0 := by
  rcases bs with _ | ⟨b0, _ | ⟨b1, _ | ⟨b2, _ | ⟨b3, r⟩⟩⟩⟩ <;> rfl

theorem ints_long {bs : List UInt8} (h : 4 ≤ bs.length) : ints bs = intAt bs 0 :: ints (bs.drop 4) := by
  rw [ints, blocks_long (by omega) h, List.map_cons, intAt_take]
  rfl

/-- Ints are read back from their bytes. -/
theorem ints_flatMap (vs : List Int32) : ints (vs.flatMap intBytes) = vs := by
  induction vs with
  | nil => rfl
  | cons v vs ih =>
    have hlen : 4 ≤ (intBytes v ++ vs.flatMap intBytes).length := by
      rw [List.length_append, length_intBytes]
      omega
    have hv := intAt_append [] v (vs.flatMap intBytes)
    have hd : (intBytes v ++ vs.flatMap intBytes).drop 4 = vs.flatMap intBytes := by
      rw [← length_intBytes v, List.drop_left]
    rw [List.flatMap_cons, ints_long hlen, hd, ih]
    exact congrArg (· :: vs) hv

theorem ints_append {bs : List UInt8} (h : bs.length % 4 = 0) (cs : List UInt8) :
    ints (bs ++ cs) = ints bs ++ ints cs := by
  have hr : residue 4 bs = [] := by
    rw [residue, List.drop_eq_nil_iff]
    omega
  rw [ints, blocks_append (by omega), hr, List.nil_append, List.map_append]
  rfl

/-! ## The encoder -/

/-- `Math.abs`. -/
def mathAbs (a : Int32) : Int32 := if a < 0 then -a else a

/-- It is the absolute value of every int but the least. -/
theorem mathAbs_toInt (a : Int32) : (mathAbs a).toInt = a.toInt.natAbs ↔ a ≠ Int32.minValue := by
  have hlo := a.le_toInt
  have hhi := a.toInt_lt
  have hmin : a = Int32.minValue ↔ a.toInt = -0x80000000 := by
    rw [← Int32.toInt_inj]
    rfl
  rw [Ne, hmin, mathAbs]
  by_cases h : a < 0
  · have h0 : a.toInt < 0 := Int32.lt_iff_toInt_lt.mp h
    rw [if_pos h, Int32.toInt_neg, Int.bmod_def]
    split <;> omega
  · have h0 : ¬ a.toInt < 0 := fun hn => h (Int32.lt_iff_toInt_lt.mpr hn)
    rw [if_neg h]
    omega

namespace AbsIntegerEncoder

/-- At most `n` rounds of `encode`'s while loop. -/
def encodeLoop : Nat → Decode Int32 Unit
  | 0 => pure ()
  | n + 1 => do
    let readable ← readableBytes
    if 4 ≤ readable then
      let v ← readInt
      let value := mathAbs v
      add value
      encodeLoop n

/-- A round takes four bytes, so the readable bytes bound the rounds. -/
def encode : Decode Int32 Unit := do
  let readable ← readableBytes
  encodeLoop readable

theorem encodeLoop_ok : ∀ (n : Nat) (s : DecodeSt Int32), s.buf.readable.length ≤ n →
    ∃ b, encodeLoop n s = .ok () ⟨b, s.out ++ (ints s.buf.readable).map mathAbs⟩ := by
  intro n
  induction n with
  | zero =>
    intro s h
    have hs : ints s.buf.readable = [] := by rw [ints, blocks_short (by omega), List.map_nil]
    rw [hs, List.map_nil, List.append_nil]
    exact ⟨s.buf, rfl⟩
  | succ n ih =>
    intro s h
    rw [encodeLoop, bind_ok (readableBytes_ok s)]
    by_cases hs : s.buf.readable.length < 4
    · have hi : ints s.buf.readable = [] := by rw [ints, blocks_short hs, List.map_nil]
      rw [if_neg (by omega), hi, List.map_nil, List.append_nil]
      exact ⟨s.buf, rfl⟩
    · have hl : 4 ≤ s.buf.readable.length := by omega
      rw [if_pos hl, readInt, bind_ok (reading_ok hl), ints_long hl, List.map_cons]
      obtain ⟨b, hb⟩ := ih ⟨s.buf.skip 4, s.out ++ [mathAbs (intAt s.buf.readable 0)]⟩
        (by rw [ByteBuf.readable_skip, List.length_drop]; omega)
      simp only [ByteBuf.readable_skip, List.append_assoc, List.singleton_append] at hb
      exact ⟨b, hb⟩

/-- Encode adds the absolute value of every whole int of the buffer, in order. -/
theorem encode_ok (s : DecodeSt Int32) :
    ∃ b, encode s = .ok () ⟨b, s.out ++ (ints s.buf.readable).map mathAbs⟩ := by
  rw [encode, bind_ok (readableBytes_ok s)]
  exact encodeLoop_ok _ s (Nat.le_refl _)

/-- An EncoderException, around what encode threw or with a message of its own. -/
inductive EncoderException where
  | cause (e : Throwable)
  | message (text : String)

/-- `MessageToMessageEncoder.write`: what is written to the next handler. -/
def write (buf : ByteBuf) : Except EncoderException (List Int32) :=
  match encode ⟨buf, []⟩ with
  | .ok _ s =>
    if s.out.isEmpty then .error (.message "AbsIntegerEncoder must produce at least one message.") else .ok s.out
  | .error e _ => .error (.cause e)

/-- What is emitted for buffers written one after the other. -/
def emitted (bufs : List (List UInt8)) : List Int32 := bufs.flatMap fun bs => (write (.wrap bs)).toOption.getD []

theorem write_ok {bs : List UInt8} (h0 : 0 < bs.length) (h4 : bs.length % 4 = 0) :
    write (.wrap bs) = .ok ((ints bs).map mathAbs) := by
  obtain ⟨b, hb⟩ := encode_ok ⟨.wrap bs, []⟩
  have hne : (ints bs).map mathAbs ≠ [] := by
    rw [ints_long (by omega)]
    exact List.cons_ne_nil _ _
  rw [write, hb]
  simp only [ByteBuf.readable_wrap, List.nil_append, List.isEmpty_iff]
  rw [if_neg hne]

theorem emitted_ints {bufs : List (List UInt8)} (h : ∀ bs ∈ bufs, 0 < bs.length ∧ bs.length % 4 = 0) :
    emitted bufs = (ints bufs.flatten).map mathAbs := by
  induction bufs with
  | nil => rfl
  | cons bs bufs ih =>
    obtain ⟨h0, h4⟩ := h bs List.mem_cons_self
    have ih := ih fun cs hc => h cs (List.mem_cons_of_mem bs hc)
    unfold emitted at ih ⊢
    rw [List.flatMap_cons, ih, write_ok h0 h4, List.flatten_cons, ints_append h4, List.map_append]
    rfl

/-- One value is emitted for each int, in order, however they are grouped. -/
theorem emitted_eq {vs : List Int32} {bufs : List (List UInt8)} (hb : bufs.flatten = vs.flatMap intBytes)
    (h : ∀ bs ∈ bufs, 0 < bs.length ∧ bs.length % 4 = 0) : emitted bufs = vs.map mathAbs := by
  rw [emitted_ints h, hb, ints_flatMap]

/-- Every write succeeds, and what is emitted is the absolute value of each int, in order,
    none of them negative. -/
def Absolute (vs : List Int32) (bufs : List (List UInt8)) : Prop :=
  (∀ bs ∈ bufs, ∃ xs, write (.wrap bs) = .ok xs) ∧
    (emitted bufs).map Int32.toInt = vs.map (fun v => (v.toInt.natAbs : Int)) ∧ ∀ x ∈ emitted bufs, 0 ≤ x.toInt

/-- However ints are grouped into buffers of whole ints, their absolute values are emitted
    exactly when the least int is not among them. -/
theorem absolute_iff (vs : List Int32) (bufs : List (List UInt8)) (hb : bufs.flatten = vs.flatMap intBytes)
    (h : ∀ bs ∈ bufs, 0 < bs.length ∧ bs.length % 4 = 0) : Absolute vs bufs ↔ Int32.minValue ∉ vs := by
  have he := emitted_eq hb h
  have hall : (emitted bufs).map Int32.toInt = vs.map (fun v => (v.toInt.natAbs : Int)) ↔
      ∀ v ∈ vs, v ≠ Int32.minValue := by
    rw [he, List.map_map, List.map_inj_left]
    exact forall₂_congr fun v _ => mathAbs_toInt v
  constructor
  · rintro ⟨-, habs, -⟩ hm
    exact hall.mp habs _ hm rfl
  · intro hm
    have hall := hall.mpr fun v hv hvm => hm (hvm ▸ hv)
    refine ⟨fun bs hbs => ⟨_, write_ok (h bs hbs).1 (h bs hbs).2⟩, hall, ?_⟩
    intro x hx
    have hx : x.toInt ∈ vs.map (fun v => (v.toInt.natAbs : Int)) := hall ▸ List.mem_map_of_mem hx
    obtain ⟨v, -, hv⟩ := List.mem_map.mp hx
    omega

/-- The repository's test: 0 to -9 in one buffer. -/
theorem absolute_test :
    let vs := (List.range 10).map fun i => -Int32.ofNat i
    Absolute vs [vs.flatMap intBytes] ↔ Int32.minValue ∉ vs :=
  absolute_iff _ [((List.range 10).map fun i => -Int32.ofNat i).flatMap intBytes] (List.append_nil _) (by decide)

/-- The least int comes out as it went in. -/
theorem not_absolute_minValue :
    emitted [intBytes Int32.minValue] = [Int32.minValue] ∧
      ¬ Absolute [Int32.minValue] [intBytes Int32.minValue] := by
  have he : emitted [intBytes Int32.minValue] = [Int32.minValue] := by decide
  refine ⟨he, ?_⟩
  rintro ⟨-, -, h⟩
  rw [he] at h
  exact absurd (h _ (List.mem_singleton_self _)) (by decide)

end AbsIntegerEncoder

end NettyStudy.Junit
