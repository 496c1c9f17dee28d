/-
  NettyStudy.Netty.ByteBuf — a ByteBuf as a decoder sees it: the bytes written so far
  and a reader index among them. Reads are destructive, check what is readable first,
  and throw without moving the reader index.

  A decode method runs in `Decode`: it reads its input buffer, adds to its output list
  and may throw; a throw keeps both as they stood. A byte is kept as its bit pattern
  (`UInt8`), an int is an `Int32`.

  Proved: `intAt_append` and `bytes_of_intAt`, an int and its four big-endian bytes
  determine each other; `intAt_neg`, an int read is negative when its first byte is
  from 0x80 on.
-/

import Mathlib.Data.List.GetD

namespace NettyStudy.Netty

/-- The exceptions thrown by the modelled code, with the data it gives them. -/
inductive Throwable where
  | indexOutOfBounds
  | negativeArraySize
  | nullPointer
  | classCast
  | illegalArgument (message : String)
  | illegalState (message : String)
  | runtime (message : String)
  | corruptedFrame (message : String)
  | tooLongFrame
  /-- `DecoderException` around what a decode method threw. -/
  | decoder (cause : Throwable)
  /-- `DecoderException`: a decode call produced a message and read nothing. -/
  | didNotRead
  deriving DecidableEq, Repr

/-! ## Java ints -/

def intOf (b0 b1 b2 b3 : UInt8) : Int32 :=
  Int32.ofNat (((b0.toNat * 256 + b1.toNat) * 256 + b2.toNat) * 256 + b3.toNat)

/-- The four bytes of an int, the most significant first. -/
def intBytes (v : Int32) : List UInt8 :=
  let n := v.toUInt32.toNat
  [UInt8.ofNat (n / 0x1000000), UInt8.ofNat (n / 0x10000), UInt8.ofNat (n / 0x100), UInt8.ofNat n]

/-- The int whose four bytes start at index `i`. -/
def intAt (bs : List UInt8) (i : Nat) : Int32 :=
  intOf (bs.getD i 0) (bs.getD (i + 1) 0) (bs.getD (i + 2) 0) (bs.getD (i + 3) 0)

@[simp] theorem length_intBytes (v : Int32) : (intBytes v).length = 4 := rfl

theorem toNat_div (n k : Nat) : (UInt8.ofNat (n / k)).toNat = n / k % 256 := UInt8.toNat_ofNat'

theorem toUInt32_ofNat {n : Nat} (h : n < 0x100000000) : (Int32.ofNat n).toUInt32.toNat = n := by
  show (BitVec.ofNat 32 n).toNat = n
  rw [BitVec.toNat_ofNat]
  exact Nat.mod_eq_of_lt h

theorem ofNat_toUInt32 (v : Int32) : Int32.ofNat v.toUInt32.toNat = v := by
  apply Int32.toBitVec.inj
  show BitVec.ofNat 32 v.toBitVec.toNat = v.toBitVec
  exact BitVec.ofNat_toNat 32 v.toBitVec |>.trans (BitVec.setWidth_eq _)

theorem intOf_intBytes (v : Int32) :
    ∃ b0 b1 b2 b3, intBytes v = [b0, b1, b2, b3] ∧ intOf b0 b1 b2 b3 = v := by
  refine ⟨_, _, _, _, rfl, ?_⟩
  have hlt : v.toUInt32.toNat < 0x100000000 := v.toUInt32.toNat_lt
  have h0 := toNat_div v.toUInt32.toNat 1
  rw [Nat.div_one] at h0
  have hsum : ((v.toUInt32.toNat / 0x1000000 % 256 * 256 + v.toUInt32.toNat / 0x10000 % 256) * 256 +
      v.toUInt32.toNat / 0x100 % 256) * 256 + v.toUInt32.toNat % 256 = v.toUInt32.toNat := by omega
  rw [intOf, toNat_div, toNat_div, toNat_div, h0, hsum, ofNat_toUInt32]

theorem intBytes_intOf (b0 b1 b2 b3 : UInt8) : intBytes (intOf b0 b1 b2 b3) = [b0, b1, b2, b3] := by
  have h0 := b0.toNat_lt
  have h1 := b1.toNat_lt
  have h2 := b2.toNat_lt
  have h3 := b3.toNat_lt
  unfold intBytes intOf
  rw [toUInt32_ofNat (by omega)]
  simp only [List.cons.injEq, and_true]
  refine ⟨?_, ?_, ?_, ?_⟩ <;> (rw [← UInt8.toNat_inj, UInt8.toNat_ofNat']; omega)

theorem getD_drop (bs : List UInt8) (k i : Nat) : (bs.drop k).getD i 0 = bs.getD (k + i) 0 := by
  simp [List.getD_eq_getElem?_getD, List.getElem?_drop]

theorem intAt_drop (bs : List UInt8) (k i : Nat) : intAt (bs.drop k) i = intAt bs (k + i) := by
  simp only [intAt, getD_drop, Nat.add_assoc]

/-- An int is read back from its bytes wherever they stand. -/
theorem intAt_append (u : List UInt8) (v : Int32) (w : List UInt8) : intAt (u ++ intBytes v ++ w) u.length = v := by
  obtain ⟨b0, b1, b2, b3, hb, hv⟩ := intOf_intBytes v
  have := intAt_drop (u ++ (intBytes v ++ w)) u.length 0
  rw [List.drop_left, hb, Nat.add_zero, ← hb, ← List.append_assoc] at this
  rw [← this, hb]
  exact hv

/-- Four bytes are the bytes of the int read from them. -/
theorem bytes_of_intAt {bs : List UInt8} {i : Nat} (h : i + 4 ≤ bs.length) :
    (bs.drop i).take 4 = intBytes (intAt bs i) := by
  have hl : (bs.drop i).length = bs.length - i := List.length_drop
  have ha := intAt_drop bs i 0
  rw [Nat.add_zero] at ha
  rw [← ha]
  rcases hd : bs.drop i with _ | ⟨b0, _ | ⟨b1, _ | ⟨b2, _ | ⟨b3, r⟩⟩⟩⟩
  all_goals first
    | (rw [hd] at hl; simp only [List.length_cons, List.length_nil] at hl; omega)
    | exact (intBytes_intOf b0 b1 b2 b3).symm

theorem intAt_neg {bs : List UInt8} {i : Nat} (h : 0x80 ≤ (bs.getD i 0).toNat) : (intAt bs i).toInt < 0 := by
  have h0 := (bs.getD i 0).toNat_lt
  have h1 := (bs.getD (i + 1) 0).toNat_lt
  have h2 := (bs.getD (i + 2) 0).toNat_lt
  have h3 := (bs.getD (i + 3) 0).toNat_lt
  unfold intAt intOf
  rw [Int32.toInt_ofNat', Int.bmod_def]
  simp only [Int32.size]
  split <;> omega

/-! ## The buffer -/

/-- The bytes up to the writer index, and the reader index. -/
structure ByteBuf where
  bytes : List UInt8
  readerIndex : Nat
  le_writer : readerIndex ≤ bytes.length

namespace ByteBuf

def wrap (bytes : List UInt8) : ByteBuf := ⟨bytes, 0, Nat.zero_le _⟩

/-- The bytes from the reader index to the writer index. -/
def readable (b : ByteBuf) : List UInt8 := b.bytes.drop b.readerIndex

/-- The reader index moved over `n` readable bytes. -/
def skip (b : ByteBuf) (n : Nat) : ByteBuf :=
  ⟨b.bytes, min (b.readerIndex + n) b.bytes.length, Nat.min_le_right _ _⟩

def writeBytes (b : ByteBuf) (src : List UInt8) : ByteBuf :=
  ⟨b.bytes ++ src, b.readerIndex, by rw [List.length_append]; have := b.le_writer; omega⟩

/-- `clear()`: both indices to 0. -/
def clear (_ : ByteBuf) : ByteBuf := wrap []

@[simp] theorem readable_wrap (bytes : List UInt8) : (wrap bytes).readable = bytes := rfl

@[simp] theorem readable_clear (b : ByteBuf) : b.clear.readable = [] := rfl

@[simp] theorem readable_skip (b : ByteBuf) (n : Nat) : (b.skip n).readable = b.readable.drop n := by
  have := b.le_writer
  simp only [readable, skip, List.drop_drop]
  by_cases h : b.readerIndex + n ≤ b.bytes.length
  · rw [Nat.min_eq_left h]
  · rw [Nat.min_eq_right (by omega), List.drop_length, List.drop_eq_nil_of_le (by omega)]

@[simp] theorem readable_writeBytes (b : ByteBuf) (src : List UInt8) :
    (b.writeBytes src).readable = b.readable ++ src :=
  List.drop_append_of_le_length b.le_writer

@[simp] theorem skip_zero (b : ByteBuf) : b.skip 0 = b := by
  have := b.le_writer
  simp only [skip, Nat.add_zero, Nat.min_eq_left this]

@[simp] theorem skip_skip (b : ByteBuf) (m n : Nat) : (b.skip m).skip n = b.skip (m + n) := by
  simp only [skip, mk.injEq, true_and]; omega

end ByteBuf

/-! ## Decode methods -/

/-- A decode call's input buffer and output list. -/
structure DecodeSt (α : Type) where
  buf : ByteBuf
  out : List α

/-- A decode method: it may throw, and a throw leaves buffer and output as they stood. -/
abbrev Decode (α β : Type) := EStateM Throwable (DecodeSt α) β

variable {α β γ : Type}

/-- The state a call ends in, thrown or not. -/
def finalSt : EStateM.Result Throwable (DecodeSt α) β → DecodeSt α
  | .ok _ s => s
  | .error _ s => s

/-- `if (p) throw e;` -/
def throwIf (p : Prop) [Decidable p] (e : Throwable) : Decode α Unit := fun s => if p then .error e s else .ok () s

def readableBytes : Decode α Nat := fun s => .ok s.buf.readable.length s

/-- The shared shape of the reads: check that `n` bytes are readable, move over them. -/
def reading (n : Nat) (f : List UInt8 → β) : Decode α β := fun s =>
  if n ≤ s.buf.readable.length then .ok (f s.buf.readable) { s with buf := s.buf.skip n }
  else .error .indexOutOfBounds s

def readByte : Decode α UInt8 := reading 1 (·.getD 0 0)

def readInt : Decode α Int32 := reading 4 (intAt · 0)

def readBytes (n : Nat) : Decode α (List UInt8) := reading n (·.take n)

/-- `new byte[length]`, as the number of bytes it holds. -/
def newByteArray (length : Int32) : Decode α Nat := fun s =>
  if length.toInt < 0 then .error .negativeArraySize s else .ok length.toInt.toNat s

def clearInput : Decode α Unit := fun s => .ok () { s with buf := s.buf.clear }

/-- `out.add(x)`. -/
def add (x : α) : Decode α Unit := fun s => .ok () { s with out := s.out ++ [x] }

theorem bind_ok {x : Decode α β} {f : β → Decode α γ} {s s' : DecodeSt α} {a : β} (h : x s = .ok a s') :
    (x >>= f) s = f a s' := by
  show EStateM.bind x f s = _
  rw [EStateM.bind, h]

theorem bind_error {x : Decode α β} {f : β → Decode α γ} {s s' : DecodeSt α} {e : Throwable}
    (h : x s = .error e s') : (x >>= f) s = .error e s' := by
  show EStateM.bind x f s = _
  rw [EStateM.bind, h]

theorem throwIf_pos {p : Prop} [Decidable p] {e : Throwable} {s : DecodeSt α} (h : p) : throwIf p e s = .error e s :=
  if_pos h

theorem throwIf_neg {p : Prop} [Decidable p] {e : Throwable} {s : DecodeSt α} (h : ¬ p) : throwIf p e s = .ok () s :=
  if_neg h

theorem readableBytes_ok (s : DecodeSt α) : readableBytes s = .ok s.buf.readable.length s := rfl

theorem reading_ok {n : Nat} {f : List UInt8 → β} {s : DecodeSt α} (h : n ≤ s.buf.readable.length) :
    reading n f s = .ok (f s.buf.readable) { s with buf := s.buf.skip n } := if_pos h

theorem reading_error {n : Nat} {f : List UInt8 → β} {s : DecodeSt α} (h : s.buf.readable.length < n) :
    reading n f s = .error .indexOutOfBounds s := if_neg (Nat.not_le.mpr h)

theorem newByteArray_ok {length : Int32} {s : DecodeSt α} (h : 0 ≤ length.toInt) :
    newByteArray length s = .ok length.toInt.toNat s := if_neg (Int.not_lt.mpr h)

theorem newByteArray_error {length : Int32} {s : DecodeSt α} (h : length.toInt < 0) :
    newByteArray length s = .error .negativeArraySize s := if_pos h

end NettyStudy.Netty
