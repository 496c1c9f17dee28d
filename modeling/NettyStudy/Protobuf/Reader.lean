/-
  NettyStudy.Protobuf.Reader — readers of a byte array, and base-128 varints. A reader
  takes bytes from the front and may throw; it sees the end of the array.

  `Yields r bs x`: `r` reads exactly `bs`, as `x`, whatever follows. A `Local` reader
  depends on nothing but the bytes it takes.

  A varint is its number's groups of seven bits, the lowest first, every byte but the last
  with its high bit set; one of more than ten bytes is malformed.

  Proved:
  - `Yields.bind` / `Local.bind`: readers one after the other.
  - `yields_varint`: a 64-bit number is read back from its varint.
  - `length_varint`: how many bytes that is.
  - `length_readVarint`: a number's varint has no more bytes than it, or a greater one, was
    read from.
-/

import Mathlib.Algebra.Ring.Nat
import NettyStudy.Netty.ByteBuf

namespace NettyStudy.Protobuf

inductive InvalidProtocolBufferException where
  | truncatedMessage
  | negativeSize
  | malformedVarint
  | invalidTag
  | invalidEndTag
  | invalidWireType
  | recursionLimitExceeded
  | invalidUtf8
  deriving DecidableEq, Repr

abbrev Reader (α : Type) := StateT (List UInt8) (Except InvalidProtocolBufferException) α

variable {α β : Type}

def Yields (r : Reader α) (bs : List UInt8) (x : α) : Prop := ∀ rest, r (bs ++ rest) = .ok (x, rest)

def Local (r : Reader α) : Prop :=
  ∀ bs x rest, r bs = .ok (x, rest) → ∃ used, bs = used ++ rest ∧ Yields r used x

def fail (e : InvalidProtocolBufferException) : Reader α := fun _ => .error e

def readRawByte : Reader UInt8
  | [] => .error .truncatedMessage
  | b :: rest => .ok (b, rest)

/-- The next `n` bytes, all of which there must be. -/
def readRawBytes (n : Nat) : Reader (List UInt8) := fun bs =>
  if n ≤ bs.length then .ok (bs.take n, bs.drop n) else .error .truncatedMessage

/-! ## Readers one after the other -/

theorem bind_eq (r : Reader α) (f : α → Reader β) (bs : List UInt8) :
    (r >>= f) bs = match r bs with | .ok (x, rest) => f x rest | .error e => .error e := by
  show (r bs >>= fun p => f p.1 p.2) = _
  cases r bs with
  | ok p => rfl
  | error e => rfl

theorem of_bind_ok {r : Reader α} {f : α → Reader β} {bs rest : List UInt8} {y : β}
    (h : (r >>= f) bs = .ok (y, rest)) : ∃ x mid, r bs = .ok (x, mid) ∧ f x mid = .ok (y, rest) := by
  rw [bind_eq] at h
  split at h
  · rename_i x mid hx
    exact ⟨x, mid, hx, h⟩
  · cases h

theorem yields_pure (x : α) : Yields (pure x) [] x := fun _ => rfl

theorem Yields.bind {r : Reader α} {f : α → Reader β} {as bs : List UInt8} {x : α} {y : β} (hr : Yields r as x)
    (hf : Yields (f x) bs y) : Yields (r >>= f) (as ++ bs) y := by
  intro rest
  rw [bind_eq, List.append_assoc, hr]
  exact hf rest

/-- The last of two readers takes nothing more. -/
theorem Yields.bind_nil {r : Reader α} {f : α → Reader β} {as : List UInt8} {x : α} {y : β} (hr : Yields r as x)
    (hf : Yields (f x) [] y) : Yields (r >>= f) as y := by
  have h := hr.bind hf
  rw [List.append_nil] at h
  exact h

theorem local_pure (x : α) : Local (pure x : Reader α) := by
  intro bs y rest h
  cases h
  exact ⟨[], rfl, yields_pure x⟩

theorem local_fail (e : InvalidProtocolBufferException) : Local (fail e : Reader α) := by
  intro bs x rest h
  cases h

theorem Local.bind {r : Reader α} {f : α → Reader β} (hr : Local r) (hf : ∀ x, Local (f x)) : Local (r >>= f) := by
  intro bs y rest h
  obtain ⟨x, mid, hx, hy⟩ := of_bind_ok h
  obtain ⟨used, rfl, hu⟩ := hr _ _ _ hx
  obtain ⟨used', rfl, hu'⟩ := hf x _ _ _ hy
  exact ⟨used ++ used', (List.append_assoc _ _ _).symm, hu.bind hu'⟩

/-- Neither of two readers, whichever it is, looks further. -/
theorem local_ite {p : Prop} [Decidable p] {r s : Reader α} (hr : Local r) (hs : Local s) :
    Local (if p then r else s) := by
  split
  · exact hr
  · exact hs

theorem yields_rawByte (b : UInt8) : Yields readRawByte [b] b := fun _ => rfl

theorem local_rawByte : Local readRawByte := by
  intro bs x rest h
  cases bs with
  | nil => cases h
  | cons b bs =>
    cases h
    exact ⟨[x], rfl, yields_rawByte x⟩

theorem yields_rawBytes (bs : List UInt8) : Yields (readRawBytes bs.length) bs bs := by
  intro rest
  rw [readRawBytes, if_pos (by rw [List.length_append]; omega), List.take_left, List.drop_left]

theorem local_rawBytes (n : Nat) : Local (readRawBytes n) := by
  intro bs x rest h
  unfold readRawBytes at h
  split at h
  · rename_i hn
    cases h
    have hy := yields_rawBytes (bs.take n)
    rw [List.length_take_of_le hn] at hy
    exact ⟨bs.take n, (List.take_append_drop n bs).symm, hy⟩
  · cases h

/-! ## Varints -/

def writeVarintN : Nat → Nat → List UInt8
  | 0, _ => []
  | k + 1, n => if n < 0x80 then [UInt8.ofNat n] else UInt8.ofNat (n % 0x80 + 0x80) :: writeVarintN k (n / 0x80)

/-- The varint of a 64-bit number. -/
def writeVarint (n : Nat) : List UInt8 := writeVarintN 10 n

def readVarintN : Nat → Reader Nat
  | 0 => fail .malformedVarint
  | k + 1 => do
    let b ← readRawByte
    if b.toNat < 0x80 then pure b.toNat
    else do
      let m ← readVarintN k
      pure (b.toNat - 0x80 + 0x80 * m)

/-- The number of the next varint, with the bits its bytes hold. -/
def readVarint : Reader Nat := readVarintN 10

theorem local_varintN : ∀ k, Local (readVarintN k) := by
  intro k
  induction k with
  | zero => exact local_fail _
  | succ k ih =>
    refine local_rawByte.bind fun b => local_ite (local_pure _) ?_
    exact ih.bind fun m => local_pure _

theorem local_varint : Local readVarint := local_varintN 10

/-- The byte without its high bit is the last. -/
theorem yields_last (k : Nat) {b : UInt8} (hb : b.toNat < 0x80) : Yields (readVarintN (k + 1)) [b] b.toNat := by
  refine (yields_rawByte b).bind ?_
  rw [if_pos hb]
  exact yields_pure _

theorem yields_more {k : Nat} {b : UInt8} (hb : 0x80 ≤ b.toNat) {bs : List UInt8} {m : Nat}
    (h : Yields (readVarintN k) bs m) : Yields (readVarintN (k + 1)) (b :: bs) (b.toNat - 0x80 + 0x80 * m) := by
  refine (yields_rawByte b).bind ?_
  rw [if_neg (by omega)]
  exact h.bind_nil (yields_pure _)

theorem yields_varintN : ∀ (k n : Nat), n < 0x80 ^ (k + 1) →
    Yields (readVarintN (k + 1)) (writeVarintN (k + 1) n) n := by
  intro k
  induction k with
  | zero =>
    intro n hn
    have hn : n < 0x80 := by simpa using hn
    have hb : (UInt8.ofNat n).toNat = n := by rw [UInt8.toNat_ofNat']; omega
    have hy := yields_last 0 (b := UInt8.ofNat n) (by omega)
    rw [writeVarintN, if_pos hn]
    rw [hb] at hy
    exact hy
  | succ k ih =>
    intro n hn
    rw [writeVarintN]
    split
    · rename_i hs
      have hb : (UInt8.ofNat n).toNat = n := by rw [UInt8.toNat_ofNat']; omega
      have hy := yields_last (k + 1) (b := UInt8.ofNat n) (by omega)
      rw [hb] at hy
      exact hy
    · rename_i hs
      have hb : (UInt8.ofNat (n % 0x80 + 0x80)).toNat = n % 0x80 + 0x80 := by rw [UInt8.toNat_ofNat']; omega
      have hd : n / 0x80 < 0x80 ^ (k + 1) := by
        rw [Nat.pow_succ] at hn
        exact Nat.div_lt_of_lt_mul (by rw [Nat.mul_comm]; exact hn)
      have hy := yields_more (b := UInt8.ofNat (n % 0x80 + 0x80)) (by omega) (ih (n / 0x80) hd)
      rw [hb, show n % 0x80 + 0x80 - 0x80 + 0x80 * (n / 0x80) = n by omega] at hy
      exact hy

theorem yields_varint {n : Nat} (h : n < 0x10000000000000000) : Yields readVarint (writeVarint n) n :=
  yields_varintN 9 n (Nat.lt_of_lt_of_le h (by decide))

/-! ## The length of a varint -/

theorem length_small (k : Nat) {n : Nat} (h : n < 0x80) : (writeVarintN (k + 1) n).length = 1 := by
  rw [writeVarintN, if_pos h]
  rfl

theorem length_varint_one {n : Nat} (h : n < 0x80) : (writeVarint n).length = 1 := length_small 9 h

/-- One byte for each group of seven bits. -/
theorem length_varintN : ∀ (k j n : Nat), 0x80 ^ k ≤ n → n < 0x80 ^ (k + 1) → k < j →
    (writeVarintN j n).length = k + 1 := by
  intro k
  induction k with
  | zero =>
    intro j n _ hn hj
    obtain ⟨i, rfl⟩ : ∃ i, j = i + 1 := ⟨j - 1, by omega⟩
    exact length_small i (by simpa using hn)
  | succ k ih =>
    intro j n hle hlt hj
    obtain ⟨i, rfl⟩ : ∃ i, j = i + 1 := ⟨j - 1, by omega⟩
    have hbig : ¬ n < 0x80 := by
      have := Nat.pow_le_pow_right (n := 0x80) (by decide) (Nat.le_add_left 1 k)
      omega
    rw [Nat.pow_succ] at hle hlt
    rw [writeVarintN, if_neg hbig, List.length_cons, ih i (n / 0x80) ?_ ?_ (by omega)]
    · exact (Nat.le_div_iff_mul_le (by decide)).mpr hle
    · exact Nat.div_lt_of_lt_mul (by rw [Nat.mul_comm]; exact hlt)

theorem length_varintN_le : ∀ k n, (writeVarintN k n).length ≤ k := by
  intro k
  induction k with
  | zero => exact fun n => Nat.le_refl 0
  | succ k ih =>
    intro n
    rw [writeVarintN]
    split
    · exact Nat.succ_le_succ (Nat.zero_le k)
    · exact Nat.succ_le_succ (ih _)

def computeUInt32SizeNoTag (n : Nat) : Nat :=
  if n < 0x80 then 1 else if n < 0x4000 then 2 else if n < 0x200000 then 3 else if n < 0x10000000 then 4 else 5

theorem length_varint {n : Nat} (h : n < 0x100000000) : (writeVarint n).length = computeUInt32SizeNoTag n := by
  unfold computeUInt32SizeNoTag writeVarint
  split
  · rename_i h1; exact length_small 9 h1
  split
  · exact length_varintN 1 10 n (by omega) (by omega) (by omega)
  split
  · exact length_varintN 2 10 n (by omega) (by omega) (by omega)
  split
  · exact length_varintN 3 10 n (by omega) (by omega) (by omega)
  · exact length_varintN 4 10 n (by omega) (by omega) (by omega)

/-! ### Varints longer than need be -/

theorem length_varintN_of_lt : ∀ (k j n : Nat), n < 0x80 ^ (k + 1) → (writeVarintN j n).length ≤ k + 1 := by
  intro k
  induction k with
  | zero =>
    intro j n hn
    cases j with
    | zero => exact Nat.zero_le _
    | succ j => exact Nat.le_of_eq (length_small j (by simpa using hn))
  | succ k ih =>
    intro j n hn
    cases j with
    | zero => exact Nat.zero_le _
    | succ j =>
      rw [writeVarintN]
      split
      · exact Nat.succ_le_succ (Nat.zero_le _)
      · rw [Nat.pow_succ] at hn
        exact Nat.succ_le_succ (ih j (n / 0x80) (Nat.div_lt_of_lt_mul (by rw [Nat.mul_comm]; exact hn)))

/-- Each byte that is read holds seven bits. -/
theorem of_readVarintN : ∀ {k : Nat} {bs rest : List UInt8} {n : Nat}, readVarintN k bs = .ok (n, rest) →
    ∃ j, bs.length = j + 1 + rest.length ∧ n < 0x80 ^ (j + 1) := by
  intro k
  induction k with
  | zero => intro bs rest n h; cases h
  | succ k ih =>
    intro bs rest n h
    obtain ⟨b, mid, hb, hrest⟩ := of_bind_ok h
    have hused : bs.length = 1 + mid.length := by
      cases bs with
      | nil => cases hb
      | cons c cs =>
        cases hb
        rw [List.length_cons, Nat.add_comm]
    split at hrest
    · rename_i hlast
      cases hrest
      exact ⟨0, hused, by simpa using hlast⟩
    · rename_i hmore
      obtain ⟨m, mid', hm, hrest⟩ := of_bind_ok hrest
      cases hrest
      obtain ⟨j, hj, hlt⟩ := ih hm
      refine ⟨j + 1, by omega, ?_⟩
      have hb := b.toNat_lt
      rw [Nat.pow_succ]
      omega

/-- What is written is no longer than what was read. -/
theorem length_readVarint {bs rest : List UInt8} {n m : Nat} (h : readVarint bs = .ok (n, rest)) (hm : m ≤ n) :
    (writeVarint m).length + rest.length ≤ bs.length := by
  obtain ⟨j, hj, hn⟩ := of_readVarintN h
  have := length_varintN_of_lt j 10 m (Nat.lt_of_le_of_lt hm hn)
  rw [writeVarint]
  omega

end NettyStudy.Protobuf
