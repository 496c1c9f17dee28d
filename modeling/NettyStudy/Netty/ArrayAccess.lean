/-
  NettyStudy.Netty.ArrayAccess — code over arrays, with an account of the indices it
  uses. A method runs over its receiver, may throw, and leaves its accesses behind: the
  length of the array and the index. An access outside its array throws and is in the
  account all the same.

  `Runs m s x s'`: from the receiver `s`, whatever was accessed before, `m` returns `x`
  and leaves the receiver as `s'`, and every index it uses is inside its array.

  Proved:
  - `Runs.bind`: runs compose, and so do their accounts.
  - `runs_loads` / `runs_arraycopy`: a part that an array has is read, or copied into
    another that has the room for it.
-/

import NettyStudy.Netty.ByteBuf

namespace NettyStudy.Netty

structure Access where
  length : Nat
  index : Nat
  deriving DecidableEq

def Access.Inside (a : Access) : Prop := a.index < a.length

structure Accessed (σ : Type) where
  receiver : σ
  accesses : List Access

abbrev Accessing (σ α : Type) := EStateM Throwable (Accessed σ) α

variable {σ α β : Type}

/-- `this`. -/
def receiver : Accessing σ σ := fun s => .ok s.receiver s

def access (array : List α) (index : Nat) : Accessing σ Unit := fun s =>
  .ok () { s with accesses := s.accesses ++ [⟨array.length, index⟩] }

/-- `array[index]`. -/
def load (array : List α) (index : Nat) : Accessing σ α := do
  access array index
  match array[index]? with
  | some x => pure x
  | none => throw .indexOutOfBounds

/-- `array[index] = x`. -/
def store (array : List α) (index : Nat) (x : α) : Accessing σ (List α) := do
  access array index
  if index < array.length then pure (array.set index x) else throw .indexOutOfBounds

/-- The elements from an offset on, as many as asked for. -/
def loads (array : List α) : Nat → Nat → Accessing σ (List α)
  | _, 0 => pure []
  | offset, length + 1 => do
    let x ← load array offset
    let xs ← loads array (offset + 1) length
    pure (x :: xs)

def copyLoop (src : List α) : Nat → List α → Nat → Nat → Accessing σ (List α)
  | _, dst, _, 0 => pure dst
  | srcPos, dst, dstPos, length + 1 => do
    let x ← load src srcPos
    let dst ← store dst dstPos x
    copyLoop src (srcPos + 1) dst (dstPos + 1) length

/-- `System.arraycopy(src, srcPos, dst, dstPos, length)` between two arrays, and what
    `dst` is after it. -/
def arraycopy (src : List α) (srcPos : Nat) (dst : List α) (dstPos length : Nat) : Accessing σ (List α) :=
  if src.length < srcPos + length ∨ dst.length < dstPos + length then throw .indexOutOfBounds
  else copyLoop src srcPos dst dstPos length

def Runs (m : Accessing σ α) (s : σ) (x : α) (s' : σ) : Prop :=
  ∀ before, ∃ made, m ⟨s, before⟩ = .ok x ⟨s', before ++ made⟩ ∧ ∀ a ∈ made, a.Inside

/-! ## How runs compose -/

variable {s s1 s2 : σ}

theorem runs_pure (x : α) : Runs (pure x) s x s := by
  intro before
  refine ⟨[], ?_, fun a ha => by cases ha⟩
  rw [List.append_nil]
  rfl

theorem Runs.bind {m : Accessing σ α} {f : α → Accessing σ β} {x : α} {y : β} (hm : Runs m s x s1)
    (hf : Runs (f x) s1 y s2) : Runs (m >>= f) s y s2 := by
  intro before
  obtain ⟨made, hx, hin⟩ := hm before
  obtain ⟨made', hy, hin'⟩ := hf (before ++ made)
  refine ⟨made ++ made', ?_, ?_⟩
  · show EStateM.bind m f ⟨s, before⟩ = _
    rw [EStateM.bind, hx, ← List.append_assoc]
    exact hy
  · intro a ha
    rcases List.mem_append.mp ha with ha | ha
    · exact hin a ha
    · exact hin' a ha

/-- A run has one outcome. -/
theorem Runs.unique {m : Accessing σ α} {x y : α} (hx : Runs m s x s1) (hy : Runs m s y s2) : x = y ∧ s1 = s2 := by
  obtain ⟨made, hx, -⟩ := hx []
  obtain ⟨made', hy, -⟩ := hy []
  rw [hx] at hy
  injection hy with hxy hs
  injection hs with hs
  exact ⟨hxy, hs⟩

theorem runs_receiver : Runs receiver s s s := by
  intro before
  refine ⟨[], ?_, fun a ha => by cases ha⟩
  rw [List.append_nil]
  rfl

theorem runs_access {array : List α} {index : Nat} (h : index < array.length) : Runs (access array index) s () s := by
  intro before
  refine ⟨[⟨array.length, index⟩], rfl, ?_⟩
  intro a ha
  rw [List.mem_singleton.mp ha]
  exact h

/-! ## Reading and copying -/

theorem runs_load {array : List α} {index : Nat} (h : index < array.length) :
    Runs (load array index) s array[index] s := by
  refine (runs_access h).bind ?_
  rw [List.getElem?_eq_getElem h]
  exact runs_pure _

theorem runs_store {array : List α} {index : Nat} (h : index < array.length) (x : α) :
    Runs (store array index x) s (array.set index x) s := by
  refine (runs_access h).bind ?_
  rw [if_pos h]
  exact runs_pure _

/-- A part that the array has is read. -/
theorem runs_loads (array : List α) (length : Nat) : ∀ offset, offset + length ≤ array.length →
    Runs (loads array offset length) s ((array.drop offset).take length) s := by
  induction length with
  | zero => intro offset _; exact runs_pure _
  | succ length ih =>
    intro offset h
    have ho : offset < array.length := by omega
    rw [List.drop_eq_getElem_cons ho, List.take_succ_cons]
    exact (runs_load ho).bind ((ih (offset + 1) (by omega)).bind (runs_pure _))

/-- One element copied, then the others behind it. -/
theorem copied_cons {src dst : List α} {srcPos dstPos length : Nat} (hs : srcPos < src.length)
    (hd : dstPos < dst.length) :
    (dst.set dstPos src[srcPos]).take (dstPos + 1) ++ (src.drop (srcPos + 1)).take length ++
        (dst.set dstPos src[srcPos]).drop (dstPos + 1 + length) =
      dst.take dstPos ++ (src.drop srcPos).take (length + 1) ++ dst.drop (dstPos + (length + 1)) := by
  have hlen : dstPos < (dst.set dstPos src[srcPos]).length := by rw [List.length_set]; exact hd
  rw [List.take_succ_eq_append_getElem hlen, List.getElem_set_self, List.take_set_of_le (Nat.le_refl _),
    List.drop_set_of_lt (by omega), List.drop_eq_getElem_cons hs, List.take_succ_cons, List.append_assoc _ [_],
    List.singleton_append, Nat.add_right_comm, Nat.add_assoc]

/-- The part of `dst` that is copied to is what was there in `src`; the rest stays. -/
theorem runs_copyLoop (src : List α) (length : Nat) : ∀ (srcPos : Nat) (dst : List α) (dstPos : Nat),
    srcPos + length ≤ src.length → dstPos + length ≤ dst.length →
    Runs (copyLoop src srcPos dst dstPos length) s
      (dst.take dstPos ++ (src.drop srcPos).take length ++ dst.drop (dstPos + length)) s := by
  induction length with
  | zero =>
    intro srcPos dst dstPos _ _
    rw [List.take_zero, List.append_nil, Nat.add_zero, List.take_append_drop]
    exact runs_pure dst
  | succ length ih =>
    intro srcPos dst dstPos hs hd
    have hs1 : srcPos < src.length := by omega
    have hd1 : dstPos < dst.length := by omega
    rw [← copied_cons hs1 hd1]
    refine (runs_load hs1).bind ((runs_store hd1 _).bind ?_)
    exact ih (srcPos + 1) _ (dstPos + 1) (by omega) (by rw [List.length_set]; omega)

/-- An array is filled with a part of another. -/
theorem runs_arraycopy {src dst : List α} {srcPos : Nat} (h : srcPos + dst.length ≤ src.length) :
    Runs (arraycopy src srcPos dst 0 dst.length) s ((src.drop srcPos).take dst.length) s := by
  rw [arraycopy, if_neg (by omega)]
  have hrun := runs_copyLoop (s := s) src dst.length srcPos dst 0 h (by omega)
  rw [List.take_zero, List.nil_append, Nat.zero_add, List.drop_length, List.append_nil] at hrun
  exact hrun

end NettyStudy.Netty
