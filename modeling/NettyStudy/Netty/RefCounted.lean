/-
  NettyStudy.Netty.RefCounted — reference-counted buffers, and the outbound buffers of
  channels, which hold some of their references. An allocation has one reference; to
  retain, release or read a buffer that has none is an IllegalReferenceCountException.

  A write hands a reference to the channel's outbound buffer; a channel that is not open has
  none, and there the write fails and releases what it was handed at once. A flush leaves what
  is queued to the socket, which takes it then or later, as much at a time as it can; what it
  has taken, and what is still queued when its channel closes, is released.

  `Does m held post`: where code has the references `held` in its hands, and the outbound
  buffers have theirs, `m` throws no IllegalReferenceCountException and leaves the code with
  those of `post`. `Ensures R m`: where `m` throws none, `R` is what it does to the buffers.

  Proved:
  - what each operation does to the references in hand (`does_alloc` and so on), in sequence
    (`Does.bind`) and in a loop (`does_forM`); nothing is queued on a channel that is not open.
  - `Ensures.bind` / `ensures_forM`: a relation that one step ensures a loop ensures too. So
    code that retains nothing leaves no buffer with a second reference (`Unshared`), and only
    `connect` and `close` change which channels are open.
  - `forM_consume_freed`: a socket that comes to a freed buffer throws.
-/

import Mathlib.Data.List.Nodup
import Mathlib.Order.Defs.Unbundled

namespace NettyStudy.Netty

/-- A write that is queued in a channel's outbound buffer. -/
structure Entry where
  channel : Nat
  buf : Nat
  flushed : Bool

/-- Every buffer, by number, and every queued write, the oldest first. -/
structure Buffers where
  refCnt : Nat → Nat
  /-- The number of the next one to be allocated. -/
  next : Nat
  queue : List Entry
  /-- The channels on which a write is queued. -/
  isOpen : Nat → Bool

/-- What may be an IllegalReferenceCountException. -/
abbrev Own (α : Type) := StateT Buffers Option α

namespace Buffers

def empty : Buffers := ⟨fun _ => 0, 0, [], fun _ => false⟩

def setRefCnt (w : Buffers) (b n : Nat) : Buffers := { w with refCnt := fun d => if d = b then n else w.refCnt d }

def setOpen (w : Buffers) (c : Nat) (isOpen : Bool) : Buffers :=
  { w with isOpen := fun d => if d = c then isOpen else w.isOpen d }

theorem setOpen_isOpen (w : Buffers) (c : Nat) (isOpen : Bool) :
    (w.setOpen c isOpen).isOpen = Function.update w.isOpen c isOpen := by
  funext d
  rw [Function.update_apply]
  rfl

/-- The buffers of the queued writes. -/
def queued (w : Buffers) : List Nat := w.queue.map Entry.buf

end Buffers

namespace Own

def alloc : Own Nat := fun w => some (w.next, { w.setRefCnt w.next 1 with next := w.next + 1 })

/-- A read of a buffer's bytes. -/
def access (b : Nat) : Own Unit := fun w => if w.refCnt b = 0 then none else some ((), w)

def retain (b : Nat) : Own Unit := fun w =>
  if w.refCnt b = 0 then none else some ((), w.setRefCnt b (w.refCnt b + 1))

def release (b : Nat) : Own Unit := fun w =>
  if w.refCnt b = 0 then none else some ((), w.setRefCnt b (w.refCnt b - 1))

/-- A write on a channel that is closed fails, and is released. -/
def write (c b : Nat) : Own Unit := fun w =>
  if w.isOpen c then some ((), { w with queue := w.queue ++ [⟨c, b, false⟩] }) else release b w

def flush (c : Nat) : Own Unit := fun w =>
  some ((), { w with queue := w.queue.map fun e => if e.channel = c then { e with flushed := true } else e })

def writeAndFlush (c b : Nat) : Own Unit := do
  write c b
  flush c

/-- The first `n` of the entries that satisfy `p`, and the others. -/
def takeEntries (p : Entry → Bool) : Nat → List Entry → List Nat × List Entry
  | 0, q => ([], q)
  | _, [] => ([], [])
  | n + 1, e :: q =>
    if p e then (e.buf :: (takeEntries p n q).1, (takeEntries p n q).2)
    else ((takeEntries p (n + 1) q).1, e :: (takeEntries p (n + 1) q).2)

def dequeue (p : Entry → Bool) (n : Nat) : Own (List Nat) := fun w =>
  some ((takeEntries p n w.queue).1, { w with queue := (takeEntries p n w.queue).2 })

/-- The socket reads a buffer, which is then released. -/
def consume (b : Nat) : Own Unit := do
  access b
  release b

/-- The socket takes at most `n` of channel `c`'s flushed writes. -/
def taken (c n : Nat) : Own Unit := do
  let bs ← dequeue (fun e => e.channel = c ∧ e.flushed) n
  bs.forM consume

def connect (c : Nat) : Own Unit := fun w => some ((), w.setOpen c true)

/-- What is queued and satisfies `p` is dropped. -/
def discard (p : Entry → Bool) : Own Unit := fun w => (do
  let bs ← dequeue p w.queue.length
  bs.forM release) w

def close (c : Nat) : Own Unit := fun w => discard (fun e => e.channel = c) (w.setOpen c false)

end Own

theorem bind_some {α β : Type} {m : Own α} {f : α → Own β} {w w' : Buffers} {a : α} (h : m w = some (a, w')) :
    (m >>= f) w = f a w' := by
  show (m w).bind (fun r => f r.1 r.2) = _
  rw [h]
  rfl

theorem bind_none {α β : Type} {m : Own α} {f : α → Own β} {w : Buffers} (h : m w = none) : (m >>= f) w = none := by
  show (m w).bind (fun r => f r.1 r.2) = none
  rw [h]
  rfl

/-! ## References in hand -/

/-- A buffer has a reference for each time it is in hand and each time it is queued; what is
    queued is queued on open channels. -/
structure Buffers.Owned (w : Buffers) (held : List Nat) : Prop where
  refCnt : ∀ b, w.refCnt b = held.count b + w.queued.count b
  fresh : ∀ b, w.next ≤ b → w.refCnt b = 0
  isOpen : ∀ e ∈ w.queue, w.isOpen e.channel = true

def Does {α : Type} (m : Own α) (held : List Nat) (post : α → List Nat) : Prop :=
  ∀ w : Buffers, w.Owned held → ∃ a w', m w = some (a, w') ∧ w'.Owned (post a)

theorem owned_empty : Buffers.empty.Owned [] :=
  ⟨fun _ => rfl, fun _ _ => rfl, fun _ h => absurd h List.not_mem_nil⟩

section
variable {α β : Type} {held : List Nat}

theorem Does.bind {m : Own α} {f : α → Own β} {mid : α → List Nat} {post : β → List Nat} (hm : Does m held mid)
    (hf : ∀ a, Does (f a) (mid a) post) : Does (m >>= f) held post := by
  intro w hw
  obtain ⟨a, w1, h1, hw1⟩ := hm w hw
  obtain ⟨b, w2, h2, hw2⟩ := hf a w1 hw1
  exact ⟨b, w2, (bind_some h1).trans h2, hw2⟩

theorem does_pure (a : α) (held : List Nat) : Does (pure a) held fun _ => held := fun w hw => ⟨a, w, rfl, hw⟩

/-- A loop that ends each round as it began. -/
theorem does_forM {f : α → Own Unit} {xs : List α} (hf : ∀ x ∈ xs, Does (f x) held fun _ => held) :
    Does (xs.forM f) held fun _ => held := by
  induction xs with
  | nil => exact does_pure () held
  | cons x xs ih => exact (hf x List.mem_cons_self).bind fun _ => ih fun y hy => hf y (List.mem_cons_of_mem _ hy)

/-- A loop that ends each round with one reference less. -/
theorem does_forM_each {f : Nat → Own Unit} (hf : ∀ b held, Does (f b) (b :: held) fun _ => held)
    (bs held : List Nat) : Does (bs.forM f) (bs ++ held) fun _ => held := by
  induction bs with
  | nil => exact does_pure () held
  | cons b bs ih => exact (hf b (bs ++ held)).bind fun _ => ih

end

/-! ## The operations -/

section
variable {held : List Nat} {b : Nat}

theorem Buffers.Owned.pos {w : Buffers} (hw : w.Owned held) (hb : b ∈ held) : w.refCnt b ≠ 0 := by
  have := List.count_pos_iff.mpr hb
  rw [hw.refCnt]
  omega

theorem Buffers.Owned.lt {w : Buffers} (hw : w.Owned held) (h : w.refCnt b ≠ 0) : b < w.next :=
  Nat.lt_of_not_le fun hle => h (hw.fresh b hle)

/-- A buffer's count is set to what is now in hand of it and queued. -/
theorem Buffers.Owned.set {w : Buffers} (hw : w.Owned held) {held' : List Nat} {n next : Nat}
    (hn : n = held'.count b + w.queued.count b) (hd : ∀ d, d ≠ b → held'.count d = held.count d) (hb : b < next)
    (hnext : w.next ≤ next) : ({ w.setRefCnt b n with next := next } : Buffers).Owned held' := by
  refine ⟨fun d => ?_, fun d hle => ?_, hw.isOpen⟩
  · show (if d = b then n else w.refCnt d) = held'.count d + w.queued.count d
    split
    · rename_i he
      rw [he, hn]
    · rename_i he
      rw [hd d he, hw.refCnt]
  · have hle' : next ≤ d := hle
    show (if d = b then n else w.refCnt d) = 0
    rw [if_neg (by omega)]
    exact hw.fresh d (by omega)

theorem count_cons_ne {d : Nat} (h : d ≠ b) : (b :: held).count d = held.count d := List.count_cons_of_ne (Ne.symm h)

theorem does_alloc (held : List Nat) : Does Own.alloc held fun b => b :: held := by
  intro w hw
  refine ⟨w.next, _, rfl, hw.set ?_ (fun d => count_cons_ne) (Nat.lt_succ_self _) (Nat.le_succ _)⟩
  have h0 := hw.refCnt w.next
  rw [hw.fresh w.next (Nat.le_refl _)] at h0
  rw [List.count_cons_self]
  omega

theorem does_access (hb : b ∈ held) : Does (Own.access b) held fun _ => held :=
  fun w hw => ⟨(), w, if_neg (hw.pos hb), hw⟩

theorem does_retain (hb : b ∈ held) : Does (Own.retain b) held fun _ => b :: held := by
  intro w hw
  have hpos := hw.pos hb
  refine ⟨(), _, if_neg hpos, hw.set ?_ (fun d => count_cons_ne) (hw.lt hpos) (Nat.le_refl _)⟩
  rw [List.count_cons_self, hw.refCnt]
  omega

theorem does_release (b : Nat) (held : List Nat) : Does (Own.release b) (b :: held) fun _ => held := by
  intro w hw
  have hpos := hw.pos (List.mem_cons_self (a := b) (l := held))
  refine ⟨(), _, if_neg hpos, hw.set ?_ (fun d hd => (count_cons_ne hd).symm) (hw.lt hpos) (Nat.le_refl _)⟩
  have hb := hw.refCnt b
  rw [List.count_cons_self] at hb
  show w.refCnt b - 1 = held.count b + w.queued.count b
  omega

/-- What is queued on an open channel is in hand no more. -/
theorem Buffers.Owned.enqueue {w : Buffers} {c : Nat} (hw : w.Owned (b :: held)) (hc : w.isOpen c = true) :
    ({ w with queue := w.queue ++ [⟨c, b, false⟩] } : Buffers).Owned held := by
  refine ⟨fun d => ?_, hw.fresh, fun e he => ?_⟩
  · have hd := hw.refCnt d
    rw [List.count_cons] at hd
    show w.refCnt d = held.count d + ((w.queue ++ [(⟨c, b, false⟩ : Entry)]).map Entry.buf).count d
    rw [List.map_append, List.count_append, List.map_singleton, List.count_singleton]
    show _ = held.count d + (w.queued.count d + if (b == d) = true then 1 else 0)
    omega
  · rcases List.mem_append.mp he with he | he
    · exact hw.isOpen e he
    · rw [List.mem_singleton.mp he]
      exact hc

/-- Queued or released, what is written is in hand no more. -/
theorem does_write (c b : Nat) (held : List Nat) : Does (Own.write c b) (b :: held) fun _ => held := by
  intro w hw
  by_cases hc : w.isOpen c = true
  · exact ⟨(), _, if_pos hc, hw.enqueue hc⟩
  · obtain ⟨_, w', hr, hw'⟩ := does_release b held w hw
    exact ⟨(), w', (if_neg hc).trans hr, hw'⟩

theorem does_flush (c : Nat) (held : List Nat) : Does (Own.flush c) held fun _ => held := by
  intro w hw
  let mark : Entry → Entry := fun e => if e.channel = c then { e with flushed := true } else e
  have hmark : ∀ e, (mark e).buf = e.buf ∧ (mark e).channel = e.channel := by
    intro e
    dsimp only [mark]
    split <;> exact ⟨rfl, rfl⟩
  have hmap : (w.queue.map mark).map Entry.buf = w.queued := by
    rw [List.map_map]
    exact List.map_congr_left fun e _ => (hmark e).1
  refine ⟨(), { w with queue := w.queue.map mark }, rfl, fun d => ?_, hw.fresh, fun e he => ?_⟩
  · show w.refCnt d = held.count d + ((w.queue.map mark).map Entry.buf).count d
    rw [hmap]
    exact hw.refCnt d
  · obtain ⟨e', he', rfl⟩ := List.mem_map.mp he
    rw [(hmark e').2]
    exact hw.isOpen e' he'

theorem does_writeAndFlush (c b : Nat) (held : List Nat) : Does (Own.writeAndFlush c b) (b :: held) fun _ => held :=
  (does_write c b held).bind fun _ => does_flush c held

/-- Each entry is taken or left. -/
theorem count_takeEntries (p : Entry → Bool) (b : Nat) (q : List Entry) : ∀ n,
    (q.map Entry.buf).count b =
      (Own.takeEntries p n q).1.count b + ((Own.takeEntries p n q).2.map Entry.buf).count b := by
  induction q with
  | nil => intro n; cases n <;> rfl
  | cons e q ih =>
    intro n
    cases n with
    | zero => rw [Own.takeEntries, List.count_nil, Nat.zero_add]
    | succ n =>
      rw [Own.takeEntries]
      split
      · have := ih n
        simp only [List.map_cons, List.count_cons]
        omega
      · have := ih (n + 1)
        simp only [List.map_cons, List.count_cons]
        omega

theorem of_mem_left {p : Entry → Bool} {e : Entry} {q : List Entry} :
    ∀ {n : Nat}, e ∈ (Own.takeEntries p n q).2 → e ∈ q ∧ (q.length ≤ n → p e = false) := by
  induction q with
  | nil => intro n he; cases n <;> exact absurd he List.not_mem_nil
  | cons d q ih =>
    intro n he
    cases n with
    | zero => exact ⟨he, fun h => absurd h (Nat.not_succ_le_zero _)⟩
    | succ n =>
      rw [Own.takeEntries] at he
      split at he
      · obtain ⟨hmem, hp⟩ := ih he
        exact ⟨List.mem_cons_of_mem _ hmem, fun h => hp (Nat.le_of_succ_le_succ h)⟩
      · rename_i hd
        rcases List.mem_cons.mp he with rfl | he
        · exact ⟨List.mem_cons_self, fun _ => by simpa using hd⟩
        · obtain ⟨hmem, hp⟩ := ih he
          exact ⟨List.mem_cons_of_mem _ hmem, fun h => hp (Nat.le_of_lt h)⟩

/-- What is taken out of the queue is in hand. -/
theorem Buffers.Owned.dequeue {w : Buffers} (hw : w.Owned held) (p : Entry → Bool) (n : Nat) :
    ({ w with queue := (Own.takeEntries p n w.queue).2 } : Buffers).Owned
      ((Own.takeEntries p n w.queue).1 ++ held) := by
  refine ⟨fun d => ?_, hw.fresh, fun e he => hw.isOpen e (of_mem_left he).1⟩
  have hc := count_takeEntries p d w.queue n
  have hd := hw.refCnt d
  rw [Buffers.queued] at hd
  show w.refCnt d = ((Own.takeEntries p n w.queue).1 ++ held).count d +
    ((Own.takeEntries p n w.queue).2.map Entry.buf).count d
  rw [List.count_append]
  omega

theorem does_dequeue (p : Entry → Bool) (n : Nat) (held : List Nat) :
    Does (Own.dequeue p n) held fun bs => bs ++ held := fun _ hw => ⟨_, _, rfl, hw.dequeue p n⟩

theorem does_consume (b : Nat) (held : List Nat) : Does (Own.consume b) (b :: held) fun _ => held :=
  (does_access List.mem_cons_self).bind fun _ => does_release b held

theorem does_taken (c n : Nat) (held : List Nat) : Does (Own.taken c n) held fun _ => held :=
  (does_dequeue _ n held).bind fun bs => does_forM_each does_consume bs held

theorem does_discard (p : Entry → Bool) (held : List Nat) : Does (Own.discard p) held fun _ => held :=
  fun w hw => ((does_dequeue p w.queue.length held).bind fun bs => does_forM_each does_release bs held) w hw

theorem does_connect (c : Nat) (held : List Nat) : Does (Own.connect c) held fun _ => held := by
  intro w hw
  refine ⟨(), _, rfl, hw.refCnt, hw.fresh, fun e he => ?_⟩
  show (if e.channel = c then true else w.isOpen e.channel) = true
  split
  · rfl
  · exact hw.isOpen e he

/-- A channel that closes has nothing queued any more. -/
theorem does_close (c : Nat) (held : List Nat) : Does (Own.close c) held fun _ => held := by
  intro w hw
  have hd := hw.dequeue (fun e => e.channel = c) w.queue.length
  let w1 : Buffers :=
    { w.setOpen c false with queue := (Own.takeEntries (fun e => e.channel = c) w.queue.length w.queue).2 }
  have ho : w1.Owned ((Own.takeEntries (fun e => e.channel = c) w.queue.length w.queue).1 ++ held) := by
    refine ⟨hd.refCnt, hd.fresh, fun e he => ?_⟩
    show (if e.channel = c then false else w.isOpen e.channel) = true
    rw [if_neg (of_decide_eq_false ((of_mem_left he).2 (Nat.le_refl _)))]
    exact hd.isOpen e he
  obtain ⟨_, w', hr, hw'⟩ := does_forM_each does_release _ held w1 ho
  exact ⟨(), w', (bind_some rfl).trans hr, hw'⟩

end

/-! ## What is done to the buffers -/

def Ensures {α : Type} (R : Buffers → Buffers → Prop) (m : Own α) : Prop := ∀ w a w', m w = some (a, w') → R w w'

/-- The buffers that a step which does not throw leaves. -/
theorem state_eq {α : Type} {a a' : α} {w w' : Buffers} (h : some (a, w) = some (a', w')) : w = w' :=
  congrArg Prod.snd (Option.some.inj h)

theorem bind_cases {α β : Type} {m : Own α} {f : α → Own β} {w w' : Buffers} {b : β} (h : (m >>= f) w = some (b, w')) :
    ∃ a w1, m w = some (a, w1) ∧ f a w1 = some (b, w') := by
  have h' : (m w).bind (fun r => f r.1 r.2) = some (b, w') := h
  obtain ⟨r, hm, hf⟩ := Option.bind_eq_some_iff.mp h'
  exact ⟨r.1, r.2, hm, hf⟩

section
variable {α β : Type} {R : Buffers → Buffers → Prop} [IsPreorder Buffers R]

theorem Ensures.bind {m : Own α} {f : α → Own β} (hm : Ensures R m) (hf : ∀ a, Ensures R (f a)) :
    Ensures R (m >>= f) := by
  intro w b w' h
  obtain ⟨a, w1, h1, h2⟩ := bind_cases h
  exact IsTrans.trans w w1 w' (hm w a w1 h1) (hf a w1 b w' h2)

theorem ensures_pure (a : α) : Ensures R (pure a) := by
  intro w a' w' h
  exact state_eq h ▸ Std.Refl.refl w

theorem ensures_forM {f : α → Own Unit} (hf : ∀ x, Ensures R (f x)) (xs : List α) : Ensures R (xs.forM f) := by
  induction xs with
  | nil => exact ensures_pure ()
  | cons x xs ih => exact (hf x).bind fun _ => ih

end

/-- A relation that holds of whatever only lowers reference counts. -/
class Lowers (R : Buffers → Buffers → Prop) : Prop extends IsPreorder Buffers R where
  refCnt : ∀ w b n, n ≤ max 1 (w.refCnt b) → R w (w.setRefCnt b n)

section
variable {R : Buffers → Buffers → Prop} [Lowers R]

theorem ensures_access (b : Nat) : Ensures R (Own.access b) := by
  intro w a w' h
  rw [Own.access] at h
  split at h
  · cases h
  · exact state_eq h ▸ Std.Refl.refl w

theorem ensures_release (b : Nat) : Ensures R (Own.release b) := by
  intro w a w' h
  rw [Own.release] at h
  split at h
  · cases h
  · rw [← state_eq h]
    exact Lowers.refCnt w b _ (by omega)

theorem ensures_consume (b : Nat) : Ensures R (Own.consume b) := (ensures_access b).bind fun _ => ensures_release b

end

/-- One that holds of whatever retains nothing and neither opens nor closes a channel. -/
class Frame (R : Buffers → Buffers → Prop) : Prop extends Lowers R where
  next : ∀ w n, R w { w with next := n }
  queue : ∀ w q, R w { w with queue := q }

section
variable {R : Buffers → Buffers → Prop} [Frame R]

theorem ensures_alloc : Ensures R Own.alloc := by
  intro w a w' h
  rw [← state_eq h]
  exact IsTrans.trans w _ _ (Lowers.refCnt w w.next 1 (Nat.le_max_left 1 _)) (Frame.next _ (w.next + 1))

theorem ensures_write (c b : Nat) : Ensures R (Own.write c b) := by
  intro w a w' h
  rw [Own.write] at h
  split at h
  · exact state_eq h ▸ Frame.queue w _
  · exact ensures_release b w a w' h

theorem ensures_flush (c : Nat) : Ensures R (Own.flush c) := by
  intro w a w' h
  exact state_eq h ▸ Frame.queue w _

theorem ensures_writeAndFlush (c b : Nat) : Ensures R (Own.writeAndFlush c b) :=
  (ensures_write c b).bind fun _ => ensures_flush c

theorem ensures_dequeue (p : Entry → Bool) (n : Nat) : Ensures R (Own.dequeue p n) := by
  intro w a w' h
  exact state_eq h ▸ Frame.queue w _

theorem ensures_taken (c n : Nat) : Ensures R (Own.taken c n) :=
  (ensures_dequeue _ n).bind fun bs => ensures_forM ensures_consume bs

theorem ensures_discard (p : Entry → Bool) : Ensures R (Own.discard p) := fun w =>
  (ensures_dequeue p w.queue.length).bind (fun bs => ensures_forM ensures_release bs) w

/-- Once the channel counts as closed, what is left to do is release. -/
theorem close_ensures {c : Nat} {w w' : Buffers} (h : Own.close c w = some ((), w')) : R (w.setOpen c false) w' :=
  ensures_discard _ _ () w' h

end

/-- No buffer has got a second reference. -/
def Unshared (w w' : Buffers) : Prop := ∀ b, w'.refCnt b ≤ max 1 (w.refCnt b)

def SameOpen (w w' : Buffers) : Prop := w'.isOpen = w.isOpen

/-- Only reference counts have changed. -/
structure SameQueue (w w' : Buffers) : Prop where
  next : w'.next = w.next
  queue : w'.queue = w.queue
  isOpen : w'.isOpen = w.isOpen

instance : Frame Unshared where
  refl w b := Nat.le_max_right 1 (w.refCnt b)
  trans w w1 w2 h1 h2 b := by
    have := h1 b
    have := h2 b
    omega
  refCnt w b n hn d := by
    show (if d = b then n else w.refCnt d) ≤ max 1 (w.refCnt d)
    split
    · rename_i he
      exact he ▸ hn
    · exact Nat.le_max_right 1 _
  next w _ b := Nat.le_max_right 1 (w.refCnt b)
  queue w _ b := Nat.le_max_right 1 (w.refCnt b)

instance : Frame SameOpen where
  refl _ := rfl
  trans _ _ _ h1 h2 := h2.trans h1
  refCnt _ _ _ _ := rfl
  next _ _ := rfl
  queue _ _ := rfl

instance : Lowers SameQueue where
  refl _ := ⟨rfl, rfl, rfl⟩
  trans _ _ _ h1 h2 := ⟨h2.next.trans h1.next, h2.queue.trans h1.queue, h2.isOpen.trans h1.isOpen⟩
  refCnt _ _ _ _ := ⟨rfl, rfl, rfl⟩

/-- What a socket takes is gone from the queue. -/
theorem taken_queue {c n : Nat} {w w' : Buffers} (h : Own.taken c n w = some ((), w')) :
    SameQueue { w with queue := (Own.takeEntries (fun e => e.channel = c ∧ e.flushed) n w.queue).2 } w' :=
  ensures_forM (R := SameQueue) ensures_consume _ _ () w' h

theorem takeEntries_all (p : Entry → Bool) (q : List Entry) :
    ∀ {n : Nat}, q.length ≤ n → (Own.takeEntries p n q).2 = q.filter fun e => !p e := by
  induction q with
  | nil => intro n _; cases n <;> rfl
  | cons e q ih =>
    intro n hn
    obtain ⟨n, rfl⟩ : ∃ m, n = m + 1 := ⟨n - 1, by rw [List.length_cons] at hn; omega⟩
    rw [List.length_cons] at hn
    rw [Own.takeEntries, List.filter_cons]
    by_cases hp : p e = true
    · rw [if_pos hp, hp]
      exact ih (by omega)
    · rw [if_neg hp, if_pos (by simpa using hp), ih (by omega)]

theorem discard_queue {p : Entry → Bool} {w w' : Buffers} (h : Own.discard p w = some ((), w')) :
    SameQueue { w with queue := w.queue.filter fun e => !p e } w' := by
  rw [← takeEntries_all p w.queue (Nat.le_refl _)]
  exact ensures_forM (R := SameQueue) ensures_release _ _ () w' h

theorem close_queue {c : Nat} {w w' : Buffers} (h : Own.close c w = some ((), w')) :
    SameQueue { w.setOpen c false with queue := w.queue.filter fun e => e.channel ≠ c } w' := by
  have hq : (w.queue.filter fun e => e.channel ≠ c) = w.queue.filter fun e => !decide (e.channel = c) :=
    List.filter_congr fun e _ => decide_not
  rw [hq]
  exact discard_queue h

/-- What is written is queued where the channel is open. -/
theorem write_queue {c b : Nat} {w w' : Buffers} (h : Own.write c b w = some ((), w')) :
    SameQueue { w with queue := w.queue ++ if w.isOpen c then [⟨c, b, false⟩] else [] } w' := by
  rw [Own.write] at h
  split at h
  · rename_i hc
    have h := state_eq h
    rw [if_pos hc, h]
    exact Std.Refl.refl w'
  · rename_i hc
    rw [if_neg hc, List.append_nil]
    exact ensures_release (R := SameQueue) b w () w' h

/-- A buffer that has no second reference is not queued twice, nor in hand twice. -/
theorem Buffers.Owned.nodup {w : Buffers} {held : List Nat} (hw : w.Owned held) (h1 : ∀ b, w.refCnt b ≤ 1) :
    (held ++ w.queued).Nodup := by
  rw [List.nodup_iff_count_le_one]
  intro b
  rw [List.count_append, ← hw.refCnt]
  exact h1 b

/-! ## Freed buffers -/

theorem consume_eq (b : Nat) (w : Buffers) :
    Own.consume b w = if w.refCnt b = 0 then none else some ((), w.setRefCnt b (w.refCnt b - 1)) := by
  by_cases h : w.refCnt b = 0
  · show (if w.refCnt b = 0 then none else some ((), w)).bind (fun r => Own.release b r.2) = _
    rw [if_pos h, if_pos h]
    rfl
  · rw [Own.consume, bind_some (if_neg h), if_neg h]
    exact if_neg h

/-- A socket that comes to a freed buffer throws. -/
theorem forM_consume_freed {b : Nat} {bs : List Nat} (hb : b ∈ bs) :
    ∀ {w : Buffers}, w.refCnt b = 0 → bs.forM Own.consume w = none := by
  induction bs with
  | nil => exact absurd hb List.not_mem_nil
  | cons d bs ih =>
    intro w hw
    show (Own.consume d w).bind (fun r => bs.forM Own.consume r.2) = none
    rw [consume_eq]
    by_cases hd : w.refCnt d = 0
    · rw [if_pos hd]
      rfl
    · have hne : b ≠ d := by rintro rfl; exact hd hw
      have hmem : b ∈ bs := (List.mem_cons.mp hb).resolve_left hne
      rw [if_neg hd]
      exact ih hmem ((if_neg hne).trans hw)

/-- An entry that satisfies `p` is among those taken, if that many are. -/
theorem mem_takeEntries {p : Entry → Bool} {e : Entry} (hp : p e = true) :
    ∀ {q : List Entry} {n : Nat}, e ∈ q → q.length ≤ n → e.buf ∈ (Own.takeEntries p n q).1 := by
  intro q
  induction q with
  | nil => exact fun he _ => absurd he List.not_mem_nil
  | cons d q ih =>
    intro n he hn
    obtain ⟨n, rfl⟩ : ∃ m, n = m + 1 := ⟨n - 1, by rw [List.length_cons] at hn; omega⟩
    rw [List.length_cons] at hn
    rw [Own.takeEntries]
    rcases List.mem_cons.mp he with rfl | he
    · rw [if_pos hp]
      exact List.mem_cons_self
    · split
      · exact List.mem_cons_of_mem _ (ih he (by omega))
      · exact ih he (by omega)

end NettyStudy.Netty
