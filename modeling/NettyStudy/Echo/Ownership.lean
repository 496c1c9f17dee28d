/-
  NettyStudy.Echo.Ownership — the buffers of the byte echo server, whose EchoServerHandler
  writes back the buffer it was given. A read allocates a buffer, which is the handler's to
  release; the handler hands it to the outbound buffer and does not release it. The empty
  buffer that channelReadComplete writes is not counted.

  Proved, over every interleaving of the events of all channels:
  - `echo_owned`: no buffer is used or released after it is freed. Each has one reference
    while its echo is queued, once and on an open channel, and none after; `Outbound` says
    which echoes are queued.
  - `released_throws`: were channelRead to release its buffer as well, as its comment says it
    must not, the socket would take a freed one, or the handler release one that the failed
    write has freed.
-/

import NettyStudy.Netty.RefCounted

namespace NettyStudy.Echo.Ownership

open NettyStudy.Netty Own

namespace EchoServerHandler

/-- `in.toString(UTF_8)` is logged, then `ctx.write(msg)`. -/
def channelRead (c msg : Nat) : Own Unit := do
  access msg
  write c msg

/-- `ctx.writeAndFlush(Unpooled.EMPTY_BUFFER)`. -/
def channelReadComplete (c : Nat) : Own Unit := flush c

def exceptionCaught (c : Nat) : Own Unit := close c

end EchoServerHandler

inductive Event where
  | connect (c : Nat)
  | read (c : Nat)
  | readComplete (c : Nat)
  /-- The socket takes at most `n` flushed writes. -/
  | taken (c n : Nat)
  | exception (c : Nat)
  | disconnect (c : Nat)

def step : Event → Own Unit
  | .connect c => connect c
  | .read c => do
    let msg ← alloc
    EchoServerHandler.channelRead c msg
  | .readComplete c => EchoServerHandler.channelReadComplete c
  | .taken c n => taken c n
  | .exception c => EchoServerHandler.exceptionCaught c
  | .disconnect c => close c

def run (es : List Event) : Own Unit := es.forM step

/-! ## What is queued -/

/-- The writes of an echo server that need not count: what has been read on open channels,
    until their sockets take it or they close. -/
structure Outbound where
  /-- The reads so far. -/
  reads : Nat
  isOpen : Nat → Bool
  queue : List Entry

namespace Outbound

def empty : Outbound := ⟨0, fun _ => false, []⟩

def step (o : Outbound) : Event → Outbound
  | .connect c => { o with isOpen := Function.update o.isOpen c true }
  | .read c =>
    { o with
      reads := o.reads + 1
      queue := o.queue ++ if o.isOpen c then [⟨c, o.reads, false⟩] else [] }
  | .readComplete c => { o with queue := o.queue.map fun e => if e.channel = c then { e with flushed := true } else e }
  | .taken c n => { o with queue := (takeEntries (fun e => e.channel = c ∧ e.flushed) n o.queue).2 }
  | .exception c | .disconnect c =>
    { o with isOpen := Function.update o.isOpen c false, queue := o.queue.filter (·.channel ≠ c) }

end Outbound

/-! ## What counting does -/

theorem does_channelRead (c msg : Nat) (held : List Nat) :
    Does (EchoServerHandler.channelRead c msg) (msg :: held) fun _ => held :=
  (does_access List.mem_cons_self).bind fun _ => does_write c msg held

theorem does_step (e : Event) : Does (step e) [] fun _ => [] := by
  cases e with
  | connect c => exact does_connect c []
  | read c => exact (does_alloc []).bind fun msg => does_channelRead c msg []
  | readComplete c => exact does_flush c []
  | taken c n => exact does_taken c n []
  | exception c | disconnect c => exact does_close c []

theorem unshared_step (e : Event) : Ensures Unshared (step e) := by
  cases e with
  | connect c =>
    intro w a w' h
    exact state_eq h ▸ Std.Refl.refl (r := Unshared) w
  | read c => exact ensures_alloc.bind fun msg => (ensures_access msg).bind fun _ => ensures_write c msg
  | readComplete c => exact ensures_flush c
  | taken c n => exact ensures_taken c n
  | exception c | disconnect c => exact fun w a w' h => close_ensures (R := Unshared) h

/-- The outbound buffers, whatever their references. -/
structure Counted (o : Outbound) (w : Buffers) : Prop where
  next : w.next = o.reads
  queue : w.queue = o.queue
  isOpen : w.isOpen = o.isOpen

theorem Counted.of_same {o : Outbound} {w w' : Buffers} (h : SameQueue w w') (hw : Counted o w) : Counted o w' :=
  ⟨h.next.trans hw.next, h.queue.trans hw.queue, h.isOpen.trans hw.isOpen⟩

theorem step_counted {o : Outbound} {w w' : Buffers} (hw : Counted o w) (e : Event) (h : step e w = some ((), w')) :
    Counted (o.step e) w' := by
  obtain ⟨hn, hq, ho⟩ := hw
  have hclose : ∀ c, close c w = some ((), w') →
      Counted ⟨o.reads, Function.update o.isOpen c false, o.queue.filter (·.channel ≠ c)⟩ w' := by
    intro c hc
    refine Counted.of_same (close_queue hc) ⟨hn, by rw [← hq], ?_⟩
    rw [← ho]
    exact w.setOpen_isOpen c false
  cases e with
  | connect c =>
    rw [← state_eq h]
    refine ⟨hn, hq, ?_⟩
    rw [Outbound.step, ← ho]
    exact w.setOpen_isOpen c true
  | read c =>
    obtain ⟨msg, w1, h1, h2⟩ := bind_cases h
    obtain ⟨_, w2, h3, h4⟩ := bind_cases h2
    have hm : msg = w.next ∧ { w.setRefCnt w.next 1 with next := w.next + 1 } = w1 := by
      injection h1 with h1
      injection h1 with hm h1
      exact ⟨hm.symm, h1⟩
    have hs := ensures_access (R := SameQueue) msg w1 () w2 h3
    rw [← hm.2] at hs
    refine Counted.of_same (write_queue h4) ⟨?_, ?_, ?_⟩
    · show w2.next = o.reads + 1
      rw [hs.next, ← hn]
    · show w2.queue ++ (if w2.isOpen c then [⟨c, msg, false⟩] else []) = _
      rw [hs.queue, hs.isOpen, hm.1, hn]
      show w.queue ++ (if w.isOpen c then _ else _) = _
      rw [hq, ho]
      rfl
    · exact hs.isOpen.trans ho
  | readComplete c =>
    rw [← state_eq h]
    exact ⟨hn, by rw [Outbound.step, ← hq], ho⟩
  | taken c n => exact Counted.of_same (taken_queue h) ⟨hn, by rw [Outbound.step, ← hq], ho⟩
  | exception c => exact hclose c h
  | disconnect c => exact hclose c h

structure OInv (o : Outbound) (w : Buffers) : Prop where
  owned : w.Owned []
  unshared : ∀ b, w.refCnt b ≤ 1
  counted : Counted o w

theorem step_inv {o : Outbound} {w : Buffers} (h : OInv o w) (e : Event) :
    ∃ w', step e w = some ((), w') ∧ OInv (o.step e) w' := by
  obtain ⟨_, w', hr, hw'⟩ := does_step e w h.owned
  refine ⟨w', hr, hw', fun b => ?_, step_counted h.counted e hr⟩
  have hb := unshared_step e w () w' hr b
  have := h.unshared b
  omega

theorem run_inv (es : List Event) : ∀ {o : Outbound} {w : Buffers}, OInv o w →
    ∃ w', run es w = some ((), w') ∧ OInv (es.foldl Outbound.step o) w' := by
  induction es with
  | nil => exact fun h => ⟨_, rfl, h⟩
  | cons e es ih =>
    intro o w h
    obtain ⟨w1, h1, hi⟩ := step_inv h e
    obtain ⟨w', hr, hi'⟩ := ih hi
    exact ⟨w', (bind_some h1).trans hr, hi'⟩

/-- In every run nothing is used after it is freed. What is queued is what an echo server
    that need not count has queued, on open channels, nothing twice; and a buffer has a
    reference exactly while it is queued. -/
theorem echo_owned (es : List Event) : ∃ w, run es .empty = some ((), w) ∧
    w.queue = (es.foldl Outbound.step .empty).queue ∧
    (∀ e ∈ w.queue, (es.foldl Outbound.step .empty).isOpen e.channel = true) ∧ w.queued.Nodup ∧
    ∀ b, w.refCnt b = w.queued.count b := by
  have h0 : OInv .empty .empty := ⟨owned_empty, fun _ => Nat.zero_le 1, rfl, rfl, rfl⟩
  obtain ⟨w, hr, hw⟩ := run_inv es h0
  refine ⟨w, hr, hw.counted.queue, fun e he => ?_, hw.owned.nodup hw.unshared, fun b => ?_⟩
  · rw [← hw.counted.isOpen]
    exact hw.owned.isOpen e he
  · rw [hw.owned.refCnt, List.count_nil, Nat.zero_add]

/-! ## Releasing it as well -/

/-- `channelRead` with the `ReferenceCountUtil.release(in)` that is commented out. -/
def channelReadReleasing (c msg : Nat) : Own Unit := do
  EchoServerHandler.channelRead c msg
  release msg

/-- A read of it, all of it, and a socket that takes all there is. -/
def readReleasing (c n : Nat) : Own Unit := do
  let msg ← alloc
  channelReadReleasing c msg
  EchoServerHandler.channelReadComplete c
  taken c n

/-- Where the channel is closed, the write has freed the buffer; where it is open, the socket
    comes to a buffer that the handler has freed. -/
theorem released_throws (w : Buffers) (c : Nat) : readReleasing c (w.queue.length + 1) w = none := by
  let w1 : Buffers := { w.setRefCnt w.next 1 with next := w.next + 1 }
  have h1 : w1.refCnt w.next = 1 := if_pos rfl
  have hpos : w1.refCnt w.next ≠ 0 := by omega
  have hin : EchoServerHandler.channelRead c w.next w1 = write c w.next w1 := bind_some (if_neg hpos)
  rw [readReleasing, bind_some (show alloc w = some (w.next, w1) from rfl)]
  by_cases hc : w1.isOpen c = true
  · let w2 : Buffers := { w1 with queue := w.queue ++ [⟨c, w.next, false⟩] }
    let w3 : Buffers := w2.setRefCnt w.next (w2.refCnt w.next - 1)
    let w4 : Buffers :=
      { w3 with queue := w3.queue.map fun e => if e.channel = c then { e with flushed := true } else e }
    have hread : channelReadReleasing c w.next w1 = some ((), w3) := by
      have hwrite : write c w.next w1 = some ((), w2) := if_pos hc
      exact (bind_some (hin.trans hwrite)).trans (if_neg hpos)
    have hfreed : w4.refCnt w.next = 0 := by
      show (if w.next = w.next then w1.refCnt w.next - 1 else _) = 0
      rw [if_pos rfl, h1]
    have hmem : (⟨c, w.next, true⟩ : Entry) ∈ w4.queue :=
      List.mem_map.mpr ⟨⟨c, w.next, false⟩, List.mem_append_right _ List.mem_cons_self, if_pos rfl⟩
    have hlen : w4.queue.length = w.queue.length + 1 := by simp [w4, w3, w2, w1, Buffers.setRefCnt]
    have htaken := mem_takeEntries (p := fun e => e.channel = c ∧ e.flushed) (by simp) hmem (Nat.le_of_eq hlen)
    rw [bind_some hread, bind_some (show EchoServerHandler.channelReadComplete c w3 = some ((), w4) from rfl), taken,
      bind_some (show dequeue _ _ w4 = some (_, { w4 with queue := _ }) from rfl)]
    exact forM_consume_freed htaken hfreed
  · let w2 : Buffers := w1.setRefCnt w.next (w1.refCnt w.next - 1)
    have hwrite : write c w.next w1 = some ((), w2) := (if_neg hc).trans (if_neg hpos)
    have hfreed : w2.refCnt w.next = 0 := by
      show (if w.next = w.next then w1.refCnt w.next - 1 else _) = 0
      rw [if_pos rfl, h1]
    have hread : channelReadReleasing c w.next w1 = none := (bind_some (hin.trans hwrite)).trans (if_pos hfreed)
    exact bind_none hread

end NettyStudy.Echo.Ownership
