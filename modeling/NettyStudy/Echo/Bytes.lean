/-
  NettyStudy.Echo.Bytes — the byte echo: any number of clients of echo-client connected to
  one EchoServer of echo-server, whose single EchoServerHandler serves every channel.

  The client writes a greeting when its channel is active and a heartbeat when it has been
  idle; each heartbeat is a duplicate of one static buffer, with indices of its own. The
  server's channelRead queues what it was given, channelReadComplete flushes. The handler
  has no field: it acts on the context it is called with.

  Assumed of the network and of Netty: each direction is a `Pipe`, read in pieces of any
  size; a flush sends everything queued; writes do not fail. What is logged is left out.

  Proved, over every interleaving of the events of all connections:
  - `inv`: the server has written to each channel what it has read from it, in order.
  - `sent_eq`: a client's bytes are the greeting and then whole heartbeats.
  - `echo_own`: what a client has received is a start of what it has sent itself, and a
    read completion flushes back everything read.
-/

import NettyStudy.Netty.ByteBuf
import NettyStudy.Netty.Channel
import NettyStudy.Text.Unicode

namespace NettyStudy.Echo.Bytes

open NettyStudy.Text NettyStudy.Netty

/-! ## The handlers -/

/-- A channel's way out, in bytes. -/
abbrev Context := Outbound UInt8

/-- `ctx.write(buf)`: its readable bytes are queued. -/
def write (ctx : Context) (buf : ByteBuf) : Context := Outbound.write ctx buf.readable

def writeAndFlush (ctx : Context) (buf : ByteBuf) : Context := Outbound.writeAndFlush ctx buf.readable

/-- `Unpooled.EMPTY_BUFFER`. -/
def EMPTY_BUFFER : ByteBuf := .wrap []

/-- The same bytes under indices of its own. -/
def duplicate (buf : ByteBuf) : ByteBuf := ⟨buf.bytes, buf.readerIndex, buf.le_writer⟩

def EchoServerHandler.channelRead (ctx : Context) (msg : ByteBuf) : Context := write ctx msg

def EchoServerHandler.channelReadComplete (ctx : Context) : Context := writeAndFlush ctx EMPTY_BUFFER

def ClientChannelActiveHandler.channelActive (ctx : Context) : Context :=
  writeAndFlush ctx (.wrap (getBytes (literal "Netty rocks!")))

def HeartbeatHandler.HEARTBEAT_SEQUENCE : ByteBuf := .wrap (getBytes (literal "HEARTBEAT"))

def HeartbeatHandler.userEventTriggered (ctx : Context) : UserEvent → Context
  | .idleState => writeAndFlush ctx (duplicate HEARTBEAT_SEQUENCE)
  | .other => ctx

/-! ## The system -/

/-- A connection: what its client sends and what the server sends back. -/
structure Link where
  active : Bool
  client : Context
  server : Context

namespace Link

/-- The bytes the client has sent. -/
def sent (l : Link) : List UInt8 := l.client.wire.sent

/-- The bytes the server has read. -/
def read (l : Link) : List UInt8 := l.client.wire.received

/-- The bytes the server has flushed back. -/
def returned (l : Link) : List UInt8 := l.server.wire.sent

/-- The bytes the client has received. -/
def received (l : Link) : List UInt8 := l.server.wire.received

end Link

/-- The connections, by number. -/
abbrev St := Nat → Link

def init : St := fun _ => ⟨false, .empty, .empty⟩

inductive Event where
  | active
  | userEvent (evt : UserEvent)
  /-- The server reads at most `n` of the bytes on their way. -/
  | channelRead (n : Nat)
  | channelReadComplete
  | clientRead (n : Nat)

def Link.step (l : Link) : Event → Link
  | .active =>
    if l.active then l else { l with active := true, client := ClientChannelActiveHandler.channelActive l.client }
  | .userEvent evt =>
    if l.active then { l with client := HeartbeatHandler.userEventTriggered l.client evt } else l
  | .channelRead n =>
    { l with client := l.client.take n
             server := EchoServerHandler.channelRead l.server (.wrap (l.client.wire.next n)) }
  | .channelReadComplete => { l with server := EchoServerHandler.channelReadComplete l.server }
  | .clientRead n => { l with server := l.server.take n }

/-- An event of connection `c`. -/
def step (s : St) (c : Nat) (e : Event) : St := fun d => if d = c then (s c).step e else s d

inductive Reach : St → Prop
  | init : Reach init
  | step {s : St} (c : Nat) (e : Event) : Reach s → Reach (step s c e)

@[simp] theorem step_same (s : St) (c : Nat) (e : Event) : step s c e c = (s c).step e := if_pos rfl

@[simp] theorem step_other {s : St} {c d : Nat} {e : Event} (h : d ≠ c) : step s c e d = s d := if_neg h

/-- What holds of a fresh connection and every step of a connection keeps holds of every
    connection in every state. -/
theorem reach_links {P : Link → Prop} (h0 : P ⟨false, .empty, .empty⟩) (hstep : ∀ l e, P l → P (l.step e)) {s : St}
    (h : Reach s) : ∀ c, P (s c) := by
  induction h with
  | init => exact fun _ => h0
  | @step s d e _ ih =>
    intro c
    by_cases hc : c = d
    · subst hc
      rw [step_same]
      exact hstep _ e (ih c)
    · rw [step_other hc]
      exact ih c

/-! ## The invariants -/

/-- The server has written what it has read. -/
def Echoes (l : Link) : Prop := l.server.written = l.read

theorem step_echoes (l : Link) (e : Event) (h : Echoes l) : Echoes (l.step e) := by
  unfold Echoes at h ⊢
  cases e with
  | active =>
    rw [Link.step]
    split <;> exact h
  | userEvent evt =>
    rw [Link.step]
    split
    · cases evt with
      | idleState => exact h
      | other => exact h
    · exact h
  | channelRead n =>
    rw [Link.step, EchoServerHandler.channelRead, write, Outbound.written_write, ByteBuf.readable_wrap, h]
    rfl
  | channelReadComplete =>
    rw [Link.step, EchoServerHandler.channelReadComplete, writeAndFlush]
    simp [EMPTY_BUFFER, h, Link.read]
  | clientRead n =>
    rw [Link.step, Outbound.written_take]
    exact h

theorem inv {s : St} (h : Reach s) (c : Nat) : Echoes (s c) := reach_links (P := Echoes) rfl step_echoes h c

/-- A greeting and `k` heartbeats. -/
def beats (k : Nat) : List UInt8 :=
  getBytes (literal "Netty rocks!") ++ (List.replicate k (getBytes (literal "HEARTBEAT"))).flatten

theorem beats_succ (k : Nat) : beats (k + 1) = beats k ++ getBytes (literal "HEARTBEAT") := by
  rw [beats, beats, List.replicate_succ', List.flatten_append, List.append_assoc, List.flatten_singleton]

/-- Nothing of the client's is queued; it has sent nothing before its channel is active,
    then its greeting and heartbeats. -/
structure Greets (l : Link) : Prop where
  unflushed : l.client.unflushed = []
  inactive : l.active = false → l.sent = []
  active : l.active = true → ∃ k, l.sent = beats k

theorem step_greets (l : Link) (e : Event) (h : Greets l) : Greets (l.step e) := by
  cases e with
  | active =>
    rw [Link.step]
    split
    · exact h
    · rename_i ha
      have h0 : l.client.wire.sent = [] := h.inactive (by simpa using ha)
      refine ⟨rfl, fun hf => Bool.noConfusion hf, fun _ => ⟨0, ?_⟩⟩
      rw [Link.sent, ClientChannelActiveHandler.channelActive, writeAndFlush,
        Outbound.sent_writeAndFlush h.unflushed, h0]
      rfl
  | userEvent evt =>
    rw [Link.step]
    split
    · rename_i ha
      cases evt with
      | idleState =>
        obtain ⟨k, hk⟩ : ∃ k, l.client.wire.sent = beats k := h.active ha
        refine ⟨rfl, fun hf => Bool.noConfusion (ha.symm.trans hf), fun _ => ⟨k + 1, ?_⟩⟩
        rw [Link.sent, HeartbeatHandler.userEventTriggered, writeAndFlush,
          Outbound.sent_writeAndFlush h.unflushed, hk, beats_succ]
        rfl
      | other => exact h
    · exact h
  | channelRead n =>
    have hs : (l.step (.channelRead n)).sent = l.sent := Pipe.sent_take _ n
    exact ⟨h.unflushed, fun hf => hs ▸ h.inactive hf, fun ht => hs ▸ h.active ht⟩
  | channelReadComplete => exact ⟨h.unflushed, h.inactive, h.active⟩
  | clientRead n => exact ⟨h.unflushed, h.inactive, h.active⟩

/-- What an active client has sent is its greeting and whole heartbeats. -/
theorem sent_eq {s : St} (h : Reach s) {c : Nat} (ha : (s c).active = true) : ∃ k, (s c).sent = beats k :=
  (reach_links (P := Greets) ⟨rfl, fun _ => rfl, fun ht => Bool.noConfusion ht⟩ step_greets h c).active ha

/-! ## The echo -/

/-- In every state of every run, what a client has received is a start of what it has
    sent itself; after a read completion on its channel, all that was read from it has
    been flushed back to it; and what an active client has sent is its greeting and whole
    heartbeats. -/
theorem echo_own (s : St) (h : Reach s) (c : Nat) :
    (s c).received <+: (s c).sent ∧
      (step s c .channelReadComplete c).returned = (step s c .channelReadComplete c).read ∧
      ((s c).active = true → ∃ k, (s c).sent = beats k) := by
  have hi := inv h c
  refine ⟨?_, ?_, sent_eq h⟩
  · have hreceived : (s c).received <+: (s c).server.written := (s c).server.received_prefix
    rw [hi] at hreceived
    exact hreceived.trans (s c).client.wire.received_prefix
  · have hflush := inv (.step c .channelReadComplete h) c
    rw [step_same] at hflush ⊢
    rw [← show _ = _ from hflush, Link.returned, Link.step, EchoServerHandler.channelReadComplete, writeAndFlush,
      Outbound.writeAndFlush_eq, Outbound.sent_flush, Outbound.written_flush]

/-- Two clients; the first one's greeting is read in two pieces, the second of them not
    flushed yet. -/
def twoClients : St :=
  [(0, Event.active), (1, .active), (0, .channelRead 5), (0, .channelReadComplete), (1, .userEvent .idleState),
    (0, .channelRead 100), (0, .clientRead 3), (1, .channelRead 20)].foldl (fun s e => step s e.1 e.2) init

theorem reach_twoClients : Reach twoClients :=
  .step 1 _ (.step 0 _ (.step 0 _ (.step 1 _ (.step 0 _ (.step 0 _ (.step 1 _ (.step 0 _ .init)))))))

/-- The first has three bytes back, the second nothing; both were read in full. -/
theorem echo_own_twoClients :
    (twoClients 0).received = getBytes (literal "Net") ∧ (twoClients 1).received = [] ∧
      (twoClients 0).read = beats 0 ∧ (twoClients 1).sent = beats 1 ∧
      ((twoClients 0).received <+: (twoClients 0).sent ∧
        (step twoClients 0 .channelReadComplete 0).returned = (step twoClients 0 .channelReadComplete 0).read ∧
        ((twoClients 0).active = true → ∃ k, (twoClients 0).sent = beats k)) :=
  ⟨by decide +kernel, by decide +kernel, by decide +kernel, by decide +kernel, echo_own twoClients reach_twoClients 0⟩

end NettyStudy.Echo.Bytes
