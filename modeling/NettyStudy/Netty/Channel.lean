/-
  NettyStudy.Netty.Channel — a channel's ways in and out as first-in first-out lines. A
  `Pipe` is one direction of a connection: what has come out, and what is on its way. An
  `Outbound` is a channel's way out: a write queues, a flush puts everything queued into
  the pipe, the other end takes from it as much at a time as it gets.

  What was put into a line is not stored: it is what has come out followed by what has
  not, so nothing is lost, repeated or reordered by construction.

  Proved: `Pipe.sent` and `Outbound.written` grow by exactly what is put in and by nothing
  else; `Outbound.received_prefix`, what has come out is a start of what was flushed, and
  that of what was written.
-/

import Mathlib.Data.List.Basic

namespace NettyStudy.Netty

structure Pipe (α : Type) where
  received : List α
  transit : List α

/-- A channel's queue of writes and the pipe they are flushed into. -/
structure Outbound (α : Type) where
  unflushed : List α
  wire : Pipe α

variable {α : Type}

namespace Pipe

def empty : Pipe α := ⟨[], []⟩

/-- Everything put in so far. -/
def sent (p : Pipe α) : List α := p.received ++ p.transit

def push (p : Pipe α) (xs : List α) : Pipe α := { p with transit := p.transit ++ xs }

/-- What the other end gets when it takes the next `n`. -/
def next (p : Pipe α) (n : Nat) : List α := p.transit.take n

def take (p : Pipe α) (n : Nat) : Pipe α := ⟨p.received ++ p.next n, p.transit.drop n⟩

@[simp] theorem sent_push (p : Pipe α) (xs : List α) : (p.push xs).sent = p.sent ++ xs :=
  (List.append_assoc _ _ _).symm

@[simp] theorem sent_take (p : Pipe α) (n : Nat) : (p.take n).sent = p.sent := by
  simp [sent, take, next, List.append_assoc]

@[simp] theorem received_take (p : Pipe α) (n : Nat) : (p.take n).received = p.received ++ p.next n := rfl

theorem received_prefix (p : Pipe α) : p.received <+: p.sent := List.prefix_append _ _

/-- With nothing in transit everything has come out. -/
theorem received_eq {p : Pipe α} (h : p.transit = []) : p.received = p.sent := by
  rw [sent, h, List.append_nil]

end Pipe

namespace Outbound

def empty : Outbound α := ⟨[], .empty⟩

def write (o : Outbound α) (xs : List α) : Outbound α := { o with unflushed := o.unflushed ++ xs }

def flush (o : Outbound α) : Outbound α := ⟨[], o.wire.push o.unflushed⟩

def writeAndFlush (o : Outbound α) (xs : List α) : Outbound α := (o.write xs).flush

/-- The other end takes the next `n`. -/
def take (o : Outbound α) (n : Nat) : Outbound α := { o with wire := o.wire.take n }

/-- A close drops what is queued. -/
def close (o : Outbound α) : Outbound α := { o with unflushed := [] }

/-- Everything written so far, flushed or not. -/
def written (o : Outbound α) : List α := o.wire.sent ++ o.unflushed

@[simp] theorem written_write (o : Outbound α) (xs : List α) : (o.write xs).written = o.written ++ xs :=
  (List.append_assoc _ _ _).symm

@[simp] theorem written_flush (o : Outbound α) : o.flush.written = o.written := by
  simp [written, flush]

/-- A flush leaves nothing behind. -/
@[simp] theorem sent_flush (o : Outbound α) : o.flush.wire.sent = o.written := Pipe.sent_push _ _

@[simp] theorem written_take (o : Outbound α) (n : Nat) : (o.take n).written = o.written := by
  simp [written, take]

@[simp] theorem wire_take (o : Outbound α) (n : Nat) : (o.take n).wire = o.wire.take n := rfl

/-- With nothing queued everything written has been flushed. -/
theorem written_eq {o : Outbound α} (h : o.unflushed = []) : o.written = o.wire.sent := by
  rw [written, h, List.append_nil]

@[simp] theorem writeAndFlush_eq (o : Outbound α) (xs : List α) : o.writeAndFlush xs = (o.write xs).flush := rfl

theorem sent_writeAndFlush {o : Outbound α} (h : o.unflushed = []) (xs : List α) :
    (o.writeAndFlush xs).wire.sent = o.wire.sent ++ xs := by
  rw [writeAndFlush_eq, sent_flush, written_write, written_eq h]

/-- Writes one after the other queue what one write of all of it does. -/
theorem foldl_write {β : Type} (f : β → List α) (xs : List β) :
    ∀ o : Outbound α, xs.foldl (fun o x => o.write (f x)) o = o.write (xs.flatMap f) := by
  induction xs with
  | nil => intro o; simp [write]
  | cons x xs ih =>
    intro o
    rw [List.foldl_cons, ih]
    simp [write]

theorem sent_prefix (o : Outbound α) : o.wire.sent <+: o.written := List.prefix_append _ _

/-- What has come out is a start of everything written. -/
theorem received_prefix (o : Outbound α) : o.wire.received <+: o.written :=
  o.wire.received_prefix.trans o.sent_prefix

end Outbound

/-- What IdleStateHandler and other handlers send down the pipeline. -/
inductive UserEvent where
  | idleState
  | other

end NettyStudy.Netty
