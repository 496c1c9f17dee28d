/-
  NettyStudy.Seria.Transport — a pair of handlers down to the bytes of their connection:
  decoders, encoders and the handler at both ends. TCP delivers the bytes of each direction
  in order, as many at a time as it likes. An exception closes the channel, and a closed one
  reads and writes nothing more. What is logged is left out.

  Proved, for every pair of handlers and codecs that decode what they encode, over every
  interleaving of the two ends' events:
  - `refines_step`, `refines_run`: the ends do what `NettyStudy.Seria.Subscribe` says of
    objects, a read of bytes being a read of some number of objects, and never close.
  - `correlates`: however the bytes are cut, the requests read and the responses received
    are the first ones; all of them once no byte is on its way.
-/

import NettyStudy.Seria.Subscribe
import NettyStudy.Netty.Codec

namespace NettyStudy.Seria.Transport

open NettyStudy.Netty

/-- The codecs of a pair's pipelines. -/
structure Codecs (P : Pair) where
  requests : Codec P.Req
  responses : Codec P.Resp

/-- They are made for what the pair's handlers send. -/
structure Codecs.Serves {P : Pair} (T : Codecs P) : Prop where
  subReq : ∀ i, T.requests.Sent (P.subReq i)
  resp : ∀ i, T.responses.Sent (P.resp i)

/-! ## The system -/

/-- One end of the connection: what its frame decoder holds, what its handler has been
    given, its way out. -/
structure End (In : Type) where
  cumulation : Option Held
  read : List In
  out : Outbound UInt8
  closed : Bool

namespace End

variable {In Out : Type}

def init : End In := ⟨none, [], .empty, false⟩

/-- A write of a closed channel fails. -/
def write (C : Codec Out) (e : End In) (m : Out) : End In := if e.closed then e else { e with out := C.write e.out m }

def flush (e : End In) : End In := if e.closed then e else { e with out := e.out.flush }

/-- `exceptionCaught` of both handlers: `ctx.close()`. -/
def exceptionCaught (e : End In) : End In := { e with closed := true, out := e.out.close }

def channelRead (C : Codec In) (handler : End In → In → End In) (e : End In) (data : List UInt8) : End In :=
  if e.closed then e
  else
    let (e, c) := C.channelRead handler exceptionCaught e e.cumulation data
    { e with cumulation := c }

end End

variable {P : Pair} (T : Codecs P)

namespace SubReqClientHandler

def channelActive (e : End P.Resp) : End P.Resp :=
  ((List.range 10).foldl (fun e i => e.write T.requests (P.subReq (Int32.ofNat i))) e).flush

def userEventTriggered (e : End P.Resp) : UserEvent → End P.Resp
  | .idleState => (e.write T.requests (P.subReq (-1000))).flush
  | .other => e

def channelRead (e : End P.Resp) (msg : P.Resp) : End P.Resp := { e with read := e.read ++ [msg] }

end SubReqClientHandler

def SubReqServerHandler.channelRead (e : End P.Req) (req : P.Req) : End P.Req :=
  (({ e with read := e.read ++ [req] }).write T.responses (P.resp (P.reqId req))).flush

variable (P) in
structure St where
  active : Bool
  client : End P.Resp
  server : End P.Req

def init : St P := ⟨false, .init, .init⟩

/-- Reads are of at most `n` bytes. -/
def step (s : St P) : Event → St P
  | .active => if s.active then s else { s with active := true, client := SubReqClientHandler.channelActive T s.client }
  | .userEvent evt => if s.active then { s with client := SubReqClientHandler.userEventTriggered T s.client evt } else s
  | .serverRead n =>
    { s with client := { s.client with out := s.client.out.take n }
             server := s.server.channelRead T.requests (SubReqServerHandler.channelRead T) (s.client.out.wire.next n) }
  | .clientRead n =>
    { s with server := { s.server with out := s.server.out.take n }
             client := s.client.channelRead T.responses SubReqClientHandler.channelRead (s.server.out.wire.next n) }

def run (es : List Event) : St P := es.foldl (step T) init

/-! ## What it does to objects -/

/-- The bytes of a system are those of its objects. -/
structure Refines (s : St P) (a : Seria.St P) : Prop where
  active : s.active = a.active
  requests : T.requests.Carries s.client.out s.server.cumulation a.requests
  read : s.server.read = a.requests.wire.received
  responses : T.responses.Carries s.server.out s.client.cumulation a.responses
  received : s.client.read = a.responses.wire.received
  client : s.client.closed = false
  server : s.server.closed = false

/-- The same event, but for how much is read. -/
inductive Matches : Event → Event → Prop
  | active : Matches .active .active
  | userEvent (evt : UserEvent) : Matches (.userEvent evt) (.userEvent evt)
  | serverRead (n k : Nat) : Matches (.serverRead n) (.serverRead k)
  | clientRead (n k : Nat) : Matches (.clientRead n) (.clientRead k)

variable {T}

theorem refines_init : Refines T init (Seria.init P) :=
  ⟨rfl, Codec.carries_empty, rfl, Codec.carries_empty, rfl, rfl, rfl⟩

section
variable {In Out : Type} {e : End In} {o : Outbound UInt8} {c : Option Held}

theorem write_eq (he : e.closed = false) (C : Codec Out) (m : Out) :
    e.write C m = { e with out := C.write e.out m } := by
  rw [End.write, he]
  rfl

theorem flush_eq (he : e.closed = false) : e.flush = { e with out := e.out.flush } := by
  rw [End.flush, he]
  rfl

variable {C : Codec Out} {p : Outbound Out}

theorem carries_writeAndFlush (he : e.closed = false) (h : C.Carries e.out c p) {m : Out} (hm : C.Sent m) :
    ∃ o, (e.write C m).flush = { e with out := o } ∧ C.Carries o c (p.writeAndFlush [m]) := by
  refine ⟨(C.write e.out m).flush, ?_, (h.write hm).flush⟩
  rw [write_eq he, flush_eq (by exact he)]

/-- Writes one after the other, and a flush. -/
theorem carries_writes {β : Type} {f : β → Out} (hf : ∀ x, C.Sent (f x)) (xs : List β) :
    ∀ {e : End In} {p : Outbound Out}, e.closed = false → C.Carries e.out c p →
      ∃ o, (xs.foldl (fun e x => e.write C (f x)) e).flush = { e with out := o } ∧
        C.Carries o c (xs.foldl (fun p x => p.write [f x]) p).flush := by
  induction xs with
  | nil => exact fun he h => ⟨_, flush_eq he, h.flush⟩
  | cons x xs ih =>
    intro e p he h
    obtain ⟨o, ho, hc⟩ := ih (e := e.write C (f x)) (by rw [write_eq he]; exact he)
      (by rw [write_eq he]; exact h.write (hf x))
    refine ⟨o, ?_, hc⟩
    rw [List.foldl_cons, ho, write_eq he]

/-- A read of an open end hands its handler some objects. -/
theorem channelRead_eq {C : Codec In} {p : Outbound In} (he : e.closed = false) (h : C.Carries o e.cumulation p)
    (handler : End In → In → End In) (n : Nat) :
    ∃ k c', e.channelRead C handler (o.wire.next n) = { (p.wire.next k).foldl handler e with cumulation := c' } ∧
      C.Carries (o.take n) c' (p.take k) ∧ ∀ m ∈ p.wire.next k, C.Sent m := by
  obtain ⟨k, c', hr, hc, hs⟩ := h.channelRead handler End.exceptionCaught e n
  refine ⟨k, c', ?_, hc, hs⟩
  rw [End.channelRead, he, if_neg Bool.false_ne_true, hr]

end

/-- The server answers the objects it is handed. -/
theorem serverReads (hT : T.Serves) {c : Option Held} (reqs : List P.Req) :
    ∀ {e : End P.Req} {p : Outbound P.Resp}, e.closed = false → T.responses.Carries e.out c p →
      ∃ o, reqs.foldl (SubReqServerHandler.channelRead T) e = { e with read := e.read ++ reqs, out := o } ∧
        T.responses.Carries o c (reqs.foldl (Seria.SubReqServerHandler.channelRead P) p) ∧
        (reqs.foldl (Seria.SubReqServerHandler.channelRead P) p).wire.received = p.wire.received := by
  induction reqs with
  | nil => exact fun _ h => ⟨_, by rw [List.append_nil]; rfl, h, rfl⟩
  | cons req reqs ih =>
    intro e p he h
    obtain ⟨o1, ho1, hc1⟩ := carries_writeAndFlush (e := { e with read := e.read ++ [req] }) he h
      (hT.resp (P.reqId req))
    obtain ⟨o, ho, hc, hr⟩ := ih (e := { e with read := e.read ++ [req], out := o1 }) he hc1
    refine ⟨o, ?_, hc, hr⟩
    rw [List.foldl_cons, SubReqServerHandler.channelRead, ho1, ho, List.append_assoc]
    rfl

theorem clientReads (resps : List P.Resp) :
    ∀ e : End P.Resp, resps.foldl SubReqClientHandler.channelRead e = { e with read := e.read ++ resps } := by
  induction resps with
  | nil => exact fun e => by rw [List.append_nil]; rfl
  | cons resp resps ih =>
    intro e
    rw [List.foldl_cons, ih, SubReqClientHandler.channelRead, List.append_assoc]
    rfl

/-- A step of the bytes is a step of the objects. -/
theorem refines_step (hT : T.Serves) {s : St P} {a : Seria.St P} (h : Refines T s a) (e : Event) :
    ∃ e', Matches e e' ∧ Refines T (step T s e) (Seria.step P a e') := by
  cases e with
  | active =>
    refine ⟨.active, .active, ?_⟩
    rw [step, Seria.step, h.active]
    split
    · exact h
    · obtain ⟨o, ho, hc⟩ := carries_writes (C := T.requests) (f := fun i => P.subReq (Int32.ofNat i))
        (fun i => hT.subReq (Int32.ofNat i)) (List.range 10) h.client h.requests
      rw [SubReqClientHandler.channelActive, ho]
      exact ⟨rfl, hc, h.read, h.responses, h.received, h.client, h.server⟩
  | userEvent evt =>
    refine ⟨.userEvent evt, .userEvent evt, ?_⟩
    rw [step, Seria.step, h.active]
    split
    · cases evt with
      | idleState =>
        obtain ⟨o, ho, hc⟩ := carries_writeAndFlush (C := T.requests) h.client h.requests (hT.subReq (-1000))
        rw [SubReqClientHandler.userEventTriggered, ho]
        exact ⟨rfl, hc, h.read, h.responses, h.received, h.client, h.server⟩
      | other => exact ⟨rfl, h.requests, h.read, h.responses, h.received, h.client, h.server⟩
    · exact h
  | serverRead n =>
    obtain ⟨k, c', hr, hc, -⟩ := channelRead_eq h.server h.requests (SubReqServerHandler.channelRead T) n
    obtain ⟨o, ho, hresp, hreceived⟩ := serverReads hT (a.requests.wire.next k) h.server h.responses
    refine ⟨.serverRead k, .serverRead n k, ?_⟩
    rw [step, Seria.step, hr, ho]
    exact ⟨h.active, hc, congrArg (· ++ a.requests.wire.next k) h.read, hresp,
      h.received.trans hreceived.symm, h.client,
      h.server⟩
  | clientRead n =>
    obtain ⟨k, c', hr, hc, -⟩ := channelRead_eq h.client h.responses SubReqClientHandler.channelRead n
    refine ⟨.clientRead k, .clientRead n k, ?_⟩
    rw [step, Seria.step, hr, clientReads]
    exact ⟨h.active, h.requests, h.read, hc, congrArg (· ++ a.responses.wire.next k) h.received, h.client, h.server⟩

theorem refines_run (hT : T.Serves) (es : List Event) : ∀ {s : St P} {a : Seria.St P}, Refines T s a →
    ∃ es', List.Forall₂ Matches es es' ∧ Refines T (es.foldl (step T) s) (es'.foldl (Seria.step P) a) := by
  induction es with
  | nil => exact fun h => ⟨[], .nil, h⟩
  | cons e es ih =>
    intro s a h
    obtain ⟨e', he, hs⟩ := refines_step hT h e
    obtain ⟨es', hes, hrun⟩ := ih hs
    exact ⟨e' :: es', .cons he hes, hrun⟩

/-! ## Correlation -/

/-- Whether the client is active after an event. -/
def activeAfter (active : Bool) : Event → Bool
  | .active => true
  | _ => active

/-- The ids it sends at the event. -/
def sendsAt (active : Bool) : Event → List Int32
  | .active => if active then [] else batch 0
  | .userEvent .idleState => if active then [-1000] else []
  | _ => []

/-- The ids it sends over the events. -/
def sends : Bool → List Event → List Int32
  | _, [] => []
  | active, e :: es => sendsAt active e ++ sends (activeAfter active e) es

/-- How much is read at a time makes no difference to what is sent. -/
theorem sends_matches {es es' : List Event} (h : List.Forall₂ Matches es es') :
    ∀ active, sends active es = sends active es' := by
  induction h with
  | nil => exact fun _ => rfl
  | cons he _ ih =>
    intro active
    rw [sends, sends]
    cases he with
    | active => rw [ih]
    | userEvent evt => rw [ih]
    | serverRead n k => exact ih _
    | clientRead n k => exact ih _

/-- What an event adds to what the client has sent. -/
theorem sent_step {a : Seria.St P} (hu : a.requests.unflushed = []) (e : Event) :
    (Seria.step P a e).requests.wire.sent = a.requests.wire.sent ++ (sendsAt a.active e).map P.subReq ∧
      (Seria.step P a e).active = activeAfter a.active e ∧ (Seria.step P a e).requests.unflushed = [] := by
  cases e with
  | active =>
    rw [Seria.step, sendsAt, activeAfter]
    split
    · exact ⟨(List.append_nil _).symm, by assumption, hu⟩
    · refine ⟨?_, rfl, rfl⟩
      rw [channelActive_eq, Outbound.sent_writeAndFlush hu]
      simp [batch, Function.comp_def]
  | userEvent evt =>
    rw [Seria.step]
    cases evt with
    | idleState =>
      rw [sendsAt]
      split
      · exact ⟨Outbound.sent_writeAndFlush hu _, rfl, rfl⟩
      · exact ⟨(List.append_nil _).symm, rfl, hu⟩
    | other => split <;> exact ⟨(List.append_nil _).symm, rfl, hu⟩
  | serverRead n => exact ⟨by simp [Seria.step, sendsAt], rfl, hu⟩
  | clientRead n => exact ⟨(List.append_nil _).symm, rfl, hu⟩

theorem sent_foldl (es : List Event) : ∀ {a : Seria.St P}, a.requests.unflushed = [] →
    (es.foldl (Seria.step P) a).requests.wire.sent = a.requests.wire.sent ++ (sends a.active es).map P.subReq := by
  induction es with
  | nil => exact fun _ => (List.append_nil _).symm
  | cons e es ih =>
    intro a hu
    obtain ⟨hs, ha, hu'⟩ := sent_step hu e
    rw [List.foldl_cons, ih hu', hs, ha, List.append_assoc, sends, List.map_append]

/-- The server has flushed the answers to what it has read, and no others. -/
def Answered (a : Seria.St P) : Prop :=
  a.responses.wire.sent = a.requests.wire.received.map (fun req => P.resp (P.reqId req)) ∧ a.responses.unflushed = []

theorem answered_step {a : Seria.St P} (h : Answered a) (e : Event) : Answered (Seria.step P a e) := by
  have hreads : ∀ (reqs : List P.Req) {p : Outbound P.Resp}, p.unflushed = [] →
      (reqs.foldl (Seria.SubReqServerHandler.channelRead P) p).wire.sent =
        p.wire.sent ++ reqs.map (fun req => P.resp (P.reqId req)) ∧
      (reqs.foldl (Seria.SubReqServerHandler.channelRead P) p).unflushed = [] := by
    intro reqs
    induction reqs with
    | nil => exact fun hu => ⟨(List.append_nil _).symm, hu⟩
    | cons req reqs ih =>
      intro p hu
      obtain ⟨hs, hu'⟩ := ih (p := Seria.SubReqServerHandler.channelRead P p req) rfl
      refine ⟨?_, hu'⟩
      rw [List.foldl_cons, hs, Seria.SubReqServerHandler.channelRead, Outbound.sent_writeAndFlush hu, List.append_assoc]
      rfl
  cases e with
  | active => rw [Seria.step]; split <;> exact h
  | userEvent evt =>
    rw [Seria.step]
    split
    · cases evt with
      | idleState => exact h
      | other => exact h
    · exact h
  | serverRead n =>
    obtain ⟨hs, hu⟩ := hreads (a.requests.wire.next n) h.2
    refine ⟨?_, hu⟩
    rw [Seria.step, hs, h.1, ← List.map_append]
    rfl
  | clientRead n => exact ⟨(Pipe.sent_take _ n).trans h.1, h.2⟩

theorem answered_foldl (es : List Event) : ∀ {a : Seria.St P}, Answered a → Answered (es.foldl (Seria.step P) a) := by
  induction es with
  | nil => exact fun h => h
  | cons e es ih => exact fun h => ih (answered_step h e)

/-- Over any events the requests read are a start of those sent, and all of them when none
    of the client's bytes is on its way; the responses received are a start of the answers
    to these, and all of them when none of the server's bytes is. -/
theorem correlates (hT : T.Serves) (es : List Event) :
    (run T es).server.read <+: (sends false es).map P.subReq ∧
    (run T es).client.read <+: (run T es).server.read.map (fun req => P.resp (P.reqId req)) ∧
    ((run T es).client.out.wire.transit = [] → (run T es).server.read = (sends false es).map P.subReq) ∧
    ((run T es).server.out.wire.transit = [] →
      (run T es).client.read = (run T es).server.read.map fun req => P.resp (P.reqId req)) := by
  obtain ⟨es', hes, hr⟩ := refines_run hT es refines_init
  have hsent := sent_foldl es' (a := Seria.init P) rfl
  have hanswered := (answered_foldl es' (a := Seria.init P) ⟨rfl, rfl⟩).1
  rw [← sends_matches hes] at hsent
  rw [run]
  generalize es.foldl (step T) init = s at hr
  generalize es'.foldl (Seria.step P) (Seria.init P) = a at hr hsent hanswered
  rw [← hr.read] at hanswered
  change a.requests.wire.sent = (sends false es).map P.subReq at hsent
  refine ⟨?_, ?_, fun ht => ?_, fun ht => ?_⟩
  · rw [hr.read, ← hsent]
    exact a.requests.wire.received_prefix
  · rw [hr.received, ← hanswered]
    exact a.responses.wire.received_prefix
  · rw [hr.read, ← hsent]
    exact Pipe.received_eq (hr.requests.transit_eq_nil ht)
  · rw [hr.received, ← hanswered]
    exact Pipe.received_eq (hr.responses.transit_eq_nil ht)

end NettyStudy.Seria.Transport
