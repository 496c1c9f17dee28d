/-
  NettyStudy.Netty.Pipeline — the handlers of a channel in a row, the transport's end first.
  What comes in starts there and gets as far as the handlers fire it on. What a handler writes
  through its context passes the handlers in front of it, what it writes through the channel
  passes all of them; the transport sends buffers, and a write of anything else fails. What a
  handler throws goes to its own `exceptionCaught`.

  A handler that closes the channel makes it inactive, which is fired once the event is over.
  A closed channel takes no event and sends nothing.

  Proved, for all kinds of handlers:
  - `toHead_passes`: a write that no handler changes gets to the transport as it is.
  - `Contract.holds_run`: if each kind of handler does as a contract says with what gets to it,
    everything a channel ever did was done by a handler of its pipeline, as the contract says
    of that place in it.
-/

import NettyStudy.Netty.ByteToMessageDecoder
import NettyStudy.Netty.Channel

namespace NettyStudy.Netty

inductive Inbound (α ε : Type) where
  | active
  | read (msg : α)
  | userEvent (evt : UserEvent)
  | inactive
  | exceptionCaught (cause : ε)

/-- What a handler calls on its context or its channel, or logs. -/
inductive Call (α ε ℓ : Type) where
  | log (line : ℓ)
  | fire (ev : Inbound α ε)
  | write (msg : α)
  | channelWrite (msg : α)
  | flush
  | close

/-- What a handler does with an event, and what it throws then. -/
structure Invoked (σ α ε ℓ : Type) where
  state : σ
  calls : List (Call α ε ℓ)
  thrown : Option ε

/-- An event a handler does not override. -/
def passOn {σ α ε ℓ : Type} (s : σ) (ev : Inbound α ε) : Invoked σ α ε ℓ := ⟨s, [.fire ev], none⟩

/-- A decoder as a handler: buffers are decoded, objects of other kinds passed on. What is
    decoded at the close is fired before the close is. -/
def Decoder.invoke {α β ℓ : Type} (d : Decoder β) (bytes : α → Option (List UInt8)) (obj : β → α) (c : Option Held) :
    Inbound α Throwable → Invoked (Option Held) α Throwable ℓ
  | .read msg =>
    match bytes msg with
    | some data =>
      let r := channelRead d c data
      ⟨r.cumulation, r.fired.map (fun x => .fire (.read (obj x))), r.thrown⟩
    | none => passOn c (.read msg)
  | .inactive =>
    let r := channelInputClosed d c
    ⟨none, r.fired.map (fun x => .fire (.read (obj x))) ++ [.fire .inactive], r.thrown⟩
  | ev => passOn c ev

/-- A decoder fires the event, or what it decodes. -/
theorem Decoder.invoke_calls {α β ℓ : Type} {d : Decoder β} {bytes : α → Option (List UInt8)} {obj : β → α}
    {c : Option Held} {ev : Inbound α Throwable} {call : Call α Throwable ℓ}
    (h : call ∈ (d.invoke bytes obj c ev).calls) : call = .fire ev ∨ ∃ x, call = .fire (.read x) := by
  have hfired : ∀ xs : List β, call ∈ xs.map (fun x => Call.fire (.read (obj x))) → ∃ x, call = .fire (.read x) := by
    intro xs hx
    obtain ⟨x, -, rfl⟩ := List.mem_map.mp hx
    exact ⟨obj x, rfl⟩
  cases ev with
  | read msg =>
    rw [invoke] at h
    split at h
    · exact .inr (hfired _ h)
    · exact .inl (List.mem_singleton.mp h)
  | inactive =>
    rcases List.mem_append.mp h with h | h
    · exact .inr (hfired _ h)
    · exact .inl (List.mem_singleton.mp h)
  | _ => exact .inl (List.mem_singleton.mp h)

/-- Kinds of handlers: what they keep, what they do with what comes in, what they make of
    what is written past them; a write they throw at fails. -/
structure Handlers (κ α ε ℓ : Type) where
  State : κ → Type
  init : ∀ h, State h
  invoke : ∀ h, State h → Inbound α ε → Invoked (State h) α ε ℓ
  write : κ → α → Option (List α)
  /-- The bytes of a buffer. -/
  bytes : α → Option (List UInt8)

/-- What leaves the pipeline. -/
inductive Effect (α ℓ : Type) where
  | log (line : ℓ)
  | write (msg : α)
  | flush
  | close

def Effect.isClose {α ℓ : Type} : Effect α ℓ → Bool
  | .close => true
  | _ => false

namespace Handlers

variable {κ α ε ℓ : Type} (H : Handlers κ α ε ℓ)

/-- The handler's own `exceptionCaught` gets what it throws. -/
def handle (h : κ) (s : H.State h) (ev : Inbound α ε) : H.State h × List (Call α ε ℓ) :=
  let r := H.invoke h s ev
  match r.thrown with
  | none => (r.state, r.calls)
  | some e =>
    let r' := H.invoke h r.state (.exceptionCaught e)
    (r'.state, r.calls ++ r'.calls)

/-- What gets to the transport of a message written past these handlers, the nearest first. -/
def toHead : List κ → α → List α
  | [], msg => [msg]
  | h :: hs, msg =>
    match H.write h msg with
    | none => []
    | some msgs => msgs.flatMap (toHead hs)

@[reducible] def States : List κ → Type
  | [] => Unit
  | h :: hs => H.State h × States hs

def inits : (hs : List κ) → H.States hs
  | [] => ()
  | h :: hs => (H.init h, inits hs)

/-- What a call lets leave the pipeline, where `ctx` is what gets through of a write from here
    and `channel` of one from the end. -/
def effects (ctx channel : α → List α) : Call α ε ℓ → List (Effect α ℓ)
  | .log line => [.log line]
  | .fire _ => []
  | .write msg => (ctx msg).map .write
  | .channelWrite msg => (channel msg).map .write
  | .flush => [.flush]
  | .close => [.close]

/-- A handler's calls one after the other; `next` is the pipeline behind it. -/
def perform {S : Type} (next : S → Inbound α ε → S × List (Effect α ℓ)) (ctx channel : α → List α) :
    S → List (Call α ε ℓ) → S × List (Effect α ℓ)
  | st, [] => (st, [])
  | st, c :: cs =>
    let (st, es) := match c with
      | .fire ev => next st ev
      | c => (st, effects ctx channel c)
    let (st, es') := perform next ctx channel st cs
    (st, es ++ es')

/-- An event gets to the handlers `hs` of a pipeline. `before` are those in front of them and
    `all` those of the pipeline, both from behind. -/
def fire (all : List κ) : (hs before : List κ) → H.States hs → Inbound α ε → H.States hs × List (Effect α ℓ)
  | [], _, st, _ => (st, [])
  | h :: hs, before, (s, st), ev =>
    let (s, cs) := H.handle h s ev
    let (st, es) := perform (fire all hs (h :: before)) (H.toHead before) (H.toHead all) st cs
    ((s, st), es)

end Handlers

/-- A channel with a pipeline, and everything that has left the pipeline. -/
structure Chan {κ α ε ℓ : Type} (H : Handlers κ α ε ℓ) (hs : List κ) where
  isOpen : Bool
  states : H.States hs
  out : Outbound UInt8
  trace : List (Effect α ℓ)

namespace Chan

variable {κ α ε ℓ : Type} {H : Handlers κ α ε ℓ} {hs : List κ}

def init : Chan H hs := ⟨true, H.inits hs, .empty, []⟩

/-- What the transport does. -/
def apply (c : Chan H hs) (e : Effect α ℓ) : Chan H hs :=
  let c := { c with trace := c.trace ++ [e] }
  if c.isOpen then
    match e with
    | .log _ => c
    | .write msg =>
      match H.bytes msg with
      | some data => { c with out := c.out.write data }
      | none => c
    | .flush => { c with out := c.out.flush }
    | .close => { c with isOpen := false, out := c.out.close }
  else c

def fire (c : Chan H hs) (ev : Inbound α ε) : Chan H hs :=
  let (states, es) := H.fire hs.reverse hs [] c.states ev
  es.foldl apply { c with states := states }

/-- What happens to a channel. -/
inductive Event (α : Type) where
  | active
  | read (msg : α)
  | userEvent (evt : UserEvent)
  /-- The other end closes. -/
  | shut

def Event.inbound : Event α → Option (Inbound α ε)
  | .active => some .active
  | .read msg => some (.read msg)
  | .userEvent evt => some (.userEvent evt)
  | .shut => none

def step (c : Chan H hs) (e : Event α) : Chan H hs :=
  if c.isOpen then
    let c := match e.inbound with
      | some ev => c.fire ev
      | none => c.apply .close
    if c.isOpen then c else c.fire .inactive
  else c

def run (H : Handlers κ α ε ℓ) (hs : List κ) (es : List (Event α)) : Chan H hs := es.foldl step init

/-- The events up to the one that closes the channel. -/
def upToClose (c : Chan H hs) : List (Event α) → List (Event α)
  | [] => []
  | e :: es => if c.isOpen then e :: upToClose (c.step e) es else []

end Chan

/-! ## Writes -/

namespace Handlers

variable {κ α ε ℓ : Type} (H : Handlers κ α ε ℓ)

/-- What no handler changes gets to the transport as it is. -/
theorem toHead_passes {hs : List κ} {msg : α} (h : ∀ k ∈ hs, H.write k msg = some [msg]) :
    H.toHead hs msg = [msg] := by
  induction hs with
  | nil => rfl
  | cons k hs ih =>
    have ih := ih fun k' hk => h k' (List.mem_cons_of_mem k hk)
    simp [toHead, h k List.mem_cons_self, ih]

/-! ## Runs of a pipeline -/

section
variable {H} {h : κ} {s : H.State h} {ev : Inbound α ε}

theorem handle_of_none (hr : (H.invoke h s ev).thrown = none) :
    H.handle h s ev = ((H.invoke h s ev).state, (H.invoke h s ev).calls) := by
  simp only [handle, hr]

theorem handle_of_some {e : ε} (hr : (H.invoke h s ev).thrown = some e) :
    H.handle h s ev = ((H.invoke h (H.invoke h s ev).state (.exceptionCaught e)).state,
      (H.invoke h s ev).calls ++ (H.invoke h (H.invoke h s ev).state (.exceptionCaught e)).calls) := by
  simp only [handle, hr]

/-- What a handler throws that does not override `exceptionCaught` is fired on. -/
theorem handle_passOn (hc : ∀ s e, H.invoke h s (.exceptionCaught e) = passOn s (.exceptionCaught e)) :
    H.handle h s ev = ((H.invoke h s ev).state, (H.invoke h s ev).calls ++
      (H.invoke h s ev).thrown.toList.map fun e => .fire (.exceptionCaught e)) := by
  cases hr : (H.invoke h s ev).thrown with
  | none => rw [handle_of_none hr, Option.toList_none, List.map_nil, List.append_nil]
  | some e =>
    rw [handle_of_some hr, hc]
    rfl

end

theorem perform_append {S : Type} (next : S → Inbound α ε → S × List (Effect α ℓ)) (ctx channel : α → List α)
    (cs cs' : List (Call α ε ℓ)) : ∀ st : S, perform next ctx channel st (cs ++ cs') =
      let r := perform next ctx channel st cs
      let r' := perform next ctx channel r.1 cs'
      (r'.1, r.2 ++ r'.2) := by
  induction cs with
  | nil => exact fun _ => rfl
  | cons c cs ih =>
    intro st
    simp only [List.cons_append, perform, ih, List.append_assoc]

theorem perform_logs {S : Type} (next : S → Inbound α ε → S × List (Effect α ℓ)) (ctx channel : α → List α) (st : S)
    (ls : List ℓ) : perform next ctx channel st (ls.map .log) = (st, ls.map .log) := by
  induction ls with
  | nil => rfl
  | cons l ls ih => simp [perform, ih, effects]

theorem perform_writes {S : Type} (next : S → Inbound α ε → S × List (Effect α ℓ)) (ctx channel : α → List α) (st : S)
    (msgs : List α) : perform next ctx channel st (msgs.map .write) = (st, (msgs.flatMap ctx).map .write) := by
  induction msgs with
  | nil => rfl
  | cons msg msgs ih => simp [perform, ih, effects]

/-- Events fired on one after the other. -/
theorem perform_fires {S β : Type} {next : S → Inbound α ε → S × List (Effect α ℓ)} {st : S} {f : β → Inbound α ε}
    {g : β → List (Effect α ℓ)} (h : ∀ x, next st (f x) = (st, g x)) (ctx channel : α → List α) (xs : List β) :
    perform next ctx channel st (xs.map fun x => .fire (f x)) = (st, xs.flatMap g) := by
  induction xs with
  | nil => rfl
  | cons x xs ih => simp [perform, h, ih]

theorem fire_handle {all hs before : List κ} {h : κ} {s s' : H.State h} {st : H.States hs} {ev : Inbound α ε}
    {cs : List (Call α ε ℓ)} (hh : H.handle h s ev = (s', cs)) :
    H.fire all (h :: hs) before (s, st) ev =
      let r := perform (H.fire all hs (h :: before)) (H.toHead before) (H.toHead all) st cs
      ((s', r.1), r.2) := by
  simp only [fire, hh]

/-- A handler that logs and fires the event on, as it is or as another. -/
theorem fire_on {all hs before : List κ} {h : κ} {s s' : H.State h} {st : H.States hs} {ev ev' : Inbound α ε}
    {ls : List ℓ} (hh : H.handle h s ev = (s', ls.map .log ++ [.fire ev'])) :
    H.fire all (h :: hs) before (s, st) ev = ((s', (H.fire all hs (h :: before) st ev').1),
      ls.map .log ++ (H.fire all hs (h :: before) st ev').2) := by
  simp only [fire, hh, perform_append, perform_logs, perform, List.append_nil]

/-- What holds of the state behind and of what leaves the pipeline, call by call. -/
theorem perform_rule {S : Type} (next : S → Inbound α ε → S × List (Effect α ℓ)) (ctx channel : α → List α)
    (P : S → Prop) (Q : Effect α ℓ → Prop) (cs : List (Call α ε ℓ))
    (hq : ∀ c ∈ cs, ∀ e ∈ effects ctx channel c, Q e)
    (hnext : ∀ ev, Call.fire ev ∈ cs → ∀ st, P st → P (next st ev).1 ∧ ∀ e ∈ (next st ev).2, Q e) :
    ∀ st, P st → P (perform next ctx channel st cs).1 ∧ ∀ e ∈ (perform next ctx channel st cs).2, Q e := by
  induction cs with
  | nil => exact fun st h => ⟨h, fun e he => absurd he List.not_mem_nil⟩
  | cons c cs ih =>
    intro st h
    have ih := ih (fun c hc => hq c (List.mem_cons_of_mem _ hc)) (fun ev hev => hnext ev (List.mem_cons_of_mem _ hev))
    have hc := hq c List.mem_cons_self
    obtain ⟨st1, es, hfirst, h1, hes⟩ : ∃ st1 es, (match c with
        | .fire ev => next st ev
        | c => (st, effects ctx channel c)) = (st1, es) ∧ P st1 ∧ ∀ e ∈ es, Q e := by
      cases c with
      | fire ev => exact ⟨_, _, rfl, hnext ev List.mem_cons_self st h⟩
      | _ => exact ⟨_, _, rfl, h, hc⟩
    obtain ⟨h2, hes'⟩ := ih st1 h1
    simp only [perform, hfirst]
    refine ⟨h2, fun e he => ?_⟩
    rcases List.mem_append.mp he with he | he
    · exact hes e he
    · exact hes' e he

end Handlers

namespace Chan

variable {κ α ε ℓ : Type} {H : Handlers κ α ε ℓ} {hs : List κ}

@[simp] theorem states_apply (c : Chan H hs) (e : Effect α ℓ) : (c.apply e).states = c.states := by
  unfold apply
  dsimp only
  split
  · cases e with
    | write msg => dsimp only; split <;> rfl
    | _ => rfl
  · rfl

@[simp] theorem trace_apply (c : Chan H hs) (e : Effect α ℓ) : (c.apply e).trace = c.trace ++ [e] := by
  unfold apply
  dsimp only
  split
  · cases e with
    | write msg => dsimp only; split <;> rfl
    | _ => rfl
  · rfl

theorem foldl_apply (es : List (Effect α ℓ)) : ∀ c : Chan H hs,
    (es.foldl apply c).states = c.states ∧ (es.foldl apply c).trace = c.trace ++ es := by
  induction es with
  | nil => exact fun c => ⟨rfl, (List.append_nil _).symm⟩
  | cons e es ih =>
    intro c
    obtain ⟨hs, ht⟩ := ih (c.apply e)
    exact ⟨by rw [List.foldl_cons, hs, states_apply], by rw [List.foldl_cons, ht, trace_apply, List.append_assoc]; rfl⟩

/-- Where something is written out, there was a buffer to write. -/
def Sent (c : Chan H hs) : Prop := c.out.written ≠ [] → ∃ msg data, Effect.write msg ∈ c.trace ∧ H.bytes msg = some data

theorem sent_apply {c : Chan H hs} (h : Sent c) (e : Effect α ℓ) : Sent (c.apply e) := by
  have hgrows : ∀ {out : Outbound UInt8}, (out.written ≠ [] → c.out.written ≠ []) → out.written ≠ [] →
      ∃ msg data, Effect.write msg ∈ c.trace ++ [e] ∧ H.bytes msg = some data := by
    intro out hout hne
    obtain ⟨msg, data, hmem, hb⟩ := h (hout hne)
    exact ⟨msg, data, List.mem_append_left _ hmem, hb⟩
  intro hne
  rw [trace_apply]
  unfold apply at hne
  dsimp only at hne
  split at hne
  · cases e with
    | log line => exact hgrows id hne
    | write msg =>
      dsimp only at hne
      split at hne
      · rename_i data hb
        exact ⟨msg, data, List.mem_append_right _ List.mem_cons_self, hb⟩
      · exact hgrows id hne
    | flush => exact hgrows (fun hf => by rwa [Outbound.written_flush] at hf) hne
    | close => exact hgrows (fun hc he => hc (by simp_all [Outbound.close, Outbound.written])) hne
  · exact hgrows id hne

theorem sent_fire {c : Chan H hs} (h : Sent c) (ev : Inbound α ε) : Sent (c.fire ev) := by
  have hall : ∀ (es : List (Effect α ℓ)) (c : Chan H hs), Sent c → Sent (es.foldl apply c) := by
    intro es
    induction es with
    | nil => exact fun _ h => h
    | cons e es ih => exact fun c h => ih _ (sent_apply h e)
  exact hall _ { c with states := _ } h

/-- Of what is written to an open channel the buffers are queued. -/
theorem foldl_writes (msgs : List α) : ∀ {c : Chan H hs}, c.isOpen = true → (msgs.map Effect.write).foldl apply c =
    { c with out := c.out.write (msgs.filterMap H.bytes).flatten, trace := c.trace ++ msgs.map .write } := by
  induction msgs with
  | nil => intro c _; simp [Outbound.write]
  | cons msg msgs ih =>
    intro c h
    have ha : c.apply (.write msg) =
        { c with out := c.out.write (H.bytes msg).toList.flatten, trace := c.trace ++ [.write msg] } := by
      unfold apply
      dsimp only
      rw [if_pos h]
      cases H.bytes msg <;> simp [Outbound.write]
    rw [List.map_cons, List.foldl_cons, ha, ih (by exact h)]
    cases hb : H.bytes msg <;> simp [Outbound.write, hb]

/-- Nothing comes of what a closed channel is told to do. -/
theorem foldl_closed (es : List (Effect α ℓ)) : ∀ {c : Chan H hs}, c.isOpen = false →
    es.foldl apply c = { c with trace := c.trace ++ es } := by
  induction es with
  | nil => intro c _; simp
  | cons e es ih =>
    intro c h
    have ha : c.apply e = { c with trace := c.trace ++ [e] } := by
      unfold apply
      dsimp only
      rw [h]
      rfl
    rw [List.foldl_cons, ha, ih (by exact h), List.append_assoc]
    rfl

/-- With nothing queued, a close leaves the way out as it is. -/
theorem out_closes {es : List (Effect α ℓ)} (h : ∀ e ∈ es, e = .close) : ∀ {c : Chan H hs}, c.out.unflushed = [] →
    (es.foldl apply c).out = c.out := by
  induction es with
  | nil => exact fun _ => rfl
  | cons e es ih =>
    intro c hu
    obtain rfl := h e List.mem_cons_self
    have ha : (c.apply .close).out = c.out := by
      unfold apply
      dsimp only
      split
      · rw [Outbound.close, ← hu]
      · rfl
    rw [List.foldl_cons, ih (fun e he => h e (List.mem_cons_of_mem _ he)) (by rw [ha]; exact hu), ha]

theorem isOpen_apply (c : Chan H hs) (e : Effect α ℓ) : (c.apply e).isOpen = (c.isOpen && !e.isClose) := by
  unfold apply
  dsimp only
  split
  · rename_i h
    cases e with
    | write msg => dsimp only; split <;> simp [h, Effect.isClose]
    | _ => simp [h, Effect.isClose]
  · rename_i h
    simp [h]

theorem isOpen_foldl (es : List (Effect α ℓ)) : ∀ c : Chan H hs,
    (es.foldl apply c).isOpen = (c.isOpen && es.all fun e => !e.isClose) := by
  induction es with
  | nil => intro c; simp
  | cons e es ih =>
    intro c
    rw [List.foldl_cons, ih, isOpen_apply, Bool.and_assoc, List.all_cons]

theorem foldl_logs (ls : List ℓ) : ∀ c : Chan H hs,
    (ls.map Effect.log).foldl apply c = { c with trace := c.trace ++ ls.map .log } := by
  induction ls with
  | nil => intro c; simp
  | cons l ls ih =>
    intro c
    have hl : c.apply (.log l) = { c with trace := c.trace ++ [.log l] } := by
      unfold apply
      dsimp only
      split <;> rfl
    rw [List.map_cons, List.foldl_cons, ih, hl]
    simp

/-- What holds at first and after every event that gets in and every close holds of a run. -/
theorem run_rule {P : Chan H hs → Prop} {A : Inbound α ε → Prop} (h0 : P init)
    (hfire : ∀ {c : Chan H hs} {ev : Inbound α ε}, A ev → P c → P (c.fire ev))
    (hclose : ∀ {c : Chan H hs}, P c → P (c.apply .close)) (hi : A .inactive) {es : List (Event α)}
    (hes : ∀ e ∈ es, ∀ ev, e.inbound = some ev → A ev) : P (run H hs es) := by
  have hstep : ∀ {c : Chan H hs} {e : Event α}, (∀ ev, e.inbound = some ev → A ev) → P c → P (c.step e) := by
    intro c e he h
    have hthen : ∀ c : Chan H hs, P c → P (if c.isOpen then c else c.fire .inactive) := by
      intro c hc
      split
      · exact hc
      · exact hfire hi hc
    rw [step]
    split
    · refine hthen _ ?_
      cases hev : (e.inbound : Option (Inbound α ε)) with
      | some ev => exact hfire (he ev hev) h
      | none => exact hclose h
    · exact h
  have hall : ∀ (es : List (Event α)), (∀ e ∈ es, ∀ ev, e.inbound = some ev → A ev) →
      ∀ c : Chan H hs, P c → P (es.foldl step c) := by
    intro es
    induction es with
    | nil => exact fun _ _ h => h
    | cons e es ih =>
      intro hes c h
      exact ih (fun e' he' => hes e' (List.mem_cons_of_mem e he')) _ (hstep (hes e List.mem_cons_self) h)
  exact hall es hes init h0

theorem sent_run (es : List (Event α)) : Sent (run H hs es) :=
  run_rule (P := Sent) (A := fun _ => True) (fun h => absurd rfl h) (fun _ h => sent_fire h _)
    (fun h => sent_apply h _) trivial fun _ _ _ _ => trivial

@[simp] theorem states_fire (c : Chan H hs) (ev : Inbound α ε) :
    (c.fire ev).states = (H.fire hs.reverse hs [] c.states ev).1 := (foldl_apply _ _).1

theorem isOpen_fire (c : Chan H hs) (ev : Inbound α ε) : (c.fire ev).isOpen =
    (c.isOpen && (H.fire hs.reverse hs [] c.states ev).2.all fun e => !e.isClose) := isOpen_foldl _ _

@[simp] theorem trace_fire (c : Chan H hs) (ev : Inbound α ε) :
    (c.fire ev).trace = c.trace ++ (H.fire hs.reverse hs [] c.states ev).2 := (foldl_apply _ _).2

/-! ## One event -/

section
variable {e : Event α} {ev : Inbound α ε}

theorem step_open {c : Chan H hs} (h : c.isOpen = true) (he : e.inbound = some ev) :
    c.step e = if (c.fire ev).isOpen then c.fire ev else (c.fire ev).fire .inactive := by
  rw [step, if_pos h, he]

theorem foldl_step_closed (es : List (Event α)) {c : Chan H hs} (h : c.isOpen = false) : es.foldl step c = c := by
  induction es with
  | nil => rfl
  | cons e es ih =>
    have hs : c.step e = c := by rw [step, h]; rfl
    rw [List.foldl_cons, hs, ih]

theorem upToClose_closed (es : List (Event α)) {c : Chan H hs} (h : c.isOpen = false) : upToClose c es = [] := by
  cases es with
  | nil => rfl
  | cons e es => simp [upToClose, h]

theorem run_concat (es : List (Event α)) (e : Event α) : run H hs (es ++ [e]) = (run H hs es).step e := by
  rw [run, List.foldl_append]
  rfl

/-- What leaves the pipeline at the first event is there whatever comes of it. -/
theorem mem_run_one (he : e.inbound = some ev) {x : Effect α ℓ}
    (hx : x ∈ (H.fire hs.reverse hs [] (H.inits hs) ev).2) : x ∈ (run H hs [e]).trace := by
  have hfire : x ∈ ((init : Chan H hs).fire ev).trace := by
    rw [trace_fire]
    exact hx
  show x ∈ (step init e).trace
  rw [step_open rfl he]
  split
  · exact hfire
  · rw [trace_fire]
    exact List.mem_append_left _ hfire

/-- A buffer written and flushed at the first event is sent. -/
theorem sent_run_one (he : e.inbound = some ev) {ls : List ℓ} {msg : α} {data : List UInt8}
    (hx : (H.fire hs.reverse hs [] (H.inits hs) ev).2 = ls.map Effect.log ++ [Effect.write msg, Effect.flush])
    (hb : H.bytes msg = some data) : (run H hs [e]).out.wire.sent = data := by
  have hf : (init : Chan H hs).fire ev = (ls.map Effect.log ++ [Effect.write msg, Effect.flush]).foldl apply
      { (init : Chan H hs) with states := (H.fire hs.reverse hs [] (H.inits hs) ev).1 } := by
    rw [← hx]
    rfl
  show (step init e).out.wire.sent = data
  rw [step_open rfl he, hf, List.foldl_append, foldl_logs]
  simp [apply, init, hb, Outbound.flush, Outbound.write, Outbound.empty, Pipe.push, Pipe.empty, Pipe.sent]

end

end Chan

/-! ## Contracts -/

/-- What each kind of handler does in a place of a pipeline that `χ` tells of: which events get
    there, what it keeps, which calls it makes, and what that makes of the place behind it. -/
structure Contract {κ α ε ℓ : Type} (H : Handlers κ α ε ℓ) (χ : Type) where
  next : κ → χ → χ
  Admits : χ → Inbound α ε → Prop
  Keeps : (h : κ) → χ → H.State h → Prop
  Makes : κ → χ → Call α ε ℓ → Prop
  init : ∀ h x, Keeps h x (H.init h)
  handle : ∀ {h x s ev}, Keeps h x s → Admits x ev →
    Keeps h x (H.handle h s ev).1 ∧ ∀ c ∈ (H.handle h s ev).2, Makes h x c
  fires : ∀ {h x ev}, Makes h x (.fire ev) → Admits (next h x) ev

namespace Contract

variable {κ α ε ℓ χ : Type} {H : Handlers κ α ε ℓ} (C : Contract H χ)

/-- The place behind these handlers. -/
def behind (hs : List κ) (x : χ) : χ := hs.foldl (fun x h => C.next h x) x

def KeepsAll : (hs : List κ) → χ → H.States hs → Prop
  | [], _, _ => True
  | h :: hs, x, (s, st) => C.Keeps h x s ∧ KeepsAll hs (C.next h x) st

/-- What a handler in this place does that leaves the pipeline. -/
inductive Does (all before : List κ) (h : κ) (x : χ) : Effect α ℓ → Prop
  | log {line : ℓ} : C.Makes h x (.log line) → Does all before h x (.log line)
  | write {msg data : α} : C.Makes h x (.write msg) → data ∈ H.toHead before msg → Does all before h x (.write data)
  | channelWrite {msg data : α} : C.Makes h x (.channelWrite msg) → data ∈ H.toHead all msg →
      Does all before h x (.write data)
  | flush : C.Makes h x .flush → Does all before h x .flush
  | close : C.Makes h x .close → Does all before h x .close

variable {C}

theorem keepsAll_inits (hs : List κ) : ∀ x, C.KeepsAll hs x (H.inits hs) := by
  induction hs with
  | nil => exact fun _ => trivial
  | cons h hs ih => exact fun x => ⟨C.init h x, ih (C.next h x)⟩

theorem does_effects {all before : List κ} {h : κ} {x : χ} {c : Call α ε ℓ} (hc : C.Makes h x c) {e : Effect α ℓ}
    (he : e ∈ Handlers.effects (H.toHead before) (H.toHead all) c) : C.Does all before h x e := by
  cases c with
  | log line =>
    rw [List.mem_singleton.mp he]
    exact .log hc
  | fire ev => exact absurd he List.not_mem_nil
  | write msg =>
    obtain ⟨data, hd, rfl⟩ := List.mem_map.mp he
    exact .write hc hd
  | channelWrite msg =>
    obtain ⟨data, hd, rfl⟩ := List.mem_map.mp he
    exact .channelWrite hc hd
  | flush =>
    rw [List.mem_singleton.mp he]
    exact .flush hc
  | close =>
    rw [List.mem_singleton.mp he]
    exact .close hc

/-- Over an event the handlers keep what they keep, and whatever leaves the pipeline one of
    them did. -/
theorem fire (all hs : List κ) : ∀ (before : List κ) (x : χ) (st : H.States hs) (ev : Inbound α ε),
    C.KeepsAll hs x st → C.Admits x ev →
    C.KeepsAll hs x (H.fire all hs before st ev).1 ∧
      ∀ e ∈ (H.fire all hs before st ev).2, ∃ b h a, hs = b ++ h :: a ∧
        C.Does all (b.reverse ++ before) h (C.behind b x) e := by
  induction hs with
  | nil => exact fun _ _ _ _ _ _ => ⟨trivial, fun e he => absurd he List.not_mem_nil⟩
  | cons h hs ih =>
    rintro before x ⟨s, st⟩ ev ⟨hs0, hst⟩ hev
    obtain ⟨hkeep, hmakes⟩ := C.handle hs0 hev
    rw [Handlers.fire]
    dsimp only
    have hrule := Handlers.perform_rule (H.fire all hs (h :: before)) (H.toHead before) (H.toHead all)
      (C.KeepsAll hs (C.next h x))
      (fun e => ∃ (b : List κ) (k : κ) (a : List κ), h :: hs = b ++ k :: a ∧
        C.Does all (b.reverse ++ before) k (C.behind b x) e)
      (H.handle h s ev).2 (fun c hc e he => ⟨[], h, hs, rfl, does_effects (hmakes c hc) he⟩)
    obtain ⟨h1, h2⟩ := hrule (fun ev' hev' st' hst' => by
      obtain ⟨hk, he⟩ := ih (h :: before) (C.next h x) st' ev' hst' (C.fires (hmakes _ hev'))
      refine ⟨hk, fun e hmem => ?_⟩
      obtain ⟨b, k, a, rfl, hd⟩ := he e hmem
      exact ⟨h :: b, k, a, rfl, by simpa [behind] using hd⟩) st hst
    exact ⟨⟨hkeep, h1⟩, h2⟩

/-- What holds of a channel: its handlers keep what they keep, and what has left its pipeline
    one of them did, or the other end closed. -/
structure Holds (C : Contract H χ) (hs : List κ) (x : χ) (c : Chan H hs) : Prop where
  keeps : C.KeepsAll hs x c.states
  trace : ∀ e ∈ c.trace, e = .close ∨ ∃ b h a, hs = b ++ h :: a ∧ C.Does hs.reverse b.reverse h (C.behind b x) e

variable {hs : List κ} {x : χ}

theorem holds_fire {c : Chan H hs} (h : Holds C hs x c) {ev : Inbound α ε} (hev : C.Admits x ev) :
    Holds C hs x (c.fire ev) := by
  obtain ⟨hk, he⟩ := C.fire hs.reverse hs [] x c.states ev h.keeps hev
  refine ⟨by rw [Chan.states_fire]; exact hk, fun e hmem => ?_⟩
  rw [Chan.trace_fire, List.mem_append] at hmem
  rcases hmem with hmem | hmem
  · exact h.trace e hmem
  · obtain ⟨b, k, a, hb, hd⟩ := he e hmem
    exact .inr ⟨b, k, a, hb, by rwa [List.append_nil] at hd⟩

theorem holds_close {c : Chan H hs} (h : Holds C hs x c) : Holds C hs x (c.apply .close) := by
  refine ⟨by rw [Chan.states_apply]; exact h.keeps, fun e hmem => ?_⟩
  rw [Chan.trace_apply, List.mem_append, List.mem_singleton] at hmem
  rcases hmem with hmem | rfl
  · exact h.trace e hmem
  · exact .inl rfl

/-- Over all that happens to a channel. -/
theorem holds_run (hi : C.Admits x .inactive) {es : List (Chan.Event α)}
    (hes : ∀ e ∈ es, ∀ ev, e.inbound = some ev → C.Admits x ev) : Holds C hs x (Chan.run H hs es) :=
  Chan.run_rule (P := Holds C hs x) ⟨keepsAll_inits hs x, fun _ he => absurd he List.not_mem_nil⟩
    (fun hev h => holds_fire h hev) holds_close hi hes

end Contract

end NettyStudy.Netty
