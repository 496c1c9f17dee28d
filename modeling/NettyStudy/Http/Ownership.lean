/-
  NettyStudy.Http.Ownership — the buffers of the two HTTP servers of netty-api-practice. A
  request's content comes to the handler with one reference, which is the handler's to
  release; neither HttpServerHandler is a SimpleChannelInboundHandler, and neither releases
  it. The content that `LastHttpContent.EMPTY_LAST_CONTENT` has is not counted.

  Proved, for both, over every interleaving of the events of all connections:
  `contents_kept`, no buffer is used or released after it is freed; each content keeps the one
  reference it came with, and each response has one while it is queued, once and on an open
  connection, and none after.
-/

import NettyStudy.Netty.RefCounted

namespace NettyStudy.Http.Ownership

open NettyStudy.Netty Own

/-- What is read: of `server` what HttpRequestDecoder makes of a request, of `server2` what
    HttpObjectAggregator makes of that. -/
inductive Msg where
  | request
  | content
  | lastContent (isEmpty : Bool)
  | fullRequest

/-- Whether it comes with a buffer that is counted. -/
def Msg.counted : Msg → Bool
  | .request => false
  | .content => true
  | .lastContent isEmpty => !isEmpty
  | .fullRequest => true

/-- `convertByteBufToString`. -/
def convertByteBufToString : Option Nat → Own Unit
  | some buf => access buf
  | none => pure ()

def writeResponse (c : Nat) : Own Unit := do
  let resp ← alloc
  writeAndFlush c resp

def exceptionCaught (c : Nat) : Own Unit := close c

inductive Server where
  | server
  | server2

/-- `HttpServerHandler.channelRead`, which throws on what it cannot cast. -/
def channelRead (c : Nat) (buf : Option Nat) : Server → Msg → Own Unit
  | .server, .request => writeResponse c
  | .server, .content => exceptionCaught c
  | .server, .lastContent _ | .server, .fullRequest | .server2, .fullRequest => do
    convertByteBufToString buf
    writeResponse c
  | .server2, _ => exceptionCaught c

inductive Event where
  | connect (c : Nat)
  | read (c : Nat) (msg : Msg)
  | readComplete (c : Nat)
  /-- The socket takes at most `n` flushed writes. -/
  | taken (c n : Nat)
  | disconnect (c : Nat)

/-- Whether `channelRead` throws, and so closes the connection. -/
def throws : Server → Msg → Bool
  | .server, .content => true
  | .server2, .request | .server2, .content | .server2, .lastContent _ => true
  | _, _ => false

/-- The connections that are open after an event. -/
def openAfter (s : Server) (isOpen : Nat → Bool) : Event → Nat → Bool
  | .connect c => Function.update isOpen c true
  | .read c msg => if throws s msg then Function.update isOpen c false else isOpen
  | .readComplete _ | .taken _ _ => isOpen
  | .disconnect c => Function.update isOpen c false

/-- What happens, and the content the handler has been given. -/
def step (s : Server) : Event → Own (List Nat)
  | .connect c => do
    connect c
    pure []
  | .read c msg => do
    if msg.counted then
      let buf ← alloc
      channelRead c (some buf) s msg
      pure [buf]
    else
      channelRead c none s msg
      pure []
  | .readComplete c => do
    flush c
    pure []
  | .taken c n => do
    taken c n
    pure []
  | .disconnect c => do
    close c
    pure []

def run (s : Server) : List Event → Own (List Nat)
  | [] => pure []
  | e :: es => do
    let given ← step s e
    let rest ← run s es
    pure (rest ++ given)

/-- An event that brings a content that is counted. -/
def Event.counted : Event → Bool
  | .read _ msg => msg.counted
  | _ => false

/-! ## What is left behind -/

theorem does_writeResponse (c : Nat) (held : List Nat) : Does (writeResponse c) held fun _ => held :=
  (does_alloc held).bind fun resp => does_writeAndFlush c resp held

theorem does_convertByteBufToString {buf : Option Nat} {held : List Nat} (h : ∀ b, buf = some b → b ∈ held) :
    Does (convertByteBufToString buf) held fun _ => held := by
  cases buf with
  | none => exact does_pure () held
  | some b => exact does_access (h b rfl)

theorem does_channelRead (c : Nat) {buf : Option Nat} {held : List Nat} (h : ∀ b, buf = some b → b ∈ held)
    (s : Server) (msg : Msg) : Does (channelRead c buf s msg) held fun _ => held := by
  have hcast : Does (do convertByteBufToString buf; writeResponse c) held fun _ => held :=
    (does_convertByteBufToString h).bind fun _ => does_writeResponse c held
  cases s with
  | server =>
    cases msg with
    | request => exact does_writeResponse c held
    | content => exact does_close c held
    | lastContent isEmpty => exact hcast
    | fullRequest => exact hcast
  | server2 =>
    cases msg with
    | fullRequest => exact hcast
    | _ => exact does_close c held

section
variable {R : Buffers → Buffers → Prop} [Frame R]

theorem ensures_writeResponse (c : Nat) : Ensures R (writeResponse c) :=
  ensures_alloc.bind fun resp => ensures_writeAndFlush c resp

/-- What `channelRead` does where it does not throw. -/
theorem ensures_channelRead (c : Nat) (buf : Option Nat) {s : Server} {msg : Msg} (h : throws s msg = false) :
    Ensures R (channelRead c buf s msg) := by
  have hcast : Ensures R (do convertByteBufToString buf; writeResponse c) := by
    refine Ensures.bind ?_ fun _ => ensures_writeResponse c
    cases buf with
    | none => exact ensures_pure ()
    | some b => exact ensures_access b
  cases s with
  | server =>
    cases msg with
    | request => exact ensures_writeResponse c
    | content => cases h
    | lastContent isEmpty => exact hcast
    | fullRequest => exact hcast
  | server2 =>
    cases msg with
    | fullRequest => exact hcast
    | _ => cases h

end

theorem channelRead_throws (c : Nat) (buf : Option Nat) {s : Server} {msg : Msg} (h : throws s msg = true) :
    channelRead c buf s msg = close c := by
  cases s with
  | server =>
    cases msg with
    | content => rfl
    | _ => cases h
  | server2 =>
    cases msg with
    | fullRequest => cases h
    | _ => rfl

/-- Between events: what the handler has been given is in hand, nothing has a second
    reference. -/
structure OInv (isOpen : Nat → Bool) (held : List Nat) (w : Buffers) : Prop where
  owned : w.Owned held
  unshared : ∀ b, w.refCnt b ≤ 1
  isOpen : w.isOpen = isOpen

section
variable {isOpen : Nat → Bool} {held : List Nat} {w : Buffers}

/-- An operation that neither opens nor closes a connection. -/
theorem OInv.frame (h : OInv isOpen held w) {α : Type} {m : Own α} {post : α → List Nat} (hm : Does m held post)
    (hu : Ensures Unshared m) (ho : Ensures SameOpen m) :
    ∃ a w', m w = some (a, w') ∧ OInv isOpen (post a) w' := by
  obtain ⟨a, w', hr, hw'⟩ := hm w h.owned
  refine ⟨a, w', hr, hw', fun b => ?_, (ho w a w' hr).trans h.isOpen⟩
  have hb := hu w a w' hr b
  have := h.unshared b
  omega

theorem OInv.connect (h : OInv isOpen held w) (c : Nat) :
    ∃ w', Own.connect c w = some ((), w') ∧ OInv (Function.update isOpen c true) held w' := by
  obtain ⟨_, w', hr, hw'⟩ := does_connect c held w h.owned
  refine ⟨w', hr, hw', ?_, ?_⟩
  · exact state_eq hr ▸ h.unshared
  · have hr := state_eq hr
    rw [← hr, w.setOpen_isOpen, h.isOpen]

theorem OInv.close (h : OInv isOpen held w) (c : Nat) :
    ∃ w', Own.close c w = some ((), w') ∧ OInv (Function.update isOpen c false) held w' := by
  obtain ⟨_, w', hr, hw'⟩ := does_close c held w h.owned
  refine ⟨w', hr, hw', fun b => ?_, ?_⟩
  · have hb := close_ensures (R := Unshared) hr b
    have := h.unshared b
    show w'.refCnt b ≤ 1
    have hb' : w'.refCnt b ≤ max 1 (w.refCnt b) := hb
    omega
  · rw [(close_queue hr).isOpen, ← h.isOpen]
    exact w.setOpen_isOpen c false

theorem OInv.channelRead (h : OInv isOpen held w) (c : Nat) {buf : Option Nat} (hb : ∀ b, buf = some b → b ∈ held)
    (s : Server) (msg : Msg) :
    ∃ w', Ownership.channelRead c buf s msg w = some ((), w') ∧ OInv (openAfter s isOpen (.read c msg)) held w' := by
  rw [openAfter]
  split
  · rename_i ht
    rw [channelRead_throws c buf ht]
    exact h.close c
  · rename_i ht
    have ht : throws s msg = false := Bool.eq_false_iff.mpr ht
    obtain ⟨_, w', hr, hw'⟩ :=
      h.frame (does_channelRead c hb s msg) (ensures_channelRead c buf ht) (ensures_channelRead c buf ht)
    exact ⟨w', hr, hw'⟩

/-- What is given stays in hand. -/
theorem step_given (s : Server) (e : Event) (h : OInv isOpen held w) :
    ∃ given w', step s e w = some (given, w') ∧ given.length = [e].countP Event.counted ∧
      OInv (openAfter s isOpen e) (given ++ held) w' := by
  have hnone : ∀ {m : Own Unit} {isOpen' : Nat → Bool}, (∃ w', m w = some ((), w') ∧ OInv isOpen' held w') →
      ∃ w', (do m; pure [] : Own (List Nat)) w = some ([], w') ∧ OInv isOpen' held w' := by
    intro m isOpen' hm
    obtain ⟨w', hr, hw'⟩ := hm
    exact ⟨w', (bind_some hr).trans rfl, hw'⟩
  cases e with
  | connect c =>
    obtain ⟨w', hr, hw'⟩ := hnone (h.connect c)
    exact ⟨[], w', hr, rfl, hw'⟩
  | read c msg =>
    rw [step]
    split
    · rename_i hmsg
      obtain ⟨buf, w1, h1, hw1⟩ := h.frame (does_alloc held) ensures_alloc ensures_alloc
      have hbuf : ∀ b, some buf = some b → b ∈ buf :: held := fun b hb => by
        rw [← Option.some.inj hb]
        exact List.mem_cons_self
      obtain ⟨w2, h2, hw2⟩ := hw1.channelRead c hbuf s msg
      refine ⟨[buf], w2, (bind_some h1).trans ((bind_some h2).trans rfl), ?_, hw2⟩
      rw [List.countP_singleton, Event.counted, hmsg]
      rfl
    · rename_i hmsg
      obtain ⟨w', hr, hw'⟩ := hnone (h.channelRead c (fun b (hb : none = some b) => by cases hb) s msg)
      refine ⟨[], w', hr, ?_, hw'⟩
      rw [List.countP_singleton, Event.counted, if_neg hmsg]
      rfl
  | readComplete c =>
    obtain ⟨_, w', hr, hw'⟩ := h.frame (does_flush c held) (ensures_flush c) (ensures_flush c)
    exact ⟨[], w', (bind_some hr).trans rfl, rfl, hw'⟩
  | taken c n =>
    obtain ⟨_, w', hr, hw'⟩ := h.frame (does_taken c n held) (ensures_taken c n) (ensures_taken c n)
    exact ⟨[], w', (bind_some hr).trans rfl, rfl, hw'⟩
  | disconnect c =>
    obtain ⟨w', hr, hw'⟩ := hnone (h.close c)
    exact ⟨[], w', hr, rfl, hw'⟩

end

theorem run_given (s : Server) (es : List Event) : ∀ {isOpen : Nat → Bool} {held : List Nat} {w : Buffers},
    OInv isOpen held w → ∃ given w', run s es w = some (given, w') ∧ given.length = es.countP Event.counted ∧
      OInv (es.foldl (openAfter s) isOpen) (given ++ held) w' := by
  induction es with
  | nil => exact fun hw => ⟨[], _, rfl, rfl, hw⟩
  | cons e es ih =>
    intro isOpen held w hw
    obtain ⟨given, w1, h1, hl, hw1⟩ := step_given s e hw
    obtain ⟨rest, w2, h2, hlr, hw2⟩ := ih hw1
    refine ⟨rest ++ given, w2, (bind_some h1).trans ((bind_some h2).trans rfl), ?_, ?_⟩
    · have hcons : ([e] ++ es).countP Event.counted = _ := List.countP_append
      rw [List.length_append, hl, hlr, Nat.add_comm]
      exact hcons.symm
    · rw [List.append_assoc]
      exact hw2

/-- In every run nothing is used after it is freed. Each content the handler was given keeps
    the one reference it came with, and is not queued; a response has one while it is queued,
    on an open connection, and no other. -/
theorem contents_kept (s : Server) (es : List Event) : ∃ given w, run s es .empty = some (given, w) ∧
    given.length = es.countP Event.counted ∧ (given ++ w.queued).Nodup ∧
    w.isOpen = es.foldl (openAfter s) (fun _ => false) ∧ (∀ e ∈ w.queue, w.isOpen e.channel = true) ∧
    ∀ b, w.refCnt b = given.count b + w.queued.count b := by
  have h0 : OInv (fun _ => false) [] .empty := ⟨owned_empty, fun _ => Nat.zero_le 1, rfl⟩
  obtain ⟨given, w, hr, hl, hw⟩ := run_given s es h0
  rw [List.append_nil] at hw
  exact ⟨given, w, hr, hl, hw.owned.nodup hw.unshared, hw.isOpen, hw.owned.isOpen, hw.owned.refCnt⟩

end NettyStudy.Http.Ownership
