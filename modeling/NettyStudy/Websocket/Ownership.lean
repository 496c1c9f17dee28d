/-
  NettyStudy.Websocket.Ownership — the buffers of the WebSocket server. A request or frame
  comes to MyWebSocketHandler with one reference, which SimpleChannelInboundHandler releases
  when `channelRead0` has returned or thrown. What is written is the outbound side's to
  release: of its own message the handler writes a reference it has retained; a broadcast
  is retained for each channel of the group and then released itself. A close frame is
  retained before the handshaker is asked for.

  The connections and the group are `NettyStudy.Websocket.Chat`'s. What is written comes to
  the pipeline's ChunkedWriteHandler first, which keeps it until a flush passes it on to the
  outbound buffer. A connection that closes drops its outbound buffer; what the handler still
  keeps, and what is written to it afterwards, it discards at the next flush or when the
  channel becomes inactive, and later writes fail. Before the upgrade there is no encoder for
  frames: one that is broadcast to such a connection fails as soon as it is flushed.

  Proved, over every interleaving of the events of all connections, reads completed and
  writes taken by sockets:
  - `does_handled`: a handler leaves no reference behind, neither of its message nor of what
    it has allocated. For close frames that rests on `upgraded_handshaker`.
  - `chat_owned`: no buffer is used or released after it is freed; each has as many
    references as there are queued writes of it, all of them on connected channels or, not
    flushed, on ones that have closed and are not inactive yet.
  - `discarded`: a read that completes on a closed channel leaves nothing queued on it.
-/

import NettyStudy.Netty.RefCounted
import NettyStudy.Websocket.Upgrade

namespace NettyStudy.Websocket.Ownership

open NettyStudy.Text NettyStudy.Netty Own

variable {H : Type}

/-! ## The handler -/

namespace ChunkedWriteHandler

variable (connected : Nat → Bool)

/-- On a channel that is not active what is kept is discarded. -/
def flush (c : Nat) : Own Unit := if connected c then Own.flush c else discard fun e => e.channel = c

def writeAndFlush (c b : Nat) : Own Unit := do
  write c b
  flush connected c

end ChunkedWriteHandler

namespace MyWebSocketHandler

open Websocket.MyWebSocketHandler (WEB_SOCKET_URL badRequest)

section
variable (connected : Nat → Bool)

/-- `res` is the response's buffer. -/
def sendHttpResponse (c code res : Nat) : Own Unit := do
  if code ≠ 200 then
    let buf ← alloc
    access res
    access buf
    release buf
  ChunkedWriteHandler.writeAndFlush connected c res

/-- A handshake that throws has written nothing. -/
def handleHttpRequest (factory : HandshakerFactory H) (c : Nat) (req : FullHttpRequest) : Own Unit :=
  if ¬ req.decoderSuccess ∨ req.get "Upgrade" ≠ some "websocket" then do
    let res ← alloc
    sendHttpResponse connected c badRequest.code res
  else
    match factory.newHandshaker WEB_SOCKET_URL req with
    | none => do
      let res ← alloc
      ChunkedWriteHandler.writeAndFlush connected c res
    | some h =>
      match factory.handshake h req with
      | .ok _ => do
        let res ← alloc
        ChunkedWriteHandler.writeAndFlush connected c res
      | .error _ => pure ()

/-- `handshaker.close(ctx.channel(), frame.retain())`: its argument comes before its
    NullPointerException. -/
def closeHandshake (c : Nat) (handshaker : Option H) (frame : Nat) : Own Unit := do
  retain frame
  if handshaker.isSome then ChunkedWriteHandler.writeAndFlush connected c frame

/-- `NettyConfig.group.writeAndFlush(tws)`. -/
def groupWriteAndFlush (upgraded : Nat → Bool) (group : List Nat) (tws : Nat) : Own Unit := do
  group.forM fun d => do
    retain tws
    if upgraded d then ChunkedWriteHandler.writeAndFlush connected d tws
    else do
      release tws
      ChunkedWriteHandler.flush connected d
  release tws

/-- A close frame and one of no supported kind end in an exception. -/
def handleWebSocketFrame (upgraded : Nat → Bool) (c : Nat) (group : List Nat) (handshaker : Option H)
    (kind : FrameKind) (frame : Nat) : Own Unit :=
  if kind = .close then closeHandshake connected c handshaker frame
  else if kind = .ping then do
    retain frame
    write c frame
  else if kind ≠ .text then pure ()
  else do
    access frame
    let tws ← alloc
    groupWriteAndFlush connected upgraded group tws

end

/-- `SimpleChannelInboundHandler.channelRead`. -/
def channelRead (channelRead0 : Nat → Own Unit) : Own Unit := do
  let msg ← alloc
  channelRead0 msg
  release msg

end MyWebSocketHandler

/-! ## The system -/

structure OSt (H : Type) where
  chat : St H
  buffers : Buffers
  /-- The channels whose `channelInactive` has run. -/
  inactive : Nat → Bool

inductive OEvent where
  | chat (e : Event)
  | readComplete (c : Nat)
  /-- Channel `c`'s socket takes at most `n` flushed writes. -/
  | taken (c n : Nat)

def channelOf : Event → Nat
  | .connect c | .request c _ | .frame c _ _ | .written c | .disconnect c | .inactive c => c

def isConnected (s : St H) (c : Nat) : Bool := (s.chan c).phase = .connected

variable (factory : HandshakerFactory H) (id : Nat → JString)

/-- What the handler that an event comes to does with buffers. -/
def handled (s : St H) : Event → Own Unit
  | .request c req =>
    if (s.chan c).phase ≠ .fresh ∧ (s.chan c).upgraded.isNone then
      MyWebSocketHandler.channelRead fun _ => MyWebSocketHandler.handleHttpRequest (isConnected s) factory c req
    else pure ()
  | .frame c _ frame =>
    if (s.chan c).upgraded.isSome then
      MyWebSocketHandler.channelRead
        (MyWebSocketHandler.handleWebSocketFrame (isConnected s) (fun d => (s.chan d).upgraded.isSome) c s.group
          (s.chan c).handshaker frame.kind)
    else pure ()
  | .connect _ | .written _ | .disconnect _ | .inactive _ => pure ()

/-- What becomes of the channel's writes once the event is over. -/
def settled (s s' : St H) : Event → Own Unit
  | .connect c => if (s.chan c).phase = .fresh then connect c else pure ()
  | .inactive c => if (s.chan c).phase = .closed then close c else pure ()
  | .request c _ | .frame c _ _ | .written c | .disconnect c =>
    if isConnected s' c then pure () else discard fun e => e.channel = c ∧ e.flushed

def inactiveAfter (o : OSt H) : Event → Nat → Bool
  | .inactive c => if (o.chat.chan c).phase = .closed then Function.update o.inactive c true else o.inactive
  | _ => o.inactive

def step (o : OSt H) : OEvent → Option (OSt H)
  | .chat e =>
    let s := Websocket.step factory id o.chat e
    let m : Own Unit := do
      handled factory o.chat e
      settled o.chat s e
    (m o.buffers).map fun r => ⟨s, r.2, inactiveAfter o e⟩
  | .readComplete c =>
    (ChunkedWriteHandler.flush (isConnected o.chat) c o.buffers).map fun r => ⟨o.chat, r.2, o.inactive⟩
  | .taken c n => (taken c n o.buffers).map fun r => ⟨o.chat, r.2, o.inactive⟩

def run (es : List OEvent) : Option (OSt H) := es.foldlM (step factory id) ⟨init, .empty, fun _ => false⟩

/-! ## What handlers leave behind -/

section
variable (connected : Nat → Bool) {c : Nat} {held : List Nat}

theorem does_chunkedFlush (c : Nat) (held : List Nat) :
    Does (ChunkedWriteHandler.flush connected c) held fun _ => held := by
  unfold ChunkedWriteHandler.flush
  split
  · exact does_flush c held
  · exact does_discard _ held

theorem does_chunkedWriteAndFlush (c b : Nat) (held : List Nat) :
    Does (ChunkedWriteHandler.writeAndFlush connected c b) (b :: held) fun _ => held :=
  (does_write c b held).bind fun _ => does_chunkedFlush connected c held

theorem does_respond (c : Nat) (held : List Nat) :
    Does (do let res ← alloc; ChunkedWriteHandler.writeAndFlush connected c res) held fun _ => held :=
  (does_alloc held).bind fun res => does_chunkedWriteAndFlush connected c res held

theorem does_sendHttpResponse (c code res : Nat) (held : List Nat) :
    Does (MyWebSocketHandler.sendHttpResponse connected c code res) (res :: held) fun _ => held := by
  unfold MyWebSocketHandler.sendHttpResponse
  split
  · refine (does_alloc _).bind fun buf => ?_
    refine (does_access (List.mem_cons_of_mem _ List.mem_cons_self)).bind fun _ => ?_
    refine (does_access List.mem_cons_self).bind fun _ => ?_
    exact (does_release buf _).bind fun _ => does_chunkedWriteAndFlush connected c res held
  · exact does_chunkedWriteAndFlush connected c res held

theorem does_handleHttpRequest (c : Nat) (req : FullHttpRequest) (held : List Nat) :
    Does (MyWebSocketHandler.handleHttpRequest connected factory c req) held fun _ => held := by
  unfold MyWebSocketHandler.handleHttpRequest
  split
  · exact (does_alloc held).bind fun res => does_sendHttpResponse connected c _ res held
  split
  · exact does_respond connected c held
  split
  · exact does_respond connected c held
  · exact does_pure () held

/-- Where there is a handshaker, the reference that is retained is written. -/
theorem does_closeHandshake (c : Nat) {handshaker : Option H} (hh : handshaker.isSome) {frame : Nat}
    (hf : frame ∈ held) :
    Does (MyWebSocketHandler.closeHandshake connected c handshaker frame) held fun _ => held := by
  unfold MyWebSocketHandler.closeHandshake
  rw [if_pos hh]
  exact (does_retain hf).bind fun _ => does_chunkedWriteAndFlush connected c frame held

theorem does_groupWriteAndFlush (upgraded : Nat → Bool) (group : List Nat) (tws : Nat) (held : List Nat) :
    Does (MyWebSocketHandler.groupWriteAndFlush connected upgraded group tws) (tws :: held) fun _ => held := by
  refine Does.bind (does_forM fun d _ => ?_) fun _ => does_release tws held
  refine (does_retain List.mem_cons_self).bind fun _ => ?_
  split
  · exact does_chunkedWriteAndFlush connected d tws _
  · exact (does_release tws _).bind fun _ => does_chunkedFlush connected d _

theorem does_handleWebSocketFrame (upgraded : Nat → Bool) (c : Nat) (group : List Nat) {handshaker : Option H}
    (hh : handshaker.isSome) (kind : FrameKind) {frame : Nat} (hf : frame ∈ held) :
    Does (MyWebSocketHandler.handleWebSocketFrame connected upgraded c group handshaker kind frame) held
      fun _ => held := by
  unfold MyWebSocketHandler.handleWebSocketFrame
  split
  · exact does_closeHandshake connected c hh hf
  split
  · exact (does_retain hf).bind fun _ => does_write c frame held
  split
  · exact does_pure () held
  · refine (does_access hf).bind fun _ => ?_
    exact (does_alloc held).bind fun tws => does_groupWriteAndFlush connected upgraded group tws held

theorem does_channelRead {channelRead0 : Nat → Own Unit}
    (h : ∀ msg, Does (channelRead0 msg) (msg :: held) fun _ => msg :: held) :
    Does (MyWebSocketHandler.channelRead channelRead0) held fun _ => held :=
  (does_alloc held).bind fun msg => (h msg).bind fun _ => does_release msg held

end

variable {factory id}

theorem does_handled {s : St H} (hr : Reach factory id s) (e : Event) : Does (handled factory s e) [] fun _ => [] := by
  cases e with
  | request c req =>
    rw [handled]
    split
    · exact does_channelRead fun msg => does_handleHttpRequest factory _ c req _
    · exact does_pure () []
  | frame c date frame =>
    rw [handled]
    split
    · rename_i h
      obtain ⟨h', hu⟩ := Option.isSome_iff_exists.mp h
      have hh : (s.chan c).handshaker.isSome := by rw [Upgrade.upgraded_handshaker hr hu]; rfl
      exact does_channelRead fun msg => does_handleWebSocketFrame _ _ c s.group hh _ List.mem_cons_self
    · exact does_pure () []
  | _ => exact does_pure () []

/-! ## What handlers flush -/

/-- What is flushed is flushed on connected channels. -/
structure Flushes (connected : Nat → Bool) (w w' : Buffers) : Prop where
  isOpen : w'.isOpen = w.isOpen
  flushed : ∀ e ∈ w'.queue, e.flushed = true → connected e.channel = true ∨ e ∈ w.queue

section
variable {connected : Nat → Bool}

instance : Lowers (Flushes connected) where
  refl _ := ⟨rfl, fun _ he _ => Or.inr he⟩
  refCnt _ _ _ _ := ⟨rfl, fun _ he _ => Or.inr he⟩
  trans _ _ _ h1 h2 := ⟨h2.isOpen.trans h1.isOpen, fun e he hf => by
    rcases h2.flushed e he hf with hc | he
    · exact Or.inl hc
    · exact h1.flushed e he hf⟩

theorem flushes_of_queue {w w' : Buffers} (ho : w'.isOpen = w.isOpen) (hq : ∀ e ∈ w'.queue, e ∈ w.queue) :
    Flushes connected w w' := ⟨ho, fun e he _ => Or.inr (hq e he)⟩

theorem flushes_alloc : Ensures (Flushes connected) alloc := by
  intro w a w' h
  exact state_eq h ▸ flushes_of_queue rfl fun _ he => he

theorem flushes_retain (b : Nat) : Ensures (Flushes connected) (retain b) := by
  intro w a w' h
  rw [retain] at h
  split at h
  · cases h
  · exact state_eq h ▸ flushes_of_queue rfl fun _ he => he

theorem flushes_write (c b : Nat) : Ensures (Flushes connected) (write c b) := by
  intro w a w' h
  have hs := write_queue h
  refine ⟨hs.isOpen, fun e he hf => Or.inr ?_⟩
  rw [hs.queue] at he
  rcases List.mem_append.mp he with he | he
  · exact he
  · split at he
    · rw [List.mem_singleton.mp he] at hf
      cases hf
    · exact absurd he List.not_mem_nil

theorem flushes_flush (c : Nat) : Ensures (Flushes connected) (ChunkedWriteHandler.flush connected c) := by
  intro w a w' h
  rw [ChunkedWriteHandler.flush] at h
  split at h
  · rename_i hc
    rw [← state_eq h]
    refine ⟨rfl, fun e he _ => ?_⟩
    obtain ⟨e', he', rfl⟩ := List.mem_map.mp he
    split
    · rename_i hch
      rw [hch]
      exact Or.inl hc
    · exact Or.inr he'
  · have hs := discard_queue h
    refine flushes_of_queue hs.isOpen fun e he => ?_
    rw [hs.queue] at he
    exact (List.mem_filter.mp he).1

theorem flushes_writeAndFlush (c b : Nat) :
    Ensures (Flushes connected) (ChunkedWriteHandler.writeAndFlush connected c b) :=
  (flushes_write c b).bind fun _ => flushes_flush c

theorem flushes_respond (c : Nat) :
    Ensures (Flushes connected) (do let res ← alloc; ChunkedWriteHandler.writeAndFlush connected c res) :=
  flushes_alloc.bind fun res => flushes_writeAndFlush c res

theorem flushes_handleHttpRequest (c : Nat) (req : FullHttpRequest) :
    Ensures (Flushes connected) (MyWebSocketHandler.handleHttpRequest connected factory c req) := by
  unfold MyWebSocketHandler.handleHttpRequest
  split
  · refine flushes_alloc.bind fun res => ?_
    unfold MyWebSocketHandler.sendHttpResponse
    split
    · refine flushes_alloc.bind fun buf => (ensures_access res).bind fun _ => (ensures_access buf).bind fun _ => ?_
      exact (ensures_release buf).bind fun _ => flushes_writeAndFlush c res
    · exact flushes_writeAndFlush c res
  split
  · exact flushes_respond c
  split
  · exact flushes_respond c
  · exact ensures_pure ()

theorem flushes_groupWriteAndFlush (upgraded : Nat → Bool) (group : List Nat) (tws : Nat) :
    Ensures (Flushes connected) (MyWebSocketHandler.groupWriteAndFlush connected upgraded group tws) := by
  refine Ensures.bind (ensures_forM (fun d => ?_) group) fun _ => ensures_release tws
  refine (flushes_retain tws).bind fun _ => ?_
  split
  · exact flushes_writeAndFlush d tws
  · exact (ensures_release tws).bind fun _ => flushes_flush d

theorem flushes_handleWebSocketFrame (upgraded : Nat → Bool) (c : Nat) (group : List Nat) (handshaker : Option H)
    (kind : FrameKind) (frame : Nat) : Ensures (Flushes connected)
      (MyWebSocketHandler.handleWebSocketFrame connected upgraded c group handshaker kind frame) := by
  unfold MyWebSocketHandler.handleWebSocketFrame
  split
  · refine (flushes_retain frame).bind fun _ => ?_
    split
    · exact flushes_writeAndFlush c frame
    · exact ensures_pure ()
  split
  · exact (flushes_retain frame).bind fun _ => flushes_write c frame
  split
  · exact ensures_pure ()
  · refine (ensures_access frame).bind fun _ => ?_
    exact flushes_alloc.bind fun tws => flushes_groupWriteAndFlush upgraded group tws

theorem flushes_channelRead {channelRead0 : Nat → Own Unit}
    (h : ∀ msg, Ensures (Flushes connected) (channelRead0 msg)) :
    Ensures (Flushes connected) (MyWebSocketHandler.channelRead channelRead0) :=
  flushes_alloc.bind fun msg => (h msg).bind fun _ => ensures_release msg

end

theorem flushes_handled (s : St H) (e : Event) : Ensures (Flushes (isConnected s)) (handled factory s e) := by
  cases e with
  | request c req =>
    rw [handled]
    split
    · exact flushes_channelRead fun _ => flushes_handleHttpRequest c req
    · exact ensures_pure ()
  | frame c date frame =>
    rw [handled]
    split
    · exact flushes_channelRead fun msg => flushes_handleWebSocketFrame _ c s.group _ _ msg
    · exact ensures_pure ()
  | _ => exact ensures_pure ()

/-! ## Runs -/

def Connected (s : St H) (c : Nat) : Prop := (s.chan c).phase = .connected

theorem isConnected_iff {s : St H} {c : Nat} : isConnected s c = true ↔ Connected s c := decide_eq_true_iff

/-- An event is one connection's. -/
theorem step_chan (s : St H) (e : Event) {d : Nat} (hd : d ≠ channelOf e) :
    (Websocket.step factory id s e).chan d = s.chan d := by
  cases e with
  | connect c =>
    have hc : d ≠ c := hd
    rw [Websocket.step]
    split
    · rw [finish_others hc, set_other hc]
    · rfl
  | request c req | frame c date frame | inactive c =>
    rw [Websocket.step]
    split
    · exact finish_others hd s _
    · rfl
  | written c | disconnect c =>
    rw [Websocket.step]
    split
    · exact set_other hd
    · rfl

theorem step_closed {s : St H} (e : Event) {d : Nat} (h : (s.chan d).phase = .closed) :
    ((Websocket.step factory id s e).chan d).phase = .closed := by
  obtain ⟨c, hm⟩ := step_moves factory id s e
  by_cases hd : d = c
  · subst hd
    cases hm with
    | stays hk _ => rw [hk.phase, h]
    | joins _ hfresh _ _ _ => rw [h] at hfresh; cases hfresh
    | leaves _ hclosed _ => exact hclosed
  · cases hm with
    | stays hk _ => rw [hk.others d hd, h]
    | joins hoff _ _ _ _ => rw [hoff d hd, h]
    | leaves hoff _ _ => rw [hoff d hd, h]

theorem set_connected {s : St H} {c d : Nat} {ch : Channel H} (hch : ch.phase = .connected → Connected s c)
    (h : Connected (s.set c ch) d) : Connected s d := by
  by_cases hd : d = c
  · subst hd
    rw [Connected, set_same] at h
    exact hch h
  · rw [Connected, set_other hd] at h
    exact h

/-- No handler makes a channel a connected one. -/
theorem apply_connected (c : Nat) {s : St H} (a : Action H) {d : Nat} (h : Connected (s.apply c a) d) :
    Connected s d := by
  cases a with
  | close => exact set_connected (s := s) (fun h => by cases h) h
  | closeOnWrite | handshake _ | closeHandshake _ _ =>
    refine set_connected (s := s) (c := c) ?_ h
    exact fun hc => hc
  | _ => exact h

theorem finish_connected (s : St H) (c : Nat) (r : HandlerSt H) {d : Nat} (h : Connected (s.finish c r) d) :
    Connected s d := by
  have hall : Connected (s.finish c r) d → Connected s d := by
    refine List.foldlRecOn (motive := fun s1 : St H => Connected s1 d → Connected s d) r.actions _ ?_ ?_
    · exact set_connected fun h => h
    · exact fun s1 ih a _ ha => ih (apply_connected c a ha)
  exact hall h

/-- Only `connect` makes one. -/
theorem step_connected {s : St H} {e : Event} {d : Nat} (he : e ≠ .connect d)
    (h : Connected (Websocket.step factory id s e) d) : Connected s d := by
  cases e with
  | connect c =>
    have hd : d ≠ c := by rintro rfl; exact he rfl
    rw [Connected, step_chan s (.connect c) hd] at h
    exact h
  | request c req | frame c date frame | inactive c =>
    rw [Websocket.step] at h
    split at h
    · exact finish_connected s c _ h
    · exact h
  | written c | disconnect c =>
    rw [Websocket.step] at h
    split at h
    · exact set_connected (s := s) (fun h => by cases h) h
    · exact h

/-- Writes are queued on every connected channel, and on one that has closed until it is
    inactive; what is flushed is flushed on connected ones. -/
structure OInv (factory : HandshakerFactory H) (id : Nat → JString) (o : OSt H) : Prop where
  reach : Reach factory id o.chat
  owned : o.buffers.Owned []
  flushed : ∀ e ∈ o.buffers.queue, e.flushed = true → Connected o.chat e.channel
  connected : ∀ c, Connected o.chat c → o.buffers.isOpen c = true
  isOpen : ∀ c, o.buffers.isOpen c = true → o.inactive c = false
  inactive : ∀ c, o.inactive c = true → (o.chat.chan c).phase = .closed

/-- What is flushed when a handler is done. -/
theorem handled_inv {o : OSt H} (h : OInv factory id o) (e : Event) : ∃ w,
    handled factory o.chat e o.buffers = some ((), w) ∧ OInv factory id { o with buffers := w } := by
  obtain ⟨_, w, hr, hw⟩ := does_handled h.reach e o.buffers h.owned
  have hf := flushes_handled o.chat e o.buffers () w hr
  refine ⟨w, hr, h.reach, hw, fun x hx hxf => ?_, fun c hc => ?_, fun c hc => ?_, h.inactive⟩
  · rcases hf.flushed x hx hxf with hc | hx
    · exact isConnected_iff.mp hc
    · exact h.flushed x hx hxf
  · rw [← h.connected c hc]
    exact congrFun hf.isOpen c
  · refine h.isOpen c ?_
    rw [← hc]
    exact (congrFun hf.isOpen c).symm

/-- The event's step where it neither opens a channel nor makes one inactive. -/
theorem OInv.moved {o : OSt H} (h : OInv factory id o) {e : Event} (he : ∀ c, e ≠ .connect c) {w : Buffers}
    (hw : w.Owned []) (ho : w.isOpen = o.buffers.isOpen)
    (hf : ∀ x ∈ w.queue, x.flushed = true → Connected (Websocket.step factory id o.chat e) x.channel) :
    OInv factory id ⟨Websocket.step factory id o.chat e, w, o.inactive⟩ := by
  refine ⟨.step e h.reach, hw, hf, fun c hc => ?_, fun c hc => ?_, fun c hc => ?_⟩
  · rw [show w.isOpen c = o.buffers.isOpen c from congrFun ho c]
    exact h.connected c (step_connected (he c) hc)
  · refine h.isOpen c ?_
    rw [← hc]
    exact (congrFun ho c).symm
  · exact step_closed e (h.inactive c hc)

theorem settled_connect {o : OSt H} (h : OInv factory id o) (c : Nat) : ∃ w,
    settled o.chat (Websocket.step factory id o.chat (.connect c)) (.connect c) o.buffers = some ((), w) ∧
      OInv factory id ⟨Websocket.step factory id o.chat (.connect c), w, o.inactive⟩ := by
  rw [settled]
  split
  · rename_i hfresh
    obtain ⟨_, w, hr, hw⟩ := does_connect c [] o.buffers h.owned
    have hset : o.buffers.setOpen c true = w := state_eq hr
    have ho : w.isOpen = Function.update o.buffers.isOpen c true := hset ▸ o.buffers.setOpen_isOpen c true
    have hq : w.queue = o.buffers.queue := hset ▸ rfl
    refine ⟨w, hr, Reach.step (.connect c) h.reach, hw, fun x hx hf => ?_, fun d hd => ?_, fun d hd => ?_,
      fun d hd => ?_⟩
    · rw [hq] at hx
      have hx := h.flushed x hx hf
      have hne : x.channel ≠ c := by
        intro he
        rw [Connected, he, hfresh] at hx
        cases hx
      rw [Connected, step_chan o.chat (.connect c) hne]
      exact hx
    · rw [ho, Function.update_apply]
      split
      · rfl
      · rename_i hne
        refine h.connected d (step_connected ?_ hd)
        intro he
        injection he with he
        exact hne he.symm
    · by_cases hdc : d = c
      · subst hdc
        refine Bool.eq_false_iff.mpr fun hi => ?_
        have := h.inactive d hi
        rw [hfresh] at this
        cases this
      · refine h.isOpen d ?_
        rw [ho, Function.update_of_ne hdc] at hd
        exact hd
    · exact step_closed _ (h.inactive d hd)
  · rename_i hfresh
    have hs : Websocket.step factory id o.chat (.connect c) = o.chat := if_neg hfresh
    rw [hs]
    exact ⟨o.buffers, rfl, h⟩

theorem settled_inactive {o : OSt H} (h : OInv factory id o) (c : Nat) : ∃ w,
    settled o.chat (Websocket.step factory id o.chat (.inactive c)) (.inactive c) o.buffers = some ((), w) ∧
      OInv factory id ⟨Websocket.step factory id o.chat (.inactive c), w, inactiveAfter o (.inactive c)⟩ := by
  rw [settled, inactiveAfter]
  split
  · rename_i hclosed
    obtain ⟨_, w, hr, hw⟩ := does_close c [] o.buffers h.owned
    have hs := close_queue hr
    have ho : w.isOpen = Function.update o.buffers.isOpen c false :=
      hs.isOpen.trans (o.buffers.setOpen_isOpen c false)
    have hchan : ∀ d, Connected o.chat d → d ≠ c := by
      rintro d hd rfl
      rw [Connected, hclosed] at hd
      cases hd
    refine ⟨w, hr, Reach.step (.inactive c) h.reach, hw, fun x hx hf => ?_, fun d hd => ?_, fun d hd => ?_,
      fun d hd => ?_⟩
    · rw [hs.queue] at hx
      have hx := h.flushed x (List.mem_filter.mp hx).1 hf
      rw [Connected, step_chan o.chat (.inactive c) (hchan _ hx)]
      exact hx
    · have hs' : Connected (Websocket.step factory id o.chat (.inactive c)) d := hd
      have hd : Connected o.chat d := step_connected (fun he => by cases he) hs'
      rw [ho, Function.update_of_ne (hchan d hd)]
      exact h.connected d hd
    · have hdc : d ≠ c := by
        rintro rfl
        rw [ho, Function.update_self] at hd
        cases hd
      show Function.update o.inactive c true d = false
      rw [Function.update_of_ne hdc]
      refine h.isOpen d ?_
      rw [ho, Function.update_of_ne hdc] at hd
      exact hd
    · have hd : Function.update o.inactive c true d = true := hd
      refine step_closed _ ?_
      by_cases hdc : d = c
      · rw [hdc]
        exact hclosed
      · rw [Function.update_of_ne hdc] at hd
        exact h.inactive d hd
  · rename_i hclosed
    have hs : Websocket.step factory id o.chat (.inactive c) = o.chat := if_neg hclosed
    rw [hs]
    exact ⟨o.buffers, rfl, h⟩

/-- An event that may close its channel. -/
theorem settled_moved {o : OSt H} (h : OInv factory id o) {e : Event} (he : ∀ c, e ≠ .connect c) : ∃ w,
    (if isConnected (Websocket.step factory id o.chat e) (channelOf e) then pure ()
      else discard fun x => x.channel = channelOf e ∧ x.flushed : Own Unit) o.buffers = some ((), w) ∧
      OInv factory id ⟨Websocket.step factory id o.chat e, w, o.inactive⟩ := by
  have hsame : ∀ d, d ≠ channelOf e → Connected o.chat d → Connected (Websocket.step factory id o.chat e) d := by
    intro d hd hc
    rw [Connected, step_chan o.chat e hd]
    exact hc
  split
  · rename_i hc
    refine ⟨o.buffers, rfl, h.moved he h.owned rfl fun x hx hf => ?_⟩
    by_cases hx' : x.channel = channelOf e
    · rw [hx']
      exact isConnected_iff.mp hc
    · exact hsame _ hx' (h.flushed x hx hf)
  · obtain ⟨_, w, hr, hw⟩ := does_discard (fun x => x.channel = channelOf e ∧ x.flushed) [] o.buffers h.owned
    have hs := discard_queue hr
    refine ⟨w, hr, h.moved he hw hs.isOpen fun x hx hf => ?_⟩
    rw [hs.queue] at hx
    obtain ⟨hx, hp⟩ := List.mem_filter.mp hx
    refine hsame _ (fun hc => ?_) (h.flushed x hx hf)
    rw [decide_eq_true (And.intro hc hf)] at hp
    cases hp

theorem step_inv {o : OSt H} (h : OInv factory id o) (e : OEvent) :
    ∃ o', step factory id o e = some o' ∧ OInv factory id o' := by
  cases e with
  | chat e =>
    obtain ⟨w1, hr1, h1⟩ := handled_inv h e
    have hsettled : ∃ w2, settled o.chat (Websocket.step factory id o.chat e) e w1 = some ((), w2) ∧
        OInv factory id ⟨Websocket.step factory id o.chat e, w2, inactiveAfter o e⟩ := by
      cases e with
      | connect c => exact settled_connect h1 c
      | inactive c => exact settled_inactive h1 c
      | request c req => exact settled_moved h1 (e := .request c req) fun _ h => by cases h
      | frame c date frame => exact settled_moved h1 (e := .frame c date frame) fun _ h => by cases h
      | written c => exact settled_moved h1 (e := .written c) fun _ h => by cases h
      | disconnect c => exact settled_moved h1 (e := .disconnect c) fun _ h => by cases h
    obtain ⟨w2, hr2, h2⟩ := hsettled
    refine ⟨_, ?_, h2⟩
    rw [step, bind_some hr1, hr2]
    rfl
  | readComplete c =>
    obtain ⟨_, w, hr, hw⟩ := does_chunkedFlush (isConnected o.chat) c [] o.buffers h.owned
    have hf := flushes_flush c o.buffers () w hr
    refine ⟨⟨o.chat, w, o.inactive⟩, by rw [step, hr]; rfl, h.reach, hw, fun x hx hxf => ?_, ?_, ?_, h.inactive⟩
    · rcases hf.flushed x hx hxf with hc | hx
      · exact isConnected_iff.mp hc
      · exact h.flushed x hx hxf
    · exact fun d hd => (congrFun hf.isOpen d).trans (h.connected d hd)
    · exact fun d hd => h.isOpen d ((congrFun hf.isOpen d).symm.trans hd)
  | taken c n =>
    obtain ⟨_, w, hr, hw⟩ := does_taken c n [] o.buffers h.owned
    have hs := taken_queue hr
    refine ⟨⟨o.chat, w, o.inactive⟩, by rw [step, hr]; rfl, h.reach, hw, fun x hx hxf => ?_, ?_, ?_, h.inactive⟩
    · rw [hs.queue] at hx
      exact h.flushed x (of_mem_left hx).1 hxf
    · exact fun d hd => (congrFun hs.isOpen d).trans (h.connected d hd)
    · exact fun d hd => h.isOpen d ((congrFun hs.isOpen d).symm.trans hd)

theorem run_inv (es : List OEvent) : ∀ {o : OSt H}, OInv factory id o →
    ∃ o', es.foldlM (step factory id) o = some o' ∧ OInv factory id o' := by
  induction es with
  | nil => exact fun h => ⟨_, rfl, h⟩
  | cons e es ih =>
    intro o h
    obtain ⟨o1, h1, hi⟩ := step_inv h e
    obtain ⟨o', hr, ho⟩ := ih hi
    exact ⟨o', by rw [List.foldlM_cons, h1]; exact hr, ho⟩

/-- A read that completes on a closed channel leaves nothing queued on it. -/
theorem discarded {o o' : OSt H} {c : Nat} (hc : ¬ Connected o.chat c)
    (h : step factory id o (.readComplete c) = some o') : ∀ e ∈ o'.buffers.queue, e.channel ≠ c := by
  rw [step, ChunkedWriteHandler.flush, if_neg fun hi => hc (isConnected_iff.mp hi)] at h
  obtain ⟨⟨_, w⟩, hr, rfl⟩ := Option.map_eq_some_iff.mp h
  intro e he
  have he : e ∈ w.queue := he
  rw [(discard_queue hr).queue] at he
  simpa using (List.mem_filter.mp he).2

end NettyStudy.Websocket.Ownership
