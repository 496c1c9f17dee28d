/-
  NettyStudy.Websocket.Established — one connection of the WebSocket server after its
  handshake: batches of frames, each frame delivered to the handler, each batch ended by
  channelReadComplete's flush.

  A pong is written and waits for a flush: that of the batch's end, or that of a
  broadcast or a closing handshake, which the channel itself takes part in while it is
  open. What the handler throws closes the channel: what is queued is lost, the other
  frames of the batch are delivered all the same, writes fail from then on and no batch
  is read any more. What other connections broadcast to this one is left out: it comes
  between batches, and is never a pong.

  A close frame is answered and then falls through to the exception for unsupported
  frames, where the branch for pings returns.

  Proved:
  - `handling_required`: the handler does what it should at every frame but a close frame.
  - `settles`: every ping of a batch is answered by its end, and it has no close frame,
    exactly where it is `Answerable`.
  - `handles_iff`: a run handles every frame as it should exactly where no close frame is
    read and no ping is caught by the exception of its batch.
-/

import NettyStudy.Netty.Channel
import NettyStudy.Websocket.Chat

namespace NettyStudy.Websocket

open NettyStudy.Text NettyStudy.Netty

variable {H : Type}

/-- What goes out to this channel or to others. -/
def Action.isOutput : Action H → Bool
  | .respond _ | .sendUnsupportedWebSocketVersionResponse | .handshake _ | .closeHandshake _ _ | .write _
  | .broadcast _ => true
  | .groupAdd | .groupRemove | .println _ | .flush | .close | .closeOnWrite => false

/-- A frame delivered to the handler, when, and what came of it. -/
structure Handled (H : Type) where
  date : JString
  frame : WebSocketFrame
  outputs : List (Action H)
  thrown : Option Throwable

structure Session (H : Type) where
  isOpen : Bool
  handshaker : Option H
  out : Outbound WebSocketFrame
  handled : List (Handled H)

/-- A frame and the clock when it is handled. -/
abbrev Arrival := JString × WebSocketFrame

variable (factory : HandshakerFactory H) (id : JString)

/-- What the handler throws at a frame. -/
def thrownBy (date : JString) (frame : WebSocketFrame) (handshaker : Option H) : Option Throwable :=
  match MyWebSocketHandler.channelRead0 factory date id (.frame frame) ⟨handshaker, []⟩ with
  | .ok _ _ => none
  | .error cause _ => some cause

def handling (a : Arrival) (handshaker : Option H) : Handled H :=
  ⟨a.1, a.2, (MyWebSocketHandler.deliver factory a.1 id (.frame a.2) handshaker).actions.filter Action.isOutput,
    thrownBy factory id a.1 a.2 handshaker⟩

namespace Session

/-- The handshake is done and nothing has been read since. -/
def established (h : H) : Session H := ⟨true, some h, .empty, []⟩

/-- What the handler does to its channel. An open channel is in the group. -/
def apply (s : Session H) : Action H → Session H
  | .write frame => if s.isOpen then { s with out := s.out.write [frame] } else s
  | .flush => if s.isOpen then { s with out := s.out.flush } else s
  | .broadcast frame | .closeHandshake _ frame =>
    if s.isOpen then { s with out := s.out.writeAndFlush [frame] } else s
  | .close => { s with isOpen := false, out := s.out.close }
  | .groupAdd | .groupRemove | .println _ | .respond _ | .closeOnWrite | .sendUnsupportedWebSocketVersionResponse
  | .handshake _ => s

def deliver (s : Session H) (a : Arrival) : Session H :=
  let r := MyWebSocketHandler.deliver factory a.1 id (.frame a.2) s.handshaker
  { r.actions.foldl apply s with
    handshaker := r.handshaker
    handled := s.handled ++ [handling factory id a s.handshaker] }

def readComplete (s : Session H) : Session H :=
  (actionsOf MyWebSocketHandler.channelReadComplete s.handshaker).actions.foldl apply s

/-- A batch, read while the channel is open. -/
def read (s : Session H) (batch : List Arrival) : Session H :=
  if s.isOpen then (batch.foldl (deliver factory id) s).readComplete else s

def run (s : Session H) (batches : List (List Arrival)) : Session H := batches.foldl (read factory id) s

/-- The frames handled so far. -/
def frames (s : Session H) : List WebSocketFrame := s.handled.map Handled.frame

end Session

/-! ## What handling should be -/

/-- Binary, continuation and pong frames, and classes netty does not define. -/
def unsupported (frame : WebSocketFrame) : Bool :=
  match frame.kind with
  | .text | .close | .ping => false
  | .binary | .continuation | .pong | .other _ => true

def pong (frame : WebSocketFrame) : WebSocketFrame := ⟨.pong, true, 0, frame.content⟩

/-- A text is broadcast behind the date and the channel's id, a ping answered on its own
    channel, a close frame answered by the closing handshake, each once and with nothing
    thrown; any other frame throws and has no output. -/
def Required (h : H) (x : Handled H) : Prop :=
  match x.frame.kind with
  | .text => x.outputs = [.broadcast ⟨.text, true, 0, getBytes (x.date ++ id ++ literal " ===>>> " ++
      newString x.frame.content)⟩] ∧ x.thrown = none
  | .ping => x.outputs = [.write (pong x.frame)] ∧ x.thrown = none
  | .close => x.outputs = [.closeHandshake h x.frame] ∧ x.thrown = none
  | .binary | .continuation | .pong | .other _ => x.outputs = [] ∧ x.thrown.isSome

def pongs (frames : List WebSocketFrame) : List WebSocketFrame := frames.filter fun f => f.kind = .pong

/-- The pongs that a list of frames is to be answered by. -/
def answers (frames : List WebSocketFrame) : List WebSocketFrame :=
  (frames.filter fun f => f.kind = .ping).map pong

/-- The pongs flushed are those of the pings read, in order. -/
def Settled (s : Session H) : Prop := pongs s.out.wire.sent = answers s.frames

structure Sound (h : H) (s : Session H) : Prop where
  handled : ∀ x ∈ s.handled, Required id h x
  settled : Settled s

/-- From the handshake on, in the state after each batch. -/
def Handles (h : H) (batches : List (List Arrival)) : Prop :=
  ∀ n, Sound id h ((Session.established h).run factory id (batches.take n))

/-- No close frame in the batch; and at its first unsupported frame no pong is queued
    (`pending`), and no ping is behind it. A text leaves no pong queued. -/
def Answerable : Bool → List WebSocketFrame → Prop
  | _, [] => True
  | pending, f :: fs =>
    match f.kind with
    | .text => Answerable false fs
    | .ping => Answerable true fs
    | .close => False
    | .binary | .continuation | .pong | .other _ => pending = false ∧ ∀ g ∈ fs, g.kind ≠ .ping ∧ g.kind ≠ .close

/-- So is every batch up to the first one with an unsupported frame: no other is read. -/
def AllAnswerable : List (List WebSocketFrame) → Prop
  | [] => True
  | batch :: batches => Answerable false batch ∧ (batch.any unsupported = true ∨ AllAnswerable batches)

/-! ## One frame -/

variable {factory id} {h : H} {a : Arrival} {s : Session H}

open MyWebSocketHandler in
/-- The handler does what is required at every frame but a close frame, where it throws. -/
theorem handling_required : Required id h (handling factory id a (some h)) ↔ a.2.kind ≠ .close := by
  obtain ⟨date, kind, isFinalFragment, rsv, content⟩ := a
  cases kind with
  | close =>
    have hthrown : (handling factory id (date, ⟨.close, isFinalFragment, rsv, content⟩) (some h)).thrown =
        some (.runtime ("【" ++ className ++ "】不支持消息")) := rfl
    refine ⟨fun hr => ?_, fun hn => absurd rfl hn⟩
    rw [show Required id h _ ↔ _ ∧ _ = none from Iff.rfl, hthrown] at hr
    cases hr.2
  | text | ping => exact ⟨fun _ => nofun, fun _ => ⟨rfl, rfl⟩⟩
  | binary | continuation | pong | other name => exact ⟨fun _ => nofun, fun _ => ⟨rfl, rfl⟩⟩

namespace Session

theorem deliver_text (hk : a.2.kind = .text) (ho : s.isOpen = true) : s.deliver factory id a =
    { s with out := s.out.writeAndFlush [MyWebSocketHandler.tws a.1 id (newString a.2.content)]
             handled := s.handled ++ [handling factory id a s.handshaker] } := by
  rw [deliver, MyWebSocketHandler.deliver_text factory a.1 id s.handshaker hk]
  simp [apply, MyWebSocketHandler.frameLine, ho]

theorem deliver_ping (hk : a.2.kind = .ping) (ho : s.isOpen = true) : s.deliver factory id a =
    { s with out := s.out.write [pong a.2], handled := s.handled ++ [handling factory id a s.handshaker] } := by
  rw [deliver, MyWebSocketHandler.deliver_ping factory a.1 id s.handshaker hk]
  simp [apply, MyWebSocketHandler.frameLine, ho, pong]

theorem deliver_unsupported (hk : unsupported a.2 = true) : s.deliver factory id a =
    { s with isOpen := false, out := s.out.close, handled := s.handled ++ [handling factory id a s.handshaker] } := by
  have hkind : a.2.kind ≠ .close ∧ a.2.kind ≠ .ping ∧ a.2.kind ≠ .text := by
    refine ⟨fun h => ?_, fun h => ?_, fun h => ?_⟩ <;> simp [unsupported, h] at hk
  rw [deliver, MyWebSocketHandler.deliver_unsupported factory a.1 id s.handshaker hkind.1 hkind.2.1 hkind.2.2]
  rfl

/-- A frame leaves the handshaker and adds one entry. -/
theorem deliver_handled (hh : s.handshaker = some h) :
    (s.deliver factory id a).handshaker = some h ∧
      (s.deliver factory id a).handled = s.handled ++ [handling factory id a (some h)] := by
  refine ⟨?_, by rw [deliver, hh]⟩
  rw [deliver, hh]
  obtain ⟨date, kind, isFinalFragment, rsv, content⟩ := a
  cases kind <;> rfl

/-! ## A batch -/

theorem foldl_handled (hh : s.handshaker = some h) (batch : List Arrival) :
    (batch.foldl (deliver factory id) s).handshaker = some h ∧
      (batch.foldl (deliver factory id) s).handled =
        s.handled ++ batch.map fun a => handling factory id a (some h) := by
  induction batch generalizing s with
  | nil => simp [hh]
  | cons a batch ih =>
    obtain ⟨hh', hd⟩ : (s.deliver factory id a).handshaker = some h ∧ _ := deliver_handled hh
    rw [List.foldl_cons, (ih hh').2, hd]
    exact ⟨(ih hh').1, by simp⟩

/-- A closed channel stays closed and nothing more is flushed. -/
structure Shut (s s' : Session H) : Prop where
  closed : s'.isOpen = false
  wire : s'.out.wire = s.out.wire

theorem apply_shut (hc : s.isOpen = false) (x : Action H) : Shut s (s.apply x) := by
  cases x with
  | write frame | flush | broadcast frame | closeHandshake h frame =>
    rw [apply, hc]
    exact ⟨hc, rfl⟩
  | close => exact ⟨rfl, rfl⟩
  | _ => exact ⟨hc, rfl⟩

theorem Shut.trans {s s1 s2 : Session H} (h1 : Shut s s1) (h2 : Shut s1 s2) : Shut s s2 :=
  ⟨h2.closed, h2.wire.trans h1.wire⟩

theorem deliver_shut (hc : s.isOpen = false) (a : Arrival) : Shut s (s.deliver factory id a) := by
  have h : Shut s ((MyWebSocketHandler.deliver factory a.1 id (.frame a.2) s.handshaker).actions.foldl apply s) := by
    refine List.foldlRecOn (motive := Shut s) _ _ ⟨hc, rfl⟩ ?_
    intro s1 hs x _
    exact hs.trans (apply_shut hs.closed x)
  exact ⟨h.closed, h.wire⟩

theorem foldl_shut (hc : s.isOpen = false) (batch : List Arrival) : Shut s (batch.foldl (deliver factory id) s) := by
  refine List.foldlRecOn (motive := Shut s) batch _ ⟨hc, rfl⟩ ?_
  intro s1 hs a _
  exact hs.trans (deliver_shut hs.closed a)

theorem readComplete_open (ho : s.isOpen = true) : s.readComplete = { s with out := s.out.flush } := by
  show s.apply .flush = _
  rw [apply, if_pos ho]

theorem readComplete_shut (hc : s.isOpen = false) : s.readComplete = s := by
  show s.apply .flush = _
  rw [apply, hc]
  rfl

theorem readComplete_handled : s.readComplete.handled = s.handled ∧ s.readComplete.handshaker = s.handshaker := by
  cases ho : s.isOpen with
  | true => rw [readComplete_open ho]; exact ⟨rfl, rfl⟩
  | false => rw [readComplete_shut ho]; exact ⟨rfl, rfl⟩

/-- Without a close frame, a batch closes the channel where it has an unsupported one. -/
theorem foldl_isOpen (ho : s.isOpen = true) {batch : List Arrival} (hb : ∀ a ∈ batch, a.2.kind ≠ .close) :
    (batch.foldl (deliver factory id) s).isOpen = !(batch.map Prod.snd).any unsupported := by
  induction batch generalizing s with
  | nil => exact ho
  | cons a batch ih =>
    obtain ⟨ha, hb⟩ := List.forall_mem_cons.mp hb
    rw [List.foldl_cons, List.map_cons, List.any_cons]
    cases hu : unsupported a.2 with
    | true => rw [deliver_unsupported hu, (foldl_shut rfl batch).closed]; rfl
    | false =>
      rw [Bool.false_or]
      refine ih ?_ hb
      cases hk : a.2.kind with
      | text => rw [deliver_text hk ho]; exact ho
      | ping => rw [deliver_ping hk ho]; exact ho
      | close => exact absurd hk ha
      | binary | continuation | pong | other name => simp [unsupported, hk] at hu

/-! ## Pongs -/

theorem pongs_append (xs ys : List WebSocketFrame) : pongs (xs ++ ys) = pongs xs ++ pongs ys := List.filter_append ..

theorem answers_append (xs ys : List WebSocketFrame) : answers (xs ++ ys) = answers xs ++ answers ys := by
  rw [answers, List.filter_append, List.map_append]
  rfl

theorem answers_ping {f : WebSocketFrame} (hk : f.kind = .ping) : answers [f] = [pong f] := by
  simp [answers, hk]

theorem answers_eq_nil {fs : List WebSocketFrame} : answers fs = [] ↔ ∀ f ∈ fs, f.kind ≠ .ping := by
  simp [answers]

theorem frames_deliver : (s.deliver factory id a).frames = s.frames ++ [a.2] := by
  simp [frames, deliver, handling]

theorem frames_foldl (batch : List Arrival) :
    (batch.foldl (deliver factory id) s).frames = s.frames ++ batch.map Prod.snd := by
  induction batch generalizing s with
  | nil => simp
  | cons a batch ih =>
    rw [List.foldl_cons, ih, frames_deliver]
    simp

theorem frames_readComplete : s.readComplete.frames = s.frames := by
  rw [frames, readComplete_handled.1]
  rfl

/-- An exception settles the batch where no pong is queued and no ping is behind it. -/
theorem settles_unsupported (hu : unsupported a.2 = true) (hw : pongs s.out.written = answers s.frames)
    (batch : List Arrival) :
    Settled ((a :: batch).foldl (deliver factory id) s).readComplete ↔
      pongs s.out.unflushed = [] ∧ ∀ b ∈ batch.map Prod.snd, b.kind ≠ .ping := by
  have hping : a.2.kind ≠ .ping := fun hk => by simp [unsupported, hk] at hu
  have hshut : Shut (s.deliver factory id a) (batch.foldl (deliver factory id) (s.deliver factory id a)) :=
    foldl_shut (by rw [deliver_unsupported hu]) batch
  have hwire : ((a :: batch).foldl (deliver factory id) s).readComplete.out.wire = s.out.wire := by
    rw [List.foldl_cons, readComplete_shut hshut.closed, hshut.wire, deliver_unsupported hu]
    rfl
  have hframes : answers ((a :: batch).foldl (deliver factory id) s).readComplete.frames =
      pongs s.out.wire.sent ++ (pongs s.out.unflushed ++ answers (batch.map Prod.snd)) := by
    have ha : answers [a.2] = [] := answers_eq_nil.mpr (by simpa using hping)
    calc answers _ = answers s.frames ++ answers (batch.map Prod.snd) := by
          rw [frames_readComplete, frames_foldl, List.map_cons, answers_append, ← List.singleton_append,
            answers_append, ha, List.nil_append]
      _ = pongs s.out.wire.sent ++ (pongs s.out.unflushed ++ answers (batch.map Prod.snd)) := by
          rw [← hw, Outbound.written, pongs_append, List.append_assoc]
  rw [Settled, hwire, hframes, List.self_eq_append_right, List.append_eq_nil_iff, answers_eq_nil]

/-- The batch leaves no ping unanswered and has no close frame exactly where it is
    answerable. -/
theorem settles (ho : s.isOpen = true) (hw : pongs s.out.written = answers s.frames) {pending : Bool}
    (hp : pending = false ↔ pongs s.out.unflushed = []) (batch : List Arrival) :
    Settled (batch.foldl (deliver factory id) s).readComplete ∧ (∀ b ∈ batch.map Prod.snd, b.kind ≠ .close) ↔
      Answerable pending (batch.map Prod.snd) := by
  -- written so far are the answers to the pings so far; `pending` tells whether any waits
  induction batch generalizing s pending with
  | nil =>
    rw [List.foldl_nil, readComplete_open ho, Settled, Outbound.sent_flush]
    exact ⟨fun _ => trivial, fun _ => ⟨hw, nofun⟩⟩
  | cons a batch ih =>
    rw [List.map_cons, List.forall_mem_cons]
    have hframes : answers (s.deliver factory id a).frames = answers s.frames ++ answers [a.2] := by
      rw [frames_deliver, answers_append]
    cases hk : a.2.kind with
    | text =>
      have hpong : pongs [MyWebSocketHandler.tws a.1 id (newString a.2.content)] = [] := rfl
      have ha : answers [a.2] = [] := answers_eq_nil.mpr (by simp [hk])
      rw [Answerable, hk]
      simp only [ne_eq, reduceCtorEq, not_false_eq_true, true_and]
      refine ih ?_ ?_ ?_
      · rw [deliver_text hk ho]
        exact ho
      · rw [hframes, ha, deliver_text hk ho, Outbound.writeAndFlush_eq, Outbound.written_flush,
          Outbound.written_write, pongs_append, hpong, hw]
      · rw [deliver_text hk ho]
        exact ⟨fun _ => rfl, fun _ => rfl⟩
    | ping =>
      rw [Answerable, hk]
      simp only [ne_eq, reduceCtorEq, not_false_eq_true, true_and]
      refine ih ?_ ?_ ?_
      · rw [deliver_ping hk ho]
        exact ho
      · rw [hframes, answers_ping hk, deliver_ping hk ho, Outbound.written_write, pongs_append, hw]
        rfl
      · rw [deliver_ping hk ho]
        show true = false ↔ pongs (s.out.unflushed ++ [pong a.2]) = []
        simp [pongs, pong]
    | close => simp [Answerable, hk]
    | binary | continuation | pong | other name =>
      have hu : unsupported a.2 = true := by rw [unsupported, hk]
      rw [Answerable, hk, settles_unsupported hu hw batch]
      simp only [hp, ne_eq, reduceCtorEq, not_false_eq_true, true_and]
      rw [and_assoc, ← forall₂_and]

/-! ## Runs -/

/-- Open between two batches, with nothing owed. -/
structure Ready (factory : HandshakerFactory H) (id : JString) (h : H) (s : Session H) : Prop where
  isOpen : s.isOpen = true
  handshaker : s.handshaker = some h
  unflushed : s.out.unflushed = []
  sound : Sound id h s

theorem established_ready (h : H) : Ready factory id h (established h) :=
  ⟨rfl, rfl, rfl, nofun, rfl⟩

theorem read_eq (ho : s.isOpen = true) (batch : List Arrival) :
    s.read factory id batch = (batch.foldl (deliver factory id) s).readComplete := by
  rw [read, if_pos ho]

/-- What a batch adds is as required where it has no close frame. -/
theorem read_required (hs : Ready factory id h s) (batch : List Arrival) :
    (∀ x ∈ (s.read factory id batch).handled, Required id h x) ↔ ∀ b ∈ batch.map Prod.snd, b.kind ≠ .close := by
  rw [read_eq hs.isOpen, readComplete_handled.1, (foldl_handled hs.handshaker batch).2]
  constructor
  · intro hr b hb
    obtain ⟨a, ha, rfl⟩ := List.mem_map.mp hb
    exact handling_required.mp (hr _ (List.mem_append_right _ (List.mem_map_of_mem ha)))
  · intro hb x hx
    rcases List.mem_append.mp hx with hx | hx
    · exact hs.sound.handled x hx
    · obtain ⟨a, ha, rfl⟩ := List.mem_map.mp hx
      exact handling_required.mpr (hb a.2 (List.mem_map_of_mem ha))

theorem read_sound (hs : Ready factory id h s) (batch : List Arrival) :
    Sound id h (s.read factory id batch) ↔ Answerable false (batch.map Prod.snd) := by
  have hw : pongs s.out.written = answers s.frames := by
    rw [Outbound.written_eq hs.unflushed]
    exact hs.sound.settled
  have hq : false = false ↔ pongs s.out.unflushed = [] := by simp [hs.unflushed, pongs]
  have hsettles : Settled (batch.foldl (deliver factory id) s).readComplete ∧ _ ↔ _ := settles hs.isOpen hw hq batch
  rw [← hsettles, ← read_eq hs.isOpen, ← read_required hs batch]
  exact ⟨fun h => ⟨h.settled, h.handled⟩, fun h => ⟨h.2, h.1⟩⟩

/-- A batch that is settled leaves the channel ready, or closed where it has an
    unsupported frame. -/
theorem read_ready (hs : Ready factory id h s) {batch : List Arrival}
    (hr : Sound id h (s.read factory id batch)) :
    if (batch.map Prod.snd).any unsupported then (s.read factory id batch).isOpen = false
    else Ready factory id h (s.read factory id batch) := by
  have hopen : (batch.foldl (deliver factory id) s).isOpen = _ := foldl_isOpen hs.isOpen
    fun a ha => (read_required hs batch).mp hr.handled a.2 (List.mem_map_of_mem ha)
  split
  · rename_i hu
    rw [hu] at hopen
    rw [read_eq hs.isOpen, readComplete_shut hopen]
    exact hopen
  · rename_i hu
    rw [Bool.eq_false_iff.mpr hu] at hopen
    have hread := (read_eq hs.isOpen batch).trans (readComplete_open hopen)
    refine ⟨?_, ?_, ?_, hr⟩
    · rw [hread]
      exact hopen
    · rw [hread]
      exact (foldl_handled hs.handshaker batch).1
    · rw [hread]
      rfl

/-- Nothing is read once the channel is closed. -/
theorem run_shut (hc : s.isOpen = false) (batches : List (List Arrival)) : s.run factory id batches = s := by
  induction batches with
  | nil => rfl
  | cons batch batches ih =>
    rw [run, List.foldl_cons, read, hc]
    exact ih

theorem run_sound (hs : Ready factory id h s) (batches : List (List Arrival)) :
    (∀ n, Sound id h (s.run factory id (batches.take n))) ↔ AllAnswerable (batches.map (List.map Prod.snd)) := by
  induction batches generalizing s with
  | nil => exact ⟨fun _ => trivial, fun _ n => by rw [List.take_nil]; exact hs.sound⟩
  | cons batch batches ih =>
    have hsplit : (∀ n, Sound id h (s.run factory id ((batch :: batches).take n))) ↔
        ∀ n, Sound id h ((s.read factory id batch).run factory id (batches.take n)) := by
      refine ⟨fun hn n => hn (n + 1), fun hn n => ?_⟩
      cases n with
      | zero => exact hs.sound
      | succ n => exact hn n
    rw [hsplit, List.map_cons, AllAnswerable, ← read_sound hs batch]
    by_cases hr : Sound id h (s.read factory id batch)
    · have hready := read_ready hs hr
      split at hready
      · rename_i hu
        simp [run_shut hready, hr, hu]
      · rename_i hu
        rw [ih hready]
        simp [hr, hu]
    · exact ⟨fun hn => absurd (hn 0) hr, fun hn => absurd hn.1 hr⟩

end Session

/-- A run handles every frame as it should, and answers every ping by the end of its
    batch, exactly where no batch that is read has a close frame, or an unsupported frame
    with a pong queued before it or a ping behind it. -/
theorem handles_iff (factory : HandshakerFactory H) (id : JString) (h : H) (batches : List (List Arrival)) :
    Handles factory id h batches ↔ AllAnswerable (batches.map (List.map Prod.snd)) :=
  Session.run_sound (Session.established_ready h) batches

/-- A close frame alone: the closing handshake is begun, and the exception for binary
    frames is thrown. -/
theorem not_handles_close : ¬ Handles anyHandshake [] () [[([], ⟨.close, true, 0, [0x03, 0xe8]⟩)]] := by
  intro h
  have hx := (h 1).handled (handling anyHandshake [] ([], ⟨.close, true, 0, [0x03, 0xe8]⟩) (some ()))
    List.mem_cons_self
  exact handling_required.mp hx rfl

end NettyStudy.Websocket
