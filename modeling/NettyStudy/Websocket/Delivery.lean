/-
  NettyStudy.Websocket.Delivery — broadcasts over event loops. Each connection belongs to
  one loop, which handles its events one at a time. `NettyConfig.group.writeAndFlush`
  goes through the members one by one, on the loop of the connection whose text it is,
  while the other loops go on: a write to a member of the same loop is executed at once,
  any other is put into the queue of the member's loop. Members that leave meanwhile may
  or may not be written to, and so may those that join.

  A write reaches its channel where that is open and upgraded when the write's turn comes.

  Proved, over every interleaving of the loops:
  - `event_cases`: what an event of a connection begins.
  - `placed`: a broadcast is under way on its connection's loop only, and nothing is
    written that was not broadcast (`received_sent`).
  - `delivery_fifo`: what a member that stays has received of a connection's texts is a
    start of those texts, and all of them once the writes have run.
-/

import NettyStudy.Netty.EventLoop
import NettyStudy.Websocket.Chat

namespace NettyStudy.Websocket.Delivery

open NettyStudy.Text NettyStudy.Netty Function

/-- A broadcast's write to one member. -/
structure Write where
  sender : Nat
  receiver : Nat
  frame : WebSocketFrame
  deriving DecidableEq

/-- A frame that a connection has delivered to handleWebSocketFrame, and when. -/
structure Delivered where
  conn : Nat
  date : JString
  frame : WebSocketFrame

/-- A broadcast under way and the members it has written to. -/
structure Cast where
  broadcast : Broadcast
  visited : List Nat

structure Server (H : Type) (loopOf : Nat → Nat) where
  chat : St H
  /-- What each loop is in the middle of. -/
  casting : Nat → Option Cast
  loops : EventLoops (fun w : Write => loopOf w.sender) (fun w : Write => loopOf w.receiver)
  handled : List Delivered

variable {H : Type} {loopOf : Nat → Nat} (factory : HandshakerFactory H) (id : Nat → JString)

def init : Server H loopOf := ⟨Websocket.init, fun _ => none, .idle, []⟩

/-- The broadcast that a step has begun. -/
def begun (s s' : St H) : Option Broadcast := (s'.sent.drop s.sent.length).head?

def delivered (s : St H) : Event → List Delivered
  | .frame c date frame => if (s.chan c).upgraded.isSome then [⟨c, date, frame⟩] else []
  | _ => []

/-- The write reaches its channel. -/
def receives (s : St H) (w : Write) : Bool :=
  (s.chan w.receiver).phase = .connected ∧ (s.chan w.receiver).upgraded.isSome

namespace Server

variable (d : Server H loopOf)

/-- The event's loop is idle. Writes complete and connections are lost at any time. -/
def free : Event → Bool
  | .connect c | .request c _ | .frame c _ _ | .inactive c => (d.casting (loopOf c)).isNone
  | .written _ | .disconnect _ => true

def event (e : Event) : Server H loopOf :=
  { d with
    chat := step factory id d.chat e
    casting :=
      match begun d.chat (step factory id d.chat e) with
      | some b => update d.casting (loopOf b.sender) (some ⟨b, []⟩)
      | none => d.casting
    handled := d.handled ++ delivered d.chat e }

/-- Loop `ℓ`'s broadcast writes to `r`. -/
def issue (ℓ r : Nat) (cast : Cast) : Server H loopOf :=
  let w : Write := ⟨cast.broadcast.sender, r, cast.broadcast.frame⟩
  { d with
    casting := update d.casting ℓ (some { cast with visited := cast.visited ++ [r] })
    loops := d.loops.execute w (receives d.chat w) }

/-- What is to be broadcast for the texts of connection `s`, each behind its date and the
    connection's id. -/
def texts (s : Nat) : List WebSocketFrame :=
  (d.handled.filter fun x => x.conn = s ∧ x.frame.kind = .text).map fun x =>
    ⟨.text, true, 0, getBytes (x.date ++ id x.conn ++ literal " ===>>> " ++ newString x.frame.content)⟩

end Server

inductive Turn where
  | event (e : Event)
  | issue (ℓ r : Nat)
  /-- The broadcast of loop `ℓ` ends: every member that was there and still is has been
      written to. -/
  | done (ℓ : Nat)
  /-- Loop `ℓ` runs the write at the front of its queue. -/
  | run (ℓ : Nat)

def turn (d : Server H loopOf) : Turn → Server H loopOf
  | .event e => if d.free e then d.event factory id e else d
  | .issue ℓ r =>
    match d.casting ℓ with
    | some cast =>
      if r ∉ cast.visited ∧ (r ∈ cast.broadcast.recipients ∨ r ∈ d.chat.group) then d.issue ℓ r cast else d
    | none => d
  | .done ℓ =>
    match d.casting ℓ with
    | some cast =>
      if ∀ r ∈ cast.broadcast.recipients, r ∈ d.chat.group → r ∈ cast.visited then
        { d with casting := update d.casting ℓ none }
      else d
    | none => d
  | .run ℓ => if (d.casting ℓ).isNone then { d with loops := d.loops.run ℓ (receives d.chat) } else d

inductive Reach : Server H loopOf → Prop
  | init : Reach init
  | turn {d : Server H loopOf} (t : Turn) : Reach d → Reach (turn factory id d t)

/-- A run from `d0` in all of whose states `r` is in the group, upgraded from the start. -/
inductive Stays (r : Nat) (d0 : Server H loopOf) : Server H loopOf → Prop
  | start : r ∈ d0.chat.group → (d0.chat.chan r).upgraded.isSome → Stays r d0 d0
  | turn {d : Server H loopOf} (t : Turn) : Stays r d0 d → r ∈ (turn factory id d t).chat.group →
      Stays r d0 (turn factory id d t)

/-- The writes of connection `s` to `r`. -/
def lane (s r : Nat) (w : Write) : Bool := w.sender = s ∧ w.receiver = r

/-- What `r` has received of `s`'s texts, in order. -/
def Server.received (d : Server H loopOf) (s r : Nat) : List WebSocketFrame :=
  (d.loops.performed.filter (lane s r)).map Write.frame

/-! ## What an event begins -/

variable {factory id} {d : Server H loopOf}

theorem begun_none {s s' : St H} (h : s'.sent = s.sent) : begun s s' = none := by simp [begun, h]

theorem begun_some {s s' : St H} {b : Broadcast} (h : s'.sent = s.sent ++ [b]) : begun s s' = some b := by
  simp [begun, h]

theorem step_text {s : St H} {c : Nat} (date : JString) {frame : WebSocketFrame}
    (hu : (s.chan c).upgraded.isSome) (hk : frame.kind = .text) :
    (step factory id s (.frame c date frame)).sent =
      s.sent ++ [⟨c, MyWebSocketHandler.tws date (id c) (newString frame.content), s.group⟩] := by
  rw [step, if_pos hu, MyWebSocketHandler.deliver_text factory date (id c) _ hk]
  rfl

/-- The event delivers no text to its handler. -/
def Quiet (s : St H) (e : Event) : Prop :=
  ∀ c date frame, e = .frame c date frame → (s.chan c).upgraded.isSome → frame.kind ≠ .text

theorem step_quiet {s : St H} {e : Event} (h : Quiet s e) : (step factory id s e).sent = s.sent := by
  rcases step_sent factory id s e with hs | ⟨c, date, f, he, hk, hu, -⟩
  · exact hs
  · exact absurd hk (h c date f he hu)

theorem texts_append (d : Server H loopOf) (xs : List Delivered) (s : Nat) :
    { d with handled := d.handled ++ xs }.texts id s = d.texts id s ++ { d with handled := xs }.texts id s := by
  simp [Server.texts]

theorem texts_quiet {e : Event} (h : Quiet d.chat e) (s : Nat) : (d.event factory id e).texts id s = d.texts id s := by
  refine (texts_append d _ s).trans (List.append_right_eq_self.mpr ?_)
  cases e with
  | frame c date frame =>
    by_cases hu : (d.chat.chan c).upgraded.isSome
    · simp [Server.texts, delivered, hu, h c date frame rfl hu]
    · simp [Server.texts, delivered, hu]
  | _ => rfl

/-- An event begins the broadcast of the text it handles, on the loop that handles it,
    and no other. -/
theorem event_cases (d : Server H loopOf) (e : Event) :
    ((d.event factory id e).casting = d.casting ∧ ∀ s, (d.event factory id e).texts id s = d.texts id s) ∨
    ∃ c date f frame, e = .frame c date f ∧
      (d.event factory id e).casting = update d.casting (loopOf c) (some ⟨⟨c, frame, d.chat.group⟩, []⟩) ∧
      ∀ s, (d.event factory id e).texts id s = d.texts id s ++ if c = s then [frame] else [] := by
  by_cases h : Quiet d.chat e
  · left
    refine ⟨?_, texts_quiet h⟩
    rw [Server.event, begun_none (step_quiet h)]
  · right
    simp only [Quiet, not_forall, not_not] at h
    obtain ⟨c, date, f, rfl, hu, hk⟩ := h
    refine ⟨c, date, f, MyWebSocketHandler.tws date (id c) (newString f.content), rfl, ?_, fun s => ?_⟩
    · rw [Server.event, begun_some (step_text date hu hk)]
    · refine (texts_append d _ s).trans (congrArg (d.texts id s ++ ·) ?_)
      by_cases hs : c = s
      · subst hs
        simp [Server.texts, delivered, hu, hk, MyWebSocketHandler.tws]
      · simp [Server.texts, delivered, hu, hs]

/-! ## What is written was broadcast -/

/-- A loop is in the middle of a broadcast of one of its own connections, if of any; what
    is broadcast and what is written are texts that have been handled. -/
structure Placed (id : Nat → JString) (d : Server H loopOf) : Prop where
  chat : Inv d.chat
  casting : ∀ ℓ cast, d.casting ℓ = some cast →
    loopOf cast.broadcast.sender = ℓ ∧ cast.broadcast.frame ∈ d.texts id cast.broadcast.sender
  written : d.loops.Holds fun w => w.frame ∈ d.texts id w.sender

theorem casting_update (h : Placed id d) {ℓ : Nat} {o : Option Cast}
    (ho : ∀ cast, o = some cast →
      loopOf cast.broadcast.sender = ℓ ∧ cast.broadcast.frame ∈ d.texts id cast.broadcast.sender) :
    ∀ m cast, update d.casting ℓ o m = some cast →
      loopOf cast.broadcast.sender = m ∧ cast.broadcast.frame ∈ d.texts id cast.broadcast.sender := by
  intro m
  by_cases hm : m = ℓ
  · rw [hm, update_self]
    exact ho
  · rw [update_of_ne hm]
    exact h.casting m

theorem event_placed (h : Placed id d) (e : Event) : Placed id (d.event factory id e) := by
  obtain ⟨c, hmoves⟩ : ∃ c, Moves c d.chat (step factory id d.chat e) := step_moves factory id d.chat e
  have hchat : Inv (d.event factory id e).chat := moves_inv h.chat hmoves
  rcases event_cases d e with ⟨hcast, ht⟩ | ⟨c, date, f, frame, -, hcast, ht⟩
  · refine ⟨hchat, fun ℓ cast hc => ?_, h.written.mono fun w hw => ?_⟩
    · rw [hcast] at hc
      rw [ht]
      exact h.casting ℓ cast hc
    · rw [ht]
      exact hw
  · have hmono : ∀ s g, g ∈ d.texts id s → g ∈ (d.event factory id e).texts id s := by
      intro s g hg
      rw [ht]
      exact List.mem_append_left _ hg
    refine ⟨hchat, fun ℓ cast hc => ?_, h.written.mono fun w => hmono w.sender w.frame⟩
    rw [hcast] at hc
    by_cases hℓ : ℓ = loopOf c
    · rw [hℓ, update_self] at hc
      injection hc with hc
      subst hc
      refine ⟨hℓ.symm, ?_⟩
      rw [ht]
      exact List.mem_append_right _ (by simp)
    · rw [update_of_ne hℓ] at hc
      obtain ⟨hs, hf⟩ := h.casting ℓ cast hc
      exact ⟨hs, hmono _ _ hf⟩

theorem turn_placed (h : Placed id d) (t : Turn) : Placed id (turn factory id d t) := by
  cases t with
  | event e =>
    rw [turn]
    split
    · exact event_placed h e
    · exact h
  | issue ℓ r =>
    rcases hc : d.casting ℓ with _ | cast
    · simp only [turn, hc]
      exact h
    simp only [turn, hc]
    split
    · obtain ⟨hℓ, hf⟩ := h.casting ℓ cast hc
      refine ⟨h.chat, casting_update h fun c' hc' => ?_, h.written.execute hf _⟩
      injection hc' with hc'
      subst hc'
      exact ⟨hℓ, hf⟩
    · exact h
  | done ℓ =>
    rcases hc : d.casting ℓ with _ | cast
    · simp only [turn, hc]
      exact h
    simp only [turn, hc]
    split
    · exact ⟨h.chat, casting_update h nofun, h.written⟩
    · exact h
  | run ℓ =>
    rw [turn]
    split
    · exact ⟨h.chat, h.casting, h.written.run ℓ _⟩
    · exact h

theorem placed (h : Reach factory id d) : Placed id d := by
  induction h with
  | init => exact ⟨init_inv, nofun, EventLoops.holds_idle⟩
  | turn t _ ih => exact turn_placed ih t

/-- What a channel has received of a connection's texts has been handled there. -/
theorem received_sent (h : Reach factory id d) {s r : Nat} {frame : WebSocketFrame} (hf : frame ∈ d.received s r) :
    frame ∈ d.texts id s := by
  obtain ⟨w, hw, rfl⟩ := List.mem_map.mp hf
  obtain ⟨hw, hl⟩ := List.mem_filter.mp hw
  have hsender : w.sender = s := (of_decide_eq_true hl).1
  exact hsender ▸ (placed h).written.performed w hw

/-! ## Order -/

/-- The frame that the broadcast of connection `s` still has to write to `r`. -/
def Server.owed (d : Server H loopOf) (s r : Nat) : List WebSocketFrame :=
  match d.casting (loopOf s) with
  | some cast => if cast.broadcast.sender = s ∧ r ∉ cast.visited then [cast.broadcast.frame] else []
  | none => []

/-- What has been written to `r` for `s`, what is queued for it and what is owed it are
    `s`'s texts, in order. -/
structure Fifo (id : Nat → JString) (s r : Nat) (d : Server H loopOf) : Prop where
  member : r ∈ d.chat.group
  upgraded : (d.chat.chan r).upgraded.isSome
  recipient : ∀ cast, d.casting (loopOf s) = some cast → cast.broadcast.sender = s → r ∈ cast.broadcast.recipients
  course : (d.loops.course (lane s r) (loopOf r)).map Write.frame ++ d.owed s r = d.texts id s

variable {s r : Nat}

theorem lane_eq_true {w : Write} : lane s r w = true ↔ w.sender = s ∧ w.receiver = r := decide_eq_true_iff

theorem lane_lane : Lane (fun w : Write => loopOf w.sender) (fun w : Write => loopOf w.receiver) (lane s r)
    (loopOf s) (loopOf r) :=
  ⟨fun _ h => congrArg loopOf (lane_eq_true.mp h).1, fun _ h => congrArg loopOf (lane_eq_true.mp h).2⟩

theorem owed_none (h : d.casting (loopOf s) = none) : d.owed s r = [] := by rw [Server.owed, h]

theorem owed_some {cast : Cast} (h : d.casting (loopOf s) = some cast) :
    d.owed s r = if cast.broadcast.sender = s ∧ r ∉ cast.visited then [cast.broadcast.frame] else [] := by
  rw [Server.owed, h]

theorem owed_congr {d' : Server H loopOf} (h : d'.casting (loopOf s) = d.casting (loopOf s)) :
    d'.owed s r = d.owed s r := by
  rw [Server.owed, h]
  rfl

/-- A write to a member that has been upgraded does not fail. -/
theorem receives_lane (hp : Placed id d) (h : Fifo id s r d) {w : Write} (hw : lane s r w = true) :
    receives d.chat w = true := by
  have hr := (lane_eq_true.mp hw).2
  rw [receives, hr]
  exact decide_eq_true ⟨(hp.chat.members r).mp h.member, h.upgraded⟩

theorem event_fifo (h : Fifo id s r d) {e : Event} (hfree : d.free e = true)
    (hm : r ∈ (d.event factory id e).chat.group) : Fifo id s r (d.event factory id e) := by
  have hup : ((d.event factory id e).chat.chan r).upgraded.isSome := step_upgraded factory id e h.upgraded
  rcases event_cases d e with ⟨hcast, ht⟩ | ⟨c, date, f, frame, rfl, hcast, ht⟩
  · refine ⟨hm, hup, by rw [hcast]; exact h.recipient, ?_⟩
    rw [owed_congr (congrFun hcast _), ht]
    exact h.course
  · have hidle : d.casting (loopOf c) = none := Option.isNone_iff_eq_none.mp hfree
    -- on the loop that was idle the new broadcast is all that is owed, whoever's it is
    by_cases hl : loopOf s = loopOf c
    · have hcast' : (d.event factory id (.frame c date f)).casting (loopOf s) =
          some ⟨⟨c, frame, d.chat.group⟩, []⟩ := by rw [hcast, hl, update_self]
      refine ⟨hm, hup, fun cast hc _ => ?_, ?_⟩
      · rw [hcast'] at hc
        injection hc with hc
        subst hc
        exact h.member
      · have hcourse := h.course
        rw [owed_none (hl ▸ hidle), List.append_nil] at hcourse
        rw [owed_some hcast', ht, ← hcourse]
        simp only [List.not_mem_nil, not_false_eq_true, and_true]
        rfl
    · have hcast' : (d.event factory id (.frame c date f)).casting (loopOf s) = d.casting (loopOf s) := by
        rw [hcast, update_of_ne hl]
      have hc : c ≠ s := fun hc => hl (congrArg loopOf hc.symm)
      refine ⟨hm, hup, by rw [hcast']; exact h.recipient, ?_⟩
      rw [owed_congr hcast', ht, if_neg hc, List.append_nil]
      exact h.course

/-- A write to `r` settles what the broadcast owed it, and any other leaves it. -/
theorem owed_issue (hp : Placed id d) {ℓ r' : Nat} {cast : Cast} (hc : d.casting ℓ = some cast) :
    (d.issue ℓ r' cast).owed s r = if cast.broadcast.sender = s ∧ r' = r then [] else d.owed s r := by
  by_cases hl : loopOf s = ℓ
  · subst hl
    have hcast : (d.issue (loopOf s) r' cast).casting (loopOf s) =
        some { cast with visited := cast.visited ++ [r'] } := update_self ..
    rw [owed_some hcast, owed_some hc]
    by_cases hr : r' = r
    · subst hr
      by_cases hs : cast.broadcast.sender = s <;> simp [hs]
    · simp [hr, Ne.symm hr]
  · have hs : cast.broadcast.sender ≠ s := fun hs => hl (hs ▸ (hp.casting ℓ cast hc).1)
    rw [owed_congr (update_of_ne hl ..), if_neg fun hn => hs hn.1]

theorem course_issue (hp : Placed id d) (h : Fifo id s r d) (ℓ r' : Nat) (cast : Cast) :
    ((d.issue ℓ r' cast).loops.course (lane s r) (loopOf r)).map Write.frame =
      (d.loops.course (lane s r) (loopOf r)).map Write.frame ++
        if cast.broadcast.sender = s ∧ r' = r then [cast.broadcast.frame] else [] := by
  show ((d.loops.execute _ _).course _ _).map Write.frame = _
  by_cases hsr : cast.broadcast.sender = s ∧ r' = r
  · have hlane : lane s r ⟨cast.broadcast.sender, r', cast.broadcast.frame⟩ = true := lane_eq_true.mpr hsr
    rw [receives_lane hp h hlane, EventLoops.course_execute lane_lane hlane, List.map_append, if_pos hsr]
    rfl
  · have hlane : lane s r ⟨cast.broadcast.sender, r', cast.broadcast.frame⟩ = false := decide_eq_false hsr
    rw [EventLoops.course_execute_other hlane, if_neg hsr, List.append_nil]

theorem issue_fifo (hp : Placed id d) (h : Fifo id s r d) {ℓ r' : Nat} {cast : Cast} (hc : d.casting ℓ = some cast)
    (hv : r' ∉ cast.visited) : Fifo id s r (d.issue ℓ r' cast) := by
  refine ⟨h.member, h.upgraded, fun c' hc' hs' => ?_, ?_⟩
  · change update d.casting ℓ (some { cast with visited := cast.visited ++ [r'] }) (loopOf s) = some c' at hc'
    by_cases hl : loopOf s = ℓ
    · subst hl
      rw [update_self] at hc'
      injection hc' with hc'
      subst hc'
      exact h.recipient cast hc hs'
    · rw [update_of_ne hl] at hc'
      exact h.recipient c' hc' hs'
  · rw [owed_issue hp hc, course_issue hp h]
    by_cases hsr : cast.broadcast.sender = s ∧ r' = r
    · obtain ⟨hs, rfl⟩ := hsr
      have howed : d.owed s r' = [cast.broadcast.frame] := by
        rw [owed_some (hs ▸ (hp.casting ℓ cast hc).1 ▸ hc), if_pos ⟨hs, hv⟩]
      rw [if_pos ⟨hs, rfl⟩, if_pos ⟨hs, rfl⟩, List.append_nil, ← howed]
      exact h.course
    · rw [if_neg hsr, if_neg hsr, List.append_nil]
      exact h.course

/-- A broadcast ends with nothing owed to a member. -/
theorem done_fifo (h : Fifo id s r d) {ℓ : Nat} {cast : Cast} (hc : d.casting ℓ = some cast)
    (hv : ∀ r ∈ cast.broadcast.recipients, r ∈ d.chat.group → r ∈ cast.visited) :
    Fifo id s r { d with casting := update d.casting ℓ none } := by
  by_cases hl : loopOf s = ℓ
  · subst hl
    have howed : d.owed s r = [] := by
      rw [owed_some hc, if_neg]
      intro hn
      exact hn.2 (hv r (h.recipient cast hc hn.1) h.member)
    refine ⟨h.member, h.upgraded, fun c' hc' => ?_, ?_⟩
    · change update d.casting (loopOf s) none (loopOf s) = some c' at hc'
      rw [update_self] at hc'
      cases hc'
    · rw [owed_none (update_self ..)]
      have hcourse := h.course
      rw [howed] at hcourse
      exact hcourse
  · have hcast : update d.casting ℓ none (loopOf s) = d.casting (loopOf s) := update_of_ne hl ..
    refine ⟨h.member, h.upgraded, fun c' hc' => h.recipient c' (hcast ▸ hc'), ?_⟩
    rw [owed_congr hcast]
    exact h.course

theorem run_fifo (hp : Placed id d) (h : Fifo id s r d) (ℓ : Nat) :
    Fifo id s r { d with loops := d.loops.run ℓ (receives d.chat) } := by
  refine ⟨h.member, h.upgraded, h.recipient, ?_⟩
  show ((d.loops.run ℓ _).course _ _).map Write.frame ++ d.owed s r = _
  rw [EventLoops.course_run lane_lane (fun w => receives_lane hp h)]
  exact h.course

theorem turn_fifo (hp : Placed id d) (h : Fifo id s r d) (t : Turn) (hm : r ∈ (turn factory id d t).chat.group) :
    Fifo id s r (turn factory id d t) := by
  cases t with
  | event e =>
    rw [turn] at hm ⊢
    split at hm <;> rename_i hf
    · rw [if_pos hf]
      exact event_fifo h hf hm
    · rw [if_neg hf]
      exact h
  | issue ℓ r' =>
    rcases hc : d.casting ℓ with _ | cast
    · simp only [turn, hc]
      exact h
    simp only [turn, hc]
    split
    · rename_i hv
      exact issue_fifo hp h hc hv.1
    · exact h
  | done ℓ =>
    rcases hc : d.casting ℓ with _ | cast
    · simp only [turn, hc]
      exact h
    simp only [turn, hc]
    split
    · rename_i hv
      exact done_fifo h hc hv
    · exact h
  | run ℓ =>
    rw [turn]
    split
    · exact run_fifo hp h ℓ
    · exact h

/-- Before its first text nothing of a connection's is written or under way. -/
theorem start_fifo (hp : Placed id d) (ht : d.texts id s = []) (hm : r ∈ d.chat.group)
    (hu : (d.chat.chan r).upgraded.isSome) : Fifo id s r d := by
  have hcast : ∀ cast, d.casting (loopOf s) = some cast → cast.broadcast.sender ≠ s := by
    intro cast hc hs
    have hf := (hp.casting _ cast hc).2
    rw [hs, ht] at hf
    cases hf
  have howed : d.owed s r = [] := by
    rcases hc : d.casting (loopOf s) with _ | cast
    · exact owed_none hc
    · rw [owed_some hc, if_neg fun hn => hcast cast hc hn.1]
  have hcourse : d.loops.course (lane s r) (loopOf r) = [] := by
    refine EventLoops.course_nil (hp.written.mono fun w hw => decide_eq_false fun hl => ?_)
    rw [hl.1, ht] at hw
    cases hw
  refine ⟨hm, hu, fun cast hc hs => absurd hs (hcast cast hc), ?_⟩
  rw [hcourse, howed, ht]
  rfl

theorem fifo_of_stays {d0 : Server H loopOf} (h0 : Reach factory id d0) (hs : d0.texts id s = [])
    (h : Stays factory id r d0 d) : Reach factory id d ∧ Fifo id s r d := by
  induction h with
  | start hm hu => exact ⟨h0, start_fifo (placed h0) hs hm hu⟩
  | turn t _ hm ih =>
    obtain ⟨hreach, hf⟩ := ih
    exact ⟨.turn t hreach, turn_fifo (placed hreach) hf t hm⟩

/-- Over every run: where `r` is upgraded and in the group from before `s`'s first text on,
    what it has received of `s`'s texts is a start of the texts `s` has handled, each
    once and in order, and all of them once `s`'s loop is idle and `r`'s queue has run. -/
theorem delivery_fifo (factory : HandshakerFactory H) (id : Nat → JString) (loopOf : Nat → Nat)
    (d0 d : Server H loopOf) (s r : Nat) (h0 : Reach factory id d0) (hs : d0.texts id s = [])
    (h : Stays factory id r d0 d) :
    d.received s r <+: d.texts id s ∧
      (d.casting (loopOf s) = none → d.loops.queue (loopOf r) = [] → d.received s r = d.texts id s) := by
  obtain ⟨-, hf⟩ := fifo_of_stays h0 hs h
  have hcourse := hf.course
  refine ⟨?_, fun hidle hqueue => ?_⟩
  · have hreceived : d.received s r <+: (d.loops.course (lane s r) (loopOf r)).map Write.frame :=
      (d.loops.performed_prefix _ _).map _
    exact hreceived.trans (hcourse ▸ List.prefix_append _ _)
  · rw [Server.received, d.loops.performed_eq hqueue, ← hcourse, owed_none hidle, List.append_nil]

section
/-- Connections 0 and 1, on loops of their own, both upgraded. -/
def twoLoops : Server Unit fun c => c :=
  [Turn.event (.connect 0), .event (.connect 1), .event (.request 0 upgradeRequest),
    .event (.request 1 upgradeRequest)].foldl (turn anyHandshake fun _ => []) init

theorem reach_twoLoops : Reach anyHandshake (fun _ => []) twoLoops :=
  .turn (.event (.request 1 upgradeRequest)) (.turn (.event (.request 0 upgradeRequest))
    (.turn (.event (.connect 1)) (.turn (.event (.connect 0)) .init)))

/-- Connection 0 handles a text; 1 is written to from 0's loop and its own loop runs the
    write. -/
def helloDelivered : Server Unit fun c => c :=
  [Turn.event (.frame 0 [] hello), .issue 0 1, .issue 0 0, .done 0, .run 1].foldl (turn anyHandshake fun _ => [])
    twoLoops

theorem stays_helloDelivered : Stays anyHandshake (fun _ => []) 1 twoLoops helloDelivered :=
  .turn (.run 1) (.turn (.done 0) (.turn (.issue 0 0) (.turn (.issue 0 1) (.turn (.event (.frame 0 [] hello))
    (.start (by decide) (by decide)) (by decide)) (by decide)) (by decide)) (by decide)) (by decide)

/-- Connection 1 has received the text. -/
theorem delivery_fifo_hello :
    helloDelivered.received 0 1 = helloDelivered.texts (fun _ => []) 0 ∧ (helloDelivered.received 0 1).length = 1 := by
  have h := delivery_fifo anyHandshake (fun _ => []) (fun c => c) twoLoops helloDelivered 0 1 reach_twoLoops
    (by decide) stays_helloDelivered
  exact ⟨h.2 (by decide) (by decide), by decide⟩
end

end NettyStudy.Websocket.Delivery
