/-
  NettyStudy.Websocket.Chat — the WebSocket server: any number of connections, each with
  its own MyWebSocketHandler, and NettyConfig.group, which they share.

  A connection starts in HTTP. A handshake that does not throw upgrades it: frames are
  delivered only from then on, and requests no more. A CLOSE listener closes the channel
  when the write it waits for is done (`written`); a closed channel leaves the group,
  and channelInactive runs later. What is left of a batch whose channel an exception has
  closed is delivered all the same. A broadcast writes one copy to every channel in the
  group at the time.

  Proved, over every interleaving of connects, requests, frames, completed writes and
  disconnects:
  - `step_moves`: what a step does to the connections and the group: one connection
    joins, leaves, or none does.
  - `step_upgraded`: an upgraded connection stays upgraded.
  - `inv`: the group is exactly the connected channels, and a channel that has begun the
    closing handshake is closed by the end of the same step.
  - `broadcast_recipients`: a broadcast goes once to every connected channel, upgraded or
    not, and to none that has begun the closing handshake.
-/

import NettyStudy.Websocket.Handler

namespace NettyStudy.Websocket

open NettyStudy.Text NettyStudy.Netty

inductive Phase where
  | fresh
  | connected
  | closed
  deriving DecidableEq

structure Channel (H : Type) where
  phase : Phase
  /-- The handler's field. -/
  handshaker : Option H
  /-- The handshaker that upgraded the connection. -/
  upgraded : Option H
  /-- The closing handshake has begun. -/
  closing : Bool
  closeOnWrite : Bool

structure Broadcast where
  sender : Nat
  frame : WebSocketFrame
  recipients : List Nat
  deriving DecidableEq

structure St (H : Type) where
  chan : Nat → Channel H
  group : List Nat
  sent : List Broadcast

variable {H : Type}

def init : St H := ⟨fun _ => ⟨.fresh, none, none, false, false⟩, [], []⟩

namespace St

def set (s : St H) (c : Nat) (ch : Channel H) : St H := { s with chan := fun d => if d = c then ch else s.chan d }

/-- A closed channel leaves the group. -/
def close (s : St H) (c : Nat) : St H :=
  { s.set c { s.chan c with phase := .closed } with group := s.group.filter (· ≠ c) }

/-- What channel `c`'s handler does. -/
def apply (c : Nat) (s : St H) : Action H → St H
  | .groupAdd => { s with group := if c ∈ s.group then s.group else s.group ++ [c] }
  | .groupRemove => { s with group := s.group.filter (· ≠ c) }
  | .close => s.close c
  | .closeOnWrite => s.set c { s.chan c with closeOnWrite := true }
  | .handshake h => s.set c { s.chan c with upgraded := some h }
  | .closeHandshake _ _ => s.set c { s.chan c with closing := true, closeOnWrite := true }
  | .broadcast frame => { s with sent := s.sent ++ [⟨c, frame, s.group⟩] }
  | .println _ | .flush | .respond _ | .sendUnsupportedWebSocketVersionResponse | .write _ => s

/-- The handler's outcome: its field, then what it did. -/
def finish (s : St H) (c : Nat) (r : HandlerSt H) : St H :=
  r.actions.foldl (apply c) (s.set c { s.chan c with handshaker := r.handshaker })

end St

inductive Event where
  | connect (c : Nat)
  | request (c : Nat) (req : FullHttpRequest)
  | frame (c : Nat) (date : JString) (frame : WebSocketFrame)
  | written (c : Nat)
  | disconnect (c : Nat)
  | inactive (c : Nat)

variable (factory : HandshakerFactory H) (id : Nat → JString)

/-- The handler of a method that does not throw. -/
def actionsOf (m : Handler H Unit) (handshaker : Option H) : HandlerSt H :=
  match m ⟨handshaker, []⟩ with
  | .ok _ r => r
  | .error _ r => r

def step (s : St H) : Event → St H
  | .connect c =>
    if (s.chan c).phase = .fresh then
      (s.set c { s.chan c with phase := .connected }).finish c
        (actionsOf MyWebSocketHandler.channelActive (s.chan c).handshaker)
    else s
  | .request c req =>
    if (s.chan c).phase ≠ .fresh ∧ (s.chan c).upgraded.isNone then
      s.finish c (MyWebSocketHandler.deliver factory [] (id c) (.request req) (s.chan c).handshaker)
    else s
  | .frame c date frame =>
    if (s.chan c).upgraded.isSome then
      s.finish c (MyWebSocketHandler.deliver factory date (id c) (.frame frame) (s.chan c).handshaker)
    else s
  | .written c => if (s.chan c).phase = .connected ∧ (s.chan c).closeOnWrite then s.close c else s
  | .disconnect c => if (s.chan c).phase = .connected then s.close c else s
  | .inactive c =>
    if (s.chan c).phase = .closed then
      s.finish c (actionsOf MyWebSocketHandler.channelInactive (s.chan c).handshaker)
    else s

inductive Reach : St H → Prop
  | init : Reach init
  | step {s : St H} (e : Event) : Reach s → Reach (step factory id s e)

/-! ## What a step does to the connections and the group -/

@[simp] theorem set_same (s : St H) (c : Nat) (ch : Channel H) : (s.set c ch).chan c = ch := if_pos rfl

@[simp] theorem set_other {s : St H} {c d : Nat} {ch : Channel H} (h : d ≠ c) : (s.set c ch).chan d = s.chan d :=
  if_neg h

/-- A handler does nothing to other channels. -/
theorem apply_others {c d : Nat} (hd : d ≠ c) (s : St H) (a : Action H) : (s.apply c a).chan d = s.chan d := by
  cases a with
  | close | closeOnWrite | handshake h | closeHandshake h frame => exact set_other hd
  | _ => rfl

theorem finish_others {c d : Nat} (hd : d ≠ c) (s : St H) (r : HandlerSt H) : (s.finish c r).chan d = s.chan d := by
  refine List.foldlRecOn (motive := fun s1 : St H => s1.chan d = s.chan d) r.actions _ (set_other hd) ?_
  intro s1 hs a _
  rw [apply_others hd, hs]

/-- The actions that move a channel in or out. -/
def Action.moves : Action H → Bool
  | .groupAdd | .groupRemove | .close => true
  | _ => false

def Action.beginsClosing : Action H → Bool
  | .closeHandshake _ _ => true
  | _ => false

def Action.isBroadcast : Action H → Bool
  | .broadcast _ => true
  | _ => false

/-- The other channels, the group and channel `c`'s phase are as they were. -/
structure Keeps (c : Nat) (s s' : St H) : Prop where
  others : ∀ d, d ≠ c → s'.chan d = s.chan d
  group : s'.group = s.group
  phase : (s'.chan c).phase = (s.chan c).phase

theorem Keeps.refl (c : Nat) (s : St H) : Keeps c s s := ⟨fun _ _ => rfl, rfl, rfl⟩

theorem Keeps.trans {c : Nat} {s s1 s2 : St H} (h1 : Keeps c s s1) (h2 : Keeps c s1 s2) : Keeps c s s2 :=
  ⟨fun d hd => (h2.others d hd).trans (h1.others d hd), h2.group.trans h1.group, h2.phase.trans h1.phase⟩

theorem set_keeps {s : St H} {c : Nat} {ch : Channel H} (h : ch.phase = (s.chan c).phase) : Keeps c s (s.set c ch) :=
  ⟨fun _ hd => set_other hd, rfl, by rw [set_same, h]⟩

theorem apply_keeps (c : Nat) (s : St H) {a : Action H} (h : a.moves = false) : Keeps c s (s.apply c a) := by
  cases a with
  | groupAdd | groupRemove | close => cases h
  | closeOnWrite | handshake h' | closeHandshake h' frame => exact set_keeps rfl
  | println line | flush | respond res | sendUnsupportedWebSocketVersionResponse | write frame => exact .refl c s
  | broadcast frame => exact ⟨fun _ _ => rfl, rfl, rfl⟩

theorem apply_closing (c : Nat) (s : St H) {a : Action H} (h : a.moves = false) (hc : a.beginsClosing = false) :
    ((s.apply c a).chan c).closing = (s.chan c).closing := by
  cases a with
  | groupAdd | groupRemove | close => cases h
  | closeHandshake h' frame => cases hc
  | closeOnWrite | handshake h' =>
    show ((s.set c _).chan c).closing = _
    rw [set_same]
  | _ => rfl

/-- So do any number of actions that move nothing. -/
theorem foldl_keeps (c : Nat) (as : List (Action H)) (s : St H) (h : ∀ a ∈ as, a.moves = false) :
    Keeps c s (as.foldl (St.apply c) s) := by
  refine List.foldlRecOn (motive := Keeps c s) as _ (.refl c s) ?_
  intro s1 hs a ha
  exact hs.trans (apply_keeps c s1 (h a ha))

theorem foldl_closing (c : Nat) (as : List (Action H)) (s : St H)
    (h : ∀ a ∈ as, a.moves = false ∧ a.beginsClosing = false) :
    ((as.foldl (St.apply c) s).chan c).closing = (s.chan c).closing := by
  refine List.foldlRecOn (motive := fun s1 : St H => (s1.chan c).closing = (s.chan c).closing) as _ rfl ?_
  intro s1 hs a ha
  obtain ⟨hm, hc⟩ := h a ha
  exact (apply_closing c s1 hm hc).trans hs

theorem apply_sent (c : Nat) (s : St H) {a : Action H} (h : a.isBroadcast = false) : (s.apply c a).sent = s.sent := by
  cases a with
  | broadcast frame => cases h
  | _ => rfl

theorem foldl_sent (c : Nat) (as : List (Action H)) (s : St H) (h : ∀ a ∈ as, a.isBroadcast = false) :
    (as.foldl (St.apply c) s).sent = s.sent := by
  refine List.foldlRecOn (motive := fun s1 : St H => s1.sent = s.sent) as _ rfl ?_
  intro s1 hs a ha
  exact (apply_sent c s1 (h a ha)).trans hs

/-- One connection joins, leaves, or none does. -/
inductive Moves (c : Nat) (s s' : St H) : Prop
  | stays : Keeps c s s' → (s'.chan c).closing = (s.chan c).closing → Moves c s s'
  | joins : (∀ d, d ≠ c → s'.chan d = s.chan d) → (s.chan c).phase = .fresh → (s'.chan c).phase = .connected →
      (s'.chan c).closing = (s.chan c).closing → s'.group = (if c ∈ s.group then s.group else s.group ++ [c]) →
      Moves c s s'
  | leaves : (∀ d, d ≠ c → s'.chan d = s.chan d) → (s'.chan c).phase = .closed →
      s'.group = s.group.filter (· ≠ c) → Moves c s s'

theorem moves_refl (c : Nat) (s : St H) : Moves c s s := .stays (.refl c s) rfl

theorem close_moves {s s1 : St H} {c : Nat} (h : Keeps c s s1) : Moves c s (s1.close c) := by
  refine .leaves ?_ ?_ ?_
  · intro d hd
    rw [← h.others d hd]
    exact set_other hd
  · exact congrArg Channel.phase (set_same s1 c _)
  · rw [← h.group]
    rfl

/-- A handler that leaves the closing handshake alone moves nothing. -/
theorem finish_stays (s : St H) (c : Nat) {r : HandlerSt H}
    (h : ∀ a ∈ r.actions, a.moves = false ∧ a.beginsClosing = false) : Moves c s (s.finish c r) := by
  have hset : Keeps c s (s.set c { s.chan c with handshaker := r.handshaker }) := set_keeps rfl
  refine .stays (hset.trans (foldl_keeps c _ _ fun a ha => (h a ha).1)) ?_
  rw [St.finish, foldl_closing c _ _ h, set_same]

/-- One that ends with a close leaves, whatever it did before. -/
theorem finish_leaves (s : St H) (c : Nat) {r : HandlerSt H} {as : List (Action H)} (hr : r.actions = as ++ [.close])
    (h : ∀ a ∈ as, a.moves = false) : Moves c s (s.finish c r) := by
  have hset : Keeps c s (s.set c { s.chan c with handshaker := r.handshaker }) := set_keeps rfl
  rw [St.finish, hr, List.foldl_append]
  exact close_moves (hset.trans (foldl_keeps c as _ h))

/-- What handling a message amounts to: a text frame is broadcast; nothing else is, and
    no closing handshake begins without the channel being closed. -/
inductive Shape (date cid : JString) (msg : Msg) : List (Action H) → Prop
  | quiet {as : List (Action H)} :
      (∀ a ∈ as, (a.moves = false ∧ a.beginsClosing = false) ∧ a.isBroadcast = false) → Shape date cid msg as
  | closes (as : List (Action H)) : (∀ a ∈ as, a.moves = false ∧ a.isBroadcast = false) →
      Shape date cid msg (as ++ [.close])
  | text {frame : WebSocketFrame} {line : JString} : msg = .frame frame → frame.kind = .text →
      Shape date cid msg [MyWebSocketHandler.frameLine, .println line,
        .broadcast (MyWebSocketHandler.tws date cid (newString frame.content))]

open MyWebSocketHandler in
theorem deliver_shape (date cid : JString) (msg : Msg) (hs : Option H) :
    Shape date cid msg (deliver factory date cid msg hs).actions := by
  cases msg with
  | unknown => exact .quiet fun a ha => by cases ha
  | request req =>
    rcases request_cases factory date cid hs req with hd | hd | ⟨h, hd | hd⟩
    · rw [hd]
      exact .quiet (by simp [Action.moves, Action.beginsClosing, Action.isBroadcast, httpLine])
    · rw [hd]
      exact .quiet (by simp [Action.moves, Action.beginsClosing, Action.isBroadcast, httpLine])
    · rw [hd]
      exact .quiet (by simp [Action.moves, Action.beginsClosing, Action.isBroadcast, httpLine])
    · rw [hd]
      exact .closes [httpLine] (by simp [Action.moves, Action.isBroadcast, httpLine])
  | frame frame =>
    rcases frame_cases factory date cid hs frame with ⟨ht, hd⟩ | hd | ⟨h, -, hd⟩ | ⟨-, hd⟩ | hd
    · rw [hd]
      exact .text rfl ht
    · rw [hd]
      exact .quiet (by simp [Action.moves, Action.beginsClosing, Action.isBroadcast, frameLine])
    · rw [hd]
      exact .closes [frameLine, .closeHandshake h frame, unsupportedLine]
        (by simp [Action.moves, Action.isBroadcast, frameLine, unsupportedLine])
    · rw [hd]
      exact .closes [frameLine] (by simp [Action.moves, Action.isBroadcast, frameLine])
    · rw [hd]
      exact .closes [frameLine, unsupportedLine]
        (by simp [Action.moves, Action.isBroadcast, frameLine, unsupportedLine])

theorem Shape.finish_moves {date cid : JString} {msg : Msg} (s : St H) (c : Nat) {r : HandlerSt H}
    (h : Shape date cid msg r.actions) : Moves c s (s.finish c r) := by
  generalize has : r.actions = as at h
  cases h with
  | quiet h => exact finish_stays s c fun a ha => (h a (has ▸ ha)).1
  | closes as' h => exact finish_leaves s c has fun a ha => (h a ha).1
  | text hm hk =>
    refine finish_stays s c ?_
    rw [has]
    simp [Action.moves, Action.beginsClosing, MyWebSocketHandler.frameLine]

theorem Shape.finish_sent {date cid : JString} {msg : Msg} (s : St H) (c : Nat) {r : HandlerSt H}
    (h : Shape date cid msg r.actions) : (s.finish c r).sent = s.sent ∨
      ∃ frame, msg = .frame frame ∧ frame.kind = .text ∧ (s.finish c r).sent =
        s.sent ++ [⟨c, MyWebSocketHandler.tws date cid (newString frame.content), s.group⟩] := by
  generalize has : r.actions = as at h
  cases h with
  | quiet h =>
    left
    rw [St.finish, has, foldl_sent c as _ fun a ha => (h a ha).2]
    rfl
  | closes as' h =>
    left
    rw [St.finish, has, List.foldl_append]
    exact foldl_sent c _ _ fun a ha => (h a ha).2
  | text hm hk =>
    right
    refine ⟨_, hm, hk, ?_⟩
    rw [St.finish, has]
    rfl

theorem step_moves (s : St H) (e : Event) : ∃ c, Moves c s (step factory id s e) := by
  cases e with
  | connect c =>
    refine ⟨c, ?_⟩
    rw [step]
    split
    · rename_i h
      refine .joins ?_ h ?_ ?_ rfl
      · intro d hd
        rw [finish_others hd, set_other hd]
      · show ((St.set (s.set c _) c _).chan c).phase = _
        rw [set_same, set_same]
      · show ((St.set (s.set c _) c _).chan c).closing = _
        rw [set_same, set_same]
    · exact moves_refl c s
  | request c req | frame c date frame =>
    refine ⟨c, ?_⟩
    rw [step]
    split
    · exact (deliver_shape factory _ (id c) _ _).finish_moves s c
    · exact moves_refl c s
  | written c | disconnect c =>
    refine ⟨c, ?_⟩
    rw [step]
    split
    · exact close_moves (.refl c s)
    · exact moves_refl c s
  | inactive c =>
    refine ⟨c, ?_⟩
    rw [step]
    split
    · rename_i h
      refine .leaves ?_ ?_ rfl
      · intro d hd
        exact finish_others hd s _
      · show ((s.set c _).chan c).phase = _
        rw [set_same]
        exact h
    · exact moves_refl c s

/-- A step broadcasts at most once, for a text frame on an upgraded connection, and to
    the group as it is. -/
theorem step_sent (s : St H) (e : Event) : (step factory id s e).sent = s.sent ∨
    ∃ c date frame, e = .frame c date frame ∧ frame.kind = .text ∧ (s.chan c).upgraded.isSome ∧
      (step factory id s e).sent =
        s.sent ++ [⟨c, MyWebSocketHandler.tws date (id c) (newString frame.content), s.group⟩] := by
  cases e with
  | connect c | inactive c =>
    left
    rw [step]
    split <;> rfl
  | written c | disconnect c =>
    left
    rw [step]
    split <;> rfl
  | request c req =>
    left
    rw [step]
    split
    · rcases (deliver_shape factory [] (id c) (.request req) _).finish_sent s c with h | ⟨frame, hm, -⟩
      · exact h
      · cases hm
    · rfl
  | frame c date frame =>
    rw [step]
    split
    · rename_i h
      rcases (deliver_shape factory date (id c) (.frame frame) _).finish_sent s c with hs | ⟨frame', hm, hk, hs⟩
      · exact Or.inl hs
      · injection hm with hm
        subst hm
        exact Or.inr ⟨c, date, frame, rfl, hk, h, hs⟩
    · exact Or.inl rfl

/-! ## An upgrade stays -/

theorem set_upgraded {s : St H} {c d : Nat} (ch : Channel H) (h : (s.chan c).upgraded.isSome → ch.upgraded.isSome)
    (hd : (s.chan d).upgraded.isSome) : ((s.set c ch).chan d).upgraded.isSome := by
  by_cases hdc : d = c
  · subst hdc
    rw [set_same]
    exact h hd
  · rw [set_other hdc]
    exact hd

theorem apply_upgraded (c : Nat) {s : St H} (a : Action H) {d : Nat} (hd : (s.chan d).upgraded.isSome) :
    ((s.apply c a).chan d).upgraded.isSome := by
  cases a with
  | close | closeOnWrite | closeHandshake h frame => exact set_upgraded _ (fun h => h) hd
  | handshake h => exact set_upgraded _ (fun _ => rfl) hd
  | _ => exact hd

theorem finish_upgraded (c : Nat) {s : St H} (r : HandlerSt H) {d : Nat} (hd : (s.chan d).upgraded.isSome) :
    ((s.finish c r).chan d).upgraded.isSome := by
  refine List.foldlRecOn (motive := fun s1 : St H => (s1.chan d).upgraded.isSome) r.actions _ ?_ ?_
  · exact set_upgraded _ (fun h => h) hd
  · intro s1 hs a _
    exact apply_upgraded c a hs

theorem step_upgraded {s : St H} (e : Event) {d : Nat} (hd : (s.chan d).upgraded.isSome) :
    ((step factory id s e).chan d).upgraded.isSome := by
  cases e with
  | connect c =>
    rw [step]
    split
    · exact finish_upgraded c _ (set_upgraded _ (fun h => h) hd)
    · exact hd
  | request c req | frame c date frame | inactive c =>
    rw [step]
    split
    · exact finish_upgraded c _ hd
    · exact hd
  | written c | disconnect c =>
    rw [step]
    split
    · exact set_upgraded _ (fun h => h) hd
    · exact hd

/-! ## The invariant -/

structure Inv (s : St H) : Prop where
  members : ∀ c, c ∈ s.group ↔ (s.chan c).phase = .connected
  nodup : s.group.Nodup
  /-- A channel that has begun the closing handshake is closed. -/
  closing : ∀ c, (s.chan c).closing = true → (s.chan c).phase = .closed

theorem init_inv : Inv (init : St H) :=
  ⟨fun _ => by simp [init], List.nodup_nil, fun _ h => by cases h⟩

theorem stays_inv {s s' : St H} {c : Nat} (h : Inv s) (hk : Keeps c s s')
    (hc : (s'.chan c).closing = (s.chan c).closing) : Inv s' := by
  have hphase : ∀ d, (s'.chan d).phase = (s.chan d).phase := by
    intro d
    by_cases hd : d = c
    · rw [hd, hk.phase]
    · rw [hk.others d hd]
  have hclosing : ∀ d, (s'.chan d).closing = (s.chan d).closing := by
    intro d
    by_cases hd : d = c
    · rw [hd, hc]
    · rw [hk.others d hd]
  refine ⟨fun d => ?_, ?_, fun d hd => ?_⟩
  · rw [hk.group, hphase]
    exact h.members d
  · rw [hk.group]
    exact h.nodup
  · rw [hphase]
    exact h.closing d (hclosing d ▸ hd)

theorem joins_inv {s s' : St H} {c : Nat} (h : Inv s) (hoff : ∀ d, d ≠ c → s'.chan d = s.chan d)
    (hfresh : (s.chan c).phase = .fresh) (hconn : (s'.chan c).phase = .connected)
    (hcl : (s'.chan c).closing = (s.chan c).closing)
    (hg : s'.group = if c ∈ s.group then s.group else s.group ++ [c]) : Inv s' := by
  have hc : c ∉ s.group := by
    rw [h.members, hfresh]
    simp
  rw [if_neg hc] at hg
  refine ⟨fun d => ?_, ?_, fun d hd => ?_⟩
  · rw [hg, List.mem_append, List.mem_singleton]
    by_cases hdc : d = c
    · simp [hdc, hconn]
    · simp [hdc, hoff d hdc, h.members]
  · rw [hg, List.nodup_append]
    refine ⟨h.nodup, by simp, ?_⟩
    intro a ha b hb hab
    rw [List.mem_singleton] at hb
    rw [hab, hb] at ha
    exact hc ha
  · by_cases hdc : d = c
    · rw [hdc, hcl] at hd
      have := h.closing c hd
      rw [hfresh] at this
      cases this
    · rw [hoff d hdc] at hd ⊢
      exact h.closing d hd

theorem leaves_inv {s s' : St H} {c : Nat} (h : Inv s) (hoff : ∀ d, d ≠ c → s'.chan d = s.chan d)
    (hclosed : (s'.chan c).phase = .closed) (hg : s'.group = s.group.filter (· ≠ c)) : Inv s' := by
  refine ⟨fun d => ?_, ?_, fun d hd => ?_⟩
  · rw [hg, List.mem_filter]
    by_cases hdc : d = c
    · simp [hdc, hclosed]
    · simp [hdc, hoff d hdc, h.members]
  · rw [hg]
    exact h.nodup.filter _
  · by_cases hdc : d = c
    · rw [hdc]
      exact hclosed
    · rw [hoff d hdc] at hd ⊢
      exact h.closing d hd

theorem moves_inv {s s' : St H} {c : Nat} (h : Inv s) (hm : Moves c s s') : Inv s' := by
  cases hm with
  | stays hk hc => exact stays_inv h hk hc
  | joins hoff hfresh hconn hcl hg => exact joins_inv h hoff hfresh hconn hcl hg
  | leaves hoff hclosed hg => exact leaves_inv h hoff hclosed hg

theorem inv {s : St H} (h : Reach factory id s) : Inv s := by
  induction h with
  | init => exact init_inv
  | @step s e _ ih =>
    obtain ⟨c, hm⟩ := step_moves factory id s e
    exact moves_inv ih hm

/-! ## Broadcasts -/

/-- What the broadcasts of a step reach has finished its handshake and has not begun the
    closing handshake. -/
def EstablishedOnly (s : St H) (e : Event) : Prop :=
  ∀ b, (step factory id s e).sent = s.sent ++ [b] →
    ∀ r ∈ b.recipients, (s.chan r).upgraded.isSome = true ∧ (s.chan r).closing = false

/-- Over every run, a broadcast is written once to each connected channel and to no
    other; none of these has begun the closing handshake. -/
theorem broadcast_recipients (s : St H) (h : Reach factory id s) (e : Event) (b : Broadcast)
    (hb : (step factory id s e).sent = s.sent ++ [b]) :
    b.recipients.Nodup ∧ (∀ r, r ∈ b.recipients ↔ (s.chan r).phase = .connected) ∧
      ∀ r ∈ b.recipients, (s.chan r).closing = false := by
  have hi := inv factory id h
  have hg : b.recipients = s.group := by
    rcases step_sent factory id s e with hs | ⟨c, date, frame, -, -, -, hs⟩
    · rw [hs] at hb
      simp at hb
    · rw [hs] at hb
      have hb := List.append_cancel_left hb
      simp only [List.cons.injEq, and_true] at hb
      rw [← hb]
  rw [hg]
  refine ⟨hi.nodup, hi.members, fun r hr => ?_⟩
  cases hc : (s.chan r).closing with
  | false => rfl
  | true =>
    have := (hi.members r).mp hr
    rw [hi.closing r hc] at this
    cases this

section
/-- Handshakers that support every version and never throw. -/
def anyHandshake : HandshakerFactory Unit := ⟨fun _ _ => some (), fun _ _ => .ok ()⟩

def upgradeRequest : FullHttpRequest := ⟨true, [("upgrade", "websocket")]⟩

def hello : WebSocketFrame := ⟨.text, true, 0, [0x68, 0x69]⟩

/-- Connections 0 and 1 are there; 0 has been upgraded. -/
def twoConnected : St Unit :=
  [Event.connect 0, .connect 1, .request 0 upgradeRequest].foldl (step anyHandshake fun _ => []) init

theorem reach_twoConnected : Reach anyHandshake (fun _ => []) twoConnected :=
  .step (.request 0 upgradeRequest) (.step (.connect 1) (.step (.connect 0) .init))

def helloBroadcast : Broadcast := ⟨0, MyWebSocketHandler.tws [] [] (newString hello.content), [0, 1]⟩

theorem sent_hello :
    (step anyHandshake (fun _ => []) twoConnected (.frame 0 [] hello)).sent =
      twoConnected.sent ++ [helloBroadcast] := by
  decide

/-- A text on connection 0 goes to both. -/
theorem broadcast_recipients_two :
    helloBroadcast.recipients.Nodup ∧
      (∀ r, r ∈ helloBroadcast.recipients ↔ (twoConnected.chan r).phase = .connected) ∧
      ∀ r ∈ helloBroadcast.recipients, (twoConnected.chan r).closing = false :=
  broadcast_recipients anyHandshake (fun _ => []) twoConnected reach_twoConnected (.frame 0 [] hello) helloBroadcast
    sent_hello

/-- Connection 1 has not finished a handshake and is written to all the same. -/
theorem not_establishedOnly :
    Reach anyHandshake (fun _ => []) twoConnected ∧
      ¬ EstablishedOnly anyHandshake (fun _ => []) twoConnected (.frame 0 [] hello) := by
  refine ⟨reach_twoConnected, ?_⟩
  intro h
  obtain ⟨hup, -⟩ := h helloBroadcast sent_hello 1 (by decide)
  exact absurd hup (by decide)
end

end NettyStudy.Websocket
