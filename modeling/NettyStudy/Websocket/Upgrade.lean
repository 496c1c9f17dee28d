/-
  NettyStudy.Websocket.Upgrade — the handshaker field of one MyWebSocketHandler over the
  whole life of its connection. Every upgrade request overwrites the field, with null for
  a version that netty does not support, and before it is known whether the handshake
  throws.

  What netty does with the pipeline: a handshake that does not throw puts the frame codec
  in and takes the aggregator out, so frames are delivered only after one and requests
  only before (`delivers`). Nothing else is asked of it. Events come in any order: also
  messages of a batch whose channel an exception has closed meanwhile. Each request has
  its own factory: no two calls of newHandshaker need return the same handshaker, and
  which versions they know and which handshakes throw may change from call to call.

  Proved:
  - `step_linked` / `run_linked`: either no handshake has succeeded, or one has and the
    field is its handshaker.
  - `frameRuns_safe`: so no frame is handled with a null handshaker.
  - `reach_run`: a connection of the chat server lives such a life, and there too the
    field of an upgraded connection is the handshaker that upgraded it
    (`upgraded_handshaker`).
-/

import NettyStudy.Websocket.Established

namespace NettyStudy.Websocket.Upgrade

open NettyStudy.Text NettyStudy.Netty

structure St (H : Type) where
  /-- The handler's field. -/
  handshaker : Option H
  /-- The handshakers whose `handshake` did not throw, in order. -/
  succeeded : List H

variable {H : Type}

def init : St H := ⟨none, []⟩

inductive Event (H : Type) where
  | active
  | inactive
  | readComplete
  | exception (cause : Throwable)
  /-- A message for `channelRead0`, the factory it would use and the clock. -/
  | read (factory : HandshakerFactory H) (date : JString) (msg : Msg)

def success : Action H → Option H
  | .handshake h => some h
  | _ => none

namespace St

def delivers (s : St H) : Msg → Bool
  | .request _ => s.succeeded.isEmpty
  | .frame _ => !s.succeeded.isEmpty
  | .unknown => true

def after (s : St H) (r : HandlerSt H) : St H := ⟨r.handshaker, s.succeeded ++ r.actions.filterMap success⟩

end St

section
variable (id : JString)

def step (s : St H) : Event H → St H
  | .active => s.after (actionsOf MyWebSocketHandler.channelActive s.handshaker)
  | .inactive => s.after (actionsOf MyWebSocketHandler.channelInactive s.handshaker)
  | .readComplete => s.after (actionsOf MyWebSocketHandler.channelReadComplete s.handshaker)
  | .exception cause => s.after (actionsOf (MyWebSocketHandler.exceptionCaught cause) s.handshaker)
  | .read factory date msg =>
    if s.delivers msg then s.after (MyWebSocketHandler.deliver factory date id msg s.handshaker) else s

def run (es : List (Event H)) : St H := es.foldl (step id) init

/-- A run of `handleWebSocketFrame`: the field it finds, the handshakes that have
    succeeded by then, what it does and throws. -/
structure FrameRun (H : Type) where
  handshaker : Option H
  succeeded : List H
  frame : WebSocketFrame
  actions : List (Action H)
  thrown : Option Throwable

def frameRun (s : St H) : Event H → Option (FrameRun H)
  | .read factory date (.frame frame) =>
    if s.delivers (.frame frame) then
      some ⟨s.handshaker, s.succeeded, frame,
        (MyWebSocketHandler.deliver factory date id (.frame frame) s.handshaker).actions,
        thrownBy factory id date frame s.handshaker⟩
    else none
  | _ => none

/-- Every run of `handleWebSocketFrame`, in order. -/
def frameRuns (s : St H) : List (Event H) → List (FrameRun H)
  | [] => []
  | e :: es => (frameRun id s e).toList ++ frameRuns (step id s e) es

/-- The field is `h`, the one handshaker that has succeeded; it is not dereferenced in
    vain, and a close frame is answered through it. -/
structure Safe (h : H) (x : FrameRun H) : Prop where
  handshaker : x.handshaker = some h
  succeeded : x.succeeded = [h]
  thrown : x.thrown ≠ some .nullPointer
  close : x.frame.kind = .close → .closeHandshake h x.frame ∈ x.actions

/-- What links the field to the pipeline. -/
inductive Linked : St H → Prop
  | http (field : Option H) : Linked ⟨field, []⟩
  | websocket (h : H) : Linked ⟨some h, [h]⟩

/-! ## One event -/

variable {id} {s : St H}

/-- A request that is delivered comes before any success. Its handshake succeeds on the
    handshaker the field is set to, or there is still none. -/
theorem request_linked (factory : HandshakerFactory H) (date : JString) (req : FullHttpRequest) (field : Option H) :
    Linked (St.after ⟨field, []⟩ (MyWebSocketHandler.deliver factory date id (.request req) field)) := by
  rcases MyWebSocketHandler.request_cases factory date id field req with hd | hd | ⟨h, hd | hd⟩
  · rw [hd]
    exact .http field
  · rw [hd]
    exact .http none
  · rw [hd]
    exact .websocket h
  · rw [hd]
    exact .http (some h)

/-- A frame leaves the field alone and no handshake to succeed. -/
theorem frame_after (factory : HandshakerFactory H) (date : JString) (frame : WebSocketFrame) (h : H) :
    St.after ⟨some h, [h]⟩ (MyWebSocketHandler.deliver factory date id (.frame frame) (some h)) = ⟨some h, [h]⟩ := by
  rcases MyWebSocketHandler.frame_cases factory date id (some h) frame with ⟨-, hd⟩ | hd | ⟨h', -, hd⟩ | ⟨hn, -⟩ | hd
  · rw [hd]
    rfl
  · rw [hd]
    rfl
  · rw [hd]
    rfl
  · cases hn
  · rw [hd]
    rfl

theorem read_linked (hs : Linked s) (factory : HandshakerFactory H) (date : JString) (msg : Msg)
    (hd : s.delivers msg = true) : Linked (s.after (MyWebSocketHandler.deliver factory date id msg s.handshaker)) := by
  cases hs with
  | http field =>
    cases msg with
    | request req => exact request_linked factory date req field
    | frame frame => cases hd
    | unknown => exact .http field
  | websocket h =>
    cases msg with
    | request req => cases hd
    | frame frame =>
      rw [frame_after]
      exact .websocket h
    | unknown => exact .websocket h

/-- The other methods do no handshake and leave the field alone. -/
theorem after_eq {r : HandlerSt H} (hf : r.handshaker = s.handshaker) (ha : r.actions.filterMap success = []) :
    s.after r = s := by
  rw [St.after, hf, ha, List.append_nil]

theorem step_linked (hs : Linked s) (e : Event H) : Linked (step id s e) := by
  cases e with
  | active | inactive | readComplete | exception cause =>
    rw [step, after_eq rfl rfl]
    exact hs
  | read factory date msg =>
    rw [step]
    split
    · rename_i hd
      exact read_linked hs factory date msg hd
    · exact hs

/-! ## Every run -/

theorem foldl_linked (es : List (Event H)) (hs : Linked s) : Linked (es.foldl (step id) s) := by
  refine List.foldlRecOn (motive := Linked) es _ hs ?_
  intro s1 h1 e _
  exact step_linked h1 e

theorem run_linked (id : JString) (es : List (Event H)) : Linked (run id es) := foldl_linked es (.http none)

/-- With a handshaker in the field nothing that is thrown is a null pointer. -/
theorem thrownBy_ne (factory : HandshakerFactory H) (date : JString) (frame : WebSocketFrame) (h : H) :
    thrownBy factory id date frame (some h) ≠ some .nullPointer := by
  obtain ⟨kind, isFinalFragment, rsv, content⟩ := frame
  intro hn
  cases kind with
  | _ => cases hn

theorem frameRun_safe (hs : Linked s) {e : Event H} {x : FrameRun H} (hx : frameRun id s e = some x) :
    ∃ h, Safe h x := by
  cases e with
  | active | inactive | readComplete | exception cause => cases hx
  | read factory date msg =>
    cases msg with
    | request req | unknown => cases hx
    | frame frame =>
      cases hs with
      | http field => cases hx
      | websocket h =>
        injection hx with hx
        subst hx
        refine ⟨h, rfl, rfl, thrownBy_ne factory date frame h, ?_⟩
        intro hc
        rw [MyWebSocketHandler.deliver_close factory date id hc]
        exact List.mem_cons_of_mem _ List.mem_cons_self

theorem frameRuns_safe_of (es : List (Event H)) : ∀ {s : St H}, Linked s → ∀ x ∈ frameRuns id s es, ∃ h, Safe h x := by
  induction es with
  | nil => intro s _ x hx; cases hx
  | cons e es ih =>
    intro s hs x hx
    rcases List.mem_append.mp hx with hx | hx
    · exact frameRun_safe hs (Option.mem_toList.mp hx)
    · exact ih (step_linked hs e) x hx

/-- Over every sequence of events, no frame is handled with a null handshaker: the field
    is the one handshaker whose handshake has succeeded. -/
theorem frameRuns_safe (id : JString) (es : List (Event H)) : ∀ x ∈ frameRuns id init es, ∃ h, Safe h x :=
  frameRuns_safe_of es (.http none)

/-- Of three upgrade requests the first is of an unsupported version and the second's
    handshake throws; a close frame follows. -/
def threeUpgrades : List (Event Nat) :=
  [.active, .read ⟨fun _ _ => none, fun _ _ => .ok ()⟩ [] (.request upgradeRequest),
    .read ⟨fun _ _ => some 2, fun _ _ => .error (.runtime "handshake")⟩ [] (.request upgradeRequest),
    .read ⟨fun _ _ => some 3, fun _ _ => .ok ()⟩ [] (.request upgradeRequest), .readComplete,
    .read ⟨fun _ _ => none, fun _ _ => .ok ()⟩ [] (.frame ⟨.close, true, 0, []⟩)]

/-- The close frame finds the third's handshaker. -/
theorem frameRuns_safe_three :
    ∃ x, frameRuns [] init threeUpgrades = [x] ∧ x.handshaker = some 3 ∧ ∃ h, Safe h x := by
  refine ⟨_, rfl, rfl, ?_⟩
  exact frameRuns_safe [] threeUpgrades _ List.mem_cons_self

end

/-! ## The connections of the chat server -/

/-- A connection of the chat server as it is here. -/
structure Matches (ch : Channel H) (t : St H) : Prop where
  handshaker : ch.handshaker = t.handshaker
  upgraded : ch.upgraded = t.succeeded.getLast?

theorem Matches.delivers_request {ch : Channel H} {t : St H} (h : Matches ch t) (hu : ch.upgraded.isNone)
    (req : FullHttpRequest) : t.delivers (.request req) = true := by
  rw [h.upgraded, Option.isNone_iff_eq_none, List.getLast?_eq_none_iff] at hu
  rw [St.delivers, hu]
  rfl

theorem Matches.delivers_frame {ch : Channel H} {t : St H} (h : Matches ch t) (hu : ch.upgraded.isSome)
    (frame : WebSocketFrame) : t.delivers (.frame frame) = true := by
  rw [h.upgraded, List.getLast?_isSome] at hu
  rw [St.delivers, Bool.not_eq_true', List.isEmpty_eq_false_iff]
  exact hu

theorem phase_matches (s : Websocket.St H) (c : Nat) (phase : Phase) {d : Nat} {t : St H} (h : Matches (s.chan d) t) :
    Matches ((s.set c { s.chan c with phase := phase }).chan d) t := by
  by_cases hd : d = c
  · subst hd
    rw [set_same]
    exact ⟨h.handshaker, h.upgraded⟩
  · rw [set_other hd]
    exact h

/-- An action upgrades its own connection and no other. -/
theorem apply_matches (c : Nat) {s : Websocket.St H} {t : St H} (a : Action H) (h : Matches (s.chan c) t) :
    Matches ((s.apply c a).chan c) ⟨t.handshaker, t.succeeded ++ (success a).toList⟩ := by
  cases a with
  | handshake h' =>
    rw [St.apply, set_same]
    exact ⟨h.handshaker, List.getLast?_concat.symm⟩
  | close | closeOnWrite | closeHandshake h' frame =>
    show Matches ((s.set c _).chan c) ⟨t.handshaker, t.succeeded ++ []⟩
    rw [set_same, List.append_nil]
    exact ⟨h.handshaker, h.upgraded⟩
  | _ =>
    show Matches (s.chan c) ⟨t.handshaker, t.succeeded ++ []⟩
    rw [List.append_nil]
    exact h

theorem foldl_matches (c : Nat) (as : List (Action H)) : ∀ {s : Websocket.St H} {t : St H}, Matches (s.chan c) t →
    Matches ((as.foldl (Websocket.St.apply c) s).chan c) ⟨t.handshaker, t.succeeded ++ as.filterMap success⟩ := by
  induction as with
  | nil =>
    intro s t h
    rw [List.filterMap_nil, List.append_nil]
    exact h
  | cons a as ih =>
    intro s t h
    have hcons : (a :: as).filterMap success = (success a).toList ++ as.filterMap success := by
      rw [List.filterMap_cons]
      cases success a <;> rfl
    rw [hcons, ← List.append_assoc]
    exact ih (apply_matches c a h)

/-- A handler's outcome is the same in the chat server and here. -/
theorem finish_matches (s : Websocket.St H) (c : Nat) {t : St H} (r : HandlerSt H) (h : Matches (s.chan c) t) :
    Matches ((s.finish c r).chan c) (t.after r) := by
  have hset : Matches ((s.set c { s.chan c with handshaker := r.handshaker }).chan c) ⟨r.handshaker, t.succeeded⟩ := by
    rw [set_same]
    exact ⟨rfl, h.upgraded⟩
  exact foldl_matches c r.actions hset

variable {factory : HandshakerFactory H} {id : Nat → JString}

theorem finish_run {s : Websocket.St H} {c d : Nat} {t : St H} (h : Matches (s.chan d) t) {r : HandlerSt H}
    {e : Event H} (he : d = c → step (id d) t e = t.after r) :
    ∃ es : List (Event H), Matches ((s.finish c r).chan d) (es.foldl (step (id d)) t) := by
  by_cases hd : d = c
  · subst hd
    refine ⟨[e], ?_⟩
    rw [List.foldl_cons, List.foldl_nil, he rfl]
    exact finish_matches s d r h
  · refine ⟨[], ?_⟩
    rw [finish_others hd]
    exact h

theorem step_run {s : Websocket.St H} (e : Websocket.Event) {d : Nat} {t : St H} (h : Matches (s.chan d) t) :
    ∃ es : List (Event H), Matches ((Websocket.step factory id s e).chan d) (es.foldl (step (id d)) t) := by
  cases e with
  | connect c =>
    rw [Websocket.step]
    split
    · refine finish_run (e := .active) (phase_matches s c .connected h) ?_
      intro hd
      subst hd
      rw [step, h.handshaker]
    · exact ⟨[], h⟩
  | request c req =>
    rw [Websocket.step]
    split
    · rename_i hg
      refine finish_run (e := .read factory [] (.request req)) h ?_
      intro hd
      subst hd
      rw [step, if_pos (h.delivers_request hg.2 req), h.handshaker]
    · exact ⟨[], h⟩
  | frame c date frame =>
    rw [Websocket.step]
    split
    · rename_i hg
      refine finish_run (e := .read factory date (.frame frame)) h ?_
      intro hd
      subst hd
      rw [step, if_pos (h.delivers_frame hg frame), h.handshaker]
    · exact ⟨[], h⟩
  | written c | disconnect c =>
    rw [Websocket.step]
    split
    · exact ⟨[], phase_matches s c .closed h⟩
    · exact ⟨[], h⟩
  | inactive c =>
    rw [Websocket.step]
    split
    · refine finish_run (e := .inactive) h ?_
      intro hd
      subst hd
      rw [step, h.handshaker]
    · exact ⟨[], h⟩

/-- A connection of the chat server lives a life of its own. -/
theorem reach_run {s : Websocket.St H} (hr : Websocket.Reach factory id s) (d : Nat) :
    ∃ es, Matches (s.chan d) (run (id d) es) := by
  induction hr with
  | init => exact ⟨[], rfl, rfl⟩
  | step e _ ih =>
    obtain ⟨es, h⟩ := ih
    obtain ⟨es', h'⟩ := step_run e h
    refine ⟨es ++ es', ?_⟩
    rw [run, List.foldl_append]
    exact h'

/-- In the chat server the field of an upgraded connection is the handshaker that
    upgraded it. -/
theorem upgraded_handshaker {s : Websocket.St H} (hr : Websocket.Reach factory id s) {d : Nat} {h : H}
    (hu : (s.chan d).upgraded = some h) : (s.chan d).handshaker = some h := by
  obtain ⟨es, hm⟩ := reach_run hr d
  have hl := run_linked (id d) es
  generalize run (id d) es = t at hm hl
  rw [hm.upgraded] at hu
  rw [hm.handshaker]
  cases hl with
  | http field => cases hu
  | websocket h' => exact hu

end NettyStudy.Websocket.Upgrade
