/-
  NettyStudy.Echo.Connection — one connection of the echo server, from accept to close:
  MessageDecoder, then EchoServerHandler.

  A read that throws goes to `EchoServerHandler.exceptionCaught`, which closes the
  channel; the peer may also end the connection. When the channel becomes inactive the
  decoder runs over the bytes still held and what that produces is delivered as well.
  A closed channel is not read again.

  After a read that ends inside a payload the head is gone, so at the close the payload's
  bytes are read as a frame of their own. `Forged` is the input on which they are one.

  Proved, over every life: `life_answered`, each message passed on gets one reply.

  Proved, for well-formed messages sent one after the other, cut into reads anywhere and
  ended anywhere:
  - `passed_groups`: reads that end at frame boundaries pass on their messages.
  - `passed_throws`: what is passed on once a read ends inside a frame.
  - `passed_prefix_iff`: the messages passed on are a prefix of those sent exactly when
    the input is not `Forged`.
-/

import NettyStudy.Echo.Stream

namespace NettyStudy.Echo

open NettyStudy.Text NettyStudy.Netty

/-- The decoder's cumulation, the messages it passed on and the handler's replies. -/
structure Conn where
  isOpen : Bool
  cumulation : Option Held
  passed : List Message
  written : List Message

def accepted : Conn := ⟨true, none, [], []⟩

def EchoServerHandler.channelRead (c : Conn) (msg : Message) : Conn :=
  { c with passed := c.passed ++ [msg], written := c.written ++ [EchoServerHandler.reply] }

def Conn.deliver (c : Conn) (xs : List Message) : Conn := xs.foldl EchoServerHandler.channelRead c

/-- `ctx.close()`: the channel becomes inactive, which ends the decoder's input. -/
def Conn.close (c : Conn) : Conn :=
  if c.isOpen then
    ({ c with isOpen := false, cumulation := none } : Conn).deliver
      (channelInputClosed messageDecoder c.cumulation).fired
  else c

def EchoServerHandler.exceptionCaught (c : Conn) : Conn := c.close

inductive Ev where
  | read (data : List UInt8)
  | inactive

def step (c : Conn) : Ev → Conn
  | .read data =>
    if c.isOpen then
      let r := channelRead messageDecoder c.cumulation data
      let c' := ({ c with cumulation := r.cumulation } : Conn).deliver r.fired
      match r.thrown with
      | none => c'
      | some _ => EchoServerHandler.exceptionCaught c'
    else c
  | .inactive => c.close

/-- The connection's whole life: these reads, then the peer ends it. -/
def life (chunks : List (List UInt8)) : Conn := (chunks.map Ev.read ++ [Ev.inactive]).foldl step accepted

/-- The first read that ends inside a payload ends after bytes `d` of it that start
    with a whole frame. -/
def Forged (ms : List Message) (chunks : List (List UInt8)) : Prop :=
  ∃ (groups : List (List Message)) (g : List Message) (m : Message) (later : List Message) (d q : List UInt8)
    (us : List (List UInt8)),
    ms = groups.flatten ++ g ++ m :: later ∧ chunks = groups.map frames ++ (frames g ++ (head m ++ d)) :: us ∧
    getBytes m.data = d ++ q ∧ q ≠ [] ∧ Accepts d

/-! ## Delivery -/

@[simp] theorem deliver_passed (c : Conn) (xs : List Message) : (c.deliver xs).passed = c.passed ++ xs := by
  induction xs generalizing c with
  | nil => simp [Conn.deliver]
  | cons x xs ih =>
    show ((EchoServerHandler.channelRead c x).deliver xs).passed = _
    rw [ih]
    simp [EchoServerHandler.channelRead]

@[simp] theorem deliver_isOpen (c : Conn) (xs : List Message) : (c.deliver xs).isOpen = c.isOpen := by
  induction xs generalizing c with
  | nil => rfl
  | cons x xs ih => exact ih (EchoServerHandler.channelRead c x)

@[simp] theorem deliver_cumulation (c : Conn) (xs : List Message) : (c.deliver xs).cumulation = c.cumulation := by
  induction xs generalizing c with
  | nil => rfl
  | cons x xs ih => exact ih (EchoServerHandler.channelRead c x)

/-- Every message passed on is answered, whatever it says. -/
def Answered (c : Conn) : Prop := c.written = c.passed.map fun _ => EchoServerHandler.reply

theorem deliver_answered {c : Conn} (h : Answered c) (xs : List Message) : Answered (c.deliver xs) := by
  induction xs generalizing c with
  | nil => exact h
  | cons x xs ih =>
    refine ih (c := EchoServerHandler.channelRead c x) ?_
    unfold Answered at h ⊢
    simp [EchoServerHandler.channelRead, h]

theorem close_answered {c : Conn} (h : Answered c) : Answered c.close := by
  unfold Conn.close
  split
  · exact deliver_answered (c := { c with isOpen := false, cumulation := none }) h _
  · exact h

theorem step_answered {c : Conn} (h : Answered c) (e : Ev) : Answered (step c e) := by
  cases e with
  | inactive => exact close_answered h
  | read data =>
    rw [step]
    split
    · have hd := deliver_answered
        (c := { c with cumulation := (channelRead messageDecoder c.cumulation data).cumulation }) h
        (channelRead messageDecoder c.cumulation data).fired
      dsimp only
      split
      · exact hd
      · exact close_answered hd
    · exact h

theorem life_answered (chunks : List (List UInt8)) : Answered (life chunks) := by
  have hsteps : ∀ (es : List Ev) (c : Conn), Answered c → Answered (es.foldl step c) := by
    intro es
    induction es with
    | nil => intro c h; exact h
    | cons e es ih => intro c h; exact ih _ (step_answered h e)
  exact hsteps _ accepted rfl

theorem close_closed (c : Conn) : c.close.isOpen = false := by
  unfold Conn.close
  split
  · simp
  · simpa using ‹¬c.isOpen = true›

theorem step_closed {c : Conn} (h : c.isOpen = false) (e : Ev) : step c e = c := by
  cases e <;> simp [step, Conn.close, h]

theorem steps_closed {c : Conn} (h : c.isOpen = false) (es : List Ev) : es.foldl step c = c := by
  induction es with
  | nil => rfl
  | cons e es ih => rw [List.foldl_cons, step_closed h, ih]

/-- What the close passes on is what the loop fires on the bytes still held. -/
theorem close_passed {c : Conn} (ho : c.isOpen = true) {ys : List Message} {t : Option Throwable} {rest : List UInt8}
    (hl : Loop messageDecoder (heldBytes c.cumulation) ys t rest) (ht : t = none → rest = []) :
    c.close.passed = c.passed ++ ys := by
  rw [Conn.close, if_pos ho, deliver_passed, hl.channelInputClosed]
  cases t with
  | none => exact Or.inr (ht rfl)
  | some e => exact Or.inl (by simp)

/-! ## The life of a connection -/

/-- A read that ends at a frame boundary, on an open connection with nothing held. -/
theorem step_frames {c : Conn} (ho : c.isOpen = true) (hc : c.cumulation = none) {g : List Message}
    (hw : ∀ m ∈ g, WellFormed m) : step c (.read (frames g)) = c.deliver (g.map Message.tagged) := by
  have hr := channelRead_frames hw
  obtain ⟨isOpen, cumulation, passed, written⟩ := c
  simp only at ho hc
  subst ho hc
  simp only [step, if_true, hr]

theorem steps_groups {c : Conn} (ho : c.isOpen = true) (hc : c.cumulation = none) {groups : List (List Message)}
    (hw : ∀ m ∈ groups.flatten, WellFormed m) :
    ∃ c', ((groups.map frames).map Ev.read).foldl step c = c' ∧ c'.isOpen = true ∧ c'.cumulation = none ∧
      c'.passed = c.passed ++ groups.flatten.map Message.tagged := by
  induction groups generalizing c with
  | nil => exact ⟨c, rfl, ho, hc, by simp⟩
  | cons g groups ih =>
    simp only [List.flatten_cons, List.mem_append] at hw
    have hs := step_frames ho hc (fun m hm => hw m (Or.inl hm))
    obtain ⟨c', hf, ho', hc', hp⟩ := ih (c := c.deliver (g.map Message.tagged)) (by rw [deliver_isOpen, ho])
      (by rw [deliver_cumulation, hc]) (fun m hm => hw m (Or.inr hm))
    refine ⟨c', ?_, ho', hc', ?_⟩
    · rw [List.map_cons, List.map_cons, List.foldl_cons, hs, hf]
    · rw [hp, deliver_passed, List.flatten_cons, List.map_append, List.append_assoc]

/-- A read that throws closes the connection; what the loop fires on the bytes it left
    is passed on last. -/
theorem step_throws {c : Conn} (ho : c.isOpen = true) (hc : c.cumulation = none) {chunk rest rest' : List UInt8}
    {xs ys : List Message} {e : Throwable} {t : Option Throwable} (hl : Loop messageDecoder chunk xs (some e) rest)
    (hr : Loop messageDecoder rest ys t rest') (ht : t = none → rest' = []) :
    ∃ c', step c (.read chunk) = c' ∧ c'.isOpen = false ∧ c'.passed = c.passed ++ xs ++ ys := by
  obtain ⟨h, hread, hrest⟩ := Loop.channelRead (c := none) hl
  obtain ⟨isOpen, cumulation, passed, written⟩ := c
  simp only at ho hc
  subst ho hc
  have hs : step ⟨true, none, passed, written⟩ (.read chunk) =
      ((⟨true, h, passed, written⟩ : Conn).deliver xs).close := by
    have hread : channelRead messageDecoder none chunk = _ := hread
    simp only [step, if_true, hread, EchoServerHandler.exceptionCaught]
  refine ⟨_, hs, close_closed _, ?_⟩
  rw [close_passed (by simp) _ ht, deliver_passed]
  rw [deliver_cumulation, hrest]
  exact hr

/-- Over any bytes the loop first fires the message at the front, if there is one. -/
theorem loop_front (bs : List UInt8) :
    ∃ ys t rest, Loop messageDecoder bs ys t rest ∧ (t = none → rest = []) ∧
      (Accepts bs → ∃ zs, ys = messageOf bs :: zs) ∧ (¬ Accepts bs → ys = []) := by
  by_cases h : Accepts bs
  · have hle := accepts_le h
    obtain ⟨ys, t, rest, hl, -, ht⟩ := loop_total _ (bs.drop (45 + (lengthField bs).toNat)) (Nat.le_refl _)
    refine ⟨_, t, rest, .step (decodes_accepted h) ?_ hl, ht, fun _ => ⟨ys, rfl⟩, fun hn => absurd h hn⟩
    rw [List.length_drop]
    omega
  · by_cases hb : bs = []
    · subst hb
      exact ⟨[], none, [], .done, fun _ => rfl, fun ha => absurd ha h, fun _ => rfl⟩
    · refine ⟨[], _, _, .throws hb (throws_rejected h), ?_, fun ha => absurd ha h, fun _ => rfl⟩
      intro hn
      cases hn

/-- Reads that end at frame boundaries, then the peer ends the connection. -/
theorem passed_groups {groups : List (List Message)} (hw : ∀ m ∈ groups.flatten, WellFormed m) :
    (life (groups.map frames)).passed = groups.flatten.map Message.tagged := by
  obtain ⟨c, hf, ho, hc, hp⟩ := steps_groups (c := accepted) rfl rfl hw
  rw [life, List.foldl_append, hf]
  show (step c .inactive).passed = _
  have hd : Loop messageDecoder (heldBytes c.cumulation) [] none [] := by rw [hc]; exact .done
  have hcl := close_passed ho hd (fun _ => rfl)
  rw [step, hcl, hp]
  simp [accepted]

/-- Reads that end at frame boundaries, then one that throws and leaves `rest`. -/
theorem passed_throws {groups : List (List Message)} (hw : ∀ m ∈ groups.flatten, WellFormed m)
    {chunk rest rest' : List UInt8} {xs ys : List Message} {e : Throwable} {t : Option Throwable}
    (hl : Loop messageDecoder chunk xs (some e) rest) (hr : Loop messageDecoder rest ys t rest')
    (ht : t = none → rest' = []) (us : List (List UInt8)) :
    (life (groups.map frames ++ chunk :: us)).passed = groups.flatten.map Message.tagged ++ xs ++ ys := by
  obtain ⟨c, hf, ho, hc, hp⟩ := steps_groups (c := accepted) rfl rfl hw
  obtain ⟨c', hs, hcl, hp'⟩ := step_throws ho hc hl hr ht
  rw [life, List.map_append, List.append_assoc, List.foldl_append, hf, List.map_cons, List.cons_append,
    List.foldl_cons, hs, steps_closed hcl, hp', hp]
  simp [accepted]

/-- A message read from the start of a payload is not the message itself: it is shorter. -/
theorem messageOf_ne {m : Message} (hw : WellFormed m) {d q : List UInt8} (hd : getBytes m.data = d ++ q)
    (ha : Accepts d) : messageOf d ≠ m.tagged := by
  intro h
  have hl : (messageOf d).header.length.toInt = m.tagged.header.length.toInt := by rw [h]
  have hm : m.tagged.header.length.toInt = (getBytes m.data).length := hw.length_eq
  obtain ⟨h45, -, -, hle⟩ := ha
  have hf : (messageOf d).header.length.toInt = lengthField d := rfl
  rw [hm, hd, List.length_append, hf] at hl
  unfold HEAD_LENGHT at h45 hle
  omega

/-- However the frames of well-formed messages are cut into reads and wherever their
    stream ends, what is passed on over the connection's life is a prefix of what was
    sent exactly when the input is not forged. -/
theorem passed_prefix_iff (ms : List Message) (hw : ∀ m ∈ ms, WellFormed m) (chunks : List (List UInt8))
    (hc : chunks.flatten <+: frames ms) :
    (life chunks).passed <+: ms.map Message.tagged ↔ ¬ Forged ms chunks := by
  constructor
  · intro hpre hforged
    obtain ⟨groups, g, m, later, d, q, us, rfl, rfl, hd, hq, ha⟩ := hforged
    simp only [List.mem_append, List.mem_cons] at hw
    have hm := hw m (Or.inr (Or.inl rfl))
    have hl := loop_frames (fun n hn => hw n (Or.inl (Or.inr hn))) (loop_payload hm hd hq)
    obtain ⟨ys, t, rest, hr, ht, hfront, -⟩ := loop_front d
    obtain ⟨zs, rfl⟩ := hfront ha
    rw [passed_throws (fun n hn => hw n (Or.inl (Or.inl hn))) hl hr ht us] at hpre
    simp only [List.map_append, List.map_cons, List.append_nil, List.append_assoc, List.prefix_append_right_inj,
      List.cons_prefix_cons] at hpre
    exact messageOf_ne hm hd ha hpre.1
  · intro hn
    rcases split_frames hc with ⟨groups, later, rfl, rfl⟩ | ⟨groups, g, m, later, p, q, us, rfl, rfl, hf, hp, hq⟩
    · rw [passed_groups (fun n hn => hw n (List.mem_append_left _ hn)), List.map_append]
      exact List.prefix_append _ _
    · simp only [List.mem_append, List.mem_cons] at hw
      have hgroups : ∀ n ∈ groups.flatten, WellFormed n := fun n hn => hw n (Or.inl (Or.inl hn))
      have hg : ∀ n ∈ g, WellFormed n := fun n hn => hw n (Or.inl (Or.inr hn))
      have hpass : ∀ ys, ys = [] → groups.flatten.map Message.tagged ++ (g.map Message.tagged ++ []) ++ ys <+:
          (groups.flatten ++ g ++ m :: later).map Message.tagged := by
        intro ys hy
        simp [hy, List.map_append]
      rcases loop_partial (hw m (Or.inr (Or.inl rfl))) hf hp hq with hl | ⟨d, rfl, hd, hl⟩
      · -- the head's bytes are still there, and too short again
        rw [passed_throws hgroups (loop_frames hg hl) hl (by simp) us]
        exact hpass _ rfl
      · obtain ⟨ys, t, rest, hr, ht, -, hnil⟩ := loop_front d
        rw [passed_throws hgroups (loop_frames hg hl) hr ht us]
        exact hpass _ (hnil fun ha => hn ⟨groups, g, m, later, d, q, us, rfl, rfl, hd, hq, ha⟩)

theorem not_forged_channelActive :
    ¬ Forged [EchoClientHandler.channelActive] [(frame EchoClientHandler.channelActive).take 50] :=
  (passed_prefix_iff [EchoClientHandler.channelActive]
    (by intro m hm; rw [List.mem_singleton.mp hm]; exact wellFormed_endpoints.1)
    [(frame EchoClientHandler.channelActive).take 50]
    ⟨(frame EchoClientHandler.channelActive).drop 50, by decide⟩).mp (by decide)

/-- Text whose bytes are a whole frame with no data, and one more byte. -/
def forgedContent : JString := [1, 0, 0, 0, 0] ++ sessionid ++ [0, 0, 0, 0] ++ [0, 0, 0, 1] ++ literal "!"

/-- A read that stops before the last byte of this message passes on one that was never
    sent. -/
theorem phantom_passed :
    let m := fixedMessage forgedContent
    let chunks := [(frame m).take 90]
    WellFormed m ∧ [] ∉ chunks ∧ chunks.flatten <+: frames [m] ∧
      (life chunks).passed = [⟨⟨1, 0, 0, 0, 0, sessionid, 0, 1⟩, []⟩] ∧
      ¬ (life chunks).passed <+: [m].map Message.tagged := by
  have hpassed : (life [(frame (fixedMessage forgedContent)).take 90]).passed =
      [⟨⟨1, 0, 0, 0, 0, sessionid, 0, 1⟩, []⟩] := by decide
  refine ⟨wellFormed_fixed (by decide) (by decide), by decide,
    ⟨(frame (fixedMessage forgedContent)).drop 90, by decide⟩,
    hpassed, ?_⟩
  rw [hpassed]
  decide

end NettyStudy.Echo
