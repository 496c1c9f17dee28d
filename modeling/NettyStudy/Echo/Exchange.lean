/-
  NettyStudy.Echo.Exchange — echo-client2 and echo-server2 on one connection, each with the
  pipeline its `initChannel` sets up. TCP delivers the bytes of each direction in order, as
  many at a time as it likes, and what a closed end had flushed before its close.

  Proved:
  - `server_follows`, `client_follows`: over any reads and the peer's close the pipelines
    hand their handlers the messages that `NettyStudy.Echo.Connection` says, the client's
    handlers one after the other for each message.
  - `exchange`: over every interleaving and however the bytes are cut, a message is logged
    exactly when its frame came in one read; where one did not, both ends close.
-/

import NettyStudy.Echo.Pipeline

namespace NettyStudy.Echo.Exchange

open NettyStudy.Text NettyStudy.Netty Pipeline

/-! ## Behind the decoder -/

abbrev Out := Effect Obj Line

/-- What a pipeline does that comes behind the encoder and the decoder: `told` for each message,
    and a line and the close for an exception. -/
structure Listens (rest : List Kind) (told : Message → List Out) (text : JString) : Prop where
  read : ∀ all before st m,
    handlers.fire all rest (.messageDecoder :: .messageEncoder :: before) st (.read (.message m)) = (st, told m)
  caught : ∀ all before st e, handlers.fire all rest before st (.exceptionCaught e) =
    (st, [.log (.error text e), .close])
  inactive : ∀ all before st, handlers.fire all rest before st .inactive = (st, [])

def errors (text : JString) (thrown : Option Throwable) : List Out :=
  thrown.toList.flatMap fun e => [.log (.error text e), .close]

def EchoServerHandler.told (m : Message) : List Out :=
  [.log (EchoServerHandler.line m), .write (.buf (frame EchoServerHandler.reply)), .flush]

def EchoClientHandler.told (m : Message) : List Out :=
  [.log (EchoClientHandler.line m), .log (EchoClientHandler3.line m),
    .log (EchoClientHandler2.line (Message.toString m))]

theorem server_listens : Listens [.echoServerHandler] EchoServerHandler.told (literal "异常：") where
  read all before st m := by
    obtain ⟨s, st⟩ := st
    have hh : handlers.handle .echoServerHandler s (.read (.message m)) =
        ((), [.log (EchoServerHandler.line m), .write (.message EchoServerHandler.reply), .flush]) := rfl
    rw [handlers.fire_handle hh]
    simp [Handlers.perform, Handlers.effects, toHead_message, EchoServerHandler.told]
  caught _ _ _ _ := rfl
  inactive _ _ _ := rfl

theorem client_listens :
    Listens [.echoClientHandler, .echoClientHandler3, .echoClientHandler2] EchoClientHandler.told
      (literal "发生异常:") where
  read _ _ _ _ := rfl
  caught _ _ _ _ := rfl
  inactive _ _ _ := rfl

section
variable {rest : List Kind} {told : Message → List Out} {text : JString} (L : Listens rest told text)
include L

theorem fire_read (all : List Kind) (c : Option Held) (st : handlers.States rest) (data : List UInt8) :
    handlers.fire all (.messageEncoder :: .messageDecoder :: rest) [] ((), (c, st)) (.read (.buf data)) =
      (((), ((channelRead messageDecoder c data).cumulation, st)),
        (channelRead messageDecoder c data).fired.flatMap told ++
          errors text (channelRead messageDecoder c data).thrown) := by
  have henc : handlers.handle .messageEncoder () (.read (.buf data)) =
      ((), ([] : List Line).map .log ++ [.fire (.read (.buf data))]) := rfl
  have hdec : MessageDecoder.invoke c (.read (.buf data)) =
      ⟨(channelRead messageDecoder c data).cumulation,
        (channelRead messageDecoder c data).fired.map (fun m => .fire (.read (.message m))),
        (channelRead messageDecoder c data).thrown⟩ := rfl
  rw [handlers.fire_on henc, handlers.fire_handle (handle_decoder c (.read (.buf data))), Handlers.perform_append, hdec]
  simp only [Handlers.perform_fires (L.read all [] st), Handlers.perform_fires (L.caught all _ st)]
  rfl

theorem fire_inactive (all : List Kind) (c : Option Held) (st : handlers.States rest) :
    handlers.fire all (.messageEncoder :: .messageDecoder :: rest) [] ((), (c, st)) .inactive =
      (((), (none, st)), (channelInputClosed messageDecoder c).fired.flatMap told ++
        errors text (channelInputClosed messageDecoder c).thrown) := by
  have henc : handlers.handle .messageEncoder () .inactive = ((), ([] : List Line).map .log ++ [.fire .inactive]) := rfl
  have hdec : MessageDecoder.invoke c .inactive =
      ⟨none, (channelInputClosed messageDecoder c).fired.map (fun m => .fire (.read (.message m))) ++ [.fire .inactive],
        (channelInputClosed messageDecoder c).thrown⟩ := rfl
  rw [handlers.fire_on henc, handlers.fire_handle (handle_decoder c .inactive), Handlers.perform_append, hdec,
    Handlers.perform_append]
  simp only [Handlers.perform_fires (L.read all [] st), Handlers.perform_fires (L.caught all _ st), Handlers.perform,
    L.inactive]
  simp [errors]

end

/-! ## The pipelines and the connection -/

/-- What a pipeline does but for lines of exceptions and closes. -/
def isTold : Out → Bool
  | .log (.error _ _) => false
  | .close => false
  | _ => true

theorem filter_errors (text : JString) (thrown : Option Throwable) : (errors text thrown).filter isTold = [] := by
  cases thrown <;> rfl

theorem filter_told {told : Message → List Out} (ht : ∀ m, ∀ e ∈ told m, isTold e = true) (ms : List Message) :
    (ms.flatMap told).filter isTold = ms.flatMap told := by
  refine List.filter_eq_self.mpr fun e he => ?_
  obtain ⟨m, -, hm⟩ := List.mem_flatMap.mp he
  exact ht m e hm

theorem all_told {told : Message → List Out} (ht : ∀ m, ∀ e ∈ told m, isTold e = true) (ms : List Message) :
    ((ms.flatMap told).all fun e => !e.isClose) = true := by
  refine List.all_eq_true.mpr fun e he => ?_
  obtain ⟨m, -, hm⟩ := List.mem_flatMap.mp he
  have := ht m e hm
  cases e <;> first | rfl | cases this

theorem server_isTold (m : Message) : ∀ e ∈ EchoServerHandler.told m, isTold e = true := by
  intro e he
  simp only [EchoServerHandler.told, List.mem_cons, List.not_mem_nil, or_false] at he
  rcases he with rfl | rfl | rfl <;> rfl

theorem client_isTold (m : Message) : ∀ e ∈ EchoClientHandler.told m, isTold e = true := by
  intro e he
  simp only [EchoClientHandler.told, List.mem_cons, List.not_mem_nil, or_false] at he
  rcases he with rfl | rfl | rfl <;> rfl

/-- A channel does what the connection does. -/
structure Follows {rest : List Kind} (told : Message → List Out)
    (c : Chan handlers (.messageEncoder :: .messageDecoder :: rest)) (k : Conn) : Prop where
  isOpen : c.isOpen = k.isOpen
  cumulation : c.states.2.1 = k.cumulation
  trace : c.trace.filter isTold = k.passed.flatMap told

section
variable {rest : List Kind} {told : Message → List Out} {text : JString} (L : Listens rest told text)
  (ht : ∀ m, ∀ e ∈ told m, isTold e = true) {c : Chan handlers (.messageEncoder :: .messageDecoder :: rest)} {k : Conn}
include L ht

theorem follows_inactive (hi : c.isOpen = false) (hc : c.states.2.1 = k.cumulation)
    (h : c.trace.filter isTold = k.passed.flatMap told) (ho : k.isOpen = true) :
    Follows told (c.fire .inactive) k.close := by
  have hf := fire_inactive L (.messageEncoder :: .messageDecoder :: rest).reverse k.cumulation c.states.2.2
  have hst : c.states = ((), (k.cumulation, c.states.2.2)) := by rw [← hc]
  rw [← hst] at hf
  rw [Conn.close, if_pos ho]
  refine ⟨?_, ?_, ?_⟩
  · rw [Chan.isOpen_fire, hi, deliver_isOpen, Bool.false_and]
  · rw [Chan.states_fire, hf, deliver_cumulation]
  · rw [Chan.trace_fire, hf, deliver_passed, List.filter_append, List.filter_append, h, filter_told ht, filter_errors,
      List.append_nil, List.flatMap_append]

theorem follows_read (h : Follows told c k) (data : List UInt8) :
    Follows told (c.step (.read (.buf data))) (Echo.step k (.read data)) := by
  have hst : c.states = ((), (k.cumulation, c.states.2.2)) := by rw [← h.cumulation]
  have hf := fire_read L (.messageEncoder :: .messageDecoder :: rest).reverse k.cumulation c.states.2.2 data
  rw [← hst] at hf
  cases ho : k.isOpen with
  | false =>
    rw [Chan.step, h.isOpen, Echo.step, ho]
    exact h
  | true =>
    have hopen := h.isOpen.trans ho
    rw [Chan.step_open hopen rfl, Echo.step, if_pos ho]
    have hstates : (c.fire (.read (.buf data))).states =
        ((), ((channelRead messageDecoder k.cumulation data).cumulation, c.states.2.2)) := by rw [Chan.states_fire, hf]
    have htrace : (c.fire (.read (.buf data))).trace.filter isTold =
        (k.passed ++ (channelRead messageDecoder k.cumulation data).fired).flatMap told := by
      rw [Chan.trace_fire, hf, List.filter_append, List.filter_append, h.trace, filter_told ht, filter_errors,
        List.append_nil, List.flatMap_append]
    have hisOpen : (c.fire (.read (.buf data))).isOpen =
        ((channelRead messageDecoder k.cumulation data).thrown = none : Bool) := by
      rw [Chan.isOpen_fire, hopen, hf, List.all_append, all_told ht]
      cases (channelRead messageDecoder k.cumulation data).thrown <;> rfl
    cases hthrown : (channelRead messageDecoder k.cumulation data).thrown with
    | none =>
      rw [hthrown] at hisOpen
      simp only [hthrown]
      rw [if_pos (by simpa using hisOpen)]
      refine ⟨?_, ?_, ?_⟩
      · rw [hisOpen, deliver_isOpen, ho]
        rfl
      · rw [hstates, deliver_cumulation]
      · rw [htrace, deliver_passed]
    | some e =>
      rw [hthrown] at hisOpen
      simp only [hthrown, EchoServerHandler.exceptionCaught]
      rw [if_neg (by simpa using hisOpen)]
      refine follows_inactive L ht (by simpa using hisOpen) ?_ ?_ ?_
      · rw [hstates, deliver_cumulation]
      · rw [htrace, deliver_passed]
      · rw [deliver_isOpen, ho]

theorem follows_shut (h : Follows told c k) : Follows told (c.step .shut) (Echo.step k .inactive) := by
  cases ho : k.isOpen with
  | false =>
    rw [Chan.step, h.isOpen, Echo.step, Conn.close, ho]
    exact h
  | true =>
    have hopen := h.isOpen.trans ho
    have hclosed : (c.apply .close).isOpen = false := by
      rw [Chan.isOpen_apply, Effect.isClose, Bool.not_true, Bool.and_false]
    have hstep : c.step .shut = (c.apply .close).fire .inactive := by
      rw [Chan.step, if_pos hopen]
      show (if (c.apply .close).isOpen then c.apply .close else (c.apply .close).fire .inactive) = _
      rw [hclosed]
      rfl
    rw [hstep, Echo.step]
    refine follows_inactive L ht hclosed ?_ ?_ ho
    · rw [Chan.states_apply]
      exact h.cumulation
    · rw [Chan.trace_apply, List.filter_append, h.trace]
      exact List.append_nil _

theorem follows_life (chunks : List (List UInt8)) :
    Follows told (Pipeline.run (.messageEncoder :: .messageDecoder :: rest) (chunks.map .read ++ [.shut]))
      (life chunks) := by
  have hreads : ∀ (chunks : List (List UInt8)) {c : Chan handlers (.messageEncoder :: .messageDecoder :: rest)}
      {k : Conn}, Follows told c k →
      Follows told ((chunks.map fun data => Event.chan (.read data)).foldl Chan.step c)
        ((chunks.map Ev.read).foldl Echo.step k) := by
    intro chunks
    induction chunks with
    | nil => exact fun h => h
    | cons data chunks ih => exact fun h => ih (follows_read L ht h data)
  rw [Pipeline.run, List.map_append, Chan.run, List.foldl_append, life, List.foldl_append, List.map_map]
  exact follows_shut L ht (hreads chunks ⟨rfl, rfl, rfl⟩)

end

/-- Over any reads and the peer's close the pipelines do, for each message the connection passes
    on and in this order, what their handlers do with it: the server's logs it and writes the
    reply, the client's three log it one after the other. -/
theorem pipelines_follow (chunks : List (List UInt8)) :
    (Pipeline.run serverPipeline (chunks.map .read ++ [.shut])).trace.filter isTold =
      (life chunks).passed.flatMap EchoServerHandler.told ∧
    (Pipeline.run clientPipeline (chunks.map .read ++ [.shut])).trace.filter isTold =
      (life chunks).passed.flatMap EchoClientHandler.told := by
  exact ⟨(follows_life server_listens server_isTold chunks).trace,
    (follows_life client_listens client_isTold chunks).trace⟩

/-! ## The first read -/

/-- The lines of what was read. -/
def lines (tr : List Out) : List JString :=
  tr.filterMap fun
    | .log (.info text) => some text
    | _ => none

theorem lines_append (tr tr' : List Out) : lines (tr ++ tr') = lines tr ++ lines tr' := List.filterMap_append

theorem lines_errors (text : JString) (thrown : Option Throwable) : lines (errors text thrown) = [] := by
  cases thrown <;> rfl

/-- A frame that does not come in one read throws, and its payload is no frame either. -/
theorem channelRead_start {m : Message} (hw : WellFormed m) (ht : (getBytes m.data).getD 0 0 ≠ PACKAGE_TAG)
    {p q : List UInt8} (hf : frame m = p ++ q) (hp : p ≠ []) (hq : q ≠ []) :
    ∃ c e t, channelRead messageDecoder none p = ⟨c, [], some e⟩ ∧ channelInputClosed messageDecoder c = ⟨[], t⟩ := by
  rcases loop_partial hw hf hp hq with hl | ⟨d, rfl, hd, hl⟩
  · obtain ⟨c, hr, hc⟩ := Loop.channelRead (c := none) hl
    rw [← hc] at hl
    exact ⟨c, _, _, hr, hl.channelInputClosed (.inl (by simp))⟩
  · obtain ⟨c, hr, hc⟩ := Loop.channelRead (c := none) hl
    obtain ⟨ys, t, rest, hfront, hrest, -, hnil⟩ := loop_front d
    have hna : ¬ Accepts d := by
      intro ha
      refine ht ?_
      have hpos : 0 < d.length := Nat.lt_of_lt_of_le (by decide) ha.1
      rw [hd, List.getD_eq_getElem?_getD, List.getElem?_append_left hpos, ← List.getD_eq_getElem?_getD]
      exact ha.2.1
    obtain rfl := hnil hna
    rw [← hc] at hfront
    refine ⟨c, _, t, hr, hfront.channelInputClosed ?_⟩
    cases t with
    | none => exact .inr (hrest rfl)
    | some e => exact .inl (by simp)

section
variable {rest : List Kind} {told : Message → List Out} {text : JString} (L : Listens rest told text)
  {c : Chan handlers (.messageEncoder :: .messageDecoder :: rest)} (ho : c.isOpen = true)
  (hc : c.states = ((), (none, c.states.2.2)))
include L ho hc

/-- A frame that comes in one read is told. -/
theorem step_whole (ht : ∀ m, ∀ e ∈ told m, isTold e = true) {m : Message} (hw : WellFormed m) :
    c.step (.read (.buf (frame m))) = (told m.tagged).foldl Chan.apply c := by
  have hr : channelRead messageDecoder none (frame m) = ⟨none, [m.tagged], none⟩ := by
    have := channelRead_frames (g := [m]) fun n hn => by rw [List.mem_singleton.mp hn]; exact hw
    simpa [frames] using this
  have hf := fire_read L (.messageEncoder :: .messageDecoder :: rest).reverse none c.states.2.2 (frame m)
  rw [← hc, hr] at hf
  have hfire : c.fire (.read (.buf (frame m))) = (told m.tagged).foldl Chan.apply c := by
    rw [Chan.fire]
    simp only [hf, errors, Option.toList_none, List.flatMap_nil, List.append_nil, List.flatMap_cons]
    rw [← hc]
  have hopen : ((told m.tagged).foldl Chan.apply c).isOpen = true := by
    rw [Chan.isOpen_foldl, ho]
    simpa using all_told ht [m.tagged]
  rw [Chan.step_open ho rfl, hfire, if_pos hopen]

/-- One that does not closes the channel, and nothing is told. -/
theorem step_start {m : Message} (hw : WellFormed m) (ht : (getBytes m.data).getD 0 0 ≠ PACKAGE_TAG) {p q : List UInt8}
    (hf : frame m = p ++ q) (hp : p ≠ []) (hq : q ≠ []) : ∃ es, lines es = [] ∧
    c.step (.read (.buf p)) = { c with isOpen := false, out := c.out.close, trace := c.trace ++ es } := by
  obtain ⟨c', e, t, hr, hclose⟩ := channelRead_start hw ht hf hp hq
  have hread := fire_read L (.messageEncoder :: .messageDecoder :: rest).reverse none c.states.2.2 p
  rw [← hc, hr] at hread
  have hinactive := fire_inactive L (.messageEncoder :: .messageDecoder :: rest).reverse c' c.states.2.2
  rw [hclose, ← hc] at hinactive
  have hfire : c.fire (.read (.buf p)) = ⟨false, ((), (c', c.states.2.2)), c.out.close,
      c.trace ++ [.log (.error text e), .close]⟩ := by
    rw [Chan.fire]
    simp only [hread]
    simp [errors, Chan.apply, ho]
  have hthen : (c.fire (.read (.buf p))).fire .inactive = ⟨false, c.states, c.out.close,
      c.trace ++ [.log (.error text e), .close] ++ errors text t⟩ := by
    rw [hfire, Chan.fire]
    simp only [hinactive, List.flatMap_nil, List.nil_append]
    exact Chan.foldl_closed _ rfl
  refine ⟨[.log (.error text e), .close] ++ errors text t, lines_errors text t, ?_⟩
  rw [Chan.step_open ho rfl, hthen, hfire, ← List.append_assoc]
  rfl

/-- The other end's close is all that is left to happen. -/
theorem step_shut : c.step .shut = { c with isOpen := false, out := c.out.close, trace := c.trace ++ [.close] } := by
  have hinactive := fire_inactive L (.messageEncoder :: .messageDecoder :: rest).reverse none c.states.2.2
  rw [channelInputClosed_none, ← hc] at hinactive
  have hclose : c.apply .close = { c with isOpen := false, out := c.out.close, trace := c.trace ++ [.close] } := by
    simp [Chan.apply, ho]
  rw [Chan.step, if_pos ho]
  show (if (c.apply .close).isOpen then c.apply .close else (c.apply .close).fire .inactive) = _
  rw [hclose, if_neg Bool.false_ne_true, Chan.fire]
  simp only [hinactive]
  rfl

end

/-! ## The system -/

structure St where
  active : Bool
  client : Chan handlers clientPipeline
  server : Chan handlers serverPipeline
  /-- What each end has been given to read. -/
  clientReads : List (List UInt8)
  serverReads : List (List UInt8)

inductive Ev where
  | active
  /-- Reads of at most `n` bytes. -/
  | serverRead (n : Nat)
  | clientRead (n : Nat)
  /-- The other end has closed, and nothing of it is left. -/
  | serverShut
  | clientShut

def init : St := ⟨false, Chan.init, Chan.init, [], []⟩

def step (s : St) : Ev → St
  | .active => if s.active then s else { s with active := true, client := s.client.step .active }
  | .serverRead n =>
    let data := s.client.out.wire.next n
    if s.server.isOpen ∧ data ≠ [] then
      { s with client := { s.client with out := s.client.out.take n }
               server := s.server.step (.read (.buf data)), serverReads := s.serverReads ++ [data] }
    else s
  | .clientRead n =>
    let data := s.server.out.wire.next n
    if s.client.isOpen ∧ data ≠ [] then
      { s with server := { s.server with out := s.server.out.take n }
               client := s.client.step (.read (.buf data)), clientReads := s.clientReads ++ [data] }
    else s
  | .serverShut =>
    if s.client.isOpen ∨ s.client.out.wire.transit ≠ [] then s else { s with server := s.server.step .shut }
  | .clientShut =>
    if s.server.isOpen ∨ s.server.out.wire.transit ≠ [] then s else { s with client := s.client.step .shut }

inductive Reach : St → Prop
  | init : Reach init
  | step {s : St} (e : Ev) : Reach s → Reach (step s e)

/-! ## The exchange -/

/-- What the client writes when its channel is active. -/
abbrev greeting : Message := EchoClientHandler.channelActive

abbrev reply : Message := EchoServerHandler.reply

/-- What an end has read of the frame of `m`, the only one sent to it. -/
inductive Side (m : Message) (reads : List (List UInt8)) (isOpen : Bool) : Prop
  | none : reads = [] → Side m reads isOpen
  | whole : reads = [frame m] → Side m reads isOpen
  | start {p : List UInt8} : reads = [p] → p ≠ [] → p ≠ frame m → isOpen = false → Side m reads isOpen

/-- An end's first read got the start of the frame only. -/
def Torn (m : Message) (reads : List (List UInt8)) : Prop := reads ≠ [] ∧ reads ≠ [frame m]

structure Inv (s : St) : Prop where
  clientStates : s.client.states = ((), (none, s.client.states.2.2))
  serverStates : s.server.states = ((), (none, s.server.states.2.2))
  clientUnflushed : s.client.out.unflushed = []
  serverUnflushed : s.server.out.unflushed = []
  clientSent : s.client.out.wire.sent = if s.active then frame greeting else []
  serverSent : s.server.out.wire.sent = if s.serverReads = [frame greeting] then frame reply else []
  serverRead : s.serverReads.flatten = s.client.out.wire.received
  clientRead : s.clientReads.flatten = s.server.out.wire.received
  serverSide : Side greeting s.serverReads s.server.isOpen
  clientSide : Side reply s.clientReads s.client.isOpen
  serverLines : lines s.server.trace =
    if s.serverReads = [frame greeting] then lines (EchoServerHandler.told greeting.tagged) else []
  clientLines : lines s.client.trace = (if s.active then [literal "channel active"] else []) ++
    if s.clientReads = [frame reply] then lines (EchoClientHandler.told reply.tagged) else []
  isOpen : s.server.isOpen = true ∧ s.client.isOpen = true ∨ Torn greeting s.serverReads ∨ Torn reply s.clientReads

/-- What an open end reads first is of the start of the frame, and there is no second read. -/
theorem first_read {m : Message} {reads : List (List UInt8)} {w : Pipe UInt8} {b : Prop} [Decidable b] {n : Nat}
    (hs : w.sent = if b then frame m else []) (hr : reads.flatten = w.received) (hside : Side m reads true)
    (hn : w.next n ≠ []) : reads = [] ∧ ∃ q, frame m = w.next n ++ q := by
  have htransit : w.transit ≠ [] := by
    intro h
    rw [Pipe.next, h, List.take_nil] at hn
    exact hn rfl
  have hm : w.received ++ w.transit = frame m := by
    have hs : w.received ++ w.transit = if b then frame m else [] := hs
    split at hs
    · exact hs
    · exact absurd (List.append_eq_nil_iff.mp hs).2 htransit
  cases hside with
  | none h =>
    rw [h, List.flatten_nil] at hr
    refine ⟨h, w.transit.drop n, ?_⟩
    rw [← hm, ← hr, List.nil_append, Pipe.next, List.take_append_drop]
  | whole h =>
    rw [h, List.flatten_singleton] at hr
    rw [← hr, List.append_right_eq_self] at hm
    exact absurd hm htransit
  | start h hp hne ho => cases ho

theorem client_active {c : Chan handlers clientPipeline} (ho : c.isOpen = true)
    (hc : c.states = ((), (none, c.states.2.2))) : c.step .active =
      { c with out := (c.out.write (frame greeting)).flush
               trace := c.trace ++
                 [.log (.info (literal "channel active")), .write (.buf (frame greeting)), .flush] } := by
  have hf : handlers.fire clientPipeline.reverse clientPipeline [] c.states .active =
      (c.states, [.log (.info (literal "channel active")), .write (.buf (frame greeting)), .flush]) := by
    have hh : handlers.handle .echoClientHandler () .active =
        ((), [.log (.info (literal "channel active")), .write (.message greeting), .flush]) := rfl
    have henc : handlers.handle .messageEncoder () .active = ((), ([] : List Line).map .log ++ [.fire .active]) := rfl
    have hdec : handlers.handle .messageDecoder none .active =
        (none, ([] : List Line).map .log ++ [.fire .active]) := rfl
    rw [hc]
    show handlers.fire _
      [.messageEncoder, .messageDecoder, .echoClientHandler, .echoClientHandler3, .echoClientHandler2] []
        ((), (none, ((), c.states.2.2.2))) .active = _
    rw [handlers.fire_on henc, handlers.fire_on hdec, handlers.fire_handle hh]
    simp [Handlers.perform, Handlers.effects, toHead_message]
  have hfire : c.fire .active = { c with
      out := (c.out.write (frame greeting)).flush
      trace := c.trace ++ [.log (.info (literal "channel active")), .write (.buf (frame greeting)), .flush] } := by
    rw [Chan.fire]
    simp only [hf]
    simp [Chan.apply, Obj.bytes, ho]
  rw [Chan.step_open ho rfl, hfire]
  exact if_pos ho

theorem server_told {c : Chan handlers serverPipeline} (ho : c.isOpen = true) (m : Message) :
    (EchoServerHandler.told m).foldl Chan.apply c =
      { c with out := (c.out.write (frame reply)).flush, trace := c.trace ++ EchoServerHandler.told m } := by
  simp [EchoServerHandler.told, Chan.apply, Obj.bytes, ho]

theorem client_told (c : Chan handlers clientPipeline) (m : Message) :
    (EchoClientHandler.told m).foldl Chan.apply c = { c with trace := c.trace ++ EchoClientHandler.told m } :=
  Chan.foldl_logs [EchoClientHandler.line m, EchoClientHandler3.line m, EchoClientHandler2.line (Message.toString m)] c

theorem greeting_tag : (getBytes greeting.data).getD 0 0 ≠ PACKAGE_TAG := by decide

theorem reply_tag : (getBytes reply.data).getD 0 0 ≠ PACKAGE_TAG := by decide

/-- Nothing is read before the client is active. -/
theorem Inv.reads_nil {s : St} (h : Inv s) (ha : s.active = false) : s.serverReads = [] ∧ s.clientReads = [] := by
  have hclient : s.client.out.wire.received ++ s.client.out.wire.transit = [] := by
    have := h.clientSent
    rw [ha] at this
    exact this
  have hserver : s.serverReads = [] := by
    have hr := h.serverRead.trans (List.append_eq_nil_iff.mp hclient).1
    cases h.serverSide with
    | none h => exact h
    | whole h => rw [h, List.flatten_singleton] at hr; exact absurd hr (frame_ne_nil _)
    | start h hp => rw [h, List.flatten_singleton] at hr; exact absurd hr hp
  refine ⟨hserver, ?_⟩
  have hsent : s.server.out.wire.received ++ s.server.out.wire.transit = [] := by
    have := h.serverSent
    rw [hserver] at this
    exact this
  have hr := h.clientRead.trans (List.append_eq_nil_iff.mp hsent).1
  cases h.clientSide with
  | none h => exact h
  | whole h => rw [h, List.flatten_singleton] at hr; exact absurd hr (frame_ne_nil _)
  | start h hp => rw [h, List.flatten_singleton] at hr; exact absurd hr hp

theorem inv_active {s : St} (h : Inv s) : Inv (step s .active) := by
  rw [step]
  split
  · exact h
  · rename_i ha
    have ha : s.active = false := by simpa using ha
    obtain ⟨hs, hc⟩ := h.reads_nil ha
    have ho : s.client.isOpen = true := by
      rcases h.isOpen with ho | ht | ht
      · exact ho.2
      · exact absurd hs ht.1
      · exact absurd hc ht.1
    rw [client_active ho h.clientStates]
    exact
      { h with
        clientUnflushed := rfl
        clientSent := by
          rw [Outbound.sent_flush, Outbound.written_write, Outbound.written_eq h.clientUnflushed, h.clientSent, ha]
          rfl
        serverRead := h.serverRead
        clientLines := by
          rw [lines_append, h.clientLines, ha, hc]
          rfl }

theorem inv_serverRead {s : St} (h : Inv s) (n : Nat) : Inv (step s (.serverRead n)) := by
  rw [step]
  dsimp only
  split
  · rename_i hg
    obtain ⟨ho, hn⟩ := hg
    obtain ⟨hr, q, hq⟩ := first_read h.clientSent h.serverRead (ho ▸ h.serverSide) hn
    have hread : (s.serverReads ++ [s.client.out.wire.next n]).flatten = (s.client.out.take n).wire.received := by
      rw [List.flatten_append, h.serverRead, List.flatten_singleton]
      rfl
    have hsent : (s.client.out.take n).wire.sent = if s.active then frame greeting else [] :=
      (Pipe.sent_take _ n).trans h.clientSent
    have hserver := h.serverSent
    have hlines := h.serverLines
    rw [hr] at hserver hlines
    by_cases hq0 : q = []
    · rw [hq0, List.append_nil] at hq
      rw [← hq] at hread
      rw [← hq, step_whole server_listens ho h.serverStates server_isTold wellFormed_endpoints.1, server_told ho]
      exact
        { h with
          serverUnflushed := rfl
          clientSent := hsent
          serverSent := by
            rw [Outbound.sent_flush, Outbound.written_write, Outbound.written_eq h.serverUnflushed, hserver, hr]
            exact (if_pos rfl).symm
          serverRead := hread
          serverSide := .whole (by rw [hr]; rfl)
          serverLines := by
            rw [lines_append, hlines, hr]
            exact (if_pos rfl).symm
          isOpen := by
            rcases h.isOpen with hb | ht | ht
            · exact .inl hb
            · exact absurd hr ht.1
            · exact .inr (.inr ht) }
    · obtain ⟨es, hes, hstep⟩ :=
        step_start server_listens ho h.serverStates wellFormed_endpoints.1 greeting_tag hq hn hq0
      have hne : s.client.out.wire.next n ≠ frame greeting := by
        intro he
        rw [← he, List.self_eq_append_right] at hq
        exact hq0 hq
      have htorn : s.serverReads ++ [s.client.out.wire.next n] ≠ [frame greeting] := by
        rw [hr]
        exact fun he => hne (List.cons.inj he).1
      rw [hstep]
      exact
        { h with
          serverUnflushed := rfl
          clientSent := hsent
          serverSent := by
            rw [if_neg htorn]
            exact hserver
          serverRead := hread
          serverSide := .start (by rw [hr]; rfl) hn hne rfl
          serverLines := by
            rw [lines_append, hes, hlines, if_neg htorn]
            rfl
          isOpen := .inr (.inl ⟨by simp, htorn⟩) }
  · exact h

theorem inv_clientRead {s : St} (h : Inv s) (n : Nat) : Inv (step s (.clientRead n)) := by
  rw [step]
  dsimp only
  split
  · rename_i hg
    obtain ⟨ho, hn⟩ := hg
    obtain ⟨hr, q, hq⟩ := first_read h.serverSent h.clientRead (ho ▸ h.clientSide) hn
    have hread : (s.clientReads ++ [s.server.out.wire.next n]).flatten = (s.server.out.take n).wire.received := by
      rw [List.flatten_append, h.clientRead, List.flatten_singleton]
      rfl
    have hsent : (s.server.out.take n).wire.sent = if s.serverReads = [frame greeting] then frame reply else [] :=
      (Pipe.sent_take _ n).trans h.serverSent
    have hlines := h.clientLines
    rw [hr] at hlines
    by_cases hq0 : q = []
    · rw [hq0, List.append_nil] at hq
      rw [← hq] at hread
      rw [← hq, step_whole client_listens ho h.clientStates client_isTold wellFormed_endpoints.2, client_told]
      exact
        { h with
          serverSent := hsent
          clientRead := hread
          clientSide := .whole (by rw [hr]; rfl)
          clientLines := by
            rw [lines_append, hlines, hr]
            simp
          isOpen := by
            rcases h.isOpen with hb | ht | ht
            · exact .inl hb
            · exact .inr (.inl ht)
            · exact absurd hr ht.1 }
    · obtain ⟨es, hes, hstep⟩ :=
        step_start client_listens ho h.clientStates wellFormed_endpoints.2 reply_tag hq hn hq0
      have hne : s.server.out.wire.next n ≠ frame reply := by
        intro he
        rw [← he, List.self_eq_append_right] at hq
        exact hq0 hq
      have htorn : s.clientReads ++ [s.server.out.wire.next n] ≠ [frame reply] := by
        rw [hr]
        exact fun he => hne (List.cons.inj he).1
      rw [hstep]
      exact
        { h with
          clientUnflushed := rfl
          serverSent := hsent
          clientRead := hread
          clientSide := .start (by rw [hr]; rfl) hn hne rfl
          clientLines := by
            rw [lines_append, hes, hlines, if_neg htorn]
            simp
          isOpen := .inr (.inr ⟨by simp, htorn⟩) }
  · exact h

/-- Only one end that has closed closes the other. -/
theorem inv_shut {s : St} (h : Inv s) : Inv (step s .serverShut) ∧ Inv (step s .clientShut) := by
  have hside : ∀ {m reads b}, Side m reads b → Side m reads false := by
    intro m reads b h
    cases h with
    | none h => exact .none h
    | whole h => exact .whole h
    | start h hp hne _ => exact .start h hp hne rfl
  constructor
  · rw [step]
    split
    · exact h
    · rename_i hg
      have htorn : Torn greeting s.serverReads ∨ Torn reply s.clientReads := by
        rcases h.isOpen with hb | ht
        · exact absurd (.inl hb.2) hg
        · exact ht
      cases ho : s.server.isOpen with
      | false =>
        rw [Chan.step, ho]
        exact h
      | true =>
        rw [step_shut server_listens ho h.serverStates]
        exact
          { h with
            serverUnflushed := rfl
            serverSide := hside h.serverSide
            serverLines := by
              rw [lines_append, h.serverLines]
              exact List.append_nil _
            isOpen := .inr htorn }
  · rw [step]
    split
    · exact h
    · rename_i hg
      have htorn : Torn greeting s.serverReads ∨ Torn reply s.clientReads := by
        rcases h.isOpen with hb | ht
        · exact absurd (.inl hb.1) hg
        · exact ht
      cases ho : s.client.isOpen with
      | false =>
        rw [Chan.step, ho]
        exact h
      | true =>
        rw [step_shut client_listens ho h.clientStates]
        exact
          { h with
            clientUnflushed := rfl
            clientSide := hside h.clientSide
            clientLines := by
              rw [lines_append, h.clientLines]
              exact List.append_nil _
            isOpen := .inr htorn }

theorem inv {s : St} (h : Reach s) : Inv s := by
  induction h with
  | init => exact ⟨rfl, rfl, rfl, rfl, rfl, rfl, rfl, rfl, .none rfl, .none rfl, rfl, rfl, .inl ⟨rfl, rfl⟩⟩
  | step e _ ih =>
    cases e with
    | active => exact inv_active ih
    | serverRead n => exact inv_serverRead ih n
    | clientRead n => exact inv_clientRead ih n
    | serverShut => exact (inv_shut ih).1
    | clientShut => exact (inv_shut ih).2

/-- An end that has read something, but not the frame in one, has closed. -/
theorem Side.closed {m : Message} {reads : List (List UInt8)} {b : Bool} (h : Side m reads b) (ht : Torn m reads) :
    b = false := by
  cases h with
  | none h => exact absurd h ht.1
  | whole h => exact absurd h ht.2
  | start _ _ _ ho => exact ho

/-- An open end that has read all of the frame has read it in one. -/
theorem Side.read {m : Message} {reads : List (List UInt8)} (h : Side m reads true) (hf : reads.flatten = frame m) :
    reads = [frame m] := by
  cases h with
  | none h => rw [h, List.flatten_nil] at hf; exact absurd hf.symm (frame_ne_nil _)
  | whole h => exact h
  | start _ _ _ ho => cases ho

/-- Where nothing more can happen, an open end has nothing left to read. -/
theorem drained {s : St} (hdone : ∀ e, step s e = s) :
    s.active = true ∧ (s.server.isOpen = true → s.client.out.wire.transit = []) ∧
      (s.client.isOpen = true → s.server.out.wire.transit = []) := by
  refine ⟨?_, fun ho => ?_, fun ho => ?_⟩
  · have := congrArg St.active (hdone .active)
    rw [step] at this
    split at this
    · assumption
    · exact this.symm
  · refine Classical.byContradiction fun ht => ?_
    have hn : s.client.out.wire.next s.client.out.wire.transit.length ≠ [] := by rwa [Pipe.next, List.take_length]
    have := congrArg St.serverReads (hdone (.serverRead s.client.out.wire.transit.length))
    rw [step] at this
    dsimp only at this
    rw [if_pos ⟨ho, hn⟩] at this
    simp at this
  · refine Classical.byContradiction fun ht => ?_
    have hn : s.server.out.wire.next s.server.out.wire.transit.length ≠ [] := by rwa [Pipe.next, List.take_length]
    have := congrArg St.clientReads (hdone (.clientRead s.server.out.wire.transit.length))
    rw [step] at this
    dsimp only at this
    rw [if_pos ⟨ho, hn⟩] at this
    simp at this

/-- The client is given something only after the server was given the greeting's frame. -/
theorem Inv.serverFirst {s : St} (hi : Inv s) (hc : s.clientReads ≠ []) : s.serverReads = [frame greeting] := by
  refine Classical.byContradiction fun hs => ?_
  have hsent := hi.serverSent
  rw [if_neg hs] at hsent
  have hr := hi.clientRead.trans (List.append_eq_nil_iff.mp hsent).1
  cases hi.clientSide with
  | none h => exact hc h
  | whole h =>
    rw [h, List.flatten_singleton] at hr
    exact frame_ne_nil _ hr
  | start h hp =>
    rw [h, List.flatten_singleton] at hr
    exact hp hr

/-- Where nothing more can happen, the client has closed if the server has and nothing is on
    its way to it. -/
theorem Inv.clientShut {s : St} (hi : Inv s) (hdone : ∀ e, step s e = s) (hs : s.server.isOpen = false)
    (ht : s.server.out.wire.transit = []) : s.client.isOpen = false := by
  by_contra hc
  rw [Bool.not_eq_false] at hc
  have hstep := congrArg (fun s => s.client.isOpen) (hdone .clientShut)
  rw [step, if_neg (by simp [hs, ht])] at hstep
  dsimp only at hstep
  rw [step_shut client_listens hc hi.clientStates, hc] at hstep
  cases hstep

theorem Inv.serverShut {s : St} (hi : Inv s) (hdone : ∀ e, step s e = s) (hc : s.client.isOpen = false)
    (ht : s.client.out.wire.transit = []) : s.server.isOpen = false := by
  by_contra hs
  rw [Bool.not_eq_false] at hs
  have hstep := congrArg (fun s => s.server.isOpen) (hdone .serverShut)
  rw [step, if_neg (by simp [hc, ht])] at hstep
  dsimp only at hstep
  rw [step_shut server_listens hs hi.serverStates, hs] at hstep
  cases hstep

/-- Nothing more can happen, and both ends are open. -/
theorem Inv.reads_whole {s : St} (hi : Inv s) (hdone : ∀ e, step s e = s) (hs : s.server.isOpen = true)
    (hc : s.client.isOpen = true) : s.serverReads = [frame greeting] ∧ s.clientReads = [frame reply] := by
  obtain ⟨ha, hserver, hclient⟩ := drained hdone
  have hsent := hi.clientSent
  rw [if_pos ha] at hsent
  have hreads : s.serverReads = [frame greeting] := by
    refine (hs ▸ hi.serverSide : Side greeting s.serverReads true).read ?_
    rw [hi.serverRead, Pipe.received_eq (hserver hs), hsent]
  have hreply := hi.serverSent
  rw [if_pos hreads] at hreply
  refine ⟨hreads, (hc ▸ hi.clientSide : Side reply s.clientReads true).read ?_⟩
  rw [hi.clientRead, Pipe.received_eq (hclient hc), hreply]

/-- The server was given the start of the greeting's frame: it has sent nothing. -/
theorem Inv.serverTorn {s : St} (hi : Inv s) (hdone : ∀ e, step s e = s) (ht : Torn greeting s.serverReads) :
    s.server.isOpen = false ∧ s.client.isOpen = false := by
  have hs := hi.serverSide.closed ht
  have hempty := hi.serverSent
  rw [if_neg ht.2] at hempty
  exact ⟨hs, hi.clientShut hdone hs (List.append_eq_nil_iff.mp hempty).2⟩

/-- The client was given the start of the reply's frame: all it has sent has arrived. -/
theorem Inv.clientTorn {s : St} (hi : Inv s) (hdone : ∀ e, step s e = s) (ht : Torn reply s.clientReads) :
    s.server.isOpen = false ∧ s.client.isOpen = false := by
  have hc := hi.clientSide.closed ht
  have hsent := hi.clientSent
  rw [if_pos (drained hdone).1] at hsent
  have hreads := hi.serverRead
  rw [hi.serverFirst ht.1, List.flatten_singleton, ← hsent] at hreads
  exact ⟨hi.serverShut hdone hc (List.append_right_eq_self.mp hreads), hc⟩

/-- The exchange is whole or nothing. In every reachable state an end has logged the other's
    message exactly when it was given its frame in one read, the client only after the server.
    Once nothing more can happen both ends are open and have done so, or an end got the start
    of a frame alone and both are closed. -/
theorem exchange (s : St) (h : Reach s) :
    lines s.server.trace =
      (if s.serverReads = [frame greeting] then lines (EchoServerHandler.told greeting.tagged) else []) ∧
    lines s.client.trace = (if s.active then [literal "channel active"] else []) ++
      (if s.clientReads = [frame reply] then lines (EchoClientHandler.told reply.tagged) else []) ∧
    (s.clientReads ≠ [] → s.serverReads = [frame greeting]) ∧
    ((∀ e, step s e = s) →
      s.server.isOpen = true ∧ s.client.isOpen = true ∧ s.serverReads = [frame greeting] ∧
          s.clientReads = [frame reply] ∨
        s.server.isOpen = false ∧ s.client.isOpen = false ∧
          (Torn greeting s.serverReads ∨ Torn reply s.clientReads)) := by
  have hi := inv h
  refine ⟨hi.serverLines, hi.clientLines, hi.serverFirst, fun hdone => ?_⟩
  rcases hi.isOpen with ⟨hs, hc⟩ | htorn | htorn
  · left
    obtain ⟨hreads, hreply⟩ := hi.reads_whole hdone hs hc
    exact ⟨hs, hc, hreads, hreply⟩
  · right
    obtain ⟨hs, hc⟩ := hi.serverTorn hdone htorn
    exact ⟨hs, hc, .inl htorn⟩
  · right
    obtain ⟨hs, hc⟩ := hi.clientTorn hdone htorn
    exact ⟨hs, hc, .inr htorn⟩

/-- Both frames come in one read. -/
def finished : St := step (step (step init .active) (.serverRead 1000)) (.clientRead 1000)

theorem finished_transit : finished.active = true ∧ finished.client.isOpen = true ∧ finished.server.isOpen = true ∧
    finished.client.out.wire.transit = [] ∧ finished.server.out.wire.transit = [] := by decide +kernel

theorem exchange_finished :
    finished.server.isOpen = true ∧ finished.client.isOpen = true ∧ finished.serverReads = [frame greeting] ∧
        finished.clientReads = [frame reply] ∨
      finished.server.isOpen = false ∧ finished.client.isOpen = false ∧
        (Torn greeting finished.serverReads ∨ Torn reply finished.clientReads) := by
  obtain ⟨ha, hc, hs, hct, hst⟩ := finished_transit
  have hreach : Reach finished := .step (.clientRead 1000) (.step (.serverRead 1000) (.step .active .init))
  refine (exchange finished hreach).2.2.2 fun e => ?_
  cases e with
  | active => rw [step, if_pos ha]
  | serverRead n => simp [step, Pipe.next, hct]
  | clientRead n => simp [step, Pipe.next, hst]
  | serverShut => rw [step, if_pos (.inl hc)]
  | clientShut => rw [step, if_pos (.inl hs)]

end NettyStudy.Echo.Exchange
