/-
  NettyStudy.Seria.Placement — the JBoss Marshalling client with its encoder and decoder
  anywhere in the pipeline. Its `initChannel` notes that the encoder has to be in front of
  SubReqClientHandler, or what `channelActive` writes cannot reach the server. The handler
  writes its batch through its context, a heartbeat through the channel.

  IdleStateHandler stays in front, so that its events come from there. A MarshallingEncoder
  marshals any object; a buffer is not serializable. What is logged is left out.

  Proved: `placement`, over all that can happen to the channel, for any number of encoders and
  decoders in any order: the batch is sent exactly when one encoder is in front of the handler,
  a heartbeat exactly when there is one in the whole pipeline, up to the event that closes
  the channel, which is the other end's close or a read that gets to a decoder in front of the
  handler.
-/

import NettyStudy.Netty.Pipeline
import NettyStudy.Seria.JbossTransport

namespace NettyStudy.Seria.Placement

open NettyStudy.Netty Jboss JbossTransport

inductive Pojo where
  | req (r : SubscribeReq)
  | resp (r : SubscribeResp)

inductive Obj where
  | buf (data : List UInt8)
  | pojo (p : Pojo)

def Obj.bytes : Obj → Option (List UInt8)
  | .buf data => some data
  | .pojo _ => none

inductive Kind where
  | marshallingDecoder
  | marshallingEncoder
  | subReqClientHandler
  deriving DecidableEq

abbrev In := Inbound Obj Throwable

variable (P : Provider Pojo)

def MarshallingEncoder.write : Obj → Option (List Obj)
  | .pojo p => (P.encode p).map fun bytes => [.buf bytes]
  | .buf _ => none

def MarshallingDecoder.invoke : Option Held → In → Invoked (Option Held) Obj Throwable Empty :=
  Decoder.invoke P.decoder Obj.bytes .pojo

def subReq (i : Int32) : Obj := .pojo (.req (SubReqClientHandler.subReq i))

def SubReqClientHandler.invoke : In → Invoked Unit Obj Throwable Empty
  | .active =>
    ⟨(), (List.range 10).map (fun i => .write (subReq (Int32.ofNat i))) ++ [.flush, .fire .inactive], none⟩
  | .userEvent .idleState => ⟨(), [.channelWrite (subReq (-1000)), .flush], none⟩
  | .exceptionCaught _ => ⟨(), [.close], none⟩
  | ev => passOn () ev

@[reducible] def State : Kind → Type
  | .marshallingDecoder => Option Held
  | _ => Unit

abbrev handlers : Handlers Kind Obj Throwable Empty where
  State := State
  init
    | .marshallingDecoder => (none : Option Held)
    | .marshallingEncoder | .subReqClientHandler => ()
  invoke
    | .marshallingDecoder, c, ev => MarshallingDecoder.invoke P c ev
    | .marshallingEncoder, s, ev => passOn s ev
    | .subReqClientHandler, _, ev => SubReqClientHandler.invoke ev
  write
    | .marshallingEncoder, msg => MarshallingEncoder.write P msg
    | _, msg => some [msg]
  bytes := Obj.bytes

/-! ## Writes -/

/-- What is sent of an object that passes `n` encoders. -/
def bytesOf (n : Nat) (p : Pojo) : List UInt8 := if n = 1 then (P.encode p).getD [] else []

theorem toHead_buf (data : List UInt8) (hs : List Kind) : (handlers P).toHead hs (.buf data) =
    if hs.count .marshallingEncoder = 0 then [.buf data] else [] := by
  induction hs with
  | nil => rfl
  | cons k hs ih =>
    cases k with
    | marshallingEncoder => simp [Handlers.toHead, MarshallingEncoder.write]
    | _ => simp [Handlers.toHead, ih]

/-- The buffers that get to the transport. -/
theorem toHead_pojo (p : Pojo) (hs : List Kind) : ((handlers P).toHead hs (.pojo p)).filterMap Obj.bytes =
    if hs.count .marshallingEncoder = 1 then (P.encode p).toList else [] := by
  induction hs with
  | nil => rfl
  | cons k hs ih =>
    cases k with
    | marshallingEncoder =>
      cases he : P.encode p with
      | none => simp [Handlers.toHead, MarshallingEncoder.write, he]
      | some bytes =>
        simp only [Handlers.toHead, MarshallingEncoder.write, he, Option.map_some, List.flatMap_cons, List.flatMap_nil,
          List.append_nil, toHead_buf, List.count_cons_self]
        by_cases hc : hs.count .marshallingEncoder = 0
        · simp [hc, Obj.bytes]
        · simp [hc]
    | _ => simp [Handlers.toHead, ih]

theorem bytes_pojo (p : Pojo) (hs : List Kind) : (((handlers P).toHead hs (.pojo p)).filterMap Obj.bytes).flatten =
    bytesOf P (hs.count .marshallingEncoder) p := by
  rw [toHead_pojo, bytesOf]
  split
  · cases P.encode p <;> simp
  · rfl

theorem bytes_pojos {β : Type} (f : β → Pojo) (xs : List β) (hs : List Kind) :
    (((xs.map fun x => .pojo (f x)).flatMap ((handlers P).toHead hs)).filterMap Obj.bytes).flatten =
      xs.flatMap fun x => bytesOf P (hs.count .marshallingEncoder) (f x) := by
  induction xs with
  | nil => rfl
  | cons x xs ih =>
    rw [List.map_cons, List.flatMap_cons, List.filterMap_append, List.flatten_append, ih, bytes_pojo, List.flatMap_cons]

/-! ## Events -/

variable {P}

/-- Neither the activation nor a user event. -/
def Quiet : In → Prop
  | .active | .userEvent _ => False
  | _ => True

theorem handle_decoder (s : Option Held) (ev : In) : (handlers P).handle .marshallingDecoder s ev =
    ((MarshallingDecoder.invoke P s ev).state, (MarshallingDecoder.invoke P s ev).calls ++
      (MarshallingDecoder.invoke P s ev).thrown.toList.map fun e => .fire (.exceptionCaught e)) :=
  Handlers.handle_passOn fun _ _ => rfl

/-- Codecs only fire, events that are quiet where theirs was. -/
theorem codec_calls {k : Kind} (hk : k ≠ .subReqClientHandler) {s : State k} {ev : In}
    {c : Call Obj Throwable Empty} (hc : c ∈ ((handlers P).handle k s ev).2) :
    ∃ ev', c = .fire ev' ∧ (Quiet ev → Quiet ev') := by
  cases k with
  | subReqClientHandler => exact absurd rfl hk
  | marshallingEncoder => exact ⟨ev, List.mem_singleton.mp hc, id⟩
  | marshallingDecoder =>
    rw [handle_decoder] at hc
    rcases List.mem_append.mp hc with hc | hc
    · rcases Decoder.invoke_calls hc with rfl | ⟨x, rfl⟩
      · exact ⟨ev, rfl, id⟩
      · exact ⟨.read x, rfl, fun _ => trivial⟩
    · obtain ⟨e, -, rfl⟩ := List.mem_map.mp hc
      exact ⟨.exceptionCaught e, rfl, fun _ => trivial⟩

/-- Nothing leaves a pipeline of codecs. -/
theorem fire_codecs (all hs : List Kind) (hcodecs : .subReqClientHandler ∉ hs) : ∀ (before : List Kind)
    (st : (handlers P).States hs) (ev : In), ((handlers P).fire all hs before st ev).2 = [] := by
  induction hs with
  | nil => exact fun _ _ _ => rfl
  | cons k hs ih =>
    rintro before ⟨s, st⟩ ev
    have hk : k ≠ .subReqClientHandler := fun h => hcodecs (h ▸ List.mem_cons_self)
    have ih := ih fun h => hcodecs (List.mem_cons_of_mem k h)
    refine List.eq_nil_iff_forall_not_mem.mpr fun e he => ?_
    refine (Handlers.perform_rule ((handlers P).fire all hs (k :: before)) ((handlers P).toHead before)
      ((handlers P).toHead all) (fun _ => True) (fun _ => False) ((handlers P).handle k s ev).2 ?_ ?_ st trivial).2 e he
    · intro c hc e he
      obtain ⟨ev', rfl, -⟩ := codec_calls hk hc
      cases he
    · intro ev' _ st' _
      exact ⟨trivial, fun e he => by rw [ih] at he; cases he⟩

/-- Reads, exceptions and the close make a pipeline close the channel at most. -/
theorem fire_quiet (all hs : List Kind) : ∀ (before : List Kind) (st : (handlers P).States hs) (ev : In), Quiet ev →
    ∀ e ∈ ((handlers P).fire all hs before st ev).2, e = .close := by
  induction hs with
  | nil => exact fun _ _ _ _ e he => absurd he List.not_mem_nil
  | cons k hs ih =>
    rintro before ⟨s, st⟩ ev hev
    have hcalls : ∀ c ∈ ((handlers P).handle k s ev).2, c = .close ∨ ∃ ev', c = .fire ev' ∧ Quiet ev' := by
      intro c hc
      by_cases hk : k = .subReqClientHandler
      · subst hk
        cases ev with
        | exceptionCaught e => exact .inl (List.mem_singleton.mp hc)
        | read msg => exact .inr ⟨_, List.mem_singleton.mp hc, trivial⟩
        | inactive => exact .inr ⟨_, List.mem_singleton.mp hc, trivial⟩
        | active => cases hev
        | userEvent evt => cases hev
      · obtain ⟨ev', rfl, hq⟩ := codec_calls hk hc
        exact .inr ⟨ev', rfl, hq hev⟩
    refine (Handlers.perform_rule ((handlers P).fire all hs (k :: before)) ((handlers P).toHead before)
      ((handlers P).toHead all) (fun _ => True) (fun e => e = .close) ((handlers P).handle k s ev).2 ?_ ?_ st trivial).2
    · intro c hc e he
      rcases hcalls c hc with rfl | ⟨ev', rfl, -⟩
      · exact List.mem_singleton.mp he
      · cases he
    · intro ev' hev' st' _
      rcases hcalls _ hev' with h | ⟨_, h, hq⟩
      · cases h
      · cases h
        exact ⟨trivial, ih _ st' ev' hq⟩

/-- The activation and user events get past codecs as they are, every event past encoders. -/
theorem fire_past (all : List Kind) {h : Kind} {after : List Kind} (b : List Kind) (hb : .subReqClientHandler ∉ b) :
    ∀ (before : List Kind) (st : (handlers P).States (b ++ h :: after)) (ev : In),
      ¬ Quiet ev ∨ .marshallingDecoder ∉ b → ∃ st', ((handlers P).fire all (b ++ h :: after) before st ev).2 =
        ((handlers P).fire all (h :: after) (b.reverse ++ before) st' ev).2 := by
  induction b with
  | nil => exact fun _ st _ _ => ⟨st, rfl⟩
  | cons k b ih =>
    rintro before ⟨s, st⟩ ev hev
    have hk : k ≠ .subReqClientHandler := fun h => hb (h ▸ List.mem_cons_self)
    have hh : (handlers P).handle k s ev = (s, ([] : List Empty).map .log ++ [.fire ev]) := by
      cases k with
      | subReqClientHandler => exact absurd rfl hk
      | marshallingEncoder => rfl
      | marshallingDecoder =>
        have hev := hev.resolve_right fun h => h List.mem_cons_self
        cases ev with
        | active => rfl
        | userEvent evt => rfl
        | _ => exact absurd trivial hev
    obtain ⟨st', hst⟩ := ih (fun h => hb (List.mem_cons_of_mem k h)) (k :: before) st ev
      (hev.imp_right fun hd h => hd (List.mem_cons_of_mem k h))
    refine ⟨st', ?_⟩
    rw [List.reverse_cons, List.append_assoc]
    refine Eq.trans ?_ hst
    show ((handlers P).fire all (k :: (b ++ h :: after)) before (s, st) ev).2 = _
    rw [(handlers P).fire_on hh]
    rfl

/-! ## Placement -/

section
variable {before after : List Kind} (hb : .subReqClientHandler ∉ before) (ha : .subReqClientHandler ∉ after)
  {c : Chan (handlers P) (before ++ .subReqClientHandler :: after)}
include hb

theorem effects_heartbeat : ((handlers P).fire (before ++ .subReqClientHandler :: after).reverse
    (before ++ .subReqClientHandler :: after) [] c.states (.userEvent .idleState)).2 =
      ((handlers P).toHead (before ++ .subReqClientHandler :: after).reverse (subReq (-1000))).map Effect.write ++
        [Effect.flush] := by
  obtain ⟨⟨s, st⟩, hst⟩ := fire_past (before ++ .subReqClientHandler :: after).reverse before hb [] c.states
    (.userEvent .idleState) (.inl id)
  have hh : (handlers P).handle .subReqClientHandler s (.userEvent .idleState) =
      ((), [.channelWrite (subReq (-1000)), .flush]) := rfl
  rw [hst, (handlers P).fire_handle hh]
  rfl

include ha

theorem effects_active : ((handlers P).fire (before ++ .subReqClientHandler :: after).reverse
    (before ++ .subReqClientHandler :: after) [] c.states .active).2 =
      (((List.range 10).map fun i => subReq (Int32.ofNat i)).flatMap
        ((handlers P).toHead before.reverse)).map Effect.write ++ [Effect.flush] := by
  obtain ⟨⟨s, st⟩, hst⟩ := fire_past (before ++ .subReqClientHandler :: after).reverse before hb [] c.states
    .active (.inl id)
  have hh : (handlers P).handle .subReqClientHandler s .active =
      ((), ((List.range 10).map fun i => subReq (Int32.ofNat i)).map .write ++ [.flush, .fire .inactive]) := by
    rw [List.map_map]
    rfl
  rw [hst, (handlers P).fire_handle hh, Handlers.perform_append, Handlers.perform_writes, List.append_nil]
  simp only [Handlers.perform, Handlers.effects, fire_codecs _ _ ha]
  rfl

/-- An event that gets to the handler, which passes it on. -/
theorem effects_passed {ev : In} (hev : ¬ Quiet ev ∨ .marshallingDecoder ∉ before)
    (hi : SubReqClientHandler.invoke ev = passOn () ev) :
    ((handlers P).fire (before ++ .subReqClientHandler :: after).reverse
      (before ++ .subReqClientHandler :: after) [] c.states ev).2 = [] := by
  obtain ⟨⟨s, st⟩, hst⟩ := fire_past (before ++ .subReqClientHandler :: after).reverse before hb [] c.states ev hev
  have hh : (handlers P).handle .subReqClientHandler s ev = ((), ([] : List Empty).map .log ++ [.fire ev]) := by
    have hr : (handlers P).invoke .subReqClientHandler s ev = passOn () ev := hi
    rw [Handlers.handle_of_none (by rw [hr]; rfl), hr]
    rfl
  rw [hst, (handlers P).fire_on hh]
  exact fire_codecs _ _ ha _ _ _

end

variable (P)

/-- What is sent at an event, with `n` encoders in front of the handler and `m` in all. -/
def sentAt (n m : Nat) : Chan.Event Obj → List UInt8
  | .active => (List.range 10).flatMap fun i => bytesOf P n (.req (SubReqClientHandler.subReq (Int32.ofNat i)))
  | .userEvent .idleState => bytesOf P m (.req (SubReqClientHandler.subReq (-1000)))
  | _ => []

variable {P}

/-- What may close the channel: the other end, and a read that gets to a decoder in front of
    the handler. -/
def Closes (before : List Kind) : Chan.Event Obj → Prop
  | .shut => True
  | .read _ => .marshallingDecoder ∈ before
  | _ => False

section
variable {before after : List Kind} (hb : .subReqClientHandler ∉ before) (ha : .subReqClientHandler ∉ after)
  {c : Chan (handlers P) (before ++ .subReqClientHandler :: after)} (ho : c.isOpen = true) (hu : c.out.unflushed = [])
include ho

/-- What closes nothing leaves the channel open. -/
theorem step_stays {e : Chan.Event Obj} {ev : In} (he : e.inbound = some ev)
    (hf : ∀ x ∈ ((handlers P).fire (before ++ .subReqClientHandler :: after).reverse
      (before ++ .subReqClientHandler :: after) [] c.states ev).2, x.isClose = false) : (c.step e).isOpen = true := by
  have hopen : (c.fire ev).isOpen = true := by
    rw [Chan.isOpen_fire, ho, Bool.true_and]
    exact List.all_eq_true.mpr fun x hx => by rw [hf x hx]; rfl
  rw [Chan.step_open ho he, if_pos hopen, hopen]

include hu

/-- What writes and flushes sends the buffers, and the channel stays open. -/
theorem step_writes {e : Chan.Event Obj} {ev : In} (he : e.inbound = some ev) {msgs : List Obj}
    (hf : ((handlers P).fire (before ++ .subReqClientHandler :: after).reverse
      (before ++ .subReqClientHandler :: after) [] c.states ev).2 = msgs.map Effect.write ++ [Effect.flush]) :
    (c.step e).out.unflushed = [] ∧
      (c.step e).out.wire.sent = c.out.wire.sent ++ (msgs.filterMap Obj.bytes).flatten := by
  have hfire : c.fire ev =
      (msgs.map Effect.write ++ [Effect.flush]).foldl Chan.apply { c with states := (c.fire ev).states } := by
    rw [Chan.states_fire, ← hf]
    rfl
  rw [List.foldl_append, Chan.foldl_writes msgs (by exact ho)] at hfire
  have hopen : (c.fire ev).isOpen = true := by
    rw [hfire, List.foldl_cons, List.foldl_nil, Chan.isOpen_apply]
    simp [ho, Effect.isClose]
  have hout : (c.fire ev).out = (c.out.write (msgs.filterMap Obj.bytes).flatten).flush := by
    rw [hfire]
    simp [Chan.apply, ho]
  rw [Chan.step_open ho he, if_pos hopen, hout]
  refine ⟨rfl, ?_⟩
  rw [Outbound.sent_flush, Outbound.written_write, Outbound.written_eq hu]

/-- What makes the pipeline close at most sends nothing. -/
theorem step_closes {e : Chan.Event Obj} (he : ∀ ev, e.inbound = some ev → ∀ x ∈ ((handlers P).fire
    (before ++ .subReqClientHandler :: after).reverse (before ++ .subReqClientHandler :: after) [] c.states ev).2,
      x = .close) : (c.step e).out = c.out := by
  have hthen : ∀ c' : Chan (handlers P) (before ++ .subReqClientHandler :: after), c'.out = c.out →
      (if c'.isOpen then c' else c'.fire .inactive).out = c.out := by
    intro c' hc
    split
    · exact hc
    · rw [← hc]
      exact Chan.out_closes (fire_quiet _ _ [] c'.states .inactive trivial) (by rw [← hc] at hu; exact hu)
  rw [Chan.step, if_pos ho]
  refine hthen _ ?_
  cases hev : (e.inbound : Option In) with
  | some ev => exact Chan.out_closes (he ev hev) hu
  | none =>
    have hclose : ∀ x ∈ [(Effect.close : Effect Obj Empty)], x = .close := fun x hx => List.mem_singleton.mp hx
    exact Chan.out_closes hclose hu

include hb ha

theorem step_sent (e : Chan.Event Obj) : (c.step e).out.unflushed = [] ∧ (c.step e).out.wire.sent = c.out.wire.sent ++
    sentAt P (before.count .marshallingEncoder) ((before ++ after).count .marshallingEncoder) e := by
  have hnone : ∀ {e : Chan.Event Obj}, (c.step e).out = c.out →
      (c.step e).out.unflushed = [] ∧ (c.step e).out.wire.sent = c.out.wire.sent ++ [] := by
    intro e h
    rw [h, List.append_nil]
    exact ⟨hu, rfl⟩
  cases e with
  | active =>
    obtain ⟨hf, hs⟩ := step_writes ho hu (e := .active) rfl (effects_active hb ha)
    refine ⟨hf, hs.trans (congrArg (c.out.wire.sent ++ ·) ?_)⟩
    have hbytes := bytes_pojos P (fun i => .req (SubReqClientHandler.subReq (Int32.ofNat i))) (List.range 10)
      before.reverse
    rw [List.count_reverse] at hbytes
    exact hbytes
  | userEvent evt =>
    cases evt with
    | idleState =>
      obtain ⟨hf, hs⟩ := step_writes ho hu (e := .userEvent .idleState) rfl (effects_heartbeat hb)
      refine ⟨hf, hs.trans (congrArg (c.out.wire.sent ++ ·) ?_)⟩
      rw [sentAt, subReq, bytes_pojo, List.count_reverse]
      simp
    | other =>
      refine hnone (step_closes ho hu fun ev hev => ?_)
      cases hev
      rw [effects_passed hb ha (.inl id) rfl]
      exact fun x hx => absurd hx List.not_mem_nil
  | read msg =>
    refine hnone (step_closes ho hu fun ev hev => ?_)
    cases hev
    exact fire_quiet _ _ [] _ _ trivial
  | shut => exact hnone (step_closes ho hu fun ev hev => by cases hev)

omit hu in
theorem step_isOpen (e : Chan.Event Obj) : Closes before e ∨ (c.step e).isOpen = true := by
  have hwrites : ∀ (msgs : List Obj), ∀ x ∈ msgs.map (Effect.write (ℓ := Empty)) ++ [Effect.flush],
      x.isClose = false := by
    intro msgs x hx
    rcases List.mem_append.mp hx with hx | hx
    · obtain ⟨msg, -, rfl⟩ := List.mem_map.mp hx
      rfl
    · rw [List.mem_singleton.mp hx]
      rfl
  cases e with
  | active => exact .inr (step_stays ho rfl (effects_active hb ha ▸ hwrites _))
  | userEvent evt =>
    cases evt with
    | idleState => exact .inr (step_stays ho rfl (effects_heartbeat hb ▸ hwrites _))
    | other =>
      exact .inr (step_stays ho rfl (fun x hx => by
        rw [effects_passed hb ha (.inl id) rfl] at hx
        cases hx))
  | read msg =>
    by_cases hd : .marshallingDecoder ∈ before
    · exact .inl hd
    · exact .inr (step_stays ho rfl (fun x hx => by
        rw [effects_passed hb ha (.inr hd) rfl] at hx
        cases hx))
  | shut => exact .inl trivial

end

section
variable (P : Provider Pojo) (before after : List Kind) (hb : .subReqClientHandler ∉ before)
  (ha : .subReqClientHandler ∉ after)
include hb ha

theorem sent_foldl (es : List (Chan.Event Obj)) :
    ∀ {c : Chan (handlers P) (before ++ .subReqClientHandler :: after)}, c.out.unflushed = [] →
      (es.foldl Chan.step c).out.wire.sent = c.out.wire.sent ++ (c.upToClose es).flatMap
        (sentAt P (before.count .marshallingEncoder) ((before ++ after).count .marshallingEncoder)) := by
  induction es with
  | nil => exact fun _ => (List.append_nil _).symm
  | cons e es ih =>
    intro c hu
    cases ho : c.isOpen with
    | false =>
      rw [Chan.foldl_step_closed _ ho, Chan.upToClose_closed _ ho]
      exact (List.append_nil _).symm
    | true =>
      obtain ⟨hu', hs⟩ := step_sent hb ha ho hu e
      rw [List.foldl_cons, ih hu', hs, Chan.upToClose, if_pos ho, List.flatMap_cons, List.append_assoc]

theorem upToClose_eq (es : List (Chan.Event Obj)) (hes : ∀ e ∈ es, ¬ Closes before e) :
    ∀ {c : Chan (handlers P) (before ++ .subReqClientHandler :: after)}, c.isOpen = true → c.upToClose es = es := by
  induction es with
  | nil => exact fun _ => rfl
  | cons e es ih =>
    intro c ho
    have hopen := (step_isOpen hb ha ho e).resolve_left (hes e List.mem_cons_self)
    rw [Chan.upToClose, if_pos ho, ih (fun e' he' => hes e' (List.mem_cons_of_mem e he')) hopen]

/-- Up to the event that closes the channel, what is sent is the batch at each activation, if one
    encoder is in front of the handler, and a heartbeat at each idle event, if there is one
    encoder in all. Only the other end and reads close it, reads only with a decoder in
    front of the handler. -/
theorem placement (es : List (Chan.Event Obj)) :
    (Chan.run (handlers P) (before ++ .subReqClientHandler :: after) es).out.wire.sent =
      ((Chan.init : Chan (handlers P) (before ++ .subReqClientHandler :: after)).upToClose es).flatMap
        (sentAt P (before.count .marshallingEncoder) ((before ++ after).count .marshallingEncoder)) ∧
    (∀ e, (Chan.run (handlers P) (before ++ .subReqClientHandler :: after) es).isOpen = true → ¬ Closes before e →
      (Chan.run (handlers P) (before ++ .subReqClientHandler :: after) (es ++ [e])).isOpen = true) ∧
    ((∀ e ∈ es, ¬ Closes before e) →
      (Chan.run (handlers P) (before ++ .subReqClientHandler :: after) es).out.wire.sent =
        es.flatMap (sentAt P (before.count .marshallingEncoder) ((before ++ after).count .marshallingEncoder))) := by
  have hsent := sent_foldl P before after hb ha es (c := Chan.init) rfl
  refine ⟨hsent, fun e ho he => ?_, fun hes => ?_⟩
  · rw [Chan.run_concat]
    exact (step_isOpen hb ha ho e).resolve_left he
  · rw [upToClose_eq P before after hb ha es hes rfl] at hsent
    exact hsent

end

/-- Marshals every field of an object, behind a byte for its class. -/
def fields : Provider Pojo where
  marshal
    | .req r => some (0 :: writeReq r)
    | .resp r => some (1 :: writeResp r)
  unmarshal
    | 0 :: bytes => (readReq bytes).map fun r => .req r.1
    | 1 :: bytes => (readResp bytes).map fun r => .resp r.1
    | _ => .error (.runtime "unknown class")

/-- The bytes of a request of the client. -/
def frame (i : Int32) : List UInt8 :=
  intBytes (Int32.ofNat (0 :: writeReq (SubReqClientHandler.subReq i)).length) ++
    0 :: writeReq (SubReqClientHandler.subReq i)

/-- With the encoder in front of the handler the batch and a heartbeat are sent, with the
    encoder behind it the heartbeat alone. -/
theorem placement_encoder :
    (Chan.run (handlers fields) [.marshallingDecoder, .marshallingEncoder, .subReqClientHandler]
      [.active, .userEvent .idleState]).out.wire.sent =
        ((List.range 10).flatMap fun i => frame (Int32.ofNat i)) ++ frame (-1000) ∧
    (Chan.run (handlers fields) [.marshallingDecoder, .subReqClientHandler, .marshallingEncoder]
      [.active, .userEvent .idleState]).out.wire.sent = frame (-1000) := by
  have hnone : ∀ before : List Kind, ∀ e ∈ [Chan.Event.active, .userEvent .idleState], ¬ Closes before e := by
    intro before e he hc
    rcases List.mem_pair.mp he with rfl | rfl
    · exact hc
    · exact hc
  have hfront := (placement fields [.marshallingDecoder, .marshallingEncoder] [] (by decide) (by decide) _).2.2
    (hnone _)
  have hbehind := (placement fields [.marshallingDecoder] [.marshallingEncoder] (by decide) (by decide) _).2.2
    (hnone _)
  constructor
  · rw [List.cons_append, List.cons_append, List.nil_append] at hfront
    rw [hfront]
    rfl
  · rw [List.cons_append, List.nil_append] at hbehind
    rw [hbehind]
    rfl

end NettyStudy.Seria.Placement
