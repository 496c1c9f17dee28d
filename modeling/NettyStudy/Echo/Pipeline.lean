/-
  NettyStudy.Echo.Pipeline — the handlers of echo-client2 and echo-server2 in pipelines, those
  `initChannel` sets up and every other. Both `initChannel`s note that the outbound handler has
  to come first or the result is wrong, and the client's that its handler can read messages
  only behind the decoder.

  The platform's charset is UTF-8. Left out: `channelReadComplete`, which only prints, and what
  the encoder and the decoder log.

  Proved, for every pipeline of these handlers, whatever happens to its channel:
  - `casts_iff`: no handler ever meets a ClassCastException exactly when each is behind those
    that make what it casts to.
  - `sends_iff`: anything is ever sent exactly when a handler that writes is behind the encoder
    and what makes it write gets there.
-/

import NettyStudy.Netty.Pipeline
import NettyStudy.Echo.Connection

namespace NettyStudy.Echo.Pipeline

open NettyStudy.Text NettyStudy.Netty

/-! ## The handlers -/

/-- What is passed along: buffers and what is made of them. -/
inductive Obj where
  | buf (data : List UInt8)
  | message (msg : Message)
  | string (s : JString)

def Header.toString (h : Header) : JString :=
  literal s!"Header(tag={h.tag.toInt8.toInt}, encode={h.encode.toInt8.toInt}, encrypt={h.encrypt.toInt8.toInt}, " ++
    literal s!"extend1={h.extend1.toInt8.toInt}, extend2={h.extend2.toInt8.toInt}, sessionid=" ++ h.sessionid ++
    literal s!", length={h.length.toInt}, cammand={h.cammand.toInt})"

def Message.toString (m : Message) : JString :=
  literal "Message(header=" ++ Header.toString m.header ++ literal ", data=" ++ m.data ++ literal ")"

inductive Line where
  | info (text : JString)
  | error (text : JString) (cause : Throwable)

abbrev In := Inbound Obj Throwable
abbrev Does (σ : Type) := Invoked σ Obj Throwable Line

inductive Kind where
  | messageEncoder
  | messageDecoder
  | echoServerHandler
  | echoClientHandler
  | echoClientHandler3
  | echoClientHandler2
  deriving DecidableEq

def Obj.bytes : Obj → Option (List UInt8)
  | .buf data => some data
  | _ => none

def MessageDecoder.invoke : Option Held → In → Does (Option Held) := Decoder.invoke messageDecoder Obj.bytes .message

def EchoServerHandler.line (m : Message) : Line := .info (literal "server receive client msg : " ++ Message.toString m)

def EchoServerHandler.invoke : In → Does Unit
  | .read (.message m) =>
    ⟨(), [.log (EchoServerHandler.line m), .write (.message EchoServerHandler.reply), .flush], none⟩
  | .read _ => ⟨(), [], some .classCast⟩
  | .exceptionCaught cause => ⟨(), [.log (.error (literal "异常：") cause), .close], none⟩
  | ev => passOn () ev

def EchoClientHandler.line (m : Message) : Line :=
  .info (literal "EchoClientHandler client receive message from server : " ++ Message.toString m)

def EchoClientHandler.invoke : In → Does Unit
  | .active =>
    ⟨(), [.log (.info (literal "channel active")), .write (.message EchoClientHandler.channelActive), .flush], none⟩
  | .read (.message m) => ⟨(), [.log (EchoClientHandler.line m), .fire (.read (.message m))], none⟩
  | .read _ => ⟨(), [], some .classCast⟩
  | .exceptionCaught cause => ⟨(), [.log (.error (literal "发生异常:") cause), .close], none⟩
  | ev => passOn () ev

def EchoClientHandler3.line (m : Message) : Line :=
  .info (literal "EchoClientHandler3 decode ... " ++ Message.toString m)

def EchoClientHandler3.invoke : In → Does Unit
  | .read (.message m) => ⟨(), [.log (EchoClientHandler3.line m), .fire (.read (.string (Message.toString m)))], none⟩
  | ev => passOn () ev

def EchoClientHandler2.line (msg1 : JString) : Line :=
  .info (literal "EchoClientHandler2 receive message from server : " ++ msg1)

def EchoClientHandler2.invoke : In → Does Unit
  | .read (.string msg1) => ⟨(), [.log (EchoClientHandler2.line msg1)], none⟩
  | .read _ => ⟨(), [], some .classCast⟩
  | .exceptionCaught cause => ⟨(), [.log (.error (literal "发生异常:") cause), .close], none⟩
  | ev => passOn () ev

def MessageEncoder.write : Obj → Option (List Obj)
  | .message m => some [.buf (frame m)]
  | msg => some [msg]

@[reducible] def State : Kind → Type
  | .messageDecoder => Option Held
  | _ => Unit

def State.init : (h : Kind) → State h
  | .messageDecoder => (none : Option Held)
  | .messageEncoder | .echoServerHandler | .echoClientHandler | .echoClientHandler3 | .echoClientHandler2 => ()

abbrev handlers : Handlers Kind Obj Throwable Line where
  State := State
  init := State.init
  invoke
    | .messageEncoder, s, ev => passOn s ev
    | .messageDecoder, c, ev => MessageDecoder.invoke c ev
    | .echoServerHandler, _, ev => EchoServerHandler.invoke ev
    | .echoClientHandler, _, ev => EchoClientHandler.invoke ev
    | .echoClientHandler3, _, ev => EchoClientHandler3.invoke ev
    | .echoClientHandler2, _, ev => EchoClientHandler2.invoke ev
  write
    | .messageEncoder, msg => MessageEncoder.write msg
    | _, msg => some [msg]
  bytes := Obj.bytes

/-- echo-server2's `initChannel`. -/
abbrev serverPipeline : List Kind := [.messageEncoder, .messageDecoder, .echoServerHandler]

/-- echo-client2's `initChannel`. -/
abbrev clientPipeline : List Kind :=
  [.messageEncoder, .messageDecoder, .echoClientHandler, .echoClientHandler3, .echoClientHandler2]

/-- What happens to a channel: the transport reads buffers. -/
inductive Event where
  | active
  | read (data : List UInt8)
  | userEvent (evt : UserEvent)
  | shut

def Event.chan : Event → Chan.Event Obj
  | .active => .active
  | .read data => .read (.buf data)
  | .userEvent evt => .userEvent evt
  | .shut => .shut

def run (hs : List Kind) (es : List Event) : Chan handlers hs := Chan.run handlers hs (es.map Event.chan)

/-! ## What gets where -/

inductive Ty where
  | buf
  | message
  | string
  deriving DecidableEq

def Obj.ty : Obj → Ty
  | .buf _ => .buf
  | .message _ => .message
  | .string _ => .string

/-- A place of a pipeline: whether the activation gets there, and what kind of objects. -/
structure Place where
  active : Bool
  obj : Option Ty
  deriving DecidableEq

/-- At the transport's end. -/
def Place.first : Place := ⟨true, some .buf⟩

/-- The place behind a handler. Behind a ClassCastException nothing is read. -/
def next : Kind → Place → Place
  | .messageEncoder, x => x
  | .messageDecoder, x => if x.obj = some .buf then { x with obj := some .message } else x
  | .echoServerHandler, x => { x with obj := none }
  | .echoClientHandler, x => ⟨false, if x.obj = some .message then some .message else none⟩
  | .echoClientHandler3, x => if x.obj = some .message then { x with obj := some .string } else x
  | .echoClientHandler2, x => { x with obj := none }

/-- The handler casts what it reads there to what it is. -/
def Takes : Kind → Option Ty → Prop
  | .echoServerHandler, x => x = none ∨ x = some .message
  | .echoClientHandler, x => x = none ∨ x = some .message
  | .echoClientHandler2, x => x = none ∨ x = some .string
  | _, _ => True

instance (h : Kind) (x : Option Ty) : Decidable (Takes h x) := by
  cases h <;> unfold Takes <;> infer_instance

/-- Each handler from the place `x` on does. -/
def Typed : List Kind → Place → Prop
  | [], _ => True
  | h :: hs, x => Takes h x.obj ∧ Typed hs (next h x)

def Admits (x : Place) : In → Prop
  | .active => x.active = true
  | .read msg => x.obj = some (Obj.ty msg)
  | .exceptionCaught cause => cause ≠ .classCast
  | _ => True

/-- Only where buffers are read does a decoder hold any. -/
def Keeps : (h : Kind) → Place → State h → Prop
  | .messageDecoder, x, c => x.obj = some .buf ∨ (c : Option Held) = none
  | .messageEncoder, _, _ | .echoServerHandler, _, _ | .echoClientHandler, _, _ | .echoClientHandler3, _, _
  | .echoClientHandler2, _, _ => True

def Makes (h : Kind) (x : Place) : Call Obj Throwable Line → Prop
  | .fire ev => Admits (next h x) ev
  | .log (.error _ cause) => cause = .classCast → ¬ Takes h x.obj
  | .write msg => h = .echoClientHandler ∧ x.active = true ∧ msg = .message EchoClientHandler.channelActive ∨
      h = .echoServerHandler ∧ x.obj = some .message ∧ msg = .message EchoServerHandler.reply
  | .channelWrite _ => False
  | _ => True

/-- What the decoder throws is fired on as an exception. -/
theorem handle_decoder (c : Option Held) (ev : In) : handlers.handle .messageDecoder c ev =
    ((MessageDecoder.invoke c ev).state, (MessageDecoder.invoke c ev).calls ++
      (MessageDecoder.invoke c ev).thrown.toList.map fun e => .fire (.exceptionCaught e)) :=
  Handlers.handle_passOn fun _ _ => rfl

theorem decoder_makes {x : Place} {c : Option Held} {ev : In} (hc : x.obj = some .buf ∨ c = none) (hev : Admits x ev) :
    Keeps .messageDecoder x (handlers.handle .messageDecoder c ev).1 ∧
      ∀ call ∈ (handlers.handle .messageDecoder c ev).2, Makes .messageDecoder x call := by
  have hfires : ∀ (fired : List Message) (call : Call Obj Throwable Line), x.obj = some .buf →
      call ∈ fired.map (fun m => Call.fire (.read (.message m))) → Makes .messageDecoder x call := by
    intro fired call hx hcall
    obtain ⟨m, -, rfl⟩ := List.mem_map.mp hcall
    simp [Makes, Admits, next, hx, Obj.ty]
  have hcaught : ∀ (thrown : Option Throwable) (call : Call Obj Throwable Line), thrown ≠ some .classCast →
      call ∈ thrown.toList.map (fun e => Call.fire (.exceptionCaught e)) → Makes .messageDecoder x call := by
    intro thrown call hne hcall
    obtain ⟨e, he, rfl⟩ := List.mem_map.mp hcall
    rw [Option.mem_toList] at he
    exact fun h => hne (he.trans (congrArg some h))
  have hpass : ∀ ev : In, Admits (next .messageDecoder x) ev →
      ∀ call ∈ [Call.fire ev], Makes .messageDecoder x call := by
    intro ev h call hcall
    rw [List.mem_singleton.mp hcall]
    exact h
  rw [handle_decoder]
  cases ev with
  | read msg =>
    cases msg with
    | buf data =>
      refine ⟨.inl hev, fun call hcall => ?_⟩
      rcases List.mem_append.mp hcall with hcall | hcall
      · exact hfires _ call hev hcall
      · exact hcaught _ call (channelRead_thrown _ _ _) hcall
    | message m =>
      refine ⟨hc, hpass _ ?_⟩
      have hx : x.obj = some .message := hev
      simp [Admits, next, hx, Obj.ty]
    | string t =>
      refine ⟨hc, hpass _ ?_⟩
      have hx : x.obj = some .string := hev
      simp [Admits, next, hx, Obj.ty]
  | inactive =>
    refine ⟨.inr rfl, fun call hcall => ?_⟩
    rcases List.mem_append.mp hcall with hcall | hcall
    · rcases List.mem_append.mp hcall with hcall | hcall
      · rcases hc with hx | rfl
        · exact hfires _ call hx hcall
        · exact absurd hcall List.not_mem_nil
      · exact hpass .inactive trivial call hcall
    · exact hcaught _ call (channelInputClosed_thrown _ _) hcall
  | active =>
    refine ⟨hc, hpass _ ?_⟩
    have hx : x.active = true := hev
    simp only [Admits, next]
    split <;> exact hx
  | userEvent evt => exact ⟨hc, hpass _ trivial⟩
  | exceptionCaught e => exact ⟨hc, hpass _ hev⟩

/-- Each kind of handler does that. -/
theorem handle_makes {h : Kind} {x : Place} {s : State h} {ev : In} (hs : Keeps h x s) (hev : Admits x ev) :
    Keeps h x (handlers.handle h s ev).1 ∧ ∀ c ∈ (handlers.handle h s ev).2, Makes h x c := by
  cases h with
  | messageEncoder => exact ⟨trivial, by simpa [Handlers.handle, passOn, Makes, next] using hev⟩
  | messageDecoder => exact decoder_makes hs hev
  | echoServerHandler =>
    refine ⟨trivial, ?_⟩
    cases ev with
    | read msg =>
      have hx : x.obj = some (Obj.ty msg) := hev
      cases msg <;> simp_all [Handlers.handle, EchoServerHandler.invoke, EchoServerHandler.line, Makes, Takes, Obj.ty]
    | exceptionCaught e =>
      simp_all [Handlers.handle, EchoServerHandler.invoke, Makes, Admits]
    | _ => simp_all [Handlers.handle, EchoServerHandler.invoke, passOn, Makes, Admits, next]
  | echoClientHandler =>
    refine ⟨trivial, ?_⟩
    cases ev with
    | read msg =>
      have hx : x.obj = some (Obj.ty msg) := hev
      cases msg <;>
        simp_all [Handlers.handle, EchoClientHandler.invoke, EchoClientHandler.line, Makes, Takes, Obj.ty, Admits, next]
    | exceptionCaught e => simp_all [Handlers.handle, EchoClientHandler.invoke, Makes, Admits]
    | _ => simp_all [Handlers.handle, EchoClientHandler.invoke, passOn, Makes, Admits, next]
  | echoClientHandler3 =>
    refine ⟨trivial, ?_⟩
    cases ev with
    | read msg =>
      have hx : x.obj = some (Obj.ty msg) := hev
      cases msg <;>
        simp_all [Handlers.handle, EchoClientHandler3.invoke, EchoClientHandler3.line, passOn, Makes, Obj.ty, Admits,
          next]
    | active =>
      have hx : (next .echoClientHandler3 x).active = true := by
        rw [next]
        split <;> exact hev
      simpa [Handlers.handle, EchoClientHandler3.invoke, passOn, Makes, Admits] using hx
    | _ => simp_all [Handlers.handle, EchoClientHandler3.invoke, passOn, Makes, Admits]
  | echoClientHandler2 =>
    refine ⟨trivial, ?_⟩
    cases ev with
    | read msg =>
      have hx : x.obj = some (Obj.ty msg) := hev
      cases msg <;> simp_all [Handlers.handle, EchoClientHandler2.invoke, EchoClientHandler2.line, Makes, Takes, Obj.ty]
    | exceptionCaught e => simp_all [Handlers.handle, EchoClientHandler2.invoke, Makes, Admits]
    | _ => simp_all [Handlers.handle, EchoClientHandler2.invoke, passOn, Makes, Admits, next]

def contract : Contract handlers Place where
  next := next
  Admits := Admits
  Keeps := Keeps
  Makes := Makes
  init h x := by
    cases h with
    | messageDecoder => exact .inr rfl
    | _ => trivial
  handle := handle_makes
  fires h := h

theorem holds (hs : List Kind) (es : List Event) : contract.Holds hs .first (run hs es) := by
  refine Contract.holds_run trivial fun e he ev hev => ?_
  obtain ⟨e, -, rfl⟩ := List.mem_map.mp he
  cases e <;> cases hev <;> first | rfl | trivial

/-! ## Objects on their way -/

/-- What gets to a place is of its kind; buffers hold one frame. -/
def Fits (x : Place) (o : Obj) : Prop :=
  x.obj = some (Obj.ty o) ∧ ∀ data, o = .buf data → data = frame EchoServerHandler.reply

theorem fits_message {x : Place} (h : x.obj = some .message) (m : Message) : Fits x (.message m) :=
  ⟨h, fun _ hd => by cases hd⟩

theorem fits_string {x : Place} (h : x.obj = some .string) (t : JString) : Fits x (.string t) :=
  ⟨h, fun _ hd => by cases hd⟩

/-- A handler that is not the last to see an object logs and fires one on. -/
theorem handle_passes {k : Kind} {x : Place} {o : Obj} (hx : Fits x o) (hn : (next k x).obj ≠ none) :
    ∃ (s' : State k) (o' : Obj) (ls : List Line),
      handlers.handle k (State.init k) (.read o) = (s', ls.map .log ++ [.fire (.read o')]) ∧ Fits (next k x) o' := by
  obtain ⟨hty, hbuf⟩ := hx
  cases k with
  | messageEncoder => exact ⟨(), o, [], rfl, hty, hbuf⟩
  | messageDecoder =>
    cases o with
    | buf data =>
      obtain rfl := hbuf data rfl
      have hr : channelRead messageDecoder none (frame EchoServerHandler.reply) =
          ⟨none, [EchoServerHandler.reply.tagged], none⟩ := by
        have := channelRead_frames (g := [EchoServerHandler.reply])
          fun m hm => by rw [List.mem_singleton.mp hm]; exact wellFormed_endpoints.2
        simpa [frames] using this
      refine ⟨(none : Option Held), .message EchoServerHandler.reply.tagged, [], ?_,
        fits_message (by simp [next, hty, Obj.ty]) _⟩
      show handlers.handle .messageDecoder (none : Option Held) _ = _
      have hi : MessageDecoder.invoke none (.read (.buf (frame EchoServerHandler.reply))) =
          ⟨none, [.fire (.read (.message EchoServerHandler.reply.tagged))], none⟩ := by
        simp [MessageDecoder.invoke, Decoder.invoke, Obj.bytes, hr]
      rw [handle_decoder, hi]
      rfl
    | message m => exact ⟨(none : Option Held), .message m, [], rfl, fits_message (by simp [next, hty, Obj.ty]) m⟩
    | string t => exact ⟨(none : Option Held), .string t, [], rfl, fits_string (by simp [next, hty, Obj.ty]) t⟩
  | echoServerHandler => exact absurd rfl hn
  | echoClientHandler =>
    cases o with
    | message m =>
      exact ⟨(), .message m, [EchoClientHandler.line m], rfl, fits_message (by simp [next, hty, Obj.ty]) m⟩
    | buf data => exact absurd (by simp [next, hty, Obj.ty]) hn
    | string t => exact absurd (by simp [next, hty, Obj.ty]) hn
  | echoClientHandler3 =>
    cases o with
    | message m =>
      exact ⟨(), .string (Message.toString m), [EchoClientHandler3.line m], rfl,
        fits_string (by simp [next, hty, Obj.ty]) _⟩
    | buf data => exact ⟨(), .buf data, [], rfl, by simp [next, hty, Obj.ty], hbuf⟩
    | string t => exact ⟨(), .string t, [], rfl, fits_string (by simp [next, hty, Obj.ty]) t⟩
  | echoClientHandler2 => exact absurd rfl hn

theorem behind_none (b : List Kind) : ∀ {x : Place}, x.obj = none → (contract.behind b x).obj = none := by
  induction b with
  | nil => exact fun h => h
  | cons k b ih =>
    intro x h
    refine ih (x := next k x) ?_
    cases k <;> simp [next, h]

theorem behind_inactive (b : List Kind) : ∀ {x : Place}, x.active = false → (contract.behind b x).active = false := by
  induction b with
  | nil => exact fun h => h
  | cons k b ih =>
    intro x h
    refine ih (x := next k x) ?_
    cases k <;> simp only [next] <;> first | exact h | rfl | (split <;> exact h)

/-- An object read gets, as some object, to every place that objects get to. -/
theorem fire_reaches {all a : List Kind} {h : Kind} (b : List Kind) : ∀ (before : List Kind) {x : Place} {o : Obj},
    Fits x o → (contract.behind b x).obj ≠ none →
    ∃ (o' : Obj) (ls : List Line), Fits (contract.behind b x) o' ∧
      (handlers.fire all (b ++ h :: a) before (handlers.inits _) (.read o)).2 = ls.map .log ++
        (handlers.fire all (h :: a) (b.reverse ++ before) (handlers.inits _) (.read o')).2 := by
  induction b with
  | nil => exact fun _ _ _ hx _ => ⟨_, [], hx, rfl⟩
  | cons k b ih =>
    intro before x o hx hn
    obtain ⟨s', o1, ls1, hh, hx1⟩ := handle_passes hx fun hk => hn (behind_none b hk)
    obtain ⟨o', ls, hx', hf⟩ := ih (k :: before) hx1 hn
    refine ⟨o', ls1 ++ ls, hx', ?_⟩
    have hon : (handlers.fire all (k :: (b ++ h :: a)) before (State.init k, handlers.inits _) (.read o)).2 =
        ls1.map .log ++ (handlers.fire all (b ++ h :: a) (k :: before) (handlers.inits _) (.read o1)).2 := by
      rw [handlers.fire_on hh]
    rw [List.reverse_cons, List.append_assoc, List.map_append, List.append_assoc]
    exact hon.trans (congrArg (ls1.map .log ++ ·) hf)

/-- The activation gets to every place nobody in front of keeps it from. -/
theorem fire_active {all a : List Kind} {h : Kind} (b : List Kind) : ∀ (before : List Kind) {x : Place},
    (contract.behind b x).active = true →
    (handlers.fire all (b ++ h :: a) before (handlers.inits _) .active).2 =
      (handlers.fire all (h :: a) (b.reverse ++ before) (handlers.inits _) .active).2 := by
  induction b with
  | nil => exact fun _ _ _ => rfl
  | cons k b ih =>
    intro before x hb
    have hk : k ≠ .echoClientHandler := by
      rintro rfl
      exact Bool.noConfusion ((behind_inactive b rfl).symm.trans hb)
    have hh : ∃ s', handlers.handle k (State.init k) .active = (s', ([] : List Line).map .log ++ [.fire .active]) := by
      cases k with
      | echoClientHandler => exact absurd rfl hk
      | _ => exact ⟨_, rfl⟩
    obtain ⟨s', hh⟩ := hh
    have hon : (handlers.fire all (k :: (b ++ h :: a)) before (State.init k, handlers.inits _) .active).2 =
        (handlers.fire all (b ++ h :: a) (k :: before) (handlers.inits _) .active).2 := by
      rw [handlers.fire_on hh]
      rfl
    rw [List.reverse_cons, List.append_assoc]
    exact hon.trans (ih (k :: before) hb)

/-! ## Casts -/

theorem fits_reply : Fits .first (.buf (frame EchoServerHandler.reply)) := ⟨rfl, fun _ hd => (Obj.buf.inj hd).symm⟩

/-- What is not taken where it gets to is a ClassCastException. -/
theorem typed_of_places {hs : List Kind} : ∀ {x : Place},
    (∀ b h a, hs = b ++ h :: a → Takes h (contract.behind b x).obj) → Typed hs x := by
  induction hs with
  | nil => exact fun _ => trivial
  | cons k hs ih =>
    intro x h
    refine ⟨h [] k hs rfl, ih fun b h' a he => ?_⟩
    exact h (k :: b) h' a (by rw [he]; rfl)

theorem Typed.takes {b a : List Kind} {h : Kind} : ∀ {x : Place}, Typed (b ++ h :: a) x →
    Takes h (contract.behind b x).obj := by
  induction b with
  | nil => exact fun ht => ht.1
  | cons k b ih => exact fun ht => ih ht.2

theorem takes_none (h : Kind) : Takes h none := by
  cases h <;> trivial

/-- A handler throws when it is given what it does not take. -/
theorem handle_casts {h : Kind} {o : Obj} (ho : ¬ Takes h (some (Obj.ty o))) :
    ∃ (s' : State h) (text : JString), handlers.handle h (State.init h) (.read o) =
      (s', [.log (.error text .classCast), .close]) := by
  cases h with
  | messageEncoder | messageDecoder | echoClientHandler3 => exact absurd trivial ho
  | echoServerHandler =>
    cases o with
    | message m => exact absurd (.inr rfl) ho
    | _ => exact ⟨(), literal "异常：", rfl⟩
  | echoClientHandler =>
    cases o with
    | message m => exact absurd (.inr rfl) ho
    | _ => exact ⟨(), literal "发生异常:", rfl⟩
  | echoClientHandler2 =>
    cases o with
    | string t => exact absurd (.inr rfl) ho
    | _ => exact ⟨(), literal "发生异常:", rfl⟩

/-- Whatever happens to a channel, none of its handlers meets a ClassCastException, exactly
    when each casts what it reads to what gets there. -/
theorem casts_iff (hs : List Kind) :
    (∀ es text, Effect.log (.error text .classCast) ∉ (run hs es).trace) ↔ Typed hs .first := by
  constructor
  · intro hno
    refine typed_of_places fun b h a hb => Classical.byContradiction fun ht => ?_
    have hn : (contract.behind b .first).obj ≠ none := fun hn => ht (hn ▸ takes_none h)
    subst hb
    obtain ⟨o, ls, ho, hf⟩ := fire_reaches (h := h) (a := a) b [] (x := .first) fits_reply hn
    rw [ho.1] at ht
    obtain ⟨s', text, hh⟩ := handle_casts ht
    refine hno [.read (frame EchoServerHandler.reply)] text (Chan.mem_run_one rfl ?_)
    rw [hf]
    refine List.mem_append_right _ ?_
    show _ ∈ (handlers.fire _ (h :: a) _ (State.init h, handlers.inits a) _).2
    rw [handlers.fire_handle hh]
    exact List.mem_cons_self
  · intro ht es text hmem
    rcases (holds hs es).trace _ hmem with hc | ⟨b, h, a, rfl, hd⟩
    · cases hc
    · cases hd with
      | log hmakes => exact hmakes rfl ht.takes

/-- The client's handlers one in front of the other as `initChannel` adds them. -/
example : Typed clientPipeline .first := ⟨trivial, trivial, .inr rfl, trivial, .inr rfl, trivial⟩

/-! ## Writes -/

/-- What becomes of what the handlers write. -/
theorem toHead_message (m : Message) (hs : List Kind) :
    handlers.toHead hs (.message m) = if .messageEncoder ∈ hs then [.buf (frame m)] else [.message m] := by
  have hbuf : ∀ hs : List Kind, handlers.toHead hs (.buf (frame m)) = [.buf (frame m)] := fun hs =>
    handlers.toHead_passes fun k _ => by cases k <;> rfl
  induction hs with
  | nil => rfl
  | cons k hs ih => cases k <;> simp [Handlers.toHead, MessageEncoder.write, ih, hbuf]

/-- Some handler writes: it is behind the encoder, and the activation gets to it if it is the
    client's, a message if it is the server's. -/
def Sends (hs : List Kind) : Prop :=
  ∃ b h a, hs = b ++ h :: a ∧ .messageEncoder ∈ b ∧
    (h = .echoClientHandler ∧ (contract.behind b .first).active = true ∨
      h = .echoServerHandler ∧ (contract.behind b .first).obj = some .message)

/-- What gets to the transport as bytes was written behind the encoder. -/
theorem encoder_of_bytes {b : List Kind} {m : Message} {msg : Obj} {data : List UInt8}
    (h : msg ∈ handlers.toHead b.reverse (.message m)) (hbytes : msg.bytes = some data) : .messageEncoder ∈ b := by
  rw [toHead_message] at h
  split at h
  · exact List.mem_reverse.mp ‹_›
  · rw [List.mem_singleton.mp h] at hbytes
    cases hbytes

theorem sends_of_sent {hs : List Kind} {es : List Event} (hne : (run hs es).out.wire.sent ≠ []) : Sends hs := by
  have hw : (run hs es).out.written ≠ [] := fun h => hne (List.append_eq_nil_iff.mp h).1
  obtain ⟨msg, data, hmem, hbytes⟩ := Chan.sent_run _ hw
  rcases (holds hs es).trace _ hmem with hc | ⟨b, h, a, rfl, hd⟩
  · cases hc
  · refine ⟨b, h, a, rfl, ?_⟩
    cases hd with
    | write hmakes hto =>
      rcases hmakes with ⟨rfl, ha, rfl⟩ | ⟨rfl, ho, rfl⟩
      · exact ⟨encoder_of_bytes hto hbytes, .inl ⟨rfl, ha⟩⟩
      · exact ⟨encoder_of_bytes hto hbytes, .inr ⟨rfl, ho⟩⟩
    | channelWrite hmakes hto => exact absurd hmakes id

/-- A handler behind the encoder, given what makes it write. -/
theorem fire_written {b a : List Kind} {h : Kind} (he : .messageEncoder ∈ b) {ev : In} {l : Line} {m : Message}
    {s' : State h} (hh : handlers.handle h (State.init h) ev = (s', [.log l, .write (.message m), .flush])) :
    (handlers.fire (b ++ h :: a).reverse (h :: a) (b.reverse ++ []) (State.init h, handlers.inits a) ev).2 =
      [l].map Effect.log ++ [.write (.buf (frame m)), .flush] := by
  rw [handlers.fire_handle hh]
  simp [Handlers.perform, Handlers.effects, toHead_message, he]

/-- The client's handler sends its frame when the channel is active. -/
theorem sent_active {b a : List Kind} (he : .messageEncoder ∈ b) (ha : (contract.behind b .first).active = true) :
    (run (b ++ .echoClientHandler :: a) [.active]).out.wire.sent ≠ [] := by
  have hf := (fire_active (a := a) (h := .echoClientHandler) b [] ha).trans (fire_written he rfl)
  have hs := Chan.sent_run_one (e := Event.chan .active) rfl hf rfl
  exact fun h => frame_ne_nil _ (hs.symm.trans h)

/-- The server's handler sends its frame when a frame is read. -/
theorem sent_read {b a : List Kind} (he : .messageEncoder ∈ b)
    (ho : (contract.behind b .first).obj = some .message) :
    (run (b ++ .echoServerHandler :: a) [.read (frame EchoServerHandler.reply)]).out.wire.sent ≠ [] := by
  have hn : (contract.behind b .first).obj ≠ none := by simp [ho]
  obtain ⟨o, ls, hx, hf⟩ := fire_reaches (h := .echoServerHandler) (a := a) b [] fits_reply hn
  obtain ⟨m, rfl⟩ : ∃ m, o = .message m := by
    have hty := hx.1.symm.trans ho
    cases o with
    | message m => exact ⟨m, rfl⟩
    | _ => cases hty
  have hf := hf.trans (congrArg (ls.map .log ++ ·) (fire_written he rfl))
  rw [← List.append_assoc, ← List.map_append] at hf
  have hs := Chan.sent_run_one (e := Event.chan (.read (frame EchoServerHandler.reply))) rfl hf rfl
  exact fun h => frame_ne_nil _ (hs.symm.trans h)

/-- Anything that is ever sent is sent by such a handler, and where there is one something is. -/
theorem sends_iff (hs : List Kind) : (∃ es, (run hs es).out.wire.sent ≠ []) ↔ Sends hs := by
  constructor
  · rintro ⟨es, hne⟩
    exact sends_of_sent hne
  · rintro ⟨b, h, a, rfl, he, ⟨rfl, ha⟩ | ⟨rfl, ho⟩⟩
    · exact ⟨_, sent_active he ha⟩
    · exact ⟨_, sent_read he ho⟩

end NettyStudy.Echo.Pipeline
