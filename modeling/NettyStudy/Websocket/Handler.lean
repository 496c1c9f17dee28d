/-
  NettyStudy.Websocket.Handler — MyWebSocketHandler of webscoket-study, one per
  connection. A method reads and sets the handler's handshaker field, does things to its
  channel and to NettyConfig.group, and may throw; what it did before the throw stays.

  Netty's handshakers are a parameter: what `newHandshaker` returns (null for a version
  it does not support) and whether `handshake` throws. The clock and the channel's id
  are given with the frame.

  Proved (`deliver_…`): what a delivered request or frame does, by its kind; together
  `request_cases` and `frame_cases`. A close frame is answered and then falls through to
  the exception for unsupported frames.
-/

import NettyStudy.Netty.ByteBuf
import NettyStudy.Netty.WebSocketFrame
import NettyStudy.Text.Unicode

namespace NettyStudy.Websocket

open NettyStudy.Text NettyStudy.Netty

structure FullHttpRequest where
  /-- `getDecoderResult().isSuccess()`. -/
  decoderSuccess : Bool
  headers : List (String × String)

/-- Header names are compared in any (ASCII) case. -/
def equalsIgnoreCase (a b : String) : Bool := a.toList.map Char.toLower == b.toList.map Char.toLower

/-- `headers().get(name)`: the first value under the name. -/
def FullHttpRequest.get (req : FullHttpRequest) (name : String) : Option String :=
  (req.headers.find? fun h => equalsIgnoreCase h.1 name).map Prod.snd

structure HttpResponse where
  code : Nat
  reasonPhrase : String
  content : List UInt8
  deriving DecidableEq

/-- `WebSocketServerHandshakerFactory` for the server's URL, and its handshakers. -/
structure HandshakerFactory (H : Type) where
  newHandshaker : String → FullHttpRequest → Option H
  handshake : H → FullHttpRequest → Except Throwable Unit

/-- What a method does to its channel, to the group and to the console. -/
inductive Action (H : Type) where
  | groupAdd
  | groupRemove
  | println (line : JString)
  | flush
  | close
  /-- `channel.writeAndFlush(res)`. -/
  | respond (res : HttpResponse)
  /-- A CLOSE listener on the write before. -/
  | closeOnWrite
  | sendUnsupportedWebSocketVersionResponse
  /-- A handshake that did not throw. -/
  | handshake (handshaker : H)
  /-- `handshaker.close(channel, frame)`: the frame is written and the channel closes
      after the write. -/
  | closeHandshake (handshaker : H) (frame : WebSocketFrame)
  /-- `channel.write(frame)`. -/
  | write (frame : WebSocketFrame)
  /-- `NettyConfig.group.writeAndFlush(frame)`. -/
  | broadcast (frame : WebSocketFrame)
  deriving DecidableEq

/-- The handler's field and what has been done so far. -/
structure HandlerSt (H : Type) where
  handshaker : Option H
  actions : List (Action H)

abbrev Handler (H α : Type) := EStateM Throwable (HandlerSt H) α

variable {H : Type}

def act (a : Action H) : Handler H Unit := fun s => .ok () { s with actions := s.actions ++ [a] }

def println (line : String) : Handler H Unit := act (.println (literal line))

/-- What a delivered message is. -/
inductive Msg where
  | request (req : FullHttpRequest)
  | frame (frame : WebSocketFrame)
  | unknown

namespace MyWebSocketHandler

def WEB_SOCKET_URL : String := "ws://localhost:8080/websocket"

def className : String := "com.yicj.study.handler.MyWebSocketHandler"

def channelActive : Handler H Unit := do
  act .groupAdd
  println "客户端与服务端连接开启...."

def channelInactive : Handler H Unit := do
  act .groupRemove
  println "客户端与服务端连接关闭...."

def channelReadComplete : Handler H Unit := act .flush

def exceptionCaught (_cause : Throwable) : Handler H Unit := act .close

def badRequest : HttpResponse := ⟨400, "Bad Request", []⟩

def sendHttpResponse (res : HttpResponse) : Handler H Unit := do
  let status := toString res.code ++ " " ++ res.reasonPhrase
  let res := if res.code ≠ 200 then { res with content := res.content ++ getBytes (literal status) } else res
  act (.respond res)
  if res.code ≠ 200 then act .closeOnWrite

def handleHttpRequest (factory : HandshakerFactory H) (req : FullHttpRequest) : Handler H Unit := do
  println "http 请求"
  if ¬ req.decoderSuccess ∨ req.get "Upgrade" ≠ some "websocket" then
    sendHttpResponse badRequest
  else
    let handshaker := factory.newHandshaker WEB_SOCKET_URL req
    modify fun s => { s with handshaker := handshaker }
    match handshaker with
    | none => act .sendUnsupportedWebSocketVersionResponse
    | some h =>
      match factory.handshake h req with
      | .ok _ => act (.handshake h)
      | .error e => throw e

/-- The text frame of a broadcast. -/
def tws (date id request : JString) : WebSocketFrame :=
  ⟨.text, true, 0, getBytes (date ++ id ++ literal " ===>>> " ++ request)⟩

def handleWebSocketFrame (date id : JString) (frame : WebSocketFrame) : Handler H Unit := do
  println "websocket请求"
  if frame.kind = .close then
    match (← get).handshaker with
    | some h => act (.closeHandshake h frame)
    | none => throw .nullPointer
  if frame.kind = .ping then
    act (.write ⟨.pong, true, 0, frame.content⟩)
  else if frame.kind ≠ .text then
    println "目前我们不支持二进制消息"
    throw (.runtime ("【" ++ className ++ "】不支持消息"))
  else
    let request := newString frame.content
    act (.println (literal "服务端收到客户端的消息====>>>" ++ request))
    act (.broadcast (tws date id request))

def channelRead0 (factory : HandshakerFactory H) (date id : JString) : Msg → Handler H Unit
  | .request req => handleHttpRequest factory req
  | .frame frame => handleWebSocketFrame date id frame
  | .unknown => pure ()

/-- A delivered message; what it throws goes to `exceptionCaught`. -/
def deliver (factory : HandshakerFactory H) (date id : JString) (msg : Msg) (handshaker : Option H) : HandlerSt H :=
  match channelRead0 factory date id msg ⟨handshaker, []⟩ with
  | .ok _ s => s
  | .error cause s =>
    match exceptionCaught cause s with
    | .ok _ s => s
    | .error _ s => s

/-! ## What a request does -/

section
variable (factory : HandshakerFactory H) (date id : JString) (hs : Option H)

def httpLine : Action H := .println (literal "http 请求")

/-- A request that is no upgrade is answered 400 and its channel closes after the answer. -/
theorem deliver_noUpgrade {req : FullHttpRequest}
    (h : ¬ req.decoderSuccess ∨ req.get "Upgrade" ≠ some "websocket") :
    deliver factory date id (.request req) hs =
      ⟨hs, [httpLine, .respond { badRequest with content := getBytes (literal "400 Bad Request") },
        .closeOnWrite]⟩ := by
  have hr : handleHttpRequest factory req = (println "http 请求" >>= fun _ => sendHttpResponse badRequest) := by
    rw [handleHttpRequest, if_pos h]
  rw [deliver, channelRead0, hr]
  rfl

/-- An upgrade of an unsupported version leaves no handshaker. -/
theorem deliver_unsupportedVersion {req : FullHttpRequest}
    (h : ¬ (¬ req.decoderSuccess ∨ req.get "Upgrade" ≠ some "websocket"))
    (hn : factory.newHandshaker WEB_SOCKET_URL req = none) :
    deliver factory date id (.request req) hs = ⟨none, [httpLine, .sendUnsupportedWebSocketVersionResponse]⟩ := by
  rw [deliver, channelRead0, handleHttpRequest, if_neg h, hn]
  rfl

/-- The field is set before the handshake is known to succeed. -/
theorem deliver_handshake {req : FullHttpRequest} {h : H}
    (hu : ¬ (¬ req.decoderSuccess ∨ req.get "Upgrade" ≠ some "websocket"))
    (hn : factory.newHandshaker WEB_SOCKET_URL req = some h) :
    deliver factory date id (.request req) hs =
      ⟨some h, [httpLine, match factory.handshake h req with | .ok _ => .handshake h | .error _ => .close]⟩ := by
  rw [deliver, channelRead0, handleHttpRequest, if_neg hu, hn]
  dsimp only
  cases factory.handshake h req with
  | ok u => rfl
  | error e => rfl

/-- What any request comes to. -/
theorem request_cases (req : FullHttpRequest) :
    deliver factory date id (.request req) hs =
        ⟨hs, [httpLine, .respond { badRequest with content := getBytes (literal "400 Bad Request") },
          .closeOnWrite]⟩ ∨
      deliver factory date id (.request req) hs = ⟨none, [httpLine, .sendUnsupportedWebSocketVersionResponse]⟩ ∨
      ∃ h, deliver factory date id (.request req) hs = ⟨some h, [httpLine, .handshake h]⟩ ∨
        deliver factory date id (.request req) hs = ⟨some h, [httpLine, .close]⟩ := by
  by_cases hu : ¬ req.decoderSuccess ∨ req.get "Upgrade" ≠ some "websocket"
  · exact Or.inl (deliver_noUpgrade factory date id hs hu)
  right
  cases hn : factory.newHandshaker WEB_SOCKET_URL req with
  | none => exact Or.inl (deliver_unsupportedVersion factory date id hs hu hn)
  | some h =>
    refine Or.inr ⟨h, ?_⟩
    rw [deliver_handshake factory date id hs hu hn]
    cases factory.handshake h req with
    | ok u => exact Or.inl rfl
    | error e => exact Or.inr rfl

/-! ## What a frame does -/

def frameLine : Action H := .println (literal "websocket请求")

def unsupportedLine : Action H := .println (literal "目前我们不支持二进制消息")

variable {frame : WebSocketFrame}

theorem deliver_text (h : frame.kind = .text) :
    deliver factory date id (.frame frame) hs =
      ⟨hs, [frameLine, .println (literal "服务端收到客户端的消息====>>>" ++ newString frame.content),
        .broadcast (tws date id (newString frame.content))]⟩ := by
  obtain ⟨kind, isFinalFragment, rsv, content⟩ := frame
  cases h
  rfl

theorem deliver_ping (h : frame.kind = .ping) :
    deliver factory date id (.frame frame) hs = ⟨hs, [frameLine, .write ⟨.pong, true, 0, frame.content⟩]⟩ := by
  obtain ⟨kind, isFinalFragment, rsv, content⟩ := frame
  cases h
  rfl

/-- A close frame is answered, then thrown on like an unsupported one. -/
theorem deliver_close (hk : frame.kind = .close) (h : H) :
    deliver factory date id (.frame frame) (some h) =
      ⟨some h, [frameLine, .closeHandshake h frame, unsupportedLine, .close]⟩ := by
  obtain ⟨kind, isFinalFragment, rsv, content⟩ := frame
  cases hk
  rfl

theorem deliver_closeNull (hk : frame.kind = .close) :
    deliver factory date id (.frame frame) none = ⟨none, [frameLine, .close]⟩ := by
  obtain ⟨kind, isFinalFragment, rsv, content⟩ := frame
  cases hk
  rfl

theorem deliver_unsupported (hc : frame.kind ≠ .close) (hp : frame.kind ≠ .ping) (ht : frame.kind ≠ .text) :
    deliver factory date id (.frame frame) hs = ⟨hs, [frameLine, unsupportedLine, .close]⟩ := by
  obtain ⟨kind, isFinalFragment, rsv, content⟩ := frame
  cases kind with
  | close => exact absurd rfl hc
  | ping => exact absurd rfl hp
  | text => exact absurd rfl ht
  | _ => rfl

/-- What any frame comes to. -/
theorem frame_cases (frame : WebSocketFrame) :
    frame.kind = .text ∧ deliver factory date id (.frame frame) hs =
        ⟨hs, [frameLine, .println (literal "服务端收到客户端的消息====>>>" ++ newString frame.content),
          .broadcast (tws date id (newString frame.content))]⟩ ∨
      deliver factory date id (.frame frame) hs = ⟨hs, [frameLine, .write ⟨.pong, true, 0, frame.content⟩]⟩ ∨
      (∃ h, hs = some h ∧ deliver factory date id (.frame frame) hs =
        ⟨hs, [frameLine, .closeHandshake h frame, unsupportedLine, .close]⟩) ∨
      hs = none ∧ deliver factory date id (.frame frame) hs = ⟨hs, [frameLine, .close]⟩ ∨
      deliver factory date id (.frame frame) hs = ⟨hs, [frameLine, unsupportedLine, .close]⟩ := by
  by_cases ht : frame.kind = .text
  · exact Or.inl ⟨ht, deliver_text factory date id hs ht⟩
  right
  by_cases hp : frame.kind = .ping
  · exact Or.inl (deliver_ping factory date id hs hp)
  right
  by_cases hc : frame.kind = .close
  · cases hs with
    | some h => exact Or.inl ⟨h, rfl, deliver_close factory date id hc h⟩
    | none => exact Or.inr (Or.inl ⟨rfl, deliver_closeNull factory date id hc⟩)
  · exact Or.inr (Or.inr (deliver_unsupported factory date id hs hc hp ht))
end

end MyWebSocketHandler

end NettyStudy.Websocket
