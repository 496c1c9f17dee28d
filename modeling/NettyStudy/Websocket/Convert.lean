/-
  NettyStudy.Websocket.Convert — WebsocketConvertHandler of echo-common, which turns
  WebSocket frames into its own MyWebSocketFrame and back. A MyWebSocketFrame has a type
  and data and no place for FIN and RSV; `encode` makes every frame with FIN set and
  RSV 0 (spelled out for a close frame, the constructors' default for the others).

  `encode`'s default branch is not modelled: FrameType has no other values.

  Proved:
  - `relay_known`: frames of netty's six kinds come back as `finalized`.
  - `relay_obeys`: what a relayed sequence means, and where that is what the sequence
    itself means.
-/

import NettyStudy.Netty.ByteBuf
import NettyStudy.Netty.WebSocketFrame

namespace NettyStudy.Websocket

open NettyStudy.Netty

inductive FrameType where
  | BINARY
  | CLOSE
  | PING
  | PONG
  | TEXT
  | CONTINUATION
  deriving DecidableEq

structure MyWebSocketFrame where
  type : FrameType
  data : List UInt8
  deriving DecidableEq

namespace WebsocketConvertHandler

def encode (msg : MyWebSocketFrame) : WebSocketFrame :=
  match msg.type with
  | .BINARY => ⟨.binary, true, 0, msg.data⟩
  | .TEXT => ⟨.text, true, 0, msg.data⟩
  | .CLOSE => ⟨.close, true, 0, msg.data⟩
  | .CONTINUATION => ⟨.continuation, true, 0, msg.data⟩
  | .PONG => ⟨.pong, true, 0, msg.data⟩
  | .PING => ⟨.ping, true, 0, msg.data⟩

def decode (msg : WebSocketFrame) : Except Throwable MyWebSocketFrame :=
  match msg.kind with
  | .binary => .ok ⟨.BINARY, msg.content⟩
  | .close => .ok ⟨.CLOSE, msg.content⟩
  | .ping => .ok ⟨.PING, msg.content⟩
  | .pong => .ok ⟨.PONG, msg.content⟩
  | .text => .ok ⟨.TEXT, msg.content⟩
  | .continuation => .ok ⟨.CONTINUATION, msg.content⟩
  | .other name => .error (.illegalState ("Unsupported study msg " ++ name))

end WebsocketConvertHandler

open WebsocketConvertHandler

/-- Every frame decoded and encoded back, in order. -/
def relay : List WebSocketFrame → Except Throwable (List WebSocketFrame)
  | [] => .ok []
  | f :: fs => do
    let msg ← decode f
    let gs ← relay fs
    .ok (encode msg :: gs)

/-- The frame with FIN set and RSV 0. -/
def finalized (f : WebSocketFrame) : WebSocketFrame := { f with isFinalFragment := true, rsv := 0 }

/-- FIN and RSV. -/
def flags (f : WebSocketFrame) : Bool × Int32 := (f.isFinalFragment, f.rsv)

/-- Kind and payload. -/
def body (f : WebSocketFrame) : FrameKind × List UInt8 := (f.kind, f.content)

/-- The relayed sequence stands for the same messages, with every FIN and RSV unchanged. -/
def Preserves (fs : List WebSocketFrame) : Prop :=
  ∃ gs, relay fs = .ok gs ∧ reassemble gs = reassemble fs ∧ gs.map flags = fs.map flags

theorem decode_encode {f : WebSocketFrame} (h : ∀ name, f.kind ≠ .other name) :
    ∃ msg, decode f = .ok msg ∧ encode msg = finalized f := by
  obtain ⟨kind, isFinalFragment, rsv, content⟩ := f
  cases kind with
  | other name => exact absurd rfl (h name)
  | _ => exact ⟨_, rfl, rfl⟩

theorem relay_known {fs : List WebSocketFrame} (h : ∀ f ∈ fs, ∀ name, f.kind ≠ .other name) :
    relay fs = .ok (fs.map finalized) := by
  induction fs with
  | nil => rfl
  | cons f fs ih =>
    obtain ⟨msg, hd, he⟩ := decode_encode (h f List.mem_cons_self)
    rw [relay, hd, ih fun g hg => h g (List.mem_cons_of_mem f hg), List.map_cons, ← he]
    rfl

theorem map_flags_finalized (fs : List WebSocketFrame) :
    (fs.map finalized).map flags = fs.map flags ↔ ∀ f ∈ fs, f.isFinalFragment = true ∧ f.rsv = 0 := by
  induction fs with
  | nil => simp
  | cons f fs ih =>
    have hf : flags (finalized f) = flags f ↔ f.isFinalFragment = true ∧ f.rsv = 0 := by
      rw [flags, flags, Prod.mk.injEq]
      exact ⟨fun h => ⟨h.1.symm, h.2.symm⟩, fun h => ⟨h.1.symm, h.2.symm⟩⟩
    rw [List.map_cons, List.map_cons, List.map_cons, List.cons.injEq, hf, ih, List.forall_mem_cons]

/-- Relayed frames keep their messages exactly where no message is fragmented. -/
theorem reassemble_finalized {fs : List WebSocketFrame} (h : Obeys fs) :
    reassemble (fs.map finalized) = reassemble fs ↔ ∀ f ∈ fs, f.kind.isData = true → f.isFinalFragment = true := by
  obtain ⟨ms, hms⟩ := Option.isSome_iff_exists.mp h
  constructor
  · intro heq f hf hdata
    apply Classical.byContradiction
    intro hfin
    obtain ⟨c, hc, hk⟩ := continuation_of_unfinal fs none ms hms ⟨f, hf, hdata, by simpa using hfin⟩
    rw [hms] at heq
    have hfinal : ∀ g ∈ fs.map finalized, g.isFinalFragment = true := by
      intro g hg
      obtain ⟨g0, -, rfl⟩ := List.mem_map.mp hg
      rfl
    exact no_continuation_of_final _ ms heq hfinal (finalized c) (List.mem_map_of_mem hc) hk
  · intro hfin
    exact assemble_congr fs none fun f hf => ⟨rfl, rfl, fun hdata => (hfin f hf hdata).symm⟩

/-- A sequence that obeys the fragmentation rule is relayed frame by frame with kinds and
    payloads kept, FIN set and RSV 0. It stands for the same messages exactly where every
    data frame has FIN set, and has the same flags exactly where every frame has FIN set
    and RSV 0. -/
theorem relay_obeys (fs : List WebSocketFrame) (h : Obeys fs) :
    ∃ gs, relay fs = .ok gs ∧ gs.map body = fs.map body ∧ (∀ g ∈ gs, flags g = (true, 0)) ∧
      (reassemble gs = reassemble fs ↔ ∀ f ∈ fs, f.kind.isData = true → f.isFinalFragment = true) ∧
      (gs.map flags = fs.map flags ↔ ∀ f ∈ fs, f.isFinalFragment = true ∧ f.rsv = 0) := by
  obtain ⟨ms, hms⟩ := Option.isSome_iff_exists.mp h
  refine ⟨fs.map finalized, relay_known (known_of_assemble fs none ms hms), ?_, ?_, reassemble_finalized h,
    map_flags_finalized fs⟩
  · rw [List.map_map]
    rfl
  · intro g hg
    obtain ⟨f, -, rfl⟩ := List.mem_map.mp hg
    rfl

/-- A ping between two whole messages, the first with a reserved bit set. -/
theorem relay_obeys_unfragmented :
    ∃ gs, relay [⟨.text, true, 4, [104]⟩, ⟨.ping, true, 0, []⟩, ⟨.binary, true, 0, [1]⟩] = .ok gs ∧
      reassemble gs = some [⟨.text, [104]⟩, ⟨.ping, []⟩, ⟨.binary, [1]⟩] := by
  obtain ⟨gs, hr, -, -, hm, -⟩ :=
    relay_obeys [⟨.text, true, 4, [104]⟩, ⟨.ping, true, 0, []⟩, ⟨.binary, true, 0, [1]⟩] (by decide)
  exact ⟨gs, hr, (hm.mpr (by decide)).trans (by decide)⟩

/-- A text in two fragments obeys the rule and is not preserved: its first frame comes
    back as a whole message and its second as the continuation of none. -/
theorem not_preserves_fragmented :
    Obeys [⟨.text, false, 0, [104]⟩, ⟨.continuation, true, 0, [105]⟩] ∧
      reassemble [⟨.text, true, 0, [104]⟩, ⟨.continuation, true, 0, [105]⟩] = none ∧
      ¬ Preserves [⟨.text, false, 0, [104]⟩, ⟨.continuation, true, 0, [105]⟩] := by
  refine ⟨by decide, by decide, ?_⟩
  intro h
  obtain ⟨gs, hr, hm, -⟩ := h
  have hr' : relay [⟨.text, false, 0, [104]⟩, ⟨.continuation, true, 0, [105]⟩] =
      .ok [⟨.text, true, 0, [104]⟩, ⟨.continuation, true, 0, [105]⟩] := rfl
  rw [hr'] at hr
  injection hr with hr
  subst hr
  exact absurd hm (by decide)

end NettyStudy.Websocket
