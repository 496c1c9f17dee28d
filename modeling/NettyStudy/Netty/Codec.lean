/-
  NettyStudy.Netty.Codec — messages over bytes. One end encodes each message as a frame; at
  the other end what the frame decoder makes of the frames is decoded one by one, and what
  comes of it goes to the handler.

  `Carries` ties a direction of bytes to the same direction of messages: what is queued and
  what is on its way are the same messages, the frame decoder holding the start of the next.

  Proved, for every codec that decodes what it encodes, and every handler:
  - `Carries.write`, `Carries.flush`: a message written is one frame written.
  - `Carries.channelRead`: a read of any number of bytes is a read of some number of
    messages, and nothing is thrown.
-/

import NettyStudy.Netty.Framing
import NettyStudy.Netty.Channel

namespace NettyStudy.Netty

/-- The encoders and the decoders, which throw where they give nothing. -/
structure Codec (α : Type) where
  /-- What the frame decoder hands on. -/
  Part : Type
  framing : Framing Part
  encode : α → Option (List UInt8)
  decode : Part → Option α
  /-- The messages that are sent. -/
  Sent : α → Prop
  part : α → Part
  encode_eq : ∀ {a}, Sent a → encode a = some (framing.frame (part a))
  ok_part : ∀ {a}, Sent a → framing.Ok (part a)
  decode_part : ∀ {a}, Sent a → decode (part a) = some a

namespace Codec

variable {α σ : Type} (C : Codec α)

/-- What an encoder throws fails the write. -/
def write (o : Outbound UInt8) (a : α) : Outbound UInt8 :=
  match C.encode a with
  | some bytes => o.write bytes
  | none => o

/-- The frame decoder, the decoder and a handler. What either decoder throws is caught by
    the handler; the frames behind it come all the same. -/
def channelRead (handler : σ → α → σ) (exceptionCaught : σ → σ) (s : σ) (c : Option Held) (data : List UInt8) :
    σ × Option Held :=
  let r := Netty.channelRead C.framing.decoder c data
  let s := r.fired.foldl (fun s part =>
    match C.decode part with
    | some a => handler s a
    | none => exceptionCaught s) s
  (if r.thrown.isSome then exceptionCaught s else s, r.cumulation)

def frames (xs : List α) : List UInt8 := C.framing.frames (xs.map C.part)

theorem frames_append (xs ys : List α) : C.frames (xs ++ ys) = C.frames xs ++ C.frames ys := by
  simp [frames, Framing.frames]

/-- The bytes carry the messages. -/
structure Carries (o : Outbound UInt8) (c : Option Held) (p : Outbound α) : Prop where
  sent : ∀ a ∈ p.written, C.Sent a
  unflushed : o.unflushed = C.frames p.unflushed
  transit : heldBytes c ++ o.wire.transit = C.frames p.wire.transit
  starts : C.framing.Starts (p.wire.transit.map C.part) (heldBytes c)

variable {C} {o : Outbound UInt8} {c : Option Held} {p : Outbound α}

theorem carries_empty : C.Carries .empty none .empty :=
  ⟨fun _ h => absurd h List.not_mem_nil, rfl, rfl, .inl rfl⟩

namespace Carries

theorem ok_transit (h : C.Carries o c p) : ∀ x ∈ p.wire.transit.map C.part, C.framing.Ok x := by
  rintro x hx
  obtain ⟨a, ha, rfl⟩ := List.mem_map.mp hx
  exact C.ok_part (h.sent a (List.mem_append_left _ (List.mem_append_right _ ha)))

theorem write (h : C.Carries o c p) {a : α} (ha : C.Sent a) : C.Carries (C.write o a) c (p.write [a]) := by
  have hw : C.write o a = o.write (C.framing.frame (C.part a)) := by rw [Codec.write, C.encode_eq ha]
  refine ⟨fun b hb => ?_, ?_, by rw [hw]; exact h.transit, h.starts⟩
  · rw [Outbound.written_write, List.mem_append, List.mem_singleton] at hb
    rcases hb with hb | rfl
    · exact h.sent b hb
    · exact ha
  · rw [hw, Outbound.write, Outbound.write, frames_append, h.unflushed]
    simp [frames, Framing.frames]

theorem flush (h : C.Carries o c p) : C.Carries o.flush c p.flush := by
  refine ⟨by rw [Outbound.written_flush]; exact h.sent, rfl, ?_, ?_⟩
  · show heldBytes c ++ (o.wire.transit ++ o.unflushed) = C.frames (p.wire.transit ++ p.unflushed)
    rw [← List.append_assoc, h.transit, h.unflushed, frames_append]
  · have ht : p.flush.wire.transit = p.wire.transit ++ p.unflushed := rfl
    rw [ht, List.map_append]
    exact h.starts.append _

/-- A read fires the frames of some messages, and holds the start of the next one's. -/
theorem read (h : C.Carries o c p) (n : Nat) : ∃ k c',
    Netty.channelRead C.framing.decoder c (o.wire.next n) = ⟨c', (p.wire.next k).map C.part, none⟩ ∧
      C.Carries (o.take n) c' (p.take k) := by
  have hn : o.wire.next n ++ o.wire.transit.drop n = o.wire.transit := List.take_append_drop n _
  have hp : heldBytes c ++ o.wire.next n <+: C.framing.frames (p.wire.transit.map C.part) :=
    ⟨o.wire.transit.drop n, by rw [List.append_assoc, hn]; exact h.transit⟩
  obtain ⟨ys, zs, c', hsplit, hr, hheld, hs⟩ := Framing.channelRead_frames h.ok_transit hp
  have hys : ys = (p.wire.next ys.length).map C.part := by
    rw [Pipe.next, List.map_take, hsplit, List.take_left]
  have hzs : zs = (p.wire.transit.drop ys.length).map C.part := by
    rw [List.map_drop, hsplit, List.drop_left]
  refine ⟨ys.length, c', by rw [hr, ← hys], by rw [Outbound.written_take]; exact h.sent, h.unflushed, ?_, ?_⟩
  · have hall := h.transit
    rw [← hn, ← List.append_assoc, hheld, List.append_assoc, frames, hsplit, Framing.frames_append] at hall
    rw [frames]
    show heldBytes c' ++ o.wire.transit.drop n = C.framing.frames ((p.wire.transit.drop ys.length).map C.part)
    rw [← hzs]
    exact List.append_cancel_left hall
  · show C.framing.Starts ((p.wire.transit.drop ys.length).map C.part) (heldBytes c')
    rw [← hzs]
    exact hs

/-- A read of bytes is a read of messages. -/
theorem channelRead (h : C.Carries o c p) (handler : σ → α → σ) (exceptionCaught : σ → σ) (s : σ) (n : Nat) :
    ∃ k c', C.channelRead handler exceptionCaught s c (o.wire.next n) = ((p.wire.next k).foldl handler s, c') ∧
      C.Carries (o.take n) c' (p.take k) ∧ ∀ a ∈ p.wire.next k, C.Sent a := by
  obtain ⟨k, c', hr, hc⟩ := h.read n
  have hsent : ∀ a ∈ p.wire.next k, C.Sent a := fun a ha =>
    h.sent a (List.mem_append_left _ (List.mem_append_right _ (List.mem_of_mem_take ha)))
  refine ⟨k, c', ?_, hc, hsent⟩
  rw [Codec.channelRead, hr]
  generalize p.wire.next k = xs at hsent
  induction xs generalizing s with
  | nil => rfl
  | cons a xs ih =>
    have htail := ih (handler s a) fun b hb => hsent b (List.mem_cons_of_mem _ hb)
    simp only [List.map_cons, List.foldl_cons, C.decode_part (hsent a List.mem_cons_self)]
    exact htail

/-- With nothing queued and no byte on its way, no message is on its way. -/
theorem transit_eq_nil (h : C.Carries o c p) (ht : o.wire.transit = []) : p.wire.transit = [] := by
  have hb := h.transit
  rw [ht, List.append_nil] at hb
  have hs := h.starts
  rw [hb] at hs
  exact List.map_eq_nil_iff.mp (hs.all h.ok_transit)

end Carries

end Codec

end NettyStudy.Netty
