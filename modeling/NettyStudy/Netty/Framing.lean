/-
  NettyStudy.Netty.Framing — decoders that know where a frame ends: of bytes that start
  with a frame they take the frame, and on the start of one they wait.

  Proved, for every such decoder:
  - `Framing.cut_frames`: a stream of frames cut anywhere is whole frames and the start of one.
  - `Framing.channelRead_frames`: a read of such a stream fires the frames it completes and
    holds the start of the next.
-/

import NettyStudy.Netty.ByteToMessageDecoder
import NettyStudy.Text.Code

namespace NettyStudy.Netty

structure Framing (α : Type) where
  decoder : Decoder α
  frame : α → List UInt8
  /-- What there are frames of. -/
  Ok : α → Prop
  decodes_frame : ∀ {a}, Ok a → ∀ rest, Decodes decoder (frame a ++ rest) [a] rest
  decodes_nil : Decodes decoder [] [] []
  decodes_start : ∀ {a p q}, Ok a → frame a = p ++ q → q ≠ [] → Decodes decoder p [] p
  frame_ne_nil : ∀ {a}, Ok a → frame a ≠ []

namespace Framing

variable {α : Type} (F : Framing α)

def frames (xs : List α) : List UInt8 := xs.flatMap F.frame

theorem frames_append (xs ys : List α) : F.frames (xs ++ ys) = F.frames xs ++ F.frames ys := List.flatMap_append

variable {F}

/-- Frames, and bytes behind them on which the decoder waits. -/
theorem loop_frames {xs : List α} (hx : ∀ x ∈ xs, F.Ok x) {p : List UInt8} (hp : Decodes F.decoder p [] p) :
    Loop F.decoder (F.frames xs ++ p) xs none p := by
  induction xs with
  | nil => exact .wait hp
  | cons x xs ih =>
    have htail := ih fun y hy => hx y (List.mem_cons_of_mem _ hy)
    have hd := F.decodes_frame (hx x List.mem_cons_self) (F.frames xs ++ p)
    have hpos := List.length_pos_iff.mpr (F.frame_ne_nil (hx x List.mem_cons_self))
    rw [frames, List.flatMap_cons, List.append_assoc]
    refine .step hd ?_ htail
    have hlen : (F.frame x ++ (F.frames xs ++ p)).length = (F.frame x).length + (F.frames xs ++ p).length :=
      List.length_append
    omega

variable (F) in
/-- The bytes are the start of the first of the frames, and not all of it. -/
def Starts (xs : List α) (p : List UInt8) : Prop :=
  p = [] ∨ ∃ x xs' q, xs = x :: xs' ∧ F.frame x = p ++ q ∧ q ≠ []

theorem Starts.append {xs : List α} {p : List UInt8} (h : F.Starts xs p) (ys : List α) : F.Starts (xs ++ ys) p := by
  rcases h with rfl | ⟨x, xs', q, rfl, hf, hq⟩
  · exact .inl rfl
  · exact .inr ⟨x, xs' ++ ys, q, rfl, hf, hq⟩

theorem Starts.decodes {xs : List α} {p : List UInt8} (h : F.Starts xs p) (hx : ∀ x ∈ xs, F.Ok x) :
    Decodes F.decoder p [] p := by
  rcases h with rfl | ⟨x, xs', q, rfl, hf, hq⟩
  · exact F.decodes_nil
  · exact F.decodes_start (hx x List.mem_cons_self) hf hq

/-- When a start of frames is all of them, there are none. -/
theorem Starts.all {xs : List α} (h : F.Starts xs (F.frames xs)) (hx : ∀ x ∈ xs, F.Ok x) : xs = [] := by
  cases xs with
  | nil => rfl
  | cons x xs =>
    have hne := F.frame_ne_nil (hx x List.mem_cons_self)
    rcases h with h | ⟨_, _, q, he, hf, hq⟩
    · exact absurd (List.append_eq_nil_iff.mp h).1 hne
    · cases he
      have hpos := List.length_pos_iff.mpr hq
      have hl := congrArg List.length hf
      rw [frames, List.flatMap_cons, List.length_append, List.length_append] at hl
      omega

/-- A stream of frames cut anywhere is whole frames and a start of the next. -/
theorem cut_frames {xs : List α} {u : List UInt8} (hu : u <+: F.frames xs) :
    ∃ ys zs p, xs = ys ++ zs ∧ u = F.frames ys ++ p ∧ F.Starts zs p := by
  obtain ⟨v, hv⟩ := hu
  rcases Text.split_flatMap F.frame xs u v hv.symm with
    ⟨ys, zs, rfl, rfl, -⟩ | ⟨ys, c, zs, p, q, rfl, hc, -, hq, rfl, -⟩
  · exact ⟨ys, zs, [], rfl, (List.append_nil _).symm, .inl rfl⟩
  · exact ⟨ys, c :: zs, p, rfl, rfl, .inr ⟨c, zs, q, rfl, hc, hq⟩⟩

/-- A read of a stream of frames fires those it completes, throws nothing and holds what is
    behind them. -/
theorem channelRead_frames {c : Option Held} {data : List UInt8} {xs : List α} (hx : ∀ x ∈ xs, F.Ok x)
    (h : heldBytes c ++ data <+: F.frames xs) :
    ∃ ys zs c', xs = ys ++ zs ∧ channelRead F.decoder c data = ⟨c', ys, none⟩ ∧
      heldBytes c ++ data = F.frames ys ++ heldBytes c' ∧ F.Starts zs (heldBytes c') := by
  obtain ⟨ys, zs, p, rfl, hu, hp⟩ := cut_frames h
  have hl := loop_frames (fun y hy => hx y (List.mem_append_left zs hy))
    (hp.decodes fun z hz => hx z (List.mem_append_right ys hz))
  rw [← hu] at hl
  obtain ⟨c', hr, hc⟩ := hl.channelRead
  exact ⟨ys, zs, c', rfl, hr, by rw [hu, hc], by rw [hc]; exact hp⟩

end Framing

end NettyStudy.Netty
