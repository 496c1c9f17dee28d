/-
  NettyStudy.Netty.WebSocketFrame — WebSocket frames as netty's codec hands them on, and
  the messages a sequence of them stands for.

  A text or binary frame starts a message; with FIN unset, continuation frames add to it
  up to one with FIN set. Control frames (close, ping, pong) are messages of their own
  and may stand between the parts of another message. `reassemble` is defined only where
  this fragmentation rule holds.

  Proved, for every sequence of frames:
  - `accept_cases`: what the rule allows at each frame.
  - `continuation_of_unfinal` / `no_continuation_of_final`: a sequence that reassembles has
    a continuation frame if some data frame lacks FIN, and none if no frame does.
  - `assemble_congr`: reassembly sees the kinds, the payloads and the data frames' FINs.
-/

import Mathlib.Data.Option.Basic

namespace NettyStudy.Netty

/-- The frame's class; `other` is a subclass netty does not define, as it is printed. -/
inductive FrameKind where
  | binary
  | text
  | continuation
  | close
  | ping
  | pong
  | other (name : String)
  deriving DecidableEq

structure WebSocketFrame where
  kind : FrameKind
  isFinalFragment : Bool
  rsv : Int32
  content : List UInt8
  deriving DecidableEq

def FrameKind.isData : FrameKind → Bool
  | .binary | .text | .continuation => true
  | _ => false

/-- A message: its kind is that of its first frame. -/
structure WebSocketMessage where
  kind : FrameKind
  payload : List UInt8
  deriving DecidableEq

/-- A frame of the message `m`: the last one completes it. -/
def finish (f : WebSocketFrame) (m : WebSocketMessage) : Option WebSocketMessage × List WebSocketMessage :=
  if f.isFinalFragment then (none, [m]) else (some m, [])

/-- One frame, `part` being the unfinished message before it: the unfinished message
    after it and the messages it completes. None where the rule does not allow it. -/
def accept (part : Option WebSocketMessage) (f : WebSocketFrame) :
    Option (Option WebSocketMessage × List WebSocketMessage) :=
  match f.kind with
  | .binary | .text => if part.isNone then some (finish f ⟨f.kind, f.content⟩) else none
  | .continuation => part.map fun m => finish f ⟨m.kind, m.payload ++ f.content⟩
  | .close | .ping | .pong => some (part, [⟨f.kind, f.content⟩])
  | .other _ => none

def assemble : Option WebSocketMessage → List WebSocketFrame → Option (List WebSocketMessage)
  | part, [] => if part.isNone then some [] else none
  | part, f :: fs =>
    match accept part f with
    | none => none
    | some (part', done) => (assemble part' fs).map (done ++ ·)

def reassemble (fs : List WebSocketFrame) : Option (List WebSocketMessage) := assemble none fs

/-- The sequence obeys the fragmentation rule and leaves no message unfinished. -/
def Obeys (fs : List WebSocketFrame) : Prop := (reassemble fs).isSome

instance (fs : List WebSocketFrame) : Decidable (Obeys fs) := inferInstanceAs (Decidable (_ = true))

variable {part : Option WebSocketMessage} {f : WebSocketFrame} {fs : List WebSocketFrame} {ms : List WebSocketMessage}

/-- A sequence that reassembles is a frame the rule allows, then a sequence that does. -/
theorem assemble_cons (h : assemble part (f :: fs) = some ms) :
    ∃ part' done ms', accept part f = some (part', done) ∧ assemble part' fs = some ms' := by
  rw [assemble] at h
  cases ha : accept part f with
  | none => rw [ha] at h; cases h
  | some r =>
    rw [ha] at h
    obtain ⟨ms', hm, -⟩ := Option.map_eq_some_iff.mp h
    exact ⟨r.1, r.2, ms', rfl, hm⟩

/-- What the rule allows: to continue a message, to start one where none is unfinished,
    and a control frame anywhere. -/
theorem accept_cases {part' : Option WebSocketMessage} {done : List WebSocketMessage}
    (h : accept part f = some (part', done)) :
    (f.kind = .continuation ∧ part ≠ none) ∨
    (f.kind ≠ .continuation ∧ part = none ∧ (f.isFinalFragment = true ↔ part' = none)) ∨
    (f.kind.isData = false ∧ part' = part) := by
  obtain ⟨kind, isFinalFragment, rsv, content⟩ := f
  cases kind with
  | binary | text =>
    right; left
    cases part with
    | none =>
      refine ⟨by simp, rfl, ?_⟩
      simp only [accept, finish, Option.isNone_none, if_true, Option.some.injEq] at h
      cases isFinalFragment with
      | true =>
        simp only [if_true, Prod.mk.injEq] at h
        simp [← h.1]
      | false =>
        simp only [Bool.false_eq_true, if_false, Prod.mk.injEq] at h
        simp [← h.1]
    | some m => cases h
  | continuation =>
    left
    cases part with
    | none => cases h
    | some m => exact ⟨rfl, by simp⟩
  | close | ping | pong =>
    right; right
    simp only [accept, Option.some.injEq, Prod.mk.injEq] at h
    exact ⟨rfl, h.1.symm⟩
  | other name => cases h

theorem known_of_assemble : ∀ (fs : List WebSocketFrame) (part : Option WebSocketMessage) (ms : List WebSocketMessage),
    assemble part fs = some ms → ∀ f ∈ fs, ∀ name, f.kind ≠ .other name := by
  intro fs
  induction fs with
  | nil => intro part ms _ f hf; cases hf
  | cons f fs ih =>
    intro part ms h g hg name hk
    obtain ⟨part', done, ms', ha, hm⟩ := assemble_cons h
    rcases List.mem_cons.mp hg with rfl | hgs
    · rw [accept, hk] at ha
      cases ha
    · exact ih part' ms' hm g hgs name hk

/-- An unfinished message is finished by a continuation frame. -/
theorem continuation_of_open : ∀ (fs : List WebSocketFrame) (m : WebSocketMessage) (ms : List WebSocketMessage),
    assemble (some m) fs = some ms → ∃ f ∈ fs, f.kind = .continuation := by
  intro fs
  induction fs with
  | nil => intro m ms h; cases h
  | cons f fs ih =>
    intro m ms h
    obtain ⟨part', done, ms', ha, hm⟩ := assemble_cons h
    rcases accept_cases ha with ⟨hk, -⟩ | ⟨-, hp, -⟩ | ⟨-, rfl⟩
    · exact ⟨f, List.mem_cons_self, hk⟩
    · cases hp
    · obtain ⟨g, hg, hk⟩ := ih m ms' hm
      exact ⟨g, List.mem_cons_of_mem f hg, hk⟩

/-- A data frame without FIN is followed by a continuation frame, or is one. -/
theorem continuation_of_unfinal : ∀ (fs : List WebSocketFrame) (part : Option WebSocketMessage)
    (ms : List WebSocketMessage), assemble part fs = some ms →
    (∃ f ∈ fs, f.kind.isData = true ∧ f.isFinalFragment = false) → ∃ f ∈ fs, f.kind = .continuation := by
  intro fs
  induction fs with
  | nil =>
    intro part ms _ h
    obtain ⟨f, hf, -⟩ := h
    cases hf
  | cons f fs ih =>
    intro part ms h hex
    obtain ⟨part', done, ms', ha, hm⟩ := assemble_cons h
    obtain ⟨g, hg, hdata, hfin⟩ := hex
    have htail : g ∈ fs → ∃ f' ∈ f :: fs, f'.kind = .continuation := by
      intro hgs
      obtain ⟨c, hc, hk⟩ := ih part' ms' hm ⟨g, hgs, hdata, hfin⟩
      exact ⟨c, List.mem_cons_of_mem f hc, hk⟩
    rcases accept_cases ha with ⟨hk, -⟩ | ⟨-, -, hiff⟩ | ⟨hctl, -⟩
    · exact ⟨f, List.mem_cons_self, hk⟩
    · rcases List.mem_cons.mp hg with rfl | hgs
      · -- the message this frame starts is left unfinished
        cases part' with
        | none => rw [hiff.mpr rfl] at hfin; cases hfin
        | some m =>
          obtain ⟨c, hc, hk⟩ := continuation_of_open fs m ms' hm
          exact ⟨c, List.mem_cons_of_mem g hc, hk⟩
      · exact htail hgs
    · rcases List.mem_cons.mp hg with rfl | hgs
      · rw [hctl] at hdata; cases hdata
      · exact htail hgs

/-- Where every frame has FIN set, only a sequence without continuation frames
    reassembles. -/
theorem no_continuation_of_final : ∀ (fs : List WebSocketFrame) (ms : List WebSocketMessage),
    reassemble fs = some ms → (∀ f ∈ fs, f.isFinalFragment = true) → ∀ f ∈ fs, f.kind ≠ .continuation := by
  intro fs
  induction fs with
  | nil => intro ms _ _ f hf; cases hf
  | cons f fs ih =>
    intro ms h hfin g hg
    obtain ⟨part', done, ms', ha, hm⟩ := assemble_cons h
    have htail : part' = none → g ∈ fs → g.kind ≠ .continuation := by
      intro hp hgs
      rw [hp] at hm
      exact ih ms' hm (fun x hx => hfin x (List.mem_cons_of_mem f hx)) g hgs
    rcases accept_cases ha with ⟨-, hp⟩ | ⟨hk, -, hiff⟩ | ⟨hctl, rfl⟩
    · exact absurd rfl hp
    · rcases List.mem_cons.mp hg with rfl | hgs
      · exact hk
      · exact htail (hiff.mp (hfin f List.mem_cons_self)) hgs
    · rcases List.mem_cons.mp hg with rfl | hgs
      · intro hk; rw [hk] at hctl; cases hctl
      · exact htail rfl hgs

/-- Reassembly sees the kinds, the payloads and the data frames' FINs. -/
theorem assemble_congr {r : WebSocketFrame → WebSocketFrame} : ∀ (fs : List WebSocketFrame)
    (part : Option WebSocketMessage), (∀ f ∈ fs, (r f).kind = f.kind ∧ (r f).content = f.content ∧
      (f.kind.isData = true → (r f).isFinalFragment = f.isFinalFragment)) →
    assemble part (fs.map r) = assemble part fs := by
  intro fs
  induction fs with
  | nil => intro part _; rfl
  | cons f fs ih =>
    intro part h
    have ha : accept part (r f) = accept part f := by
      obtain ⟨hk, hc, hf⟩ := h f List.mem_cons_self
      unfold accept
      rw [hk, hc]
      cases hkind : f.kind with
      | binary | text | continuation =>
        have hf := hf (by rw [hkind]; rfl)
        simp only [finish, hf]
      | close | ping | pong => rfl
      | other name => rfl
    rw [List.map_cons, assemble, assemble, ha]
    cases accept part f with
    | none => rfl
    | some p => simp only [ih p.1 fun g hg => h g (List.mem_cons_of_mem f hg)]

end NettyStudy.Netty
