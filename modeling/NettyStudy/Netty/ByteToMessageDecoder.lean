/-
  NettyStudy.Netty.ByteToMessageDecoder — the framework loop around a decode method
  (netty 4.1.34). Netty is not part of the repository; what the decoders rely on is
  its documented contract:
  - a read appends its bytes to the cumulation buffer and calls decode while the
    buffer is readable, until a call neither consumes nor produces; a call that
    produces and consumes nothing is a DecoderException;
  - what decode throws ends the read; whatever was produced is fired to the next
    handler, also then, and the unread bytes stay in the cumulation;
  - the cumulation is released after a read, failed or not, once it is not readable;
  - when the input closes, the loop runs once more over the bytes still held; if it
    did not throw and bytes are left, decode is called one last time (`decodeLast`).

  `Loop` is the loop's big-step meaning on byte strings, with no buffer and no fuel:
  `Loop d bs xs t rest` says that over `bs` it fires `xs`, ends with `t` thrown and
  leaves `rest`.

  Proved, for every decode method:
  - `callDecode_eq`: the loop's equation (the fuel never runs out).
  - `Loop.callDecode` / `Loop.channelRead` / `Loop.channelInputClosed`: the loop, a read
    and the close do what the big-step rules say.
  - `run_splits`: where the loop splits its bytes into messages and a residue, and a cut
    makes no difference to the split, runs do the same whatever the reads.
  - `run_wholes`: where the loop leaves nothing of a read, reads do not affect each other.
-/

import NettyStudy.Netty.ByteBuf

namespace NettyStudy.Netty

/-- A subclass: its decode method, which never makes more bytes readable. -/
structure Decoder (α : Type) where
  decode : Decode α Unit
  reads : ∀ s, (finalSt (decode s)).buf.readable.length ≤ s.buf.readable.length

/-- A DecoderException passes as it is, anything else is wrapped in one. -/
def asDecoderException : Throwable → Throwable
  | .corruptedFrame m => .corruptedFrame m
  | .tooLongFrame => .tooLongFrame
  | .didNotRead => .didNotRead
  | .decoder e => .decoder e
  | e => .decoder e

/-- What the loop leaves: the buffer, the messages fired, what was thrown. -/
structure Pass (α : Type) where
  buf : ByteBuf
  fired : List α
  thrown : Option Throwable

variable {α : Type}

def Pass.after (xs : List α) (p : Pass α) : Pass α := { p with fired := xs ++ p.fired }

/-- At most `n` rounds of `callDecode`'s loop; every call starts with an empty output
    list, the one before having been fired. -/
def callDecodeN (d : Decoder α) : Nat → ByteBuf → Pass α
  | 0, b => ⟨b, [], none⟩
  | n + 1, b =>
    if b.readable.isEmpty then ⟨b, [], none⟩
    else match d.decode ⟨b, []⟩ with
      | .error e s => ⟨s.buf, s.out, some (asDecoderException e)⟩
      | .ok _ s =>
        if s.buf.readable.length = b.readable.length then
          if s.out.isEmpty then ⟨s.buf, [], none⟩ else ⟨s.buf, s.out, some .didNotRead⟩
        else (callDecodeN d n s.buf).after s.out

def callDecode (d : Decoder α) (b : ByteBuf) : Pass α := callDecodeN d b.readable.length b

/-- A cumulation held between reads: never one with nothing to read. -/
structure Held where
  buf : ByteBuf
  ne_nil : buf.readable ≠ []

/-- The released cumulation is null. -/
def release (b : ByteBuf) : Option Held := if h : b.readable = [] then none else some ⟨b, h⟩

def cumulate (c : Option Held) (data : List UInt8) : ByteBuf :=
  match c with
  | none => .wrap data
  | some h => h.buf.writeBytes data

/-- The bytes held between reads. -/
def heldBytes : Option Held → List UInt8
  | none => []
  | some h => h.buf.readable

/-- What one read does: the cumulation after it, the messages fired, what was thrown. -/
structure ReadResult (α : Type) where
  cumulation : Option Held
  fired : List α
  thrown : Option Throwable

def channelRead (d : Decoder α) (c : Option Held) (data : List UInt8) : ReadResult α :=
  let p := callDecode d (cumulate c data)
  ⟨release p.buf, p.fired, p.thrown⟩

/-- What closing the input fires and throws. -/
structure Closed (α : Type) where
  fired : List α
  thrown : Option Throwable

def decodeLast (d : Decoder α) (b : ByteBuf) : Closed α :=
  if b.readable.isEmpty then ⟨[], none⟩
  else match d.decode ⟨b, []⟩ with
    | .ok _ s => ⟨s.out, none⟩
    | .error e s => ⟨s.out, some (asDecoderException e)⟩

def channelInputClosed (d : Decoder α) (c : Option Held) : Closed α :=
  match c with
  | none => decodeLast d (.wrap [])
  | some h =>
    let p := callDecode d h.buf
    match p.thrown with
    | some e => ⟨p.fired, some e⟩
    | none =>
      let l := decodeLast d p.buf
      ⟨p.fired ++ l.fired, l.thrown⟩

/-- A run of reads: the cumulation after the last, everything fired, and what each
    read threw. -/
structure Run (α : Type) where
  cumulation : Option Held
  fired : List α
  thrown : List (Option Throwable)

def run (d : Decoder α) : Option Held → List (List UInt8) → Run α
  | c, [] => ⟨c, [], []⟩
  | c, data :: rest =>
    let r := channelRead d c data
    let t := run d r.cumulation rest
    ⟨t.cumulation, r.fired ++ t.fired, r.thrown :: t.thrown⟩

/-! ## The loop's equation -/

variable (d : Decoder α)

theorem callDecodeN_enough : ∀ (n : Nat) (b : ByteBuf), b.readable.length ≤ n → callDecodeN d n b = callDecode d b := by
  intro n
  induction n using Nat.strongRecOn with
  | ind n ih =>
  intro b hn
  rcases Nat.eq_or_lt_of_le hn with rfl | hlt
  · rfl
  obtain ⟨m, rfl⟩ : ∃ m, n = m + 1 := ⟨n - 1, by omega⟩
  unfold callDecode
  rcases hk : b.readable.length with _ | k
  · have he : b.readable = [] := List.length_eq_zero_iff.mp hk
    simp [callDecodeN, he]
  rw [callDecodeN, callDecodeN]
  have hr := d.reads ⟨b, []⟩
  split
  · rfl
  cases hd : d.decode ⟨b, []⟩ with
  | error e s => rfl
  | ok u s =>
    rw [hd] at hr
    simp only [finalSt] at hr
    simp only
    split
    · rfl
    · rw [ih m (by omega) s.buf (by omega), ih k (by omega) s.buf (by omega)]

/-- One round of the loop, then the loop again. -/
theorem callDecode_eq (b : ByteBuf) :
    callDecode d b =
      if b.readable.isEmpty then ⟨b, [], none⟩
      else match d.decode ⟨b, []⟩ with
        | .error e s => ⟨s.buf, s.out, some (asDecoderException e)⟩
        | .ok _ s =>
          if s.buf.readable.length = b.readable.length then
            if s.out.isEmpty then ⟨s.buf, [], none⟩ else ⟨s.buf, s.out, some .didNotRead⟩
          else (callDecode d s.buf).after s.out := by
  rw [← callDecodeN_enough d (b.readable.length + 1) b (by omega), callDecodeN]
  have hr := d.reads ⟨b, []⟩
  split
  · rfl
  cases hd : d.decode ⟨b, []⟩ with
  | error e s => rfl
  | ok u s =>
    rw [hd] at hr
    simp only [finalSt] at hr
    simp only
    rw [callDecodeN_enough d _ s.buf hr]

/-! ## Big steps -/

/-- On any buffer with these readable bytes, decode produces `xs` and leaves `rest`. -/
def Decodes (bs : List UInt8) (xs : List α) (rest : List UInt8) : Prop :=
  ∀ b : ByteBuf, b.readable = bs → ∃ b', d.decode ⟨b, []⟩ = .ok () ⟨b', xs⟩ ∧ b'.readable = rest

/-- On any buffer with these readable bytes, decode throws `e`, having produced `xs` and
    leaving `rest`. -/
def Throws (bs : List UInt8) (xs : List α) (e : Throwable) (rest : List UInt8) : Prop :=
  ∀ b : ByteBuf, b.readable = bs → ∃ b', d.decode ⟨b, []⟩ = .error e ⟨b', xs⟩ ∧ b'.readable = rest

/-- `n` decode calls one after the other, none throwing, take the first buffer to the second. -/
inductive Calls : Nat → ByteBuf → ByteBuf → Prop
  | zero (b : ByteBuf) : Calls 0 b b
  | succ {n : Nat} {b b1 b' : ByteBuf} {xs : List α} :
      d.decode ⟨b, []⟩ = .ok () ⟨b1, xs⟩ → Calls n b1 b' → Calls (n + 1) b b'

inductive Loop : List UInt8 → List α → Option Throwable → List UInt8 → Prop
  | done : Loop [] [] none []
  | wait {bs : List UInt8} : Decodes d bs [] bs → Loop bs [] none bs
  | throws {bs : List UInt8} {xs : List α} {e : Throwable} {rest : List UInt8} : bs ≠ [] → Throws d bs xs e rest →
      Loop bs xs (some (asDecoderException e)) rest
  | step {bs : List UInt8} {xs : List α} {mid : List UInt8} {ys : List α} {t : Option Throwable} {rest : List UInt8} :
      Decodes d bs xs mid → mid.length < bs.length → Loop mid ys t rest → Loop bs (xs ++ ys) t rest

variable {d}

/-- The loop does what the big-step rules say. -/
theorem Loop.callDecode {bs rest : List UInt8} {xs : List α} {t : Option Throwable} (h : Loop d bs xs t rest) :
    ∀ b : ByteBuf, b.readable = bs → ∃ b', callDecode d b = ⟨b', xs, t⟩ ∧ b'.readable = rest := by
  induction h with
  | done =>
    intro b hb
    exact ⟨b, by rw [callDecode_eq, if_pos (by simp [hb])], hb⟩
  | @wait bs hd =>
    intro b hb
    obtain ⟨b', hd, hb'⟩ := hd b hb
    by_cases he : b.readable = []
    · exact ⟨b, by rw [callDecode_eq, if_pos (by simp [he])], hb⟩
    · refine ⟨b', ?_, hb'⟩
      rw [callDecode_eq, if_neg (by simpa using he), hd]
      simp [hb, hb']
  | throws hne ht =>
    intro b hb
    obtain ⟨b', ht, hb'⟩ := ht b hb
    refine ⟨b', ?_, hb'⟩
    rw [callDecode_eq, if_neg (by simpa [hb] using hne), ht]
  | step hd hlt _ ih =>
    intro b hb
    obtain ⟨b1, hd, hb1⟩ := hd b hb
    obtain ⟨b', hp, hb'⟩ := ih b1 hb1
    have hne : b.readable ≠ [] := by intro he; rw [hb] at he; simp [he] at hlt
    refine ⟨b', ?_, hb'⟩
    rw [callDecode_eq, if_neg (by simpa using hne), hd]
    simp only [hb, hb1]
    rw [if_neg (by omega), hp]
    rfl

@[simp] theorem heldBytes_release (b : ByteBuf) : heldBytes (release b) = b.readable := by
  unfold release
  split
  · rename_i h; exact h.symm
  · rfl

@[simp] theorem readable_cumulate (c : Option Held) (data : List UInt8) :
    (cumulate c data).readable = heldBytes c ++ data := by
  cases c with
  | none => rfl
  | some h => exact h.buf.readable_writeBytes data

/-- Nothing is held exactly when the cumulation is null. -/
theorem heldBytes_eq_nil {c : Option Held} : heldBytes c = [] ↔ c = none := by
  cases c with
  | none => simp [heldBytes]
  | some h => simpa [heldBytes] using h.ne_nil

theorem Loop.channelRead {c : Option Held} {data rest : List UInt8} {xs : List α} {t : Option Throwable}
    (h : Loop d (heldBytes c ++ data) xs t rest) :
    ∃ c', channelRead d c data = ⟨c', xs, t⟩ ∧ heldBytes c' = rest := by
  obtain ⟨b', hp, hb'⟩ := h.callDecode (cumulate c data) (readable_cumulate c data)
  exact ⟨release b', by simp only [Netty.channelRead, hp], by rw [heldBytes_release, hb']⟩

/-! ## Runs and closing -/

/-- Where the loop's split of its bytes into messages `f` and a residue `g` is the same
    however they arrive, so is a run's. -/
theorem run_splits {f : List UInt8 → List α} {g : List UInt8 → List UInt8} (hl : ∀ bs, Loop d bs (f bs) none (g bs))
    (hf : ∀ u v, f (u ++ v) = f u ++ f (g u ++ v)) (hg : ∀ u v, g (u ++ v) = g (g u ++ v))
    (chunks : List (List UInt8)) :
    ∀ c : Option Held, f (heldBytes c) = [] → g (heldBytes c) = heldBytes c →
      ∃ c', run d c chunks = ⟨c', f (heldBytes c ++ chunks.flatten), chunks.map fun _ => none⟩ ∧
        heldBytes c' = g (heldBytes c ++ chunks.flatten) := by
  induction chunks with
  | nil =>
    intro c hfc hgc
    exact ⟨c, by simp [run, hfc], by simp [hgc]⟩
  | cons data chunks ih =>
    intro c hfc hgc
    obtain ⟨c1, hr, hc1⟩ := (hl (heldBytes c ++ data)).channelRead
    have hf1 := hf (heldBytes c ++ data) []
    have hg1 := hg (heldBytes c ++ data) []
    rw [List.append_nil, List.append_nil, List.self_eq_append_right] at hf1
    rw [List.append_nil, List.append_nil] at hg1
    obtain ⟨c', ht, hc'⟩ := ih c1 (by rw [hc1, hf1]) (by rw [hc1, ← hg1])
    refine ⟨c', ?_, ?_⟩
    · rw [List.flatten_cons, ← List.append_assoc, hf, ← hc1]
      simp only [run, hr, ht, List.map_cons]
    · rw [hc', hc1, List.flatten_cons, ← List.append_assoc, hg (heldBytes c ++ data)]

/-- Where the loop leaves nothing of a read, each read fires and throws on its own. -/
theorem run_wholes {f : List UInt8 → List α} {t : List UInt8 → Option Throwable} {chunks : List (List UInt8)}
    (hl : ∀ bs ∈ chunks, Loop d bs (f bs) (t bs) []) : run d none chunks = ⟨none, chunks.flatMap f, chunks.map t⟩ := by
  induction chunks with
  | nil => rfl
  | cons data chunks ih =>
    obtain ⟨c, hr, hc⟩ : ∃ c, channelRead d none data = ⟨c, f data, t data⟩ ∧ heldBytes c = [] :=
      Loop.channelRead (c := none) (hl data List.mem_cons_self)
    rw [heldBytes_eq_nil.mp hc] at hr
    simp only [run, hr, ih fun bs hb => hl bs (List.mem_cons_of_mem data hb), List.flatMap_cons, List.map_cons]

theorem channelInputClosed_none : channelInputClosed d none = ⟨[], none⟩ := rfl

/-- Closing over bytes decode waits on fires nothing. -/
theorem channelInputClosed_wait {c : Option Held} (h : Decodes d (heldBytes c) [] (heldBytes c)) :
    channelInputClosed d c = ⟨[], none⟩ := by
  cases c with
  | none => rfl
  | some h' =>
    obtain ⟨b', hp, hb'⟩ := (Loop.wait h).callDecode h'.buf rfl
    obtain ⟨b'', hd, _⟩ := h b' hb'
    simp only [channelInputClosed, hp, decodeLast, hd]
    split <;> rfl

/-- When the loop throws on the bytes still held, decodeLast is not called. -/
theorem Loop.channelInputClosed {c : Option Held} {xs : List α} {t : Option Throwable} {rest : List UInt8}
    (h : Loop d (heldBytes c) xs t rest) (ht : t ≠ none ∨ rest = []) : channelInputClosed d c = ⟨xs, t⟩ := by
  cases c with
  | none =>
    obtain ⟨b', hp, -⟩ := h.callDecode (.wrap []) rfl
    rw [callDecode_eq, if_pos (by simp)] at hp
    simp only [Pass.mk.injEq] at hp
    obtain ⟨-, rfl, rfl⟩ := hp
    rfl
  | some h' =>
    obtain ⟨b', hp, hb'⟩ := h.callDecode h'.buf rfl
    simp only [Netty.channelInputClosed, hp]
    cases t with
    | some e => rfl
    | none =>
      have hr : rest = [] := by simpa using ht
      simp [decodeLast, hb', hr]

/-! ## What is thrown -/

section
variable (d : Decoder α)

/-- What a decoder throws is a DecoderException. -/
theorem asDecoderException_ne (e : Throwable) : asDecoderException e ≠ .classCast := by
  cases e <;> exact nofun

theorem callDecodeN_thrown (n : Nat) : ∀ b : ByteBuf, (callDecodeN d n b).thrown ≠ some .classCast := by
  induction n with
  | zero => exact fun _ => nofun
  | succ n ih =>
    intro b
    rw [callDecodeN]
    split
    · exact nofun
    · split
      · exact fun h => asDecoderException_ne _ (Option.some.inj h)
      · split
        · split <;> exact nofun
        · exact ih _

theorem channelRead_thrown (c : Option Held) (data : List UInt8) : (channelRead d c data).thrown ≠ some .classCast :=
  callDecodeN_thrown d _ _

theorem channelInputClosed_thrown (c : Option Held) : (channelInputClosed d c).thrown ≠ some .classCast := by
  have hlast : ∀ b, (decodeLast d b).thrown ≠ some .classCast := by
    intro b
    rw [decodeLast]
    split
    · exact nofun
    · split
      · exact nofun
      · exact fun h => asDecoderException_ne _ (Option.some.inj h)
  cases c with
  | none => exact hlast _
  | some h =>
    have hcall := callDecodeN_thrown d h.buf.readable.length h.buf
    rw [channelInputClosed]
    dsimp only
    split
    · rename_i e he
      rw [← callDecode] at hcall
      intro hc
      exact hcall (he.trans hc)
    · exact hlast _

end

end NettyStudy.Netty
