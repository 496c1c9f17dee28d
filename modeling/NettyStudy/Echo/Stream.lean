/-
  NettyStudy.Echo.Stream — MessageDecoder on a stream of frames cut into reads, with
  no regard for where the frames end.

  A read that ends at a frame boundary leaves nothing held. A read that ends inside a
  frame throws: in the head with the bytes kept, in the payload with the head gone.
  `groups` below are the messages of the reads that end at a frame boundary.

  Proved, for well-formed messages:
  - `loop_frames`: whole frames are passed on, then the loop runs over what follows.
  - `loop_partial`: what the loop does on the start of a frame.
  - `run_groups`: reads that end at frame boundaries, one after the other.
  - `clean_iff`: the messages arrive, with no exception and no byte left, exactly when
    every read ends at a frame boundary.
  - `coalesced_tail`: whole frames in front of a cut one in the same read still arrive.
  - `selfDelimiting_iff`: before another frame, a frame is one message of its own exactly
    when its message is well formed.
-/

import NettyStudy.Echo.RoundTrip

namespace NettyStudy.Echo

open NettyStudy.Text NettyStudy.Netty

/-- The bytes of the messages sent one after the other. -/
def frames (ms : List Message) : List UInt8 := ms.flatMap frame

theorem frames_append (ms ns : List Message) : frames (ms ++ ns) = frames ms ++ frames ns := List.flatMap_append

theorem frames_cons (m : Message) (ms : List Message) : frames (m :: ms) = frame m ++ frames ms := rfl

theorem frame_ne_nil (m : Message) : frame m ≠ [] := List.cons_ne_nil _ _

theorem frames_eq_nil {ms : List Message} (h : frames ms = []) : ms = [] := by
  cases ms with
  | nil => rfl
  | cons m ms => exact absurd (List.append_eq_nil_iff.mp h).1 (frame_ne_nil m)

theorem frames_flatten (groups : List (List Message)) : (groups.map frames).flatten = frames groups.flatten := by
  induction groups with
  | nil => rfl
  | cons g groups ih => rw [List.map_cons, List.flatten_cons, List.flatten_cons, frames_append, ih]

/-- Reads of a stream of frames end at frame boundaries, up to the first that ends
    inside a frame. -/
theorem split_frames {ms : List Message} {chunks : List (List UInt8)} (hc : chunks.flatten <+: frames ms) :
    (∃ (groups : List (List Message)) (later : List Message), ms = groups.flatten ++ later ∧
      chunks = groups.map frames) ∨
    ∃ (groups : List (List Message)) (g : List Message) (m : Message) (later : List Message) (p q : List UInt8)
      (us : List (List UInt8)), ms = groups.flatten ++ g ++ m :: later ∧
      chunks = groups.map frames ++ (frames g ++ p) :: us ∧ frame m = p ++ q ∧ p ≠ [] ∧ q ≠ [] :=
  split_pieces frame chunks ms hc

/-! ## One pass of the loop -/

section
variable {ms : List Message} {m : Message} {tail rest : List UInt8} {xs : List Message} {t : Option Throwable}

theorem loop_frames (hw : ∀ m ∈ ms, WellFormed m) (h : Loop messageDecoder tail xs t rest) :
    Loop messageDecoder (frames ms ++ tail) (ms.map Message.tagged ++ xs) t rest := by
  induction ms with
  | nil => exact h
  | cons m ms ih =>
    rw [frames_cons, List.append_assoc]
    have hpos := List.length_pos_iff.mpr (frame_ne_nil m)
    have hl := ih fun n hn => hw n (List.mem_cons_of_mem m hn)
    have hlt : (frames ms ++ tail).length < (frame m ++ (frames ms ++ tail)).length := by
      simp only [List.length_append]
      omega
    show Loop messageDecoder _ ([m.tagged] ++ (ms.map Message.tagged ++ xs)) t rest
    exact .step (decodes_frame _ (hw m List.mem_cons_self)) hlt hl

/-- On a head and a proper start of its payload the loop throws with the head consumed. -/
theorem loop_payload (hw : WellFormed m) {d q : List UInt8} (hd : getBytes m.data = d ++ q) (hq : q ≠ []) :
    Loop messageDecoder (head m ++ d) [] (some (.decoder .indexOutOfBounds)) d := by
  have h45 := length_head hw.session_length
  have hlen := congrArg List.length hd
  rw [List.length_append] at hlen
  have hpos := List.length_pos_iff.mpr hq
  have ha : ¬ Accepts (head m ++ d) := by
    rw [accepts_head hw.session_length, hw.length_eq]
    omega
  have hs : ¬ (head m ++ d).length < HEAD_LENGHT := by
    rw [List.length_append]
    unfold HEAD_LENGHT
    omega
  have ht0 : ¬ (head m ++ d).getD 0 0 ≠ PACKAGE_TAG := not_not_intro rfl
  have hl : ¬ lengthField (head m ++ d) < 0 := by
    rw [lengthField, length_at hw.session_length, hw.length_eq]
    omega
  have ht := throws_rejected ha
  rw [rejection, if_neg hs, if_neg ht0, if_neg hl] at ht
  simp only [drop_head hw.session_length] at ht
  exact .throws (List.cons_ne_nil _ _) ht

/-- On a proper start of a frame the loop throws: the head's bytes stay, or the head is
    consumed and the payload's stay. -/
theorem loop_partial (hw : WellFormed m) {p q : List UInt8} (hf : frame m = p ++ q) (hp : p ≠ []) (hq : q ≠ []) :
    Loop messageDecoder p [] (some (.corruptedFrame "包长度问题")) p ∨
    ∃ d, p = head m ++ d ∧ getBytes m.data = d ++ q ∧
      Loop messageDecoder p [] (some (.decoder .indexOutOfBounds)) d := by
  by_cases hs : p.length < HEAD_LENGHT
  · have ht := throws_rejected (fun h : Accepts p => absurd h.1 (Nat.not_le.mpr hs))
    rw [rejection, if_pos hs] at ht
    exact Or.inl (.throws hp ht)
  · have h45 := length_head hw.session_length
    obtain ⟨d, rfl⟩ : head m <+: p := by
      refine List.prefix_of_prefix_length_le ⟨_, rfl⟩ ⟨q, (frame_eq m ▸ hf).symm⟩ ?_
      unfold HEAD_LENGHT at hs
      omega
    rw [frame_eq, List.append_assoc] at hf
    have hd := List.append_cancel_left hf
    exact Or.inr ⟨d, rfl, hd, loop_payload hw hd hq⟩

end

/-! ## Reads -/

/-- A read that ends at a frame boundary leaves nothing held. -/
theorem channelRead_frames {g : List Message} (hw : ∀ m ∈ g, WellFormed m) :
    channelRead messageDecoder none (frames g) = ⟨none, g.map Message.tagged, none⟩ := by
  have hl := loop_frames hw (.done (d := messageDecoder))
  rw [List.append_nil, List.append_nil] at hl
  obtain ⟨c, hr, hc⟩ : ∃ c, channelRead messageDecoder none (frames g) = ⟨c, g.map Message.tagged, none⟩ ∧
      heldBytes c = [] := Loop.channelRead (c := none) hl
  rw [hr, heldBytes_eq_nil.mp hc]

/-- A read that ends inside a frame passes on the whole ones and throws. -/
theorem channelRead_cut {g : List Message} {m : Message} (hg : ∀ n ∈ g, WellFormed n) (hw : WellFormed m)
    {p q : List UInt8} (hf : frame m = p ++ q) (hp : p ≠ []) (hq : q ≠ []) :
    ∃ e, (channelRead messageDecoder none (frames g ++ p)).thrown = some e := by
  rcases loop_partial hw hf hp hq with hl | ⟨d, -, -, hl⟩
  all_goals
    obtain ⟨c, hr, -⟩ := Loop.channelRead (c := none) (loop_frames hg hl)
    exact ⟨_, congrArg ReadResult.thrown hr⟩

/-- Reads that end at frame boundaries, and then others. -/
theorem run_groups {groups : List (List Message)} (hw : ∀ m ∈ groups.flatten, WellFormed m) (cs : List (List UInt8)) :
    run messageDecoder none (groups.map frames ++ cs) =
      let t := run messageDecoder none cs
      ⟨t.cumulation, groups.flatten.map Message.tagged ++ t.fired, groups.map (fun _ => none) ++ t.thrown⟩ := by
  induction groups with
  | nil => rfl
  | cons g groups ih =>
    simp only [List.flatten_cons, List.mem_append] at hw
    simp only [List.map_cons, List.cons_append, run, channelRead_frames fun m hm => hw m (Or.inl hm),
      ih fun m hm => hw m (Or.inr hm), List.flatten_cons, List.map_append, List.append_assoc]

/-- The messages were passed on in order, no read threw and nothing is left. -/
def Clean (ms : List Message) (chunks : List (List UInt8)) : Prop :=
  let r := run messageDecoder none chunks
  r.fired = ms.map Message.tagged ∧ (∀ t ∈ r.thrown, t = none) ∧ heldBytes r.cumulation = []

/-- However the frames of well-formed messages are cut into reads, the messages arrive
    cleanly exactly when every read ends at a frame boundary. -/
theorem clean_iff (ms : List Message) (hw : ∀ m ∈ ms, WellFormed m) (chunks : List (List UInt8))
    (hc : chunks.flatten = frames ms) :
    Clean ms chunks ↔ ∃ groups : List (List Message), groups.flatten = ms ∧ groups.map frames = chunks := by
  constructor
  · rintro ⟨-, hquiet, -⟩
    rcases split_frames ⟨[], by rw [List.append_nil, hc]⟩ with
      ⟨groups, zs, rfl, rfl⟩ | ⟨groups, g, m, zs, p, q, us, rfl, rfl, hf, hp, hq⟩
    · rw [frames_flatten, frames_append] at hc
      have hz : zs = [] := frames_eq_nil (List.self_eq_append_right.mp hc)
      exact ⟨groups, by rw [hz, List.append_nil], rfl⟩
    · simp only [List.mem_append, List.mem_cons] at hw
      obtain ⟨e, he⟩ := channelRead_cut (fun n hn => hw n (Or.inl (Or.inr hn))) (hw m (Or.inr (Or.inl rfl))) hf hp hq
      have hr := run_groups (fun n hn => hw n (Or.inl (Or.inl hn))) ((frames g ++ p) :: us)
      refine absurd (hquiet (some e) ?_) (by simp)
      rw [hr]
      simp only [run, he, List.mem_append, List.mem_cons, true_or, or_true]
  · rintro ⟨groups, rfl, rfl⟩
    have hr := run_groups hw []
    rw [List.append_nil] at hr
    rw [Clean, hr]
    exact ⟨by simp [run], by simp [run], rfl⟩

/-- Two frames in one read arrive. -/
theorem clean_coalesced :
    Clean [EchoClientHandler.channelActive, EchoServerHandler.reply]
      [frames [EchoClientHandler.channelActive, EchoServerHandler.reply]] :=
  (clean_iff [EchoClientHandler.channelActive, EchoServerHandler.reply]
    (by simp only [List.mem_cons, List.not_mem_nil, or_false]; rintro m (rfl | rfl)
        exacts [wellFormed_endpoints.1, wellFormed_endpoints.2]) _ (List.append_nil _)).mpr
    ⟨[[EchoClientHandler.channelActive, EchoServerHandler.reply]], rfl, rfl⟩

/-- The client's frame cut after 50 bytes is lost: the first read takes the head and
    throws, and the second finds no tag. -/
theorem not_clean_cut :
    let m := EchoClientHandler.channelActive
    let chunks := [(frame m).take 50, (frame m).drop 50]
    WellFormed m ∧ [] ∉ chunks ∧ chunks.flatten = frames [m] ∧ (run messageDecoder none chunks).fired = [] ∧
      ¬ Clean [m] chunks := by
  have hfired : (run messageDecoder none [(frame EchoClientHandler.channelActive).take 50,
    (frame EchoClientHandler.channelActive).drop 50]).fired = [] := by decide
  refine ⟨wellFormed_endpoints.1, by decide, by decide, hfired, ?_⟩
  rintro ⟨h, -⟩
  rw [hfired] at h
  cases h

/-! ## One read with a cut tail -/

/-- One read of whole frames and a proper start of another passes on the messages of the
    whole ones, each once and in order; it throws exactly when that start is not empty. -/
theorem coalesced_tail (ms : List Message) (hw : ∀ n ∈ ms, WellFormed n) (m : Message) (hm : WellFormed m)
    (p : List UInt8) (hp : p <+: frame m) (hne : p ≠ frame m) :
    (channelRead messageDecoder none (frames ms ++ p)).fired = ms.map Message.tagged ∧
      ((channelRead messageDecoder none (frames ms ++ p)).thrown ≠ none ↔ p ≠ []) := by
  obtain ⟨q, hq⟩ := hp
  have hq0 : q ≠ [] := by
    intro h
    rw [h, List.append_nil] at hq
    exact hne hq
  by_cases hp0 : p = []
  · rw [hp0, List.append_nil, channelRead_frames hw]
    simp
  · obtain ⟨e, d, hl⟩ : ∃ e d, Loop messageDecoder p [] (some e) d := by
      rcases loop_partial hm hq.symm hp0 hq0 with hl | ⟨d, -, -, hl⟩
      · exact ⟨_, _, hl⟩
      · exact ⟨_, _, hl⟩
    have hl := loop_frames hw hl
    rw [List.append_nil] at hl
    obtain ⟨c, hr, -⟩ := Loop.channelRead (c := none) hl
    have hr : channelRead messageDecoder none (frames ms ++ p) = ⟨c, ms.map Message.tagged, some e⟩ := hr
    rw [hr]
    exact ⟨rfl, by simp [hp0]⟩

/-- The client's frame and the first 50 bytes of the server's. -/
theorem coalesced_tail_channelActive :
    (channelRead messageDecoder none
        (frames [EchoClientHandler.channelActive] ++ (frame EchoServerHandler.reply).take 50)).fired =
        [EchoClientHandler.channelActive].map Message.tagged ∧
      ((channelRead messageDecoder none
        (frames [EchoClientHandler.channelActive] ++ (frame EchoServerHandler.reply).take 50)).thrown ≠ none ↔
        (frame EchoServerHandler.reply).take 50 ≠ []) :=
  coalesced_tail [EchoClientHandler.channelActive]
    (by intro m hm; rw [List.mem_singleton.mp hm]; exact wellFormed_endpoints.1)
    EchoServerHandler.reply wellFormed_endpoints.2 _ (List.take_prefix _ _) (by decide)

/-! ## A frame before another -/

/-- Where the loop passes messages on, the first is the one at the front; the rest come
    from the bytes behind its frame. -/
theorem accepts_of_fired {b : ByteBuf} {a : Message} {xs : List Message}
    (h : (callDecode messageDecoder b).fired = a :: xs) :
    Accepts b.readable ∧ a = messageOf b.readable ∧
      xs = (callDecode messageDecoder (b.skip (45 + (lengthField b.readable).toNat))).fired := by
  rw [callDecode_eq] at h
  split at h
  · cases h
  by_cases ha : Accepts b.readable
  · have hd : messageDecoder.decode ⟨b, []⟩ = _ := decode_accepts (s := ⟨b, []⟩) ha
    have hle := accepts_le ha
    have hlen : (b.skip (45 + (lengthField b.readable).toNat)).readable.length ≠ b.readable.length := by
      rw [ByteBuf.readable_skip, List.length_drop]; omega
    rw [hd] at h
    simp only [if_neg hlen, Pass.after, List.nil_append, List.cons_append, List.cons.injEq] at h
    exact ⟨ha, h.1.symm, h.2.symm⟩
  · have hd : messageDecoder.decode ⟨b, []⟩ = _ := decode_rejects (s := ⟨b, []⟩) ha
    rw [hd] at h
    cases h

/-- The loop over both frames passes on two messages: one with `m`'s session id, command
    and data, then `m2`. -/
def SelfDelimiting (m m2 : Message) : Prop :=
  ∃ a, (callDecode messageDecoder (.wrap (frame m ++ frame m2))).fired = [a, m2.tagged] ∧
    a.header.sessionid = m.header.sessionid ∧ a.header.cammand = m.header.cammand ∧ a.data = m.data

/-- A text read back from the front of its bytes, with a frame left behind it, took exactly its
    bytes: fewer leave a byte that is no tag, more are not the text. -/
theorem length_fits {s : JString} (hs : Paired s) {t : List UInt8} {n : Nat}
    (h : newString ((getBytes s ++ t).take n) = s) (ht : t ≠ [])
    (ha : Accepts ((getBytes s ++ t).drop n)) : n = (getBytes s).length := by
  rcases Nat.lt_trichotomy n (getBytes s).length with hlt | heq | hgt
  · rw [List.take_append_of_le_length (by omega)] at h
    rcases high_of_newString_cut hs (List.take_append_drop n (getBytes s)).symm h with hv | ⟨b, r, hv, hb⟩
    · have := congrArg List.length hv
      rw [List.length_drop, List.length_nil] at this
      omega
    · have htag := ha.2.1
      rw [List.drop_append_of_le_length (by omega), hv] at htag
      have htag : b = PACKAGE_TAG := htag
      rw [htag] at hb
      exact absurd hb (by decide)
  · exact heq
  · rw [List.take_append, List.take_of_length_le (by omega)] at h
    have := congrArg List.length (eq_nil_of_newString hs h)
    rw [List.length_take, List.length_nil] at this
    have := List.length_pos_iff.mpr ht
    omega

/-- Before the frame of a well-formed message, a frame is one message of its own exactly
    when its message is well formed. -/
theorem selfDelimiting_iff (m m2 : Message) (hw2 : WellFormed m2) : SelfDelimiting m m2 ↔ WellFormed m := by
  constructor
  · intro h
    obtain ⟨a, hfired, hsid, -, hdata⟩ := h
    obtain ⟨ha, rfl, hrest⟩ := accepts_of_fired hfired
    obtain ⟨ha2, -, -⟩ := accepts_of_fired hrest.symm
    rw [ByteBuf.readable_skip] at ha2
    simp only [ByteBuf.readable_wrap] at ha hsid hdata ha2
    have hs : Paired m.header.sessionid := by rw [← hsid]; exact (paired_messageOf _).1
    have hd : Paired m.data := by rw [← hdata]; exact (paired_messageOf _).2
    have h32 := session_fits_frame (frame m2) hs ha hsid
    have hf : frame m ++ frame m2 = head m ++ (getBytes m.data ++ frame m2) := by rw [frame_eq, List.append_assoc]
    have hl : lengthField (frame m ++ frame m2) = m.header.length.toInt := by rw [hf, lengthField, length_at h32]
    rw [hl, hf, ← List.drop_drop, drop_head h32] at ha2
    rw [hf, messageOf_head h32] at hdata
    have hn := length_fits hd hdata (frame_ne_nil m2) ha2
    rw [hf, accepts_head h32] at ha
    exact ⟨hs, hd, h32, by omega⟩
  · intro hw
    have hl : Loop messageDecoder (frames [m, m2] ++ []) ([m, m2].map Message.tagged ++ []) none [] :=
      loop_frames (by simp [hw, hw2]) .done
    have hf : frames [m, m2] ++ [] = frame m ++ frame m2 := by simp [frames]
    rw [hf] at hl
    obtain ⟨b', hp, -⟩ := hl.callDecode (.wrap (frame m ++ frame m2)) rfl
    exact ⟨m.tagged, congrArg Pass.fired hp, rfl, rfl, rfl⟩

theorem selfDelimiting_channelActive : SelfDelimiting EchoClientHandler.channelActive EchoServerHandler.reply :=
  (selfDelimiting_iff EchoClientHandler.channelActive EchoServerHandler.reply wellFormed_endpoints.2).mpr
    wellFormed_endpoints.1

/-- With the header's default length the data "hi" is not a message: the length runs past
    the data and the frame behind it. -/
theorem not_selfDelimiting_default :
    WellFormed EchoClientHandler.channelActive ∧
      ¬ SelfDelimiting ⟨Header.ofSessionid sessionid, literal "hi"⟩ EchoClientHandler.channelActive := by
  refine ⟨wellFormed_endpoints.1, ?_⟩
  intro h
  obtain ⟨a, hfired, -⟩ := h
  obtain ⟨ha, -⟩ := accepts_of_fired hfired
  rw [ByteBuf.readable_wrap, frame_eq, List.append_assoc, accepts_head length_sessionid] at ha
  exact absurd ha.2 (by decide)

end NettyStudy.Echo
