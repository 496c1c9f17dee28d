/-
  NettyStudy.Echo.RoundTrip — what MessageDecoder reads from the bytes MessageEncoder
  writes. The encoder puts the session id and the length into the frame as the caller
  gave them; only where they fit the frame does decode undo encode.

  A message is `WellFormed` when its session id is 32 bytes in UTF-8 and its header's
  length is the number of UTF-8 bytes of its data.

  Proved, with UTF-8 as the platform's default charset:
  - `decode_frame`: decode undoes encode on a well-formed message, whatever follows.
  - `session_fits`: a frame accepted with the sender's session id has its 32 bytes.
  - `wellFormed_endpoints`: what the echo endpoints send is well formed.
  - `decode_encode_iff`: decode undoes encode exactly on the well-formed messages.
-/

import NettyStudy.Echo.Message

namespace NettyStudy.Echo

open NettyStudy.Text NettyStudy.Netty

/-- What the encoder writes where UTF-8 is the platform's default charset. -/
def frame (m : Message) : List UInt8 := MessageEncoder.encode getBytes m

/-- The session id and the data have a UTF-8 form, which unpaired surrogates have not;
    that of the session id is 32 bytes, that of the data as long as the header says. -/
structure WellFormed (m : Message) : Prop where
  session_paired : Paired m.header.sessionid
  data_paired : Paired m.data
  session_length : (getBytes m.header.sessionid).length = 32
  length_eq : m.header.length.toInt = (getBytes m.data).length

/-- The message as the decoder passes it on: the encoder writes `PACKAGE_TAG` whatever
    the header's tag. -/
def Message.tagged (m : Message) : Message := { m with header := { m.header with tag := PACKAGE_TAG } }

/-! ## The head -/

def flags (m : Message) : List UInt8 :=
  [PACKAGE_TAG, m.header.encode, m.header.encrypt, m.header.extend1, m.header.extend2]

def head (m : Message) : List UInt8 :=
  flags m ++ getBytes m.header.sessionid ++ intBytes m.header.length ++ intBytes m.header.cammand

theorem frame_eq (m : Message) : frame m = head m ++ getBytes m.data := rfl

variable {m : Message} (h32 : (getBytes m.header.sessionid).length = 32) (tail : List UInt8)

include h32

theorem length_head : (head m).length = 45 := by simp [head, flags, h32]

theorem drop_head : (head m ++ tail).drop 45 = tail := by
  rw [← length_head h32, List.drop_left]

theorem length_at : intAt (head m ++ tail) 37 = m.header.length := by
  have := intAt_append (flags m ++ getBytes m.header.sessionid) m.header.length (intBytes m.header.cammand ++ tail)
  simpa [head, flags, h32] using this

theorem cammand_at : intAt (head m ++ tail) 41 = m.header.cammand := by
  have := intAt_append (flags m ++ getBytes m.header.sessionid ++ intBytes m.header.length) m.header.cammand tail
  simpa [head, flags, h32] using this

theorem session_at : ((head m ++ tail).drop 5).take 32 = getBytes m.header.sessionid := by
  show (getBytes m.header.sessionid ++ intBytes m.header.length ++ intBytes m.header.cammand ++ tail).take 32 = _
  rw [← h32, List.append_assoc, List.append_assoc, List.take_left]

theorem headerOf_head :
    headerOf (head m ++ tail) =
      { m.header with tag := PACKAGE_TAG, sessionid := newString (getBytes m.header.sessionid) } := by
  rw [headerOf, length_at h32, cammand_at h32, session_at h32]
  rfl

theorem accepts_head :
    Accepts (head m ++ tail) ↔ 0 ≤ m.header.length.toInt ∧ m.header.length.toInt ≤ tail.length := by
  unfold Accepts lengthField
  rw [length_at h32, List.length_append, length_head h32]
  have ht : (head m ++ tail).getD 0 0 = PACKAGE_TAG := rfl
  rw [ht]
  unfold HEAD_LENGHT
  exact ⟨fun ⟨_, _, h0, hl⟩ => ⟨h0, by omega⟩, fun ⟨h0, hl⟩ => ⟨by omega, rfl, h0, by omega⟩⟩

theorem messageOf_head :
    messageOf (head m ++ tail) =
      ⟨{ m.header with tag := PACKAGE_TAG, sessionid := newString (getBytes m.header.sessionid) },
        newString (tail.take m.header.length.toInt.toNat)⟩ := by
  rw [messageOf, headerOf_head h32, drop_head h32, lengthField, length_at h32]

omit h32

/-! ## Well-formed messages -/

theorem length_frame (hw : WellFormed m) : (frame m).length = 45 + (getBytes m.data).length := by
  rw [frame_eq, List.length_append, length_head hw.session_length]

theorem lengthField_frame (hw : WellFormed m) : lengthField (frame m ++ tail) = (getBytes m.data).length := by
  rw [frame_eq, List.append_assoc, lengthField, length_at hw.session_length, hw.length_eq]

theorem accepts_frame (hw : WellFormed m) : Accepts (frame m ++ tail) := by
  rw [frame_eq, List.append_assoc, accepts_head hw.session_length, hw.length_eq, List.length_append]
  omega

theorem messageOf_frame (hw : WellFormed m) : messageOf (frame m ++ tail) = m.tagged := by
  rw [frame_eq, List.append_assoc, messageOf_head hw.session_length, hw.length_eq, Int.toNat_natCast, List.take_left,
    newString_getBytes hw.session_paired, newString_getBytes hw.data_paired]
  rfl

/-- Decode undoes encode on a well-formed message, whatever follows it. -/
theorem decode_frame (hw : WellFormed m) {b : ByteBuf} (out : List Message) (hb : b.readable = frame m ++ tail) :
    MessageDecoder.decode ⟨b, out⟩ = .ok () ⟨b.skip (frame m).length, out ++ [m.tagged]⟩ := by
  have ha : Accepts b.readable := by rw [hb]; exact accepts_frame tail hw
  have h := decode_accepts (s := ⟨b, out⟩) ha
  simp only [hb] at h
  rwa [messageOf_frame tail hw, lengthField_frame tail hw, Int.toNat_natCast, ← length_frame hw] at h

theorem decodes_frame (hw : WellFormed m) : Decodes messageDecoder (frame m ++ tail) [m.tagged] tail :=
  fun b hb => ⟨_, decode_frame tail hw [] hb, by rw [ByteBuf.readable_skip, hb, List.drop_left]⟩

/-! ## The session slot -/

/-- In an accepted frame read with the session id `s` that was written, `s` fills the
    slot: a shorter one is followed by bytes of the ints, a longer one is cut inside a
    U+FFFD and makes the length negative. -/
theorem session_fits {s : JString} (hs : Paired s) {u t : List UInt8} (hu : u.length = 5)
    (ha : Accepts (u ++ getBytes s ++ t)) (h : newString (((u ++ getBytes s ++ t).drop 5).take 32) = s) :
    (getBytes s).length = 32 := by
  obtain ⟨h45, -, h0, -⟩ := ha
  have hd : (u ++ getBytes s ++ t).drop 5 = getBytes s ++ t := by rw [List.append_assoc, ← hu, List.drop_left]
  rw [hd] at h
  have hlen : (u ++ getBytes s ++ t).length = 5 + (getBytes s).length + t.length := by simp [hu]; omega
  unfold HEAD_LENGHT at h45
  rcases Nat.lt_trichotomy (getBytes s).length 32 with hlt | heq | hgt
  · rw [List.take_append, List.take_of_length_le (by omega)] at h
    have := congrArg List.length (eq_nil_of_newString hs h)
    rw [List.length_take, List.length_nil] at this
    omega
  · exact heq
  · rw [List.take_append_of_le_length (by omega)] at h
    rcases high_of_newString_cut hs (List.take_append_drop 32 (getBytes s)).symm h with hv | ⟨b, r, hv, hb⟩
    · have := congrArg List.length hv
      rw [List.length_drop, List.length_nil] at this
      omega
    · have hb' : (u ++ getBytes s ++ t).getD 37 0 = b := by
        have h1 := getD_drop (u ++ getBytes s ++ t) 5 32
        have h2 := getD_drop (getBytes s ++ t) 32 0
        rw [List.drop_append_of_le_length (by omega), hv] at h2
        rw [hd, ← h2] at h1
        exact h1.symm
      have : (intAt (u ++ getBytes s ++ t) 37).toInt < 0 := intAt_neg (by rw [hb']; exact hb)
      unfold lengthField at h0
      omega

theorem session_fits_frame (hs : Paired m.header.sessionid) (ha : Accepts (frame m ++ tail))
    (h : (messageOf (frame m ++ tail)).header.sessionid = m.header.sessionid) :
    (getBytes m.header.sessionid).length = 32 := by
  have hf : frame m ++ tail = flags m ++ getBytes m.header.sessionid ++
      (intBytes m.header.length ++ intBytes m.header.cammand ++ getBytes m.data ++ tail) := by
    simp [frame_eq, head]
  rw [hf] at ha h
  exact session_fits hs rfl ha h

/-! ## The echo endpoints -/

def sessionid : JString := literal "713f17ca614361fb257dc6741332caf2"

theorem length_sessionid : (getBytes sessionid).length = 32 := by decide

/-- The message of both echo endpoints, around its content. -/
def fixedMessage (content : JString) : Message :=
  ⟨{ tag := 0, encode := 1, encrypt := 1, extend1 := 1, extend2 := 0,
     sessionid := sessionid,
     length := Int32.ofNat (getBytes content).length, cammand := 1 }, content⟩

/-- What `EchoClientHandler` writes on activation. -/
def EchoClientHandler.channelActive : Message :=
  fixedMessage (literal "EchoClientHandler hello world ,this is netty client !")

/-- What `EchoServerHandler` writes for every message it reads, whatever it says. -/
def EchoServerHandler.reply : Message := fixedMessage (literal "Hello world ,this is netty server!")

theorem wellFormed_fixed {content : JString} (hp : Paired content) (hl : (getBytes content).length < 0x80000000) :
    WellFormed (fixedMessage content) where
  session_paired := paired_literal _
  data_paired := hp
  session_length := length_sessionid
  length_eq := Int32.toInt_ofNat_of_lt hl

theorem wellFormed_endpoints : WellFormed EchoClientHandler.channelActive ∧ WellFormed EchoServerHandler.reply :=
  ⟨wellFormed_fixed (paired_literal _) (by decide), wellFormed_fixed (paired_literal _) (by decide)⟩

/-! ## Exactness -/

open MessageDecoder (decode)

/-- On a message without unpaired surrogates decode undoes encode, before whatever
    follows, exactly when the session id is 32 bytes and the length is the data's. -/
theorem decode_encode_iff (m : Message) (hs : Paired m.header.sessionid) (hd : Paired m.data) :
    (∀ rest b out, b.readable = frame m ++ rest →
      ∃ b', decode ⟨b, out⟩ = .ok () ⟨b', out ++ [m.tagged]⟩ ∧ b'.readable = rest) ↔
    (getBytes m.header.sessionid).length = 32 ∧ m.header.length.toInt = (getBytes m.data).length := by
  constructor
  · intro h
    obtain ⟨b', h, hb'⟩ := h [] (.wrap (frame m)) [] (by simp)
    obtain ⟨ha, hst⟩ := of_decode_ok h
    have ha : Accepts (frame m ++ []) := by simpa using ha
    simp only [ByteBuf.readable_wrap, List.nil_append, DecodeSt.mk.injEq, List.cons.injEq, and_true] at hst
    obtain ⟨rfl, hm⟩ := hst
    have h32 := session_fits_frame [] hs ha (by rw [List.append_nil, ← hm]; rfl)
    refine ⟨h32, ?_⟩
    rw [frame_eq, List.append_assoc, accepts_head h32, List.append_nil] at ha
    have hl : lengthField (frame m) = m.header.length.toInt := by rw [frame_eq, lengthField, length_at h32]
    have hlen := congrArg List.length hb'
    rw [ByteBuf.readable_skip, ByteBuf.readable_wrap, List.length_drop, hl, frame_eq, List.length_append,
      length_head h32, List.length_nil] at hlen
    omega
  · rintro ⟨h32, hl⟩ rest b out hb
    exact ⟨_, decode_frame rest ⟨hs, hd, h32, hl⟩ out hb, by rw [ByteBuf.readable_skip, hb, List.drop_left]⟩

/-- It does for what `EchoClientHandler` sends, here before the first byte of another frame. -/
theorem decode_encode_channelActive :
    ∃ b', decode ⟨.wrap (frame EchoClientHandler.channelActive ++ [PACKAGE_TAG]), []⟩ =
      .ok () ⟨b', [EchoClientHandler.channelActive.tagged]⟩ ∧ b'.readable = [PACKAGE_TAG] :=
  (decode_encode_iff EchoClientHandler.channelActive (paired_literal _) (paired_literal _)).mpr
    ⟨wellFormed_endpoints.1.session_length, wellFormed_endpoints.1.length_eq⟩ [PACKAGE_TAG] _ [] rfl

end NettyStudy.Echo
