/-
  NettyStudy.Echo.Reencode — MessageEncoder after MessageDecoder, and MessageEncoder on
  two platforms.

  Reading a frame's session id and payload as text loses what is not UTF-8, and what is
  written in its place may be longer: the fields behind it move. Only the session id is
  written with the platform's default charset; the payload is always UTF-8, and the
  decoder reads both as UTF-8.

  Proved:
  - `frame_messageOf_iff`: encode writes the bytes a message was decoded from exactly when
    the session id slot and the payload are well-formed UTF-8.
  - `platformFree_iff`: all default charsets that write ASCII as ASCII write the same frame
    exactly where the session id is ASCII, and it is read back exactly where it is also 32
    characters long; over all charsets frames are the same only for an empty id.
-/

import NettyStudy.Echo.RoundTrip
import NettyStudy.Text.Charset

namespace NettyStudy.Echo

open NettyStudy.Text NettyStudy.Netty

/-! ## Encode after decode -/

/-- The session id slot of the frame at the front. -/
def sessionSlot (r : List UInt8) : List UInt8 := (r.drop 5).take 32

def payload (r : List UInt8) : List UInt8 := (r.drop 45).take (lengthField r).toNat

/-- A whole frame's bytes, field by field. -/
theorem take_fields {r : List UInt8} (h : Accepts r) :
    r.take (45 + (lengthField r).toNat) = [PACKAGE_TAG, r.getD 1 0, r.getD 2 0, r.getD 3 0, r.getD 4 0] ++
      (sessionSlot r ++ (intBytes (intAt r 37) ++ (intBytes (intAt r 41) ++ payload r))) := by
  have hle := accepts_le h
  have h5 : r.take 5 = [PACKAGE_TAG, r.getD 1 0, r.getD 2 0, r.getD 3 0, r.getD 4 0] := by
    rw [← h.2.1]
    rcases r with _ | ⟨b0, _ | ⟨b1, _ | ⟨b2, _ | ⟨b3, _ | ⟨b4, r⟩⟩⟩⟩⟩
    all_goals first
      | rfl
      | (simp only [List.length_cons, List.length_nil] at hle; omega)
  have h37 : (r.drop 37).take 4 = intBytes (intAt r 37) := bytes_of_intAt (by omega)
  have h41 : (r.drop 41).take 4 = intBytes (intAt r 41) := bytes_of_intAt (by omega)
  have ht : 45 + (lengthField r).toNat = 5 + (32 + (4 + (4 + (lengthField r).toNat))) := by omega
  rw [ht, List.take_add, List.take_add, List.take_add, List.take_add, List.drop_drop, List.drop_drop, List.drop_drop,
    h5, h37, h41]
  rfl

theorem frame_messageOf {r : List UInt8} :
    frame (messageOf r) = [PACKAGE_TAG, r.getD 1 0, r.getD 2 0, r.getD 3 0, r.getD 4 0] ++
      (getBytes (newString (sessionSlot r)) ++ (intBytes (intAt r 37) ++ (intBytes (intAt r 41) ++
        getBytes (newString (payload r))))) := by
  rw [frame, MessageEncoder.encode]
  simp only [List.append_assoc]
  rfl

/-- The length of an accepted frame starts with a byte below 0x80. -/
theorem length_low {r : List UInt8} (h : Accepts r) (tail : List UInt8) :
    ∀ b t, intBytes (intAt r 37) ++ tail = b :: t → b.toNat < 0x80 := by
  intro b t hb
  have hle := accepts_le h
  have hb0 : r.getD 37 0 = b := by
    have hd := getD_drop r 37 0
    rw [← bytes_of_intAt (by omega)] at hb
    rcases hr : r.drop 37 with _ | ⟨c, u⟩
    · have hlen := congrArg List.length hr
      rw [List.length_drop, List.length_nil] at hlen
      omega
    · rw [hr] at hb hd
      injection hb with hb _
      rw [← hb]
      exact hd.symm
  apply Classical.byContradiction
  intro hn
  have hneg : (intAt r 37).toInt < 0 := intAt_neg (by rw [hb0]; omega)
  have h0 : 0 ≤ (intAt r 37).toInt := h.2.2.1
  omega

/-- Encode writes the bytes a message was decoded from exactly when its session id slot
    and its payload are each well-formed UTF-8. -/
theorem frame_messageOf_iff (s s' : DecodeSt Message) (m : Message) (h : MessageDecoder.decode s = .ok () s')
    (hm : s'.out = s.out ++ [m]) :
    frame m = s.buf.readable.take (s'.buf.readerIndex - s.buf.readerIndex) ↔
      ValidUtf8 (sessionSlot s.buf.readable) ∧ ValidUtf8 (payload s.buf.readable) := by
  obtain ⟨ha, rfl⟩ := of_decode_ok h
  obtain rfl : messageOf s.buf.readable = m := by simpa using hm
  have hle := accepts_le ha
  have hlen : s.buf.readable.length = s.buf.bytes.length - s.buf.readerIndex := List.length_drop
  have hk : (s.buf.skip (45 + (lengthField s.buf.readable).toNat)).readerIndex - s.buf.readerIndex =
      45 + (lengthField s.buf.readable).toNat := by
    simp only [ByteBuf.skip]
    omega
  rw [hk, take_fields ha, frame_messageOf]
  constructor
  · intro heq
    have heq := List.append_cancel_left heq
    have hs := written_of_append heq (length_low ha _)
    rw [hs] at heq
    have hp := List.append_cancel_left (List.append_cancel_left (List.append_cancel_left heq))
    exact ⟨getBytes_newString_iff.mp hs, getBytes_newString_iff.mp hp⟩
  · rintro ⟨hs, hp⟩
    rw [getBytes_newString_iff.mpr hs, getBytes_newString_iff.mpr hp]

/-- What `EchoClientHandler` sends comes back as its own bytes. -/
theorem frame_messageOf_channelActive :
    frame EchoClientHandler.channelActive = (frame EchoClientHandler.channelActive).take 98 ↔
      ValidUtf8 (sessionSlot (frame EchoClientHandler.channelActive)) ∧
        ValidUtf8 (payload (frame EchoClientHandler.channelActive)) :=
  frame_messageOf_iff ⟨.wrap (frame EchoClientHandler.channelActive), []⟩ _ EchoClientHandler.channelActive.tagged
    (decode_frame [] wellFormed_endpoints.1 [] (by rw [List.append_nil]; rfl)) rfl

/-! ## Two platforms -/

/-- The frame is the same under both default charsets. -/
def PlatformFree (charset charset' : JString → List UInt8) (m : Message) : Prop :=
  MessageEncoder.encode charset m = MessageEncoder.encode charset' m

theorem platformFree_charsets (charset charset' : JString → List UInt8) (m : Message) :
    PlatformFree charset charset' m ↔ charset m.header.sessionid = charset' m.header.sessionid := by
  unfold PlatformFree MessageEncoder.encode
  simp only [List.append_cancel_left_eq, List.append_cancel_right_eq]

/-- The decoder reads the session id that was written: as UTF-8, of the 32 bytes behind the
    five flags. -/
def Recovered (charset : JString → List UInt8) (m : Message) : Prop :=
  newString (sessionSlot (MessageEncoder.encode charset m)) = m.header.sessionid

theorem encode_ascii {charset : JString → List UInt8} (hc : AsciiCompatible charset) {m : Message}
    (h : IsAscii m.header.sessionid) : MessageEncoder.encode charset m = frame m := by
  refine (platformFree_charsets charset getBytes m).mpr ?_
  rw [hc _ h, asciiCompatible_getBytes _ h]

/-- All charsets that write ASCII as ASCII write the same frame exactly for an ASCII id. -/
theorem platformFree_ascii {m : Message} (hs : Paired m.header.sessionid) :
    (∀ charset charset', AsciiCompatible charset → AsciiCompatible charset' → PlatformFree charset charset' m) ↔
      IsAscii m.header.sessionid := by
  constructor
  · intro h
    have hf := h getBytes usAscii asciiCompatible_getBytes (asciiCompatible_singleByte (Nat.le_refl 0x80))
    exact (getBytes_eq_usAscii hs).mp ((platformFree_charsets _ _ m).mp hf)
  · intro h charset charset' hc hc'
    rw [PlatformFree, encode_ascii hc h, encode_ascii hc' h]

/-- All charsets do exactly for an empty id. -/
theorem platformFree_empty {m : Message} (hs : Paired m.header.sessionid) :
    (∀ charset charset' : JString → List UInt8, charset [] = [] → charset' [] = [] →
      PlatformFree charset charset' m) ↔ m.header.sessionid = [] := by
  constructor
  · intro h
    exact eq_nil_of_usAscii hs ((platformFree_charsets _ _ m).mp (h usAscii utf16be rfl rfl))
  · intro h charset charset' hc hc'
    rw [platformFree_charsets, h, hc, hc']

theorem sessionSlot_frame (m : Message) : sessionSlot (frame m) = (getBytes m.header.sessionid ++
    (intBytes m.header.length ++ (intBytes m.header.cammand ++ getBytes m.data))).take 32 := by
  rw [frame_eq, sessionSlot, head, List.append_assoc, List.append_assoc, List.append_assoc]
  rfl

theorem ascii_bytes {s : JString} (h : IsAscii s) :
    (getBytes s).length = s.length ∧ ∀ b ∈ getBytes s, b.toNat < 0x80 := by
  rw [asciiCompatible_getBytes s h]
  refine ⟨List.length_map _, fun b hb => ?_⟩
  obtain ⟨u, hu, rfl⟩ := List.mem_map.mp hb
  have := h u hu
  rw [UInt8.toNat_ofNat']
  omega

/-- An ASCII id is read back exactly where it fills its slot: a shorter one is followed by
    the length's bytes, a longer one is cut. -/
theorem recovered_frame {m : Message} (hs : Paired m.header.sessionid) (h : IsAscii m.header.sessionid) :
    Recovered getBytes m ↔ m.header.sessionid.length = 32 := by
  obtain ⟨hlen, hlow⟩ := ascii_bytes h
  show newString (sessionSlot (frame m)) = _ ↔ _
  rw [sessionSlot_frame, ← hlen]
  constructor
  · intro hr
    rcases Nat.lt_trichotomy (getBytes m.header.sessionid).length 32 with hlt | heq | hgt
    · rw [List.take_append, List.take_of_length_le (by omega)] at hr
      have hnil := congrArg List.length (eq_nil_of_newString hs hr)
      simp only [List.length_take, List.length_append, length_intBytes, List.length_nil] at hnil
      omega
    · exact heq
    · rw [List.take_append_of_le_length (by omega)] at hr
      rcases high_of_newString_cut hs (List.take_append_drop 32 _).symm hr with hv | ⟨b, r, hv, hb⟩
      · have hnil := congrArg List.length hv
        rw [List.length_drop, List.length_nil] at hnil
        omega
      · have hmem : b ∈ (getBytes m.header.sessionid).drop 32 := by rw [hv]; exact List.mem_cons_self
        have := hlow b (List.mem_of_mem_drop hmem)
        omega
  · intro h32
    rw [← h32, List.take_left, newString_getBytes hs]

/-- Where the platforms' charsets write ASCII as ASCII, frames are the same exactly for an
    ASCII id, and its reader recovers it as well exactly where it has 32 characters; the
    decoder then passes on the message. Where they may be any charsets, frames are the same
    exactly for an empty id, which is not recovered. -/
theorem platformFree_iff (m : Message) (hs : Paired m.header.sessionid) :
    ((∀ charset charset', AsciiCompatible charset → AsciiCompatible charset' → PlatformFree charset charset' m) ↔
      IsAscii m.header.sessionid) ∧
    ((∀ charset charset', AsciiCompatible charset → AsciiCompatible charset' →
        PlatformFree charset charset' m ∧ Recovered charset m) ↔
      IsAscii m.header.sessionid ∧ m.header.sessionid.length = 32) ∧
    (IsAscii m.header.sessionid → WellFormed m → ∀ charset, AsciiCompatible charset → ∀ rest b out,
      b.readable = MessageEncoder.encode charset m ++ rest →
      ∃ b', MessageDecoder.decode ⟨b, out⟩ = .ok () ⟨b', out ++ [m.tagged]⟩) ∧
    ((∀ charset charset' : JString → List UInt8, charset [] = [] → charset' [] = [] →
        PlatformFree charset charset' m) ↔ m.header.sessionid = []) ∧
    ¬ ∀ charset charset' : JString → List UInt8, charset [] = [] → charset' [] = [] →
        PlatformFree charset charset' m ∧ Recovered charset m := by
  refine ⟨platformFree_ascii hs, ⟨fun h => ?_, fun ⟨h, h32⟩ charset charset' hc hc' => ?_⟩, ?_, platformFree_empty hs,
    fun h => ?_⟩
  · have hascii := (platformFree_ascii hs).mp fun charset charset' hc hc' => (h charset charset' hc hc').1
    exact ⟨hascii, (recovered_frame hs hascii).mp
      (h getBytes getBytes asciiCompatible_getBytes asciiCompatible_getBytes).2⟩
  · refine ⟨(platformFree_ascii hs).mpr h charset charset' hc hc', ?_⟩
    rw [Recovered, encode_ascii hc h]
    exact (recovered_frame hs h).mpr h32
  · intro h hw charset hc rest b out hb
    rw [encode_ascii hc h] at hb
    exact ⟨_, decode_frame rest hw out hb⟩
  · have hnil := (platformFree_empty hs).mp fun charset charset' hc hc' => (h charset charset' hc hc').1
    have hascii : IsAscii m.header.sessionid := by
      rw [hnil]
      exact fun u hu => absurd hu List.not_mem_nil
    have h32 := (recovered_frame hs hascii).mp (h getBytes getBytes rfl rfl).2
    rw [hnil] at h32
    cases h32

/-- The client's message, whose id has 32 characters, is the same frame on every such platform,
    and its id is recovered. -/
theorem platformFree_channelActive :
    EchoClientHandler.channelActive.header.sessionid.length = 32 ∧
    ∀ charset charset', AsciiCompatible charset → AsciiCompatible charset' →
      PlatformFree charset charset' EchoClientHandler.channelActive ∧
        Recovered charset EchoClientHandler.channelActive :=
  ⟨by decide, (platformFree_iff EchoClientHandler.channelActive (paired_literal _)).2.1.mpr ⟨by decide, by decide⟩⟩

/-- A session id of 32 bytes in UTF-8 that is not ASCII. -/
def accented : Message :=
  ⟨{ tag := 0, encode := 1, encrypt := 1, extend1 := 1, extend2 := 0
     sessionid := literal "é3f17ca614361fb257dc6741332caf2", length := 2, cammand := 1 }, literal "hi"⟩

/-- In ISO-8859-1 it is a byte shorter, and the peer does not accept the frame. -/
theorem not_platformFree_accented :
    WellFormed accented ∧ ¬ PlatformFree getBytes iso8859_1 accented ∧
      ¬ Accepts (MessageEncoder.encode iso8859_1 accented) := by
  refine ⟨⟨paired_literal _, paired_literal _, by decide, by decide⟩, ?_, by decide⟩
  rw [platformFree_charsets]
  decide

end NettyStudy.Echo
