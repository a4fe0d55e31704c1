import Sankaku.Proofs.RepetitionWirehair
import Sankaku.Proofs.SenderSpec
import Sankaku.Proofs.StreamSlot

namespace Sankaku
open LittleEndian

/-- The payload length a packet declares, at its fixed place. -/
def audioPayloadLen (packet : Bytes) : Nat := ofLE ((packet.drop 26).take 4)

/-- The prefix is complete, the codec is known, and the declared payload is there. -/
structure HoldsAudio (packet : Bytes) : Prop where
  full : audioPrefixSize ≤ packet.length
  codec : isSupportedAudioCodec (packet.getD 21 0) = true
  nonempty : 0 < audioPayloadLen packet
  fits : audioPayloadLen packet ≤ (packet.drop audioPrefixSize).length

instance HoldsAudio.decide (packet : Bytes) : Decidable (HoldsAudio packet) :=
  decidable_of_iff (audioPrefixSize ≤ packet.length ∧
      isSupportedAudioCodec (packet.getD 21 0) = true ∧ 0 < audioPayloadLen packet ∧
      audioPayloadLen packet ≤ (packet.drop audioPrefixSize).length)
    ⟨fun h => ⟨h.1, h.2.1, h.2.2.1, h.2.2.2⟩, fun h => ⟨h.full, h.codec, h.nonempty, h.fits⟩⟩

/-- The seven fields at their offsets. -/
def audioFrameOf (packet : Bytes) : InboundAudioFrame where
  sessionId := UInt64.ofNat (ofLE ((packet.drop 1).take 8))
  streamId := UInt32.ofNat (ofLE ((packet.drop 9).take 4))
  timestampUs := UInt64.ofNat (ofLE ((packet.drop 13).take 8))
  codec := packet.getD 21 0
  framesPerPacket := UInt32.ofNat (ofLE ((packet.drop 22).take 4))
  payload := (packet.drop audioPrefixSize).take (audioPayloadLen packet)

/-- Every `get` of the handler is inside a string that has the prefix. -/
theorem slice?_header (h : audioPrefixSize ≤ packet.length) (hab : a ≤ b) (hb : b ≤ 30) :
    slice? packet a b = some ((packet.drop a).take (b - a)) :=
  slice?_isSome packet hab (hb.trans h)

theorem parseU64Le_slice (h : audioPrefixSize ≤ packet.length) (hb : a + 8 ≤ 30) :
    (slice? packet a (a + 8)).bind parseU64Le =
      some (UInt64.ofNat (ofLE ((packet.drop a).take 8))) := by
  have hlen : ((packet.drop a).take 8).length = 8 := by
    rw [List.length_take, List.length_drop]
    have : 30 ≤ packet.length := h
    omega
  rw [slice?_header h (by omega) hb, Nat.add_sub_cancel_left, Option.bind_some, parseU64Le,
    if_pos hlen]

theorem parseU32Le_slice (h : audioPrefixSize ≤ packet.length) (hb : a + 4 ≤ 30) :
    (slice? packet a (a + 4)).bind parseU32Le =
      some (UInt32.ofNat (ofLE ((packet.drop a).take 4))) := by
  have hlen : ((packet.drop a).take 4).length = 4 := by
    rw [List.length_take, List.length_drop]
    have : 30 ≤ packet.length := h
    omega
  rw [slice?_header h (by omega) hb, Nat.add_sub_cancel_left, Option.bind_some, parseU32Le,
    if_pos hlen]

/-- The declared length goes through a `u32` unchanged. -/
theorem audioPayloadLen_toNat (packet : Bytes) :
    (UInt32.ofNat (audioPayloadLen packet)).toNat = audioPayloadLen packet := by
  have hlt := ofLE_lt ((packet.drop 26).take 4)
  have hlen : ((packet.drop 26).take 4).length ≤ 4 := List.length_take_le _ _
  have hpow : 256 ^ ((packet.drop 26).take 4).length ≤ 256 ^ 4 :=
    Nat.pow_le_pow_right (by decide) hlen
  rw [UInt32.toNat_ofNat']
  exact Nat.mod_eq_of_lt (lt_of_lt_of_le hlt hpow)

/-- A string with the prefix is parsed just if it holds an audio frame. -/
theorem parseAudioPacket_eq (h : audioPrefixSize ≤ packet.length) :
    parseAudioPacket packet = if HoldsAudio packet then some (audioFrameOf packet) else none := by
  have hcodec : packet[21]? = some (packet.getD 21 0) := by
    rw [List.getD_eq_getElem?_getD]
    have hlt : 21 < packet.length := lt_of_lt_of_le (by decide) h
    rw [List.getElem?_eq_getElem hlt, Option.getD_some]
  have hlen := audioPayloadLen_toNat packet
  have hdrop : (packet.drop audioPrefixSize).length = packet.length - audioPrefixSize :=
    List.length_drop
  have hpayloadLen : UInt32.ofNat (ofLE ((packet.drop 26).take 4)) =
    UInt32.ofNat (audioPayloadLen packet) := rfl
  unfold parseAudioPacket
  simp only [parseU64Le_slice h (a := 1) (by decide), parseU32Le_slice h (a := 9) (by decide),
    parseU64Le_slice h (a := 13) (by decide), parseU32Le_slice h (a := 22) (by decide),
    parseU32Le_slice h (a := 26) (by decide), hcodec, Option.bind_eq_bind, Option.bind_some,
    hpayloadLen, hlen]
  have hrange : audioPrefixSize + audioPayloadLen packet > packet.length ↔
      ¬ audioPayloadLen packet ≤ (packet.drop audioPrefixSize).length := by
    rw [hdrop]
    omega
  by_cases holds : HoldsAudio packet
  · rw [if_pos holds, if_neg (by rw [holds.codec]; decide), if_neg (Nat.ne_of_gt holds.nonempty),
      if_neg (fun past => hrange.mp past holds.fits)]
    rfl
  · rw [if_neg holds]
    split
    · rfl
    rename_i codec
    split
    · rfl
    rename_i nonempty
    split
    · rfl
    · rename_i inside
      rw [hrange, not_not] at inside
      exact absurd ⟨h, by simpa using codec, Nat.pos_of_ne_zero nonempty, inside⟩ holds

/-- What the handler hands over for any string. -/
theorem handleAudioPacket_out (R : SankakuReceiver) (rt : ReceiverRuntime W) (packet : Bytes) :
    (handleAudioPacket R rt packet).out =
      if R.audioTx ∧ HoldsAudio packet then [.audio (audioFrameOf packet)] else [] := by
  unfold handleAudioPacket
  split
  · rename_i short
    rw [if_neg (fun h => absurd h.2.full (by omega))]
    rfl
  · rename_i long
    have h : audioPrefixSize ≤ packet.length := by omega
    obtain ⟨session, hsession⟩ :=
      handshake_session R rt (UInt64.ofNat (ofLE ((packet.drop 1).take 8)))
    rw [parseU64Le_slice h (a := 1) (by decide), parseAudioPacket_eq h]
    by_cases holds : HoldsAudio packet
    · simp only [if_pos holds, hsession, and_iff_left holds]
      split
      · rfl
      · rfl
    · simp only [holds, and_false, ↓reduceIte]
      rfl

section Datagram
variable (sid : UInt64) (id : UInt32) (ts : UInt64) (codec : UInt8) (fpp : UInt32)
  (payload : Bytes)

theorem audioDatagram_len (h : payload.length < 2 ^ 32) :
    audioPayloadLen (audioDatagram sid id ts codec fpp (UInt32.ofNat payload.length) payload) =
      payload.length := by
  have hn : (UInt32.ofNat payload.length).toNat = payload.length := by
    rw [UInt32.toNat_ofNat']
    exact Nat.mod_eq_of_lt h
  have htake : ((audioDatagram sid id ts codec fpp (UInt32.ofNat payload.length) payload).drop
      26).take 4 = le32 (UInt32.ofNat payload.length) := by
    simp [audioDatagram, List.drop_append, List.drop_eq_nil_of_le]
  rw [audioPayloadLen, htake, le32, ofLE_toLE_of_lt (by rw [hn]; omega), hn]

theorem audioDatagram_drop (n : UInt32) :
    (audioDatagram sid id ts codec fpp n payload).drop audioPrefixSize = payload := by
  simp [audioDatagram, audioPrefixSize, List.drop_append, List.drop_eq_nil_of_le]

theorem audioDatagram_codec (n : UInt32) :
    (audioDatagram sid id ts codec fpp n payload).getD 21 0 = codec := by
  have hdrop : (audioDatagram sid id ts codec fpp n payload).drop 21 =
      codec :: (le32 fpp ++ (le32 n ++ payload)) := by
    simp [audioDatagram, List.drop_append, List.drop_eq_nil_of_le]
  rw [List.getD_eq_getElem?_getD, ← Nat.add_zero 21, ← List.getElem?_drop, hdrop]
  rfl

theorem audioDatagram_holds (supported : isSupportedAudioCodec codec = true)
    (nonempty : payload ≠ []) (h : payload.length < 2 ^ 32) :
    HoldsAudio (audioDatagram sid id ts codec fpp (UInt32.ofNat payload.length) payload) where
  full := by
    simp only [audioDatagram, audioPrefixSize, List.length_cons, List.length_append, le64_length,
      le32_length]
    omega
  codec := by rw [audioDatagram_codec, supported]
  nonempty := by
    rw [audioDatagram_len _ _ _ _ _ _ h]
    exact List.length_pos_iff.mpr nonempty
  fits := by
    rw [audioDatagram_len _ _ _ _ _ _ h, audioDatagram_drop]

theorem audioDatagram_frame (h : payload.length < 2 ^ 32) :
    audioFrameOf (audioDatagram sid id ts codec fpp (UInt32.ofNat payload.length) payload) =
      ⟨sid, id, ts, codec, fpp, payload⟩ := by
  have hsid : UInt64.ofNat (ofLE (((audioDatagram sid id ts codec fpp
      (UInt32.ofNat payload.length) payload).drop 1).take 8)) = sid := by
    simp [audioDatagram, le64]
  have hid : UInt32.ofNat (ofLE (((audioDatagram sid id ts codec fpp
      (UInt32.ofNat payload.length) payload).drop 9).take 4)) = id := by
    simp [audioDatagram, le32]
  have hts : UInt64.ofNat (ofLE (((audioDatagram sid id ts codec fpp
      (UInt32.ofNat payload.length) payload).drop 13).take 8)) = ts := by
    simp [audioDatagram, le64, List.drop_append, List.drop_eq_nil_of_le]
  have hfpp : UInt32.ofNat (ofLE (((audioDatagram sid id ts codec fpp
      (UInt32.ofNat payload.length) payload).drop 22).take 4)) = fpp := by
    simp [audioDatagram, le32, List.drop_append, List.drop_eq_nil_of_le]
  rw [audioFrameOf, hsid, hid, hts, hfpp, audioDatagram_codec, audioDatagram_drop,
    audioDatagram_len _ _ _ _ _ _ h, List.take_length]

end Datagram

/-- A call with a payload it can send, on a stream that is free or carries audio,
hands the transport one datagram. -/
theorem sendAudioFrame_sent {s : SankakuSender} {id : UInt32} {env : AudioEnv} (ts : UInt64)
    (fpp : UInt32) (supported : isSupportedAudioCodec codec = true) (nonempty : payload ≠ [])
    (fits : payload.length < 2 ^ 32)
    (session : (s.ensureHandshake env.sessionId).sessionId = some sid)
    (stream : ∀ c, s.streams.context id = some c → c.streamType = .audio)
    (taken : env.sendDatagram = .ok ()) :
    (s.sendAudioFrame id ts codec fpp payload env).sent =
      [audioDatagram sid id ts codec fpp (UInt32.ofNat payload.length) payload] := by
  have hstreams := (SankakuSender.ensureHandshake_spec s env.sessionId).2.2.1
  have hempty : payload.isEmpty = false := by
    cases payload with
    | nil => exact absurd rfl nonempty
    | cons b bs => rfl
  unfold SankakuSender.sendAudioFrame
  simp only [hempty, supported, Bool.not_true, Bool.false_eq_true, ↓reduceIte, hstreams]
  rcases s.streams.ensureWith_cases id .audio
      (s.ensureHandshake env.sessionId).newStreamState with
    ⟨st, _, he⟩ | ⟨_, he⟩ | ⟨c, hc, ht, _⟩
  · simp only [he, session, taken, if_neg (Nat.not_le.mpr fits)]
  · simp only [he, session, taken, if_neg (Nat.not_le.mpr fits)]
  · exact absurd (stream c hc) ht

/-- The audio wire format. A datagram that `send_audio_frame` built is handed over as
one frame with the values it was built from. Any string is handed over just if it has
the prefix, a supported codec, and a declared length that is not zero and not beyond
its end; the payload is the bytes in that range, which lies within the string. -/
theorem audio_wire_format (R : SankakuReceiver) (rt : ReceiverRuntime W) :
    (∀ (s : SankakuSender) sid id ts codec fpp payload (env : AudioEnv),
      isSupportedAudioCodec codec = true → payload ≠ [] → payload.length < 2 ^ 32 →
      (s.ensureHandshake env.sessionId).sessionId = some sid →
      (∀ c, s.streams.context id = some c → c.streamType = .audio) →
      env.sendDatagram = .ok () →
      ∃ packet, (s.sendAudioFrame id ts codec fpp payload env).sent = [packet] ∧
        (handleAudioPacket R rt packet).out =
          if R.audioTx then [.audio ⟨sid, id, ts, codec, fpp, payload⟩] else []) ∧
    (∀ packet, (handleAudioPacket R rt packet).out =
      if R.audioTx ∧ HoldsAudio packet then [.audio (audioFrameOf packet)] else []) ∧
    (∀ packet, HoldsAudio packet →
      slice? packet audioPrefixSize (audioPrefixSize + audioPayloadLen packet) =
        some (audioFrameOf packet).payload ∧
      (audioFrameOf packet).payload.length = audioPayloadLen packet) := by
  refine ⟨?_, handleAudioPacket_out R rt, fun packet holds => ?_⟩
  · intro s sid id ts codec fpp payload env supported nonempty fits session stream taken
    refine ⟨_, sendAudioFrame_sent ts fpp supported nonempty fits session stream taken, ?_⟩
    rw [handleAudioPacket_out, audioDatagram_frame _ _ _ _ _ _ fits]
    simp only [audioDatagram_holds sid id ts codec fpp payload supported nonempty fits, and_true]
  · have fits := holds.fits
    have full := holds.full
    rw [List.length_drop] at fits
    refine ⟨?_, ?_⟩
    · rw [slice?_isSome packet (Nat.le_add_right _ _) (by omega), Nat.add_sub_cancel_left]
      rfl
    · rw [audioFrameOf, List.length_take, List.length_drop]
      exact min_eq_left fits

/-- A first Opus packet of three bytes. -/
theorem audio_wire_format_opus :
    ∃ packet, ((SankakuSender.new .default 7).sendAudioFrame 2 20000 audioCodecOpus 960 [1, 2, 3]
        ⟨5, .ok ()⟩).sent = [packet] ∧
      (handleAudioPacket ⟨.disabled, [], true⟩ (.default .repetition) packet).out =
        [.audio ⟨5, 2, 20000, audioCodecOpus, 960, [1, 2, 3]⟩] :=
  (audio_wire_format ⟨.disabled, [], true⟩ (.default .repetition)).1 _ 5 2 20000 audioCodecOpus 960
    [1, 2, 3] ⟨5, .ok ()⟩ rfl (by decide) (by decide) rfl (fun c h => by cases h) rfl

end Sankaku
