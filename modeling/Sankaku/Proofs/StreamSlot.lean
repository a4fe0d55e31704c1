import Sankaku.Model.Receiver

namespace Sankaku
open LittleEndian Machine

structure StreamKey where
  sessionId : UInt64
  streamId : UInt32
  deriving DecidableEq

/-- What the receiver keeps for one session and stream. -/
abbrev Slot (W : Wirehair) := Option (StreamContext (StreamState W))

variable {W : Wirehair}

def ReceiverRuntime.slot (rt : ReceiverRuntime W) (k : StreamKey) : Slot W :=
  (rt.sessions k.sessionId).bind (fun session => session.streams.context k.streamId)

@[simp] theorem slot_default (k : StreamKey) : (ReceiverRuntime.default W).slot k = none := rfl

/-- A data packet taken apart: session, header, and what follows. -/
def parseDataPacket (packet : Bytes) : Option (UInt64 × DataHeader × Bytes) :=
  if packet.length < dataPrefixSize then none
  else do
    let sessionId ← (slice? packet 1 9).bind parseU64Le
    let wireHeader ← slice? packet 9 dataPrefixSize
    return (sessionId, DataHeader.parse wireHeader, packet.drop dataPrefixSize)

def parseAudioKey (packet : Bytes) : Option StreamKey :=
  if packet.length < audioPrefixSize then none
  else do
    let sessionId ← (slice? packet 1 9).bind parseU64Le
    let streamId ← (slice? packet 9 13).bind parseU32Le
    return ⟨sessionId, streamId⟩

def datagramKey (packet : Bytes) : Option StreamKey :=
  match packet.head?.bind PacketType.fromByte with
  | some .data => (parseDataPacket packet).map (fun d => ⟨d.1, d.2.1.streamId⟩)
  | some .audio => parseAudioKey packet
  | _ => none

def controlKey (packet : Bytes) : Option StreamKey :=
  match packet.head?.bind PacketType.fromByte with
  | some .streamFin =>
    (StreamFinPacket.deserialize (packet.drop 1)).map (fun fin => ⟨fin.sessionId, fin.streamId⟩)
  | _ => none

def RxInput.env : RxInput → RxEnv
  | .datagram env _ => env
  | .control env _ => env

/-- The session and stream a packet carries. A ping carries no stream. -/
def RxInput.isControl : RxInput → Bool
  | .datagram _ _ => false
  | .control _ _ => true

def RxInput.key : RxInput → Option StreamKey
  | .datagram _ packet => datagramKey packet
  | .control _ packet => controlKey packet

def Output.key : Output → Option StreamKey
  | .frame f => some ⟨f.sessionId, f.streamId⟩
  | .audio f => some ⟨f.sessionId, f.streamId⟩
  | .pong _ => none
  | .ack sessionId streamId => some ⟨sessionId, streamId⟩
  | .feedback p => some ⟨p.sessionId, p.streamId⟩
  | .fecFeedback p => some ⟨p.sessionId, p.streamId⟩
  | .telemetry p => some ⟨p.sessionId, p.streamId⟩

/-- One admitted droplet on a slot: the state is made on the first one, a slot
of another type refuses. -/
def slotDroplet (R : SankakuReceiver) (env : RxEnv) (sessionId : UInt64) (h : DataHeader)
    (payload : Bytes) (slot : Slot W) : Outcome (Slot W) Output String :=
  match slot with
  | some context =>
    if context.streamType ≠ .video then
      ⟨slot, [], some (wrongStreamType h.streamId context.streamType .video)⟩
    else
      let received := receiveDroplet env R.buildReceiverPipeline sessionId h payload context.state
      ⟨some ⟨.video, received.state⟩, received.out, received.error⟩
  | none =>
    let received :=
      receiveDroplet env R.buildReceiverPipeline sessionId h payload (StreamState.default W)
    ⟨some ⟨.video, received.state⟩, received.out, received.error⟩

def slotData (R : SankakuReceiver) (env : RxEnv) (slot : Slot W) (packet : Bytes) :
    Outcome (Slot W) Output String :=
  match parseDataPacket packet with
  | none => done slot
  | some (sessionId, h, payloadWithPadding) =>
    match admitDroplet env h payloadWithPadding with
    | none => done slot
    | some payload => slotDroplet R env sessionId h payload slot

def slotAudio (R : SankakuReceiver) (slot : Slot W) (packet : Bytes) :
    Outcome (Slot W) Output String :=
  if packet.length < audioPrefixSize then done slot
  else
    match parseAudioPacket packet with
    | none => done slot
    | some frame =>
      ⟨some (slot.getD ⟨.audio, StreamState.default W⟩),
        if R.audioTx then [.audio frame] else [], none⟩

def slotFin (env : RxEnv) (slot : Slot W) (packet : Bytes) : Outcome (Slot W) Output String :=
  match StreamFinPacket.deserialize (packet.drop 1) with
  | none => done slot
  | some fin =>
    if env.controlOpen then ⟨none, [.ack fin.sessionId fin.streamId], none⟩
    else ⟨none, [], some controlTaskGone⟩

/-- One packet that names the stream, on that stream's slot. -/
def slotStep (R : SankakuReceiver) (slot : Slot W) : RxInput → Outcome (Slot W) Output String
  | .datagram env packet =>
    match packet.head?.bind PacketType.fromByte with
    | some .data => slotData R env slot packet
    | some .audio => slotAudio R slot packet
    | _ => done slot
  | .control env packet =>
    match packet.head?.bind PacketType.fromByte with
    | some .streamFin => slotFin env slot packet
    | _ => done slot

theorem handshake_slot (R : SankakuReceiver) (rt : ReceiverRuntime W) (sid : UInt64)
    (k : StreamKey) : (handleHandshakePacket R rt sid).slot k = rt.slot k := by
  unfold handleHandshakePacket
  cases hs : rt.sessions sid with
  | some session => rfl
  | none =>
    simp only [ReceiverRuntime.slot]
    by_cases hk : k.sessionId = sid
    · rw [hk, Function.update_self, hs]; rfl
    · rw [Function.update_of_ne hk]

theorem handshake_session (R : SankakuReceiver) (rt : ReceiverRuntime W) (sid : UInt64) :
    ∃ session, (handleHandshakePacket R rt sid).sessions sid = some session := by
  unfold handleHandshakePacket
  cases hs : rt.sessions sid with
  | some session => exact ⟨session, hs⟩
  | none => exact ⟨_, Function.update_self ..⟩

theorem slot_session {rt : ReceiverRuntime W} (h : rt.sessions sid = some session) (id : UInt32) :
    rt.slot ⟨sid, id⟩ = session.streams.context id := by
  simp [ReceiverRuntime.slot, h]

theorem setStreams_slot (rt : ReceiverRuntime W) (sid : UInt64) (session : SessionState W)
    (streams : StreamRegistry (StreamState W)) (id : UInt32) :
    (rt.setStreams sid session streams).slot ⟨sid, id⟩ = streams.context id := by
  simp [ReceiverRuntime.slot, ReceiverRuntime.setStreams]

/-- Changing one entry of a session's registry changes one slot. -/
theorem setStreams_slot_other {rt : ReceiverRuntime W} {id : UInt32}
    (h : rt.sessions sid = some session)
    (hr : ∀ id', id' ≠ id → streams.context id' = session.streams.context id')
    (hk : k ≠ ⟨sid, id⟩) : (rt.setStreams sid session streams).slot k = rt.slot k := by
  obtain ⟨ksid, kid⟩ := k
  by_cases hs : ksid = sid
  · subst hs
    have hid : kid ≠ id := fun e => hk (by rw [e])
    rw [setStreams_slot, slot_session h, hr kid hid]
  · simp [ReceiverRuntime.slot, ReceiverRuntime.setStreams, Function.update_of_ne hs]

/-- The handled packet acted on one slot as `p` says, and on no other. -/
structure ActedOn (k : StreamKey) (rt : ReceiverRuntime W) (o : Handled W)
    (p : Outcome (Slot W) Output String) : Prop where
  slot : o.state.slot k = p.state
  out : o.out = p.out
  error : o.error = p.error
  others : ∀ k', k' ≠ k → o.state.slot k' = rt.slot k'
  named : ∀ x ∈ p.out, x.key = some k

theorem ActedOn.idle (hs : ∀ k, rt'.slot k = rt.slot k) :
    ActedOn (W := W) k rt (done rt') (done (rt.slot k)) :=
  ⟨hs k, rfl, rfl, fun k' _ => hs k', by simp [done]⟩

theorem observeLoss_named (env : RxEnv) (sid : UInt64) (h : DataHeader) (st : StreamState W) :
    ∀ x ∈ (observeLoss env sid h st).out, x.key = some ⟨sid, h.streamId⟩ := by
  unfold observeLoss
  simp only
  split
  · simp [done]
  · split
    · simp [Output.key]
    · simp

theorem deliverFrame_named (env : RxEnv) (p : SankakuPipeline) (sid : UInt64) (h : DataHeader)
    (st : StreamState W) (block : Bytes) (ideal used : UInt32) :
    ∀ x ∈ (deliverFrame env p sid h st block ideal used).out, x.key = some ⟨sid, h.streamId⟩ := by
  unfold deliverFrame
  split
  · simp
  split
  · simp [done]
  split
  · simp
  simp only
  split
  · simp [Output.key]
  split
  · simp [Output.key]
  · simp [Output.key]

theorem feedDecoder_quiet {h : DataHeader} {st : StreamState W}
    (hf : feedDecoder h payload st = .returned o) : o.out = [] := by
  unfold feedDecoder at hf
  split at hf
  · cases hf; rfl
  · split at hf
    · cases hf; rfl
    · split at hf
      · split at hf <;> cases hf; rfl
      · cases hf; rfl
      · cases hf; rfl

/-- Everything a droplet makes the receiver emit names the droplet's stream. -/
theorem receiveDroplet_named (env : RxEnv) (p : SankakuPipeline) (sid : UInt64) (h : DataHeader)
    (payload : Bytes) (st : StreamState W) :
    ∀ x ∈ (receiveDroplet env p sid h payload st).out, x.key = some ⟨sid, h.streamId⟩ := by
  unfold receiveDroplet
  intro x hx
  simp only at hx
  split at hx
  · exact observeLoss_named env sid h st x hx
  · rcases List.mem_append.mp hx with hx | hx
    · exact observeLoss_named env sid h st x hx
    · split at hx
      · rename_i o ho
        rw [feedDecoder_quiet ho] at hx
        cases hx
      · exact deliverFrame_named _ _ _ _ _ _ _ _ x hx

/-- What a stream receives does not depend on its session's pipeline. -/
theorem receiveDroplet_pipeline (env : RxEnv) (p q : SankakuPipeline) (sid : UInt64)
    (h : DataHeader) (payload : Bytes) (st : StreamState W) :
    receiveDroplet env p sid h payload st = receiveDroplet env q sid h payload st := rfl

theorem admitDroplet_nil (env : RxEnv) (h : DataHeader) : admitDroplet env h [] = none := by
  unfold admitDroplet
  repeat' split
  all_goals first | rfl | simp_all

theorem handleDataPacket_short (R : SankakuReceiver) (env : RxEnv) (rt : ReceiverRuntime W)
    (hp : parseDataPacket packet = none) :
    ∃ rt', handleDataPacket R env rt packet = done rt' ∧ ∀ k, rt'.slot k = rt.slot k := by
  unfold parseDataPacket at hp
  unfold handleDataPacket
  split
  · exact ⟨rt, rfl, fun _ => rfl⟩
  · rename_i hlen
    rw [if_neg hlen] at hp
    cases hs : (slice? packet 1 9).bind parseU64Le with
    | none => exact ⟨rt, rfl, fun _ => rfl⟩
    | some sid =>
      obtain ⟨session, hsession⟩ := handshake_session R rt sid
      cases hw : slice? packet 9 dataPrefixSize with
      | none => simp only [hsession]; exact ⟨_, rfl, handshake_slot R rt sid⟩
      | some header => simp [hs, hw] at hp

theorem handleDataPacket_acts (R : SankakuReceiver) (env : RxEnv) (rt : ReceiverRuntime W)
    (hp : parseDataPacket packet = some (sid, h, body)) :
    ActedOn ⟨sid, h.streamId⟩ rt (handleDataPacket R env rt packet)
      (slotData R env (rt.slot ⟨sid, h.streamId⟩) packet) := by
  unfold slotData
  rw [hp]
  unfold parseDataPacket at hp
  unfold handleDataPacket
  split at hp
  · cases hp
  rename_i hlen
  rw [if_neg hlen]
  cases hs : (slice? packet 1 9).bind parseU64Le with
  | none => rw [hs] at hp; cases hp
  | some sid' =>
  cases hw : slice? packet 9 dataPrefixSize with
  | none => rw [hs, hw] at hp; cases hp
  | some header =>
  rw [hs, hw] at hp
  cases hp
  obtain ⟨session, hsession⟩ := handshake_session R rt sid
  have hslot := handshake_slot R rt sid
  have hown : rt.slot ⟨sid, (DataHeader.parse header).streamId⟩ =
      session.streams.context (DataHeader.parse header).streamId := by
    rw [← hslot, slot_session hsession]
  simp only [hsession]
  split
  · rename_i hempty
    rw [List.isEmpty_iff.mp hempty, admitDroplet_nil]
    exact .idle hslot
  cases ha : admitDroplet env (DataHeader.parse header) (packet.drop dataPrefixSize) with
  | none => exact .idle hslot
  | some payload =>
    generalize DataHeader.parse header = h at *
    simp only
    rcases session.streams.ensureWith_cases h.streamId .video (StreamState.default W) with
      ⟨st, hc, he⟩ | ⟨hc, he⟩ | ⟨c, hc, ht, he⟩
    · rw [he, hown, hc]
      refine ⟨?_, ?_, ?_, fun k' hk => ?_, ?_⟩
      · simp [setStreams_slot, slotDroplet, hc,
          receiveDroplet_pipeline env session.pipeline R.buildReceiverPipeline]
      · rfl
      · rfl
      · rw [setStreams_slot_other hsession (fun id' hid =>
          StreamRegistry.context_modify_other _ _ hid) hk, hslot]
      · exact receiveDroplet_named env _ sid h payload st
    · rw [he, hown, hc]
      refine ⟨?_, ?_, ?_, fun k' hk => ?_, ?_⟩
      · simp [setStreams_slot, slotDroplet,
          receiveDroplet_pipeline env session.pipeline R.buildReceiverPipeline]
      · rfl
      · rfl
      · rw [setStreams_slot_other hsession (fun id' hid => ?_) hk, hslot]
        rw [StreamRegistry.context_modify_other _ _ hid,
          StreamRegistry.context_insert_other _ _ _ hid]
      · exact receiveDroplet_named env _ sid h payload _
    · rw [he, hown, hc]
      simp only [slotDroplet, ne_eq, ht, not_false_eq_true, ↓reduceIte]
      exact ⟨by rw [hslot, hown, hc], rfl, rfl, fun k' _ => hslot k', by simp⟩

theorem parseAudioPacket_key (hp : parseAudioPacket packet = some frame)
    (hlen : ¬ packet.length < audioPrefixSize) :
    (slice? packet 1 9).bind parseU64Le = some frame.sessionId ∧
      parseAudioKey packet = some ⟨frame.sessionId, frame.streamId⟩ := by
  unfold parseAudioPacket at hp
  unfold parseAudioKey
  rw [if_neg hlen]
  cases hs : (slice? packet 1 9).bind parseU64Le with
  | none => rw [hs] at hp; cases hp
  | some sid =>
  cases hi : (slice? packet 9 13).bind parseU32Le with
  | none => rw [hs, hi] at hp; cases hp
  | some id =>
    rw [hs, hi] at hp
    simp only [Option.bind_eq_bind, Option.bind_some, Option.bind_eq_some_iff] at hp
    obtain ⟨ts, _, codec, _, hp⟩ := hp
    split at hp
    · cases hp
    simp only [Option.bind_eq_some_iff] at hp
    obtain ⟨fpp, _, len, _, hp⟩ := hp
    split at hp
    · cases hp
    split at hp
    · cases hp
    cases hp
    exact ⟨rfl, rfl⟩

theorem handleAudioPacket_acts (R : SankakuReceiver) (rt : ReceiverRuntime W)
    (hk : parseAudioKey packet = some k) :
    ActedOn k rt (handleAudioPacket R rt packet) (slotAudio R (rt.slot k) packet) := by
  unfold handleAudioPacket slotAudio
  split
  · exact .idle (fun _ => rfl)
  rename_i hlen
  cases hs : (slice? packet 1 9).bind parseU64Le with
  | none => simp [parseAudioKey, hlen, hs] at hk
  | some sid =>
  have hslot := handshake_slot R rt sid
  cases hp : parseAudioPacket packet with
  | none => exact .idle hslot
  | some frame =>
    obtain ⟨hsid, hkey⟩ := parseAudioPacket_key hp hlen
    rw [hs] at hsid
    cases hsid
    rw [hk] at hkey
    cases hkey
    obtain ⟨session, hsession⟩ := handshake_session R rt frame.sessionId
    have hown : rt.slot ⟨frame.sessionId, frame.streamId⟩ =
        session.streams.context frame.streamId := by
      rw [← hslot, slot_session hsession]
    simp only [hsession]
    have hreg : ∀ rt' : ReceiverRuntime W,
        rt'.slot ⟨frame.sessionId, frame.streamId⟩ =
          some ((rt.slot ⟨frame.sessionId, frame.streamId⟩).getD ⟨.audio, StreamState.default W⟩) →
        (∀ k', k' ≠ ⟨frame.sessionId, frame.streamId⟩ → rt'.slot k' = rt.slot k') →
        ActedOn ⟨frame.sessionId, frame.streamId⟩ rt
          (if R.audioTx then ⟨rt', [.audio frame], none⟩ else done rt')
          ⟨some ((rt.slot ⟨frame.sessionId, frame.streamId⟩).getD
            ⟨.audio, StreamState.default W⟩), if R.audioTx then [.audio frame] else [], none⟩ := by
      intro rt' hself hother
      cases R.audioTx with
      | true => exact ⟨hself, rfl, rfl, hother, by simp [Output.key]⟩
      | false => exact ⟨hself, rfl, rfl, hother, by simp⟩
    apply hreg
    · rcases session.streams.ensureWith_cases frame.streamId .audio (StreamState.default W) with
        ⟨st, hc, he⟩ | ⟨hc, he⟩ | ⟨c, hc, ht, he⟩
      · rw [he, setStreams_slot, hown, hc]; rfl
      · rw [he, setStreams_slot, hown, hc]; simp
      · rw [he, hslot, hown, hc]; rfl
    · intro k' hk'
      rcases session.streams.ensureWith_cases frame.streamId .audio (StreamState.default W) with
        ⟨st, hc, he⟩ | ⟨hc, he⟩ | ⟨c, hc, ht, he⟩
      · rw [he, setStreams_slot_other hsession (fun _ _ => rfl) hk', hslot]
      · rw [he, setStreams_slot_other hsession
          (fun id' hid => StreamRegistry.context_insert_other _ _ _ hid) hk', hslot]
      · rw [he, hslot]

theorem handleStreamFinPacket_acts (R : SankakuReceiver) (env : RxEnv) (rt : ReceiverRuntime W)
    (hf : StreamFinPacket.deserialize (packet.drop 1) = some fin) :
    ActedOn ⟨fin.sessionId, fin.streamId⟩ rt (handleStreamFinPacket R env rt packet)
      (slotFin env (rt.slot ⟨fin.sessionId, fin.streamId⟩) packet) := by
  unfold handleStreamFinPacket slotFin
  obtain ⟨session, hsession⟩ := handshake_session R rt fin.sessionId
  have hslot := handshake_slot R rt fin.sessionId
  simp only [hf, hsession]
  have hself : ((handleHandshakePacket R rt fin.sessionId).setStreams fin.sessionId session
      (session.streams.remove fin.streamId)).slot ⟨fin.sessionId, fin.streamId⟩ = none := by
    rw [setStreams_slot, StreamRegistry.context_remove_self]
  have hother : ∀ k', k' ≠ ⟨fin.sessionId, fin.streamId⟩ →
      ((handleHandshakePacket R rt fin.sessionId).setStreams fin.sessionId session
        (session.streams.remove fin.streamId)).slot k' = rt.slot k' := by
    intro k' hk
    rw [setStreams_slot_other hsession
      (fun id' hid => StreamRegistry.context_remove_other _ hid) hk, hslot]
  cases env.controlOpen with
  | true => exact ⟨hself, rfl, rfl, hother, by simp [Output.key]⟩
  | false => exact ⟨hself, rfl, rfl, hother, by simp⟩

theorem mediaStep_acts (R : SankakuReceiver) (rt : ReceiverRuntime W) (i : RxInput)
    (hk : i.key = some k) : ActedOn k rt (mediaStep R rt i) (slotStep R (rt.slot k) i) := by
  cases i with
  | datagram env packet =>
    cases packet with
    | nil => simp [RxInput.key, datagramKey] at hk
    | cons type rest =>
      simp only [RxInput.key, datagramKey, List.head?_cons, Option.bind_some] at hk
      simp only [mediaStep, slotStep, List.head?_cons, Option.bind_some]
      split at hk
      · rename_i ht
        simp only [ht]
        cases hp : parseDataPacket (type :: rest) with
        | none => simp [hp] at hk
        | some d =>
          rw [hp] at hk
          cases hk
          exact handleDataPacket_acts R env rt hp
      · rename_i ht
        simp only [ht]
        exact handleAudioPacket_acts R rt hk
      · cases hk
  | control env packet =>
    cases packet with
    | nil => simp [RxInput.key, controlKey] at hk
    | cons type rest =>
      simp only [RxInput.key, controlKey, List.head?_cons, Option.bind_some] at hk
      simp only [mediaStep, slotStep, List.head?_cons, Option.bind_some]
      split at hk
      · rename_i ht
        simp only [ht, ↓reduceIte]
        cases hf : StreamFinPacket.deserialize ((type :: rest).drop 1) with
        | none => rw [hf] at hk; cases hk
        | some fin =>
          rw [hf] at hk
          cases hk
          exact handleStreamFinPacket_acts R env rt hf
      · cases hk

/-- The transport takes the pong, if the packet is a ping long enough to have one. -/
def RxInput.Ponged : RxInput → Prop
  | .datagram env packet => packet.head?.bind PacketType.fromByte = some .ping →
      9 ≤ packet.length → env.sendDatagram = .ok ()
  | .control _ _ => True

/-- The handled packet touched no slot. Only a ping that cannot be answered
fails without one. -/
structure Idle (rt : ReceiverRuntime W) (i : RxInput) (o : Handled W) : Prop where
  slots : ∀ k, o.state.slot k = rt.slot k
  named : ∀ x ∈ o.out, x.key = none
  error : o.error = none ↔ i.Ponged

theorem Idle.quiet {rt rt' : ReceiverRuntime W} (h : ∀ k, rt'.slot k = rt.slot k)
    (ponged : i.Ponged) : Idle rt i (done rt') := ⟨h, by simp [done], iff_of_true rfl ponged⟩

theorem RxInput.Ponged.of_other {env : RxEnv} {packet : Bytes}
    (h : packet.head?.bind PacketType.fromByte ≠ some .ping) :
    (RxInput.datagram env packet).Ponged := fun hping => absurd hping h

/-- Audio without a key gets no further than the handshake. -/
theorem handleAudioPacket_idle (R : SankakuReceiver) (rt : ReceiverRuntime W) {packet : Bytes}
    (hk : parseAudioKey packet = none) (ponged : i.Ponged) :
    Idle rt i (handleAudioPacket R rt packet) := by
  unfold handleAudioPacket
  split
  · exact .quiet (fun _ => rfl) ponged
  rename_i hlen
  cases hsid : (slice? packet 1 9).bind parseU64Le with
  | none => exact .quiet (fun _ => rfl) ponged
  | some sid =>
    cases hp : parseAudioPacket packet with
    | none => exact .quiet (handshake_slot R rt sid) ponged
    | some frame =>
      rw [(parseAudioPacket_key hp hlen).2] at hk
      cases hk

/-- The session id of a ping. -/
theorem pingSession_none (packet : Bytes) :
    (slice? packet 1 9).bind parseU64Le = none ↔ packet.length < 9 := by
  by_cases hlen : 9 ≤ packet.length
  · rw [slice?_isSome packet (by decide) hlen, Option.bind_some, parseU64Le, if_pos (by simp; omega)]
    exact iff_of_false (Option.some_ne_none _) (Nat.not_lt.mpr hlen)
  · rw [slice?, if_neg (mt And.right hlen)]
    exact iff_of_true rfl (Nat.not_le.mp hlen)

theorem handlePingPacket_idle (R : SankakuReceiver) (env : RxEnv) (rt : ReceiverRuntime W)
    (hping : packet.head?.bind PacketType.fromByte = some .ping) :
    Idle rt (.datagram env packet) (handlePingPacket R env rt packet) := by
  unfold handlePingPacket
  cases hsid : (slice? packet 1 9).bind parseU64Le with
  | none =>
    have hshort := (pingSession_none packet).mp hsid
    exact .quiet (fun _ => rfl) (fun _ hlen => absurd hlen (Nat.not_le.mpr hshort))
  | some sid =>
    have hlen : 9 ≤ packet.length := Nat.not_lt.mp fun hshort => by
      rw [(pingSession_none packet).mpr hshort] at hsid
      cases hsid
    cases hsend : env.sendDatagram with
    | error refused =>
      refine ⟨handshake_slot R rt sid, by simp, iff_of_false (by simp) fun ponged => ?_⟩
      have htaken := ponged hping hlen
      rw [hsend] at htaken
      cases htaken
    | ok u =>
      exact ⟨handshake_slot R rt sid, by simp [Output.key], iff_of_true rfl fun _ _ => hsend⟩

/-- A packet that names no stream changes no slot and emits nothing a stream's
observer reads. -/
theorem mediaStep_idle (R : SankakuReceiver) (rt : ReceiverRuntime W) (i : RxInput)
    (hk : i.key = none) : Idle rt i (mediaStep R rt i) := by
  cases i with
  | datagram env packet =>
    cases packet with
    | nil => exact .quiet (fun _ => rfl) (.of_other (by simp))
    | cons type rest =>
      simp only [RxInput.key, datagramKey, List.head?_cons, Option.bind_some] at hk
      simp only [mediaStep]
      by_cases hping : PacketType.fromByte type = some .ping
      · simp only [hping]
        exact handlePingPacket_idle R env rt hping
      have ponged : (RxInput.datagram env (type :: rest)).Ponged := .of_other (by simpa using hping)
      cases ht : PacketType.fromByte type with
      | none => exact .quiet (fun _ => rfl) ponged
      | some t =>
        simp only [ht] at hk
        cases t with
        | data =>
          obtain ⟨rt', he, hs⟩ := handleDataPacket_short R env rt (Option.map_eq_none_iff.mp hk)
          simp only [he]
          exact .quiet hs ponged
        | audio => exact handleAudioPacket_idle R rt hk ponged
        | ping => exact absurd ht hping
        | _ => exact .quiet (fun _ => rfl) ponged
  | control env packet =>
    cases packet with
    | nil => exact .quiet (fun _ => rfl) trivial
    | cons type rest =>
      simp only [RxInput.key, controlKey, List.head?_cons, Option.bind_some] at hk
      simp only [mediaStep]
      split
      · rename_i ht
        simp only [ht] at hk
        simp only [handleStreamFinPacket, Option.map_eq_none_iff.mp hk]
        exact .quiet (fun _ => rfl) trivial
      · exact .quiet (fun _ => rfl) trivial

def concerns (k : StreamKey) (i : RxInput) : Bool := i.key = some k

def reads (k : StreamKey) (o : Output) : Bool := o.key = some k

/-- Each stream is a component of the receiver. -/
theorem stream_component (R : SankakuReceiver) (k : StreamKey) :
    Component (mediaStep (W := W) R) (slotStep R) (fun rt => rt.slot k) (concerns k) (reads k) where
  others rt i h := by
    have hk : i.key ≠ some k := by simpa [concerns] using h
    cases hi : i.key with
    | none =>
      have idle := mediaStep_idle R rt i hi
      exact ⟨idle.slots k, List.filter_eq_nil_iff.mpr (fun x hx => by
        simp [reads, idle.named x hx])⟩
    | some k' =>
      have acts := mediaStep_acts R rt i hi
      have hne : k ≠ k' := fun e => hk (e ▸ hi)
      refine ⟨acts.others k hne, List.filter_eq_nil_iff.mpr (fun x hx => ?_)⟩
      have := acts.named x (acts.out ▸ hx)
      simp [reads, this, Ne.symm hne]
  own rt i h := by
    have acts := mediaStep_acts R rt i (by simpa [concerns] using h)
    refine ⟨acts.slot, ?_, acts.error⟩
    rw [acts.out, List.filter_eq_self]
    exact fun x hx => by simp [reads, acts.named x hx]

end Sankaku
