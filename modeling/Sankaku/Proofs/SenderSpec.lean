import Sankaku.Model.Sender
import Sankaku.Proofs.Droplet

namespace Sankaku
open LittleEndian

variable {W : Wirehair}

namespace SankakuSender

/-- The index the next frame of a stream gets: 0 while the stream is unknown. -/
def nextIndex (s : SankakuSender) (id : UInt32) : UInt64 :=
  ((s.streams.get id).map SenderStreamState.nextFrameIndex).getD 0

/-- What a stream of this sender is at, or starts from. -/
def streamState (s : SankakuSender) (id : UInt32) : SenderStreamState :=
  (s.streams.get id).getD s.newStreamState

def tuning (s : SankakuSender) (id : UInt32) : Tuning :=
  ⟨(s.streamState id).redundancy, (s.streamState id).jitterUs⟩

theorem nextIndex_state (s : SankakuSender) (id : UInt32) :
    s.nextIndex id = (s.streamState id).nextFrameIndex := by
  unfold nextIndex streamState
  cases s.streams.get id <;> rfl

/-- The control packets that have arrived and are not drained yet. -/
def queued (s : SankakuSender) : List Bytes := s.controlInRx.getD []

/-- Nothing but the queue and the bitrate changed. -/
structure Kept (s s' : SankakuSender) : Prop where
  streams : s'.streams = s.streams
  sessionId : s'.sessionId = s.sessionId
  transport : s'.transport = s.transport
  pipeline : s'.pipeline = s.pipeline
  nextStreamId : s'.nextStreamId = s.nextStreamId
  controlOutTx : s'.controlOutTx = s.controlOutTx
  listening : s'.controlInRx.isSome = s.controlInRx.isSome

theorem Kept.refl (s : SankakuSender) : Kept s s := ⟨rfl, rfl, rfl, rfl, rfl, rfl, rfl⟩

theorem Kept.trans (h : Kept s t) (h' : Kept t u) : Kept s u :=
  ⟨h'.streams.trans h.streams, h'.sessionId.trans h.sessionId, h'.transport.trans h.transport,
    h'.pipeline.trans h.pipeline, h'.nextStreamId.trans h.nextStreamId,
    h'.controlOutTx.trans h.controlOutTx, h'.listening.trans h.listening⟩

theorem Kept.tuning (h : Kept s s') (id : UInt32) : s'.tuning id = s.tuning id := by
  unfold SankakuSender.tuning streamState newStreamState
  rw [h.streams, h.transport]

theorem receiveControl_kept (s : SankakuSender) (packets : List Bytes) :
    Kept s (s.receiveControl packets) := ⟨rfl, rfl, rfl, rfl, rfl, rfl, Option.isSome_map⟩

theorem drain_kept (s : SankakuSender) (cx : DrainContext) (t : Tuning) :
    Kept s (s.drain cx t).2 := by
  unfold drain
  split
  · exact Kept.refl s
  · rename_i queue h
    simp only
    split <;> exact ⟨rfl, rfl, rfl, rfl, rfl, rfl, by rw [h, Option.isSome_some, Option.isSome_some]⟩

/-- A datagram of the chunk: the droplet with this id under the chunk's header,
padded with zeros. -/
def ChunkPlan.IsPacket (plan : ChunkPlan W) (seqId : UInt32) (packet : Bytes) : Prop :=
  ∃ data k, plan.encoder.encode seqId = .ok data ∧
    packet = dataDatagram plan.context.sessionId (plan.header seqId) data ++ List.replicate k 0

theorem padPacket_zeros (h : padPacket mode limit packet = some padded) :
    ∃ k, padded = packet ++ List.replicate k 0 := by
  unfold padPacket at h
  obtain ⟨target, _, rfl⟩ := Option.map_eq_some_iff.mp h
  exact ⟨_, rfl⟩

/-- One turn of the droplet loop hands over the packet with this id or fails. -/
theorem sendDroplet_cases (s : SankakuSender) (plan : ChunkPlan W) (env : DropletEnv)
    (seqId : UInt32) (t : Tuning) : Kept s (s.sendDroplet plan env seqId t).sender ∧
    ((∃ e, (s.sendDroplet plan env seqId t).result = .error e ∧
        (s.sendDroplet plan env seqId t).sent = [] ∧
        (e = .panicked ∨ (∃ e', plan.encoder.encode seqId = .error e') ∨
          ∃ e', env.sendDatagram = .error e')) ∨
      ∃ t' packet, (s.sendDroplet plan env seqId t).result = .ok t' ∧
        (s.sendDroplet plan env seqId t).sent = [packet] ∧ plan.IsPacket seqId packet ∧
        env.sendDatagram = .ok ()) := by
  have hkept := (receiveControl_kept s env.arrivals).trans
    (drain_kept (s.receiveControl env.arrivals) (plan.drainContext s) t)
  unfold sendDroplet
  cases hd : (s.receiveControl env.arrivals).drain (plan.drainContext s) t with
  | mk result s' =>
  rw [hd] at hkept
  have hpanic : ∀ e, result = .error e → e = .panicked := by
    intro e he
    subst he
    unfold drain at hd
    split at hd
    · cases hd
    · simp only at hd
      split at hd <;> cases hd
      rfl
  cases result with
  | error e => exact ⟨hkept, .inl ⟨e, rfl, rfl, .inl (hpanic e rfl)⟩⟩
  | ok t' =>
  simp only
  cases he : plan.encoder.encode seqId with
  | error e => exact ⟨hkept, .inl ⟨_, rfl, rfl, .inr (.inl ⟨e, rfl⟩)⟩⟩
  | ok data =>
  simp only
  cases hp : padPacket s'.transport.padding env.maxDatagramSize
      (dataDatagram plan.context.sessionId (plan.header seqId) data) with
  | none => exact ⟨hkept, .inl ⟨_, rfl, rfl, .inl rfl⟩⟩
  | some packet =>
  obtain ⟨k, hk⟩ := padPacket_zeros hp
  simp only
  cases hs : env.sendDatagram with
  | error e => exact ⟨hkept, .inl ⟨_, rfl, rfl, .inr (.inr ⟨e, rfl⟩)⟩⟩
  | ok u => exact ⟨hkept, .inr ⟨t', packet, rfl, rfl, ⟨data, k, he, hk⟩, rfl⟩⟩

/-- The loop hands over the packets of its ids in order, all of them if it
succeeds. -/
theorem sendDroplets_sent (s : SankakuSender) (plan : ChunkPlan W) (env : SendEnv) (t : Tuning)
    (ids : List UInt32) : Kept s (s.sendDroplets plan env t ids).sender ∧
    ∃ n, List.Forall₂ plan.IsPacket (ids.take n) (s.sendDroplets plan env t ids).sent ∧
      ((∃ e, (s.sendDroplets plan env t ids).result = .error e) ∨
        ∃ t', (s.sendDroplets plan env t ids).result = .ok t' ∧ ids.length ≤ n) := by
  induction ids generalizing s t with
  | nil => exact ⟨Kept.refl s, 0, .nil, .inr ⟨t, rfl, le_refl _⟩⟩
  | cons i ids ih =>
    rw [sendDroplets]
    obtain ⟨hkept, ⟨e, he, hsent, _⟩ | ⟨t', packet, hok, hsent, hpacket, _⟩⟩ :=
      sendDroplet_cases s plan (env.droplet i) i t
    · simp only [he, hsent]
      exact ⟨hkept, 0, .nil, .inl ⟨e, rfl⟩⟩
    · obtain ⟨hk, n, hall, hres⟩ := ih (s.sendDroplet plan (env.droplet i) i t).sender t'
      simp only [hok, hsent]
      refine ⟨hkept.trans hk, n + 1, .cons hpacket hall, ?_⟩
      rcases hres with ⟨e, he⟩ | ⟨t'', hok', hn⟩
      · exact .inl ⟨e, he⟩
      · exact .inr ⟨t'', hok', by simpa using hn⟩

theorem sendDroplets_refused (s : SankakuSender) (plan : ChunkPlan W) (env : SendEnv) (t : Tuning)
    (i : UInt32) (ids : List UInt32) (refused : (env.droplet i).sendDatagram ≠ .ok ()) :
    (s.sendDroplets plan env t (i :: ids)).sent = [] := by
  rw [sendDroplets]
  obtain ⟨_, ⟨e, he, hsent, _⟩ | ⟨t', packet, _, _, _, taken⟩⟩ :=
    sendDroplet_cases s plan (env.droplet i) i t
  · simp only [he, hsent]
  · exact absurd taken refused

/-- The transport takes the datagrams of all these droplets. -/
def TakesAll (env : SendEnv) (ids : List UInt32) : Prop :=
  ∀ i ∈ ids, (env.droplet i).sendDatagram = .ok ()

/-- If every id can be encoded and the transport takes all packets but possibly
the first, the loop succeeds, panics, or hands over nothing. -/
theorem sendDroplets_all (s : SankakuSender) (plan : ChunkPlan W) (env : SendEnv) (t : Tuning)
    (i : UInt32) (ids : List UInt32) (encodes : ∀ j, ∃ data, plan.encoder.encode j = .ok data)
    (takes : ∀ j ∈ ids, (env.droplet j).sendDatagram = .ok ()) :
    (∃ t', (s.sendDroplets plan env t (i :: ids)).result = .ok t') ∨
    (s.sendDroplets plan env t (i :: ids)).result = .error .panicked ∨
    (s.sendDroplets plan env t (i :: ids)).sent = [] := by
  have go : ∀ (ids : List UInt32) (s : SankakuSender) (t : Tuning),
      (∀ j ∈ ids, (env.droplet j).sendDatagram = .ok ()) →
      (∃ t', (s.sendDroplets plan env t ids).result = .ok t') ∨
        (s.sendDroplets plan env t ids).result = .error .panicked := by
    intro ids
    induction ids with
    | nil => exact fun s t _ => .inl ⟨t, rfl⟩
    | cons j ids ih =>
      intro s t htakes
      rw [sendDroplets]
      obtain ⟨_, ⟨e, he, _, hwhy⟩ | ⟨t', packet, hok, _, _⟩⟩ :=
        sendDroplet_cases s plan (env.droplet j) j t
      · simp only [he]
        rcases hwhy with rfl | ⟨e', he'⟩ | ⟨e', he'⟩
        · exact .inr rfl
        · obtain ⟨data, hdata⟩ := encodes j
          rw [hdata] at he'
          cases he'
        · rw [htakes j List.mem_cons_self] at he'
          cases he'
      · simp only [hok]
        exact ih _ t' (fun k hk => htakes k (List.mem_cons_of_mem _ hk))
  rw [sendDroplets]
  obtain ⟨_, ⟨e, he, hsent, hwhy⟩ | ⟨t', packet, hok, _, _⟩⟩ :=
    sendDroplet_cases s plan (env.droplet i) i t
  · simp only [he]
    exact .inr (.inr hsent)
  · simp only [hok]
    rcases go ids (s.sendDroplet plan (env.droplet i) i t).sender t' takes with h | h
    · exact .inl h
    · exact .inr (.inl h)

/-- The plan is for this protected block. -/
structure ChunkPlan.Protects (plan : ChunkPlan W) (block : Bytes) : Prop where
  created : W.encoderCreate block plan.pktSize = some plan.encoder.inner
  packetSize : plan.encoder.packetSize = plan.pktSize
  totalSize : plan.totalSize.toNat = block.length
  size : 0 < block.length ∧ block.length ≤ 512 * 1024
  pktSize : 0 < plan.pktSize.toNat ∧ plan.pktSize.toNat ≤ 1150

/-- The block is this frame's, and the plan announces it as what it is. -/
structure ChunkPlan.Holds (plan : ChunkPlan W) (block : Bytes) (frame : VideoFrame) : Prop where
  codec : plan.codec = frame.codec ∧ isSupportedVideoCodec frame.codec = true
  kind : plan.kind = frame.kind
  content : ∀ h : DataHeader, h.kindFlag = frame.kind.asHeaderFlag → openBlock h block =
    .ok (some (frame.kind, ⟨frame.timestampUs, frame.keyframe, frame.payload⟩))

/-- The number of original blocks, `needed_packets` in the source. -/
def ChunkPlan.blocks (plan : ChunkPlan W) : Nat :=
  divCeil plan.totalSize.toNat plan.pktSize.toNat

theorem pktSizeFor_bounds (env : SendEnv) (totalSize : UInt32) :
    0 < (pktSizeFor env totalSize).toNat ∧ (pktSizeFor env totalSize).toNat ≤ 1150 := by
  have htarget : 0 < targetPacketSize env ∧ targetPacketSize env ≤ 1150 := by
    simp only [targetPacketSize, Sankaku.targetPacketSize]
    omega
  have hofNat : (UInt32.ofNat (targetPacketSize env)).toNat = targetPacketSize env := by
    rw [UInt32.toNat_ofNat', Nat.mod_eq_of_lt (by omega)]
  unfold pktSizeFor
  simp only
  split
  · rename_i hle
    rw [UInt32.le_iff_toNat_le, hofNat] at hle
    have hhalf : divCeil totalSize.toNat 2 ≤ 1150 := by rw [divCeil]; omega
    rw [UInt32.toNat_ofNat', Nat.mod_eq_of_lt (by omega)]
    omega
  · rw [hofNat]
    exact htarget

theorem encoder_new_ok (h : WirehairEncoder.new W block pktSize = .ok encoder) :
    W.encoderCreate block pktSize = some encoder.inner ∧ encoder.packetSize = pktSize := by
  unfold WirehairEncoder.new at h
  split at h
  · cases h
  split at h
  · cases h
  split at h
  · cases h
  · rename_i codec hc
    cases h
    exact ⟨hc, rfl⟩

theorem planChunk_ok {s : SankakuSender}
    (h : planChunk W s cx data codec kind index env = .ok plan) :
    plan.context = cx ∧ plan.frameIndex = index ∧ plan.kind = kind ∧ plan.codec = codec ∧
    ∃ mode, plan.Protects (mode :: data) ∧
      ∀ (q : SankakuPipeline) s' f', q.restoreFrame (mode :: data) s' f' = .ok (kind, data) := by
  unfold planChunk at h
  cases hp : s.pipeline with
  | none => rw [hp] at h; cases h
  | some pipeline =>
  obtain ⟨mode, hmode, hrestore⟩ := pipeline.protectFrame_ok data kind cx.streamId index
  simp only [hp, hmode] at h
  split at h
  · cases h
  rename_i hlen
  split at h
  · cases h
  rename_i hsize
  split at h
  · cases h
  rename_i encoder hnew
  cases h
  obtain ⟨hcreate, hpacket⟩ := encoder_new_ok hnew
  have htotal : (UInt32.ofNat (mode :: data).length).toNat = (mode :: data).length := by
    rw [UInt32.toNat_ofNat', Nat.mod_eq_of_lt (by omega)]
  refine ⟨rfl, rfl, rfl, rfl, mode, ⟨hcreate, hpacket, htotal, ⟨Nat.succ_pos _, ?_⟩,
    pktSizeFor_bounds env _⟩, hrestore⟩
  have hmax : ¬ UInt32.ofNat (mode :: data).length > maxProtectedBlockSize := fun hg => hsize (.inr hg)
  rw [gt_iff_lt, UInt32.lt_iff_toNat_lt, htotal, not_lt] at hmax
  exact hmax

theorem totalPackets_ge (totalSize pktSize : UInt32) (redundancy : ℚ)
    (h : divCeil totalSize.toNat pktSize.toNat < 2 ^ 32) :
    divCeil totalSize.toNat pktSize.toNat ≤ (totalPackets totalSize pktSize redundancy).toNat := by
  have hclamp : (1 : ℚ) ≤ clampRat redundancy 1 maxRedundancy := by
    unfold clampRat maxRedundancy
    split
    · exact le_refl _
    · split
      · norm_num
      · rename_i h1 _
        exact not_lt.mp h1
  generalize hn : divCeil totalSize.toNat pktSize.toNat = n at h
  have hprod : ((n : Int) : ℚ) ≤ ((n * clampRat redundancy 1 maxRedundancy : ℚ).ceil : ℚ) := by
    refine le_trans ?_ Rat.le_ceil
    rw [Int.cast_natCast]
    exact le_mul_of_one_le_right (Nat.cast_nonneg n) hclamp
  have hceil : n ≤ (n * clampRat redundancy 1 maxRedundancy : ℚ).ceil.toNat := by
    have : (n : Int) ≤ (n * clampRat redundancy 1 maxRedundancy : ℚ).ceil := by
      exact_mod_cast hprod
    omega
  rw [totalPackets, hn, ceilToU32, UInt32.toNat_ofNat', Nat.mod_eq_of_lt (by omega)]
  omega

/-- The registries agree on every next index, and nothing else a caller can see
of them moved. -/
structure SameIndices (s s' : SankakuSender) : Prop where
  indices : ∀ id, s'.nextIndex id = s.nextIndex id
  sessionId : ∀ sid, s.sessionId = some sid → s'.sessionId = some sid
  nextStreamId : s'.nextStreamId = s.nextStreamId

theorem nextIndex_of_streams (h : s'.streams = s.streams) (id : UInt32) :
    nextIndex s' id = nextIndex s id := by
  rw [nextIndex, nextIndex, h]

theorem Kept.same (h : Kept s s') : SameIndices s s' :=
  ⟨nextIndex_of_streams h.streams, fun _ hs => h.sessionId.trans hs, h.nextStreamId⟩

theorem SameIndices.trans (h : SameIndices s t) (h' : SameIndices t u) : SameIndices s u :=
  ⟨fun id => (h'.indices id).trans (h.indices id), fun sid hs => h'.sessionId sid (h.sessionId sid hs),
    h'.nextStreamId.trans h.nextStreamId⟩

theorem ensureHandshake_spec (s : SankakuSender) (fresh : UInt64) :
    SameIndices s (s.ensureHandshake fresh) ∧
    (∃ sid, (s.ensureHandshake fresh).sessionId = some sid) ∧
    (s.ensureHandshake fresh).streams = s.streams ∧
    (s.ensureHandshake fresh).transport = s.transport := by
  unfold ensureHandshake
  split
  · rename_i h
    exact ⟨(Kept.refl s).same, Option.isSome_iff_exists.mp h.1, rfl, rfl⟩
  · have hctl : s.startControlTasks.streams = s.streams ∧
        s.startControlTasks.sessionId = s.sessionId ∧
        s.startControlTasks.nextStreamId = s.nextStreamId ∧
        s.startControlTasks.transport = s.transport := by
      unfold startControlTasks
      split <;> exact ⟨rfl, rfl, rfl, rfl⟩
    obtain ⟨hs, hi, hn, ht⟩ := hctl
    refine ⟨⟨nextIndex_of_streams hs, fun sid h => ?_, hn⟩, ⟨_, rfl⟩, hs, ht⟩
    simp [hi, h]

/-- The first handshake sets the session and the pipeline and starts the tasks, all
at once. -/
structure HandshakeAtOnce (s : SankakuSender) : Prop where
  pipeline : s.pipeline.isSome = s.sessionId.isSome
  controlIn : s.controlInRx.isSome = s.sessionId.isSome
  controlOut : s.controlOutTx = s.sessionId.isSome

theorem Kept.atOnce (h : Kept s s') (atOnce : HandshakeAtOnce s) : HandshakeAtOnce s' :=
  ⟨by rw [h.pipeline, h.sessionId, atOnce.pipeline],
    by rw [h.listening, h.sessionId, atOnce.controlIn],
    by rw [h.controlOutTx, h.sessionId, atOnce.controlOut]⟩

/-- Before the first handshake nothing is queued. -/
theorem HandshakeAtOnce.queued_nil (h : HandshakeAtOnce s) (none : s.sessionId = none) :
    s.queued = [] := by
  have hin := h.controlIn
  rw [none, Option.isSome_none, Option.isSome_eq_false_iff, Option.isNone_iff_eq_none] at hin
  rw [queued, hin, Option.getD_none]

/-- A later handshake changes nothing. -/
theorem HandshakeAtOnce.cases (h : HandshakeAtOnce s) (fresh : UInt64) :
    s.sessionId.isSome = true ∧ s.ensureHandshake fresh = s ∨
    (s.sessionId = none ∧ s.controlInRx = none ∧ (s.ensureHandshake fresh).sessionId = some fresh ∧
      (s.ensureHandshake fresh).controlInRx = some [] ∧
      HandshakeAtOnce (s.ensureHandshake fresh)) := by
  obtain ⟨hpipeline, hin, hout⟩ := h
  cases hs : s.sessionId with
  | some sid =>
    rw [hs, Option.isSome_some] at hpipeline
    have hdone : s.sessionId.isSome ∧ s.pipeline.isSome := ⟨by rw [hs, Option.isSome_some], hpipeline⟩
    exact .inl ⟨rfl, by rw [ensureHandshake, if_pos hdone]⟩
  | none =>
    rw [hs, Option.isSome_none] at hin hout
    have hnone : s.controlInRx = none := Option.not_isSome_iff_eq_none.mp (by simp [hin])
    refine .inr ⟨rfl, hnone, ?_⟩
    simp only [ensureHandshake, startControlTasks, hs, hout, Option.isSome_none, Bool.false_eq_true,
      false_and, if_false]
    exact ⟨rfl, trivial, rfl, rfl, rfl⟩

/-- What the envelope and the pipeline put on the wire holds the frame. -/
theorem planChunk_holds {s : SankakuSender} {frame : VideoFrame}
    (codec : isSupportedVideoCodec frame.codec = true)
    (h : planChunk W s cx (FrameEnvelope.serialize ⟨frame.timestampUs, frame.keyframe, frame.payload⟩)
      frame.codec frame.kind index env = .ok plan) :
    plan.context = cx ∧ plan.frameIndex = index ∧ ∃ block, plan.Protects block ∧
      plan.Holds block frame := by
  obtain ⟨hcx, hindex, hkind, hcodec, mode, hprotects, hrestore⟩ := planChunk_ok h
  refine ⟨hcx, hindex, _, hprotects, ⟨hcodec, codec⟩, hkind, fun hdr hflag => ?_⟩
  have hsize := hprotects.size.2
  rw [List.length_cons, FrameEnvelope.serialize_length] at hsize
  have htrip := FrameEnvelope.round_trip ⟨frame.timestampUs, frame.keyframe, frame.payload⟩
    (Nat.lt_of_le_of_lt (Nat.le_add_left _ 17) (by omega))
  simp [openBlock, hrestore, hflag, htrip]

theorem take_range_map (n count : Nat) :
    ((List.range count).map UInt32.ofNat).take n = (List.range (min n count)).map UInt32.ofNat := by
  rw [← List.map_take, List.take_range]

theorem blocks_lt {plan : ChunkPlan W} (h : plan.Protects block) : plan.blocks < 2 ^ 32 := by
  have := h.size.2
  have := Nat.div_le_self (plan.totalSize.toNat + plan.pktSize.toNat - 1) plan.pktSize.toNat
  have := h.totalSize
  have := h.pktSize.2
  rw [ChunkPlan.blocks, divCeil]
  omega

theorem nextIndex_commitFrame (s : SankakuSender) (id : UInt32) (len : Nat) (t : Tuning)
    (h : s.streams.context id = some c) :
    (s.commitFrame id len t).nextIndex id = saturatingAdd64 (s.nextIndex id) 1 ∧
      ∀ id', id' ≠ id → (s.commitFrame id len t).nextIndex id' = s.nextIndex id' := by
  constructor
  · simp [nextIndex, commitFrame, StreamRegistry.get, h]
  · intro id' hid
    simp [nextIndex, commitFrame, StreamRegistry.get, StreamRegistry.context_modify_other _ _ hid]

/-- What a call does before its droplet loop: a handshake and the registration of
its stream. -/
structure Prepared (s s' : SankakuSender) : Prop where
  states : ∀ id, s'.streamState id = s.streamState id
  sessionId : ∀ sid, s.sessionId = some sid → s'.sessionId = some sid
  nextStreamId : s'.nextStreamId = s.nextStreamId
  transport : s'.transport = s.transport
  control : HandshakeAtOnce s → HandshakeAtOnce s' ∧ s'.queued = s.queued

theorem Prepared.same (h : Prepared s s') : SameIndices s s' :=
  ⟨fun id => by rw [nextIndex_state, nextIndex_state, h.states], h.sessionId, h.nextStreamId⟩

theorem Prepared.tuning (h : Prepared s s') (id : UInt32) : s'.tuning id = s.tuning id := by
  rw [SankakuSender.tuning, SankakuSender.tuning, h.states]

theorem Prepared.trans (h : Prepared s t) (h' : Prepared t u) : Prepared s u :=
  ⟨fun id => (h'.states id).trans (h.states id), fun sid hs => h'.sessionId sid (h.sessionId sid hs),
    h'.nextStreamId.trans h.nextStreamId, h'.transport.trans h.transport,
    fun atOnce => ⟨(h'.control (h.control atOnce).1).1,
      (h'.control (h.control atOnce).1).2.trans (h.control atOnce).2⟩⟩

theorem ensureHandshake_prepared (s : SankakuSender) (fresh : UInt64) :
    Prepared s (s.ensureHandshake fresh) := by
  obtain ⟨hsame, _, hstreams, htransport⟩ := ensureHandshake_spec s fresh
  refine ⟨fun id => ?_, hsame.sessionId, hsame.nextStreamId, htransport, fun atOnce => ?_⟩
  · rw [streamState, streamState, hstreams, newStreamState, newStreamState, htransport]
  · rcases atOnce.cases fresh with ⟨_, hstays⟩ | ⟨_, hnone, _, hnew, hatOnce⟩
    · rw [hstays]
      exact ⟨atOnce, rfl⟩
    · rw [queued, queued, hnone, hnew]
      exact ⟨hatOnce, rfl⟩

/-- A stream of another type is refused. Registering changes no state. -/
theorem register_cases (s : SankakuSender) (id : UInt32) :
    (∃ why, s.streams.ensureWith id .video s.newStreamState = .error why) ∨
    ∃ streams, s.streams.ensureWith id .video s.newStreamState = .ok (s.streamState id, streams) ∧
      streams.get id = some (s.streamState id) ∧ Prepared s { s with streams } := by
  rcases s.streams.ensureWith_cases id .video s.newStreamState with
    ⟨st, hc, he⟩ | ⟨hc, he⟩ | ⟨c, _, _, he⟩
  · have hget : s.streams.get id = some st := by rw [StreamRegistry.get, hc, Option.map_some]
    have hst : s.streamState id = st := by rw [streamState, hget, Option.getD_some]
    exact .inr ⟨s.streams, by rw [he, hst], by rw [hget, hst], ⟨fun _ => rfl, fun _ h => h, rfl, rfl,
      fun atOnce => ⟨{ atOnce with }, rfl⟩⟩⟩
  · have hnone : s.streams.get id = none := by rw [StreamRegistry.get, hc, Option.map_none]
    have hst : s.streamState id = s.newStreamState := by rw [streamState, hnone, Option.getD_none]
    have hget : (s.streams.insert id .video s.newStreamState).get id = some s.newStreamState := by
      rw [StreamRegistry.get, StreamRegistry.context_insert_self, Option.map_some]
    refine .inr ⟨s.streams.insert id .video s.newStreamState, by rw [he, hst], by rw [hget, hst],
      ⟨fun id' => ?_, fun _ h => h, rfl, rfl, fun atOnce => ⟨{ atOnce with }, rfl⟩⟩⟩
    unfold streamState newStreamState
    by_cases hid : id' = id
    · subst hid
      rw [hnone]
      exact congrArg (fun o => o.getD s.newStreamState) hget
    · simp only [StreamRegistry.get, StreamRegistry.context_insert_other _ _ _ hid]
  · exact .inl ⟨_, he⟩

/-- A call where its droplet loop begins. -/
structure Loop (W : Wirehair) where
  sender : SankakuSender
  plan : ChunkPlan W
  tuning : Tuning
  ids : List UInt32

def Loop.run (l : Loop W) (env : SendEnv) : SendOutcome Tuning :=
  l.sender.sendDroplets l.plan env l.tuning l.ids

/-- None if the call fails before. -/
def loop? (W : Wirehair) (s : SankakuSender) (id : UInt32) (frame : VideoFrame) (env : SendEnv) :
    Option (Loop W) :=
  let s := s.ensureHandshake env.sessionId
  if !isSupportedVideoCodec frame.codec then none
  else
    match s.streams.ensureWith id .video s.newStreamState with
    | .error _ => none
    | .ok (state, streams) =>
      match s.sessionId with
      | none => none
      | some sessionId =>
        match planChunk W { s with streams } ⟨sessionId, id⟩
            (FrameEnvelope.serialize ⟨frame.timestampUs, frame.keyframe, frame.payload⟩) frame.codec
            frame.kind state.nextFrameIndex env with
        | .error _ => none
        | .ok plan => some ⟨{ s with streams }, plan, ⟨state.redundancy, state.jitterUs⟩,
            (List.range (totalPackets plan.totalSize plan.pktSize state.redundancy).toNat).map
              UInt32.ofNat⟩

/-- What the loop of a call on a stream starts from. -/
structure Loop.Begins (l : Loop W) (s : SankakuSender) (id : UInt32) (frame : VideoFrame) : Prop where
  prepared : Prepared s l.sender
  registered : l.sender.streams.get id = some (s.streamState id)
  session : l.sender.sessionId = some l.plan.context.sessionId
  stream : l.plan.context.streamId = id
  index : l.plan.frameIndex = s.nextIndex id
  tuning : l.tuning = s.tuning id
  block : ∃ block, l.plan.Protects block ∧ l.plan.Holds block frame
  ids : ∃ n : Nat, l.ids = (List.range n).map UInt32.ofNat ∧ n < 2 ^ 32 ∧ l.plan.blocks ≤ n

/-- A call of `send_frame` fails before its loop, or is its loop and the write-back. -/
theorem sendFrame_loop (s : SankakuSender) (id : UInt32) (frame : VideoFrame) (env : SendEnv) :
    (s.loop? W id frame env = none ∧ ∃ e s', s.sendFrame W id frame env = ⟨.error e, s', []⟩ ∧
      Prepared s s') ∨
    ∃ l, s.loop? W id frame env = some l ∧ l.Begins s id frame ∧
      s.sendFrame W id frame env = match (l.run env).result with
        | .error e => ⟨.error e, (l.run env).sender, (l.run env).sent⟩
        | .ok t => ⟨.ok (s.nextIndex id), (l.run env).sender.commitFrame id
            (FrameEnvelope.serialize ⟨frame.timestampUs, frame.keyframe, frame.payload⟩).length t,
            (l.run env).sent⟩ := by
  obtain ⟨sid, hsid⟩ := (ensureHandshake_spec s env.sessionId).2.1
  have hprepared := ensureHandshake_prepared s env.sessionId
  unfold sendFrame loop?
  generalize s.ensureHandshake env.sessionId = s₁ at hsid hprepared ⊢
  simp only
  cases hcodec : isSupportedVideoCodec frame.codec with
  | false => exact .inl ⟨rfl, _, _, rfl, hprepared⟩
  | true =>
  rcases register_cases s₁ id with ⟨why, he⟩ | ⟨streams, he, hget, hregister⟩
  · simp only [he]
    exact .inl ⟨rfl, _, _, rfl, hprepared⟩
  have hsame := hprepared.trans hregister
  rw [hprepared.states] at he hget
  obtain ⟨s₂, hs₂⟩ : ∃ s₂ : SankakuSender, s₂ = { s₁ with streams } := ⟨_, rfl⟩
  have hsid₂ : s₂.sessionId = some sid := by rw [hs₂]; exact hsid
  have hget₂ : s₂.streams.get id = some (s.streamState id) := by rw [hs₂]; exact hget
  rw [← hs₂] at hsame
  simp only [Bool.not_true, Bool.false_eq_true, if_false, he]
  rw [← hs₂, hsid]
  simp only [sendChunk]
  cases hplan : planChunk W s₂ ⟨sid, id⟩
      (FrameEnvelope.serialize ⟨frame.timestampUs, frame.keyframe, frame.payload⟩) frame.codec
      frame.kind (s.streamState id).nextFrameIndex env with
  | error e => exact .inl ⟨rfl, _, _, rfl, hsame⟩
  | ok plan =>
    obtain ⟨hcx, hidx, block, hprotects, hholds⟩ := planChunk_holds hcodec hplan
    refine .inr ⟨_, rfl, ⟨hsame, hget₂, ?_, ?_, ?_, rfl, ⟨block, hprotects, hholds⟩, _, rfl,
      UInt32.toNat_lt _, totalPackets_ge _ _ _ (blocks_lt hprotects)⟩, ?_⟩
    · rw [hcx]
      exact hsid₂
    · rw [hcx]
    · rw [hidx, nextIndex_state]
    · rw [nextIndex_state]
      rfl

theorem blocks_pos {plan : ChunkPlan W} (h : plan.Protects block) : 0 < plan.blocks := by
  have := h.size.1
  have := h.totalSize
  exact Nat.div_pos (by omega) h.pktSize.1

/-- A loop has a first droplet. -/
theorem Loop.Begins.ids_cons {l : Loop W} {id : UInt32} (h : l.Begins s id frame) :
    ∃ rest, l.ids = 0 :: rest := by
  obtain ⟨block, hprotects, _⟩ := h.block
  obtain ⟨n, hids, _, hblocks⟩ := h.ids
  have := blocks_pos hprotects
  obtain ⟨m, rfl⟩ : ∃ m, n = m + 1 := ⟨n - 1, by omega⟩
  exact ⟨_, by rw [hids, List.range_succ_eq_map, List.map_cons]; rfl⟩

/-- A loop that was handed to the transport in part failed for one of these reasons. -/
theorem Loop.Begins.why {l : Loop W} {id : UInt32} (h : l.Begins s id frame) (env : SendEnv)
    (failed : (l.run env).result = .error e) : e = .panicked ∨ (l.run env).sent = [] ∨
      (∃ j, ∃ e', l.plan.encoder.encode j = .error e') ∨
      (env.droplet 0).sendDatagram = .ok () ∧ ¬ TakesAll env l.ids := by
  by_cases encodes : ∀ j, ∃ data, l.plan.encoder.encode j = .ok data
  · obtain ⟨ids, hids⟩ := h.ids_cons
    by_cases taken : (env.droplet 0).sendDatagram = .ok ()
    · by_cases takes : TakesAll env l.ids
      · rw [hids] at takes
        rw [Loop.run, hids] at failed ⊢
        rcases sendDroplets_all l.sender l.plan env l.tuning 0 ids encodes
            (fun j hj => takes j (List.mem_cons_of_mem _ hj)) with ⟨t, hok⟩ | hpanic | hnone
        · rw [hok] at failed
          cases failed
        · rw [hpanic] at failed
          cases failed
          exact .inl rfl
        · exact .inr (.inl hnone)
      · exact .inr (.inr (.inr ⟨taken, takes⟩))
    · rw [Loop.run, hids]
      exact .inr (.inl (sendDroplets_refused l.sender l.plan env l.tuning 0 ids taken))
  · obtain ⟨j, hj⟩ := not_forall.mp encodes
    refine .inr (.inr (.inl ⟨j, ?_⟩))
    cases hd : l.plan.encoder.encode j with
    | error e' => exact ⟨e', rfl⟩
    | ok data => exact absurd ⟨data, hd⟩ hj

/-- Everything a call of `send_frame` can do. It fails before any packet left, or
it hands over the first packets of one chunk, all original ones if it succeeds. -/
inductive SendCase (W : Wirehair) (s : SankakuSender) (id : UInt32) (frame : VideoFrame)
    (env : SendEnv) : SendOutcome UInt64 → Prop
  | early (same : SameIndices s s') : SendCase W s id frame env ⟨.error e, s', []⟩
  | broken (e s') (plan : ChunkPlan W) (block n sent) (same : SameIndices s s')
    (session : s'.sessionId = some plan.context.sessionId)
    (stream : plan.context.streamId = id) (index : plan.frameIndex = s.nextIndex id)
    (protects : plan.Protects block) (holds : plan.Holds block frame)
    (packets : List.Forall₂ plan.IsPacket ((List.range n).map UInt32.ofNat) sent)
    (small : n < 2 ^ 32)
    (why : e = .panicked ∨ sent = [] ∨ (∃ j, ∃ e', plan.encoder.encode j = .error e') ∨
      ∃ l, s.loop? W id frame env = some l ∧ (env.droplet 0).sendDatagram = .ok () ∧
        ¬ TakesAll env l.ids) :
    SendCase W s id frame env ⟨.error e, s', sent⟩
  | sent (s') (plan : ChunkPlan W) (block n sent)
    (session : s'.sessionId = some plan.context.sessionId)
    (same : ∀ sid, s.sessionId = some sid → s'.sessionId = some sid)
    (nextStreamId : s'.nextStreamId = s.nextStreamId)
    (stream : plan.context.streamId = id) (index : plan.frameIndex = s.nextIndex id)
    (protects : plan.Protects block) (holds : plan.Holds block frame)
    (packets : List.Forall₂ plan.IsPacket ((List.range n).map UInt32.ofNat) sent)
    (small : n < 2 ^ 32) (all : plan.blocks ≤ n)
    (next : s'.nextIndex id = saturatingAdd64 (s.nextIndex id) 1)
    (others : ∀ id', id' ≠ id → s'.nextIndex id' = s.nextIndex id') :
    SendCase W s id frame env ⟨.ok (s.nextIndex id), s', sent⟩

theorem sendFrame_cases (s : SankakuSender) (id : UInt32) (frame : VideoFrame) (env : SendEnv) :
    SendCase W s id frame env (s.sendFrame W id frame env) := by
  rcases sendFrame_loop (W := W) s id frame env with
    ⟨_, e, s', he, hprepared⟩ | ⟨l, hloop, begins, heq⟩
  · rw [he]
    exact .early hprepared.same
  rw [heq]
  have hsame := begins.prepared.same
  obtain ⟨block, hprotects, hholds⟩ := begins.block
  obtain ⟨count, hids, hlt, hblocks⟩ := begins.ids
  obtain ⟨hkept, n, hpackets, hres⟩ := sendDroplets_sent l.sender l.plan env l.tuning l.ids
  change Kept l.sender (l.run env).sender at hkept
  change List.Forall₂ l.plan.IsPacket (l.ids.take n) (l.run env).sent at hpackets
  rw [hids, take_range_map] at hpackets
  have hsession : (l.run env).sender.sessionId = some l.plan.context.sessionId :=
    hkept.sessionId.trans begins.session
  have hsmall : min n count < 2 ^ 32 := by omega
  rcases hres with ⟨e, he⟩ | ⟨t, hok, hn⟩
  · change (l.run env).result = .error e at he
    simp only [he]
    exact .broken _ _ l.plan block _ _ (hsame.trans hkept.same) hsession begins.stream begins.index
      hprotects hholds hpackets hsmall
      ((begins.why env he).imp_right (Or.imp_right (Or.imp_right fun h => ⟨l, hloop, h⟩)))
  · change (l.run env).result = .ok t at hok
    simp only [hok]
    rw [hids, List.length_map, List.length_range] at hn
    have hget : (l.run env).sender.streams.get id = some (s.streamState id) := by
      rw [hkept.streams, begins.registered]
    obtain ⟨c, hc, _⟩ := Option.map_eq_some_iff.mp hget
    obtain ⟨hnext, hothers⟩ := nextIndex_commitFrame (l.run env).sender id
      (FrameEnvelope.serialize ⟨frame.timestampUs, frame.keyframe, frame.payload⟩).length t hc
    refine .sent _ l.plan block _ _ hsession (fun x hx => ?_) ?_ begins.stream begins.index hprotects
      hholds hpackets hsmall ?_ ?_ ?_
    · exact hkept.same.sessionId x (hsame.sessionId x hx)
    · exact hkept.nextStreamId.trans hsame.nextStreamId
    · rw [Nat.min_eq_right hn]
      exact hblocks
    · rw [hnext, hkept.same.indices, hsame.indices]
    · intro id' hid
      rw [hothers id' hid, hkept.same.indices, hsame.indices]

/-- No call changes a session once it is set. -/
theorem SendCase.session {id : UInt32} (h : SendCase W s id frame env o) :
    ∀ sid, s.sessionId = some sid → o.sender.sessionId = some sid := by
  cases h with
  | early same => exact same.sessionId
  | broken e s' plan block n sent same => exact same.sessionId
  | sent s' plan block n sent session same => exact same

/-- A call changes the index of its own stream only. -/
theorem SendCase.others {id : UInt32} (h : SendCase W s id frame env o) :
    ∀ id' : UInt32, id' ≠ id → o.sender.nextIndex id' = s.nextIndex id' := by
  cases h with
  | early same => exact fun id' _ => same.indices id'
  | broken e s' plan block n sent same => exact fun id' _ => same.indices id'
  | sent s' plan block n sent session same nextStreamId stream index protects holds packets small all
      next others =>
    exact others

theorem applyNetworkTelemetry_streams (s : SankakuSender) (id ppm jitter : UInt32) :
    ∃ streams, s.applyNetworkTelemetry id ppm jitter = { s with streams } := by
  unfold applyNetworkTelemetry
  split
  · exact ⟨_, rfl⟩
  · simp only
    split
    · exact ⟨s.streams, rfl⟩
    · exact ⟨_, rfl⟩

theorem sendStreamFin_sender (s : SankakuSender) (sessionId : UInt64) (id : UInt32)
    (bytes frames : UInt64) :
    (s.sendStreamFin sessionId id bytes frames).sender = s.ensureHandshake sessionId := by
  unfold sendStreamFin
  simp only
  split
  · rfl
  · split <;> rfl

end SankakuSender

/-- A call around which everything works, with this session id should one be
needed. -/
def SendEnv.live (sessionId : UInt64) : SendEnv := ⟨sessionId, none, fun _ => ⟨[], none, .ok ()⟩⟩

theorem parseDataPacket_dataDatagram (sid : UInt64) (h : DataHeader) (droplet : Bytes) :
    parseDataPacket (dataDatagram sid h droplet) = some (sid, h, droplet) := by
  simp [parseDataPacket]

theorem dataDatagram_append (sid : UInt64) (h : DataHeader) (droplet padding : Bytes) :
    dataDatagram sid h droplet ++ padding = dataDatagram sid h (droplet ++ padding) := by
  simp [dataDatagram]

theorem dataDatagram_type (sid : UInt64) (h : DataHeader) (droplet : Bytes) :
    (dataDatagram sid h droplet).head?.bind PacketType.fromByte = some .data := by
  rw [dataDatagram, List.head?_cons, Option.bind_some, PacketType.fromByte_toByte]

theorem datagramKey_dataDatagram (sid : UInt64) (h : DataHeader) (droplet : Bytes) :
    datagramKey (dataDatagram sid h droplet) = some ⟨sid, h.streamId⟩ := by
  simp [datagramKey, dataDatagram_type, parseDataPacket_dataDatagram]

/-- The packet with this header carries a droplet of the block, padded with zeros. -/
def CarriesBlock (W : Wirehair) (block : Bytes) (sid : UInt64) (h : DataHeader) (packet : Bytes) :
    Prop :=
  h.totalSize.toNat = block.length ∧
  ∃ e k, W.encoderCreate block (UInt32.ofNat h.pktSize.toNat) = some e ∧
    0 < (W.encode e h.seqId (UInt32.ofNat h.pktSize.toNat)).length ∧
    (W.encode e h.seqId (UInt32.ofNat h.pktSize.toNat)).length ≤ h.pktSize.toNat ∧
    packet = dataDatagram sid h
      (W.encode e h.seqId (UInt32.ofNat h.pktSize.toNat) ++ List.replicate k 0)

theorem CarriesBlock.parse (h : CarriesBlock W block sid hdr packet) :
    ∃ body, packet = dataDatagram sid hdr body ∧ parseDataPacket packet = some (sid, hdr, body) := by
  obtain ⟨_, e, k, _, _, _, rfl⟩ := h
  exact ⟨_, rfl, parseDataPacket_dataDatagram _ _ _⟩

namespace SankakuSender

theorem header_pktSize {plan : ChunkPlan W} (h : plan.Protects block) (seqId : UInt32) :
    (plan.header seqId).pktSize.toNat = plan.pktSize.toNat ∧
      UInt32.ofNat (plan.header seqId).pktSize.toNat = plan.pktSize := by
  have hlt := h.pktSize.2
  have hp : (plan.header seqId).pktSize.toNat = plan.pktSize.toNat := by
    rw [ChunkPlan.header, UInt16.toNat_ofNat', Nat.mod_eq_of_lt (by omega)]
  exact ⟨hp, by rw [hp, UInt32.ofNat_toNat]⟩

/-- The packets of a chunk carry the droplets of its block. -/
theorem ChunkPlan.IsPacket.carries {plan : ChunkPlan W} (h : plan.IsPacket seqId packet)
    (hp : plan.Protects block) :
    CarriesBlock W block plan.context.sessionId (plan.header seqId) packet := by
  obtain ⟨data, k, hdata, rfl⟩ := h
  obtain ⟨hsize, hof⟩ := header_pktSize hp seqId
  unfold WirehairEncoder.encode Wirehair.wirehairEncode at hdata
  rw [hp.packetSize] at hdata
  refine ⟨hp.totalSize, plan.encoder.inner, k, ?_⟩
  rw [hof, hsize]
  simp only at hdata
  split at hdata
  · rename_i written hw
    split at hw
    · cases hw
    rename_i hne
    cases hw
    split at hdata
    · cases hdata
    rename_i hle
    cases hdata
    exact ⟨hp.created, Nat.pos_of_ne_zero hne, not_lt.mp hle, dataDatagram_append _ _ _ _⟩
  · cases hdata

/-- An encoder that could be made encodes every id. -/
theorem ChunkPlan.Protects.encodes {plan : ChunkPlan W} (h : plan.Protects block)
    (encodes : W.EncodesAll) (j : UInt32) : ∃ data, plan.encoder.encode j = .ok data := by
  obtain ⟨hpos, hle⟩ := encodes block plan.pktSize plan.encoder.inner h.created j
  unfold WirehairEncoder.encode Wirehair.wirehairEncode
  rw [h.packetSize]
  simp only [Nat.ne_of_gt hpos, ↓reduceIte, not_lt.mpr hle]
  exact ⟨_, rfl⟩

end SankakuSender

end Sankaku
