import Sankaku.Proofs.Droplet
import Sankaku.Proofs.RepetitionWirehair

namespace Sankaku
open Machine LittleEndian

variable {W : Wirehair}

/-- A recovered block the packet's sender can have meant: a known mode byte and,
if its kind is the announced one, a frame envelope behind it. -/
structure BlockAcceptable (h : DataHeader) (block : Bytes) : Prop where
  mode : ∃ mode body, block = mode :: body ∧
    (mode = envelopeRawNal ∨ mode = envelopeRawSao ∨ mode = envelopeOpenzlSao)
  envelope : ∀ kind raw, (SankakuPipeline.newWithConfig .disabled).restoreFrame block h.streamId
      h.frameIndex = .ok (kind, raw) →
    kind.asHeaderFlag = h.kindFlag → (FrameEnvelope.deserialize raw).isSome

/-- A droplet the stream's state can take. Only one for the next frame matters:
its geometry must be one a decoder can be made for, unless one is open, and if
it completes the block, the block must be acceptable. -/
structure DropletAcceptable (h : DataHeader) (payload : Bytes) (st : StreamState W) : Prop where
  geometry : h.frameIndex = st.nextFrameIndex →
    st.decoderState.filter (fun d => d.frameIndex = h.frameIndex) = none →
    h.pktSize.toNat ≤ 1500 ∧ 2 ≤ divCeil h.totalSize.toNat h.pktSize.toNat ∧
      divCeil h.totalSize.toNat h.pktSize.toNat ≤ 64000
  block : h.frameIndex = st.nextFrameIndex → ∀ ds, openDecoder h st = .ok ds →
    ∀ d, ds.decoder.decode h.seqId payload = (.ok true, d) →
    ∃ block, d.recover = .ok block ∧ BlockAcceptable h block

/-- A media datagram the receiver can take: its stream, if there is one, is a video
stream, and the droplet is acceptable to it. -/
def MediaAcceptable (rt : ReceiverRuntime W) (env : RxEnv) (packet : Bytes) : Prop :=
  packet.head?.bind PacketType.fromByte = some .data →
  ∀ sid h body payload, parseDataPacket packet = some (sid, h, body) →
    admitDroplet env h body = some payload →
    (∀ context, rt.slot ⟨sid, h.streamId⟩ = some context → context.streamType = .video) ∧
    DropletAcceptable h payload
      (((rt.slot ⟨sid, h.streamId⟩).map StreamContext.state).getD (StreamState.default W))

/-- All but a ping whose pong is refused and such a media datagram. -/
def DatagramAcceptable (rt : ReceiverRuntime W) (env : RxEnv) (packet : Bytes) : Prop :=
  (RxInput.datagram env packet).Ponged ∧ MediaAcceptable rt env packet

/-- A control stream that holds the length and as many bytes as it announces. -/
def ControlStreamAcceptable (contents : Bytes) : Prop :=
  4 ≤ contents.length ∧ 4 + ofLE (contents.take 4) ≤ contents.length

def Acceptable (s : RunningReceiver W) : PeerInput → Prop
  | .datagram env packet => DatagramAcceptable s.runtime env packet
  | .controlStream _ contents => ControlStreamAcceptable contents

theorem restoreFrame_ok_iff (p : SankakuPipeline) (block : Bytes) (s : UInt32) (f : UInt64) :
    (∃ restored, p.restoreFrame block s f = .ok restored) ↔ ∃ mode body, block = mode :: body ∧
      (mode = envelopeRawNal ∨ mode = envelopeRawSao ∨ mode = envelopeOpenzlSao) := by
  cases block with
  | nil => simp [SankakuPipeline.restoreFrame]
  | cons mode body =>
    simp only [SankakuPipeline.restoreFrame, process_ok, List.cons.injEq]
    split
    · rename_i h
      simp [h]
    split
    · rename_i h
      simp [h]
    split
    · rename_i h
      simp [h]
    · simp_all

/-- The block is taken without error exactly if it is acceptable. -/
theorem openBlock_ok_iff (h : DataHeader) (block : Bytes) :
    (∃ content, openBlock h block = .ok content) ↔ BlockAcceptable h block := by
  have hmode := restoreFrame_ok_iff (.newWithConfig .disabled) block h.streamId h.frameIndex
  cases hr : (SankakuPipeline.newWithConfig .disabled).restoreFrame block h.streamId
      h.frameIndex with
  | error why =>
    refine iff_of_false ?_ (fun ha => ?_)
    · simp [openBlock, hr]
    · obtain ⟨restored, hok⟩ := hmode.mpr ha.mode
      rw [hr] at hok
      cases hok
  | ok restored =>
    obtain ⟨kind, raw⟩ := restored
    have hknown := hmode.mp ⟨_, hr⟩
    by_cases hk : kind.asHeaderFlag = h.kindFlag
    · cases he : FrameEnvelope.deserialize raw with
      | none =>
        refine iff_of_false ?_ (fun ha => ?_)
        · simp [openBlock, hr, hk, he]
        · have := ha.envelope kind raw hr hk
          rw [he] at this
          cases this
      | some e =>
        refine iff_of_true ⟨some (kind, e), ?_⟩ ⟨hknown, fun kind' raw' hr' _ => ?_⟩
        · simp [openBlock, hr, hk, he]
        · rw [hr] at hr'
          cases hr'
          rw [he]
          rfl
    · refine iff_of_true ⟨none, ?_⟩ ⟨hknown, fun kind' raw' hr' hk' => ?_⟩
      · simp [openBlock, hr, hk]
      · rw [hr] at hr'
        cases hr'
        exact absurd hk' hk

/-- A decoder can be made exactly within the limits of the codec and the wrapper. -/
theorem newDecoder_ok_iff (limits : W.CreatesWithinLimits) (h : DataHeader)
    (ht : 0 < h.totalSize.toNat ∧ h.totalSize.toNat ≤ 512 * 1024) (hp : 0 < h.pktSize.toNat) :
    (∃ d, WirehairDecoder.new W (UInt64.ofNat h.totalSize.toNat) (UInt32.ofNat h.pktSize.toNat) =
      .ok d) ↔
    h.pktSize.toNat ≤ 1500 ∧ 2 ≤ divCeil h.totalSize.toNat h.pktSize.toNat ∧
      divCeil h.totalSize.toNat h.pktSize.toNat ≤ 64000 := by
  have hplt := h.pktSize.toNat_lt
  have hm : (UInt64.ofNat h.totalSize.toNat).toNat = h.totalSize.toNat := by
    rw [UInt64.toNat_ofNat', Nat.mod_eq_of_lt (by omega)]
  have hb : (UInt32.ofNat h.pktSize.toNat).toNat = h.pktSize.toNat := by
    rw [UInt32.toNat_ofNat', Nat.mod_eq_of_lt (by omega)]
  generalize UInt64.ofNat h.totalSize.toNat = m at hm ⊢
  generalize UInt32.ofNat h.pktSize.toNat = b at hb ⊢
  have hm0 : m ≠ 0 := fun h0 => by rw [h0] at hm; simp at hm; omega
  have hb0 : b ≠ 0 := fun h0 => by rw [h0] at hb; simp at hb; omega
  have hcreate := limits ⟨m, b⟩ hm0 hb0
  rw [Geometry.count, hm, hb] at hcreate
  have hbig : b > maxWirehairPacketBytes ↔ 1500 < h.pktSize.toNat := by
    rw [gt_iff_lt, UInt32.lt_iff_toNat_lt, hb]
    rfl
  unfold WirehairDecoder.new
  rw [if_neg (by rw [hm, maxWirehairMessageBytes]; simp only [hm0, false_or]; omega)]
  rw [if_congr (by simp only [hb0, false_or]; exact hbig) rfl rfl]
  split
  · rename_i hover
    exact iff_of_false (by simp) (by omega)
  · rename_i hover
    cases hc : W.decoderCreate m b with
    | none =>
      have := hcreate.mp hc
      exact iff_of_false (by simp) (by omega)
    | some d =>
      have : ¬ _ := fun hl => by simpa [hc] using hcreate.mpr hl
      exact iff_of_true ⟨_, rfl⟩ (by omega)

theorem openDecoder_ok_iff (limits : W.CreatesWithinLimits) (h : DataHeader) (st : StreamState W)
    (ht : 0 < h.totalSize.toNat ∧ h.totalSize.toNat ≤ 512 * 1024) (hp : 0 < h.pktSize.toNat) :
    (∃ ds, openDecoder h st = .ok ds) ↔
    (st.decoderState.filter (fun d => d.frameIndex = h.frameIndex) = none →
      h.pktSize.toNat ≤ 1500 ∧ 2 ≤ divCeil h.totalSize.toNat h.pktSize.toNat ∧
        divCeil h.totalSize.toNat h.pktSize.toNat ≤ 64000) := by
  rw [← newDecoder_ok_iff limits h ht hp]
  unfold openDecoder
  cases hf : st.decoderState.filter (fun d => d.frameIndex = h.frameIndex) with
  | some ds => simp
  | none =>
    simp only [forall_const]
    cases WirehairDecoder.new W (UInt64.ofNat h.totalSize.toNat)
      (UInt32.ofNat h.pktSize.toNat) <;> simp

/-- With a decoder at hand only a block that comes out of it matters. -/
theorem acceptable_opened (limits : W.CreatesWithinLimits) {st : StreamState W}
    (admitted : Admitted env h body payload) (next : h.frameIndex = st.nextFrameIndex)
    (opened : openDecoder h st = .ok ds)
    (decoded : ds.decoder.decode h.seqId payload = (verdict, d)) :
    DropletAcceptable h payload st ↔ (verdict = .ok true →
      ∃ block, d.recover = .ok block ∧ ∃ content, openBlock h block = .ok content) := by
  constructor
  · rintro ha rfl
    obtain ⟨block, hrecovered, hblock⟩ := ha.block next ds opened d decoded
    exact ⟨block, hrecovered, (openBlock_ok_iff h block).mpr hblock⟩
  · intro h
    constructor
    · intro _
      exact (openDecoder_ok_iff limits _ st admitted.totalSize admitted.pktSize.1).mp ⟨ds, opened⟩
    · intro _ ds' hds' d' hd'
      rw [opened] at hds'
      cases hds'
      rw [decoded] at hd'
      cases hd'
      obtain ⟨block, hrecovered, hblock⟩ := h rfl
      exact ⟨block, hrecovered, (openBlock_ok_iff _ block).mp hblock⟩

/-- A droplet is handled without error exactly if it is acceptable. -/
theorem receiveDroplet_ok_iff (limits : W.CreatesWithinLimits) {env : RxEnv} (alive : env.Alive)
    (p : SankakuPipeline) (sid : UInt64) (st : StreamState W)
    (admitted : Admitted env h body payload) :
    (receiveDroplet env p sid h payload st).error = none ↔ DropletAcceptable h payload st := by
  have hr := receiveDroplet_cases env p sid h payload st
  generalize receiveDroplet env p sid h payload st = o at hr
  cases hr with
  | unreported w r control =>
    rw [alive.control] at control
    cases control
  | otherFrame w r fb noFrame other =>
    exact iff_of_true rfl ⟨fun next => absurd next other, fun next => absurd next other⟩
  | noDecoder w r fb noFrame next opened =>
    apply iff_of_false (by simp)
    intro ha
    obtain ⟨ds, hds⟩ := (openDecoder_ok_iff limits h st admitted.totalSize
      admitted.pktSize.1).mpr (ha.geometry next)
    rw [opened] at hds
    cases hds
  | waiting w r fb noFrame next opened decoded =>
    rw [acceptable_opened limits admitted next opened decoded]
    exact iff_of_true rfl (fun hok => by cases hok)
  | refused w r fb noFrame next opened decoded =>
    rw [acceptable_opened limits admitted next opened decoded]
    exact iff_of_true rfl (fun hok => by cases hok)
  | unrecoverable w r fb noFrame next opened decoded recovered =>
    rw [acceptable_opened limits admitted next opened decoded]
    simp [recovered]
  | rejected w r fb noFrame next opened decoded recovered malformed =>
    rw [acceptable_opened limits admitted next opened decoded]
    simp [recovered, malformed]
  | otherKind w r fb noFrame next opened decoded recovered announced =>
    rw [acceptable_opened limits admitted next opened decoded]
    exact iff_of_true rfl (fun _ => ⟨_, recovered, _, announced⟩)
  | delivered w r fb rest err noFrame noMore next opened decoded recovered content control =>
    rw [acceptable_opened limits admitted next opened decoded]
    exact iff_of_true (control alive.control) (fun _ => ⟨_, recovered, _, content⟩)

theorem slotData_ok_iff (limits : W.CreatesWithinLimits) {env : RxEnv} (alive : env.Alive)
    (R : SankakuReceiver) (slot : Slot W) (packet : Bytes) :
    (slotData R env slot packet).error = none ↔
    ∀ sid h body payload, parseDataPacket packet = some (sid, h, body) →
      admitDroplet env h body = some payload →
      (∀ context, slot = some context → context.streamType = .video) ∧
      DropletAcceptable h payload ((slot.map StreamContext.state).getD (StreamState.default W)) := by
  unfold slotData
  cases hp : parseDataPacket packet with
  | none => simp [done]
  | some d =>
  obtain ⟨sid, h, body⟩ := d
  simp only
  cases ha : admitDroplet env h body with
  | none =>
    apply iff_of_true rfl
    intro sid' h' body' payload' hp' ha'
    cases hp'
    rw [ha] at ha'
    cases ha'
  | some payload =>
  have admitted := (admitDroplet_iff env h body payload).mp ha
  have hok := receiveDroplet_ok_iff limits alive R.buildReceiverPipeline sid
    ((slot.map StreamContext.state).getD (StreamState.default W)) admitted
  have hthis : (∀ sid' h' body' payload', some (sid, h, body) = some (sid', h', body') →
      admitDroplet env h' body' = some payload' →
      (∀ context, slot = some context → context.streamType = .video) ∧
      DropletAcceptable h' payload' ((slot.map StreamContext.state).getD (StreamState.default W))) ↔
      (∀ context, slot = some context → context.streamType = .video) ∧
      DropletAcceptable h payload ((slot.map StreamContext.state).getD (StreamState.default W)) := by
    constructor
    · intro hall
      exact hall sid h body payload rfl ha
    · intro hone sid' h' body' payload' hp' ha'
      cases hp'
      rw [ha] at ha'
      cases ha'
      exact hone
  rw [hthis, ← hok]
  cases slot with
  | none => simp [slotDroplet]
  | some context =>
    by_cases ht : context.streamType = .video
    · simp [slotDroplet, ht]
    · simp [slotDroplet, ht]

/-- A packet off a control stream is always handled without error. -/
theorem mediaStep_control_ok {env : RxEnv} (alive : env.Alive) (R : SankakuReceiver)
    (rt : ReceiverRuntime W) (packet : Bytes) :
    (mediaStep R rt (.control env packet)).error = none := by
  cases hk : (RxInput.control env packet).key with
  | none => exact (mediaStep_idle R rt _ hk).error.mpr trivial
  | some k =>
    rw [(mediaStep_acts R rt _ hk).error]
    simp only [slotStep]
    split
    · unfold slotFin
      split
      · rfl
      · rw [if_pos alive.control]
    · rfl

/-- A datagram is handled without error exactly if it is acceptable. -/
theorem mediaStep_datagram_ok_iff (limits : W.CreatesWithinLimits) {env : RxEnv} (alive : env.Alive)
    (R : SankakuReceiver) (rt : ReceiverRuntime W) (packet : Bytes) :
    (mediaStep R rt (.datagram env packet)).error = none ↔ DatagramAcceptable rt env packet := by
  cases hk : (RxInput.datagram env packet).key with
  | none =>
    rw [(mediaStep_idle R rt _ hk).error, DatagramAcceptable, iff_self_and]
    intro _ htype sid h body payload hp _
    simp [RxInput.key, datagramKey, htype, hp] at hk
  | some k =>
    rw [(mediaStep_acts R rt _ hk).error]
    simp only [RxInput.key, datagramKey] at hk
    have ponged : (RxInput.datagram env packet).Ponged := .of_other fun hping => by
      rw [hping] at hk
      cases hk
    rw [DatagramAcceptable, and_iff_right ponged]
    simp only [slotStep, MediaAcceptable]
    split
    · rename_i htype
      rw [slotData_ok_iff limits alive]
      rw [htype] at hk
      simp only [htype, forall_const]
      refine forall_congr' fun sid => forall_congr' fun h => forall_congr' fun body =>
        forall_congr' fun payload => ⟨fun hs hp => ?_, fun hs hp => ?_⟩ <;>
      · rw [hp] at hk
        cases hk
        exact hs hp
    · rename_i htype
      simp only [htype, Option.some.injEq, reduceCtorEq, false_implies, iff_true]
      unfold slotAudio
      split
      · rfl
      · split <;> rfl
    · rename_i hdata _
      exact iff_of_true rfl (fun htype => absurd htype hdata)

theorem recvControl_ok_iff (contents : Bytes) :
    (∃ packet, recvControl contents = .ok packet) ↔ ControlStreamAcceptable contents := by
  unfold recvControl ControlStreamAcceptable
  rw [List.length_drop]
  split
  · exact iff_of_false (by simp) (by omega)
  · simp only
    split
    · exact iff_of_false (by simp) (by omega)
    · exact iff_of_true ⟨_, rfl⟩ (by omega)

/-- One input leaves the receiver running exactly if it is acceptable. -/
theorem peerStep_ok_iff (limits : W.CreatesWithinLimits) (R : SankakuReceiver)
    {s : RunningReceiver W} (running : s.reading = true) (i : PeerInput) (alive : i.env.Alive) :
    (peerStep R s i).error = none ∧ (peerStep R s i).state.reading = true ↔ Acceptable s i := by
  cases i with
  | datagram env packet =>
    simp only [peerStep, RunningReceiver.handle, running, and_true, Acceptable]
    exact mediaStep_datagram_ok_iff limits alive R s.runtime packet
  | controlStream env contents =>
    simp only [peerStep, running, ↓reduceIte, Acceptable]
    rw [← recvControl_ok_iff]
    cases recvControl contents with
    | error why => exact iff_of_false (by simp [done]) (by simp)
    | ok packet =>
      exact iff_of_true ⟨mediaStep_control_ok alive R s.runtime packet, running⟩ ⟨_, rfl⟩

/-- A stopped reading task stays stopped. -/
theorem peerStep_stopped (R : SankakuReceiver) (s : RunningReceiver W) (i : PeerInput)
    (h : ¬ s.reading = true) : ¬ (peerStep R s i).state.reading = true := by
  cases i with
  | datagram env packet => exact h
  | controlStream env contents =>
    rw [peerStep, if_neg h]
    exact h

def RunningReceiver.start (W : Wirehair) : RunningReceiver W := ⟨.default W, true⟩

/-- The receiver and its reading task come through a run of arbitrary datagrams
and control streams if and only if every one of them is acceptable in the state
it meets. -/
theorem receiver_runs_iff (limits : W.CreatesWithinLimits) (R : SankakuReceiver)
    (inputs : List PeerInput) (alive : ∀ i ∈ inputs, i.env.Alive) :
    (run (peerStep R) (.start W) inputs).error = none ∧
      (run (peerStep R) (.start W) inputs).state.reading = true ↔
    Along (peerStep R) Acceptable (.start W) inputs :=
  Along.iff_ok (fun s : RunningReceiver W => s.reading = true)
    (fun _ i hi running => peerStep_ok_iff limits R running i (alive i hi))
    (peerStep_stopped R) rfl

/-- A droplet, then the stream's end on a whole control stream. -/
theorem receiver_runs_dropletAndFin :
    Along (peerStep ⟨.disabled, [], true⟩) Acceptable (.start .repetition)
      [.datagram (.live 0) (dataDatagram 1 ⟨2, 0, 0, 2, 1, 0, videoCodecHevc⟩ [0]),
       .controlStream (.live 1) (sendControl (PacketType.streamFin.toByte ::
         StreamFinPacket.serialize ⟨1, 2, 0, 0⟩))] :=
  (receiver_runs_iff Wirehair.repetition_createsWithinLimits ⟨.disabled, [], true⟩ _
    (by simp [PeerInput.env, RxEnv.live_alive])).mp (by decide +kernel)

/-- Bytes that stop the receiver, though all around it works: a geometry of one
block, a media datagram for a stream an audio packet registered, and a control
stream that ends early. -/
theorem peer_stops_receiver :
    let R : SankakuReceiver := ⟨.disabled, [], true⟩
    let video (totalSize : UInt32) :=
      dataDatagram 1 ⟨2, 0, 0, totalSize, 1, 0, videoCodecHevc⟩ [0]
    let audio : Bytes := PacketType.audio.toByte ::
      (le64 1 ++ le32 2 ++ le64 0 ++ [audioCodecOpus] ++ le32 1 ++ le32 1 ++ [0])
    Wirehair.repetition.CreatesWithinLimits ∧ (∀ now, (RxEnv.live now).Alive) ∧
    (run (peerStep R) (.start .repetition) [.datagram (.live 0) (video 1)]).error =
      some "Wirehair initialization failed" ∧
    (run (peerStep R) (.start .repetition)
      [.datagram (.live 0) audio, .datagram (.live 1) (video 2)]).error =
      some (wrongStreamType 2 .audio .video) ∧
    (run (peerStep R) (.start .repetition) [.controlStream (.live 0) [9]]).state.reading =
      false := by
  refine ⟨Wirehair.repetition_createsWithinLimits, RxEnv.live_alive, ?_⟩
  decide +kernel

end Sankaku
