import Sankaku.Proofs.Transmission

namespace Sankaku
open Machine SankakuSender

variable {W : Wirehair}

/-- A delivered frame in the sender's terms. -/
def InboundVideoFrame.asSent (f : InboundVideoFrame) : Except SendError UInt64 × VideoFrame :=
  (.ok f.frameIndex, ⟨f.timestampUs, f.keyframe, f.codec, f.kind, f.payload⟩)

/-- The state in the slot, that of a new stream while there is none. -/
def Slot.state (slot : Slot W) : StreamState W :=
  (slot.map StreamContext.state).getD (StreamState.default W)

@[simp] theorem Slot.state_some (type : StreamType) (st : StreamState W) :
    Slot.state (some ⟨type, st⟩) = st := rfl

def Slot.IsVideo (slot : Slot W) : Prop := ∀ c, slot = some c → c.streamType = .video

theorem Slot.isVideo_none : Slot.IsVideo (W := W) none := fun _ h => by cases h

theorem Slot.isVideo_some (st : StreamState W) : Slot.IsVideo (some ⟨.video, st⟩) := by
  intro c h
  cases h
  rfl

/-- The frames a stream hands over in a run. The loop goes on after an error. -/
def Slot.handed (R : SankakuReceiver) (slot : Slot W) (is : List RxInput) :
    List InboundVideoFrame :=
  framesOf (run (carryOn (slotStep R)) slot is).out

theorem Slot.handed_append (R : SankakuReceiver) (slot : Slot W) (xs ys : List RxInput) :
    slot.handed R (xs ++ ys) =
      slot.handed R xs ++ Slot.handed R (run (carryOn (slotStep R)) slot xs).state ys := by
  rw [Slot.handed, run_carryOn_append_out, framesOf_append]
  rfl

/-- The same, in a run of the whole receiver. -/
def ReceiverRuntime.handed (R : SankakuReceiver) (rt : ReceiverRuntime W) (k : StreamKey)
    (is : List RxInput) : List InboundVideoFrame :=
  framesOf ((run (carryOn (mediaStep R)) rt is).out.filter (reads k))

/-- What a stream hands over depends on its own packets. -/
theorem handed_slot (R : SankakuReceiver) (rt : ReceiverRuntime W) (k : StreamKey)
    (is : List RxInput) : rt.handed R k is = (rt.slot k).handed R (is.filter (concerns k)) := by
  rw [ReceiverRuntime.handed, Slot.handed,
    ((stream_component R k).carryOn.project run_carryOn_error).2.2]

theorem slotDroplet_video (R : SankakuReceiver) (env : RxEnv) (sid : UInt64) (h : DataHeader)
    (payload : Bytes) {slot : Slot W} (video : slot.IsVideo) :
    slotDroplet R env sid h payload slot =
      let r := receiveDroplet env R.buildReceiverPipeline sid h payload slot.state
      ⟨some ⟨.video, r.state⟩, r.out, r.error⟩ := by
  cases slot with
  | none => rfl
  | some c =>
    simp only [slotDroplet, video c rfl, ne_eq, not_true_eq_false, ↓reduceIte]
    rfl

theorem slotStep_data (R : SankakuReceiver) (env : RxEnv) (slot : Slot W)
    (ht : packet.head?.bind PacketType.fromByte = some .data)
    (hp : parseDataPacket packet = some (sid, h, body)) :
    slotStep R slot (.datagram env packet) =
      match admitDroplet env h body with
      | none => done slot
      | some payload => slotDroplet R env sid h payload slot := by
  cases hadmitted : admitDroplet env h body <;>
    simp only [slotStep, ht, slotData, hp, hadmitted]

/-- What the receiver feeds its decoder of a packet. -/
def Transmission.payload (t : Transmission W) (packet : Bytes) : Bytes :=
  (packet.drop dataPrefixSize).take t.plan.pktSize.toNat

theorem Transmission.carried (t : Transmission W) (hp : t.plan.IsPacket seqId packet) :
    ∃ body, packet = dataDatagram t.key.sessionId (t.plan.header seqId) body ∧
      ∀ env, t.plan.pktSize.toNat ≤ maxDatagramPayload env →
        Admitted env (t.plan.header seqId) body (t.payload packet) := by
  have hc := hp.carries t.protects
  obtain ⟨hsize, _⟩ := header_pktSize t.protects seqId
  obtain ⟨hlen, e, k, _, hpos, _, rfl⟩ := hc
  refine ⟨_, rfl, fun env hroom => ⟨?_, ?_, ?_, ?_, ?_, ?_⟩⟩
  · rw [hlen]
    exact t.protects.size
  · rw [hsize]
    exact ⟨t.protects.pktSize.1, hroom⟩
  · simp [ChunkPlan.header]
  · rw [ChunkPlan.header, t.holds.codec.1]
    exact t.holds.codec.2
  · rw [hsize, Transmission.payload]
    simp
  · intro hnil
    have := congrArg List.length hnil
    have hpkt := t.protects.pktSize.1
    simp only [Transmission.payload, dataDatagram_droplet, List.length_take, List.length_append,
      List.length_nil] at this
    omega

theorem Transmission.droplet (t : Transmission W) (hp : t.plan.IsPacket seqId packet) :
    W.IsDroplet t.geometry t.block seqId (t.payload packet) ∧ t.payload packet ≠ [] := by
  obtain ⟨body, rfl, hadmits⟩ := t.carried hp
  have hroom := hadmits ⟨0, some 4096, true, true, .ok ()⟩
    (le_trans t.protects.pktSize.2 (by decide))
  exact ⟨(hp.carries t.protects).droplet hroom, hroom.payload.2⟩

/-- A packet of a transmission is ignored by a receiver with a smaller datagram
limit; others take its droplet. -/
theorem Transmission.slotStep_packet (t : Transmission W) (R : SankakuReceiver) (env : RxEnv)
    {slot : Slot W} (video : slot.IsVideo) (hp : t.plan.IsPacket seqId packet) :
    slotStep R slot (.datagram env packet) =
      if t.plan.pktSize.toNat ≤ maxDatagramPayload env then
        let r := receiveDroplet env R.buildReceiverPipeline t.key.sessionId (t.plan.header seqId)
          (t.payload packet) slot.state
        ⟨some ⟨.video, r.state⟩, r.out, r.error⟩
      else done slot := by
  obtain ⟨body, hbody, hadmits⟩ := t.carried hp
  obtain ⟨hsize, _⟩ := header_pktSize t.protects seqId
  rw [hbody, slotStep_data R env slot (dataDatagram_type _ _ _) (parseDataPacket_dataDatagram _ _ _),
    ← hbody]
  by_cases hroom : t.plan.pktSize.toNat ≤ maxDatagramPayload env
  · rw [(admitDroplet_iff env _ body _).mpr (hadmits env hroom), if_pos hroom]
    exact slotDroplet_video R env _ _ _ video
  · rw [if_neg hroom]
    cases ha : admitDroplet env (t.plan.header seqId) body with
    | none => rfl
    | some payload =>
      have := ((admitDroplet_iff env _ body payload).mp ha).pktSize.2
      rw [hsize] at this
      exact absurd this hroom

/-- The stream has handed over the first transmissions, and its decoder, if it
is for the next one, took droplets of that one only. -/
structure Following (ts : List (Transmission W)) (st : StreamState W)
    (frames : List InboundVideoFrame) : Prop where
  next : st.nextFrameIndex.toNat = frames.length
  handed : frames.map InboundVideoFrame.asSent =
    (ts.take frames.length).map (fun t => t.call.asSent)
  decoder : ∀ ds, st.decoderState = some ds → ds.frameIndex = st.nextFrameIndex →
    ∃ t xs, ts[frames.length]? = some t ∧ ds.FedBlock t.geometry t.block xs

theorem following_default (ts : List (Transmission W)) :
    Following ts (StreamState.default W) [] :=
  ⟨rfl, rfl, by simp [StreamState.default]⟩

theorem Following.seen {ts : List (Transmission W)} {st : StreamState W}
    (h : Following ts st frames) (w : LossFeedbackWindow) (r : ℚ) :
    Following ts (st.seen w r) frames := ⟨h.next, h.handed, h.decoder⟩

theorem Following.closed {ts : List (Transmission W)} {st : StreamState W}
    (h : Following ts st frames) : Following ts (st.withDecoder none) frames :=
  ⟨h.next, h.handed, by simp⟩

/-- The decoder that takes a droplet of the next transmission took only such. -/
theorem Following.opened {t : Transmission W} {ts : List (Transmission W)} {st : StreamState W}
    (h : Following ts st frames) (ht : ts[frames.length]? = some t)
    (next : (t.plan.header seqId).frameIndex = st.nextFrameIndex)
    (ho : openDecoder (t.plan.header seqId) st = .ok ds) :
    ds.frameIndex = st.nextFrameIndex ∧ ∃ xs, ds.FedBlock t.geometry t.block xs := by
  obtain ⟨hframe, hold | ⟨_, hnew⟩⟩ := openDecoder_taken ho
  · obtain ⟨t', xs, ht', hfed⟩ := h.decoder ds hold (hframe.trans next)
    rw [ht] at ht'
    cases ht'
    exact ⟨hframe.trans next, xs, hfed⟩
  · exact ⟨hframe.trans next, [], hnew, by simp⟩

/-- What a recovered block of a transmission is handed over as. -/
theorem Transmission.handedAs (t : Transmission W) (seqId : UInt32) :
    ∃ kind e, openBlock (t.plan.header seqId) t.block = .ok (some (kind, e)) ∧
      ∀ sid r, (inboundFrame sid (t.plan.header seqId) r kind e).asSent = t.call.asSent := by
  have hkind : (t.plan.header seqId).kindFlag = t.call.frame.kind.asHeaderFlag := by
    rw [ChunkPlan.header, t.holds.kind]
  refine ⟨_, _, t.holds.content _ hkind, fun sid r => ?_⟩
  simp only [InboundVideoFrame.asSent, inboundFrame, Call.asSent, t.result, ChunkPlan.header,
    t.holds.codec.1]

/-- A droplet of a transmission, whatever it does, keeps the stream following. -/
theorem Received.following (sound : W.Sound) {t : Transmission W} {ts : List (Transmission W)}
    {st : StreamState W} (hr : Received env sid (t.plan.header seqId) payload st o) (h : Following ts st frames)
    (ht : ts[t.plan.frameIndex.toNat]? = some t) (few : ts.length < 2 ^ 64)
    (droplet : W.IsDroplet t.geometry t.block seqId payload) :
    Following ts o.state (frames ++ framesOf o.out) := by
  have place : (t.plan.header seqId).frameIndex = st.nextFrameIndex →
      ts[frames.length]? = some t := by
    intro next
    rw [← h.next, ← next]
    exact ht
  cases hr with
  | unreported w r control => simpa using h.seen w r
  | otherFrame w r fb noFrame other => simpa [noFrame] using h.seen w r
  | noDecoder w r fb noFrame next opened => simpa [noFrame] using (h.seen w r).closed
  | refused w r fb noFrame next opened decoded => simpa [noFrame] using (h.seen w r).closed
  | waiting w r fb noFrame next opened decoded =>
    obtain ⟨_, xs, hfed⟩ := h.opened (place next) next opened
    rw [noFrame, List.append_nil]
    refine ⟨h.next, h.handed, fun ds' hds' _ => ?_⟩
    cases hds'
    exact ⟨t, _, place next, hfed.waiting droplet decoded⟩
  | unrecoverable w r fb noFrame next opened decoded recovered =>
    obtain ⟨_, xs, hfed⟩ := h.opened (place next) next opened
    rw [hfed.recovers sound droplet decoded] at recovered
    cases recovered
  | rejected w r fb noFrame next opened decoded recovered malformed =>
    simpa [noFrame] using (h.seen w r).closed
  | otherKind w r fb noFrame next opened decoded recovered announced =>
    simpa [noFrame] using (h.seen w r).closed
  | delivered w r fb rest err noFrame noMore next opened decoded recovered content control =>
    obtain ⟨_, xs, hfed⟩ := h.opened (place next) next opened
    rw [hfed.recovers sound droplet decoded] at recovered
    cases recovered
    obtain ⟨kind, e, hopen, hsent⟩ := t.handedAs seqId
    rw [hopen] at content
    cases content
    have hlt := (List.getElem?_eq_some_iff.mp (place next)).1
    rw [framesOf_append, noFrame, framesOf_cons, noMore, List.nil_append, List.append_nil]
    refine ⟨?_, ?_, by simp⟩
    · rw [accept_next, withDecoder_next, seen_next,
        saturatingAdd64_one (by rw [h.next]; omega), h.next, List.length_append]
      rfl
    · simp only [Output.frame?, Option.toList_some, List.map_append, List.length_append,
        List.length_singleton, List.take_add_one, place next, h.handed, List.map_cons, List.map_nil,
        hsent]

theorem Transmission.isPacket (t : Transmission W) (h : packet ∈ t.call.sent) :
    ∃ seqId, t.plan.IsPacket seqId packet := by
  obtain ⟨i, hi, rfl⟩ := List.mem_iff_getElem.mp h
  exact ⟨_, t.packets.get (by rw [t.packets.length_eq]; exact hi) hi⟩

/-- A datagram of one of these transmissions. -/
def IsFrom (ts : List (Transmission W)) (i : RxInput) : Prop :=
  ∃ env packet, ∃ t : Transmission W, i = .datagram env packet ∧ packet ∈ t.call.sent ∧
    ts[t.plan.frameIndex.toNat]? = some t

theorem slotStep_following (sound : W.Sound) (R : SankakuReceiver) {ts : List (Transmission W)}
    {slot : Slot W} (few : ts.length < 2 ^ 64) (hi : IsFrom ts i) (video : slot.IsVideo)
    (h : Following ts slot.state frames) :
    (slotStep R slot i).state.IsVideo ∧
      Following ts (slotStep R slot i).state.state (frames ++ framesOf (slotStep R slot i).out) := by
  obtain ⟨env, packet, t, rfl, hp, ht⟩ := hi
  obtain ⟨seqId, hpacket⟩ := t.isPacket hp
  rw [t.slotStep_packet R env video hpacket]
  split
  · have hr := receiveDroplet_cases env R.buildReceiverPipeline t.key.sessionId
      (t.plan.header seqId) (t.payload packet) slot.state
    exact ⟨Slot.isVideo_some _, hr.following sound h ht few (t.droplet hpacket).1⟩
  · exact ⟨video, by simpa [done] using h⟩

/-- However the datagrams of a stream arrive, its frames come out in the order
they were sent, with none left out before the last. -/
theorem frames_following (sound : W.Sound) (R : SankakuReceiver) {ts : List (Transmission W)}
    (few : ts.length < 2 ^ 64) (is : List RxInput) (from' : ∀ i ∈ is, IsFrom ts i) :
    (Slot.handed (W := W) R none is).map InboundVideoFrame.asSent <+:
      ts.map (fun t => t.call.asSent) := by
  let P (slot : Slot W) (out : List Output) : Prop :=
    slot.IsVideo ∧ Following ts slot.state (framesOf out)
  have start : P none [] := ⟨Slot.isVideo_none, following_default ts⟩
  have hrun : P (run (carryOn (slotStep R)) none is).state
      ([] ++ (run (carryOn (slotStep R)) none is).out) := run_keeps P (fun slot out i hi h => by
    simpa [P] using slotStep_following sound R few (from' i hi) h.1 h.2) start
  rw [Slot.handed, ← List.nil_append (run _ _ _).out, hrun.2.handed]
  exact (List.take_prefix _ _).map _

end Sankaku
