import Sankaku.Proofs.Delivery

namespace Sankaku
open Machine SankakuSender Erasure

variable {W : Wirehair}

/-- The frame a Data datagram is of. -/
def RxInput.frame? : RxInput → Option UInt64
  | .datagram _ packet =>
    match packet.head?.bind PacketType.fromByte with
    | some .data => (parseDataPacket packet).map (fun d => d.2.1.frameIndex)
    | _ => none
  | .control _ _ => none

def RxInput.packet : RxInput → Bytes
  | .datagram _ packet => packet
  | .control _ packet => packet

/-- The receiver's own datagram limit leaves the packet in. -/
def RxInput.Fits (i : RxInput) : Prop :=
  ∀ sid h body, parseDataPacket i.packet = some (sid, h, body) →
    h.pktSize.toNat ≤ maxDatagramPayload i.env

theorem RxInput.frame?_some (h : RxInput.frame? i = some n) : ∃ env packet sid hdr body,
    i = .datagram env packet ∧ packet.head?.bind PacketType.fromByte = some .data ∧
      parseDataPacket packet = some (sid, hdr, body) ∧ hdr.frameIndex = n := by
  cases i with
  | control env packet => cases h
  | datagram env packet =>
    simp only [RxInput.frame?] at h
    split at h
    · rename_i ht
      obtain ⟨⟨sid, hdr, body⟩, hp, hn⟩ := Option.map_eq_some_iff.mp h
      exact ⟨env, packet, sid, hdr, body, rfl, ht, hp, hn⟩
    · cases h

theorem Transmission.frame? (t : Transmission W) (env : RxEnv) (hp : t.plan.IsPacket seqId packet) :
    RxInput.frame? (.datagram env packet) = some t.plan.frameIndex := by
  obtain ⟨body, rfl, _⟩ := t.carried hp
  simp only [RxInput.frame?, dataDatagram_type, parseDataPacket_dataDatagram, Option.map_some]
  rfl

/-- A Data datagram of another frame than the next changes nothing but the loss
window. -/
theorem slotStep_otherFrame (R : SankakuReceiver) {slot : Slot W} (video : slot.IsVideo)
    (hf : RxInput.frame? i = some n) (other : n ≠ slot.state.nextFrameIndex) :
    (slotStep R slot i).state.IsVideo ∧ framesOf (slotStep R slot i).out = [] ∧
      ∃ w r, (slotStep R slot i).state.state = slot.state.seen w r := by
  obtain ⟨env, packet, sid, h, body, rfl, ht, hp, rfl⟩ := RxInput.frame?_some hf
  rw [slotStep_data R env slot ht hp]
  cases ha : admitDroplet env h body with
  | none => exact ⟨video, rfl, slot.state.lossWindow, slot.state.packetLossRatio, rfl⟩
  | some payload =>
    simp only [slotDroplet_video R env sid h payload video]
    have hr := receiveDroplet_cases env R.buildReceiverPipeline sid h payload slot.state
    exact ⟨Slot.isVideo_some _, hr.ignores other⟩

/-- A stream that waits for other frames hands over nothing. -/
theorem handed_otherFrames (R : SankakuReceiver) {slot : Slot W} (video : slot.IsVideo)
    (is : List RxInput)
    (others : ∀ i ∈ is, ∃ n, i.frame? = some n ∧ n ≠ slot.state.nextFrameIndex) :
    slot.handed R is = [] ∧ (run (carryOn (slotStep R)) slot is).state.IsVideo ∧
      ∃ w r, (run (carryOn (slotStep R)) slot is).state.state = slot.state.seen w r := by
  induction is generalizing slot with
  | nil => exact ⟨rfl, video, slot.state.lossWindow, slot.state.packetLossRatio, rfl⟩
  | cons i is ih =>
    obtain ⟨n, hf, hn⟩ := others i List.mem_cons_self
    obtain ⟨hvideo, hout, w, r, hstate⟩ := slotStep_otherFrame R video hf hn
    obtain ⟨hh, hv, w', r', hs⟩ := ih hvideo (fun j hj => by
      rw [hstate]
      exact others j (List.mem_cons_of_mem _ hj))
    rw [Slot.handed, run_carryOn_cons_out, run_carryOn_cons_state, framesOf_append, hout]
    refine ⟨hh, hv, w', r', ?_⟩
    rw [hs, hstate]
    rfl

/-- The stream waits for this transmission, with this decoder at hand. -/
structure Awaiting (t : Transmission W) (st : StreamState W) (d : W.Decoder) : Prop where
  next : st.nextFrameIndex = t.plan.frameIndex
  decoder : ∃ ds : DecoderState W, (∀ seqId, openDecoder (t.plan.header seqId) st = .ok ds) ∧
    ds.frameIndex = t.plan.frameIndex ∧
    ds.decoder = ⟨d, t.geometry.messageBytes, t.geometry.blockBytes⟩

theorem Awaiting.seen {t : Transmission W} {st : StreamState W} (h : Awaiting t st d)
    (w : LossFeedbackWindow) (r : ℚ) : Awaiting t (st.seen w r) d := ⟨h.next, h.decoder⟩

theorem Transmission.messageBytes (t : Transmission W) :
    t.geometry.messageBytes.toNat = t.plan.totalSize.toNat := by
  have hlt : (t.plan.header 0).totalSize.toNat < 2 ^ 32 := t.plan.totalSize.toNat_lt
  rw [Transmission.geometry, DataHeader.geometry, UInt64.toNat_ofNat', Nat.mod_eq_of_lt (by omega)]
  rfl

theorem Transmission.blockBytes (t : Transmission W) : t.geometry.blockBytes = t.plan.pktSize :=
  (header_pktSize t.protects 0).2

/-- A stream at this index without a decoder for it makes one on the first packet. -/
theorem awaiting_start (t : Transmission W) {st : StreamState W}
    (next : st.nextFrameIndex = t.plan.frameIndex)
    (noDecoder : st.decoderState.filter (fun d => d.frameIndex = t.plan.frameIndex) = none)
    (create : W.code.create t.geometry = some d) : Awaiting t st d := by
  have hmessage : 0 < t.geometry.messageBytes.toNat ∧
      t.geometry.messageBytes.toNat ≤ maxWirehairMessageBytes := by
    have htotal := t.protects.totalSize
    have hsize := t.protects.size
    rw [t.messageBytes, maxWirehairMessageBytes]
    omega
  have hpacket : 0 < t.geometry.blockBytes.toNat ∧
      t.geometry.blockBytes.toNat ≤ maxWirehairPacketBytes.toNat := by
    rw [t.blockBytes]
    exact ⟨t.protects.pktSize.1, le_trans t.protects.pktSize.2 (by decide)⟩
  have hnew := decoder_new_create hmessage hpacket create
  refine ⟨next, ⟨t.plan.frameIndex, ⟨d, t.geometry.messageBytes, t.geometry.blockBytes⟩,
    UInt32.ofNat (divCeil t.plan.totalSize.toNat (t.plan.header 0).pktSize.toNat), 0⟩,
    fun seqId => ?_, rfl, rfl⟩
  have hfilter : st.decoderState.filter
      (fun d => d.frameIndex = (t.plan.header seqId).frameIndex) = none := noDecoder
  have hnew' : WirehairDecoder.new W (UInt64.ofNat (t.plan.header seqId).totalSize.toNat)
      (UInt32.ofNat (t.plan.header seqId).pktSize.toNat) = .ok _ := hnew
  rw [openDecoder, hfilter]
  simp only [hnew']
  rfl

section OwnPacket
variable {t : Transmission W} {slot : Slot W} {d d' : W.Decoder} {env : RxEnv} {seqId : UInt32}
  {packet : Bytes}

/-- A packet of the awaited transmission, while the codec asks for more. -/
theorem Awaiting.waits (R : SankakuReceiver) (h : Awaiting t slot.state d) (video : slot.IsVideo)
    (hp : t.plan.IsPacket seqId packet) (control : env.controlOpen = true)
    (room : t.plan.pktSize.toNat ≤ maxDatagramPayload env)
    (hd : W.code.decode d seqId (t.payload packet) = (.needMore, d')) :
    (slotStep R slot (.datagram env packet)).state.IsVideo ∧
      framesOf (slotStep R slot (.datagram env packet)).out = [] ∧
      Awaiting t (slotStep R slot (.datagram env packet)).state.state d' := by
  obtain ⟨ds, hopen, hframe, hds⟩ := h.decoder
  obtain ⟨hdroplet, hne⟩ := t.droplet hp
  have hdecode : ds.decoder.decode (t.plan.header seqId).seqId (t.payload packet) = (.ok false, _) :=
    hds ▸ decode_waiting hne hdroplet.2.1 hd
  rw [t.slotStep_packet R env video hp, if_pos room]
  have hr := receiveDroplet_cases env R.buildReceiverPipeline t.key.sessionId
    (t.plan.header seqId) (t.payload packet) slot.state
  obtain ⟨hout, w, r, hstate⟩ := hr.waits control h.next.symm (hopen seqId) hdecode
  refine ⟨Slot.isVideo_some _, hout, ?_⟩
  simp only [Slot.state_some, hstate]
  refine ⟨h.next, { ds with decoder := ⟨d', _, _⟩ }, fun seqId => ?_, hframe, rfl⟩
  simp [openDecoder, Option.filter_some, hframe, ChunkPlan.header]

/-- The packet with which the codec succeeds. -/
theorem Awaiting.completes (R : SankakuReceiver) (h : Awaiting t slot.state d)
    (video : slot.IsVideo) (hp : t.plan.IsPacket seqId packet) (control : env.controlOpen = true)
    (room : t.plan.pktSize.toNat ≤ maxDatagramPayload env)
    (hd : W.code.decode d seqId (t.payload packet) = (.success, d'))
    (recovered : W.code.recover t.geometry d' = some t.block) :
    (slotStep R slot (.datagram env packet)).state.IsVideo ∧
      (framesOf (slotStep R slot (.datagram env packet)).out).map InboundVideoFrame.asSent =
        [t.call.asSent] ∧
      (slotStep R slot (.datagram env packet)).state.state.nextFrameIndex =
        saturatingAdd64 t.plan.frameIndex 1 ∧
      (slotStep R slot (.datagram env packet)).state.state.decoderState = none := by
  obtain ⟨ds, hopen, hframe, hds⟩ := h.decoder
  obtain ⟨hdroplet, hne⟩ := t.droplet hp
  have hdecode : ds.decoder.decode (t.plan.header seqId).seqId (t.payload packet) = (.ok true, _) :=
    hds ▸ decode_complete hne hdroplet.2.1 hd
  obtain ⟨kind, e, hcontent, hsent⟩ := t.handedAs seqId
  rw [t.slotStep_packet R env video hp, if_pos room]
  have hr := receiveDroplet_cases env R.buildReceiverPipeline t.key.sessionId
    (t.plan.header seqId) (t.payload packet) slot.state
  obtain ⟨w, r, hout, hstate⟩ := hr.delivers control h.next.symm (hopen seqId) hdecode
    ((recover_code rfl t.block).mpr recovered) hcontent
  refine ⟨Slot.isVideo_some _, ?_, ?_⟩
  · simp only [hout, List.map_cons, List.map_nil, hsent]
  · simp only [Slot.state_some, hstate, accept_next, withDecoder_next, seen_next, accept_decoder,
      withDecoder_decoder, h.next, and_self]

end OwnPacket

/-- The packets of a frame arrive in order at a receiver that can take them,
among Data datagrams of other frames of the stream. -/
structure InOrder (index : UInt64) (packets : List Bytes) (is : List RxInput) : Prop where
  data : ∀ i ∈ is, i.frame?.isSome
  control : ∀ i ∈ is, i.env.controlOpen = true
  fits : ∀ i ∈ is, i.frame? = some index → i.Fits
  own : (is.filter (fun i => i.frame? = some index)).map RxInput.packet = packets

theorem InOrder.tail_own (h : InOrder index packets (i :: is)) (own : i.frame? = some index) :
    ∃ rest, packets = i.packet :: rest ∧ InOrder index rest is := by
  refine ⟨_, h.own.symm.trans ?_, fun j hj => h.data j (List.mem_cons_of_mem _ hj),
    fun j hj => h.control j (List.mem_cons_of_mem _ hj),
    fun j hj => h.fits j (List.mem_cons_of_mem _ hj), rfl⟩
  rw [List.filter_cons_of_pos (by simpa using own), List.map_cons]

theorem InOrder.tail_other (h : InOrder index packets (i :: is)) (other : i.frame? ≠ some index) :
    InOrder index packets is := by
  refine ⟨fun j hj => h.data j (List.mem_cons_of_mem _ hj),
    fun j hj => h.control j (List.mem_cons_of_mem _ hj),
    fun j hj => h.fits j (List.mem_cons_of_mem _ hj), ?_⟩
  rw [← h.own, List.filter_cons_of_neg (by simpa using other)]

/-- What fits of a transmission's packets has the transmission's packet size. -/
theorem Transmission.room (t : Transmission W) (hp : t.plan.IsPacket seqId packet)
    (fits : RxInput.Fits (.datagram env packet)) :
    t.plan.pktSize.toNat ≤ maxDatagramPayload env := by
  obtain ⟨body, rfl, _⟩ := t.carried hp
  rw [← (header_pktSize t.protects seqId).1]
  exact fits _ _ _ (parseDataPacket_dataDatagram _ _ _)

/-- While the transmission's remaining droplets hold what the codec still needs,
the stream gets to the point where it hands the frame over. -/
theorem hands_over_rest (R : SankakuReceiver) (t : Transmission W) (is : List RxInput)
    {slot : Slot W} (video : slot.IsVideo) {d dEnd d' : W.Decoder} (awaiting : Awaiting t slot.state d)
    (feed : W.code.feed d todo = some dEnd) (success : W.code.decode dEnd lastId last = (.success, d'))
    (recovered : W.code.recover t.geometry d' = some t.block)
    (packets : List.Forall₂ t.plan.IsPacket ids rest) (inOrder : InOrder t.plan.frameIndex rest is)
    (enough : todo ++ [(lastId, last)] <+: ids.zip (rest.map t.payload)) :
    ∃ pre post, is = pre ++ post ∧
      (slot.handed R pre).map InboundVideoFrame.asSent = [t.call.asSent] ∧
      (run (carryOn (slotStep R)) slot pre).state.IsVideo ∧
      (run (carryOn (slotStep R)) slot pre).state.state.nextFrameIndex =
        saturatingAdd64 t.plan.frameIndex 1 ∧
      (run (carryOn (slotStep R)) slot pre).state.state.decoderState = none := by
  induction is generalizing slot d todo ids rest with
  | nil =>
    have hrest : rest = [] := inOrder.own.symm
    subst hrest
    have := enough.length_le
    simp at this
  | cons i is ih =>
    have hcontrol := inOrder.control i List.mem_cons_self
    obtain ⟨n, hn⟩ := Option.isSome_iff_exists.mp (inOrder.data i List.mem_cons_self)
    by_cases hown : n = t.plan.frameIndex
    case neg =>
      obtain ⟨hvideo, hout, w, r, hstate⟩ :=
        slotStep_otherFrame R video hn (by rw [awaiting.next]; exact hown)
      have hrest : InOrder t.plan.frameIndex rest is := inOrder.tail_other (by rw [hn]; simpa using hown)
      obtain ⟨pre, post, hsplit, hh, hv, hnext, hd⟩ := ih hvideo (hstate ▸ awaiting.seen w r) feed
        packets hrest enough
      refine ⟨i :: pre, post, by rw [hsplit]; rfl, ?_, ?_⟩
      · rw [Slot.handed, run_carryOn_cons_out, framesOf_append, hout]
        exact hh
      · rw [run_carryOn_cons_state]
        exact ⟨hv, hnext, hd⟩
    case pos =>
      subst hown
      have hfits := inOrder.fits i List.mem_cons_self hn
      obtain ⟨rest', hrest, hrestOrder⟩ := inOrder.tail_own hn
      subst hrest
      obtain ⟨env, packet, _, _, _, rfl, _⟩ := RxInput.frame?_some hn
      cases packets with
      | @cons seqId _ ids _ hp hps =>
      simp only [RxInput.env, RxInput.packet] at hcontrol hp
      have hroom := t.room hp hfits
      rw [List.map_cons, List.zip_cons_cons] at enough
      cases todo with
      | nil =>
        -- The last droplet the codec needs.
        cases feed
        obtain ⟨hlast, _⟩ := List.cons_prefix_cons.mp enough
        cases hlast
        obtain ⟨hvideo, hout, hnext, hnone⟩ :=
          awaiting.completes R video hp hcontrol hroom success recovered
        refine ⟨[.datagram env packet], is, rfl, ?_, ?_⟩
        · rw [Slot.handed, run_carryOn_cons_out, run_carryOn_nil, List.append_nil]
          exact hout
        · rw [run_carryOn_cons_state, run_carryOn_nil]
          exact ⟨hvideo, hnext, hnone⟩
      | cons x todo =>
        obtain ⟨hx, htodo⟩ := List.cons_prefix_cons.mp enough
        subst hx
        obtain ⟨d₁, hd, hfeed⟩ := Code.feed_cons_some _ feed
        obtain ⟨hvideo, hout, hawaiting⟩ := awaiting.waits R video hp hcontrol hroom hd
        obtain ⟨pre, post, hsplit, hh, hv, hnext, hnone⟩ := ih hvideo hawaiting hfeed hps
          hrestOrder htodo
        refine ⟨.datagram env packet :: pre, post, by rw [hsplit]; rfl, ?_, ?_⟩
        · rw [Slot.handed, run_carryOn_cons_out, framesOf_append, hout]
          exact hh
        · rw [run_carryOn_cons_state]
          exact ⟨hv, hnext, hnone⟩

/-- The first droplets of a transmission are what the codec needs. -/
theorem Transmission.firstDroplets (completes : W.Completes) (t : Transmission W) :
    ∃ todo lastId last d₀ dEnd d', W.code.create t.geometry = some d₀ ∧
      W.code.feed d₀ todo = some dEnd ∧ W.code.decode dEnd lastId last = (.success, d') ∧
      W.code.recover t.geometry d' = some t.block ∧
      todo ++ [(lastId, last)] <+:
        ((List.range t.call.sent.length).map UInt32.ofNat).zip (t.call.sent.map t.payload) := by
  let all := ((List.range t.call.sent.length).map UInt32.ofNat).zip (t.call.sent.map t.payload)
  have hcount : t.geometry.count = t.plan.blocks := by
    rw [Geometry.count, t.messageBytes, t.blockBytes, ChunkPlan.blocks]
  have hpos := blocks_pos t.protects
  have hdroplets : ∀ x ∈ all, W.IsDroplet t.geometry t.block x.1 x.2 := by
    intro x hx
    rw [show all = _ from List.zip_map_right] at hx
    obtain ⟨⟨seqId, packet⟩, hmem, rfl⟩ := List.mem_map.mp hx
    exact (t.droplet (List.forall₂_zip t.packets hmem)).1
  have hids : (all.take t.plan.blocks).map Prod.fst =
      (List.range t.geometry.count).map UInt32.ofNat := by
    rw [List.map_take, List.map_fst_zip (by simp), take_range_map, hcount, Nat.min_eq_left t.all]
  have hne : all.take t.plan.blocks ≠ [] := by
    intro hnil
    rw [hnil, hcount] at hids
    have := congrArg List.length hids
    simp at this
    omega
  obtain ⟨todo, ⟨lastId, last⟩, hsplit⟩ : ∃ todo x, all.take t.plan.blocks = todo ++ [x] :=
    ⟨_, _, (List.dropLast_concat_getLast hne).symm⟩
  have hpre : todo ++ [(lastId, last)] <+: all := hsplit ▸ List.take_prefix _ _
  rw [hsplit, List.map_append] at hids
  obtain ⟨d₀, dEnd, d', hcreate, hfeed, hsuccess, hrecover⟩ := completes t.geometry t.block
    todo lastId last hids (fun x hx => hdroplets x (hpre.subset (List.mem_append_left _ hx)))
    (hdroplets _ (hpre.subset (List.mem_append_right _ (List.mem_singleton_self _))))
  exact ⟨todo, lastId, last, d₀, dEnd, d', hcreate, hfeed, hsuccess, hrecover, hpre⟩

/-- A stream that waits for a frame and has no decoder for it hands the frame
over while the frame's packets arrive in order. -/
theorem hands_over (completes : W.Completes) (R : SankakuReceiver) (t : Transmission W)
    {slot : Slot W} (video : slot.IsVideo)
    (next : slot.state.nextFrameIndex = t.plan.frameIndex)
    (noDecoder : slot.state.decoderState.filter (fun d => d.frameIndex = t.plan.frameIndex) = none)
    (inOrder : InOrder t.plan.frameIndex t.call.sent is) :
    ∃ pre post, is = pre ++ post ∧
      (slot.handed R pre).map InboundVideoFrame.asSent = [t.call.asSent] ∧
      (run (carryOn (slotStep R)) slot pre).state.IsVideo ∧
      (run (carryOn (slotStep R)) slot pre).state.state.nextFrameIndex =
        saturatingAdd64 t.plan.frameIndex 1 ∧
      (run (carryOn (slotStep R)) slot pre).state.state.decoderState = none := by
  obtain ⟨todo, lastId, last, d₀, dEnd, d', create, feed, success, recovered, enough⟩ :=
    t.firstDroplets completes
  exact hands_over_rest R t is video (awaiting_start t next noDecoder create) feed success recovered
    t.packets inOrder enough

end Sankaku
