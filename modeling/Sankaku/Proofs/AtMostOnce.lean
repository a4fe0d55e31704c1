import Sankaku.Proofs.Resync

namespace Sankaku
open Machine SankakuSender Erasure

variable {W : Wirehair}

/-- Everything a packet of a stream can do to the stream's state. -/
inductive SlotCase (slot : Slot W) : RxInput → Outcome (Slot W) Output String → Prop
  | quiet (i o) (state : Slot.state o.state = slot.state) (noFrame : framesOf o.out = []) :
    SlotCase slot i o
  | fin (env packet o) (gone : o.state = none) (noFrame : framesOf o.out = []) :
    SlotCase slot (.control env packet) o
  | droplet (env packet sid h body payload r o)
    (data : packet.head?.bind PacketType.fromByte = some .data)
    (parsed : parseDataPacket packet = some (sid, h, body))
    (received : Received env sid h payload slot.state r) (state : Slot.state o.state = r.state)
    (out : o.out = r.out) : SlotCase slot (.datagram env packet) o

theorem slotStep_cases (R : SankakuReceiver) (slot : Slot W) (i : RxInput) :
    SlotCase slot i (slotStep R slot i) := by
  cases hin : slot.incoming i with
  | none =>
    obtain ⟨hsilent, hstate | ⟨hcontrol, hgone⟩⟩ := slotStep_other R hin
    · exact .quiet _ _ hstate hsilent.frames
    · cases i with
      | control env packet => exact .fin env packet _ hgone hsilent.frames
      | datagram env packet => cases hcontrol
  | some a =>
    obtain ⟨_, packet, body, rfl, hdata, hparsed, _⟩ := slot_incoming_spec hin
    have hr := receiveDroplet_cases a.env R.buildReceiverPipeline a.sessionId a.header a.payload
      slot.state
    rw [slotStep_incoming R hin]
    exact .droplet a.env packet a.sessionId a.header body a.payload _ _ hdata hparsed hr rfl rfl

/-- A Data datagram of the stream's frame 0. -/
def ofFirstFrame (k : StreamKey) (i : RxInput) : Bool := i.key = some k ∧ i.frame? = some 0

/-- The number of original blocks of the frame a Data datagram is of. -/
def RxInput.blocks (i : RxInput) : Nat :=
  match parseDataPacket i.packet with
  | some (_, h, _) => divCeil h.totalSize.toNat h.pktSize.toNat
  | none => 0

/-- Too few datagrams of frame 0 are among these to rebuild it. -/
def TooFew (k : StreamKey) (is : List RxInput) : Prop :=
  ∀ i ∈ is.filter (ofFirstFrame k), (is.filter (ofFirstFrame k)).length < i.blocks

/-- The stream's counter is below its cap; and a FIN of the stream that has
handed over frames leaves too few datagrams of frame 0 to come. -/
def FinLeavesFew (k : StreamKey) (rt : ReceiverRuntime W) (i : RxInput) (is : List RxInput) : Prop :=
  (rt.slot k).state.nextFrameIndex.toNat < 2 ^ 64 - 1 ∧
  (i.isControl → i.key = some k → (rt.slot k).state.nextFrameIndex ≠ 0 → TooFew k is)

instance : Decidable (TooFew k is) :=
  inferInstanceAs (Decidable (∀ i ∈ is.filter (ofFirstFrame k), _))

instance (k : StreamKey) (rt : ReceiverRuntime W) (i : RxInput) (is : List RxInput) :
    Decidable (FinLeavesFew k rt i is) :=
  inferInstanceAs (Decidable (_ ∧ (_ → _ → _ → _)))

/-- The state of a stream against the frames handed over. Either all of them were
handed over since the state was made, or a FIN came after, and what the decoder
has taken of frame 0 and what is to come of it do not make up the frame. -/
inductive Spent (k : StreamKey) (st : StreamState W) (is : List RxInput)
    (frames : List InboundVideoFrame) : Prop
  | fresh (indices : frames.map (fun f => f.frameIndex.toNat) = List.range st.nextFrameIndex.toNat)
  | finished (count bound : Nat)
    (indices : frames.map (fun f => f.frameIndex.toNat) = List.range count)
    (next : st.nextFrameIndex = 0)
    (few : (is.filter (ofFirstFrame k)).length < bound)
    (need : ∀ i ∈ is.filter (ofFirstFrame k), bound ≤ i.blocks)
    (decoder : ∀ ds, st.decoderState = some ds → ds.frameIndex = 0 →
      ∃ g xs, ds.Taken g xs ∧ xs.length + (is.filter (ofFirstFrame k)).length < bound ∧
        bound ≤ g.count)

theorem Spent.nodup {st : StreamState W} (h : Spent k st is frames) :
    (frames.map InboundVideoFrame.frameIndex).Nodup := by
  have : (frames.map (fun f => f.frameIndex.toNat)).Nodup := by
    cases h with
    | fresh indices => rw [indices]; exact List.nodup_range
    | finished count bound indices => rw [indices]; exact List.nodup_range
  rw [← Function.comp_def UInt64.toNat, ← List.map_map] at this
  exact List.Nodup.of_map _ this

theorem firstFrame_tail (k : StreamKey) (i : RxInput) (is : List RxInput) :
    (is.filter (ofFirstFrame k)).Sublist ((i :: is).filter (ofFirstFrame k)) :=
  (List.sublist_cons_self i is).filter _

section Steps
variable {k : StreamKey} {st st' : StreamState W} {i : RxInput} {is : List RxInput}
  {frames : List InboundVideoFrame}

/-- A packet that changes neither the counter nor the decoder. -/
theorem Spent.pass (h : Spent k st (i :: is) frames)
    (next : st'.nextFrameIndex = st.nextFrameIndex)
    (decoder : ∀ ds, st'.decoderState = some ds → st.decoderState = some ds) :
    Spent k st' is frames := by
  have hlen := (firstFrame_tail k i is).length_le
  cases h with
  | fresh indices => exact .fresh (next ▸ indices)
  | finished count bound indices hnext few need hdec =>
    refine .finished count bound indices (next.trans hnext) (Nat.lt_of_le_of_lt hlen few)
      (fun j hj => need j ((firstFrame_tail k i is).subset hj)) (fun ds hds h0 => ?_)
    obtain ⟨g, xs, htaken, hfew, hcount⟩ := hdec ds (decoder ds hds) h0
    exact ⟨g, xs, htaken, by omega, hcount⟩

/-- A FIN after which too little of frame 0 is to come. -/
theorem Spent.fin (h : Spent k st (i :: is) frames)
    (few : st.nextFrameIndex ≠ 0 → TooFew k is) : Spent k (StreamState.default W) is frames := by
  have hnone : ∀ ds, (StreamState.default W).decoderState = some ds → st.decoderState = some ds :=
    fun ds hds => by cases hds
  cases h with
  | finished count bound indices hnext few' need hdec =>
    exact Spent.pass (.finished count bound indices hnext few' need hdec) hnext.symm hnone
  | fresh indices =>
    by_cases hz : st.nextFrameIndex = 0
    · exact .fresh (by rw [indices, hz]; rfl)
    · exact .finished _ ((is.filter (ofFirstFrame k)).length + 1) indices rfl (Nat.lt_succ_self _)
        (fun j hj => few hz j hj) (fun ds hds => by cases hds)

/-- After a FIN, the decoder that takes a packet of frame 0 stays short of it. -/
theorem finished_opened {h : DataHeader} {bound : Nat}
    (few : ((i :: is).filter (ofFirstFrame k)).length < bound)
    (need : ∀ j ∈ (i :: is).filter (ofFirstFrame k), bound ≤ j.blocks)
    (decoder : ∀ ds, st.decoderState = some ds → ds.frameIndex = 0 → ∃ g xs, ds.Taken g xs ∧
      xs.length + ((i :: is).filter (ofFirstFrame k)).length < bound ∧ bound ≤ g.count)
    (own : ofFirstFrame k i = true) (blocks : i.blocks = h.geometry.count) (zero : h.frameIndex = 0)
    (opened : openDecoder h st = .ok ds) :
    ds.frameIndex = 0 ∧ ∃ g xs, ds.Taken g xs ∧
      xs.length + 1 + (is.filter (ofFirstFrame k)).length < bound ∧ bound ≤ g.count := by
  rw [List.filter_cons_of_pos own] at few need decoder
  rw [List.length_cons] at few
  simp only [List.length_cons] at decoder
  obtain ⟨hframe, hold | ⟨_, hnew⟩⟩ := openDecoder_taken opened
  · obtain ⟨g, xs, htaken, hlt, hcount⟩ := decoder ds hold (hframe.trans zero)
    exact ⟨hframe.trans zero, g, xs, htaken, by omega, hcount⟩
  · refine ⟨hframe.trans zero, h.geometry, [], hnew, by rw [List.length_nil]; omega, ?_⟩
    rw [← blocks]
    exact need i List.mem_cons_self

/-- A block is completed only while every frame was handed over since the state was made:
after a FIN the decoder is short of it. -/
theorem Spent.completed (thrifty : W.Thrifty) {h : DataHeader} (hs : Spent k st (i :: is) frames)
    (own : h.frameIndex = 0 → ofFirstFrame k i = true) (blocks : i.blocks = h.geometry.count)
    (next : h.frameIndex = st.nextFrameIndex) (opened : openDecoder h st = .ok ds)
    (decoded : ds.decoder.decode h.seqId payload = (.ok true, d)) :
    frames.map (fun f => f.frameIndex.toNat) = List.range st.nextFrameIndex.toNat := by
  cases hs with
  | fresh indices => exact indices
  | finished count bound indices hnext few need decoder =>
    have hzero := next.trans hnext
    obtain ⟨_, g, xs, htaken, hlt, hcount⟩ :=
      finished_opened few need decoder (own hzero) blocks hzero opened
    have henough := htaken.enough thrifty decoded
    omega

/-- A droplet keeps the account. -/
theorem Received.spent (thrifty : W.Thrifty) {h : DataHeader}
    {o : Outcome (StreamState W) Output String}
    (hr : Received env sid h payload st o) (hs : Spent k st (i :: is) frames)
    (counting : st.nextFrameIndex.toNat < 2 ^ 64 - 1)
    (own : h.frameIndex = 0 → ofFirstFrame k i = true) (blocks : i.blocks = h.geometry.count) :
    Spent k o.state is (frames ++ framesOf o.out) := by
  cases hr with
  | unreported w r control =>
    rw [framesOf_nil, List.append_nil]
    exact hs.pass rfl (fun ds hds => hds)
  | otherFrame w r fb noFrame other =>
    rw [noFrame, List.append_nil]
    exact hs.pass rfl (fun ds hds => hds)
  | noDecoder w r fb noFrame next opened =>
    rw [noFrame, List.append_nil]
    exact hs.pass rfl (fun ds hds => by cases hds)
  | refused w r fb noFrame next opened decoded =>
    rw [noFrame, List.append_nil]
    exact hs.pass rfl (fun ds hds => by cases hds)
  | rejected w r fb noFrame next opened decoded recovered malformed =>
    rw [noFrame, List.append_nil]
    exact hs.pass rfl (fun ds hds => by cases hds)
  | otherKind w r fb noFrame next opened decoded recovered announced =>
    rw [noFrame, List.append_nil]
    exact hs.pass rfl (fun ds hds => by cases hds)
  | waiting w r fb noFrame next opened decoded =>
    rw [noFrame, List.append_nil]
    cases hs with
    | fresh indices => exact .fresh indices
    | finished count bound indices hnext few need decoder =>
      have hzero := next.trans hnext
      obtain ⟨h0, g, xs, htaken, hlt, hcount⟩ :=
        finished_opened few need decoder (own hzero) blocks hzero opened
      have htail := firstFrame_tail k i is
      refine .finished count bound indices hnext (Nat.lt_of_le_of_lt htail.length_le few)
        (fun j hj => need j (htail.subset hj)) (fun ds' hds' _ => ?_)
      cases hds'
      exact ⟨g, _, htaken.waiting decoded, by rw [List.length_append]; exact hlt, hcount⟩
  | unrecoverable w r fb noFrame next opened decoded recovered =>
    have indices := hs.completed thrifty own blocks next opened decoded
    rw [noFrame, List.append_nil]
    exact .fresh indices
  | delivered w r fb rest err noFrame noMore next opened decoded recovered content control =>
    have indices := hs.completed thrifty own blocks next opened decoded
    refine .fresh ?_
    rw [framesOf_append, noFrame, framesOf_cons, noMore, List.nil_append, List.append_nil,
      List.map_append, indices, accept_next, withDecoder_next, seen_next,
      saturatingAdd64_one counting, List.range_succ]
    simp only [Output.frame?, Option.toList_some, List.map_cons, List.map_nil, inboundFrame, next]

end Steps

/-- One packet of whatever stream keeps the account of a stream. -/
theorem mediaStep_spent (thrifty : W.Thrifty) (R : SankakuReceiver) (k : StreamKey)
    (rt : ReceiverRuntime W) (os : List Output) (i : RxInput) (is : List RxInput)
    (leaves : FinLeavesFew k rt i is)
    (h : Spent k (rt.slot k).state (i :: is) (framesOf (os.filter (reads k)))) :
    Spent k ((mediaStep R rt i).state.slot k).state is
      (framesOf ((os ++ (mediaStep R rt i).out).filter (reads k))) := by
  have component := stream_component (W := W) R k
  cases hc : concerns k i with
  | false =>
    obtain ⟨hslot, hout⟩ := component.others rt i hc
    rw [hslot, List.filter_append, hout, List.append_nil]
    exact h.pass rfl (fun ds hds => hds)
  | true =>
    obtain ⟨hslot, hout, _⟩ := component.own rt i hc
    have hkey : i.key = some k := of_decide_eq_true hc
    rw [hslot, List.filter_append, hout, framesOf_append]
    obtain ⟨counting, hfin⟩ := leaves
    have hcase := slotStep_cases R (rt.slot k) i
    generalize slotStep R (rt.slot k) i = o at hcase
    cases hcase with
    | quiet i o state noFrame =>
      rw [noFrame, List.append_nil, state]
      exact h.pass rfl (fun ds hds => hds)
    | fin env packet o gone noFrame =>
      rw [noFrame, List.append_nil, gone]
      exact h.fin (hfin rfl hkey)
    | droplet env packet sid hdr body payload r o data parsed received state out =>
      rw [out, state]
      refine received.spent thrifty h counting (fun hzero => ?_) ?_
      · simp [ofFirstFrame, hkey, RxInput.frame?, data, parsed, hzero]
      · simp only [RxInput.blocks, RxInput.packet, parsed]
        exact (geometry_count hdr).symm

/-- Whatever arrives, a stream hands over no index twice, as long as no FIN is
handled while enough datagrams of a frame 0 already handed over are still to come. -/
theorem frames_handed_once (thrifty : W.Thrifty) (R : SankakuReceiver) (k : StreamKey)
    (inputs : List RxInput)
    (fins : AlongRest (carryOn (mediaStep R)) (FinLeavesFew k) (.default W) inputs) :
    (((ReceiverRuntime.default W).handed R k inputs).map InboundVideoFrame.frameIndex).Nodup := by
  have start : Spent k ((ReceiverRuntime.default W).slot k).state inputs
      (framesOf ([].filter (reads k))) :=
    .fresh rfl
  obtain ⟨rest, hspent⟩ := fins.keeps
    (fun rt is os => Spent k (rt.slot k).state is (framesOf (os.filter (reads k))))
    (fun rt os i is hc h => mediaStep_spent thrifty R k rt os i is hc h) start
  exact hspent.nodup

/-- A sender with four times redundancy, and one that arrives of its datagrams. -/
def fourfold : List SenderOutput :=
  (run (senderStep .repetition) (.new { TransportConfig.default with initialRedundancy := 4 } 7)
    frameAndFin).out

/-- The first datagrams of a frame, the FIN, and some of the others. -/
def finBetween (late : Nat) : List RxInput :=
  (arriving (datagramsOf fourfold)).take 2 ++
    (finsOf fourfold).map (RxInput.control (.live 0)) ++
    ((arriving (datagramsOf fourfold)).drop 2).take late

theorem frames_handed_once_lateDroplet :
    (((ReceiverRuntime.default .repetition).handed ⟨.disabled, [], true⟩ ⟨42, 7⟩
      (finBetween 1)).map InboundVideoFrame.frameIndex).Nodup :=
  frames_handed_once Wirehair.repetition_isThrifty ⟨.disabled, [], true⟩ ⟨42, 7⟩ (finBetween 1)
    (by decide +kernel)

/-- Each datagram arrives once, and frame 0 is handed over twice: its first two
droplets complete it before the FIN, the next two after it. -/
theorem frame_handed_twice :
    ((finBetween 2).map RxInput.packet).Nodup ∧
    ((ReceiverRuntime.default .repetition).handed ⟨.disabled, [], true⟩ ⟨42, 7⟩
      (finBetween 2)).map InboundVideoFrame.frameIndex = [0, 0] := by
  decide +kernel

end Sankaku
