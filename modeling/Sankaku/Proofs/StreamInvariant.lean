import Sankaku.Proofs.Droplet
import Sankaku.Proofs.RepetitionWirehair

namespace Sankaku
open Machine

variable {W : Wirehair}

/-- Notes on one stream that no code keeps: the frames handed over since its
state was made, and the header of the packet that made its decoder. -/
structure Chronicle where
  frames : List InboundVideoFrame
  opener : Option DataHeader

def Chronicle.blank : Chronicle := ⟨[], none⟩

def Slot.decoder (slot : Slot W) : Option (DecoderState W) := slot.bind (fun c => c.state.decoderState)

def RxInput.header : RxInput → Option DataHeader
  | .datagram _ packet => (parseDataPacket packet).map (fun d => d.2.1)
  | .control _ _ => none

/-- Takes note of one packet from the slot before and after it and from what was
emitted for the stream. -/
def Chronicle.note (c : Chronicle) (before after : Slot W) (i : RxInput) (out : List Output) :
    Chronicle where
  frames := (if before.isNone then [] else c.frames) ++ framesOf out
  opener :=
    if (before.decoder.map DecoderState.frameIndex) = (after.decoder.map DecoderState.frameIndex) then
      c.opener
    else i.header

/-- The notes after a run of the media loop. -/
def chronicle (R : SankakuReceiver) (k : StreamKey) (rt : ReceiverRuntime W) (c : Chronicle) :
    List RxInput → Chronicle
  | [] => c
  | i :: is =>
    let handled := mediaStep R rt i
    let c := c.note (rt.slot k) (handled.state.slot k) i (handled.out.filter (reads k))
    match handled.error with
    | some _ => c
    | none => chronicle R k handled.state c is

/-- The invariant of a stream's state against the notes on it. -/
structure StreamState.Consistent (st : StreamState W) (c : Chronicle) : Prop where
  decoderFrame : ∀ d, st.decoderState = some d → d.frameIndex = st.nextFrameIndex
  decoderIdeal : ∀ d, st.decoderState = some d → ∃ h, c.opener = some h ∧
    d.idealPackets.toNat = divCeil h.totalSize.toNat h.pktSize.toNat
  framesReceived : st.framesReceived = st.nextFrameIndex
  bytesReceived : st.bytesReceived.toNat =
    min ((c.frames.map (fun f => f.payload.length)).sum) (2 ^ 64 - 1)
  indices : c.frames.map (fun f => f.frameIndex.toNat) = List.range st.nextFrameIndex.toNat

/-- Fewer than `2^64 - 1` frames: the counters have not stopped at their cap. -/
def StreamState.Counting (st : StreamState W) : Prop := st.nextFrameIndex.toNat < 2 ^ 64 - 1

/-- A slot is consistent if it is empty, at its cap, or holds a consistent state. -/
def Slot.Consistent (slot : Slot W) (c : Chronicle) : Prop :=
  ∀ context, slot = some context → context.state.Counting → context.state.Consistent c

theorem consistent_default (opener : Option DataHeader) :
    (StreamState.default W).Consistent ⟨[], opener⟩ where
  decoderFrame := by simp [StreamState.default]
  decoderIdeal := by simp [StreamState.default]
  framesReceived := rfl
  bytesReceived := by simp [StreamState.default]
  indices := by simp [StreamState.default]

/-- No field of the invariant looks at the loss window or, without a decoder, at
the packet that made it. -/
theorem StreamState.Consistent.seen {st : StreamState W} (h : st.Consistent c)
    (w : LossFeedbackWindow) (r : ℚ) : (st.seen w r).Consistent c :=
  ⟨h.decoderFrame, h.decoderIdeal, h.framesReceived, h.bytesReceived, h.indices⟩

theorem StreamState.Consistent.closed {st : StreamState W} (h : st.Consistent ⟨fs, o⟩) :
    (st.withDecoder none).Consistent ⟨fs, o'⟩ :=
  ⟨by simp, by simp, h.framesReceived, h.bytesReceived, h.indices⟩

theorem readVec_length (h : readVec bs = some (p, rest)) : p.length < 2 ^ 64 := by
  unfold readVec at h
  simp only [Option.bind_eq_some_iff] at h
  obtain ⟨r, _, h⟩ := h
  split at h
  · rename_i hle
    cases h
    have := r.1.toNat_lt
    rw [List.length_take]
    omega
  · cases h

theorem deserialize_length (h : FrameEnvelope.deserialize bs = some e) :
    e.payload.length < 2 ^ 64 := by
  unfold FrameEnvelope.deserialize at h
  simp only [Option.bind_eq_bind, Option.bind_eq_some_iff] at h
  obtain ⟨_, _, _, _, v, hv, h⟩ := h
  cases h
  exact readVec_length hv

theorem openBlock_length {h : DataHeader} (ho : openBlock h block = .ok (some (kind, e))) :
    e.payload.length < 2 ^ 64 := by
  unfold openBlock at ho
  split at ho
  · cases ho
  · split at ho
    · cases ho
    · split at ho
      · cases ho
      · rename_i hd
        cases ho
        exact deserialize_length hd

/-- Accepting a frame moves both counters on and adds the frame to the notes. -/
theorem StreamState.Consistent.accept {st : StreamState W} (hc : st.Consistent ⟨fs, o⟩)
    (counting : st.Counting) (he : e.payload.length < 2 ^ 64) (f : InboundVideoFrame)
    (hindex : f.frameIndex = st.nextFrameIndex) (hpayload : f.payload = e.payload) :
    ((st.withDecoder none).accept now e).Consistent ⟨fs ++ [f], o'⟩ where
  decoderFrame := by simp
  decoderIdeal := by simp
  framesReceived := by simp [hc.framesReceived]
  bytesReceived := by
    simp only [accept_bytes, withDecoder_bytes, saturatingAdd64_toNat, hc.bytesReceived,
      UInt64.toNat_ofNat', Nat.mod_eq_of_lt he, List.map_append, List.map_cons, List.map_nil,
      List.sum_append, List.sum_cons, List.sum_nil, hpayload]
    omega
  indices := by
    simp only [accept_next, withDecoder_next, saturatingAdd64_one counting, List.range_succ,
      List.map_append, List.map_cons, List.map_nil, hc.indices, hindex]

/-- A state below its cap after a step was below it before. -/
theorem StreamState.Counting.before {st : StreamState W}
    (h : ((st.withDecoder none).accept now e).Counting) : st.Counting := by
  unfold Counting at *
  rw [accept_next, withDecoder_next, saturatingAdd64_toNat, UInt64.toNat_one] at h
  omega

/-- An admitted header has a block count that fits `u32`. -/
theorem admitDroplet_count {h : DataHeader} (ha : admitDroplet env h body = some payload) :
    divCeil h.totalSize.toNat h.pktSize.toNat < 2 ^ 32 := by
  have htotal := ((admitDroplet_iff env h body payload).mp ha).totalSize.2
  have hpkt := h.pktSize.toNat_lt
  have := Nat.div_le_self (h.totalSize.toNat + h.pktSize.toNat - 1) h.pktSize.toNat
  rw [divCeil]
  omega

/-- A decoder kept for another droplet stays tied to the stream: it is the old
one, or the packet at hand made it. -/
theorem StreamState.Consistent.kept {st : StreamState W} (hc : st.Consistent ⟨fs, o⟩)
    (hnext : h.frameIndex = st.nextFrameIndex) (ho : openDecoder h st = .ok ds)
    (hcount : divCeil h.totalSize.toNat h.pktSize.toNat < 2 ^ 32) (d : WirehairDecoder W) :
    (st.withDecoder (some { ds with decoder := d })).Consistent
      ⟨fs, if st.decoderState.map DecoderState.frameIndex = some ds.frameIndex then o
        else some h⟩ := by
  obtain ⟨hframe, hds⟩ := openDecoder_cases ho
  refine ⟨?_, ?_, hc.framesReceived, hc.bytesReceived, hc.indices⟩
  · intro d' hd'
    cases hd'
    exact hframe.trans hnext
  · intro d' hd'
    cases hd'
    rcases hds with hold | ⟨hnone, hideal, _⟩
    · obtain ⟨g, hg, hi⟩ := hc.decoderIdeal ds hold
      refine ⟨g, ?_, hi⟩
      simpa [hold] using hg
    · refine ⟨h, ?_, ?_⟩
      · -- A decoder of the stream would be for this very frame.
        have : st.decoderState = none := by
          cases hd : st.decoderState with
          | none => rfl
          | some old =>
            rw [hd, Option.filter_some] at hnone
            simp [hc.decoderFrame old hd, hnext] at hnone
        simp [this]
      · rw [hideal, UInt32.toNat_ofNat', Nat.mod_eq_of_lt hcount]

/-- Whatever a droplet did, the state it leaves agrees with the notes. -/
theorem Received.consistent {st : StreamState W} (hr : Received env sid h payload st o)
    (hc : st.Counting → st.Consistent ⟨fs, opener⟩)
    (hcount : divCeil h.totalSize.toNat h.pktSize.toNat < 2 ^ 32) (counting : o.state.Counting) :
    o.state.Consistent ⟨fs ++ framesOf o.out,
      if st.decoderState.map DecoderState.frameIndex =
        o.state.decoderState.map DecoderState.frameIndex then opener else some h⟩ := by
  cases hr with
  | unreported w r control => simpa using (hc counting).seen w r
  | otherFrame w r fb noFrame other => simpa [noFrame] using (hc counting).seen w r
  | noDecoder w r fb noFrame next opened =>
    simpa [noFrame] using ((hc counting).seen w r).closed
  | waiting w r fb noFrame next opened decoded =>
    simpa [noFrame] using ((hc counting).seen w r).kept next opened hcount _
  | refused w r fb noFrame next opened decoded =>
    simpa [noFrame] using ((hc counting).seen w r).closed
  | unrecoverable w r fb noFrame next opened decoded recovered =>
    simpa [noFrame] using ((hc counting).seen w r).kept next opened hcount _
  | rejected w r fb noFrame next opened decoded recovered malformed =>
    simpa [noFrame] using ((hc counting).seen w r).closed
  | otherKind w r fb noFrame next opened decoded recovered announced =>
    simpa [noFrame] using ((hc counting).seen w r).closed
  | delivered w r fb rest err noFrame noMore next opened decoded recovered content control =>
    have before := @StreamState.Counting.before _ _ _ (st.seen w r) counting
    simpa [noFrame, noMore, Output.frame?] using ((hc before).seen w r).accept before
      (openBlock_length content) (inboundFrame sid h r _ _) next rfl

/-- A step that leaves the slot and says nothing leaves the notes good. -/
theorem Slot.Consistent.idle {slot : Slot W} (hs : slot.Consistent c) (i : RxInput) :
    slot.Consistent (c.note slot slot i []) := by
  intro context hslot
  simpa [Chronicle.note, hslot] using hs context hslot

theorem slotFin_consistent {slot : Slot W} (hs : slot.Consistent c) (env : RxEnv) (packet : Bytes)
    (i : RxInput) : (slotFin env slot packet).state.Consistent
      (c.note slot (slotFin env slot packet).state i (slotFin env slot packet).out) := by
  unfold slotFin
  split
  · exact hs.idle i
  · split <;> (intro context hslot; cases hslot)

/-- A droplet for an empty slot is received on the state of a new stream. -/
theorem slotDroplet_consistent (R : SankakuReceiver) {slot : Slot W} (hs : slot.Consistent c)
    (admitted : admitDroplet env h body = some payload) (sid : UInt64)
    (header : RxInput.header i = some h) :
    (slotDroplet R env sid h payload slot).state.Consistent
      (c.note slot (slotDroplet R env sid h payload slot).state i
        (slotDroplet R env sid h payload slot).out) := by
  have hcount := admitDroplet_count admitted
  unfold slotDroplet
  split
  · rename_i context
    split
    · intro context' hslot
      cases hslot
      simpa [Chronicle.note] using hs context rfl
    · intro context' hslot counting
      cases hslot
      have hr := receiveDroplet_cases env R.buildReceiverPipeline sid h payload context.state
      simpa [Chronicle.note, Slot.decoder, header] using
        hr.consistent (hs context rfl) hcount counting
  · intro context' hslot counting
    cases hslot
    have hr := receiveDroplet_cases env R.buildReceiverPipeline sid h payload
      (StreamState.default W)
    have hnew := hr.consistent (fun _ => consistent_default c.opener) hcount counting
    simpa [Chronicle.note, Slot.decoder, header, StreamState.default] using hnew

theorem slotAudio_consistent (R : SankakuReceiver) {slot : Slot W} (hs : slot.Consistent c)
    (packet : Bytes) (i : RxInput) : (slotAudio R slot packet).state.Consistent
      (c.note slot (slotAudio R slot packet).state i (slotAudio R slot packet).out) := by
  unfold slotAudio
  split
  · exact hs.idle i
  split
  · exact hs.idle i
  · rename_i frame _
    have hframes : framesOf (if R.audioTx then [.audio frame] else []) = [] := by
      split <;> rfl
    cases slot with
    | none =>
      intro context hslot counting
      cases hslot
      simpa [Chronicle.note, Slot.decoder, StreamState.default, hframes] using
        consistent_default c.opener
    | some context =>
      intro context' hslot counting
      cases hslot
      simpa [Chronicle.note, hframes] using hs context rfl counting

/-- The invariant survives every packet of the stream, the one that fails included. -/
theorem slotStep_consistent (R : SankakuReceiver) {slot : Slot W} (hs : slot.Consistent c)
    (i : RxInput) :
    (slotStep R slot i).state.Consistent
      (c.note slot (slotStep R slot i).state i (slotStep R slot i).out) := by
  cases i with
  | control env packet =>
    simp only [slotStep]
    split
    · exact slotFin_consistent hs env packet _
    · exact hs.idle _
  | datagram env packet =>
    simp only [slotStep]
    split
    · unfold slotData
      split
      · exact hs.idle _
      rename_i sid h body hp
      split
      · exact hs.idle _
      · rename_i payload hadmitted
        exact slotDroplet_consistent R hs hadmitted sid (by simp [RxInput.header, hp])
    · exact slotAudio_consistent R hs packet _
    · exact hs.idle _

theorem mediaStep_consistent (R : SankakuReceiver) (k : StreamKey) {rt : ReceiverRuntime W}
    (hs : (rt.slot k).Consistent c) (i : RxInput) :
    ((mediaStep R rt i).state.slot k).Consistent
      (c.note (rt.slot k) ((mediaStep R rt i).state.slot k) i
        ((mediaStep R rt i).out.filter (reads k))) := by
  have component := stream_component (W := W) R k
  cases hc : concerns k i with
  | false =>
    obtain ⟨hslot, hout⟩ := component.others rt i hc
    rw [hslot, hout]
    intro context hcontext
    simpa [Chronicle.note, hcontext] using hs context hcontext
  | true =>
    obtain ⟨hslot, hout, _⟩ := component.own rt i hc
    rw [hslot, hout]
    exact slotStep_consistent R hs i

theorem runMediaLoop_consistent (R : SankakuReceiver) (k : StreamKey) (inputs : List RxInput)
    {rt : ReceiverRuntime W} (hs : (rt.slot k).Consistent c) :
    ((runMediaLoop R rt inputs).state.slot k).Consistent (chronicle R k rt c inputs) := by
  induction inputs generalizing rt c with
  | nil => exact hs
  | cons i is ih =>
    have hstep := mediaStep_consistent R k hs i
    simp only [runMediaLoop, chronicle]
    cases he : (mediaStep R rt i).error with
    | some e => rw [run_cons_error he]; exact hstep
    | none => rw [run_cons_ok he]; exact ih hstep

/-- After any run of the media loop, every stream below the cap of its counters
is consistent: its decoder is for the next frame and has that packet's block
count, both counters agree, the byte count is the saturating sum over the frames
handed over since the state was made, and those carry the indices from 0 on. -/
theorem stream_invariant (R : SankakuReceiver) (inputs : List RxInput) (k : StreamKey)
    (context : StreamContext (StreamState W))
    (hslot : (runMediaLoop R (.default W) inputs).state.slot k = some context)
    (counting : context.state.Counting) :
    context.state.Consistent (chronicle R k (.default W) .blank inputs) :=
  runMediaLoop_consistent R k inputs (fun _ h => by cases h) context hslot counting

/-- Two frames delivered and a third begun: the notes hold indices 0 and 1. -/
def threeFrames : List RxInput :=
  let droplet (frameIndex : UInt64) (seqId : UInt32) :=
    dataDatagram 1 ⟨2, frameIndex, seqId, 18, 9, 0, videoCodecHevc⟩ (List.replicate 9 0)
  [.datagram (.live 0) (droplet 0 0), .datagram (.live 1) (droplet 0 1),
   .datagram (.live 2) (droplet 1 0), .datagram (.live 3) (droplet 1 1),
   .datagram (.live 4) (droplet 2 1)]

theorem stream_invariant_threeFrames :
    let R : SankakuReceiver := ⟨.disabled, [], true⟩
    ∃ context, (runMediaLoop R (.default .repetition) threeFrames).state.slot ⟨1, 2⟩ = some context ∧
      context.state.nextFrameIndex = 2 ∧
      context.state.Consistent (chronicle R ⟨1, 2⟩ (.default .repetition) .blank threeFrames) := by
  intro R
  have hnext : ((runMediaLoop R (.default .repetition) threeFrames).state.slot ⟨1, 2⟩).map
      (fun c => c.state.nextFrameIndex) = some 2 := by decide +kernel
  obtain ⟨context, hslot, hnext⟩ := Option.map_eq_some_iff.mp hnext
  refine ⟨context, hslot, hnext, stream_invariant R threeFrames ⟨1, 2⟩ context hslot ?_⟩
  rw [StreamState.Counting, hnext]
  decide

end Sankaku
