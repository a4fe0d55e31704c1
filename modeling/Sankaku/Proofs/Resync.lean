import Sankaku.Proofs.EndToEnd
import Sankaku.Proofs.Feeding

namespace Sankaku
open Machine SankakuSender

variable {W : Wirehair}

/-- A packet the sender put on the link in a run with these outputs. -/
def OnLink (out : List SenderOutput) : RxInput → Prop
  | .datagram _ packet => packet ∈ datagramsOf out
  | .control _ packet => packet ∈ finsOf out

theorem Received.decoder {st : StreamState W} (hr : Received env sid h payload st o)
    (hd : o.state.decoderState = some ds) :
    st.decoderState = some ds ∨ ds.frameIndex = h.frameIndex := by
  cases hr with
  | unreported w r control => exact .inl hd
  | otherFrame w r fb noFrame other => exact .inl hd
  | noDecoder w r fb noFrame next opened => cases hd
  | refused w r fb noFrame next opened decoded => cases hd
  | waiting w r fb noFrame next opened decoded =>
    cases hd
    exact .inr (openDecoder_taken opened).1
  | unrecoverable w r fb noFrame next opened decoded recovered =>
    cases hd
    exact .inr (openDecoder_taken opened).1
  | rejected w r fb noFrame next opened decoded recovered malformed => cases hd
  | otherKind w r fb noFrame next opened decoded recovered announced => cases hd
  | delivered w r fb rest err noFrame noMore next opened decoded recovered content control =>
    cases hd

/-- A FIN takes the slot away, other control packets leave it. -/
theorem slotStep_control (R : SankakuReceiver) (slot : Slot W) (env : RxEnv) (packet : Bytes) :
    (slotStep R slot (.control env packet)).state = slot ∨
      (slotStep R slot (.control env packet)).state = none := by
  simp only [slotStep]
  split
  · exact (slotFin_silent env slot packet).2
  · exact .inl rfl

/-- The slot is the video stream's, and its decoder is for a frame below the bound. -/
structure Slot.Below (slot : Slot W) (bound : Nat) : Prop where
  video : slot.IsVideo
  decoder : ∀ ds, slot.state.decoderState = some ds → ds.frameIndex.toNat < bound

theorem Slot.below_none (bound : Nat) : Slot.Below (W := W) none bound :=
  ⟨Slot.isVideo_none, fun _ h => by cases h⟩

theorem slotStep_below (R : SankakuReceiver) {slot : Slot W} (h : slot.Below bound) (i : RxInput)
    (hi : (∃ env packet, i = .control env packet) ∨ ∃ n, i.frame? = some n ∧ n.toNat < bound) :
    (slotStep R slot i).state.Below bound := by
  rcases hi with ⟨env, packet, rfl⟩ | ⟨n, hn, hlt⟩
  · rcases slotStep_control R slot env packet with hs | hs
    · rw [hs]
      exact h
    · rw [hs]
      exact Slot.below_none bound
  · obtain ⟨env, packet, sid, hdr, body, rfl, ht, hp, rfl⟩ := RxInput.frame?_some hn
    rw [slotStep_data R env slot ht hp]
    split
    · exact h
    · rename_i payload _
      rw [slotDroplet_video R env sid hdr payload h.video]
      refine ⟨Slot.isVideo_some _, fun ds hds => ?_⟩
      have hr := receiveDroplet_cases env R.buildReceiverPipeline sid hdr payload slot.state
      rcases hr.decoder hds with hold | hnew
      · exact h.decoder ds hold
      · rw [hnew]
        exact hlt

/-- Whatever of the sender's packets arrived, and in whatever order, the decoder
of a stream is for a frame the sender has sent. -/
theorem slot_below (R : SankakuReceiver) {ts : List (Transmission W)} {k : StreamKey}
    (numbered : Numbered s k.streamId (callsOn k.streamId out) ts) (own : OnOwnStream s out)
    (past : List RxInput) (link : ∀ i ∈ past, OnLink out i) :
    ((run (carryOn (mediaStep (W := W) R)) (.default W) past).state.slot k).Below ts.length := by
  rw [((stream_component R k).carryOn.project run_carryOn_error).2.1, slot_default]
  refine run_keeps_state (fun slot : Slot W => slot.Below ts.length)
    (fun slot i hi h => slotStep_below R h i ?_) (Slot.below_none _)
  · obtain ⟨hi, hk⟩ := List.mem_filter.mp hi
    cases i with
    | control env packet => exact .inl ⟨env, packet, rfl⟩
    | datagram env packet =>
      obtain ⟨env', packet', t, he, hp, ht⟩ := isFrom_numbered env numbered own rfl
        (link _ hi) (of_decide_eq_true hk)
      cases he
      obtain ⟨seqId, hpacket⟩ := t.isPacket hp
      exact .inr ⟨_, t.frame? env hpacket, (List.getElem?_eq_some_iff.mp ht).1⟩

/-- Whatever was lost, repeated or reordered before, FINs included: if a further
frame of a stream is sent and its packets arrive in order, with no FIN of the
stream among them, the frame is handed over if the receiver's next index for the
stream is the frame's. If nothing else arrives for the stream, only then. -/
theorem frame_handed_iff (completes : W.Completes) (transport : TransportConfig) (seed : UInt32)
    (ops : List SenderOp) (id : UInt32)
    (opens : Along (senderStep W) (OpensUnused id) (.new transport seed) ops)
    (succeeds : ∀ c ∈ callsOn id (run (senderStep W) (.new transport seed) ops).out,
      c.result.isOk = true)
    (few : (callsOn id (run (senderStep W) (.new transport seed) ops).out).length < 2 ^ 64)
    (R : SankakuReceiver) (past : List RxInput)
    (link : ∀ i ∈ past, OnLink (run (senderStep W) (.new transport seed) ops).out i)
    (frame : VideoFrame) (env : SendEnv) (index sid : UInt64)
    (ok : ((run (senderStep W) (.new transport seed) ops).state.sendFrame W id frame env).result =
      .ok index)
    (later : List RxInput)
    (inOrder : InOrder index
      ((run (senderStep W) (.new transport seed) ops).state.sendFrame W id frame env).sent
      (later.filter (concerns ⟨sid, id⟩))) :
    let rt := (run (carryOn (mediaStep (W := W) R)) (.default W) past).state
    let next := (rt.slot ⟨sid, id⟩).state.nextFrameIndex
    let handed := (rt.handed R ⟨sid, id⟩ later).map InboundVideoFrame.asSent
    (next = index → (.ok index, frame) ∈ handed) ∧
    ((∀ i ∈ later, i.key = some ⟨sid, id⟩ → i.frame? = some index) →
      ((.ok index, frame) ∈ handed ↔ next = index)) := by
  obtain ⟨⟨ts, numbered⟩, own⟩ := numbered_run opens succeeds few
  have hbelow := slot_below R (k := ⟨sid, id⟩) numbered own past link
  generalize run (senderStep W) (.new transport seed) ops = o at *
  obtain ⟨t, hcall, hindex, _, _⟩ := (sendFrame_cases o.state id frame env).transmission ok
  have hresult := t.result
  rw [hcall, ok, Except.ok.injEq] at hresult
  have hsent : t.call.asSent = (.ok index, frame) := by rw [hcall, Call.asSent, ok]
  intro rt next handed
  have sufficient : next = index → (.ok index, frame) ∈ handed := by
    intro hnext
    have noDecoder : (rt.slot ⟨sid, id⟩).state.decoderState.filter
        (fun d => d.frameIndex = t.plan.frameIndex) = none := by
      rw [Option.filter_eq_none_iff]
      intro ds hds
      have hlt := hbelow.decoder ds hds
      rw [← numbered.next, ← hindex] at hlt
      simpa using fun h : ds.frameIndex = t.plan.frameIndex => absurd (h ▸ hlt) (lt_irrefl _)
    rw [hresult, show SendOutcome.sent _ = t.call.sent by rw [hcall]] at inOrder
    obtain ⟨pre, post, hsplit, hh, _⟩ := hands_over completes R t hbelow.video
      (hnext.trans hresult) noDecoder inOrder
    have hhanded : handed = _ := congrArg _ (handed_slot R rt ⟨sid, id⟩ later)
    rw [hhanded, hsplit, Slot.handed_append, List.map_append, hh, hsent]
    exact List.mem_append_left _ (List.mem_singleton_self _)
  refine ⟨sufficient, fun only => ⟨fun hmem => ?_, sufficient⟩⟩
  by_contra hne
  have hhanded : handed = _ := congrArg _ (handed_slot R rt ⟨sid, id⟩ later)
  rw [hhanded, (handed_otherFrames R hbelow.video _ (fun i hi => ?_)).1] at hmem
  · cases hmem
  · obtain ⟨hi, hk⟩ := List.mem_filter.mp hi
    exact ⟨index, only i hi (of_decide_eq_true hk), fun he => hne he.symm⟩

/-- A frame and the FIN of its stream. -/
def frameAndFin : List SenderOp :=
  [.sendFrame 7 (nalFrame [1]) (.live 42), .sendStreamFin 42 7 1 1]

def afterFrameAndFin : Outcome SankakuSender SenderOutput String :=
  run (senderStep .repetition) (.new .default 7) frameAndFin

/-- The next frame of the stream. -/
def nextFrame : SendOutcome UInt64 :=
  afterFrameAndFin.state.sendFrame .repetition 7 (nalFrame [2, 3]) (.live 42)

def arriving (packets : List Bytes) : List RxInput := packets.map (RxInput.datagram (.live 0))

/-- The first frame arrived, the FIN did not: the next frame gets through. -/
theorem frame_handed_noFin :
    let R : SankakuReceiver := ⟨.disabled, [], true⟩
    let rt := (run (carryOn (mediaStep R)) (.default .repetition)
      (arriving (datagramsOf afterFrameAndFin.out))).state
    (.ok 1, nalFrame [2, 3]) ∈
      (rt.handed R ⟨42, 7⟩ (arriving nextFrame.sent)).map InboundVideoFrame.asSent := by
  intro R rt
  have hok : nextFrame.result = .ok 1 := by
    have h : nextFrame.result.toOption = some 1 := by decide +kernel
    cases hr : nextFrame.result with
    | ok i => rw [hr] at h; cases h; rfl
    | error e => rw [hr] at h; cases h
  have hdata : ∀ i ∈ (arriving nextFrame.sent).filter (concerns ⟨42, 7⟩), i.frame?.isSome ∧
      ((parseDataPacket i.packet).all (fun d => d.2.1.pktSize.toNat ≤ maxDatagramPayload (.live 0))) =
        true := by decide +kernel
  have henv : ∀ i ∈ (arriving nextFrame.sent).filter (concerns ⟨42, 7⟩), i.env = .live 0 := by
    intro i hi
    obtain ⟨p, _, rfl⟩ := List.mem_map.mp (List.mem_filter.mp hi).1
    rfl
  refine (frame_handed_iff Wirehair.repetition_isComplete .default 7 frameAndFin 7
    ⟨trivial, fun _ => ⟨trivial, fun _ => trivial⟩⟩ (by decide +kernel) (by decide +kernel) R
    (arriving (datagramsOf afterFrameAndFin.out)) (fun i hi => ?_) (nalFrame [2, 3]) (.live 42) 1 42
    hok (arriving nextFrame.sent) ⟨fun i hi => (hdata i hi).1, fun i hi => ?_,
      fun i hi _ sid h body hp => ?_, by decide +kernel⟩).1 (by decide +kernel)
  · obtain ⟨p, hp, rfl⟩ := List.mem_map.mp hi
    exact hp
  · rw [henv i hi]
    rfl
  · have hall := (hdata i hi).2
    rw [hp] at hall
    rw [henv i hi]
    simpa using hall

/-- The next frame arrives whole and in order, but is not handed over: once after
its predecessor was lost, once after predecessor and FIN arrived. -/
theorem frame_not_handed :
    let R : SankakuReceiver := ⟨.disabled, [], true⟩
    let finished := (run (carryOn (mediaStep R)) (.default .repetition)
      (arriving (datagramsOf afterFrameAndFin.out) ++
        (finsOf afterFrameAndFin.out).map (RxInput.control (.live 0)))).state
    nextFrame.result.toOption = some 1 ∧
    (ReceiverRuntime.default .repetition).handed R ⟨42, 7⟩ (arriving nextFrame.sent) = [] ∧
    finished.handed R ⟨42, 7⟩ (arriving nextFrame.sent) = [] := by
  decide +kernel

end Sankaku
