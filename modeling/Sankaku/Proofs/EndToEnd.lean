import Sankaku.Proofs.InOrder

namespace Sankaku
open Machine SankakuSender

variable {W : Wirehair}

/-- One datagram as it reaches the receiver. -/
structure Incoming where
  env : RxEnv
  packet : Bytes

def Incoming.input (a : Incoming) : RxInput := .datagram a.env a.packet

/-- The packet fits, and the receiver's outgoing control task runs. -/
structure Incoming.Passes (a : Incoming) : Prop where
  control : a.env.controlOpen = true
  fits : a.input.Fits

/-- The packets of one call and nothing else, in order. -/
theorem Transmission.inOrder (t : Transmission W) (arrivals : List Incoming)
    (own : arrivals.map Incoming.packet = t.call.sent) (passes : ∀ a ∈ arrivals, a.Passes) :
    InOrder t.plan.frameIndex t.call.sent (arrivals.map Incoming.input) := by
  have hframe : ∀ i ∈ arrivals.map Incoming.input, i.frame? = some t.plan.frameIndex := by
    intro i hi
    obtain ⟨⟨env, packet⟩, ha, rfl⟩ := List.mem_map.mp hi
    obtain ⟨seqId, hpacket⟩ := t.isPacket (own ▸ List.mem_map_of_mem ha)
    exact t.frame? env hpacket
  refine ⟨fun i hi => by rw [hframe i hi]; rfl, fun i hi => ?_, fun i hi _ => ?_, ?_⟩
  · obtain ⟨a, ha, rfl⟩ := List.mem_map.mp hi
    exact (passes a ha).control
  · obtain ⟨⟨env, packet⟩, ha, rfl⟩ := List.mem_map.mp hi
    exact (passes _ ha).fits
  · rw [List.filter_eq_self.mpr (fun i hi => by simpa using hframe i hi), ← own, List.map_map]
    rfl

/-- With every packet in order, every frame is handed over. -/
theorem frames_in_order (completes : W.Completes) (R : SankakuReceiver) (ts : List (Transmission W))
    (arrivals : List Incoming) {slot : Slot W} (video : slot.IsVideo)
    (noDecoder : slot.state.decoderState = none)
    (indices : ∀ (i : Nat) (t : Transmission W), ts[i]? = some t →
      t.plan.frameIndex.toNat = slot.state.nextFrameIndex.toNat + i)
    (few : slot.state.nextFrameIndex.toNat + ts.length < 2 ^ 64)
    (all : arrivals.map Incoming.packet = ts.flatMap (fun t => t.call.sent))
    (passes : ∀ a ∈ arrivals, a.Passes) :
    (slot.handed R (arrivals.map Incoming.input)).map InboundVideoFrame.asSent =
      ts.map (fun t => t.call.asSent) := by
  induction ts generalizing slot arrivals with
  | nil =>
    rw [List.flatMap_nil, List.map_eq_nil_iff] at all
    rw [all]
    rfl
  | cons t ts ih =>
    rw [List.flatMap_cons, List.map_eq_append_iff] at all
    obtain ⟨own, others, rfl, hown, hothers⟩ := all
    have hfirst : slot.state.nextFrameIndex = t.plan.frameIndex := by
      rw [← UInt64.toNat_inj, indices 0 t rfl, Nat.add_zero]
    have hpasses : ∀ a ∈ own, a.Passes := fun a ha => passes a (List.mem_append_left _ ha)
    have hlt : slot.state.nextFrameIndex.toNat < 2 ^ 64 - 1 := by
      rw [List.length_cons] at few
      omega
    obtain ⟨pre, post, hsplit, hh, hv, hnext, hnone⟩ := hands_over completes R t video hfirst
      (by rw [noDecoder]; rfl) (t.inOrder own hown hpasses)
    rw [← hfirst] at hnext
    have hafter := saturatingAdd64_one hlt
    rw [← hnext] at hafter
    -- What is left of the frame's packets comes too late.
    have hlate : ∀ i ∈ post, ∃ n, i.frame? = some n ∧
        n ≠ (run (carryOn (slotStep R)) slot pre).state.state.nextFrameIndex := by
      intro i hi
      obtain ⟨⟨env, packet⟩, ha, rfl⟩ := List.mem_map.mp (hsplit ▸ List.mem_append_right _ hi)
      obtain ⟨seqId, hpacket⟩ := t.isPacket (hown ▸ List.mem_map_of_mem ha)
      refine ⟨_, t.frame? env hpacket, fun he => ?_⟩
      rw [← he, ← hfirst] at hafter
      omega
    obtain ⟨hq, hqv, w, r, hqs⟩ := handed_otherFrames R hv post hlate
    have hrest := @ih others (run (carryOn (slotStep R)) slot (pre ++ post)).state
      (by rw [run_carryOn_append_state]; exact hqv)
      (by rw [run_carryOn_append_state, hqs]; exact hnone)
      (fun i u hu => by
        rw [run_carryOn_append_state, hqs, seen_next, hafter, indices (i + 1) u hu]
        omega)
      (by rw [run_carryOn_append_state, hqs, seen_next, hafter]; rw [List.length_cons] at few; omega)
      hothers (fun a ha => passes a (List.mem_append_right _ ha))
    rw [List.map_append, Slot.handed_append, List.map_append, hsplit, hrest, Slot.handed_append, hq,
      List.append_nil, hh]
    rfl

/-- A datagram that names a stream and was sent in the run is one of the
stream's transmissions. -/
theorem isFrom_numbered {ts : List (Transmission W)} (env : RxEnv)
    (numbered : Numbered s k.streamId calls ts)
    (own : OnOwnStream s out) (calls_eq : calls = callsOn k.streamId out)
    (sent : packet ∈ datagramsOf out) (hk : datagramKey packet = some k) :
    IsFrom ts (.datagram env packet) := by
  obtain ⟨c, hc, hp⟩ := datagram_call own sent hk
  rw [← calls_eq, ← numbered.calls] at hc
  obtain ⟨t, ht, rfl⟩ := List.mem_map.mp hc
  obtain ⟨i, hi⟩ := List.mem_iff_getElem?.mp ht
  exact ⟨env, packet, t, rfl, hp, by rw [numbered.indices i t hi]; exact hi⟩

/-- The calls on one stream of one sender all succeed. However the run's datagrams
then arrive, the frames handed over for the stream are the first ones sent, each
as it was sent and under the index its call returned. If the stream's datagrams
arrive once and in order, and pass, they are all of them. -/
theorem frames_arrive (sound : W.Sound) (completes : W.Completes) (transport : TransportConfig)
    (seed : UInt32) (ops : List SenderOp) (id : UInt32)
    (opens : Along (senderStep W) (OpensUnused id) (.new transport seed) ops)
    (succeeds : ∀ c ∈ callsOn id (run (senderStep W) (.new transport seed) ops).out,
      c.result.isOk = true)
    (few : (callsOn id (run (senderStep W) (.new transport seed) ops).out).length < 2 ^ 64)
    (R : SankakuReceiver) (sid : UInt64) (incoming : List Incoming)
    (link : ∀ a ∈ incoming, a.packet ∈ datagramsOf (run (senderStep W) (.new transport seed) ops).out) :
    let calls := callsOn id (run (senderStep W) (.new transport seed) ops).out
    let handed := (ReceiverRuntime.default W).handed R ⟨sid, id⟩ (incoming.map Incoming.input)
    handed.map InboundVideoFrame.asSent <+: calls.map Call.asSent ∧
    ((incoming.map Incoming.packet).filter (fun p => datagramKey p = some ⟨sid, id⟩) =
        calls.flatMap Call.sent → (∀ a ∈ incoming, a.Passes) →
      handed.map InboundVideoFrame.asSent = calls.map Call.asSent) := by
  obtain ⟨⟨ts, numbered⟩, own⟩ := numbered_run opens succeeds few
  generalize run (senderStep W) (.new transport seed) ops = o at *
  intro calls handed
  have hlen : ts.length < 2 ^ 64 := by
    rw [← List.length_map Transmission.call, numbered.calls]
    exact few
  have hcalls : ts.map (fun t => t.call.asSent) = calls.map Call.asSent := by
    rw [show calls = _ from numbered.calls.symm, List.map_map]
    rfl
  have hinput : (incoming.map Incoming.input).filter (concerns ⟨sid, id⟩) =
      (incoming.filter (fun a => datagramKey a.packet = some ⟨sid, id⟩)).map Incoming.input := by
    rw [List.filter_map]
    rfl
  have hhanded : handed = Slot.handed (W := W) R none
      ((incoming.filter (fun a => datagramKey a.packet = some ⟨sid, id⟩)).map Incoming.input) := by
    rw [← hinput, ← slot_default ⟨sid, id⟩]
    exact handed_slot R _ _ _
  rw [hhanded, ← hcalls]
  refine ⟨frames_following sound R hlen _ (fun i hi => ?_), fun all passes => ?_⟩
  · obtain ⟨a, ha, rfl⟩ := List.mem_map.mp hi
    obtain ⟨ha, hk⟩ := List.mem_filter.mp ha
    exact isFrom_numbered a.env numbered own rfl (link a ha) (by simpa using hk)
  · refine frames_in_order completes R ts _ Slot.isVideo_none rfl (fun i t ht => ?_) ?_ ?_
      (fun a ha => passes a (List.mem_filter.mp ha).1)
    · rw [numbered.indices i t ht]
      exact (Nat.zero_add i).symm
    · exact (Nat.zero_add _).symm ▸ hlen
    · rw [← List.flatMap_map, numbered.calls, ← all, List.filter_map]
      rfl

/-- Three frames on two streams. -/
def twoSends : List SenderOp :=
  [.sendFrame 7 (nalFrame [1]) (.live 42), .sendFrame 8 (nalFrame [2, 3]) (.live 42),
   .sendFrame 7 (nalFrame [4]) (.live 42)]

theorem frames_arrive_inOrder :
    let out := (run (senderStep .repetition) (.new .default 1) twoSends).out
    let R : SankakuReceiver := ⟨.disabled, [], true⟩
    let incoming := (datagramsOf out).map (Incoming.mk (.live 0))
    ((ReceiverRuntime.default .repetition).handed R ⟨42, 7⟩ (incoming.map Incoming.input)).map
      InboundVideoFrame.asSent = (callsOn 7 out).map Call.asSent := by
  intro out R incoming
  have hroom : ∀ a ∈ incoming, ((parseDataPacket a.packet).all
      (fun d => d.2.1.pktSize.toNat ≤ maxDatagramPayload a.env)) = true := by decide +kernel
  have harrive := frames_arrive Wirehair.repetition_isSound Wirehair.repetition_isComplete .default 1
    twoSends 7
    ⟨trivial, fun _ => ⟨trivial, fun _ => ⟨trivial, fun _ => trivial⟩⟩⟩ (by decide +kernel)
    (by decide +kernel) R 42 incoming (fun a ha => by
      obtain ⟨p, hp, rfl⟩ := List.mem_map.mp ha
      exact hp)
  apply harrive.2 (by decide +kernel)
  intro a ha
  obtain ⟨p, _, rfl⟩ := List.mem_map.mp ha
  refine ⟨rfl, fun sid h body hp => ?_⟩
  simpa [Incoming.input, RxInput.env, show parseDataPacket p = _ from hp] using hroom _ ha

/-- Nothing lost and everything in order, and still no frame: the sender's path
takes datagrams of 1414 bytes, the receiver's own only 1162. -/
theorem frame_over_receiver_limit :
    let wide : SendEnv := ⟨42, some 1414, fun _ => ⟨[], some 1414, .ok ()⟩⟩
    let out := (run (senderStep .repetition) (.new .default 1)
      [.sendFrame 7 (nalFrame (List.replicate 1200 1)) wide]).out
    let narrow : RxEnv := ⟨0, some 1162, true, true, .ok ()⟩
    let incoming := (datagramsOf out).map (Incoming.mk narrow)
    (callsOn 7 out).map (fun c => c.result.isOk) = [true] ∧
    incoming.map Incoming.packet = datagramsOf out ∧
    (ReceiverRuntime.default .repetition).handed ⟨.disabled, [], true⟩ ⟨42, 7⟩
      (incoming.map Incoming.input) = [] := by
  decide +kernel

end Sankaku
