import Sankaku.Model.Stream
import Sankaku.Proofs.Reports

namespace Sankaku
open Machine SankakuSender

variable {W : Wirehair}

/-- FINs are the receiver's, feedback on the stream is the sender's. -/
def meantFor (k : StreamKey) : Bytes → Option Half
  | [] => none
  | type :: body =>
    match PacketType.fromByte type with
    | some .streamFin => if (StreamFinPacket.deserialize body).isSome then some .receiver else none
    | some .feedback =>
      if (FeedbackPacket.deserialize body).any
          (fun f => f.sessionId = k.sessionId ∧ f.streamId = k.streamId) then some .sender
      else none
    | some .fecFeedback =>
      if (FecFeedbackPacket.deserialize body).any
          (fun f => f.sessionId = k.sessionId ∧ f.streamId = k.streamId) then some .sender
      else none
    | some .telemetry =>
      if (TelemetryPacket.deserialize body).any
          (fun f => f.sessionId = k.sessionId ∧ f.streamId = k.streamId) then some .sender
      else none
    | _ => none

/-- The frame a packet reports on. -/
def reportedFrame (packet : Bytes) : Option UInt64 := (Report.parse packet).map Report.frameIndex

def parseFeedback : Bytes → Option FeedbackPacket
  | [] => none
  | type :: body =>
    match PacketType.fromByte type with
    | some .feedback => FeedbackPacket.deserialize body
    | _ => none

/-- Feedback steers the bitrate, and the embedder hears of it when it moved. -/
def DrainState.steer (st : DrainState) (lossRatio : F32) : DrainState :=
  let bitrate := applyAimdBitrate st.targetBitrateBps lossRatio
  if bitrate = st.targetBitrateBps then st
  else { st with targetBitrateBps := bitrate, pendingBitrateUpdateBps := some bitrate }

def DrainState.retune (st : DrainState) (t : Tuning) : DrainState :=
  { st with redundancy := t.redundancy, jitterUs := t.jitterUs }

/-- What a packet asks of the sender, if it asks anything: feedback on the stream a
new bitrate, a report that the drain heeds a new tuning. -/
def asked (cx : DrainContext) (st : DrainState) (packet : Bytes) : Option DrainState :=
  match parseFeedback packet with
  | some f =>
    if f.sessionId = cx.sessionId ∧ f.streamId = cx.streamId then some (st.steer f.lossRatio)
    else none
  | none => (Report.parse packet).bind (fun r =>
      if cx.heeds r then (r.adjust cx.fec st.tuning).map st.retune else none)

namespace Disposal

def half : Disposal W → Half
  | .drained .. => .sender
  | .handled .. => .receiver

def packet : Disposal W → Bytes
  | .drained _ packet _ _ => packet
  | .handled _ packet _ _ => packet

/-- The half did what the packet asks: the sender has the values asked for, the
receiver has forgotten the stream and said so, if it still can. -/
def acted : Disposal W → Bool
  | .drained cx packet before after => asked cx before packet = some after
  | .handled env packet after emitted =>
    match controlKey packet with
    | none => false
    | some fin => (after.slot fin).isNone ∧
        emitted = if env.controlOpen then [.ack fin.sessionId fin.streamId] else []

end Disposal

theorem adjustRedundancy_default (r : ℚ) (f : FecFeedbackPacket) :
    (adjustRedundancy r f .default).isSome := by
  have hbounds : (1 : ℚ) ≤ maxRedundancy := by norm_num [maxRedundancy]
  simp only [adjustRedundancy, FecPolicy.default, clampF32, if_pos hbounds]
  generalize (if f.idealPackets = 0 then (1 : ℚ) else f.usedPackets.toNat / f.idealPackets.toNat) =
    ratio
  split
  · rfl
  · split <;> rfl

/-- The default policy has an answer to every report. -/
theorem adjust_default (t : Tuning) (r : Report) : (r.adjust .default t).isSome := by
  cases r with
  | fec packet =>
    rw [Report.adjust, Option.isSome_map]
    exact adjustRedundancy_default t.redundancy packet
  | telemetry packet =>
    rw [Report.adjust, Option.isSome_map, adjustRedundancyWithTelemetry]
    split
    · exact adjustRedundancy_default _ _
    · split <;> exact adjustRedundancy_default _ _

theorem asked_report {packet : Bytes} (hf : parseFeedback packet = none)
    (hr : Report.parse packet = some r) (cx : DrainContext) (st : DrainState) :
    asked cx st packet =
      if cx.heeds r then (r.adjust cx.fec st.tuning).map st.retune else none := by
  simp only [asked, hf, hr, Option.bind_some]

theorem asked_nothing {packet : Bytes} (hf : parseFeedback packet = none)
    (hr : Report.parse packet = none) (cx : DrainContext) (st : DrainState) :
    asked cx st packet = none := by
  simp only [asked, hf, hr, Option.bind_none]

/-- A drain that makes of a report it heeds what the report asks. -/
theorem heeded_asked {packet : Bytes} (hf : parseFeedback packet = none)
    (hr : Report.parse packet = some r) (cx : DrainContext) (st : DrainState)
    (policy : cx.fec = .default) {drained : Option DrainState}
    (h : drained = (r.adjust cx.fec st.tuning).map st.retune) :
    (if cx.heeds r = true then drained else some st) = some ((asked cx st packet).getD st) := by
  obtain ⟨t, ht⟩ := Option.isSome_iff_exists.mp (adjust_default st.tuning r)
  rw [policy, ht, Option.map_some] at h
  rw [asked_report hf hr, policy, ht, h, Option.map_some]
  cases cx.heeds r <;> rfl

/-- Under the default policy a drain does what the packet asks, and nothing when
it asks nothing. -/
theorem drainPacket_asked (cx : DrainContext) (st : DrainState) (policy : cx.fec = .default)
    (packet : Bytes) : drainPacket cx st packet = some ((asked cx st packet).getD st) := by
  cases packet with
  | nil => rfl
  | cons type body =>
    cases ht : PacketType.fromByte type with
    | none =>
      rw [asked_nothing (by simp [parseFeedback, ht]) (by simp [Report.parse, ht])]
      simp only [drainPacket, ht, Option.getD_none]
    | some kind =>
      cases kind with
      | feedback =>
        have hr : Report.parse (type :: body) = none := by simp [Report.parse, ht]
        have hf : parseFeedback (type :: body) = FeedbackPacket.deserialize body := by
          simp [parseFeedback, ht]
        simp only [drainPacket, ht, drainFeedback]
        cases hd : FeedbackPacket.deserialize body with
        | none =>
          rw [asked_nothing (hf.trans hd) hr, Option.getD_none]
        | some f =>
          simp only [asked, hf, hd, DrainState.steer, ne_eq, ite_not]
          split <;> rfl
      | fecFeedback =>
        have hf : parseFeedback (type :: body) = none := by simp [parseFeedback, ht]
        have hr : Report.parse (type :: body) =
            (FecFeedbackPacket.deserialize body).map .fec := by simp [Report.parse, ht]
        simp only [drainPacket, ht, drainFecFeedback]
        cases hd : FecFeedbackPacket.deserialize body with
        | none =>
          rw [asked_nothing hf (by rw [hr, hd, Option.map_none]), Option.getD_none]
        | some f =>
          simp only [← heeds_fec]
          exact heeded_asked hf (by rw [hr, hd, Option.map_some]) cx st policy
            (by rw [Report.adjust, Option.map_map]; rfl)
      | telemetry =>
        have hf : parseFeedback (type :: body) = none := by simp [parseFeedback, ht]
        have hr : Report.parse (type :: body) =
            (TelemetryPacket.deserialize body).map .telemetry := by simp [Report.parse, ht]
        simp only [drainPacket, ht, drainTelemetry]
        cases hd : TelemetryPacket.deserialize body with
        | none =>
          rw [asked_nothing hf (by rw [hr, hd, Option.map_none]), Option.getD_none]
        | some f =>
          simp only [← heeds_telemetry]
          exact heeded_asked hf (by rw [hr, hd, Option.map_some]) cx st policy
            (by rw [Report.adjust, Option.map_map]; rfl)
      | _ =>
        rw [asked_nothing (by simp [parseFeedback, ht]) (by simp [Report.parse, ht])]
        simp only [drainPacket, ht, Option.getD_none]

/-- A packet asks something of the sender just if it is meant for it and reports on
no frame after the one being sent. -/
theorem asked_isSome_iff (cx : DrainContext) (st : DrainState) (policy : cx.fec = .default)
    (packet : Bytes) : (asked cx st packet).isSome = true ↔
      meantFor ⟨cx.sessionId, cx.streamId⟩ packet = some .sender ∧
        ∀ f, reportedFrame packet = some f → f ≤ cx.frameIndex := by
  have hreport : ∀ r, parseFeedback packet = none → Report.parse packet = some r →
      ((asked cx st packet).isSome = true ↔ cx.heeds r = true) := by
    intro r hf hr
    rw [asked_report hf hr, policy]
    have hadjust := adjust_default st.tuning r
    cases cx.heeds r <;> simp [hadjust]
  cases packet with
  | nil => simp [asked, parseFeedback, Report.parse, meantFor]
  | cons type body =>
    cases ht : PacketType.fromByte type with
    | none => simp [asked, parseFeedback, Report.parse, meantFor, ht]
    | some kind =>
      cases kind with
      | feedback =>
        cases hd : FeedbackPacket.deserialize body <;>
          simp [asked, parseFeedback, Report.parse, meantFor, reportedFrame, ht, hd]
      | fecFeedback =>
        cases hd : FecFeedbackPacket.deserialize body with
        | none => simp [asked, parseFeedback, Report.parse, meantFor, ht, hd]
        | some f =>
          rw [hreport (.fec f) (by simp [parseFeedback, ht]) (by simp [Report.parse, ht, hd]),
            heeds_fec]
          simp [meantFor, reportedFrame, Report.parse, Report.frameIndex, ht, hd, and_assoc]
      | telemetry =>
        cases hd : TelemetryPacket.deserialize body with
        | none => simp [asked, parseFeedback, Report.parse, meantFor, ht, hd]
        | some f =>
          rw [hreport (.telemetry f) (by simp [parseFeedback, ht]) (by simp [Report.parse, ht, hd]),
            heeds_telemetry]
          simp [meantFor, reportedFrame, Report.parse, Report.frameIndex, ht, hd, and_assoc]
      | _ => simp [asked, parseFeedback, Report.parse, meantFor, ht]

theorem drained_acted (cx : DrainContext) (st : DrainState) (policy : cx.fec = .default)
    (packet : Bytes) :
    (Disposal.drained (W := W) cx packet st ((drainPacket cx st packet).getD st)).acted =
      (asked cx st packet).isSome := by
  rw [Disposal.acted, drainPacket_asked cx st policy, Option.getD_some]
  cases asked cx st packet <;> simp

/-- The FINs are meant for the receiver. -/
theorem meantFor_receiver (k : StreamKey) (packet : Bytes) :
    meantFor k packet = some .receiver ↔ (controlKey packet).isSome = true := by
  cases packet with
  | nil => simp [meantFor, controlKey]
  | cons type body =>
    cases ht : PacketType.fromByte type with
    | none => simp [meantFor, controlKey, ht]
    | some kind => cases kind <;> simp [meantFor, controlKey, ht, Option.isSome_iff_ne_none]

theorem slotStep_fin (R : SankakuReceiver) (slot : Slot W) (env : RxEnv) {packet : Bytes}
    (hk : controlKey packet = some fin) : slotStep R slot (.control env packet) =
      if env.controlOpen then ⟨none, [.ack fin.sessionId fin.streamId], none⟩
      else ⟨none, [], some controlTaskGone⟩ := by
  unfold controlKey at hk
  split at hk
  · rename_i ht
    obtain ⟨p, hp, rfl⟩ := Option.map_eq_some_iff.mp hk
    simp only [slotStep, ht, slotFin, hp]
  · cases hk

/-- The media loop does what a FIN asks. It has nothing else to do with a control
packet, and fails over a FIN it cannot acknowledge. -/
theorem mediaStep_fin (R : SankakuReceiver) (rt : ReceiverRuntime W) (env : RxEnv)
    (packet : Bytes) :
    let turn := mediaStep R rt (.control env packet)
    (Disposal.handled env packet turn.state turn.out).acted = (controlKey packet).isSome ∧
      (turn.error = none ↔ (controlKey packet).isSome = true → env.controlOpen = true) := by
  cases hk : controlKey packet with
  | none =>
    have idle := mediaStep_idle R rt (.control env packet) hk
    simp [Disposal.acted, hk, idle.error, RxInput.Ponged]
  | some fin =>
    obtain ⟨hslot, hout, herror, _, _⟩ := mediaStep_acts R rt (.control env packet) hk
    rw [slotStep_fin R _ env hk] at hslot hout herror
    simp only [Disposal.acted, hk, hslot, hout, herror]
    cases env.controlOpen <;> simp

end Sankaku
