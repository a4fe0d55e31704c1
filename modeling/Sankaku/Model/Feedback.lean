import Sankaku.Model.Bincode

namespace Sankaku

inductive PaddingMode
  | disabled
  | fixed (target : Nat)
  | adaptive (min max : Nat)
  deriving DecidableEq, Repr

inductive FecPolicy
  | fixed
  | adaptive (min max increaseStep decreaseStep highWatermark lowWatermark : ℚ)

def FecPolicy.default : FecPolicy :=
  .adaptive 1 maxRedundancy (15 / 100) (5 / 100) (120 / 100) (105 / 100)

def clampPaddingTarget (target minLen : Nat) : Nat := min (max target minLen) maxWirePacketSize

/-- `Ord::clamp` asserts that its bounds do not cross. A panic is `none`. -/
def clampUsize (x lo hi : Nat) : Option Nat :=
  if lo ≤ hi then some (min (max x lo) hi) else none

def targetPacketLen (mode : PaddingMode) (rawLen : Nat) : Option Nat :=
  match mode with
  | .disabled => some rawLen
  | .fixed target => some (clampPaddingTarget target rawLen)
  | .adaptive lo hi =>
    let aligned := divCeil rawLen adaptivePaddingAlign * adaptivePaddingAlign
    (clampUsize aligned (max lo rawLen) (max hi lo)).map (fun t => clampPaddingTarget t rawLen)

def clampRat (x lo hi : ℚ) : ℚ := if x < lo then lo else if hi < x then hi else x

/-- `f32::clamp` asserts that its bounds do not cross. -/
def clampF32 (x lo hi : ℚ) : Option ℚ := if lo ≤ hi then some (clampRat x lo hi) else none

def adjustRedundancy (current : ℚ) (feedback : FecFeedbackPacket) (policy : FecPolicy) : Option ℚ :=
  let observed : ℚ :=
    if feedback.idealPackets = 0 then 1
    else (feedback.usedPackets.toNat : ℚ) / feedback.idealPackets.toNat
  match policy with
  | .fixed => some current
  | .adaptive min max increaseStep decreaseStep highWatermark lowWatermark =>
    if observed > highWatermark then clampF32 (current + increaseStep) min max
    else if observed < lowWatermark then clampF32 (current - decreaseStep) min max
    else clampF32 current min max

def adjustRedundancyWithTelemetry (current : ℚ) (telemetry : TelemetryPacket) (policy : FecPolicy) :
    Option ℚ :=
  let synthetic (usedPackets : UInt32) : FecFeedbackPacket :=
    { sessionId := telemetry.sessionId, streamId := telemetry.streamId,
      frameIndex := telemetry.frameIndex, idealPackets := 100, usedPackets }
  if telemetry.packetLossPpm ≥ 150000 ∨ telemetry.jitterUs ≥ 20000 then
    adjustRedundancy current (synthetic 150) policy
  else if telemetry.packetLossPpm ≤ 20000 ∧ telemetry.jitterUs ≤ 5000 then
    adjustRedundancy current (synthetic 100) policy
  else adjustRedundancy current (synthetic 110) policy

def clampVideoBitrate (bitrateBps : UInt32) : UInt32 :=
  min (max bitrateBps minVideoBitrateBps) maxVideoBitrateBps

def F32.gt : F32 → ℚ → Bool
  | .finite v, q => q < v
  | .infinite negative, _ => !negative
  | .nan, _ => false

def F32.le : F32 → ℚ → Bool
  | .finite v, q => v ≤ q
  | .infinite negative, _ => negative
  | .nan, _ => false

/-- `f32::EPSILON` -/
def f32Epsilon : ℚ := 1 / 2 ^ 23

/-- `round()` takes halves away from zero; the cast to `u32` saturates. -/
def roundToU32 (x : ℚ) : UInt32 := UInt32.ofNat (min (x + 1 / 2).floor.toNat (2 ^ 32 - 1))

/-- `ceil()` followed by the saturating cast to `u32`. -/
def ceilToU32 (x : ℚ) : UInt32 := UInt32.ofNat (min x.ceil.toNat (2 ^ 32 - 1))

def applyAimdBitrate (currentBitrateBps : UInt32) (lossRatio : F32) : UInt32 :=
  if lossRatio.gt (2 / 100) then
    clampVideoBitrate (roundToU32 (currentBitrateBps.toNat * aimdDecreaseFactor))
  else if lossRatio.le f32Epsilon then
    clampVideoBitrate (saturatingAdd32 currentBitrateBps aimdIncreaseStepBps)
  else clampVideoBitrate currentBitrateBps

/-- What `drain_control_channel` works on: two fields of the sender and the two
locals of the frame being sent. -/
structure DrainState where
  targetBitrateBps : UInt32
  pendingBitrateUpdateBps : Option UInt32
  redundancy : ℚ
  jitterUs : UInt32
  deriving DecidableEq

/-- The frame on whose behalf the channel is drained. -/
structure DrainContext where
  fec : FecPolicy
  sessionId : UInt64
  streamId : UInt32
  frameIndex : UInt64

def drainFeedback (cx : DrainContext) (st : DrainState) (body : Bytes) : DrainState :=
  match FeedbackPacket.deserialize body with
  | some feedback =>
    if feedback.sessionId = cx.sessionId ∧ feedback.streamId = cx.streamId then
      let nextBitrate := applyAimdBitrate st.targetBitrateBps feedback.lossRatio
      if nextBitrate ≠ st.targetBitrateBps then
        { st with targetBitrateBps := nextBitrate, pendingBitrateUpdateBps := some nextBitrate }
      else st
    else st
  | none => st

def drainFecFeedback (cx : DrainContext) (st : DrainState) (body : Bytes) : Option DrainState :=
  match FecFeedbackPacket.deserialize body with
  | some feedback =>
    if feedback.sessionId = cx.sessionId ∧ feedback.streamId = cx.streamId ∧
        feedback.frameIndex ≤ cx.frameIndex then
      (adjustRedundancy st.redundancy feedback cx.fec).map (fun r => { st with redundancy := r })
    else some st
  | none => some st

def drainTelemetry (cx : DrainContext) (st : DrainState) (body : Bytes) : Option DrainState :=
  match TelemetryPacket.deserialize body with
  | some telemetry =>
    if telemetry.sessionId = cx.sessionId ∧ telemetry.streamId = cx.streamId ∧
        telemetry.frameIndex ≤ cx.frameIndex then
      (adjustRedundancyWithTelemetry st.redundancy telemetry cx.fec).map
        (fun r => { st with redundancy := r, jitterUs := telemetry.jitterUs })
    else some st
  | none => some st

/-- One packet off the channel. Every packet is consumed, used or not. -/
def drainPacket (cx : DrainContext) (st : DrainState) : Bytes → Option DrainState
  | [] => some st
  | type :: body =>
    match PacketType.fromByte type with
    | some .feedback => some (drainFeedback cx st body)
    | some .fecFeedback => drainFecFeedback cx st body
    | some .telemetry => drainTelemetry cx st body
    | _ => some st

/-- The queue and the state a drain leaves, and whether it panicked. -/
structure Drained where
  queue : List Bytes
  state : DrainState
  panicked : Bool

def drainControlChannel (cx : DrainContext) (st : DrainState) : List Bytes → Drained
  | [] => ⟨[], st, false⟩
  | packet :: queue =>
    match drainPacket cx st packet with
    | none => ⟨queue, st, true⟩
    | some st' => drainControlChannel cx st' queue

end Sankaku
