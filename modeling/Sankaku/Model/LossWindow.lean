import Mathlib.Data.List.AList
import Mathlib.Data.Finset.Card
import Sankaku.Model.Types

namespace Sankaku

structure FrameSequenceWindow where
  maxSeqId : UInt32
  seenSeqIds : Finset UInt32

def FrameSequenceWindow.default : FrameSequenceWindow := ⟨0, ∅⟩

/-- `Instant`s are nanoseconds on the monotone clock; differences stop at zero
as in `duration_since`. -/
structure LossFeedbackWindow where
  startedAt : Option Nat
  frames : AList (fun _ : UInt64 => FrameSequenceWindow)

namespace LossFeedbackWindow

def default : LossFeedbackWindow := ⟨none, ∅⟩

def observePacket (w : LossFeedbackWindow) (at_ : Nat) (frameIndex : UInt64) (seqId : UInt32) :
    LossFeedbackWindow :=
  let frame := (w.frames.lookup frameIndex).getD FrameSequenceWindow.default
  { startedAt := some (w.startedAt.getD at_)
    frames := w.frames.insert frameIndex
      { maxSeqId := max frame.maxSeqId seqId
        seenSeqIds := insert seqId frame.seenSeqIds } }

/-- The two sums over `frames.values()`. -/
def countPackets (w : LossFeedbackWindow) : UInt64 × UInt64 :=
  w.frames.entries.foldl (fun sums frame =>
    (saturatingAdd64 sums.1 (UInt64.ofNat (frame.2.maxSeqId.toNat + 1)),
     saturatingAdd64 sums.2 (UInt64.ofNat frame.2.seenSeqIds.card))) (0, 0)

def maybeFlushLossRatio (w : LossFeedbackWindow) (at_ : Nat) : Option ℚ × LossFeedbackWindow :=
  match w.startedAt with
  | none => (none, w)
  | some startedAt =>
    if at_ - startedAt < feedbackWindow then (none, w)
    else
      let (expectedPackets, receivedPackets) := w.countPackets
      let cleared : LossFeedbackWindow := ⟨some at_, ∅⟩
      if expectedPackets = 0 then (some 0, cleared)
      else
        let lostPackets := saturatingSub64 expectedPackets receivedPackets
        let ratio := (lostPackets.toNat : ℚ) / expectedPackets.toNat
        (some (max 0 (min ratio 1)), cleared)

end LossFeedbackWindow

end Sankaku
