import Sankaku.Lib.Machine
import Sankaku.Model.Types

namespace Sankaku
open Machine

/-- Over exact rationals; an `Instant` is a number of seconds. -/
structure Pacer where
  targetBytesPerSec : UInt64
  maxBurstBytes : ℚ
  tokens : ℚ
  lastRefill : ℚ
  deriving DecidableEq

/-- One call of `pace`, with what the clock shows during it: `now` at its start,
`nowAfter` behind the sleep, should there be one, and `returned` at its end. -/
structure PaceCall where
  packetSize : Nat
  keyframe : Bool
  jitterUs : UInt32
  now : ℚ
  nowAfter : ℚ
  returned : ℚ
  deriving DecidableEq

namespace Pacer

def new (targetBytesPerSec : UInt64) (now : ℚ) : Pacer :=
  let maxBurstBytes : ℚ := max (targetBytesPerSec.toNat * (1 / 4)) 16384
  { targetBytesPerSec, maxBurstBytes, tokens := maxBurstBytes, lastRefill := now }

def rate (p : Pacer) : ℚ := p.targetBytesPerSec.toNat

/-- `duration_since` gives zero for a time that has not come. -/
def refill (p : Pacer) (now : ℚ) : Pacer :=
  let elapsed := max (now - p.lastRefill) 0
  { p with lastRefill := now, tokens := min (p.tokens + elapsed * p.rate) p.maxBurstBytes }

def budget (p : Pacer) (keyframe : Bool) (jitterUs : UInt32) : ℚ :=
  let keyframeBudget : ℚ := if keyframe then 5 / 2 else 1
  let jitterPenalty : ℚ := 1 + jitterUs.toNat / 200000
  max (p.maxBurstBytes * keyframeBudget / jitterPenalty) 1500

def clip (p : Pacer) (keyframe : Bool) (jitterUs : UInt32) : Pacer :=
  if p.tokens > p.budget keyframe jitterUs then { p with tokens := p.budget keyframe jitterUs }
  else p

def sleepSecs (p : Pacer) (needed : ℚ) : ℚ := (needed - p.tokens) / p.rate

/-- What `pace` leaves before it looks whether the tokens suffice. -/
def opened (p : Pacer) (c : PaceCall) : Pacer := (p.refill c.now).clip c.keyframe c.jitterUs

def pace (p : Pacer) (c : PaceCall) : Pacer :=
  if p.targetBytesPerSec = 0 then p
  else
    let needed : ℚ := c.packetSize
    let p := p.opened c
    let p := if p.tokens < needed then p.refill c.nowAfter else p
    { p with tokens := max (p.tokens - needed) 0 }

end Pacer

/-- The clock does not go back, and a sleep lasts at least as long as asked. -/
structure PaceCall.Timely (c : PaceCall) (p : Pacer) : Prop where
  started : p.lastRefill ≤ c.now
  slept : (p.opened c).tokens < c.packetSize →
    c.now + (p.opened c).sleepSecs c.packetSize ≤ c.nowAfter ∧ c.nowAfter ≤ c.returned
  ended : c.now ≤ c.returned

instance PaceCall.Timely.decide (c : PaceCall) (p : Pacer) : Decidable (c.Timely p) :=
  decidable_of_iff (p.lastRefill ≤ c.now ∧
      ((p.opened c).tokens < c.packetSize →
        c.now + (p.opened c).sleepSecs c.packetSize ≤ c.nowAfter ∧ c.nowAfter ≤ c.returned) ∧
      c.now ≤ c.returned)
    ⟨fun h => ⟨h.1, h.2.1, h.2.2⟩, fun h => ⟨h.started, h.slept, h.ended⟩⟩

/-- The pacer call by call. It emits nothing and cannot fail. -/
def paceStep (p : Pacer) (c : PaceCall) : Outcome Pacer Empty Empty := ⟨p.pace c, [], none⟩

end Sankaku
