import Mathlib.Tactic.Linarith
import Sankaku.Proofs.SenderSpec

namespace Sankaku

/-- The settings of `FecPolicy::Adaptive` under which `clamp` does not panic and a
step goes the way its name says. The watermarks may lie in any order. -/
structure AdaptivePolicy where
  min : ℚ
  max : ℚ
  increaseStep : ℚ
  decreaseStep : ℚ
  highWatermark : ℚ
  lowWatermark : ℚ
  ordered : min ≤ max
  increase_nonneg : 0 ≤ increaseStep
  decrease_nonneg : 0 ≤ decreaseStep

def AdaptivePolicy.policy (P : AdaptivePolicy) : FecPolicy :=
  .adaptive P.min P.max P.increaseStep P.decreaseStep P.highWatermark P.lowWatermark

theorem clampRat_mono (h : x ≤ y) (lo hi : ℚ) (hlo : lo ≤ hi) :
    clampRat x lo hi ≤ clampRat y lo hi := by
  unfold clampRat
  split
  · split
    · exact le_refl _
    · split
      · exact hlo
      · rename_i above _
        exact not_lt.mp above
  · split
    · split
      · linarith
      · split
        · exact le_refl _
        · linarith
    · split
      · linarith
      · split
        · rename_i below _ _
          exact not_lt.mp below
        · exact h

theorem clampRat_bounds (x : ℚ) (h : lo ≤ hi) : lo ≤ clampRat x lo hi ∧ clampRat x lo hi ≤ hi := by
  unfold clampRat
  split
  · exact ⟨le_refl _, h⟩
  · rename_i above
    split
    · exact ⟨h, le_refl _⟩
    · rename_i below
      exact ⟨not_lt.mp above, not_lt.mp below⟩

namespace AdaptivePolicy
variable (P : AdaptivePolicy)

/-- The step for an observed ratio of used to ideal packets. -/
def correction (observed : ℚ) : ℚ :=
  if observed > P.highWatermark then P.increaseStep
  else if observed < P.lowWatermark then -P.decreaseStep
  else 0

def next (current observed : ℚ) : ℚ := clampRat (current + P.correction observed) P.min P.max

/-- A worse ratio is never answered by a smaller step. With the watermarks crossed
the middle branch is empty, and the outer two still lie in this order. -/
theorem correction_mono (h : a ≤ b) : P.correction a ≤ P.correction b := by
  have up := P.increase_nonneg
  have down := P.decrease_nonneg
  unfold correction
  by_cases highA : a > P.highWatermark
  · have highB : b > P.highWatermark := lt_of_lt_of_le highA h
    rw [if_pos highA, if_pos highB]
  · rw [if_neg highA]
    by_cases lowA : a < P.lowWatermark
    · rw [if_pos lowA]
      split
      · linarith
      split
      · exact le_refl _
      · linarith
    · have lowB : ¬ b < P.lowWatermark := fun hb => lowA (lt_of_le_of_lt h hb)
      rw [if_neg lowA, if_neg lowB]
      split
      · exact up
      · exact le_refl _

theorem next_mono (hc : current ≤ current') (ho : observed ≤ observed') :
    P.next current observed ≤ P.next current' observed' :=
  clampRat_mono (add_le_add hc (P.correction_mono ho)) _ _ P.ordered

theorem next_bounds (current observed : ℚ) :
    P.min ≤ P.next current observed ∧ P.next current observed ≤ P.max :=
  clampRat_bounds _ P.ordered

end AdaptivePolicy

/-- The ratio `adjust_redundancy` goes by. -/
def FecFeedbackPacket.observed (q : FecFeedbackPacket) : ℚ :=
  if q.idealPackets = 0 then 1 else (q.usedPackets.toNat : ℚ) / q.idealPackets.toNat

/-- The ratio `adjust_redundancy_with_telemetry` makes up for a report. -/
def TelemetryPacket.observed (telemetry : TelemetryPacket) : ℚ :=
  if telemetry.packetLossPpm ≥ 150000 ∨ telemetry.jitterUs ≥ 20000 then 3 / 2
  else if telemetry.packetLossPpm ≤ 20000 ∧ telemetry.jitterUs ≤ 5000 then 1
  else 11 / 10

/-- The redundancy before it is clamped. -/
theorem adjustRedundancy_adaptive (current : ℚ) (q : FecFeedbackPacket)
    (lo hi up down high low : ℚ) :
    adjustRedundancy current q (.adaptive lo hi up down high low) =
      clampF32 (if q.observed > high then current + up
        else if q.observed < low then current - down else current) lo hi := by
  simp only [adjustRedundancy, FecFeedbackPacket.observed]
  split_ifs <;> rfl

theorem adjustRedundancy_next (P : AdaptivePolicy) (current : ℚ) (feedback : FecFeedbackPacket) :
    adjustRedundancy current feedback P.policy = some (P.next current feedback.observed) := by
  have hclamp : ∀ x, clampF32 x P.min P.max = some (clampRat x P.min P.max) := by
    intro x
    rw [clampF32, if_pos P.ordered]
  rw [AdaptivePolicy.policy, adjustRedundancy_adaptive, AdaptivePolicy.next, AdaptivePolicy.correction]
  simp only [hclamp]
  split
  · rfl
  split
  · rw [sub_eq_add_neg]
  · rw [add_zero]

theorem adjustRedundancyWithTelemetry_next (P : AdaptivePolicy) (current : ℚ)
    (telemetry : TelemetryPacket) :
    adjustRedundancyWithTelemetry current telemetry P.policy =
      some (P.next current telemetry.observed) := by
  have ideal : ((100 : UInt32).toNat : ℚ) = 100 := rfl
  have bad : ((150 : UInt32).toNat : ℚ) = 150 := rfl
  have middling : ((110 : UInt32).toNat : ℚ) = 110 := rfl
  have hideal : ¬ (100 : UInt32) = 0 := by decide
  unfold adjustRedundancyWithTelemetry TelemetryPacket.observed
  simp only [adjustRedundancy_next, FecFeedbackPacket.observed, hideal, ↓reduceIte, ideal]
  split
  · norm_num [bad]
  split
  · norm_num [ideal]
  · norm_num [middling]

theorem FecFeedbackPacket.observed_mono {a b : FecFeedbackPacket}
    (ideal : a.idealPackets = b.idealPackets) (known : 0 < a.idealPackets)
    (used : a.usedPackets ≤ b.usedPackets) : a.observed ≤ b.observed := by
  have hne : a.idealPackets ≠ 0 := fun h => by rw [h] at known; exact absurd known (by decide)
  have hused : (a.usedPackets.toNat : ℚ) ≤ b.usedPackets.toNat :=
    Nat.cast_le.mpr (UInt32.le_iff_toNat_le.mp used)
  unfold FecFeedbackPacket.observed
  rw [← ideal, if_neg hne, if_neg hne]
  exact div_le_div_of_nonneg_right hused (Nat.cast_nonneg _)

/-- The two overlapping tests keep the order: what is bad stays bad when it gets
worse, and what is not good does not become good. -/
theorem TelemetryPacket.observed_mono {a b : TelemetryPacket}
    (loss : a.packetLossPpm ≤ b.packetLossPpm) (jitter : a.jitterUs ≤ b.jitterUs) :
    a.observed ≤ b.observed := by
  unfold TelemetryPacket.observed
  by_cases badA : a.packetLossPpm ≥ 150000 ∨ a.jitterUs ≥ 20000
  · have badB : b.packetLossPpm ≥ 150000 ∨ b.jitterUs ≥ 20000 :=
      badA.imp (fun h => UInt32.le_trans h loss) (fun h => UInt32.le_trans h jitter)
    rw [if_pos badA, if_pos badB]
  · rw [if_neg badA]
    by_cases goodA : a.packetLossPpm ≤ 20000 ∧ a.jitterUs ≤ 5000
    · rw [if_pos goodA]
      split
      · norm_num
      split
      · exact le_refl _
      · norm_num
    · have goodB : ¬ (b.packetLossPpm ≤ 20000 ∧ b.jitterUs ≤ 5000) := by
        intro ⟨hloss, hjitter⟩
        exact goodA ⟨UInt32.le_trans loss hloss, UInt32.le_trans jitter hjitter⟩
      rw [if_neg goodA, if_neg goodB]
      split
      · norm_num
      · exact le_refl _

/-- What a telemetry packet, or a call of `apply_network_telemetry`, reports. -/
structure NetworkReport where
  packetLossPpm : UInt32
  jitterUs : UInt32
  deriving DecidableEq, Repr

def NetworkReport.AtMostAsBad (a b : NetworkReport) : Prop :=
  a.packetLossPpm ≤ b.packetLossPpm ∧ a.jitterUs ≤ b.jitterUs

def TelemetryPacket.report (t : TelemetryPacket) : NetworkReport := ⟨t.packetLossPpm, t.jitterUs⟩

def adjustAlong (policy : FecPolicy) (start : ℚ) (history : List TelemetryPacket) : Option ℚ :=
  history.foldlM (fun r t => adjustRedundancyWithTelemetry r t policy) start

theorem adjustAlong_cons (P : AdaptivePolicy) (r : ℚ) (t : TelemetryPacket)
    (history : List TelemetryPacket) :
    adjustAlong P.policy r (t :: history) = adjustAlong P.policy (P.next r t.observed) history := by
  rw [adjustAlong, List.foldlM_cons, adjustRedundancyWithTelemetry_next]
  rfl

theorem adjustAlong_mono (P : AdaptivePolicy)
    (worse : List.Forall₂ (fun a b => a.report.AtMostAsBad b.report) history history')
    (h : r ≤ r') :
    ∃ q q', adjustAlong P.policy r history = some q ∧ adjustAlong P.policy r' history' = some q' ∧
      q ≤ q' := by
  induction worse generalizing r r' with
  | nil => exact ⟨r, r', rfl, rfl, h⟩
  | cons hab hrest ih =>
    rw [adjustAlong_cons, adjustAlong_cons]
    exact ih (P.next_mono h (TelemetryPacket.observed_mono hab.1 hab.2))

namespace SankakuSender

def applyHistory (s : SankakuSender) (streamId : UInt32) (history : List NetworkReport) :
    SankakuSender :=
  history.foldl (fun s r => s.applyNetworkTelemetry streamId r.packetLossPpm r.jitterUs) s

theorem applyNetworkTelemetry_fec (s : SankakuSender) (id loss jitter : UInt32) :
    (s.applyNetworkTelemetry id loss jitter).transport = s.transport := by
  obtain ⟨streams, hs⟩ := applyNetworkTelemetry_streams s id loss jitter
  rw [hs]

/-- A report moves the stream's redundancy as the controller does. -/
theorem applyNetworkTelemetry_redundancy (P : AdaptivePolicy) {s : SankakuSender}
    (policy : s.transport.fec = P.policy) (id loss jitter : UInt32) :
    (s.applyNetworkTelemetry id loss jitter).streamRedundancy id =
      (s.streamRedundancy id).map
        (fun r => P.next r (TelemetryPacket.observed ⟨0, id, 0, loss, jitter⟩)) := by
  unfold applyNetworkTelemetry streamRedundancy StreamRegistry.get
  cases hc : s.streams.context id with
  | none => simp [hc]
  | some context =>
    simp only [Option.map_some, policy, adjustRedundancyWithTelemetry_next,
      StreamRegistry.context_modify_self, hc]
    rfl

/-- Two histories, one at most as bad as the other report by report, from redundancies
in the same order. -/
theorem applyHistory_mono (P : AdaptivePolicy) {s s' : SankakuSender} {id : UInt32}
    (policy : s.transport.fec = P.policy) (policy' : s'.transport.fec = P.policy)
    (worse : List.Forall₂ NetworkReport.AtMostAsBad history history')
    (hr : s.streamRedundancy id = some r) (hr' : s'.streamRedundancy id = some r') (h : r ≤ r') :
    ∃ q q', (s.applyHistory id history).streamRedundancy id = some q ∧
      (s'.applyHistory id history').streamRedundancy id = some q' ∧ q ≤ q' := by
  induction worse generalizing s s' r r' with
  | nil => exact ⟨r, r', hr, hr', h⟩
  | cons hab hrest ih =>
    apply ih
    · rw [applyNetworkTelemetry_fec, policy]
    · rw [applyNetworkTelemetry_fec, policy']
    · rw [applyNetworkTelemetry_redundancy P policy, hr, Option.map_some]
    · rw [applyNetworkTelemetry_redundancy P policy', hr', Option.map_some]
    · exact P.next_mono h (TelemetryPacket.observed_mono hab.1 hab.2)

end SankakuSender

/-- Under every adaptive policy with ordered bounds and steps that are not negative,
both adjustments end within the bounds and keep the order of what they start from
and of what they are told. So does a whole history of telemetry, as packets or as
calls of `apply_network_telemetry`. -/
theorem redundancy_monotone (P : AdaptivePolicy) :
    (∀ current feedback, ∃ r, adjustRedundancy current feedback P.policy = some r ∧
      P.min ≤ r ∧ r ≤ P.max) ∧
    (∀ current telemetry, ∃ r, adjustRedundancyWithTelemetry current telemetry P.policy = some r ∧
      P.min ≤ r ∧ r ≤ P.max) ∧
    (∀ current current' (a b : FecFeedbackPacket) r r', current ≤ current' →
      a.idealPackets = b.idealPackets → 0 < a.idealPackets → a.usedPackets ≤ b.usedPackets →
      adjustRedundancy current a P.policy = some r →
      adjustRedundancy current' b P.policy = some r' → r ≤ r') ∧
    (∀ current current' (a b : TelemetryPacket) r r', current ≤ current' →
      a.packetLossPpm ≤ b.packetLossPpm → a.jitterUs ≤ b.jitterUs →
      adjustRedundancyWithTelemetry current a P.policy = some r →
      adjustRedundancyWithTelemetry current' b P.policy = some r' → r ≤ r') ∧
    (∀ start history history',
      List.Forall₂ (fun a b => a.report.AtMostAsBad b.report) history history' →
      ∃ q q', adjustAlong P.policy start history = some q ∧
        adjustAlong P.policy start history' = some q' ∧ q ≤ q') ∧
    (∀ (s s' : SankakuSender) id start history history', s.transport.fec = P.policy →
      s'.transport.fec = P.policy → s.streamRedundancy id = some start →
      s'.streamRedundancy id = some start →
      List.Forall₂ NetworkReport.AtMostAsBad history history' →
      ∃ q q', (s.applyHistory id history).streamRedundancy id = some q ∧
        (s'.applyHistory id history').streamRedundancy id = some q' ∧ q ≤ q') := by
  refine ⟨fun current feedback => ?_, fun current telemetry => ?_, ?_, ?_, ?_, ?_⟩
  · exact ⟨_, adjustRedundancy_next P current feedback, P.next_bounds _ _⟩
  · exact ⟨_, adjustRedundancyWithTelemetry_next P current telemetry, P.next_bounds _ _⟩
  · intro current current' a b r r' hc ideal known used hr hr'
    rw [adjustRedundancy_next, Option.some.injEq] at hr hr'
    subst hr hr'
    exact P.next_mono hc (FecFeedbackPacket.observed_mono ideal known used)
  · intro current current' a b r r' hc loss jitter hr hr'
    rw [adjustRedundancyWithTelemetry_next, Option.some.injEq] at hr hr'
    subst hr hr'
    exact P.next_mono hc (TelemetryPacket.observed_mono loss jitter)
  · intro start history history' worse
    exact adjustAlong_mono P worse (le_refl _)
  · intro s s' id start history history' policy policy' hr hr' worse
    exact SankakuSender.applyHistory_mono P policy policy' worse hr hr' (le_refl _)

/-- The settings every sender starts with. -/
def AdaptivePolicy.default : AdaptivePolicy where
  min := 1
  max := maxRedundancy
  increaseStep := 15 / 100
  decreaseStep := 5 / 100
  highWatermark := 120 / 100
  lowWatermark := 105 / 100
  ordered := by norm_num [maxRedundancy]
  increase_nonneg := by norm_num
  decrease_nonneg := by norm_num

theorem redundancy_monotone_default :
    ∃ q q', adjustAlong .default 2 [⟨1, 2, 0, 0, 0⟩] = some q ∧
      adjustAlong .default 2 [⟨1, 2, 0, 160000, 0⟩] = some q' ∧ q ≤ q' :=
  (redundancy_monotone .default).2.2.2.2.1 2 [⟨1, 2, 0, 0, 0⟩] [⟨1, 2, 0, 160000, 0⟩]
    (.cons ⟨by decide, by decide⟩ .nil)

end Sankaku
