import Mathlib.Tactic.FieldSimp
import Mathlib.Tactic.Linarith
import Mathlib.Tactic.Positivity
import Sankaku.Model.Pacer

namespace Sankaku
open Machine

namespace Pacer
variable {p : Pacer} {c : PaceCall} {now : ℚ}

/-- The bucket is neither overdrawn nor overfull. -/
structure Filled (p : Pacer) : Prop where
  nonneg : 0 ≤ p.tokens
  le_burst : p.tokens ≤ p.maxBurstBytes

theorem rate_nonneg (p : Pacer) : 0 ≤ p.rate := by
  unfold rate
  positivity

theorem rate_pos (h : 0 < p.targetBytesPerSec) : 0 < p.rate := by
  unfold rate
  exact_mod_cast UInt64.lt_iff_toNat_lt.mp h

@[simp] theorem refill_rate (p : Pacer) (now : ℚ) : (p.refill now).rate = p.rate := rfl
@[simp] theorem refill_burst (p : Pacer) (now : ℚ) :
    (p.refill now).maxBurstBytes = p.maxBurstBytes := rfl
@[simp] theorem refill_lastRefill (p : Pacer) (now : ℚ) : (p.refill now).lastRefill = now := rfl
@[simp] theorem refill_target (p : Pacer) (now : ℚ) :
    (p.refill now).targetBytesPerSec = p.targetBytesPerSec := rfl

theorem refill_tokens (h : p.lastRefill ≤ now) : (p.refill now).tokens =
    min (p.tokens + (now - p.lastRefill) * p.rate) p.maxBurstBytes := by
  rw [refill, max_eq_left (sub_nonneg.mpr h)]

theorem Filled.refill (h : p.Filled) (now : ℚ) : (p.refill now).Filled where
  nonneg := by
    have earned : 0 ≤ max (now - p.lastRefill) 0 * p.rate :=
      mul_nonneg (le_max_right _ _) p.rate_nonneg
    exact le_min (add_nonneg h.nonneg earned) (h.nonneg.trans h.le_burst)
  le_burst := min_le_right _ _

@[simp] theorem clip_rate (p : Pacer) (k : Bool) (j : UInt32) : (p.clip k j).rate = p.rate := by
  unfold clip
  split <;> rfl

@[simp] theorem clip_burst (p : Pacer) (k : Bool) (j : UInt32) :
    (p.clip k j).maxBurstBytes = p.maxBurstBytes := by
  unfold clip
  split <;> rfl

@[simp] theorem clip_lastRefill (p : Pacer) (k : Bool) (j : UInt32) :
    (p.clip k j).lastRefill = p.lastRefill := by
  unfold clip
  split <;> rfl

@[simp] theorem clip_target (p : Pacer) (k : Bool) (j : UInt32) :
    (p.clip k j).targetBytesPerSec = p.targetBytesPerSec := by
  unfold clip
  split <;> rfl

/-- The second cap only takes tokens away. -/
theorem clip_tokens_le (p : Pacer) (k : Bool) (j : UInt32) : (p.clip k j).tokens ≤ p.tokens := by
  unfold clip
  split
  · rename_i above
    exact le_of_lt above
  · exact le_refl _

theorem Filled.clip (h : p.Filled) (k : Bool) (j : UInt32) : (p.clip k j).Filled where
  nonneg := by
    unfold Pacer.clip
    split
    · have : (1500 : ℚ) ≤ p.budget k j := le_max_right _ _
      change 0 ≤ p.budget k j
      linarith
    · exact h.nonneg
  le_burst := by
    rw [clip_burst]
    exact (p.clip_tokens_le k j).trans h.le_burst

@[simp] theorem opened_rate (p : Pacer) (c : PaceCall) : (p.opened c).rate = p.rate := clip_rate ..
@[simp] theorem opened_burst (p : Pacer) (c : PaceCall) :
    (p.opened c).maxBurstBytes = p.maxBurstBytes := clip_burst ..
@[simp] theorem opened_lastRefill (p : Pacer) (c : PaceCall) : (p.opened c).lastRefill = c.now :=
  clip_lastRefill ..
@[simp] theorem opened_target (p : Pacer) (c : PaceCall) :
    (p.opened c).targetBytesPerSec = p.targetBytesPerSec := clip_target ..

theorem Filled.opened (h : p.Filled) (c : PaceCall) : (p.opened c).Filled :=
  (h.refill c.now).clip c.keyframe c.jitterUs

/-- All a call can do to a pacer with a rate: the tokens at hand suffice, or it
sleeps and refills first. -/
theorem pace_cases (hrate : 0 < p.targetBytesPerSec) (c : PaceCall) :
    (c.packetSize ≤ (p.opened c).tokens ∧
      p.pace c = { p.opened c with tokens := (p.opened c).tokens - c.packetSize }) ∨
    ((p.opened c).tokens < c.packetSize ∧ p.pace c = { (p.opened c).refill c.nowAfter with
      tokens := max (((p.opened c).refill c.nowAfter).tokens - c.packetSize) 0 }) := by
  have hne : p.targetBytesPerSec ≠ 0 := fun h => by rw [h] at hrate; exact absurd hrate (by decide)
  rcases lt_or_ge (p.opened c).tokens (c.packetSize : ℚ) with short | enough
  · right
    exact ⟨short, by simp only [pace, hne, short, ↓reduceIte]⟩
  · left
    refine ⟨enough, ?_⟩
    simp only [pace, hne, not_lt.mpr enough, ↓reduceIte]
    rw [max_eq_left (sub_nonneg.mpr enough)]

/-- The settings of the pacer outlive a call. -/
theorem pace_settings (hrate : 0 < p.targetBytesPerSec) (c : PaceCall) :
    (p.pace c).targetBytesPerSec = p.targetBytesPerSec ∧
      (p.pace c).maxBurstBytes = p.maxBurstBytes := by
  rcases pace_cases hrate c with ⟨_, he⟩ | ⟨_, he⟩
  · rw [he]
    exact ⟨opened_target p c, opened_burst p c⟩
  · rw [he]
    exact ⟨opened_target p c, opened_burst p c⟩

theorem Filled.pace (h : p.Filled) (hrate : 0 < p.targetBytesPerSec) (c : PaceCall) :
    (p.pace c).Filled := by
  have opened := h.opened c
  have size : (0 : ℚ) ≤ c.packetSize := Nat.cast_nonneg _
  rcases pace_cases hrate c with ⟨enough, he⟩ | ⟨_, he⟩
  · rw [he]
    refine ⟨sub_nonneg.mpr enough, ?_⟩
    have := opened.le_burst
    simp only
    linarith
  · rw [he]
    have refilled := opened.refill c.nowAfter
    refine ⟨le_max_right _ _, max_le ?_ (refilled.nonneg.trans refilled.le_burst)⟩
    have := refilled.le_burst
    simp only
    linarith

/-- Tokens beyond what the clock has earned since its zero. -/
def potential (p : Pacer) : ℚ := p.tokens - p.rate * p.lastRefill

/-- A call is paid for by the tokens it finds open and by the time it takes. Where
the packet is larger than the burst, its sleep alone pays what the burst does not
hold, and the debt that `max 0` forgives was paid for as well. -/
theorem pace_pays (hrate : 0 < p.targetBytesPerSec) (timely : c.Timely p) :
    c.packetSize + (p.pace c).potential ≤ (p.opened c).tokens - p.rate * c.now := by
  rcases pace_cases hrate c with ⟨_, he⟩ | ⟨short, he⟩
  · rw [he]
    unfold potential
    change (c.packetSize : ℚ) + ((p.opened c).tokens - c.packetSize -
      (p.opened c).rate * (p.opened c).lastRefill) ≤ _
    rw [opened_rate, opened_lastRefill]
    linarith
  · have hpos := rate_pos hrate
    have slept := (timely.slept short).1
    rw [sleepSecs, opened_rate] at slept
    -- What the clock earned during the sleep covers the deficit.
    have covered : (c.packetSize : ℚ) - (p.opened c).tokens ≤ (c.nowAfter - c.now) * p.rate := by
      have : ((c.packetSize : ℚ) - (p.opened c).tokens) / p.rate ≤ c.nowAfter - c.now := by linarith
      exact (div_le_iff₀ hpos).mp this
    have later : c.now ≤ c.nowAfter := by
      have : 0 ≤ ((c.packetSize : ℚ) - (p.opened c).tokens) / p.rate :=
        div_nonneg (by linarith) hpos.le
      linarith
    have refilled : ((p.opened c).refill c.nowAfter).tokens ≤
        (p.opened c).tokens + (c.nowAfter - c.now) * p.rate := by
      rw [refill_tokens (by rw [opened_lastRefill]; exact later), opened_lastRefill, opened_rate]
      exact min_le_left _ _
    rw [he]
    unfold potential
    change (c.packetSize : ℚ) + (max (((p.opened c).refill c.nowAfter).tokens - c.packetSize) 0 -
      (p.opened c).rate * c.nowAfter) ≤ _
    rw [opened_rate]
    rcases max_cases (((p.opened c).refill c.nowAfter).tokens - (c.packetSize : ℚ)) 0 with
      ⟨hmax, _⟩ | ⟨hmax, _⟩
    · rw [hmax]
      linarith
    · rw [hmax]
      linarith

/-- Opening a call takes no tokens the clock has not earned. -/
theorem opened_potential (timely : c.Timely p) :
    (p.opened c).tokens - p.rate * c.now ≤ p.potential := by
  have refilled : (p.refill c.now).tokens ≤ p.tokens + (c.now - p.lastRefill) * p.rate := by
    rw [refill_tokens timely.started]
    exact min_le_left _ _
  have clipped : (p.opened c).tokens ≤ (p.refill c.now).tokens := clip_tokens_le ..
  unfold potential
  linarith

theorem pace_lastRefill (hrate : 0 < p.targetBytesPerSec) (timely : c.Timely p) :
    (p.pace c).lastRefill ≤ c.returned := by
  rcases pace_cases hrate c with ⟨_, he⟩ | ⟨short, he⟩
  · rw [he]
    change (p.opened c).lastRefill ≤ c.returned
    rw [opened_lastRefill]
    exact timely.ended
  · rw [he]
    exact (timely.slept short).2

theorem run_paceStep_ok (p : Pacer) (calls : List PaceCall) : (run paceStep p calls).error = none := by
  induction calls generalizing p with
  | nil => rfl
  | cons c calls ih =>
    rw [run_cons_ok rfl]
    exact ih _

/-- What every call of a run keeps: the settings and a filled bucket. -/
structure Running (r : UInt64) (cap : ℚ) (p : Pacer) : Prop where
  target : p.targetBytesPerSec = r
  burst : p.maxBurstBytes = cap
  filled : p.Filled

theorem Running.step (hrate : 0 < r) (h : Running r cap p) (c : PaceCall) :
    Running r cap (p.pace c) := by
  have hpos : 0 < p.targetBytesPerSec := h.target ▸ hrate
  obtain ⟨target, hburst⟩ := pace_settings hpos c
  exact ⟨target.trans h.target, hburst.trans h.burst, h.filled.pace hpos c⟩

theorem Running.run (hrate : 0 < r) (h : Running r cap p) (calls : List PaceCall) :
    Running r cap (run paceStep p calls).state :=
  run_keeps_state (Running r cap) (fun _ c _ h => h.step hrate c) h

theorem Running.new (r : UInt64) (start : ℚ) :
    Running r (Pacer.new r start).maxBurstBytes (Pacer.new r start) := by
  refine ⟨rfl, rfl, ?_, le_refl _⟩
  have : (16384 : ℚ) ≤ max ((r.toNat : ℚ) * (1 / 4)) 16384 := le_max_right _ _
  change (0 : ℚ) ≤ max ((r.toNat : ℚ) * (1 / 4)) 16384
  linarith

/-- The calls of a window are paid for by one burst and the time since its start. -/
theorem Running.window (hrate : 0 < r) (h : Running r cap p)
    (timely : Along paceStep (fun p c => c.Timely p) p (c :: calls)) :
    ((c :: calls).map (fun c => (c.packetSize : ℚ))).sum ≤ cap +
      r.toNat * ((Machine.run paceStep p (c :: calls)).state.lastRefill - c.now) := by
  obtain ⟨hc, hrest⟩ := timely
  have hpos : 0 < p.targetBytesPerSec := h.target ▸ hrate
  have first := pace_pays hpos hc
  have next := h.step hrate c
  have later := Along.pays (Running r cap) potential (fun c => (c.packetSize : ℚ))
    (fun p c h _ => h.step hrate c)
    (fun p c h hc => (pace_pays (h.target ▸ hrate) hc).trans (opened_potential hc))
    (hrest rfl) next (run_paceStep_ok _ _)
  have opened := (h.filled.opened c).le_burst
  have last := next.run hrate calls
  rw [opened_burst, h.burst] at opened
  have hrun : (Machine.run paceStep p (c :: calls)).state =
      (Machine.run paceStep (p.pace c) calls).state := run_cons_state rfl
  have hrates : ∀ {q : Pacer}, Running r cap q → q.rate = r.toNat := by
    intro q hq
    rw [Pacer.rate, hq.target]
  rw [hrates h] at first
  change _ + ((Machine.run paceStep (p.pace c) calls).state.tokens -
    (Machine.run paceStep (p.pace c) calls).state.rate *
      (Machine.run paceStep (p.pace c) calls).state.lastRefill) ≤ (p.pace c).potential at later
  rw [hrates last] at later
  have tokens := last.filled.nonneg
  rw [hrun, List.map_cons, List.sum_cons]
  linarith

/-- A run that ends with a call was last refilled before the call returned. -/
theorem Running.lastRefill (hrate : 0 < r) (h : Running r cap p)
    (timely : Along paceStep (fun p c => c.Timely p) p (calls ++ [c])) :
    (Machine.run paceStep p (calls ++ [c])).state.lastRefill ≤ c.returned := by
  rw [Along.append (run_paceStep_ok _ _)] at timely
  rw [run_snoc_state (run_paceStep_ok _ _)]
  have before := h.run hrate calls
  exact pace_lastRefill (before.target ▸ hrate) timely.2.1

end Pacer

/-- Over any calls the tokens stay between zero and the burst, also within a call,
and no window of calls lets through more than one burst and what its time earns at
the rate. -/
theorem pacer_conformance (rate : UInt64) (hrate : 0 < rate) (start : ℚ) (calls : List PaceCall)
    (timely : Along paceStep (fun p c => c.Timely p) (Pacer.new rate start) calls) :
    (∀ n, let p := (run paceStep (Pacer.new rate start) (calls.take n)).state
      p.Filled ∧ ∀ c : PaceCall, (p.opened c).Filled ∧ ((p.opened c).refill c.nowAfter).Filled) ∧
    ∀ i j (_ : i ≤ j) (_ : j < calls.length),
      (((calls.take (j + 1)).drop i).map (fun c => (c.packetSize : ℚ))).sum ≤
        (Pacer.new rate start).maxBurstBytes +
          rate.toNat * (calls[j].returned - calls[i].now) := by
  have fresh := Pacer.Running.new rate start
  refine ⟨fun n => ?_, fun i j hij hj => ?_⟩
  · have filled := (fresh.run hrate (calls.take n)).filled
    exact ⟨filled, fun c => ⟨filled.opened c, (filled.opened c).refill c.nowAfter⟩⟩
  -- The calls up to `j` are those before `i` and the window, which begins with call `i`.
  have hsplit : calls.take i ++ (calls.take (j + 1)).drop i = calls.take (j + 1) := by
    have hpre : calls.take i = (calls.take (j + 1)).take i := by
      rw [List.take_take, min_eq_left (by omega)]
    rw [hpre, List.take_append_drop]
  have hfirst : (calls.take (j + 1)).drop i = calls[i] :: (calls.take (j + 1)).drop (i + 1) := by
    rw [List.drop_eq_getElem_cons (by rw [List.length_take]; omega), List.getElem_take]
  have hlast : calls.take (j + 1) = calls.take j ++ [calls[j]] :=
    (List.take_append_getElem hj).symm
  have upTo : Along paceStep (fun p c => c.Timely p) (Pacer.new rate start)
      (calls.take (j + 1)) := by
    rw [← List.take_append_drop (j + 1) calls, Along.append (Pacer.run_paceStep_ok _ _)] at timely
    exact timely.1
  have within := upTo
  rw [← hsplit, Along.append (Pacer.run_paceStep_ok _ _), hfirst] at within
  have window := (fresh.run hrate (calls.take i)).window hrate within.2
  rw [← hfirst] at window
  have hrun : (run paceStep (run paceStep (Pacer.new rate start) (calls.take i)).state
      ((calls.take (j + 1)).drop i)).state =
      (run paceStep (Pacer.new rate start) (calls.take (j + 1))).state := by
    conv_rhs => rw [← hsplit, run_append_ok (Pacer.run_paceStep_ok _ _)]
  rw [hrun] at window
  have ended := fresh.lastRefill hrate (hlast ▸ upTo)
  rw [← hlast] at ended
  have earned := mul_le_mul_of_nonneg_left ended rate.toNat.cast_nonneg
  linarith

/-- Two packets larger than the burst of 16384 bytes. -/
def oversizedCalls : List PaceCall :=
  [⟨40000, false, 0, 0, 1, 1⟩, ⟨20000, true, 1000, 1, 3 / 2, 2⟩]

theorem pacer_conformance_oversized :
    (((oversizedCalls.take 2).drop 0).map (fun c => (c.packetSize : ℚ))).sum ≤
      (Pacer.new 65536 0).maxBurstBytes +
        (65536 : UInt64).toNat * (oversizedCalls[1].returned - oversizedCalls[0].now) :=
  (pacer_conformance 65536 (by decide) 0 oversizedCalls (by decide +kernel)).2 0 1 (by decide)
    (by decide)

end Sankaku
