import Mathlib.Algebra.BigOperators.Group.Finset.Basic
import Mathlib.Algebra.Order.BigOperators.Group.Finset
import Mathlib.Order.Lattice.Nat
import Sankaku.Proofs.LossReports

namespace Sankaku

/-- A set of droplets, each by its frame and its id. -/
abbrev Droplets := Finset (UInt64 × UInt32)

namespace Droplets
variable (ds : Droplets)

def frames : Finset UInt64 := ds.image Prod.fst

def seqIds (f : UInt64) : Finset UInt32 := (ds.filter (fun d => d.1 = f)).image Prod.snd

/-- How many ids there are in `0..=max`. -/
def span (f : UInt64) : Nat := (ds.seqIds f).sup UInt32.toNat + 1

/-- The ids in `0..=max` that were not seen. -/
def missing (f : UInt64) : Finset Nat :=
  Finset.range (ds.span f) \ (ds.seqIds f).image UInt32.toNat

/-- The missing ids of all frames among all the ids there should be. -/
def lossRatio : ℚ :=
  ((∑ f ∈ ds.frames, (ds.missing f).card : Nat) : ℚ) / (∑ f ∈ ds.frames, ds.span f : Nat)

theorem seqIds_below (f : UInt64) :
    (ds.seqIds f).image UInt32.toNat ⊆ Finset.range (ds.span f) := by
  intro i hi
  obtain ⟨s, hs, rfl⟩ := Finset.mem_image.mp hi
  apply Finset.mem_range.mpr
  exact Nat.lt_succ_of_le (Finset.le_sup (f := UInt32.toNat) hs)

theorem missing_card (f : UInt64) : (ds.missing f).card + (ds.seqIds f).card = ds.span f := by
  have hinj : ((ds.seqIds f).image UInt32.toNat).card = (ds.seqIds f).card :=
    Finset.card_image_of_injective _ (fun _ _ h => UInt32.toNat_inj.mp h)
  have hsplit := Finset.card_sdiff_add_card_eq_card (ds.seqIds_below f)
  rw [hinj, Finset.card_range] at hsplit
  exact hsplit

theorem span_le (f : UInt64) : ds.span f ≤ 2 ^ 32 := by
  have hsup : (ds.seqIds f).sup UInt32.toNat ≤ 2 ^ 32 - 1 := by
    apply Finset.sup_le
    intro s _
    have := s.toNat_lt
    omega
  unfold span
  omega

theorem lossRatio_mem : 0 ≤ ds.lossRatio ∧ ds.lossRatio ≤ 1 := by
  constructor
  · exact div_nonneg (Nat.cast_nonneg _) (Nat.cast_nonneg _)
  · apply div_le_one_of_le₀ _ (Nat.cast_nonneg _)
    apply Nat.cast_le.mpr
    apply Finset.sum_le_sum
    intro f _
    have := ds.missing_card f
    omega

variable (g : UInt64) (s : UInt32)

theorem frames_insert : frames (insert (g, s) ds) = insert g ds.frames := Finset.image_insert _ _ _

theorem seqIds_insert_self : seqIds (insert (g, s) ds) g = insert s (ds.seqIds g) := by
  rw [seqIds, Finset.filter_insert, if_pos rfl, Finset.image_insert]
  rfl

theorem seqIds_insert_other (h : f ≠ g) : seqIds (insert (g, s) ds) f = ds.seqIds f := by
  rw [seqIds, Finset.filter_insert, if_neg (fun hg => h hg.symm)]
  rfl

theorem span_insert_self : span (insert (g, s) ds) g = max (s.toNat + 1) (ds.span g) := by
  rw [span, seqIds_insert_self, Finset.sup_insert]
  exact (max_add_add_right _ _ _).symm

theorem span_insert_other (h : f ≠ g) : span (insert (g, s) ds) f = ds.span f := by
  rw [span, seqIds_insert_other ds g s h]
  rfl

end Droplets

namespace LossFeedbackWindow

/-- The entry of a frame, or the one it would begin with. -/
def entry (w : LossFeedbackWindow) (f : UInt64) : FrameSequenceWindow :=
  (w.frames.lookup f).getD .default

/-- The maps of the window are those of a set of droplets. -/
structure Holds (w : LossFeedbackWindow) (ds : Droplets) : Prop where
  frames : ∀ f, f ∈ w.frames ↔ f ∈ ds.frames
  seen : ∀ f, (w.entry f).seenSeqIds = ds.seqIds f
  largest : ∀ f, (w.entry f).maxSeqId.toNat + 1 = ds.span f

theorem Holds.cleared (started : Option Nat) : Holds ⟨started, ∅⟩ ∅ := by
  constructor
  · intro f
    exact iff_of_false (AList.notMem_empty f) (Finset.notMem_empty f)
  · intro f
    rfl
  · intro f
    rfl

theorem entry_observe_self (w : LossFeedbackWindow) (t : Nat) (g : UInt64) (s : UInt32) :
    (w.observePacket t g s).entry g =
      ⟨max (w.entry g).maxSeqId s, insert s (w.entry g).seenSeqIds⟩ := by
  simp only [entry, observePacket, AList.lookup_insert, Option.getD_some]

theorem entry_observe_other (w : LossFeedbackWindow) (t : Nat) (s : UInt32) (h : f ≠ g) :
    (w.observePacket t g s).entry f = w.entry f := by
  rw [entry, observe_lookup_other w t g s h]
  rfl

theorem Holds.observe (h : Holds w ds) (t : Nat) (g : UInt64) (s : UInt32) :
    Holds (w.observePacket t g s) (insert (g, s) ds) := by
  constructor
  · intro f
    rw [ds.frames_insert, Finset.mem_insert, ← h.frames f]
    exact AList.mem_insert _
  · intro f
    by_cases hf : f = g
    · rw [hf, entry_observe_self, ds.seqIds_insert_self, ← h.seen g]
    · rw [entry_observe_other w t s hf, ds.seqIds_insert_other g s hf, h.seen f]
  · intro f
    by_cases hf : f = g
    · rw [hf, entry_observe_self, ds.span_insert_self, ← h.largest g, UInt32.toNat_max]
      omega
    · rw [entry_observe_other w t s hf, ds.span_insert_other g s hf, h.largest f]

theorem Holds.observeAll (h : Holds w ds) (arrivals : List Arrival) :
    Holds (Sankaku.observeAll w arrivals) (ds ∪ (arrivals.map Arrival.droplet).toFinset) := by
  induction arrivals generalizing w ds with
  | nil =>
    rw [List.map_nil, List.toFinset_nil, Finset.union_empty]
    exact h
  | cons a as ih =>
    have hstep := ih (h.observe a.instant a.frameIndex a.seqId)
    rw [List.map_cons, List.toFinset_cons, Finset.union_insert, ← Finset.insert_union]
    exact hstep

/-- A sum over the map is a sum over the frames of the set. -/
theorem Holds.sum_eq (h : Holds w ds) (measure : FrameSequenceWindow → Nat)
    (value : UInt64 → Nat) (same : ∀ f, measure (w.entry f) = value f) :
    (w.frames.entries.map (fun e => measure e.2)).sum = ∑ f ∈ ds.frames, value f := by
  have hkeys : w.frames.keys.toFinset = ds.frames := by
    ext f
    rw [List.mem_toFinset]
    exact h.frames f
  have hentry : ∀ e ∈ w.frames.entries, measure e.2 = value e.1 := by
    intro e he
    have hlookup : w.frames.lookup e.1 = some e.2 := AList.mem_lookup_iff.mpr he
    rw [← same, entry, hlookup, Option.getD_some]
  calc (w.frames.entries.map (fun e => measure e.2)).sum
      = (w.frames.entries.map (fun e => value e.1)).sum := by
        rw [List.map_congr_left hentry]
    _ = (w.frames.keys.map value).sum := by
        rw [AList.keys, List.keys, List.map_map]
        rfl
    _ = ∑ f ∈ ds.frames, value f := by
        rw [← hkeys, List.sum_toFinset value w.frames.keys_nodup]

theorem Holds.expected (h : Holds w ds) : w.expected = ∑ f ∈ ds.frames, ds.span f :=
  h.sum_eq (fun entry => entry.maxSeqId.toNat + 1) ds.span h.largest

theorem Holds.received (h : Holds w ds) :
    w.received = ∑ f ∈ ds.frames, (ds.seqIds f).card := by
  apply h.sum_eq (fun entry => entry.seenSeqIds.card)
  intro f
  rw [h.seen f]

theorem Holds.lost (h : Holds w ds) :
    w.expected = (∑ f ∈ ds.frames, (ds.missing f).card) + w.received := by
  rw [h.expected, h.received, ← Finset.sum_add_distrib]
  apply Finset.sum_congr rfl
  intro f _
  exact (ds.missing_card f).symm

/-- With fewer than `2 ^ 32` frames neither counter comes near its cap. -/
theorem Holds.lossRatio (h : Holds w ds) (few : ds.frames.card < 2 ^ 32) :
    w.lossRatio = ds.lossRatio := by
  have hcap : w.expected < 2 ^ 64 := by
    have hsum : ∑ f ∈ ds.frames, ds.span f ≤ ds.frames.card * 2 ^ 32 := by
      apply Finset.sum_le_card_nsmul
      intro f _
      exact ds.span_le f
    rw [h.expected]
    omega
  have hlost := h.lost
  obtain ⟨hexpected, hreceived⟩ := countPackets_toNat w
  rw [min_eq_left (by omega)] at hexpected hreceived
  have hsub : (saturatingSub64 w.countPackets.1 w.countPackets.2).toNat =
      ∑ f ∈ ds.frames, (ds.missing f).card := by
    rw [saturatingSub64, UInt64.toNat_ofNat', Nat.mod_eq_of_lt (by omega)]
    omega
  have hratio : (((saturatingSub64 w.countPackets.1 w.countPackets.2).toNat : Nat) : ℚ) /
      w.countPackets.1.toNat = ds.lossRatio := by
    rw [hsub, hexpected, h.expected]
    rfl
  obtain ⟨hzero, hone⟩ := ds.lossRatio_mem
  unfold LossFeedbackWindow.lossRatio
  rw [hratio, min_eq_left hone, max_eq_right hzero]
  split
  · rename_i hnone
    have hempty : w.expected = 0 := by
      rw [← hexpected, hnone]
      rfl
    rw [Droplets.lossRatio, ← h.expected, hempty, Nat.cast_zero, div_zero]
  · rfl

/-- Half a second has passed since the window started. -/
def Due (w : LossFeedbackWindow) (t : Nat) : Prop :=
  ∃ t₀, w.startedAt = some t₀ ∧ feedbackWindow ≤ t - t₀

theorem maybeFlush_not_due {w : LossFeedbackWindow} (h : ¬ w.Due t) :
    w.maybeFlushLossRatio t = (none, w) := by
  cases hstart : w.startedAt with
  | none => rw [maybeFlushLossRatio, hstart]
  | some t₀ =>
    apply maybeFlush_open hstart
    by_contra hlate
    exact h ⟨t₀, hstart, Nat.le_of_not_lt hlate⟩

end LossFeedbackWindow

/-- The droplets that arrived, each once. -/
def arrived (arrivals : List Arrival) : Droplets := (arrivals.map Arrival.droplet).toFinset

theorem arrived_frames (arrivals : List Arrival) :
    (arrived arrivals).frames = (arrivals.map Arrival.frameIndex).toFinset := by
  ext f
  simp only [arrived, Droplets.frames, Finset.mem_image, List.mem_toFinset, List.mem_map,
    exists_exists_and_eq_and]
  rfl

theorem observeAll_holds (started : Option Nat) (arrivals : List Arrival) :
    (observeAll ⟨started, ∅⟩ arrivals).Holds (arrived arrivals) := by
  have h := (LossFeedbackWindow.Holds.cleared started).observeAll arrivals
  rw [Finset.empty_union] at h
  exact h

/-- The clock of a cleared window is the one it was left with, or starts with the
first droplet. -/
theorem observeAll_clock (started : Option Nat) (arrivals : List Arrival) :
    (observeAll ⟨started, ∅⟩ arrivals).startedAt =
      started.or (arrivals.head?.map Arrival.instant) := by
  cases started with
  | some t₀ => exact observeAll_started ∅ t₀ arrivals
  | none =>
    cases arrivals with
    | nil => rfl
    | cons a as => exact observeAll_started _ a.instant as

theorem flush_exact {w : LossFeedbackWindow} (h : w.Holds ds) (few : ds.frames.card < 2 ^ 32)
    (due : w.Due t) : w.maybeFlushLossRatio t = (some ds.lossRatio, ⟨some t, ∅⟩) := by
  obtain ⟨t₀, hstart, hlate⟩ := due
  rw [maybeFlush_due hstart (Nat.not_lt.mpr hlate), h.lossRatio few]

/-- What the window reports since it was last cleared, and when. The value depends
on which droplets arrived, not on their order nor on how often each did. -/
theorem loss_window_exact (started : Option Nat) (arrivals : List Arrival)
    (few : (arrivals.map Arrival.frameIndex).toFinset.card < 2 ^ 32) (t : Nat) :
    let w := observeAll ⟨started, ∅⟩ arrivals
    let ratio := (arrived arrivals).lossRatio
    w.startedAt = started.or (arrivals.head?.map Arrival.instant) ∧
    (¬ w.Due t → w.maybeFlushLossRatio t = (none, w)) ∧
    (w.Due t → w.maybeFlushLossRatio t = (some ratio, ⟨some t, ∅⟩)) ∧
    (0 ≤ ratio ∧ ratio ≤ 1) ∧
    ∀ again : List Arrival,
      (∀ d, d ∈ again.map Arrival.droplet ↔ d ∈ arrivals.map Arrival.droplet) →
      (observeAll ⟨started, ∅⟩ again).Due t →
      (observeAll ⟨started, ∅⟩ again).maybeFlushLossRatio t = (some ratio, ⟨some t, ∅⟩) := by
  intro w ratio
  rw [← arrived_frames] at few
  refine ⟨observeAll_clock started arrivals, LossFeedbackWindow.maybeFlush_not_due, ?_,
    (arrived arrivals).lossRatio_mem, ?_⟩
  · intro hdue
    exact flush_exact (observeAll_holds started arrivals) few hdue
  · intro again hsame hdue
    have hset : arrived again = arrived arrivals := by
      ext d
      rw [arrived, arrived, List.mem_toFinset, List.mem_toFinset]
      exact hsame d
    have hholds := observeAll_holds started again
    rw [hset] at hholds
    exact flush_exact hholds few hdue

/-- Ids 2, 0 and 2 again of one frame, id 0 of the next: one in four is missing. -/
theorem loss_window_exact_reordered :
    (observeAll ⟨some 0, ∅⟩ [⟨1, 0, 2⟩, ⟨2, 1, 0⟩, ⟨3, 0, 0⟩, ⟨4, 0, 2⟩]).maybeFlushLossRatio
      feedbackWindow = (some (1 / 4), ⟨some feedbackWindow, ∅⟩) := by
  have h := (loss_window_exact (some 0) [⟨1, 0, 2⟩, ⟨2, 1, 0⟩, ⟨3, 0, 0⟩, ⟨4, 0, 2⟩]
    (by decide) feedbackWindow).2.2.1 ⟨0, rfl, le_refl _⟩
  have hratio : (arrived [⟨1, 0, 2⟩, ⟨2, 1, 0⟩, ⟨3, 0, 0⟩, ⟨4, 0, 2⟩]).lossRatio = 1 / 4 := by
    decide +kernel
  rw [hratio] at h
  exact h

end Sankaku
