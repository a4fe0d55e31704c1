import Sankaku.Model.WirehairTools
import Mathlib.Algebra.Ring.Nat

namespace Sankaku

theorem quotient_bounds {m d k : Int} (hm : 0 ≤ m) (hmd : m ≤ d) (hd : 0 < d) (hk : 0 ≤ k) :
    0 ≤ (m * k).tdiv d ∧ (m * k).tdiv d ≤ k := by
  have hnonneg := Int.mul_nonneg hm hk
  rw [Int.tdiv_eq_ediv_of_nonneg hnonneg]
  refine ⟨Int.ediv_nonneg hnonneg (Int.le_of_lt hd), Int.ediv_le_of_le_mul hd ?_⟩
  rw [Int.mul_comm k]
  exact Int.mul_le_mul_of_nonneg_right hmd hk

/-- The value lies between the counts at both ends, whichever is the larger. -/
theorem linearInterpolate_between (h01 : n0 < n1) (hlow : n0 ≤ n) (hhigh : n ≤ n1)
    (hc0 : count0 < 2 ^ 16) (hc1 : count1 < 2 ^ 16) :
    ∃ count, linearInterpolate n0 n1 count0 count1 n = some count ∧
      min count0 count1 ≤ count ∧ count ≤ max count0 count1 := by
  have hden : (0 : Int) < (n1 : Int) - n0 := by omega
  simp only [linearInterpolate, if_neg (Int.ne_of_gt hden)]
  refine ⟨_, rfl, ?_⟩
  rcases Nat.le_total count0 count1 with hle | hle
  · have hq := quotient_bounds (m := (n : Int) - n0) (k := (count1 : Int) - count0) (by omega)
      (by omega) hden (by omega)
    rw [Nat.min_eq_left hle, Nat.max_eq_right hle]
    omega
  · have hq := quotient_bounds (m := (n : Int) - n0) (k := (count0 : Int) - count1) (by omega)
      (by omega) hden (by omega)
    -- Truncation toward zero keeps a falling segment on its side too.
    have hneg : (((n : Int) - n0) * (count1 - count0)).tdiv (n1 - n0) =
        -(((n : Int) - n0) * (count0 - count1)).tdiv (n1 - n0) := by
      rw [← Int.neg_tdiv, ← Int.mul_neg, Int.neg_sub]
    rw [hneg, Nat.min_eq_right hle, Nat.max_eq_left hle]
    omega

theorem roundDenseCount_spec (count : Nat) :
    count ≤ roundDenseCount count ∧ roundDenseCount count ≤ count + 3 ∧
      roundDenseCount count % 4 = 2 := by
  have hcases : count % 4 = 0 ∨ count % 4 = 1 ∨ count % 4 = 2 ∨ count % 4 = 3 := by omega
  rcases hcases with h | h | h | h <;> simp only [roundDenseCount, h, and_true] <;> omega

/-- The points below the index lie below `n`, or it is the first one. -/
def Brackets (n low high : Nat) : Prop :=
  (low = 0 ∨ (kDensePoints.getD low (0, 0)).1 < n) ∧ n ≤ (kDensePoints.getD high (0, 0)).1 ∧
    low < high ∧ high < kDensePoints.length

theorem densePointSearch_brackets (h : Brackets n low high) (hfuel : high - low ≤ 2 ^ fuel) :
    ∃ found, densePointSearch n (fuel + 1) low high = some found ∧ Brackets n found (found + 1) := by
  induction fuel generalizing low high with
  | zero =>
    obtain ⟨hlow, hhigh, hlt, hlen⟩ := h
    have hnext : high = low + 1 := by omega
    subst hnext
    refine ⟨low, ?_, hlow, hhigh, hlt, hlen⟩
    rw [densePointSearch, if_pos (by omega)]
  | succ fuel ih =>
    obtain ⟨hlow, hhigh, hlt, hlen⟩ := h
    rw [Nat.pow_succ] at hfuel
    rw [densePointSearch]
    by_cases hmid : (high + low) / 2 = low
    · have hnext : high = low + 1 := by omega
      subst hnext
      rw [if_pos hmid]
      exact ⟨low, rfl, hlow, hhigh, hlt, hlen⟩
    · rw [if_neg hmid]
      split
      · rename_i habove
        exact ih ⟨Or.inr habove, hhigh, by omega, hlen⟩ (by omega)
      · rename_i hbelow
        exact ih ⟨hlow, Nat.le_of_not_lt hbelow, by omega, by omega⟩ (by omega)

theorem kDensePoints_counts :
    ∀ i < kDensePoints.length, 52 ≤ (kDensePoints.getD i (0, 0)).2 ∧
      (kDensePoints.getD i (0, 0)).2 ≤ 391 := by
  decide

/-- One block count stands in the table twice, and still no interval the search
ends with is empty. -/
theorem Brackets.interpolates (h : Brackets n low (low + 1)) (hn : 2048 ≤ n) :
    let lowPoint := kDensePoints.getD low (0, 0)
    let highPoint := kDensePoints.getD (low + 1) (0, 0)
    ∃ count, linearInterpolate lowPoint.1 highPoint.1 lowPoint.2 highPoint.2 n = some count ∧
      52 ≤ count ∧ count ≤ 391 := by
  obtain ⟨hlow, hhigh, _, hlen⟩ := h
  have hc0 := kDensePoints_counts low (by omega)
  have hc1 := kDensePoints_counts (low + 1) hlen
  have hends : (kDensePoints.getD low (0, 0)).1 ≤ n ∧
      (kDensePoints.getD low (0, 0)).1 < (kDensePoints.getD (low + 1) (0, 0)).1 := by
    rcases hlow with rfl | hlt
    · exact ⟨hn, by decide⟩
    · exact ⟨Nat.le_of_lt hlt, Nat.lt_of_lt_of_le hlt hhigh⟩
  obtain ⟨count, hcount, hmin, hmax⟩ := linearInterpolate_between hends.2 hends.1 hhigh
    (Nat.lt_of_le_of_lt hc0.2 (by decide)) (Nat.lt_of_le_of_lt hc1.2 (by decide))
  exact ⟨count, hcount, by omega, by omega⟩

theorem kTinyDenseCounts_bounds : ∀ n < kTinyTableCount, 2 ≤ n →
    2 ≤ kTinyDenseCounts.getD n 0 ∧ kTinyDenseCounts.getD n 0 ≤ 30 := by
  decide

theorem getDenseCount_bounds (hlow : 2 ≤ n) (hhigh : n ≤ 64000) (hfuel : fuel = extra + 7) :
    ∃ d, getDenseCount fuel n = some d ∧ 2 ≤ d ∧ d ≤ 394 ∧
      (kTinyTableCount ≤ n → d % 4 = 2) := by
  have hround : ∀ {count? : Option Nat}, (∃ count, count? = some count ∧ 2 ≤ count ∧ count ≤ 391) →
      ∃ d, count?.map roundDenseCount = some d ∧ 2 ≤ d ∧ d ≤ 394 ∧
        (kTinyTableCount ≤ n → d % 4 = 2) := by
    rintro _ ⟨count, rfl, h2, h391⟩
    obtain ⟨hle, hge, hmod⟩ := roundDenseCount_spec count
    exact ⟨_, rfl, by omega, by omega, fun _ => hmod⟩
  have hsegment : ∀ n0 n1 count0 count1, n0 < n1 → n0 ≤ n → n ≤ n1 → 2 ≤ count0 → count0 ≤ count1 →
      count1 ≤ 391 → ∃ count, linearInterpolate n0 n1 count0 count1 n = some count ∧ 2 ≤ count ∧
        count ≤ 391 := by
    intro n0 n1 count0 count1 h01 h0 h1 hc0 hc hc1
    obtain ⟨count, hcount, hmin, hmax⟩ := linearInterpolate_between h01 h0 h1
      (show count0 < 2 ^ 16 by omega) (show count1 < 2 ^ 16 by omega)
    exact ⟨count, hcount, by omega, by omega⟩
  have htables : kTinyTableCount = 65 ∧ kSmallTableCount = 1983 := by decide
  rw [getDenseCount]
  split
  · split
    · rename_i htiny
      obtain ⟨h2, h30⟩ := kTinyDenseCounts_bounds n htiny hlow
      exact ⟨_, rfl, h2, by omega, fun h => absurd htiny (by omega)⟩
    split
    · exact hround (hsegment 64 500 26 35 (by decide) (by omega) (by omega) (by decide) (by decide)
        (by decide))
    split
    · exact hround (hsegment 500 1000 35 48 (by decide) (by omega) (by omega) (by decide)
        (by decide) (by decide))
    · exact hround (hsegment 1000 2048 48 62 (by decide) (by omega) (by omega) (by decide)
        (by decide) (by decide))
  · have hstart : Brackets n 0 (kDensePoints.length - 1) :=
      ⟨Or.inl rfl, hhigh, by decide, by decide⟩
    have hspan : kDensePoints.length - 1 - 0 ≤ 2 ^ (extra + 6) := by
      rw [Nat.pow_add]
      exact Nat.le_trans (by decide) (Nat.le_mul_of_pos_left _ (Nat.two_pow_pos extra))
    obtain ⟨found, hfound, hbrackets⟩ := densePointSearch_brackets hstart hspan
    rw [hfuel, hfound]
    obtain ⟨count, hcount, h52, h391⟩ := hbrackets.interpolates (by omega)
    exact hround ⟨count, hcount, by omega, h391⟩

/-- What `GetDenseCount` and `GetDenseSeed` assert of the count, for every
number of blocks the codec accepts. -/
theorem getDenseCount_asserted (hlow : 2 ≤ n) (hhigh : n ≤ 64000) (hfuel : 7 ≤ fuel) :
    ∃ d, getDenseCount fuel n = some d ∧ 0 < d ∧ d ≤ kMaxDenseCount ∧
      (kTinyTableCount ≤ n → d % 4 = 2 ∧ d / 4 < kDenseSeedCount) := by
  obtain ⟨extra, hextra⟩ := Nat.exists_eq_add_of_le' hfuel
  obtain ⟨d, hd, h2, h394, hmod⟩ := getDenseCount_bounds hlow hhigh hextra
  have hlimits : kMaxDenseCount = 400 ∧ kDenseSeedCount = 100 := ⟨rfl, rfl⟩
  exact ⟨d, hd, by omega, by omega, fun hn => ⟨hmod hn, by omega⟩⟩

theorem getDenseCount_asserted_twice :
    ∃ d, getDenseCount 7 54811 = some d ∧ 0 < d ∧ d ≤ kMaxDenseCount ∧
      (kTinyTableCount ≤ 54811 → d % 4 = 2 ∧ d / 4 < kDenseSeedCount) :=
  getDenseCount_asserted (by decide) (by decide) (Nat.le_refl 7)

end Sankaku
