import Sankaku.Model.WirehairTools
import Mathlib.Data.Nat.ModEq
import Mathlib.Data.Nat.Prime.Basic
import Mathlib.Data.Nat.Sqrt
import Mathlib.Tactic.IntervalCases
import Mathlib.Tactic.NormNum.Prime
import Mathlib.Tactic.Ring

namespace Sankaku

/-- A table entry is off by less than one for every number that is looked up
there. -/
def NearRoot (tableShift resultShift idx : Nat) : Prop :=
  let r := kSquareRootTable.getD idx 0 >>> resultShift
  (r - 1) * (r - 1) ≤ idx * 2 ^ tableShift ∧ (idx + 1) * 2 ^ tableShift ≤ (r + 1) * (r + 1)

instance : Decidable (NearRoot tableShift resultShift idx) := inferInstanceAs (Decidable (_ ∧ _))

theorem nearRoot_table :
    (∀ idx < 256, NearRoot 0 4 idx) ∧
    ∀ idx < 256, 64 ≤ idx →
      NearRoot 2 3 idx ∧ NearRoot 4 2 idx ∧ NearRoot 6 1 idx ∧ NearRoot 8 0 idx := by
  constructor <;> decide +kernel

theorem NearRoot.correct (h : NearRoot tableShift resultShift (x >>> tableShift))
    (hr : r = kSquareRootTable.getD (x >>> tableShift) 0 >>> resultShift) :
    (if r * r > x then r - 1 else r) = Nat.sqrt x := by
  obtain ⟨hlow, hhigh⟩ := h
  rw [← hr] at hlow hhigh
  have hidx : x >>> tableShift = x / 2 ^ tableShift := Nat.shiftRight_eq_div_pow x tableShift
  rw [hidx] at hlow hhigh
  have hle : x / 2 ^ tableShift * 2 ^ tableShift ≤ x := Nat.div_mul_le_self x _
  have hlt : x < (x / 2 ^ tableShift + 1) * 2 ^ tableShift := by
    rw [Nat.mul_comm]
    exact Nat.lt_mul_div_succ x (Nat.two_pow_pos _)
  rw [Nat.eq_sqrt]
  split
  · rename_i hbig
    obtain ⟨k, rfl⟩ : ∃ k, r = k + 1 := ⟨r - 1, by
      have : r ≠ 0 := by rintro rfl; simp at hbig
      omega⟩
    exact ⟨Nat.le_trans hlow hle, hbig⟩
  · exact ⟨by omega, Nat.lt_of_lt_of_le hlt hhigh⟩

theorem floorSquareRoot16_eq (hx : x < 2 ^ 16) : floorSquareRoot16 x = Nat.sqrt x := by
  obtain ⟨hsmall, hlarge⟩ := nearRoot_table
  simp only [floorSquareRoot16, log32]
  split
  · rename_i h
    exact (hsmall x h).correct rfl
  · rename_i h
    have hne : x ≠ 0 := by omega
    have hlow : 2 ^ x.log2 ≤ x := Nat.log2_self_le hne
    have hhigh : x < 2 ^ (x.log2 + 1) := Nat.lt_log2_self
    have h8 : 8 ≤ x.log2 := (Nat.le_log2 hne).mpr (by omega)
    have h15 : x.log2 < 16 := (Nat.log2_lt hne).mpr hx
    generalize x.log2 = bits at hlow hhigh h8 h15
    -- The shifts leave an index in the upper three quarters of the table.
    have hidx : ∀ s, bits ≤ s + 7 → s + 6 ≤ bits → x >>> s < 256 ∧ 64 ≤ x >>> s := by
      intro s hs hs'
      rw [Nat.shiftRight_eq_div_pow, Nat.div_lt_iff_lt_mul (Nat.two_pow_pos s),
        Nat.le_div_iff_mul_le (Nat.two_pow_pos s), show 256 = 2 ^ 8 from rfl,
        show 64 = 2 ^ 6 from rfl, ← Nat.pow_add, ← Nat.pow_add]
      exact ⟨Nat.lt_of_lt_of_le hhigh (Nat.pow_le_pow_right (by decide) (by omega)),
        Nat.le_trans (Nat.pow_le_pow_right (by decide) (by omega)) hlow⟩
    have hat := fun s hs hs' => hlarge _ (hidx s hs hs').1 (hidx s hs hs').2
    interval_cases bits
    · exact (hat 2 (by decide) (by decide)).1.correct rfl
    · exact (hat 2 (by decide) (by decide)).1.correct rfl
    · exact (hat 4 (by decide) (by decide)).2.1.correct rfl
    · exact (hat 4 (by decide) (by decide)).2.1.correct rfl
    · exact (hat 6 (by decide) (by decide)).2.2.1.correct rfl
    · exact (hat 6 (by decide) (by decide)).2.2.1.correct rfl
    · exact (hat 8 (by decide) (by decide)).2.2.2.correct rfl
    · exact (hat 8 (by decide) (by decide)).2.2.2.correct rfl

/-- No prime below 11 divides it. -/
def Candidate (n : Nat) : Prop := ∀ q ∈ [2, 3, 5, 7], ¬ q ∣ n

instance (n : Nat) : Decidable (Candidate n) := inferInstanceAs (Decidable (∀ q ∈ [2, 3, 5, 7], _))

theorem candidate_mod (n : Nat) : Candidate (n % kSieveTableSize) ↔ Candidate n := by
  have h : ∀ q ∈ [2, 3, 5, 7], q ∣ kSieveTableSize := by decide
  refine forall₂_congr fun q hq => not_congr ?_
  exact Nat.dvd_mod_iff (h q hq)

theorem sieveTable_next : ∀ offset < kSieveTableSize,
    let next := kSieveTable.getD offset 0
    offset + next < kSieveTableSize ∧ next ≤ 9 ∧ Candidate (offset + next) ∧
      ∀ j < next, ¬ Candidate (offset + j) := by
  decide +kernel

/-- The table leads to the next candidate. -/
theorem sieve_next (h : offset % kSieveTableSize = n % kSieveTableSize)
    (hlt : offset < kSieveTableSize) :
    Candidate (n + kSieveTable.getD offset 0) ∧ ∀ m, n ≤ m → m < n + kSieveTable.getD offset 0 →
      ¬ Candidate m := by
  obtain ⟨_, _, hnext, hbetween⟩ := sieveTable_next offset hlt
  have hmod : ∀ j, (offset + j) % kSieveTableSize = (n + j) % kSieveTableSize := fun j =>
    Nat.ModEq.add_right j h
  constructor
  · rw [← candidate_mod, ← hmod, candidate_mod]
    exact hnext
  · intro m hnm hm
    obtain ⟨j, rfl⟩ := Nat.exists_eq_add_of_le hnm
    rw [← candidate_mod, ← hmod, candidate_mod]
    exact hbetween j (by omega)

theorem candidate_of_prime (hp : p.Prime) (h : 11 ≤ p) : Candidate p := by
  intro q hq hdvd
  have hcases : q = 1 ∨ q = p := (Nat.dvd_prime hp).mp hdvd
  have hsmall : ∀ q ∈ [2, 3, 5, 7], 1 < q ∧ q < 11 := by decide
  have := hsmall q hq
  omega

theorem trialDivision_false (h : trialDivision n pMax primes = false) :
    ∃ p ∈ primes, p ≤ pMax ∧ p ∣ n := by
  induction primes with
  | nil => cases h
  | cons p primes ih =>
    rw [trialDivision] at h
    split at h
    · cases h
    · rename_i hp
      split at h
      · rename_i hdvd
        exact ⟨p, List.mem_cons_self, Nat.le_of_not_lt hp, Nat.dvd_of_mod_eq_zero hdvd⟩
      · obtain ⟨q, hq, hle, hdvd⟩ := ih h
        exact ⟨q, List.mem_cons_of_mem p hq, hle, hdvd⟩

/-- The primes ascend, so the first one too large ends the search. -/
theorem trialDivision_true (hsorted : primes.Pairwise (· < ·))
    (h : trialDivision n pMax primes = true) : ∀ p ∈ primes, p ≤ pMax → ¬ p ∣ n := by
  induction primes with
  | nil => intro p hp; cases hp
  | cons q primes ih =>
    obtain ⟨hq, hrest⟩ := List.pairwise_cons.mp hsorted
    intro p hp hle hdvd
    rw [trialDivision] at h
    split at h
    · rename_i hlarge
      rcases List.mem_cons.mp hp with rfl | hp
      · omega
      · have := hq p hp
        omega
    · split at h
      · cases h
      · rename_i hndvd
        rcases List.mem_cons.mp hp with rfl | hp
        · exact hndvd (Nat.mod_eq_zero_of_dvd hdvd)
        · exact ih hrest h p hp hle hdvd

theorem primesUnder256_sorted : kPrimesUnder256From11.Pairwise (· < ·) := by decide

theorem primesUnder256_ge : ∀ p ∈ kPrimesUnder256From11, 11 ≤ p := by decide

/-- Whatever is not in the list has a small factor. -/
theorem primesUnder256_complete (hp : p.Prime) (hlt : p < 256) :
    p ∈ [2, 3, 5, 7] ∨ p ∈ kPrimesUnder256From11 := by
  have htable : ∀ q < 256, q ∈ [2, 3, 5, 7] ∨ q ∈ kPrimesUnder256From11 ∨ q < 2 ∨
      ∃ d ∈ [2, 3, 5, 7, 11, 13], d ∣ q ∧ d < q := by
    decide +kernel
  rcases htable p hlt with h | h | h | ⟨d, hd, hdvd, hdlt⟩
  · exact Or.inl h
  · exact Or.inr h
  · exact absurd hp.two_le (by omega)
  · have hne : d ≠ 1 := by rintro rfl; simp at hd
    rcases (Nat.dvd_prime hp).mp hdvd with h | h <;> omega

theorem prime_of_trialDivision (hcand : Candidate n) (hn : 2 ≤ n) (hlt : n < 2 ^ 16)
    (hroot : n < (pMax + 1) * (pMax + 1))
    (h : trialDivision n pMax kPrimesUnder256From11 = true) : n.Prime := by
  by_contra hnp
  have hsq := Nat.minFac_sq_le_self (by omega) hnp
  have hp := Nat.minFac_prime (show n ≠ 1 by omega)
  have hdvd := Nat.minFac_dvd n
  have h256 : n.minFac < 256 := by
    refine lt_of_pow_lt_pow_left₀ 2 (by decide) ?_
    omega
  have hmax : n.minFac ≤ pMax := by
    refine Nat.le_of_lt_succ (lt_of_pow_lt_pow_left₀ 2 (Nat.zero_le _) ?_)
    rw [Nat.pow_two (pMax + 1)]
    exact Nat.lt_of_le_of_lt hsq hroot
  rcases primesUnder256_complete hp h256 with hsmall | hlist
  · exact hcand _ hsmall hdvd
  · exact trialDivision_true primesUnder256_sorted h _ hlist hmax hdvd

/-- At the label `TryNext`: everything from `start` on that was left behind is
composite, and `pMax` reaches the root of `n` but not `n`. -/
structure Trying (start n offset pMax pMax2 : Nat) : Prop where
  start_le : start ≤ n
  le_last : n ≤ 65521
  candidate : Candidate n
  pos : 11 ≤ n
  composite : ∀ m, start ≤ m → m < n → ¬ m.Prime
  offset_mod : offset % kSieveTableSize = (n + 1) % kSieveTableSize
  offset_le : offset ≤ kSieveTableSize
  square : pMax2 = pMax * pMax
  root : n < (pMax + 1) * (pMax + 1)
  below : pMax < n

theorem last_prime : (65521 : Nat).Prime := by norm_num

/-- The least prime from `start` on. -/
def IsNextPrime (start p : Nat) : Prop := p.Prime ∧ start ≤ p ∧ ∀ q, q.Prime → start ≤ q → p ≤ q

theorem Trying.accepts (h : Trying start n offset pMax pMax2)
    (htrial : trialDivision n pMax kPrimesUnder256From11 = true) : IsNextPrime start n := by
  refine ⟨prime_of_trialDivision h.candidate ?_ ?_ h.root htrial, h.start_le, ?_⟩
  · have := h.pos
    omega
  · have := h.le_last
    omega
  · intro q hq hle
    by_contra hlt
    exact h.composite q hle (by omega) hq

/-- A number that fails lies below the last prime, and the wheel does not turn
beyond that. -/
theorem Trying.step (h : Trying start n offset pMax pMax2)
    (htrial : trialDivision n pMax kPrimesUnder256From11 = false) :
    let offset := if offset ≥ kSieveTableSize then offset - kSieveTableSize else offset
    let next := kSieveTable.getD offset 0
    (n + next + 1) % 2 ^ 16 = n + next + 1 ∧
    Trying start (n + next + 1) (offset + next + 1)
      (if pMax2 < n + next + 1 then pMax + 1 else pMax)
      (if pMax2 < n + next + 1 then (pMax + 1) * (pMax + 1) else pMax2) := by
  obtain ⟨hstart, hlast, hcand, hpos, hcomp, hmod, hoffset, rfl, hroot, hbelow⟩ := h
  obtain ⟨p, hp, hple, hpdvd⟩ := trialDivision_false htrial
  have hp11 := primesUnder256_ge p hp
  have hnp : ¬ n.Prime := by
    intro hprime
    rcases (Nat.dvd_prime hprime).mp hpdvd with h | h <;> omega
  intro offset'
  have hoffset' : offset' % kSieveTableSize = (n + 1) % kSieveTableSize ∧ offset' < kSieveTableSize := by
    simp only [offset', ← hmod]
    split
    · have : offset = kSieveTableSize := by omega
      subst this
      decide
    · exact ⟨rfl, by omega⟩
  obtain ⟨hcand', hbetween⟩ := sieve_next hoffset'.1 hoffset'.2
  obtain ⟨hroom, hnine, _, _⟩ := sieveTable_next offset' hoffset'.2
  intro next
  have hlast' : n + next + 1 ≤ 65521 := by
    by_contra hbeyond
    have hne : n ≠ 65521 := fun h => hnp (h ▸ last_prime)
    exact hbetween 65521 (by omega) (by omega) (candidate_of_prime last_prime (by decide))
  refine ⟨Nat.mod_eq_of_lt (by omega), by omega, hlast', ?_, by omega, ?_, ?_, ?_, ?_, ?_, ?_⟩
  · rw [Nat.add_right_comm]
    exact hcand'
  · intro m hm hlt hprime
    rcases Nat.lt_trichotomy m n with hmn | rfl | hnm
    · exact hcomp m hm hmn hprime
    · exact hnp hprime
    · exact hbetween m hnm (by omega) (candidate_of_prime hprime (by omega))
  · rw [show n + next + 1 + 1 = n + 1 + (next + 1) by omega, Nat.add_assoc offset']
    exact Nat.ModEq.add_right (next + 1) hoffset'.1
  · omega
  · split <;> rfl
  · split
    · -- Ten more are not enough to pass the next square.
      have hsq : (pMax + 1 + 1) * (pMax + 1 + 1) = (pMax + 1) * (pMax + 1) + 2 * pMax + 3 := by ring
      rw [hsq]
      omega
    · have : (pMax + 1) * (pMax + 1) = pMax * pMax + 2 * pMax + 1 := by ring
      omega
  · split <;> omega

theorem tryNext_finds (h : Trying start n offset pMax pMax2) (hfuel : 65521 < n + fuel) :
    ∃ p, tryNext fuel n offset pMax pMax2 = some p ∧ IsNextPrime start p := by
  induction fuel generalizing n offset pMax pMax2 with
  | zero =>
    have := h.le_last
    omega
  | succ fuel ih =>
    rw [tryNext]
    split
    · rename_i htrial
      exact ⟨n, rfl, h.accepts htrial⟩
    · rename_i htrial
      have hturn := h.step (by simpa using htrial)
      dsimp only at hturn ⊢
      generalize (if offset ≥ kSieveTableSize then offset - kSieveTableSize else offset) = at'
        at hturn ⊢
      obtain ⟨hfit, hstep⟩ := hturn
      rw [hfit]
      split
      · rename_i hsquare
        simp only [hsquare, if_true] at hstep
        exact ih hstep (by omega)
      · rename_i hsquare
        simp only [hsquare, if_false] at hstep
        exact ih hstep (by omega)

theorem Trying.start (hlow : 8 ≤ n) (hhigh : n ≤ 65521) :
    let next := kSieveTable.getD (n % kSieveTableSize) 0
    (n + next) % 2 ^ 16 = n + next ∧
    Trying n (n + next) (n % kSieveTableSize + next + 1) (floorSquareRoot16 (n + next))
      (floorSquareRoot16 (n + next) * floorSquareRoot16 (n + next)) := by
  have hoffset : n % kSieveTableSize < kSieveTableSize := Nat.mod_lt _ (by decide)
  obtain ⟨hcand, hbetween⟩ := sieve_next (Nat.mod_mod n kSieveTableSize) hoffset
  obtain ⟨hroom, hnine, _, _⟩ := sieveTable_next _ hoffset
  intro next
  have hlast : n + next ≤ 65521 := by
    by_contra hbeyond
    exact hbetween 65521 hhigh (by omega) (candidate_of_prime last_prime (by decide))
  have hcand : Candidate (n + next) := hcand
  have hpos : 11 ≤ n + next := by
    by_contra hsmall
    have hnone : ∀ m < 11, 8 ≤ m → ¬ Candidate m := by decide
    exact hnone _ (by omega) (by omega) hcand
  have hroot := floorSquareRoot16_eq (x := n + next) (by omega)
  rw [hroot]
  refine ⟨Nat.mod_eq_of_lt (by omega), Nat.le_add_right _ _, hlast, hcand, hpos, ?_, ?_, by omega, rfl,
    Nat.lt_succ_sqrt _, Nat.sqrt_lt_self (by omega)⟩
  · intro m hm hlt hprime
    by_cases h11 : 11 ≤ m
    · exact hbetween m hm hlt (candidate_of_prime hprime h11)
    · have hnone : ∀ m < 11, 8 ≤ m → ∃ d ∈ [2, 3, 5], d ∣ m ∧ d < m := by decide
      obtain ⟨d, hd, hdvd, hdlt⟩ := hnone m (by omega) (by omega)
      have hne : d ≠ 1 := by rintro rfl; simp at hd
      rcases (Nat.dvd_prime hprime).mp hdvd with h | h <;> omega
  · rw [Nat.add_assoc, Nat.add_assoc, Nat.mod_add_mod]

theorem nextPrime16_finds (hlow : 2 ≤ n) (hhigh : n ≤ 65521) (hfuel : 2 ^ 16 ≤ fuel) :
    ∃ p, nextPrime16 fuel n = some p ∧ IsNextPrime n p := by
  have hself : ∀ {p}, p.Prime → IsNextPrime p p := fun hp => ⟨hp, Nat.le_refl _, fun _ _ h => h⟩
  by_cases h8 : 8 ≤ n
  · obtain ⟨hfit, htrying⟩ := Trying.start h8 hhigh
    have hnot : ∀ m, m < 8 → n ≠ m := by intro m hm; omega
    simp only [nextPrime16, hnot, Nat.reduceLT, if_false, if_neg (Nat.not_lt.mpr hhigh), hfit, or_self]
    exact tryNext_finds htrying (by omega)
  · interval_cases n
    · exact ⟨2, rfl, hself (by norm_num)⟩
    · exact ⟨3, rfl, hself (by norm_num)⟩
    · refine ⟨5, rfl, by norm_num, by decide, fun q hq h => ?_⟩
      by_contra hlt
      have : q = 4 := by omega
      subst this
      revert hq
      norm_num
    · exact ⟨5, rfl, hself (by norm_num)⟩
    · refine ⟨7, rfl, by norm_num, by decide, fun q hq h => ?_⟩
      by_contra hlt
      have : q = 6 := by omega
      subst this
      revert hq
      norm_num
    · exact ⟨7, rfl, hself (by norm_num)⟩

/-- The search ends for every number of 16 bits; only 0, 1 and what lies beyond
the last prime are answered otherwise than with a prime. -/
theorem nextPrime16_spec (hn : n < 2 ^ 16) (hfuel : 2 ^ 16 ≤ fuel) :
    if n < 2 then nextPrime16 fuel n = some 1
    else if n ≤ 65521 then ∃ p, nextPrime16 fuel n = some p ∧ IsNextPrime n p
    else nextPrime16 fuel n = some 0 := by
  split
  · interval_cases n <;> rfl
  split
  · exact nextPrime16_finds (by omega) (by assumption) hfuel
  · rename_i hlarge
    have hnot : ∀ m, m < 8 → n ≠ m := by intro m hm; omega
    simp only [nextPrime16, hnot, Nat.reduceLT, if_false, if_pos (Nat.not_le.mp hlarge), or_self]

theorem nextPrime16_spec_last :
    if 65520 < 2 then nextPrime16 (2 ^ 16) 65520 = some 1
    else if 65520 ≤ 65521 then
      ∃ p, nextPrime16 (2 ^ 16) 65520 = some p ∧ IsNextPrime 65520 p
    else nextPrime16 (2 ^ 16) 65520 = some 0 :=
  nextPrime16_spec (by decide) (Nat.le_refl _)

end Sankaku
