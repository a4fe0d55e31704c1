import Sankaku.Lib.Weyl
import Sankaku.Model.WirehairCodec
import Sankaku.Proofs.DenseCount
import Sankaku.Proofs.NextPrime

namespace Sankaku
open Weyl

/-- However many additions the rare case leaves out, it stops where they would. -/
theorem iterateNextColumn_walks (ha : 0 < a) (hab : a < b) (hbp : b ≤ p) (hp : p ≤ 2 ^ 16) :
    Walks b p a (fun x => iterateNextColumn x b p a) := by
  intro x hx
  have hone : orbit p a x 1 = (x + a) % p := by rw [orbit, Nat.one_mul]
  have hlt : (x + a) % p < p := Nat.mod_lt _ (by omega)
  simp only [iterateNextColumn]
  generalize (x + a) % p = x' at hone hlt
  split
  · rename_i hge
    -- Either way the result is `k` additions past `p`.
    have hwrap : ∃ k, ∃ y < a, p - x' + y = k * a ∧
        (if a ≥ p - x' then a - (p - x') else ((a <<< 16) - (p - x')) % a) = y := by
      split
      · exact ⟨1, a - (p - x'), by omega, by omega, rfl⟩
      · rename_i hsmall
        have hbig : p - x' ≤ a <<< 16 := by
          rw [Nat.shiftLeft_eq]
          have : 2 ^ 16 ≤ a * 2 ^ 16 := Nat.le_mul_of_pos_left _ ha
          omega
        refine ⟨2 ^ 16 - (a <<< 16 - (p - x')) / a, _, Nat.mod_lt _ ha, ?_, rfl⟩
        have hdiv := Nat.div_add_mod (a <<< 16 - (p - x')) a
        rw [Nat.sub_mul, Nat.mul_comm _ a, Nat.mul_comm _ a, ← Nat.shiftLeft_eq]
        rw [Nat.shiftLeft_eq] at *
        omega
    obtain ⟨k, y, hy, hk, heq⟩ := hwrap
    have horbit : ∀ j, orbit p a x (j + 1) = (x' + j * a) % p := by
      intro j
      rw [← hone, Nat.add_comm j 1, ← orbit_add]
      rfl
    rw [heq]
    refine ⟨k, ?_, by omega, fun j hj => ?_⟩
    · rw [horbit, ← hk, show x' + (p - x' + y) = p + y by omega, Nat.add_mod_left,
        Nat.mod_eq_of_lt (by omega)]
    · have hstep : j * a + a ≤ k * a := by
        rw [← Nat.succ_mul]
        exact Nat.mul_le_mul_right a hj
      rw [horbit, Nat.mod_eq_of_lt (by omega)]
      omega
  · exact ⟨0, hone, by omega, fun j hj => absurd hj (Nat.not_lt_zero j)⟩

theorem columnsFrom_eq (b p a n x : Nat) :
    columnsFrom b p a n x = List.iterate (fun x => iterateNextColumn x b p a) x (n + 1) := by
  induction n generalizing x with
  | zero => rfl
  | succ n ih =>
    rw [columnsFrom, ih]
    rfl

theorem columnsFrom_distinct (ha : 0 < a) (hab : a < b) (hp : IsNextPrime b p) (hlast : p ≤ 65521)
    (hx : x < b) (hn : n < b) :
    (columnsFrom b p a n x).Nodup ∧ ∀ y ∈ columnsFrom b p a n x, y < b := by
  have hbp := hp.2.1
  have hcop : Nat.Coprime p a := hp.1.coprime_iff_not_dvd.mpr
    (fun hdvd => absurd (Nat.le_of_dvd ha hdvd) (by omega))
  rw [columnsFrom_eq]
  exact (iterateNextColumn_walks ha hab hbp (by omega)).nodup hcop hbp hx hn

theorem columnsFrom_length (b p a n x : Nat) : (columnsFrom b p a n x).length = n + 1 := by
  rw [columnsFrom_eq, List.length_iterate]

theorem weightLoop_bounds (rv : UInt32) (weight : Nat) (entries : List UInt32) :
    weight ≤ weightLoop rv weight entries ∧
      weightLoop rv weight entries ≤ weight + entries.length := by
  induction entries generalizing weight with
  | nil => exact ⟨Nat.le_refl _, Nat.le_refl _⟩
  | cons entry entries ih =>
    have := ih (weight + 1)
    rw [weightLoop, List.length_cons]
    split <;> omega

theorem generatePeelRowWeight_bounds (rv : UInt32) (blockCount : Nat) :
    0 < generatePeelRowWeight rv blockCount ∧
      generatePeelRowWeight rv blockCount ≤ kMaxPeelCount := by
  have hmax : kMaxPeelCount = 64 := rfl
  have hlen : (kPeelCountDistribution.drop 3).length = 61 := rfl
  generalize hw : generatePeelRowWeight rv blockCount = weight
  simp only [generatePeelRowWeight] at hw
  split at hw
  · omega
  generalize (if blockCount ≤ kMaxNForWeight1 then rv - p1 else rv) = rescaled at hw
  split at hw
  · omega
  split at hw
  · omega
  · have := weightLoop_bounds rescaled 3 (kPeelCountDistribution.drop 3)
    omega

/-- No row of the matrix refers to a column twice or to one that is not there. -/
structure Matrix.Wellformed (m : Matrix) : Prop where
  columns_pos : ∀ rowSeed, 0 < (m.columns rowSeed).length
  columns_le : ∀ rowSeed, (m.columns rowSeed).length ≤ kMaxPeelCount ∧
    (m.columns rowSeed).length ≤ m.blockCount / 2
  columns_nodup : ∀ rowSeed, (m.columns rowSeed).Nodup
  columns_lt : ∀ rowSeed, ∀ c ∈ m.columns rowSeed, c < m.blockCount
  mix_length : ∀ rowSeed, (m.mix rowSeed).length = 3
  mix_nodup : ∀ rowSeed, (m.mix rowSeed).Nodup
  mix_lt : ∀ rowSeed, ∀ c ∈ m.mix rowSeed, c < m.mixCount

theorem isNextPrime_le (h : IsNextPrime n p) (hn : n ≤ 65521) : p ≤ 65521 :=
  h.2.2 65521 last_prime hn

theorem wellformed_of_primes {m : Matrix} (hcount : 2 ≤ m.blockCount) (hmax : m.blockCount ≤ 65521)
    (hmix : 3 ≤ m.mixCount) (hmixmax : m.mixCount ≤ 65521)
    (hprime : IsNextPrime m.blockCount m.blockNextPrime)
    (hmixprime : IsNextPrime m.mixCount m.mixNextPrime) : m.Wellformed := by
  have hparams : ∀ rowSeed, 0 < (m.params rowSeed).peelCount ∧
      (m.params rowSeed).peelCount ≤ kMaxPeelCount ∧
      (m.params rowSeed).peelCount ≤ m.blockCount / 2 := by
    intro rowSeed
    simp only [Matrix.params, PeelRowParameters.initialize]
    split
    · rename_i h
      have := generatePeelRowWeight_bounds
        (PCGRandom.seed rowSeed.toUInt64 m.pSeed.toUInt64).next.1 m.blockCount
      omega
    · rename_i h
      have := generatePeelRowWeight_bounds
        (PCGRandom.seed rowSeed.toUInt64 m.pSeed.toUInt64).next.1 m.blockCount
      omega
  have hadd : ∀ n v, 2 ≤ n → 0 < v % 2 ^ 16 % (n - 1) + 1 ∧ v % 2 ^ 16 % (n - 1) + 1 < n := by
    intro n v hn
    have := Nat.mod_lt (v % 2 ^ 16) (show 0 < n - 1 by omega)
    omega
  have hpeel : ∀ rowSeed, (m.columns rowSeed).Nodup ∧ ∀ c ∈ m.columns rowSeed, c < m.blockCount := by
    intro rowSeed
    have hp := hparams rowSeed
    exact columnsFrom_distinct (hadd _ _ hcount).1 (hadd _ _ hcount).2 hprime
      (isNextPrime_le hprime hmax) (Nat.mod_lt _ (by omega)) (by omega)
  have hmixes : ∀ rowSeed, (m.mix rowSeed).Nodup ∧ ∀ c ∈ m.mix rowSeed, c < m.mixCount := by
    intro rowSeed
    exact columnsFrom_distinct (hadd _ _ (by omega)).1 (hadd _ _ (by omega)).2 hmixprime
      (isNextPrime_le hmixprime hmixmax) (Nat.mod_lt _ (by omega)) (by omega)
  have hlength : ∀ rowSeed, (m.columns rowSeed).length = (m.params rowSeed).peelCount := by
    intro rowSeed
    have hp := hparams rowSeed
    rw [Matrix.columns, peelColumns, columnsFrom_length]
    omega
  refine ⟨fun r => ?_, fun r => ?_, fun r => (hpeel r).1, fun r => (hpeel r).2, fun r => ?_,
    fun r => (hmixes r).1, fun r => (hmixes r).2⟩
  · rw [hlength]
    exact (hparams r).1
  · rw [hlength]
    exact (hparams r).2
  · rw [Matrix.mix, mixColumns, columnsFrom_length]

/-- The number of blocks the codec works with: what 16 bits keep of the blocks
there are. -/
def keptBlocks (messageBytes : UInt64) (blockBytes : UInt32) : Nat :=
  ((messageBytes + blockBytes.toUInt64 - 1) / blockBytes.toUInt64).toNat % 2 ^ 16

theorem nextPrime16_some (hn : n < 2 ^ 16) (hfuel : 2 ^ 16 ≤ fuel) :
    ∃ p, nextPrime16 fuel n = some p := by
  by_cases hsmall : n < 2
  · refine ⟨1, ?_⟩
    rw [nextPrime16, if_pos (by omega)]
  by_cases hlarge : n ≤ 65521
  · obtain ⟨p, hp, _⟩ := nextPrime16_finds (by omega) hlarge hfuel
    exact ⟨p, hp⟩
  · refine ⟨0, ?_⟩
    have hnot : ∀ m, m < 8 → n ≠ m := by intro m hm; omega
    simp only [nextPrime16, hnot, Nat.reduceLT, if_false, if_pos (Nat.not_le.mp hlarge), or_self]

/-- The choice always comes to an end; where it is made, the matrix is for the
blocks that were kept, and they are as many as the limits allow. -/
theorem chooseMatrix_answers (getPeelSeed : Nat → UInt32) (hfuel : 2 ^ 16 ≤ fuel)
    (messageBytes : UInt64) (blockBytes : UInt32) :
    (∃ failure, chooseMatrix getPeelSeed fuel messageBytes blockBytes = some (.error failure) ∧
      (messageBytes < 1 ∨ blockBytes < 1 ∨ keptBlocks messageBytes blockBytes < wirehairMinN ∨
        wirehairMaxN < keptBlocks messageBytes blockBytes)) ∨
    ∃ m, chooseMatrix getPeelSeed fuel messageBytes blockBytes = some (.ok m) ∧ m.Wellformed ∧
      ¬ messageBytes < 1 ∧ ¬ blockBytes < 1 ∧ m.blockBytes = blockBytes ∧
      m.blockCount = keptBlocks messageBytes blockBytes ∧ wirehairMinN ≤ m.blockCount ∧
      m.blockCount ≤ wirehairMaxN := by
  have hkept : keptBlocks messageBytes blockBytes < 2 ^ 16 := Nat.mod_lt _ (by decide)
  have hlimits : wirehairMinN = 2 ∧ wirehairMaxN = 64000 := ⟨rfl, rfl⟩
  have hheavy : kHeavyRows = 6 := rfl
  obtain ⟨p, hp⟩ := nextPrime16_some hkept hfuel
  unfold keptBlocks at hp
  rw [chooseMatrix]
  split
  · rename_i h
    exact Or.inl ⟨_, rfl, by tauto⟩
  rename_i hinput
  simp only [Option.bind_eq_bind, hp, Option.bind_some]
  split
  · rename_i h
    exact Or.inl ⟨_, rfl, Or.inr (Or.inr (Or.inl h))⟩
  rename_i hmin
  split
  · rename_i h
    exact Or.inl ⟨_, rfl, Or.inr (Or.inr (Or.inr h))⟩
  rename_i hmax
  obtain ⟨extra, hextra⟩ := Nat.exists_eq_add_of_le' (show 7 ≤ fuel by omega)
  obtain ⟨d, hd, hd2, hd394, _⟩ := getDenseCount_bounds (n := keptBlocks messageBytes blockBytes)
    (by unfold keptBlocks; omega) (by unfold keptBlocks; omega) hextra
  obtain ⟨q, hq, hqprime⟩ := nextPrime16_finds (n := d + kHeavyRows) (by omega) (by omega) hfuel
  obtain ⟨p', hp', hpprime⟩ := nextPrime16_finds (n := keptBlocks messageBytes blockBytes)
    (by unfold keptBlocks; omega) (by unfold keptBlocks; omega) hfuel
  unfold keptBlocks at hd hp'
  cases hp.symm.trans hp'
  simp only [hd, hq, Option.bind_some]
  refine Or.inr ⟨_, rfl, wellformed_of_primes ?_ ?_ ?_ ?_ hpprime hqprime, by tauto, by tauto, rfl, rfl,
    Nat.le_of_not_lt hmin, Nat.le_of_not_lt hmax⟩
  · exact Nat.le_of_not_lt hmin
  · dsimp only
    omega
  · dsimp only
    omega
  · dsimp only
    omega

theorem chooseMatrix_wellformed (hfuel : 2 ^ 16 ≤ fuel)
    (h : chooseMatrix getPeelSeed fuel messageBytes blockBytes = some (.ok m)) :
    m.Wellformed ∧ m.blockBytes = blockBytes ∧ m.blockCount = keptBlocks messageBytes blockBytes ∧
      wirehairMinN ≤ m.blockCount ∧ m.blockCount ≤ wirehairMaxN := by
  rcases chooseMatrix_answers getPeelSeed hfuel messageBytes blockBytes with
    ⟨_, herror, _⟩ | ⟨m', hm', hwf, _, _, hbytes, hcount, hmin, hmax⟩
  · cases h.symm.trans herror
  · cases h.symm.trans hm'
    exact ⟨hwf, hbytes, hcount, hmin, hmax⟩

/-- A matrix is chosen exactly where 16 bits keep a number of blocks within the
limits, and whichever it is, its rows draw their columns without replacement. -/
theorem chooseMatrix_rows (getPeelSeed : Nat → UInt32) (hfuel : 2 ^ 16 ≤ fuel)
    (messageBytes : UInt64) (blockBytes : UInt32) :
    ∃ result, chooseMatrix getPeelSeed fuel messageBytes blockBytes = some result ∧
      ((∃ m, result = .ok m) ↔ 1 ≤ messageBytes ∧ 1 ≤ blockBytes ∧
        wirehairMinN ≤ keptBlocks messageBytes blockBytes ∧
        keptBlocks messageBytes blockBytes ≤ wirehairMaxN) ∧
      ∀ m, result = .ok m → m.Wellformed ∧ m.blockCount = keptBlocks messageBytes blockBytes := by
  have hone : ∀ x : UInt64, 1 ≤ x ↔ ¬ x < 1 := fun x => UInt64.not_lt.symm
  have hone' : ∀ x : UInt32, 1 ≤ x ↔ ¬ x < 1 := fun x => UInt32.not_lt.symm
  rw [hone, hone']
  rcases chooseMatrix_answers getPeelSeed hfuel messageBytes blockBytes with
    ⟨failure, herror, hwhy⟩ | ⟨m, hm, hwf, hmessage, hblock, _, hcount, hmin, hmax⟩
  · refine ⟨_, herror, ⟨nofun, fun hok => ?_⟩, nofun⟩
    obtain ⟨hmessage, hblock, hmin, hmax⟩ := hok
    rcases hwhy with hno | hno | hno | hno
    · exact absurd hno hmessage
    · exact absurd hno hblock
    · exact absurd hmin (Nat.not_le.mpr hno)
    · exact absurd hmax (Nat.not_le.mpr hno)
  · refine ⟨_, hm, iff_of_true ⟨m, rfl⟩ ?_, ?_⟩
    · exact ⟨hmessage, hblock, hcount ▸ hmin, hcount ▸ hmax⟩
    · rintro _ ⟨⟩
      exact ⟨hwf, hcount⟩

theorem chooseMatrix_rows_five :
    ∃ result, chooseMatrix (fun _ => 7) (2 ^ 16) 10 2 = some result ∧
      ((∃ m, result = .ok m) ↔ (1 : UInt64) ≤ 10 ∧ (1 : UInt32) ≤ 2 ∧
        wirehairMinN ≤ keptBlocks 10 2 ∧ keptBlocks 10 2 ≤ wirehairMaxN) ∧
      ∀ m, result = .ok m → m.Wellformed ∧ m.blockCount = keptBlocks 10 2 :=
  chooseMatrix_rows (fun _ => 7) (Nat.le_refl _) 10 2

end Sankaku
