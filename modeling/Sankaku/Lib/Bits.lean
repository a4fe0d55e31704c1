import Mathlib.Algebra.Ring.Nat
import Mathlib.Data.Nat.Bits
import Mathlib.Data.List.Basic

namespace Bits

/-- The number a string of bits denotes, most significant first. -/
def num : List Bool → Nat
  | [] => 0
  | b :: w => b.toNat * 2 ^ w.length + num w

/-- The low `n` bits of a number, most significant first. -/
def fixed : Nat → Nat → List Bool
  | 0, _ => []
  | n + 1, v => v.testBit n :: fixed n v

@[simp] theorem fixed_length (n v : Nat) : (fixed n v).length = n := by
  induction n with
  | zero => rfl
  | succ n ih => rw [fixed, List.length_cons, ih]

theorem num_lt (w : List Bool) : num w < 2 ^ w.length := by
  induction w with
  | nil => decide
  | cons b w ih =>
    have hb : b.toNat ≤ 1 := Bool.toNat_le b
    have hmul := Nat.mul_le_mul_right (2 ^ w.length) hb
    rw [num, List.length_cons, Nat.pow_succ]
    omega

theorem num_concat (w : List Bool) (b : Bool) : num (w ++ [b]) = 2 * num w + b.toNat := by
  induction w with
  | nil => simp [num]
  | cons a w ih =>
    rw [List.cons_append, num, num, ih, List.length_append, List.length_singleton, Nat.pow_succ,
      Nat.mul_add, ← Nat.mul_assoc, Nat.mul_comm _ 2, ← Nat.add_assoc]

theorem num_fixed (n v : Nat) : num (fixed n v) = v % 2 ^ n := by
  induction n with
  | zero => rw [fixed, num, Nat.pow_zero, Nat.mod_one]
  | succ n ih =>
    rw [fixed, num, fixed_length, ih, Nat.toNat_testBit, Nat.mod_pow_succ, Nat.mul_comm, Nat.add_comm]

theorem num_inj {u w : List Bool} (hlen : u.length = w.length) (h : num u = num w) : u = w := by
  induction u generalizing w with
  | nil => exact (List.length_eq_zero_iff.mp hlen.symm).symm
  | cons a u ih =>
    cases w with
    | nil => cases hlen
    | cons b w =>
      have hlen' : u.length = w.length := Nat.succ.inj hlen
      have hu := num_lt u
      have hw := num_lt w
      rw [num, num, hlen'] at h
      rw [hlen'] at hu
      have hab : a = b := by
        cases a <;> cases b <;> simp only [Bool.toNat_true, Bool.toNat_false] at h ⊢ <;> omega
      subst hab
      rw [ih hlen' (by omega)]

theorem fixed_num (w : List Bool) : fixed w.length (num w) = w := by
  apply num_inj (fixed_length _ _)
  rw [num_fixed, Nat.mod_eq_of_lt (num_lt w)]

/-- A string of bits is the fixed one of its number, and of no other that fits. -/
theorem eq_fixed_iff (hv : v < 2 ^ n) : w = fixed n v ↔ w.length = n ∧ num w = v := by
  constructor
  · rintro rfl
    exact ⟨fixed_length n v, by rw [num_fixed, Nat.mod_eq_of_lt hv]⟩
  · rintro ⟨rfl, rfl⟩
    exact (fixed_num w).symm

theorem drop_fixed (n v p : Nat) : (fixed n v).drop p = fixed (n - p) v := by
  induction p generalizing n with
  | zero => rfl
  | succ p ih =>
    cases n with
    | zero => rw [fixed, List.drop_nil, Nat.zero_sub, fixed]
    | succ n => rw [fixed, List.drop_succ_cons, ih, Nat.succ_sub_succ]

def ofBytes (bs : List UInt8) : List Bool := bs.flatMap (fun b => fixed 8 b.toNat)

@[simp] theorem ofBytes_length (bs : List UInt8) : (ofBytes bs).length = bs.length * 8 := by
  induction bs with
  | nil => rfl
  | cons b bs ih =>
    rw [ofBytes, List.flatMap_cons, List.length_append, fixed_length, List.length_cons,
      Nat.succ_mul, Nat.add_comm, ← ih]
    rfl

/-- The bit at a position, and what comes after it. -/
theorem drop_ofBytes {bs : List UInt8} {p : Nat} {b : UInt8} (h : bs[p / 8]? = some b) :
    (ofBytes bs).drop p = b.toNat.testBit (7 - p % 8) :: (ofBytes bs).drop (p + 1) := by
  induction bs generalizing p with
  | nil => cases h
  | cons c bs ih =>
    have hbits : ofBytes (c :: bs) = fixed 8 c.toNat ++ ofBytes bs := List.flatMap_cons
    rw [hbits]
    rcases Nat.lt_or_ge p 8 with small | large
    · rw [Nat.div_eq_of_lt small] at h
      cases h
      rw [List.drop_append_of_le_length (by rw [fixed_length]; omega),
        List.drop_append_of_le_length (by rw [fixed_length]; omega), drop_fixed, drop_fixed,
        Nat.mod_eq_of_lt small]
      obtain ⟨k, hk⟩ : ∃ k, 8 - p = k + 1 := ⟨7 - p, by omega⟩
      have hk' : 8 - (p + 1) = k := by omega
      have hk7 : 7 - p = k := by omega
      rw [hk, hk', hk7, fixed, List.cons_append]
    · obtain ⟨q, rfl⟩ := Nat.exists_eq_add_of_le large
      have hdiv : (8 + q) / 8 = q / 8 + 1 := by omega
      rw [hdiv, List.getElem?_cons_succ] at h
      have hskip : ∀ m, (fixed 8 c.toNat ++ ofBytes bs).drop ((fixed 8 c.toNat).length + m) =
          (ofBytes bs).drop m := by
        intro m
        rw [List.drop_length_add_append]
      simp only [fixed_length] at hskip
      rw [hskip, Nat.add_assoc, hskip, ih h, Nat.add_mod_left]

/-- The codeword of a number: as many zeros as its successor has bits after the first,
then these bits. -/
def ue (v : Nat) : List Bool :=
  List.replicate (v + 1).log2 false ++ true :: fixed (v + 1).log2 (v + 1)

theorem eq_ue_iff {w : List Bool} {v : Nat} :
    w = ue v ↔ ∃ s, w = List.replicate s.length false ++ true :: s ∧ v + 1 = 2 ^ s.length + num s := by
  have hne : v + 1 ≠ 0 := Nat.succ_ne_zero v
  constructor
  · rintro rfl
    refine ⟨fixed (v + 1).log2 (v + 1), by rw [fixed_length, ue], ?_⟩
    have hlow := Nat.log2_self_le hne
    have hhigh := Nat.lt_log2_self (n := v + 1)
    rw [Nat.pow_succ] at hhigh
    have hrest : v + 1 - 2 ^ (v + 1).log2 < 2 ^ (v + 1).log2 := by omega
    rw [fixed_length, num_fixed, Nat.mod_eq_sub_mod hlow, Nat.mod_eq_of_lt hrest]
    omega
  · rintro ⟨s, rfl, hv⟩
    have hs := num_lt s
    have hlog : (v + 1).log2 = s.length := by
      rw [Nat.log2_eq_iff hne, hv, Nat.pow_succ]
      omega
    have hfixed : fixed s.length (v + 1) = s := by
      apply num_inj (fixed_length _ _)
      rw [num_fixed, hv, Nat.add_mod_left, Nat.mod_eq_of_lt hs]
    rw [ue, hlog, hfixed]

end Bits
