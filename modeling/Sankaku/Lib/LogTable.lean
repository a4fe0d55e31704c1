import Mathlib.Dynamics.PeriodicPts.Lemmas
import Mathlib.Data.Nat.Prime.Basic
import Mathlib.Data.Fintype.Card
import Mathlib.Data.Fintype.EquivFin
import Mathlib.Data.Fintype.Option

namespace LogTable

/-- A homomorphism under which `one` comes back to itself. -/
structure Powers (V : Type) where
  add : V → V → V
  zero : V
  one : V
  step : V → V
  order : Nat
  add_zero : add zero zero = zero
  step_add : ∀ a b, step (add a b) = add (step a) (step b)
  step_zero : step zero = zero
  one_ne : one ≠ zero
  order_pos : 0 < order
  period : step^[order] one = one

namespace Powers

variable {V : Type} (G : Powers V)

def pow (n : Nat) : V := G.step^[n] G.one

theorem iterate_zero (n : Nat) : G.step^[n] G.zero = G.zero := Function.iterate_fixed G.step_zero n

theorem iterate_add (n : Nat) (a b : V) :
    G.step^[n] (G.add a b) = G.add (G.step^[n] a) (G.step^[n] b) := by
  induction n generalizing a b with
  | zero => rfl
  | succ n ih =>
    rw [Function.iterate_succ_apply, G.step_add, ih]
    rfl

theorem iterate_pow (n m : Nat) : G.step^[n] (G.pow m) = G.pow (n + m) :=
  (Function.iterate_add_apply G.step n m G.one).symm

theorem pow_succ (n : Nat) : G.pow (n + 1) = G.step (G.pow n) :=
  Function.iterate_succ_apply' G.step n G.one

theorem pow_add_order (n : Nat) : G.pow (n + G.order) = G.pow n := by
  rw [← iterate_pow, pow, G.period, pow]

theorem pow_mul_order (n : Nat) : G.pow (n * G.order) = G.one := by
  induction n with
  | zero => rw [Nat.zero_mul]; rfl
  | succ n ih => rw [Nat.succ_mul, pow_add_order, ih]

theorem pow_mod (n : Nat) : G.pow (n % G.order) = G.pow n := by
  conv => rhs; rw [← Nat.mod_add_div n G.order, Nat.mul_comm, ← iterate_pow, pow_mul_order]
  rfl

/-- A power that vanished would keep all later ones at zero, and `one` is among
them. -/
theorem pow_ne_zero (n : Nat) : G.pow n ≠ G.zero := by
  intro hzero
  obtain ⟨k, hk⟩ := Nat.exists_eq_add_of_le (Nat.le_mul_of_pos_right n G.order_pos)
  have hlater : G.pow (n * G.order) = G.zero := by
    rw [hk, Nat.add_comm, ← iterate_pow, hzero, iterate_zero]
  exact G.one_ne ((pow_mul_order G n).symm.trans hlater)

/-- The powers of one period are distinct. -/
def Faithful : Prop := Function.minimalPeriod G.step G.one = G.order

variable {G}

/-- A shorter cycle would already close at the order over one of its primes. -/
theorem faithful_of_prime (h : ∀ p, p.Prime → p ∣ G.order → G.pow (G.order / p) ≠ G.one) :
    G.Faithful := by
  obtain ⟨k, hk⟩ : Function.minimalPeriod G.step G.one ∣ G.order :=
    Function.IsPeriodicPt.minimalPeriod_dvd G.period
  by_cases hone : k = 1
  · rw [Faithful, hk, hone, Nat.mul_one]
  · obtain ⟨p, hp, d, hd⟩ := Nat.exists_prime_and_dvd hone
    have hquot : G.order / p = Function.minimalPeriod G.step G.one * d := by
      rw [hk, hd, Nat.mul_left_comm, Nat.mul_div_cancel_left _ hp.pos]
    refine absurd ?_ (h p hp ⟨Function.minimalPeriod G.step G.one * d, ?_⟩)
    · rw [hquot]
      exact (Function.isPeriodicPt_minimalPeriod G.step G.one).mul_const d
    · rw [hk, hd, Nat.mul_left_comm]

theorem Faithful.pow_inj (h : G.Faithful) (hm : m < G.order) (hn : n < G.order)
    (heq : G.pow m = G.pow n) : m = n := by
  have hinj := Function.iterate_injOn_Iio_minimalPeriod (f := G.step) (x := G.one)
  rw [h] at hinj
  exact hinj hm hn heq

/-- A cycle as long as there are elements beside `zero` reaches all of them. -/
theorem Faithful.reaches (h : G.Faithful) (e : V ≃ Fin (G.order + 1)) (ha : a ≠ G.zero) :
    ∃ n < G.order, G.pow n = a := by
  have := Fintype.ofEquiv _ e.symm
  let f : Option (Fin G.order) → V := fun o => o.elim G.zero (fun i => G.pow i)
  have hinj : Function.Injective f := by
    rintro (_ | i) (_ | j) heq
    · rfl
    · exact absurd heq.symm (pow_ne_zero G j)
    · exact absurd heq (pow_ne_zero G i)
    · exact congrArg some (Fin.ext (h.pow_inj i.isLt j.isLt heq))
  have hbij := (Fintype.bijective_iff_injective_and_card f).mpr
    ⟨hinj, by rw [Fintype.card_option, Fintype.card_fin, Fintype.card_congr e, Fintype.card_fin]⟩
  obtain ⟨o, ho⟩ := hbij.surjective a
  cases o with
  | none => exact absurd ho.symm ha
  | some i => exact ⟨i, i.isLt, ho⟩

end Powers

/-- A cycle with a table of exponents. -/
structure Generator (V : Type) extends Powers V where
  log : V → Nat
  log_le : ∀ a, a ≠ zero → log a ≤ order
  pow_log : ∀ a, a ≠ zero → step^[log a] one = a

namespace Generator

open Powers

variable {V : Type} (G : Generator V)

@[simp] theorem pow_log_self (ha : a ≠ G.zero) : G.pow (G.log a) = a := G.pow_log a ha

theorem iterate_ne_zero (n : Nat) (ha : a ≠ G.zero) : G.step^[n] a ≠ G.zero := by
  rw [← G.pow_log_self ha, iterate_pow]
  exact pow_ne_zero G.toPowers _

/-- Exponents with one power act alike everywhere. -/
theorem iterate_congr (h : G.pow m = G.pow n) (a : V) : G.step^[m] a = G.step^[n] a := by
  by_cases ha : a = G.zero
  · rw [ha, iterate_zero, iterate_zero]
  · rw [← G.pow_log_self ha, iterate_pow, iterate_pow, Nat.add_comm m, Nat.add_comm n,
      ← iterate_pow, ← iterate_pow, h]

variable [DecidableEq V]

/-- The product by adding exponents. -/
def mul (a b : V) : V := if a = G.zero ∨ b = G.zero then G.zero else G.pow (G.log a + G.log b)

/-- The quotient by adding the complement of an exponent. -/
def div (a b : V) : V :=
  if a = G.zero ∨ b = G.zero then G.zero else G.pow (G.log a + (G.order - G.log b))

theorem mul_of_ne (ha : a ≠ G.zero) (hb : b ≠ G.zero) :
    G.mul a b = G.pow (G.log a + G.log b) := if_neg (not_or.mpr ⟨ha, hb⟩)

theorem div_of_ne (ha : a ≠ G.zero) (hb : b ≠ G.zero) :
    G.div a b = G.pow (G.log a + (G.order - G.log b)) := if_neg (not_or.mpr ⟨ha, hb⟩)

@[simp] theorem div_zero (a : V) : G.div a G.zero = G.zero := by simp [div]

@[simp] theorem zero_div (a : V) : G.div G.zero a = G.zero := by simp [div]

@[simp] theorem mul_zero (a : V) : G.mul a G.zero = G.zero := by simp [mul]

@[simp] theorem zero_mul (a : V) : G.mul G.zero a = G.zero := by simp [mul]

theorem mul_comm (a b : V) : G.mul a b = G.mul b a := by
  simp only [mul, Or.comm, Nat.add_comm]

/-- Multiplying by a nonzero element is so many steps, for every multiplicand. -/
theorem mul_eq_iterate (hb : b ≠ G.zero) : G.mul a b = G.step^[G.log b] a := by
  by_cases ha : a = G.zero
  · rw [ha, zero_mul, iterate_zero]
  · rw [mul_of_ne G ha hb, Nat.add_comm, ← iterate_pow, pow_log_self G ha]

theorem mul_ne_zero (ha : a ≠ G.zero) (hb : b ≠ G.zero) : G.mul a b ≠ G.zero := by
  rw [mul_eq_iterate G hb]
  exact iterate_ne_zero G _ ha

theorem mul_assoc (a b c : V) : G.mul (G.mul a b) c = G.mul a (G.mul b c) := by
  by_cases hb : b = G.zero
  · simp [hb]
  by_cases hc : c = G.zero
  · simp [hc]
  have hbc := mul_ne_zero G hb hc
  have hpow : G.pow (G.log c + G.log b) = G.pow (G.log (G.mul b c)) := by
    rw [pow_log_self G hbc, mul_eq_iterate G hc, ← iterate_pow, pow_log_self G hb]
  rw [mul_eq_iterate G hc, mul_eq_iterate G hb, mul_eq_iterate G hbc,
    ← Function.iterate_add_apply]
  exact iterate_congr G hpow a

@[simp] theorem mul_one (a : V) : G.mul a G.one = a := by
  by_cases ha : a = G.zero
  · rw [ha, zero_mul]
  · have hone := G.pow_log G.one G.one_ne
    rw [mul_comm, mul_eq_iterate G ha, G.pow_log a ha]

theorem add_mul (a b c : V) : G.mul (G.add a b) c = G.add (G.mul a c) (G.mul b c) := by
  by_cases hc : c = G.zero
  · simp [hc, G.add_zero]
  · rw [mul_eq_iterate G hc, mul_eq_iterate G hc, mul_eq_iterate G hc, iterate_add]

theorem mul_add (a b c : V) : G.mul a (G.add b c) = G.add (G.mul a b) (G.mul a c) := by
  rw [mul_comm, add_mul, mul_comm G b, mul_comm G c]

/-- One step of the multiplier is one step of the product. -/
theorem mul_step (a b : V) : G.mul a (G.step b) = G.step (G.mul a b) := by
  by_cases ha : a = G.zero
  · rw [ha, zero_mul, zero_mul, G.step_zero]
  · rw [mul_comm, mul_comm G a, mul_eq_iterate G ha, mul_eq_iterate G ha,
      ← Function.iterate_succ_apply, Function.iterate_succ_apply']

theorem div_mul_cancel (hb : b ≠ G.zero) (a : V) : G.mul (G.div a b) b = a := by
  by_cases ha : a = G.zero
  · simp [ha]
  · have hle := G.log_le b hb
    rw [mul_eq_iterate G hb, div_of_ne G ha hb, iterate_pow,
      show G.log b + (G.log a + (G.order - G.log b)) = G.log a + G.order by omega, pow_add_order,
      pow_log_self G ha]

theorem mul_right_cancel (hc : c ≠ G.zero) (h : G.mul a c = G.mul b c) : a = b := by
  have hinv : G.mul c (G.div G.one c) = G.one := by rw [mul_comm, div_mul_cancel G hc]
  rw [← mul_one G a, ← mul_one G b, ← hinv, ← mul_assoc, ← mul_assoc, h]

/-- The quotient is the only solution. -/
theorem eq_div_iff (hb : b ≠ G.zero) (a c : V) : c = G.div a b ↔ G.mul c b = a := by
  constructor
  · rintro rfl
    exact div_mul_cancel G hb a
  · intro h
    exact mul_right_cancel G hb (h.trans (div_mul_cancel G hb a).symm)

end Generator
end LogTable
