import Mathlib.Algebra.Ring.Nat
import Mathlib.Data.List.Basic
import Mathlib.Data.Nat.Bitwise

namespace Strides

variable {α β : Type}

/-- `while (n >= w)`: full stretches of `w`, then the rest. -/
def loop (w : Nat) (f rest : List α → List β) (xs : List α) : List β :=
  if _h : 0 < w ∧ w ≤ xs.length then f (xs.take w) ++ loop w f rest (xs.drop w) else rest xs
termination_by xs.length
decreasing_by
  simp only [List.length_drop]
  omega

/-- `if (n & w)`: one stretch of `w` when that bit of the length is set, then
the rest. -/
def once (w : Nat) (f rest : List α → List β) (xs : List α) : List β :=
  if xs.length &&& w ≠ 0 then f (xs.take w) ++ rest (xs.drop w) else rest xs

/-- `if (n >= w)`: one full stretch, then the rest. -/
def head (w : Nat) (f rest : List α → List β) (xs : List α) : List β :=
  if w ≤ xs.length then f (xs.take w) ++ rest (xs.drop w) else rest xs

/-- `n` stretches of `w` written out. -/
def unroll (w : Nat) (f : List α → List β) : Nat → List α → List β
  | 0, _ => []
  | n + 1, xs => f (xs.take w) ++ unroll w f n (xs.drop w)

/-- `switch (n & 3)`: the last elements one by one. -/
def singly (g : α → β) (xs : List α) : List β := (xs.take (xs.length &&& 3)).map g

/-- The function works element by element on lists of length `w`. -/
def Pointwise (w : Nat) (f : List α → List β) (g : α → β) : Prop :=
  ∀ xs : List α, xs.length = w → f xs = xs.map g

/-- The function works element by element on lists shorter than `w`. -/
def Below (w : Nat) (f : List α → List β) (g : α → β) : Prop :=
  ∀ xs : List α, xs.length < w → f xs = xs.map g

theorem take_then_map {f : List α → List β} (rest : List α → List β) {g : α → β} {xs : List α}
    (hf : Pointwise w f g) (hw : w ≤ xs.length) (hrest : rest (xs.drop w) = (xs.drop w).map g) :
    f (xs.take w) ++ rest (xs.drop w) = xs.map g := by
  rw [hf _ (List.length_take_of_le hw), hrest, ← List.map_append, List.take_append_drop]

theorem Pointwise.unroll {f : List α → List β} {g : α → β} (hf : Pointwise w f g) (n : Nat) :
    Pointwise (n * w) (Strides.unroll w f n) g := by
  induction n with
  | zero =>
    intro xs hxs
    rw [Nat.zero_mul, List.length_eq_zero_iff] at hxs
    rw [hxs]
    rfl
  | succ n ih =>
    intro xs hxs
    rw [Nat.succ_mul] at hxs
    refine take_then_map (Strides.unroll w f n) hf (by omega) (ih _ ?_)
    rw [List.length_drop]
    omega

/-- After a loop only a list shorter than its width is left. -/
theorem loop_eq_map {f rest : List α → List β} {g : α → β} (hw : 0 < w) (hf : Pointwise w f g)
    (hrest : Below w rest g) (xs : List α) : loop w f rest xs = xs.map g := by
  induction xs using loop.induct (w := w) with
  | case1 xs h ih =>
    rw [loop, dif_pos h]
    exact take_then_map (loop w f rest) hf h.2 ih
  | case2 xs h =>
    rw [loop, dif_neg h]
    exact hrest xs (by omega)

theorem Below.loop {f rest : List α → List β} {g : α → β} (hw : 0 < w) (hf : Pointwise w f g)
    (hrest : Below w rest g) (n : Nat) : Below n (Strides.loop w f rest) g :=
  fun xs _ => loop_eq_map hw hf hrest xs

theorem Below.head {f rest : List α → List β} {g : α → β} (hf : Pointwise w f g)
    (hrest : Below w rest g) : Below (2 * w) (Strides.head w f rest) g := by
  intro xs hxs
  rw [Strides.head]
  split
  · refine take_then_map _ hf (by assumption) (hrest _ ?_)
    rw [List.length_drop]
    omega
  · exact hrest xs (by omega)

/-- Of a list shorter than two stretches, the bit says whether one is there. -/
theorem Below.once {f rest : List α → List β} {g : α → β} (hf : Pointwise (2 ^ j) f g)
    (hrest : Below (2 ^ j) rest g) : Below (2 ^ (j + 1)) (Strides.once (2 ^ j) f rest) g := by
  intro xs hxs
  rw [Nat.pow_succ] at hxs
  rw [Strides.once, Nat.and_two_pow]
  rcases Nat.lt_or_ge xs.length (2 ^ j) with hlt | hge
  · rw [Nat.testBit_lt_two_pow hlt]
    simpa using hrest xs hlt
  · have hbit : xs.length.testBit j = true := by
      obtain ⟨k, hk⟩ := Nat.exists_eq_add_of_le hge
      rw [hk, Nat.testBit_two_pow_add_eq, Nat.testBit_lt_two_pow (by omega)]
      rfl
    rw [hbit]
    simp only [Bool.toNat_true, Nat.one_mul, ne_eq, Nat.pow_eq_zero, OfNat.ofNat_ne_zero, false_and,
      not_false_eq_true, if_true]
    refine take_then_map _ hf hge (hrest _ ?_)
    rw [List.length_drop]
    omega

theorem Below.singly (g : α → β) : Below 4 (Strides.singly g) g := by
  intro xs hxs
  rw [Strides.singly, show 3 = 2 ^ 2 - 1 from rfl, Nat.and_two_pow_sub_one_eq_mod,
    Nat.mod_eq_of_lt hxs, List.take_length]

theorem Below.ite {f f' : List α → List β} {g : α → β} (b : Bool) (h : Below n f g)
    (h' : Below n f' g) : Below n (fun xs => if b then f xs else f' xs) g := by
  intro xs hxs
  cases b
  · exact h' xs hxs
  · exact h xs hxs

end Strides
