import Mathlib.Data.List.Basic
import Mathlib.Data.List.Perm.Basic

namespace Decks

/-- Card `i` comes in at place `j`, and the card that was there goes to place `i`. -/
def place (deck : List Nat) (j i : Nat) : List Nat := (deck.set i (deck.getD j 0)).set j i

@[simp] theorem place_length (deck : List Nat) (j i : Nat) :
    (place deck j i).length = deck.length := by
  rw [place, List.length_set, List.length_set]

/-- The first `n` places hold the first `n` cards. -/
def IsDeck (deck : List Nat) (n : Nat) : Prop := (deck.take n).Perm (List.range n)

theorem isDeck_one (deck : List Nat) (h : 1 ≤ deck.length) : IsDeck (deck.set 0 0) 1 := by
  cases deck with
  | nil => cases h
  | cons x deck => exact List.Perm.refl _

/-- Setting one place trades one card for another. -/
theorem set_perm {xs : List Nat} (hj : j < xs.length) (v : Nat) :
    (xs.set j v ++ [xs.getD j 0]).Perm (xs ++ [v]) := by
  induction xs generalizing j with
  | nil => cases hj
  | cons x xs ih =>
    cases j with
    | zero =>
      refine (List.perm_append_singleton _ _).trans ?_
      exact ((List.perm_append_singleton v xs).symm.cons x)
    | succ j => exact (ih (Nat.lt_of_succ_lt_succ hj)).cons x

theorem IsDeck.place (h : IsDeck deck i) (hi : i < deck.length) (hj : j < i) :
    IsDeck (Decks.place deck j i) (i + 1) := by
  have hlen : (deck.take i).length = i := List.length_take_of_le (Nat.le_of_lt hi)
  have hcard : deck.getD j 0 = (deck.take i).getD j 0 := by
    rw [List.getD_eq_getElem?_getD, List.getD_eq_getElem?_getD, List.getElem?_take_of_lt hj]
  have htake : (Decks.place deck j i).take (i + 1) =
      (deck.take i).set j i ++ [(deck.take i).getD j 0] := by
    have hset : ∀ v, (deck.take i ++ [deck[i]]).set i v = deck.take i ++ [v] := by
      intro v
      rw [List.set_append_right _ _ (Nat.le_of_eq hlen), hlen, Nat.sub_self]
      rfl
    rw [Decks.place, List.take_set, List.take_set, ← List.take_append_getElem hi, hset,
      List.set_append_left _ _ (by omega), hcard]
  rw [IsDeck, htake, List.range_succ]
  exact (set_perm (by omega) i).trans (h.append_right [i])

end Decks
