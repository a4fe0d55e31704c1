import Mathlib.Data.List.Induction
import Mathlib.Data.List.Infix

namespace Stuffing

/-- The escape is a guarded symbol itself, and no mark ends in it. -/
structure Code (α : Type) where
  mark : List α
  escape : α
  guarded : α → Bool
  escape_guarded : guarded escape = true
  mark_ends : ∀ out, ¬ mark <:+ out ++ [escape]

namespace Code

variable {α : Type} [DecidableEq α] (C : Code α)

/-- One more symbol behind what is written. -/
def write (out : List α) (a : α) : List α :=
  out ++ if C.mark <:+ out ∧ C.guarded a = true then [C.escape, a] else [a]

def stuff (xs : List α) : List α := xs.foldl C.write []

/-- Drops each escape behind a mark; `seen` is what was read before. -/
def unstuffAfter (seen : List α) : List α → List α
  | [] => []
  | a :: xs =>
    if C.mark <:+ seen ∧ a = C.escape then unstuffAfter (seen ++ [a]) xs
    else a :: unstuffAfter (seen ++ [a]) xs

def unstuff (xs : List α) : List α := C.unstuffAfter [] xs

theorem stuff_concat (xs : List α) (a : α) : C.stuff (xs ++ [a]) = C.write (C.stuff xs) a := by
  rw [stuff, List.foldl_append]
  rfl

theorem unstuffAfter_append (seen xs ys : List α) : C.unstuffAfter seen (xs ++ ys) =
    C.unstuffAfter seen xs ++ C.unstuffAfter (seen ++ xs) ys := by
  induction xs generalizing seen with
  | nil => rw [List.append_nil, List.nil_append, unstuffAfter, List.nil_append]
  | cons a xs ih =>
    rw [List.cons_append, unstuffAfter, unstuffAfter, ih, List.append_assoc seen]
    split
    · rfl
    · rfl

/-- Whether the last symbol is kept depends on what is read before it, not on what is
dropped there. -/
theorem unstuff_concat (xs : List α) (a : α) : C.unstuff (xs ++ [a]) =
    C.unstuff xs ++ if C.mark <:+ xs ∧ a = C.escape then [] else [a] := by
  rw [unstuff, unstuffAfter_append, List.nil_append, unstuffAfter]
  split
  · rfl
  · rfl

theorem unstuff_write (out : List α) (a : α) : C.unstuff (C.write out a) = C.unstuff out ++ [a] := by
  rw [write]
  by_cases h : C.mark <:+ out ∧ C.guarded a = true
  · have hsplit : out ++ [C.escape, a] = (out ++ [C.escape]) ++ [a] := by
      rw [List.append_assoc]
      rfl
    rw [if_pos h, hsplit, unstuff_concat, unstuff_concat, if_pos ⟨h.1, rfl⟩,
      if_neg (fun hdrop => C.mark_ends out hdrop.1), List.append_nil]
  · have keep : ¬ (C.mark <:+ out ∧ a = C.escape) := by
      rintro ⟨hmark, rfl⟩
      exact h ⟨hmark, C.escape_guarded⟩
    rw [if_neg h, unstuff_concat, if_neg keep]

/-- What was stuffed reads back. -/
theorem unstuff_stuff (xs : List α) : C.unstuff (C.stuff xs) = xs := by
  induction xs using List.reverseRecOn with
  | nil => rfl
  | append_singleton xs a ih => rw [stuff_concat, unstuff_write, ih]

theorem unstuffAfter_length_le (seen xs : List α) : (C.unstuffAfter seen xs).length ≤ xs.length := by
  induction xs generalizing seen with
  | nil => exact Nat.le_refl 0
  | cons a xs ih =>
    rw [unstuffAfter]
    split
    · exact Nat.le_succ_of_le (ih _)
    · exact Nat.succ_le_succ (ih _)

/-- Nothing is dropped where no escape follows a mark. -/
theorem unstuff_free {xs : List α} (free : ¬ C.mark ++ [C.escape] <:+: xs) : C.unstuff xs = xs := by
  induction xs using List.reverseRecOn with
  | nil => rfl
  | append_singleton xs a ih =>
    have keep : ¬ (C.mark <:+ xs ∧ a = C.escape) := by
      rintro ⟨⟨before, rfl⟩, rfl⟩
      apply free
      rw [List.append_assoc]
      exact (List.suffix_append before _).isInfix
    have hxs := ih (fun h => free (h.trans (List.prefix_append xs [a]).isInfix))
    rw [unstuff_concat, if_neg keep, hxs]

end Code

end Stuffing
