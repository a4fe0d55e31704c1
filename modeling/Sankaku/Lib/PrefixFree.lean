import Mathlib.Data.List.Basic
import Mathlib.Logic.Function.Basic
import Sankaku.Lib.LittleEndian

namespace Encoding
open LittleEndian

/-- A rendering that can be split off the front of any list it begins. -/
def PrefixFree (f : ι → List α) : Prop :=
  ∀ ⦃i j xs ys⦄, f i ++ xs = f j ++ ys → i = j ∧ xs = ys

namespace PrefixFree
variable {f : ι → List α} {g : κ → List α}

theorem injective (hf : PrefixFree f) : Function.Injective f := by
  intro i j h
  have hij : f i ++ [] = f j ++ [] := by rw [h]
  exact (hf hij).1

/-- Renderings of one length need no separator. -/
theorem of_length (hf : Function.Injective f) (length : ∀ i, (f i).length = w) : PrefixFree f := by
  intro i j xs ys h
  obtain ⟨hij, hrest⟩ := List.append_inj h (by rw [length, length])
  exact ⟨hf hij, hrest⟩

/-- Labels none of which begins another. -/
theorem of_labels (labels : ∀ i j, f i <+: f j → i = j) : PrefixFree f := by
  intro i j xs ys h
  have hi : f i <+: f j ++ ys := ⟨xs, h⟩
  have hj : f j <+: f j ++ ys := ⟨ys, rfl⟩
  have hij : i = j := by
    rcases Nat.le_total (f i).length (f j).length with hle | hle
    · apply labels
      exact List.prefix_of_prefix_length_le hi hj hle
    · symm
      apply labels
      exact List.prefix_of_prefix_length_le hj hi hle
  subst hij
  exact ⟨rfl, List.append_cancel_left h⟩

theorem comp (hf : PrefixFree f) {e : κ → ι} (he : Function.Injective e) :
    PrefixFree (fun k => f (e k)) := by
  intro i j xs ys h
  obtain ⟨hij, hrest⟩ := hf h
  exact ⟨he hij, hrest⟩

theorem append (hf : PrefixFree f) (hg : PrefixFree g) :
    PrefixFree (fun p : ι × κ => f p.1 ++ g p.2) := by
  intro p q xs ys h
  simp only [List.append_assoc] at h
  obtain ⟨h₁, h⟩ := hf h
  obtain ⟨h₂, h⟩ := hg h
  exact ⟨Prod.ext h₁ h₂, h⟩

/-- A prefix-free head followed by a tail of its own: the head tells which tail. -/
theorem tagged {β : ι → Type} (hf : PrefixFree f) {tail : ∀ i, β i → List α}
    (ht : ∀ i, Function.Injective (tail i)) :
    Function.Injective (fun p : Sigma β => f p.1 ++ tail p.1 p.2) := by
  rintro ⟨i, b⟩ ⟨j, c⟩ h
  obtain ⟨rfl, htail⟩ := hf h
  obtain rfl : b = c := ht i htail
  rfl

end PrefixFree

theorem prefixFree_toLE (w : Nat) : PrefixFree (fun n : Fin (256 ^ w) => toLE w n.val) := by
  apply PrefixFree.of_length
  · intro m n h
    have hof := congrArg ofLE h
    simp only [ofLE_toLE_of_lt m.isLt, ofLE_toLE_of_lt n.isLt] at hof
    exact Fin.ext hof
  · intro n
    exact toLE_length w n.val

/-- A string behind its length is self-delimiting, as long as the length fits. -/
theorem prefixFree_lengthPrefixed (w : Nat) :
    PrefixFree (fun s : { s : List UInt8 // s.length < 256 ^ w } =>
      toLE w s.val.length ++ s.val) := by
  rintro ⟨s, hs⟩ ⟨t, ht⟩ xs ys h
  simp only [List.append_assoc] at h
  obtain ⟨hlen, h⟩ := @prefixFree_toLE w ⟨s.length, hs⟩ ⟨t.length, ht⟩ _ _ h
  obtain ⟨rfl, hrest⟩ := List.append_inj h (Fin.val_eq_of_eq hlen)
  exact ⟨rfl, hrest⟩

end Encoding
