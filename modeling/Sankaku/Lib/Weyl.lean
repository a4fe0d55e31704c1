import Mathlib.Data.List.Iterate
import Mathlib.Data.List.Nodup
import Mathlib.Data.List.Perm.Subperm
import Mathlib.Data.Nat.ModEq

namespace Weyl

/-- Where `k` additions of `a` lead from `x`. -/
def orbit (p a x k : Nat) : Nat := (x + k * a) % p

theorem orbit_zero (hx : x < p) : orbit p a x 0 = x := by
  rw [orbit, Nat.zero_mul, Nat.add_zero, Nat.mod_eq_of_lt hx]

theorem orbit_add (p a x m k : Nat) : orbit p a (orbit p a x m) k = orbit p a x (m + k) := by
  rw [orbit, orbit, orbit, Nat.mod_add_mod, Nat.add_assoc, Nat.add_mul]

theorem orbit_inj (hcop : Nat.Coprime p a) (hi : i < p) (hj : j < p)
    (h : orbit p a x i = orbit p a x j) : i = j := by
  have hmul : i * a ≡ j * a [MOD p] := Nat.ModEq.add_left_cancel' x h
  exact Nat.ModEq.eq_of_lt_of_lt (Nat.ModEq.cancel_right_of_coprime hcop hmul) hi hj

theorem orbit_full (hx : x < p) : orbit p a x p = x := by
  rw [orbit, Nat.add_mul_mod_self_left, Nat.mod_eq_of_lt hx]

/-- What the first `n` places of the orbit hold below `b`. -/
def below (b p a x n : Nat) : List Nat := ((List.range n).map (orbit p a x)).filter (· < b)

theorem below_succ (b p a x n : Nat) : below b p a x (n + 1) =
    below b p a x n ++ if orbit p a x n < b then [orbit p a x n] else [] := by
  rw [below, List.range_succ, List.map_append, List.filter_append, List.map_singleton,
    List.filter_singleton]
  by_cases h : orbit p a x n < b <;> simp only [h, decide_true, decide_false] <;> rfl

theorem below_length_mono (h : m ≤ n) : (below b p a x m).length ≤ (below b p a x n).length := by
  induction h with
  | refl => exact Nat.le_refl _
  | step _ ih =>
    rw [below_succ, List.length_append]
    omega

theorem mem_below (h : y ∈ below b p a x n) : y < b := by
  simpa using (List.mem_filter.mp h).2

theorem orbit_nodup (hcop : Nat.Coprime p a) (h : n ≤ p) :
    ((List.range n).map (orbit p a x)).Nodup := by
  refine List.Nodup.map_on ?_ List.nodup_range
  intro i hi j hj heq
  have hi := List.mem_range.mp hi
  have hj := List.mem_range.mp hj
  exact orbit_inj hcop (by omega) (by omega) heq

theorem below_nodup (hcop : Nat.Coprime p a) (h : n ≤ p) : (below b p a x n).Nodup :=
  (orbit_nodup hcop h).filter _

/-- One period meets every number below `b`. -/
theorem below_period (hcop : Nat.Coprime p a) (hp : 0 < p) (hb : b ≤ p) :
    (below b p a x p).length = b := by
  have hperm : ((List.range p).map (orbit p a x)).Perm (List.range p) := by
    refine (List.subperm_of_subset (orbit_nodup hcop (Nat.le_refl p)) ?_).perm_of_length_le ?_
    · intro y hy
      obtain ⟨k, _, rfl⟩ := List.mem_map.mp hy
      exact List.mem_range.mpr (Nat.mod_lt _ hp)
    · rw [List.length_map]
  obtain ⟨c, rfl⟩ := Nat.exists_eq_add_of_le hb
  rw [below, (hperm.filter _).length_eq, List.range_add, List.filter_append,
    List.filter_eq_self.mpr (by simp), List.filter_eq_nil_iff.mpr (by simp), List.append_nil,
    List.length_range]

/-- `next` goes on along the orbit to the next number below `b`. -/
def Walks (b p a : Nat) (next : Nat → Nat) : Prop :=
  ∀ x < b, ∃ k, orbit p a x (k + 1) = next x ∧ next x < b ∧ ∀ j < k, b ≤ orbit p a x (j + 1)

variable {next : Nat → Nat}

/-- Nothing below `b` is left out, and nothing else is there. -/
theorem Walks.below_eq (h : Walks b p a next) (hb : b ≤ p) (hx : x < b) (n : Nat) :
    ∃ m, below b p a x m = List.iterate next x n ∧ orbit p a x m = next^[n] x ∧ next^[n] x < b := by
  induction n with
  | zero => exact ⟨0, rfl, orbit_zero (by omega), hx⟩
  | succ n ih =>
    obtain ⟨m, hbelow, horbit, hlt⟩ := ih
    obtain ⟨k, hnext, hnextlt, hskip⟩ := h _ hlt
    have hrun : ∀ j ≤ k, below b p a x (m + 1 + j) = List.iterate next x n ++ [next^[n] x] := by
      intro j
      induction j with
      | zero =>
        intro _
        rw [Nat.add_zero, below_succ, hbelow, horbit, if_pos hlt]
      | succ j ihj =>
        intro hj
        have hover := hskip j (by omega)
        rw [← horbit, orbit_add] at hover
        rw [← Nat.add_assoc, below_succ, ihj (by omega), Nat.add_assoc m, Nat.add_comm 1,
          if_neg (by omega), List.append_nil]
    refine ⟨m + 1 + k, ?_, ?_, ?_⟩
    · rw [hrun k (Nat.le_refl k), List.iterate_add]
      rfl
    · rw [Function.iterate_succ_apply', ← hnext, ← horbit, orbit_add, Nat.add_assoc, Nat.add_comm 1]
    · rw [Function.iterate_succ_apply']
      exact hnextlt

/-- A walk meets no number twice before it has met all of them. -/
theorem Walks.nodup (h : Walks b p a next) (hcop : Nat.Coprime p a) (hb : b ≤ p) (hx : x < b)
    (hn : n ≤ b) : (List.iterate next x n).Nodup ∧ ∀ y ∈ List.iterate next x n, y < b := by
  obtain ⟨m, hbelow, _, _⟩ := h.below_eq hb hx n
  have hlen : (below b p a x m).length = n := by rw [hbelow, List.length_iterate]
  have hm : m ≤ p := by
    by_contra hlarge
    have hfull : (below b p a x (p + 1)).length = b + 1 := by
      rw [below_succ, orbit_full (by omega), if_pos hx, List.length_append,
        below_period hcop (by omega) hb, List.length_singleton]
    have := below_length_mono (b := b) (p := p) (a := a) (x := x) (show p + 1 ≤ m by omega)
    omega
  rw [← hbelow]
  exact ⟨below_nodup hcop hm, fun y hy => mem_below hy⟩

end Weyl
