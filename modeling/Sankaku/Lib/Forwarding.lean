import Mathlib.Algebra.BigOperators.Group.List.Basic
import Mathlib.Algebra.Group.Pi.Basic
import Mathlib.Algebra.Group.Submonoid.Defs
import Mathlib.Data.List.Nodup
import Mathlib.Tactic.Abel

namespace Forwarding

variable {ι G : Type*} [DecidableEq ι] [AddCommMonoid G]

/-- `p` itself may be among the targets and is left out. -/
def pass (p : ι) (targets : List ι) (acc : ι → G) : ι → G :=
  targets.foldl (fun acc q => if q = p then acc else Function.update acc q (acc q + acc p)) acc

def passAll (refs : ι → List ι) (order : List ι) (acc : ι → G) : ι → G :=
  order.foldl (fun acc p => pass p (refs p) acc) acc

/-- The places that `q` gets a sum from. -/
def sources (refs : ι → List ι) (order : List ι) (q : ι) : List ι :=
  order.filter (fun p => q ∈ refs p ∧ q ≠ p)

structure Forward (refs : ι → List ι) (order : List ι) : Prop where
  nodup : ∀ p ∈ order, (refs p).Nodup
  later : order.Pairwise (fun p q => p ∉ refs q)

variable {refs : ι → List ι} {order targets : List ι} {p q : ι} {acc : ι → G}

theorem pass_apply (hnodup : targets.Nodup) (acc : ι → G) (q : ι) :
    pass p targets acc q = if q ∈ targets ∧ q ≠ p then acc q + acc p else acc q := by
  induction targets generalizing acc with
  | nil => simp [pass]
  | cons t ts ih =>
    obtain ⟨ht, hts⟩ := List.nodup_cons.mp hnodup
    rw [pass, List.foldl_cons]
    change pass p ts _ q = _
    rw [ih hts]
    by_cases htp : t = p
    · subst htp
      by_cases hq : q = t <;> simp [hq]
    rw [if_neg htp, Function.update_of_ne (Ne.symm htp)]
    rcases eq_or_ne q t with rfl | hq
    · simp [ht, htp]
    · simp [hq]

omit [DecidableEq ι] [AddCommMonoid G] in
theorem Forward.tail (h : Forward refs (p :: order)) : Forward refs order :=
  ⟨fun q hq => h.nodup q (List.mem_cons_of_mem p hq), (List.pairwise_cons.mp h.later).2⟩

omit [AddCommMonoid G] in
/-- Nothing comes to the first place. -/
theorem Forward.sources_head (h : Forward refs (p :: order)) : sources refs (p :: order) p = [] := by
  refine List.filter_eq_nil_iff.mpr fun q hq => ?_
  rcases List.mem_cons.mp hq with rfl | hq
  · simp
  · have hnot := (List.pairwise_cons.mp h.later).1 q hq
    simp [hnot]

omit [AddCommMonoid G] in
theorem sources_cons (refs : ι → List ι) (order : List ι) (p q : ι) :
    sources refs (p :: order) q =
      if q ∈ refs p ∧ q ≠ p then p :: sources refs order q else sources refs order q := by
  simp only [sources, List.filter_cons, decide_eq_true_eq]

/-- Every sum is what was there and the sums that were passed on to it. -/
theorem passAll_eq (h : Forward refs order) (acc : ι → G) (q : ι) :
    passAll refs order acc q =
      acc q + ((sources refs order q).map (passAll refs order acc)).sum := by
  induction order generalizing acc q with
  | nil => simp [passAll, sources]
  | cons p order ih =>
    have hpass := pass_apply (p := p) (h.nodup p List.mem_cons_self) acc
    have hrest := ih h.tail (pass p (refs p) acc)
    have hhead : passAll refs order (pass p (refs p) acc) p = acc p := by
      have hnone : sources refs order p = [] := by
        have := h.sources_head
        rwa [sources_cons, if_neg (by simp)] at this
      rw [hrest p, hnone, hpass, if_neg (by simp), List.map_nil, List.sum_nil, add_zero]
    change passAll refs order (pass p (refs p) acc) q =
      acc q + ((sources refs (p :: order) q).map (passAll refs order (pass p (refs p) acc))).sum
    rw [sources_cons]
    split
    · rename_i hq
      rw [List.map_cons, List.sum_cons, hhead, ← add_assoc, ← (hpass q).trans (if_pos hq)]
      exact hrest q
    · rename_i hq
      rw [← (hpass q).trans (if_neg hq)]
      exact hrest q

/-- There is no other way to satisfy these equations. -/
theorem eq_passAll_iff (h : Forward refs order) (x acc : ι → G) :
    (∀ q ∈ order, x q = acc q + ((sources refs order q).map x).sum) ↔
      ∀ q ∈ order, x q = passAll refs order acc q := by
  constructor
  · intro hx
    induction order generalizing acc with
    | nil => exact nofun
    | cons p order ih =>
      have hpass := pass_apply (p := p) (h.nodup p List.mem_cons_self) acc
      have hp : x p = acc p := by
        rw [hx p List.mem_cons_self, h.sources_head, List.map_nil, List.sum_nil, add_zero]
      have hrest := ih h.tail (pass p (refs p) acc) fun q hq => by
        rw [hx q (List.mem_cons_of_mem p hq), hpass, sources_cons]
        split
        · rw [List.map_cons, List.sum_cons, hp, add_assoc]
        · rfl
      intro q hq
      rcases List.mem_cons.mp hq with rfl | hq
      · rw [hp, passAll_eq h, h.sources_head, List.map_nil, List.sum_nil, add_zero]
      · exact hrest q hq
  · intro hx q hq
    have hsources : (sources refs order q).map x =
        (sources refs order q).map (passAll refs order acc) :=
      List.map_congr_left fun p hp => hx p (List.mem_filter.mp hp).1
    rw [hx q hq, passAll_eq h, hsources]

theorem passAll_add (h : Forward refs order) (a b : ι → G) :
    passAll refs order (a + b) = passAll refs order a + passAll refs order b := by
  induction order generalizing a b with
  | nil => rfl
  | cons p order ih =>
    have hpass : pass p (refs p) (a + b) = pass p (refs p) a + pass p (refs p) b := by
      funext q
      have hnodup := h.nodup p List.mem_cons_self
      rw [Pi.add_apply, pass_apply hnodup, pass_apply hnodup, pass_apply hnodup]
      split
      · simp only [Pi.add_apply]
        abel
      · rfl
    change passAll refs order (pass p (refs p) (a + b)) = _
    rw [hpass]
    exact ih h.tail _ _

theorem passAll_mem (h : Forward refs order) (S : AddSubmonoid G) (hacc : ∀ q, acc q ∈ S) (q : ι) :
    passAll refs order acc q ∈ S := by
  induction order generalizing acc with
  | nil => exact hacc q
  | cons p order ih =>
    change passAll refs order (pass p (refs p) acc) q ∈ S
    refine ih h.tail fun r => ?_
    rw [pass_apply (h.nodup p List.mem_cons_self)]
    split
    · exact S.add_mem (hacc r) (hacc p)
    · exact hacc r

end Forwarding
