import Mathlib.Data.List.Infix

namespace Delimiter

/-- A word without letters of the middle part lies on one side of it. -/
theorem infix_around {w before mid after : List α} (some : mid ≠ []) (apart : ∀ x ∈ mid, x ∉ w)
    (h : w <:+: before ++ mid ++ after) : w <:+: before ∨ w <:+: after := by
  have outside : ∀ u, u ≠ [] → u <:+: mid → ¬ u <:+: w := by
    intro u hu hmid hw
    obtain ⟨x, hx⟩ := List.exists_mem_of_ne_nil u hu
    exact apart x (hmid.subset hx) (hw.subset hx)
  rw [List.append_assoc] at h
  rcases List.infix_append_iff.mp h with h | h | ⟨u, v, rfl, hu, hv⟩
  · exact .inl h
  · rcases List.infix_append_iff.mp h with h | h | ⟨u, v, rfl, hu, hv⟩
    · left
      by_cases hw : w = []
      · rw [hw]
        exact List.nil_infix
      · exact absurd List.infix_rfl (outside w hw h)
    · exact .inr h
    · right
      by_cases hne : u = []
      · rw [hne, List.nil_append]
        exact hv.isInfix
      · exact absurd (List.prefix_append u v).isInfix (outside u hne hu.isInfix)
  · left
    cases v with
    | nil =>
      rw [List.append_nil]
      exact hu.isInfix
    | cons x v =>
      cases mid with
      | nil => exact absurd rfl some
      | cons y mid =>
        rw [List.cons_append, List.cons_prefix_cons] at hv
        obtain ⟨rfl, _⟩ := hv
        exact absurd (List.mem_append_right u List.mem_cons_self) (apart x List.mem_cons_self)

/-- No end of the pattern is a beginning of it. -/
def Unbordered (d : List α) : Prop := d ≠ [] ∧ ∀ k < d.length, 0 < k → ¬ d.drop k <+: d

theorem prefix_drop_within {d xs : List α} (h : d <+: xs.drop i) : d <:+: xs :=
  h.isInfix.trans (List.drop_suffix i xs).isInfix

/-- The pattern does not begin in a list that is free of it, whatever follows. -/
theorem Unbordered.clear {d p rest : List α} (h : Unbordered d) (free : ¬ d <:+: p) (i : Nat)
    (hi : i < p.length) : ¬ d <+: (p ++ (d ++ rest)).drop i := by
  intro hd
  rw [List.drop_append_of_le_length (Nat.le_of_lt hi)] at hd
  have hlen : (p.drop i).length = p.length - i := List.length_drop
  rcases Nat.lt_or_ge (p.drop i).length d.length with short | long
  · have inside : p.drop i <+: d :=
      List.prefix_of_prefix_length_le (List.prefix_append _ _) hd (Nat.le_of_lt short)
    obtain ⟨rest', hrest⟩ := inside
    have hend : d.drop (p.drop i).length = rest' := by rw [← hrest, List.drop_left]
    rw [← hrest, List.prefix_append_right_inj, hrest] at hd
    have hborder : rest' <+: d := by
      refine List.prefix_of_prefix_length_le hd (List.prefix_append d rest) ?_
      rw [← hend, List.length_drop]
      exact Nat.sub_le _ _
    rw [← hend] at hborder
    exact h.2 _ short (by omega) hborder
  · have inside : d <+: p.drop i :=
      List.prefix_of_prefix_length_le hd (List.prefix_append _ _) long
    exact free (prefix_drop_within inside)

/-- Nor does it begin inside itself. -/
theorem Unbordered.inside {d rest : List α} (h : Unbordered d) (i : Nat) (hi : i < d.length)
    (hpos : 0 < i) : ¬ d <+: (d ++ rest).drop i := by
  intro hd
  rw [List.drop_append_of_le_length (Nat.le_of_lt hi)] at hd
  apply h.2 i hi hpos
  apply List.prefix_of_prefix_length_le (List.prefix_append _ _) hd
  rw [List.length_drop]
  exact Nat.sub_le _ _

variable [DecidableEq α]

/-- The first position at which the pattern occurs. -/
def find (d : List α) : List α → Option Nat
  | [] => none
  | x :: xs => if d <+: x :: xs then some 0 else (find d xs).map (· + 1)

/-- Every position at which the pattern occurs, in order. -/
def starts (d xs : List α) : List Nat := (List.range xs.length).filter (fun i => d <+: xs.drop i)

/-- The first occurrence after a position, or the end. -/
def nextStart (d xs : List α) (i : Nat) : Nat := ((starts d xs).find? (i < ·)).getD xs.length

/-- What follows each occurrence, up to the next one or the end. -/
def stretches (d xs : List α) : List (List α) :=
  (starts d xs).map (fun i => (xs.take (nextStart d xs i)).drop (i + d.length))

instance (d : List α) : Decidable (Unbordered d) := inferInstanceAs (Decidable (_ ∧ _))

theorem find_none_iff {d xs : List α} (some : d ≠ []) : find d xs = none ↔ ¬ d <:+: xs := by
  induction xs with
  | nil =>
    rw [List.infix_nil]
    exact ⟨fun _ => some, fun _ => rfl⟩
  | cons x xs ih =>
    rw [List.infix_cons_iff, find]
    split
    · rename_i head
      constructor
      · intro h
        cases h
      · exact fun h => absurd (Or.inl head) h
    · rename_i head
      rw [Option.map_eq_none_iff, ih, not_or]
      exact (and_iff_right head).symm

/-- What is found is the first occurrence. -/
theorem find_some {d xs : List α} (h : find d xs = some i) :
    d <+: xs.drop i ∧ i < xs.length ∧ ∀ j < i, ¬ d <+: xs.drop j := by
  induction xs generalizing i with
  | nil => cases h
  | cons x xs ih =>
    rw [find] at h
    split at h
    · rename_i head
      cases h
      exact ⟨head, Nat.succ_pos _, fun j hj => absurd hj (Nat.not_lt_zero j)⟩
    · rename_i head
      obtain ⟨i', hi', rfl⟩ := Option.map_eq_some_iff.mp h
      obtain ⟨here, bound, earlier⟩ := ih hi'
      refine ⟨here, Nat.succ_lt_succ bound, fun j hj => ?_⟩
      cases j with
      | zero => exact head
      | succ j => exact earlier j (Nat.lt_of_succ_lt_succ hj)

/-- The list before the first occurrence has none of its own. -/
theorem find_some_free {d xs : List α} (h : find d xs = some i) (some : d ≠ []) :
    ¬ d <:+: xs.take i := by
  obtain ⟨_, _, earlier⟩ := find_some h
  rintro ⟨before, after, heq⟩
  have hlen := congrArg List.length heq
  rw [List.length_append, List.length_append, List.length_take] at hlen
  have hpos := List.length_pos_of_ne_nil some
  apply earlier before.length (by omega)
  have hdrop : (xs.take i).drop before.length = d ++ after := by
    rw [← heq, List.append_assoc, List.drop_left]
  have hpre := (List.take_prefix i xs).drop before.length
  rw [hdrop] at hpre
  exact (List.prefix_append d after).trans hpre

theorem find_append {d p rest : List α} (h : Unbordered d) (free : ¬ d <:+: p) :
    find d (p ++ (d ++ rest)) = some p.length := by
  induction p with
  | nil =>
    obtain ⟨x, d', rfl⟩ := List.exists_cons_of_ne_nil h.1
    have head : x :: d' <+: x :: (d' ++ rest) := List.prefix_append (x :: d') rest
    rw [List.nil_append, List.cons_append, find, if_pos head]
    rfl
  | cons x p ih =>
    have head : ¬ d <+: x :: (p ++ (d ++ rest)) := h.clear free 0 (Nat.succ_pos _)
    have tail : ¬ d <:+: p := fun hp => free (List.infix_cons hp)
    rw [List.cons_append, find, if_neg head, ih tail]
    rfl

/-- The pattern in front of each piece. -/
def joined (d : List α) (us : List (List α)) : List α := (us.map (d ++ ·)).flatten

omit [DecidableEq α] in
@[simp] theorem joined_nil (d : List α) : joined d [] = [] := rfl

omit [DecidableEq α] in
@[simp] theorem joined_cons (d u : List α) (us : List (List α)) :
    joined d (u :: us) = d ++ (u ++ joined d us) := by
  rw [joined, List.map_cons, List.flatten_cons, List.append_assoc]
  rfl

omit [DecidableEq α] in
theorem infix_joined {d : List α} {us : List (List α)} (h : u ∈ us) : u <:+: joined d us := by
  obtain ⟨before, after, rfl⟩ := List.append_of_mem h
  refine ⟨joined d before ++ d, joined d after, ?_⟩
  simp [joined]

/-- Every list is cut at its occurrences into pieces free of the pattern. -/
theorem exists_pieces {d : List α} (some : d ≠ []) (xs : List α) : ∃ p us,
    xs = p ++ joined d us ∧ ¬ d <:+: p ∧ ∀ u ∈ us, ¬ d <:+: u := by
  induction hn : xs.length using Nat.strong_induction_on generalizing xs with
  | _ n ih =>
  have hpos := List.length_pos_of_ne_nil some
  cases hf : find d xs with
  | none =>
    exact ⟨xs, [], by simp, (find_none_iff some).mp hf, by simp⟩
  | some i =>
    obtain ⟨⟨rest, hrest⟩, bound, _⟩ := find_some hf
    have hlen := congrArg List.length hrest
    rw [List.length_append, List.length_drop] at hlen
    obtain ⟨p, us, heq, hp, hus⟩ := ih rest.length (by omega) rest rfl
    refine ⟨xs.take i, p :: us, ?_, find_some_free hf some, ?_⟩
    · rw [joined_cons, ← heq, hrest, List.take_append_drop]
    · intro u hu
      rcases List.mem_cons.mp hu with rfl | hu
      · exact hp
      · exact hus u hu

omit [DecidableEq α] in
theorem Unbordered.clear_joined {d p : List α} (h : Unbordered d) (free : ¬ d <:+: p)
    (us : List (List α)) (i : Nat) (hi : i < p.length) : ¬ d <+: (p ++ joined d us).drop i := by
  cases us with
  | nil =>
    rw [joined_nil, List.append_nil]
    exact fun hd => free (prefix_drop_within hd)
  | cons u us =>
    rw [joined_cons]
    exact h.clear free i hi

theorem Unbordered.find_joined {d p : List α} (h : Unbordered d) (free : ¬ d <:+: p)
    (us : List (List α)) : find d (p ++ joined d us) = if us = [] then none else some p.length := by
  cases us with
  | nil =>
    rw [joined_nil, List.append_nil, if_pos rfl]
    exact (find_none_iff h.1).mpr free
  | cons u us =>
    rw [joined_cons, if_neg (List.cons_ne_nil u us)]
    exact find_append h free

theorem starts_append {d p : List α} (ys : List α) : starts d (p ++ ys) =
    (List.range p.length).filter (fun i => d <+: (p ++ ys).drop i) ++
      (starts d ys).map (p.length + ·) := by
  unfold starts
  rw [List.length_append, List.range_add, List.filter_append, List.filter_map]
  congr 3
  funext i
  rw [Function.comp_apply, List.drop_append, List.drop_of_length_le (Nat.le_add_right _ _),
    Nat.add_sub_cancel_left, List.nil_append]

/-- Occurrences that begin later are the later list's, moved on. -/
theorem starts_clear {d p : List α} (ys : List α)
    (clear : ∀ i < p.length, ¬ d <+: (p ++ ys).drop i) :
    starts d (p ++ ys) = (starts d ys).map (p.length + ·) := by
  rw [starts_append, List.filter_eq_nil_iff.mpr, List.nil_append]
  intro i hi
  rw [decide_eq_true_eq]
  exact clear i (List.mem_range.mp hi)

theorem Unbordered.starts_cons {d : List α} (h : Unbordered d) (ys : List α) :
    starts d (d ++ ys) = 0 :: (starts d ys).map (d.length + ·) := by
  rw [starts_append]
  obtain ⟨n, hn⟩ := Nat.exists_eq_succ_of_ne_zero (mt List.length_eq_zero_iff.mp h.1)
  have later : ((List.range n).map Nat.succ).filter (fun i => d <+: (d ++ ys).drop i) = [] := by
    rw [List.filter_eq_nil_iff]
    intro i hi
    obtain ⟨j, hj, rfl⟩ := List.mem_map.mp hi
    have := List.mem_range.mp hj
    rw [decide_eq_true_eq]
    exact h.inside _ (by omega) (Nat.succ_pos j)
  have first : decide (d <+: (d ++ ys).drop 0) = true := decide_eq_true (List.prefix_append d ys)
  rw [show List.range d.length = 0 :: (List.range n).map Nat.succ by
      rw [hn, Nat.succ_eq_add_one, List.range_succ_eq_map],
    List.filter_cons, if_pos first, later]
  rfl

theorem nextStart_append {d p ys : List α} {front : List Nat} (early : ∀ j ∈ front, j ≤ p.length)
    (h : starts d (p ++ ys) = front ++ (starts d ys).map (p.length + ·)) (i : Nat) :
    nextStart d (p ++ ys) (p.length + i) = p.length + nextStart d ys i := by
  have skip : front.find? (p.length + i < ·) = none := by
    rw [List.find?_eq_none]
    intro j hj
    have := early j hj
    rw [decide_eq_true_eq]
    omega
  have moved : (fun j => decide (p.length + i < j)) ∘ (p.length + ·) = fun j => decide (i < j) := by
    funext j
    rw [Function.comp_apply, decide_eq_decide]
    omega
  rw [nextStart, h, List.find?_append, skip, Option.none_or, List.find?_map, moved, nextStart,
    List.length_append]
  cases (starts d ys).find? (fun j => decide (i < j)) with
  | none => rfl
  | some j => rfl

omit [DecidableEq α] in
theorem stretch_append (p ys : List α) (n m k : Nat) :
    ((p ++ ys).take (p.length + n)).drop (p.length + m + k) = (ys.take n).drop (m + k) := by
  rw [List.take_length_add_append, Nat.add_assoc, List.drop_length_add_append]

theorem stretches_clear {d p : List α} (ys : List α)
    (clear : ∀ i < p.length, ¬ d <+: (p ++ ys).drop i) : stretches d (p ++ ys) = stretches d ys := by
  have hstarts := starts_clear ys clear
  rw [stretches, hstarts, List.map_map, stretches]
  apply List.map_congr_left
  intro i _
  rw [Function.comp_apply, nextStart_append (by simp) (hstarts.trans (List.nil_append _).symm),
    stretch_append]

/-- A delimiter and a free piece give one stretch. -/
theorem Unbordered.stretches_cons {d u : List α} (h : Unbordered d) (free : ¬ d <:+: u)
    (us : List (List α)) : stretches d (d ++ (u ++ joined d us)) = u :: stretches d (joined d us) := by
  have hstarts : starts d ((d ++ u) ++ joined d us) =
      [0] ++ (starts d (joined d us)).map ((d ++ u).length + ·) := by
    rw [List.append_assoc, h.starts_cons, starts_clear _ (h.clear_joined free us), List.map_map,
      List.length_append]
    congr 2
    funext i
    rw [Function.comp_apply, Nat.add_assoc]
  have hpos := List.length_pos_of_ne_nil h.1
  have first : nextStart d ((d ++ u) ++ joined d us) 0 = (d ++ u).length := by
    rw [nextStart, hstarts, List.find?_append]
    cases us with
    | nil => simp [starts]
    | cons v us =>
      have later : ∀ js, ((d ++ u).length :: js).find? (fun j => decide (0 < j)) =
          some (d ++ u).length := by
        intro js
        apply List.find?_cons_of_pos
        rw [decide_eq_true_eq, List.length_append]
        omega
      rw [joined_cons, h.starts_cons, List.map_cons, Nat.add_zero, later]
      rfl
  rw [← List.append_assoc, stretches, hstarts, List.map_append, List.map_map, List.map_singleton,
    first, List.take_left, Nat.zero_add, List.drop_left, List.singleton_append, stretches]
  congr 1
  apply List.map_congr_left
  intro i _
  rw [Function.comp_apply, nextStart_append (by simp) hstarts, stretch_append]

/-- The stretches are the pieces. -/
theorem Unbordered.stretches_joined {d p : List α} {us : List (List α)} (h : Unbordered d)
    (free : ¬ d <:+: p) (pieces : ∀ u ∈ us, ¬ d <:+: u) : stretches d (p ++ joined d us) = us := by
  rw [stretches_clear _ (h.clear_joined free us)]
  clear free
  induction us with
  | nil => rfl
  | cons u us ih =>
    rw [joined_cons, h.stretches_cons (pieces u List.mem_cons_self),
      ih (fun v hv => pieces v (List.mem_cons_of_mem u hv))]

end Delimiter
