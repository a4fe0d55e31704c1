import Sankaku.Model.Hevc

namespace Sankaku
open Delimiter

theorem startCode_unbordered : Unbordered annexBStartCode := by decide

theorem findStartCode_drop (data : Bytes) (start : Nat) :
    findStartCode data start = (find annexBStartCode (data.drop start)).map (start + ·) := by
  unfold findStartCode
  split
  · rename_i past
    rw [List.drop_of_length_le past, find, Option.map_none]
  · rfl

namespace AnnexBNalIter

/-- What is left to read: something free of start codes, then units behind theirs. -/
structure Reads (it : AnnexBNalIter) (p : Bytes) (units : List Bytes) : Prop where
  rest : it.data.drop it.cursor = p ++ joined annexBStartCode units
  free : ¬ annexBStartCode <:+: p
  pieces : ∀ unit ∈ units, ¬ annexBStartCode <:+: unit

theorem Reads.next_nil {it : AnnexBNalIter} (h : it.Reads p []) : it.next = (none, it) := by
  have hnone : findStartCode it.data it.cursor = none := by
    rw [findStartCode_drop, h.rest, startCode_unbordered.find_joined h.free, if_pos rfl,
      Option.map_none]
  rw [next]
  split
  · split
    · rfl
    · rename_i start hs
      rw [hnone] at hs
      cases hs
  · rfl

theorem Reads.find {it : AnnexBNalIter} (h : it.Reads p (unit :: units)) :
    findStartCode it.data it.cursor = some (it.cursor + p.length) := by
  rw [findStartCode_drop, h.rest, startCode_unbordered.find_joined h.free,
    if_neg (List.cons_ne_nil unit units), Option.map_some]

/-- What follows the first start code. -/
theorem Reads.after {it : AnnexBNalIter} (h : it.Reads p (unit :: units)) :
    it.data.drop (it.cursor + p.length + annexBStartCode.length) =
      unit ++ joined annexBStartCode units := by
  rw [Nat.add_assoc, ← List.drop_drop, h.rest, joined_cons, List.drop_length_add_append,
    List.drop_left]

/-- The unit ends at the next start code, or with the data. -/
theorem Reads.unitEnd {it : AnnexBNalIter} (h : it.Reads p (unit :: units))
    (hstart : nalStart = it.cursor + p.length + annexBStartCode.length) :
    (findStartCode it.data nalStart).getD it.data.length = nalStart + unit.length := by
  have hafter := h.after
  rw [← hstart] at hafter
  rw [findStartCode_drop, hafter,
    startCode_unbordered.find_joined (h.pieces unit List.mem_cons_self)]
  split
  · rename_i last
    have hlen := congrArg List.length hafter
    have hcode : annexBStartCode.length = 4 := rfl
    have hbound : nalStart ≤ it.data.length := by
      have htotal := congrArg List.length h.rest
      rw [joined_cons, List.length_append, List.length_append, List.length_drop] at htotal
      omega
    rw [last, joined_nil, List.append_nil, List.length_drop] at hlen
    rw [Option.map_none, Option.getD_none]
    omega
  · rfl

/-- One round of the loop takes one start code and what belongs to it. -/
theorem Reads.next_cons {it : AnnexBNalIter} (h : it.Reads p (unit :: units)) :
    ∃ it' : AnnexBNalIter, it'.Reads [] units ∧
      it.next = if unit = [] then it'.next else (some unit, it') := by
  have hlt := findStartCode_bounds h.find
  obtain ⟨nalStart, hstart⟩ : ∃ n, n = it.cursor + p.length + annexBStartCode.length := ⟨_, rfl⟩
  have hend := h.unitEnd hstart
  have hafter := h.after
  rw [← hstart] at hafter
  refine ⟨⟨it.data, nalStart + unit.length⟩, ⟨?_, ?_, ?_⟩, ?_⟩
  · rw [← List.drop_drop, hafter, List.drop_left, List.nil_append]
  · rw [List.infix_nil]
    exact startCode_unbordered.1
  · exact fun u hu => h.pieces u (List.mem_cons_of_mem unit hu)
  · have hunit : (it.data.take (nalStart + unit.length)).drop nalStart = unit := by
      rw [List.drop_take, hafter, Nat.add_sub_cancel_left, List.take_left]
    rw [next, if_pos (Nat.lt_of_le_of_lt hlt.1 hlt.2)]
    split
    · rename_i hnone
      rw [h.find] at hnone
      cases hnone
    · rename_i start hs
      rw [h.find, Option.some.injEq] at hs
      subst hs
      simp only [← hstart, hend, hunit]
      by_cases hempty : unit = []
      · rw [if_pos hempty, if_neg (by rw [hempty]; simp)]
      · have hpos := List.length_pos_of_ne_nil hempty
        rw [if_neg hempty, if_pos (by omega)]

/-- The iterator yields the units that are not empty. -/
theorem Reads.collect {it : AnnexBNalIter} (h : it.Reads p units) :
    it.collect = units.filter (· ≠ []) := by
  induction units generalizing it p with
  | nil =>
    rw [AnnexBNalIter.collect, h.next_nil]
    rfl
  | cons unit units ih =>
    obtain ⟨it', hrest, hnext⟩ := h.next_cons
    have hih := ih hrest
    rw [AnnexBNalIter.collect] at hih ⊢
    by_cases hempty : unit = []
    · rw [if_pos hempty] at hnext
      rw [hnext, List.filter_cons, if_neg (by simp [hempty])]
      exact hih
    · rw [if_neg hempty] at hnext
      rw [hnext, List.filter_cons, if_pos (by simp [hempty])]
      simp only
      rw [ih hrest]

end AnnexBNalIter

theorem splitAnnexB_joined {before : Bytes} {units : List Bytes}
    (free : ¬ annexBStartCode <:+: before) (pieces : ∀ unit ∈ units, ¬ annexBStartCode <:+: unit) :
    (splitAnnexB (before ++ joined annexBStartCode units)).collect = units.filter (· ≠ []) :=
  AnnexBNalIter.Reads.collect ⟨rfl, free, pieces⟩

/-- The iterator comes to an end on all data and yields the stretches between the start
codes that are not empty. So it takes apart what a writer put together, whatever bytes
the units begin and end with. -/
theorem annexB_split :
    (∀ data : Bytes,
      (splitAnnexB data).collect = (stretches annexBStartCode data).filter (· ≠ []) ∧
      ∀ unit ∈ (splitAnnexB data).collect,
        unit ≠ [] ∧ unit <:+: data ∧ ¬ annexBStartCode <:+: unit) ∧
    ∀ (before : Bytes) (units : List Bytes), ¬ annexBStartCode <:+: before →
      (∀ unit ∈ units, unit ≠ [] ∧ ¬ annexBStartCode <:+: unit) →
      (splitAnnexB (before ++ (units.map (annexBStartCode ++ ·)).flatten)).collect = units := by
  constructor
  · intro data
    obtain ⟨before, units, rfl, free, pieces⟩ := exists_pieces startCode_unbordered.1 data
    rw [splitAnnexB_joined free pieces, startCode_unbordered.stretches_joined free pieces]
    refine ⟨rfl, fun unit hunit => ?_⟩
    obtain ⟨hmem, hne⟩ := List.mem_filter.mp hunit
    refine ⟨of_decide_eq_true hne, ?_, pieces unit hmem⟩
    exact (infix_joined hmem).trans (List.suffix_append _ _).isInfix
  · intro before units free hunits
    have hall : units.filter (· ≠ []) = units :=
      List.filter_eq_self.mpr (fun unit hu => decide_eq_true (hunits unit hu).1)
    have hsplit := splitAnnexB_joined free (fun unit hu => (hunits unit hu).2)
    rw [hall] at hsplit
    exact hsplit

/-- A unit that ends in zeros before the next start code, and one shorter than it. -/
theorem annexB_split_zeros :
    (splitAnnexB ([7, 0] ++ [0, 0, 0, 1, 0x40, 1, 0, 0] ++ [0, 0, 0, 1, 1])).collect =
      [[0x40, 1, 0, 0], [1]] :=
  annexB_split.2 [7, 0] [[0x40, 1, 0, 0], [1]] (by decide) (by decide)

end Sankaku
