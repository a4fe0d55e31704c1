import Sankaku.Lib.Substitution
import Sankaku.Proofs.Gf256Mem
import Sankaku.Proofs.GreedyPeeling

namespace Sankaku

/-- Bytes under xor. -/
@[ext]
structure XorByte where
  byte : UInt8

instance : Zero XorByte := ⟨⟨0⟩⟩

instance : Add XorByte := ⟨fun a b => ⟨a.byte ^^^ b.byte⟩⟩

instance : Neg XorByte := ⟨fun a => a⟩

instance : AddCommGroup XorByte where
  nsmul := nsmulRec
  zsmul := zsmulRec
  add_assoc _ _ _ := XorByte.ext (UInt8.xor_assoc ..)
  add_comm _ _ := XorByte.ext (UInt8.xor_comm ..)
  zero_add _ := XorByte.ext UInt8.zero_xor
  add_zero _ := XorByte.ext UInt8.xor_zero
  neg_add_cancel _ := XorByte.ext UInt8.xor_self

/-- A block with a value at each of its places. -/
def spread (w : Nat) (f : Nat → XorByte) : Bytes := (List.range w).map fun i => (f i).byte

/-- The value at each place of a block, and zero behind it. -/
def valueAt (block : Bytes) (i : Nat) : XorByte := ⟨block.getD i 0⟩

theorem xor_sub (f g : Nat → XorByte) : f - g = f + g := sub_eq_add_neg f g

@[simp] theorem spread_length (w : Nat) (f : Nat → XorByte) : (spread w f).length = w := by
  rw [spread, List.length_map, List.length_range]

theorem spread_take (f : Nat → XorByte) (h : k ≤ w) : (spread w f).take k = spread k f := by
  rw [spread, ← List.map_take, List.take_range, Nat.min_eq_left h, spread]

theorem spread_inj (h : spread w f = spread w g) (hi : i < w) : f i = g i :=
  XorByte.ext (List.map_inj_left.mp h i (List.mem_range.mpr hi))

theorem spread_valueAt (block : Bytes) : spread block.length (valueAt block) = block := by
  refine List.ext_getElem (spread_length _ _) fun i h _ => ?_
  rw [spread_length] at h
  simp only [spread, List.getElem_map, List.getElem_range, valueAt]
  exact List.getD_eq_getElem _ _ h

/-- Zeros behind a block are not seen. -/
theorem spread_padded (block : Bytes) (h : block.length ≤ w) :
    spread w (valueAt block) = block ++ List.replicate (w - block.length) 0 := by
  refine List.ext_getElem (by simp [h]) fun i hi _ => ?_
  rw [spread_length] at hi
  simp only [spread, List.getElem_map, List.getElem_range, valueAt]
  rcases Nat.lt_or_ge i block.length with hlt | hge
  · rw [List.getElem_append_left hlt]
    exact List.getD_eq_getElem _ _ hlt
  · rw [List.getElem_append_right hge, List.getElem_replicate]
    exact List.getD_eq_default _ _ hge

theorem addMem_spread (cpu : Cpu) (w : Nat) (f g : Nat → XorByte) :
    gf256AddMem cpu ((spread w f).zip (spread w g)) = spread w (f + g) := by
  rw [gf256AddMem_eq, spread, spread, List.zip_map', List.map_map]
  rfl

theorem addsetMem_spread (cpu : Cpu) (w : Nat) (f g : Nat → XorByte) :
    gf256AddsetMem cpu ((spread w f).zip (spread w g)) = spread w (f + g) := by
  rw [gf256AddsetMem_eq, spread, spread, List.zip_map', List.map_map]
  rfl

theorem add2Mem_spread (cpu : Cpu) (w : Nat) (f g h : Nat → XorByte) :
    gf256Add2Mem cpu ((spread w f).zip ((spread w g).zip (spread w h))) =
      spread w (f + (g + h)) := by
  rw [gf256Add2Mem_eq, spread, spread, spread, List.zip_map', List.zip_map', List.map_map]
  rfl

/-- All the columns that a row is made of, the mixing columns behind the others. -/
def rowColumns (m : Matrix) (rowSeed : UInt32) : List Nat :=
  m.columns rowSeed ++ (m.mix rowSeed).map (m.blockCount + ·)

/-- What a row adds up to where the columns have these values. -/
def rowSum (m : Matrix) (values : Nat → Nat → XorByte) (rowSeed : UInt32) : Nat → XorByte :=
  ((rowColumns m rowSeed).map values).sum

variable {m : Matrix} {cpu : Cpu} {values : Nat → Nat → XorByte} {blocks : Nat → Bytes}

theorem Matrix.Wellformed.parts (wf : m.Wellformed) (rowSeed : UInt32) :
    ∃ peel0 peels mix0 mix1 mix2, m.columns rowSeed = peel0 :: peels ∧
      m.mix rowSeed = [mix0, mix1, mix2] := by
  obtain ⟨peel0, peels, hcolumns⟩ := List.exists_cons_of_length_pos (wf.columns_pos rowSeed)
  obtain ⟨mix0, mix1, mix2, hmix⟩ := List.length_eq_three.mp (wf.mix_length rowSeed)
  exact ⟨peel0, peels, mix0, mix1, mix2, hcolumns, hmix⟩

theorem foldl_addMem (cpu : Cpu) (w : Nat) (values : Nat → Nat → XorByte) (columns : List Nat)
    (f : Nat → XorByte) :
    columns.foldl (fun out c => gf256AddMem cpu (out.zip (spread w (values c)))) (spread w f) =
      spread w (f + (columns.map values).sum) := by
  induction columns generalizing f with
  | nil => rw [List.map_nil, List.sum_nil, add_zero]; rfl
  | cons c columns ih =>
    rw [List.foldl_cons, addMem_spread, ih, List.map_cons, List.sum_cons, add_assoc]

theorem foldl_addMem_others (cpu : Cpu) (w : Nat) (values : Nat → Nat → XorByte) (dest : Nat)
    (columns : List Nat) (f : Nat → XorByte) :
    columns.foldl (fun out c =>
        if c ≠ dest then gf256AddMem cpu (out.zip (spread w (values c))) else out) (spread w f) =
      spread w (f + ((columns.filter (· ≠ dest)).map values).sum) := by
  induction columns generalizing f with
  | nil => rw [List.filter_nil, List.map_nil, List.sum_nil, add_zero]; rfl
  | cons c columns ih =>
    rw [List.foldl_cons]
    by_cases hc : c ≠ dest
    · rw [if_pos hc, addMem_spread, ih, List.filter_cons_of_pos (by simpa using hc), List.map_cons,
        List.sum_cons, add_assoc]
    · rw [if_neg hc, ih, List.filter_cons_of_neg (by simpa using hc)]

/-- A block is put together as the sum of its row. -/
theorem regenerate_eq (wf : m.Wellformed) (hblocks : ∀ c, blocks c = spread w (values c))
    (hbytes : bytes ≤ w) (rowSeed : UInt32) :
    regenerate cpu m blocks rowSeed bytes = spread bytes (rowSum m values rowSeed) := by
  obtain ⟨peel0, peels, mix0, mix1, mix2, hcolumns, hmix⟩ := wf.parts rowSeed
  have htake : ∀ c, (blocks c).take bytes = spread bytes (values c) := fun c => by
    rw [hblocks, spread_take _ hbytes]
  have hsum : rowSum m values rowSeed = values peel0 + (peels.map values).sum +
      values (m.blockCount + mix0) +
      (values (m.blockCount + mix1) + values (m.blockCount + mix2)) := by
    simp only [rowSum, rowColumns, hcolumns, hmix, List.map_append, List.map_cons, List.map_nil,
      List.sum_append, List.sum_cons, List.sum_nil, add_zero, add_assoc]
  rw [regenerate, hsum]
  simp only [hcolumns, hmix, htake]
  cases peels with
  | nil =>
    simp only [addsetMem_spread, add2Mem_spread, List.map_nil, List.sum_nil, add_zero]
  | cons peel1 rest =>
    simp only [addsetMem_spread, foldl_addMem, addMem_spread, add2Mem_spread,
      List.map_cons, List.sum_cons, add_assoc]

/-- What is read of the input of a row. -/
def inputRow (m : Matrix) (inputFinalBytes : Nat) (inputBlocks : Nat → Bytes) (r : Nat) : Bytes :=
  if r = m.blockCount - 1 then (inputBlocks r).take inputFinalBytes else inputBlocks r

namespace PeelState

/-- A peeled row, to be solved for its column. -/
def equation (m : Matrix) (s : PeelState) (inputFinalBytes : Nat) (inputBlocks : Nat → Bytes)
    (r : Nat) : Substitution.Equation (Nat → XorByte) where
  columns := rowColumns m (s.peelRows r).recoveryId
  pivot := s.solved r
  rhs := valueAt (inputRow m inputFinalBytes inputBlocks r)

end PeelState

/-- Input rows fill a block each, row `N - 1` as far as it goes. -/
structure Inputs (m : Matrix) (inputFinalBytes : Nat) (inputBlocks : Nat → Bytes)
    (rows : List Nat) : Prop where
  final_le : inputFinalBytes ≤ m.blockBytes.toNat
  length : ∀ r ∈ rows, (inputRow m inputFinalBytes inputBlocks r).length =
    if r = m.blockCount - 1 then inputFinalBytes else m.blockBytes.toNat

theorem addset_final (cpu : Cpu) (f : Nat → XorByte) (block : Bytes) (h : block.length ≤ w) :
    gf256AddsetMem cpu (((spread w f).take block.length).zip block) ++
      (spread w f).drop block.length = spread w (f + valueAt block) := by
  have hblock : gf256AddsetMem cpu (((spread w f).take block.length).zip block) =
      spread block.length (f + valueAt block) := by
    rw [spread_take _ h]
    conv_lhs => rw [← spread_valueAt block, spread_length]
    exact addsetMem_spread cpu _ _ _
  rw [hblock]
  refine List.ext_getElem (by simp [h]) fun i hi _ => ?_
  rcases Nat.lt_or_ge i block.length with hlt | hge
  · rw [List.getElem_append_left (by rwa [spread_length])]
    simp only [spread, List.getElem_map, List.getElem_range]
  · rw [List.getElem_append_right (by rwa [spread_length]), List.getElem_drop]
    have hzero : valueAt block i = 0 := XorByte.ext (List.getD_eq_default _ _ hge)
    simp only [spread, List.getElem_map, List.getElem_range, List.length_map, List.length_range,
      Nat.add_sub_of_le hge, Pi.add_apply, hzero, add_zero]

/-- A block and an input, row `N - 1` as far as it goes. -/
theorem addset_input (cpu : Cpu) (hinputs : Inputs m inputFinalBytes inputBlocks rows)
    (hr : r ∈ rows) (f : Nat → XorByte) :
    (if r ≠ m.blockCount - 1 then
        gf256AddsetMem cpu ((spread m.blockBytes.toNat f).zip (inputBlocks r))
      else
        gf256AddsetMem cpu (((spread m.blockBytes.toNat f).take inputFinalBytes).zip
          ((inputBlocks r).take inputFinalBytes)) ++
        (spread m.blockBytes.toNat f).drop inputFinalBytes) =
      spread m.blockBytes.toNat (f + valueAt (inputRow m inputFinalBytes inputBlocks r)) := by
  have hlength := hinputs.length r hr
  by_cases hlast : r = m.blockCount - 1
  · rw [if_pos hlast] at hlength
    have hrow : (inputBlocks r).take inputFinalBytes = inputRow m inputFinalBytes inputBlocks r :=
      (if_pos hlast).symm
    have := addset_final cpu (w := m.blockBytes.toNat) f
      (inputRow m inputFinalBytes inputBlocks r) (by rw [hlength]; exact hinputs.final_le)
    rw [if_neg (not_not.mpr hlast), hrow]
    rwa [hlength] at this
  · rw [if_neg hlast] at hlength
    have hrow : inputRow m inputFinalBytes inputBlocks r = inputBlocks r := if_neg hlast
    rw [if_pos hlast, ← hrow]
    conv_lhs => rw [← spread_valueAt (inputRow m inputFinalBytes inputBlocks r), hlength]
    exact addsetMem_spread cpu _ _ _

/-- What is written to a column is what its row leaves for it. -/
theorem substituted_eq (cpu : Cpu) (wf : m.Wellformed) (hinputs : Inputs m inputFinalBytes inputBlocks rows)
    (hr : r ∈ rows) (hblocks : ∀ c, blocks c = spread m.blockBytes.toNat (values c))
    (hsolves : s.solved r ∈ m.columns (s.peelRows r).recoveryId) :
    substituted cpu m s inputBlocks inputFinalBytes blocks r =
      spread m.blockBytes.toNat ((s.equation m inputFinalBytes inputBlocks r).solution values) := by
  obtain ⟨column0, columns, mix0, mix1, mix2, hcolumns, hmix⟩ :=
    wf.parts (s.peelRows r).recoveryId
  have hnodup := wf.columns_nodup (s.peelRows r).recoveryId
  have hdest := addset_input cpu hinputs hr (values (m.blockCount + mix0))
  rw [← hblocks] at hdest
  have hrest : ((rowColumns m (s.peelRows r).recoveryId).erase (s.solved r)).map values =
      ((column0 :: columns).filter (· ≠ s.solved r)).map values ++
        [values (m.blockCount + mix0), values (m.blockCount + mix1),
          values (m.blockCount + mix2)] := by
    have hfilter : (column0 :: columns).filter (· != s.solved r) =
        (column0 :: columns).filter (· ≠ s.solved r) :=
      List.filter_congr fun c _ => by rw [Bool.eq_iff_iff]; simp
    rw [rowColumns, List.erase_append_left _ hsolves, hnodup.erase_eq_filter, hcolumns, hmix,
      List.map_append, hfilter]
    rfl
  have hsolution : (s.equation m inputFinalBytes inputBlocks r).solution values =
      values (m.blockCount + mix0) + valueAt (inputRow m inputFinalBytes inputBlocks r) +
        (values (m.blockCount + mix1) + values (m.blockCount + mix2)) +
        (((column0 :: columns).filter (· ≠ s.solved r)).map values).sum := by
    rw [Substitution.Equation.solution, xor_sub]
    show valueAt (inputRow m inputFinalBytes inputBlocks r) + _ = _
    rw [show (s.equation m inputFinalBytes inputBlocks r).columns = rowColumns m (s.peelRows r).recoveryId from rfl,
      show (s.equation m inputFinalBytes inputBlocks r).pivot = s.solved r from rfl, hrest]
    simp only [List.sum_append, List.sum_cons, List.sum_nil]
    abel
  rw [substituted, hsolution]
  simp only [hcolumns, hmix, hdest]
  rw [hcolumns] at hnodup hsolves
  simp only [hblocks, add2Mem_spread, addMem_spread]
  generalize values (m.blockCount + mix0) + valueAt (inputRow m inputFinalBytes inputBlocks r) +
    (values (m.blockCount + mix1) + values (m.blockCount + mix2)) = f
  have hkeep : ∀ c cs, c ≠ s.solved r →
      (c :: cs).filter (· ≠ s.solved r) = c :: cs.filter (· ≠ s.solved r) := fun c cs hne =>
    List.filter_cons_of_pos (decide_eq_true hne)
  have hdrop : ∀ c cs, c = s.solved r →
      (c :: cs).filter (· ≠ s.solved r) = cs.filter (· ≠ s.solved r) := fun c cs heq =>
    List.filter_cons_of_neg (by simpa using heq)
  cases columns with
  | nil =>
    rw [hdrop column0 [] (List.mem_singleton.mp hsolves).symm, List.filter_nil, List.map_nil,
      List.sum_nil, add_zero]
  | cons column1 rest =>
    have hdiffer : column0 ≠ column1 :=
      ne_of_mem_of_not_mem List.mem_cons_self (List.nodup_cons.mp hnodup).1 |>.symm
    dsimp only
    by_cases h0 : column0 = s.solved r
    · rw [if_neg (not_not.mpr h0), foldl_addMem_others, hdrop column0 _ h0,
        hkeep column1 rest fun h1 => hdiffer (h0.trans h1.symm), List.map_cons, List.sum_cons,
        add_assoc]
    rw [if_pos h0, hkeep column0 _ h0]
    by_cases h1 : column1 = s.solved r
    · rw [if_neg (not_not.mpr h1), foldl_addMem_others, hdrop column1 rest h1, List.map_cons,
        List.sum_cons, add_assoc]
    · rw [if_pos h1, foldl_addMem_others, hkeep column1 rest h1]
      simp only [List.map_cons, List.sum_cons, add_assoc]

/-- Rows are substituted as their equations are solved. -/
theorem substituteRows_eq (wf : m.Wellformed) {s : PeelState}
    (hinputs : Inputs m inputFinalBytes inputBlocks rows)
    (hsolves : ∀ r ∈ rows, s.solved r ∈ m.columns (s.peelRows r).recoveryId)
    (hblocks : ∀ c, blocks c = spread m.blockBytes.toNat (values c)) (c : Nat) :
    (substituteRows cpu m s inputBlocks inputFinalBytes rows ⟨blocks⟩).block c =
      spread m.blockBytes.toNat
        (Substitution.substitute (rows.map (s.equation m inputFinalBytes inputBlocks)) values c) := by
  induction rows generalizing blocks values with
  | nil => exact hblocks c
  | cons r rows ih =>
    have hdest := substituted_eq cpu (s := s) wf hinputs List.mem_cons_self hblocks
      (hsolves r List.mem_cons_self)
    refine @ih ((s.equation m inputFinalBytes inputBlocks r).solve values) _
      ⟨hinputs.final_le, fun q hq => hinputs.length q (List.mem_cons_of_mem r hq)⟩
      (fun q hq => hsolves q (List.mem_cons_of_mem r hq)) fun c => ?_
    dsimp only
    rw [hdest, Substitution.Equation.solve]
    rcases eq_or_ne c (s.solved r) with rfl | hne
    · rw [Function.update_self]
      exact congrArg _ (Function.update_self (s.equation m inputFinalBytes inputBlocks r).pivot _ values).symm
    · rw [Function.update_of_ne hne, hblocks]
      exact congrArg _ (Function.update_of_ne hne _ values).symm

theorem rowColumns_nodup (wf : m.Wellformed) (rowSeed : UInt32) : (rowColumns m rowSeed).Nodup := by
  refine List.nodup_append.mpr ⟨wf.columns_nodup rowSeed,
    (wf.mix_nodup rowSeed).map fun _ _ => Nat.add_left_cancel, ?_⟩
  rintro c hc _ hd rfl
  obtain ⟨mix, _, rfl⟩ := List.mem_map.mp hd
  have := wf.columns_lt rowSeed _ hc
  omega

theorem PeelState.Peeled.triangular {s : PeelState} (h : PeelState.Peeled m n s)
    (wf : m.Wellformed) (inputFinalBytes : Nat) (inputBlocks : Nat → Bytes) :
    Substitution.Triangular (s.peeled.map (s.equation m inputFinalBytes inputBlocks)) where
  pivot_mem e he := by
    obtain ⟨r, hr, rfl⟩ := List.mem_map.mp he
    exact List.mem_append_left _ (h.solves r hr).1
  nodup e he := by
    obtain ⟨r, _, rfl⟩ := List.mem_map.mp he
    exact rowColumns_nodup wf _
  order := by
    rw [List.pairwise_map, List.pairwise_iff_getElem]
    intro i j hi hj hij hmem
    have hnodup := h.columns.nodup_iff.mpr List.nodup_range
    obtain ⟨hsolved, _, hapart⟩ := List.nodup_append.mp hnodup
    have hlt := wf.columns_lt _ _ (h.solves _ (List.getElem_mem hj)).1
    have hinj : ∀ k, (hk : k < s.peeled.length) → s.solved s.peeled[j] = s.solved s.peeled[k] →
        j = k := fun k hk heq => by
      have hj' : j < (s.peeled.map s.solved).length := by rwa [List.length_map]
      have hk' : k < (s.peeled.map s.solved).length := by rwa [List.length_map]
      have hsame : (s.peeled.map s.solved)[j] = (s.peeled.map s.solved)[k] := by
        rw [List.getElem_map, List.getElem_map]
        exact heq
      exact hsolved.getElem_inj_iff.mp hsame
    -- A later pivot among the columns would have to be solved twice.
    rcases List.mem_append.mp hmem with hcol | hmix
    · have hsplit : s.peeled = s.peeled.take i ++ s.peeled[i] :: s.peeled.drop (i + 1) := by
        rw [List.getElem_cons_drop, List.take_append_drop]
      rcases h.order _ _ _ hsplit _ hcol with hdefer | hself | hbefore
      · exact hapart _ (List.mem_map_of_mem (List.getElem_mem hj)) _ hdefer rfl
      · have := hinj i hi hself
        omega
      · obtain ⟨r, hr, heq⟩ := List.mem_map.mp hbefore
        obtain ⟨k, hk, rfl⟩ := List.mem_take_iff_getElem.mp hr
        have := hinj k (by omega) heq.symm
        omega
    · obtain ⟨mix, _, heq⟩ := List.mem_map.mp hmix
      have : m.blockCount + mix = s.solved s.peeled[j] := heq
      omega

theorem spread_blocks (hblocks : ∀ c, (blocks c).length = w) (c : Nat) :
    blocks c = spread w (valueAt (blocks c)) := by
  rw [← hblocks c, spread_valueAt]

theorem valueAt_sum_behind (hblocks : ∀ c, (blocks c).length = w) (hi : w ≤ i)
    (columns : List Nat) : (columns.map fun c => valueAt (blocks c)).sum i = 0 := by
  induction columns with
  | nil => rfl
  | cons c columns ih =>
    have hzero : valueAt (blocks c) i = 0 :=
      XorByte.ext (List.getD_eq_default _ _ (by rw [hblocks]; exact hi))
    rw [List.map_cons, List.sum_cons, Pi.add_apply, ih, hzero, add_zero]

/-- The input of a row, with zeros up to a full block. -/
def padded (m : Matrix) (inputFinalBytes : Nat) (inputBlocks : Nat → Bytes) (r : Nat) : Bytes :=
  inputRow m inputFinalBytes inputBlocks r ++
    List.replicate (m.blockBytes.toNat - (inputRow m inputFinalBytes inputBlocks r).length) 0

/-- Where the columns add up to the row, the block they are put together to is
the input. -/
theorem equation_holds_iff (wf : m.Wellformed) {s : PeelState}
    (hblocks : ∀ c, (blocks c).length = m.blockBytes.toNat)
    (hinput : (inputRow m inputFinalBytes inputBlocks r).length ≤ m.blockBytes.toNat) :
    (s.equation m inputFinalBytes inputBlocks r).Holds (fun c => valueAt (blocks c)) ↔
      regenerate cpu m blocks (s.peelRows r).recoveryId m.blockBytes.toNat =
        padded m inputFinalBytes inputBlocks r := by
  rw [regenerate_eq wf (spread_blocks hblocks) (Nat.le_refl _), padded, ← spread_padded _ hinput]
  constructor
  · intro h
    rw [← show (s.equation m inputFinalBytes inputBlocks r).rhs = valueAt (inputRow m inputFinalBytes inputBlocks r) from rfl, ← h]
    rfl
  · intro h
    refine funext fun i => ?_
    rcases Nat.lt_or_ge i m.blockBytes.toNat with hlt | hge
    · exact spread_inj h hlt
    · have hzero : valueAt (inputRow m inputFinalBytes inputBlocks r) i = 0 :=
        XorByte.ext (List.getD_eq_default _ _ (Nat.le_trans hinput hge))
      exact (valueAt_sum_behind hblocks hge _).trans hzero.symm

/-- What peeling, elimination and substitution work on. -/
structure Solved (m : Matrix) (n : Nat) (s : PeelState) (inputFinalBytes : Nat)
    (inputBlocks blocks : Nat → Bytes) : Prop where
  wf : m.Wellformed
  peeled : PeelState.Peeled m n s
  inputs : Inputs m inputFinalBytes inputBlocks s.peeled
  sized : ∀ c, (blocks c).length = m.blockBytes.toNat

namespace Solved
variable {s : PeelState} (h : Solved m n s inputFinalBytes inputBlocks blocks)
include h

theorem input_le (hr : r ∈ s.peeled) : (inputRow m inputFinalBytes inputBlocks r).length ≤ m.blockBytes.toNat := by
  rw [h.inputs.length r hr]
  split
  · exact h.inputs.final_le
  · exact Nat.le_refl _

theorem block_eq (c : Nat) :
    (substitute cpu m s inputBlocks inputFinalBytes ⟨blocks⟩).block c =
      spread m.blockBytes.toNat (Substitution.substitute (s.peeled.map (s.equation m inputFinalBytes inputBlocks))
        (fun c => valueAt (blocks c)) c) :=
  substituteRows_eq h.wf h.inputs (fun r hr => (h.peeled.solves r hr).1) (spread_blocks h.sized) c

theorem regenerates (hr : r ∈ s.peeled) (hbytes : bytes ≤ m.blockBytes.toNat) :
    regenerate cpu' m (substitute cpu m s inputBlocks inputFinalBytes ⟨blocks⟩).block
      (s.peelRows r).recoveryId bytes =
    (padded m inputFinalBytes inputBlocks r).take bytes := by
  have hholds := Substitution.substitute_holds (h.peeled.triangular h.wf inputFinalBytes inputBlocks)
    (fun c => valueAt (blocks c)) _ (List.mem_map_of_mem hr)
  rw [regenerate_eq h.wf h.block_eq hbytes, padded, ← spread_padded _ (h.input_le hr),
    spread_take _ hbytes]
  exact congrArg (spread bytes) hholds

theorem row_holds (cpu : Cpu) (hr : r ∈ s.peeled) :
    rowSum m (fun c => valueAt ((substitute cpu m s inputBlocks inputFinalBytes ⟨blocks⟩).block c))
      (s.peelRows r).recoveryId = valueAt (inputRow m inputFinalBytes inputBlocks r) := by
  have hsized : ∀ c, ((substitute cpu m s inputBlocks inputFinalBytes ⟨blocks⟩).block c).length =
      m.blockBytes.toNat := fun c => by rw [h.block_eq, spread_length]
  have hlength : (padded m inputFinalBytes inputBlocks r).length = m.blockBytes.toNat := by
    have := h.input_le hr
    rw [padded, List.length_append, List.length_replicate]
    omega
  have hregenerates : regenerate cpu m
      (substitute cpu m s inputBlocks inputFinalBytes ⟨blocks⟩).block (s.peelRows r).recoveryId
      m.blockBytes.toNat = padded m inputFinalBytes inputBlocks r := by
    rw [h.regenerates hr (Nat.le_refl _), ← hlength, List.take_length]
  exact (equation_holds_iff h.wf (s := s) hsized (h.input_le hr)).mpr hregenerates

theorem keeps (hc : c ∈ s.deferColumns ∨ m.blockCount ≤ c) :
    (substitute cpu m s inputBlocks inputFinalBytes ⟨blocks⟩).block c = blocks c := by
  have hnot : ∀ e ∈ s.peeled.map (s.equation m inputFinalBytes inputBlocks), c ≠ e.pivot := by
    rintro e he rfl
    obtain ⟨r, hr, rfl⟩ := List.mem_map.mp he
    rcases hc with hdefer | hmix
    · have hnodup := h.peeled.columns.nodup_iff.mpr List.nodup_range
      exact (List.nodup_append.mp hnodup).2.2 _ (List.mem_map_of_mem hr) _ hdefer rfl
    · have hlt : s.solved r < m.blockCount := h.wf.columns_lt _ _ (h.peeled.solves r hr).1
      have hge : m.blockCount ≤ s.solved r := hmix
      omega
  rw [h.block_eq, Substitution.substitute_of_not_pivot hnot]
  exact (spread_blocks h.sized c).symm

/-- The columns the elimination finds decide all the others. -/
theorem agrees {blocks' : Nat → Bytes} (hsized : ∀ c, (blocks' c).length = m.blockBytes.toNat)
    (hfound : ∀ c, c ∈ s.deferColumns ∨ m.blockCount ≤ c → blocks c = blocks' c)
    (hinputs : ∀ r ∈ s.peeled,
      padded m inputFinalBytes inputBlocks r =
        regenerate cpu' m blocks' (s.peelRows r).recoveryId m.blockBytes.toNat) :
    (substitute cpu m s inputBlocks inputFinalBytes ⟨blocks⟩).block = blocks' := by
  have hunique := Substitution.substitute_unique (h.peeled.triangular h.wf inputFinalBytes inputBlocks)
    (x := fun c => valueAt (blocks c)) (y := fun c => valueAt (blocks' c)) ?_ ?_
  · funext c
    rw [h.block_eq, hunique]
    exact (spread_blocks hsized c).symm
  · intro e he
    obtain ⟨r, hr, rfl⟩ := List.mem_map.mp he
    exact (equation_holds_iff h.wf hsized (h.input_le hr)).mpr (hinputs r hr).symm
  · intro c hc
    refine congrArg valueAt (hfound c ?_)
    rcases Nat.lt_or_ge c m.blockCount with hlt | hge
    · have hmem := h.peeled.columns.mem_iff.mpr (List.mem_range.mpr hlt)
      refine Or.inl ((List.mem_append.mp hmem).resolve_left fun hsolved => ?_)
      obtain ⟨r, hr, heq⟩ := List.mem_map.mp hsolved
      exact hc _ (List.mem_map_of_mem hr) heq.symm
    · exact Or.inr hge

end Solved

/-- After any run of the peeling, `Substitute` yields the only columns that keep
what the elimination found and of which every peeled row is the sum, be they put
together on the same processor or on another. -/
theorem substitute_unique_solution (hfuel : 2 ^ 16 ≤ fuel)
    (h : chooseMatrix getPeelSeed fuel messageBytes blockBytes = some (.ok m))
    (hdepth : m.blockCount < depth) (memory : Nat → PeelRow) (rowSeeds : List UInt32) :
    ∃ n fed s, PeelState.feedRows m depth rowSeeds (PeelState.start memory) = some (n, fed) ∧
      fed.greedyPeeling m depth depth = some s ∧
      ∀ cpu cpu' inputFinalBytes inputBlocks blocks blocks',
        Inputs m inputFinalBytes inputBlocks s.peeled →
        (∀ c, (blocks c).length = m.blockBytes.toNat) →
        (∀ c, (blocks' c).length = m.blockBytes.toNat) →
        (blocks' = (substitute cpu m s inputBlocks inputFinalBytes ⟨blocks⟩).block ↔
          (∀ c, c ∈ s.deferColumns ∨ m.blockCount ≤ c → blocks' c = blocks c) ∧
          ∀ r ∈ s.peeled, regenerate cpu' m blocks' (s.peelRows r).recoveryId m.blockBytes.toNat =
            padded m inputFinalBytes inputBlocks r) := by
  obtain ⟨wf, _⟩ := chooseMatrix_wellformed hfuel h
  obtain ⟨n, fed, s, hfed, hs, hpeeled, _⟩ := PeelState.peeling_spec wf hdepth memory rowSeeds
  refine ⟨n, fed, s, hfed, hs, ?_⟩
  intro cpu cpu' inputFinalBytes inputBlocks blocks blocks' hinputs hsized hsized'
  have hsolved : Solved m n s inputFinalBytes inputBlocks blocks := ⟨wf, hpeeled, hinputs, hsized⟩
  constructor
  · rintro rfl
    refine ⟨fun c hc => hsolved.keeps hc, fun r hr => ?_⟩
    have hlength : (padded m inputFinalBytes inputBlocks r).length = m.blockBytes.toNat := by
      have := hsolved.input_le hr
      rw [padded, List.length_append, List.length_replicate]
      omega
    rw [hsolved.regenerates hr (Nat.le_refl _), ← hlength, List.take_length]
  · rintro ⟨hfound, hrows⟩
    exact (hsolved.agrees hsized' (fun c hc => (hfound c hc).symm) fun r hr => (hrows r hr).symm).symm

theorem substitute_unique_solution_five :
    ∃ m, chooseMatrix (fun _ => 7) (2 ^ 16) 9 2 = some (.ok m) ∧
      ∃ n fed s, PeelState.feedRows m 6 [0, 1, 2, 9, 4]
          (PeelState.start fun _ => ⟨0, 0, .result 0⟩) = some (n, fed) ∧
        fed.greedyPeeling m 6 6 = some s ∧
        ((fun _ => [0, 0]) = (substitute (.desktop true true) m s
              (fun r => [UInt8.ofNat r, 255]) 1 ⟨fun _ => [0, 0]⟩).block ↔
          (∀ c, c ∈ s.deferColumns ∨ m.blockCount ≤ c → ([0, 0] : Bytes) = [0, 0]) ∧
          ∀ r ∈ s.peeled, regenerate (.mobile false) m (fun _ => [0, 0])
              (s.peelRows r).recoveryId m.blockBytes.toNat =
            padded m 1 (fun r => [UInt8.ofNat r, 255]) r) := by
  have hkept : keptBlocks 9 2 = 5 := by decide
  rcases chooseMatrix_answers (fun _ => 7) (Nat.le_refl (2 ^ 16)) 9 2 with
    ⟨_, _, hwhy⟩ | ⟨m, hm, _, _, _, hbytes, hcount, _⟩
  · rw [hkept] at hwhy
    exact absurd hwhy (by decide)
  · have hwidth : m.blockBytes.toNat = 2 := by rw [hbytes]; rfl
    have hdepth : m.blockCount < 6 := by omega
    obtain ⟨n, fed, s, hfed, hs, hunique⟩ :=
      substitute_unique_solution (Nat.le_refl (2 ^ 16)) hm hdepth
        (fun _ => ⟨0, 0, .result 0⟩) [0, 1, 2, 9, 4]
    refine ⟨m, hm, n, fed, s, hfed, hs, hunique _ _ _ _ _ _ ⟨by omega, fun r _ => ?_⟩
      (fun _ => hwidth.symm) fun _ => hwidth.symm⟩
    rw [inputRow, hwidth]
    split <;> rfl

end Sankaku
