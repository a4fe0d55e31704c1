import Mathlib.Algebra.Group.Submonoid.BigOperators
import Sankaku.Lib.Forwarding
import Sankaku.Model.WirehairCompression
import Sankaku.Proofs.Substitution

namespace Sankaku

theorem xor_self_eq (f : Nat → XorByte) : f + f = 0 := by
  rw [← xor_sub, sub_self]

theorem or_bit (h : a < 2 ^ k) : a ||| 1 <<< k = a ^^^ 1 <<< k := by
  have hclear : a.testBit k = false := Nat.testBit_lt_two_pow h
  refine Nat.eq_of_testBit_eq fun i => ?_
  rw [Nat.testBit_or, Nat.testBit_xor, Nat.one_shiftLeft, Nat.testBit_two_pow]
  by_cases hi : k = i
  · subst hi
    simp [hclear]
  · simp [hi]

/-- Each place is changed once, whatever the order. -/
theorem foldl_update_once {places : List Nat} (hnodup : places.Nodup) (f : Nat → Nat → Nat)
    (t : Nat → Nat) (q : Nat) :
    places.foldl (fun t p => Function.update t p (f p (t p))) t q =
      if q ∈ places then f q (t q) else t q := by
  induction places generalizing t with
  | nil => rfl
  | cons p places ih =>
    obtain ⟨hp, hplaces⟩ := List.nodup_cons.mp hnodup
    rw [List.foldl_cons, ih hplaces]
    rcases eq_or_ne q p with rfl | hne
    · rw [if_neg hp, Function.update_self, if_pos List.mem_cons_self]
    · rw [Function.update_of_ne hne]
      simp [hne]

variable {rows : CodecRows} {x : Nat → Nat → XorByte}

/-- What the columns of a row of bits add up to. -/
def rowForm (rows : CodecRows) (x : Nat → Nat → XorByte) (geRow : Nat) : Nat → XorByte :=
  ((List.range rows.geCols).map fun j => if geRow.testBit j then x (rows.geColMap j) else 0).sum

theorem rowForm_zero : rowForm rows x 0 = 0 := by
  simp [rowForm]

theorem rowForm_xor (a b : Nat) :
    rowForm rows x (a ^^^ b) = rowForm rows x a + rowForm rows x b := by
  rw [rowForm, rowForm, rowForm, ← List.sum_map_add]
  congr 1
  refine List.map_congr_left fun j _ => ?_
  rw [Nat.testBit_xor]
  cases a.testBit j <;> cases b.testBit j <;> simp [xor_self_eq]

theorem rowForm_bit (hj : j < rows.geCols) : rowForm rows x (1 <<< j) = x (rows.geColMap j) := by
  have hrest : (((List.range rows.geCols).erase j).map fun i =>
      if (1 <<< j).testBit i then x (rows.geColMap i) else 0).sum = 0 := by
    refine List.sum_eq_zero fun v hv => ?_
    obtain ⟨i, hi, rfl⟩ := List.mem_map.mp hv
    have hne := (List.nodup_range.mem_erase_iff.mp hi).1
    rw [Nat.one_shiftLeft, Nat.testBit_two_pow_of_ne (Ne.symm hne), if_neg Bool.false_ne_true]
  rw [rowForm, ← List.sum_map_erase _ (List.mem_range.mpr hj), hrest, add_zero,
    Nat.one_shiftLeft, Nat.testBit_two_pow_self, if_pos rfl]

theorem geColMap_defer (hi : i < rows.peel.deferColumns.length) :
    rows.geColMap i = rows.peel.deferColumns[i] := by
  rw [CodecRows.geColMap, List.getD_eq_getElem?_getD, List.getElem?_append_left hi,
    List.getElem?_eq_getElem hi, Option.getD_some]

theorem geColMap_mix (hmix : mix < rows.matrix.mixCount) :
    rows.geColMap (rows.deferCount + mix) = rows.matrix.blockCount + mix := by
  rw [CodecRows.geColMap, CodecRows.deferCount, List.getD_eq_getElem?_getD,
    List.getElem?_append_right (Nat.le_add_right _ _), Nat.add_sub_cancel_left,
    List.getElem?_map, List.getElem?_range hmix]
  rfl

/-- The mixing columns of a row. -/
def mixSum (rows : CodecRows) (x : Nat → Nat → XorByte) (r : Nat) : Nat → XorByte :=
  ((rows.matrix.mix (rows.recoveryId r)).map fun mix => x (rows.matrix.blockCount + mix)).sum

theorem rowForm_flipMix (wf : rows.matrix.Wellformed) (r geRow : Nat) :
    rowForm rows x (flipMix rows r geRow) = rowForm rows x geRow + mixSum rows x r := by
  have hlt := wf.mix_lt (rows.recoveryId r)
  rw [flipMix, mixSum]
  generalize rows.matrix.mix (rows.recoveryId r) = mixes at hlt
  induction mixes generalizing geRow with
  | nil => rw [List.map_nil, List.sum_nil, add_zero]; rfl
  | cons mix mixes ih =>
    have hmix := hlt mix List.mem_cons_self
    have hcol : rows.deferCount + mix < rows.geCols := Nat.add_lt_add_left hmix _
    rw [List.foldl_cons, ih _ fun c hc => hlt c (List.mem_cons_of_mem mix hc), rowForm_xor,
      rowForm_bit hcol, geColMap_mix hmix, List.map_cons, List.sum_cons, add_assoc]

/-- The deferred columns of a row. -/
def deferSum (rows : CodecRows) (x : Nat → Nat → XorByte) (r : Nat) : Nat → XorByte :=
  ((rows.peel.deferColumns.filter fun c => r ∈ rows.peel.peelColRefs c).map x).sum

theorem rowForm_setBits (hnodup : ∀ c, (rows.peel.peelColRefs c).Nodup) (columns : List Nat)
    (k : Nat) (hmap : ∀ i (hi : i < columns.length), rows.geColMap (k + i) = columns[i])
    (hcols : k + columns.length ≤ rows.geCols) (compress : Nat → Nat) (r : Nat)
    (hlow : compress r < 2 ^ k) :
    rowForm rows x ((columns.zipIdx k).foldl (fun compress column =>
        setDeferredColumn rows compress column.1 column.2) compress r) =
      rowForm rows x (compress r) +
        ((columns.filter fun c => r ∈ rows.peel.peelColRefs c).map x).sum := by
  induction columns generalizing k compress with
  | nil => simp
  | cons c columns ih =>
    rw [List.length_cons] at hcols
    have hmap0 : rows.geColMap k = c := hmap 0 (Nat.zero_lt_succ _)
    have hset : setDeferredColumn rows compress c k r =
        if r ∈ rows.peel.peelColRefs c then compress r ||| 1 <<< k else compress r :=
      foldl_update_once (hnodup c) (fun _ g => g ||| 1 <<< k) compress r
    have hbit : 1 <<< k < 2 ^ (k + 1) := by
      rw [Nat.one_shiftLeft]
      exact Nat.pow_lt_pow_right (by decide) (Nat.lt_succ_self k)
    have hlow' : compress r < 2 ^ (k + 1) :=
      Nat.lt_trans hlow (Nat.pow_lt_pow_right (by decide) (Nat.lt_succ_self k))
    have hnext : setDeferredColumn rows compress c k r < 2 ^ (k + 1) := by
      rw [hset]
      split
      · exact Nat.or_lt_two_pow hlow' hbit
      · exact hlow'
    have hmap' : ∀ i (hi : i < columns.length), rows.geColMap (k + 1 + i) = columns[i] := by
      intro i hi
      have := hmap (i + 1) (Nat.succ_lt_succ hi)
      rwa [List.getElem_cons_succ, Nat.add_comm i 1, ← Nat.add_assoc] at this
    rw [List.zipIdx_cons, List.foldl_cons, ih (k + 1) hmap' (by omega) _ hnext, hset]
    by_cases hr : r ∈ rows.peel.peelColRefs c
    · rw [if_pos hr, or_bit hlow, rowForm_xor, rowForm_bit (by omega), hmap0,
        List.filter_cons_of_pos (by simpa using hr), List.map_cons, List.sum_cons, add_assoc]
    · rw [if_neg hr, List.filter_cons_of_neg (by simpa using hr)]

theorem rowForm_setDeferredColumns (hnodup : ∀ c, (rows.peel.peelColRefs c).Nodup) (r : Nat) :
    rowForm rows x (setDeferredColumns rows r) = deferSum rows x r := by
  have h := rowForm_setBits (x := x) hnodup rows.peel.deferColumns 0
    (fun i hi => by rw [Nat.zero_add]; exact geColMap_defer hi)
    (by rw [Nat.zero_add]; exact Nat.le_add_right _ _) (fun _ => 0) r (Nat.two_pow_pos 0)
  rw [rowForm_zero, zero_add] at h
  exact h

theorem rowForm_deferred (wf : rows.matrix.Wellformed)
    (hnodup : ∀ c, (rows.peel.peelColRefs c).Nodup) (honce : rows.peel.deferRows.Nodup) (r : Nat) :
    rowForm rows x (setMixingColumnsForDeferredRows rows (setDeferredColumns rows) r) =
      deferSum rows x r + if r ∈ rows.peel.deferRows then mixSum rows x r else 0 := by
  rw [setMixingColumnsForDeferredRows, foldl_update_once honce (flipMix rows)]
  split
  · rw [rowForm_flipMix wf, rowForm_setDeferredColumns hnodup]
  · rw [rowForm_setDeferredColumns hnodup, add_zero]

/-- The value of an input row. -/
def inputValue (rows : CodecRows) (r : Nat) : Nat → XorByte :=
  valueAt (inputRow rows.matrix rows.inputFinalBytes rows.inputBlocks r)

def blockWidth (rows : CodecRows) : Nat := rows.matrix.blockBytes.toNat

/-- The peeling is over, and its rows have their inputs. -/
structure CodecRows.Settled (rows : CodecRows) (n : Nat) : Prop where
  wf : rows.matrix.Wellformed
  count_le : rows.matrix.blockCount ≤ wirehairMaxN
  ready : PeelState.Ready rows.matrix n rows.peel
  peeled : PeelState.Peeled rows.matrix n rows.peel
  inputs : Inputs rows.matrix rows.inputFinalBytes rows.inputBlocks (List.range n)

/-- The rows that refer to the column of a peeled one. -/
def referring (rows : CodecRows) (p : Nat) : List Nat := rows.peel.peelColRefs (rows.peel.solved p)

namespace CodecRows.Settled
variable {n : Nat} (h : rows.Settled n)
include h

theorem mem_referring (p q : Nat) : q ∈ referring rows p ↔
    q < n ∧ rows.peel.solved p ∈ rows.matrix.columns (rows.recoveryId q) :=
  h.ready.inv.refs _ q

theorem peeled_lt (hp : p ∈ rows.peel.peeled) : p < n :=
  h.ready.inv.settled_lt p (Or.inl hp)

theorem peeled_nodup : rows.peel.peeled.Nodup := (List.nodup_append.mp h.ready.inv.once).1

theorem deferRows_nodup : rows.peel.deferRows.Nodup := (List.nodup_append.mp h.ready.inv.once).2.1

theorem not_deferred (hp : p ∈ rows.peel.peeled) : p ∉ rows.peel.deferRows := fun hd =>
  (List.nodup_append.mp h.ready.inv.once).2.2 p hp p hd rfl

theorem peeled_or_deferred (hq : q < n) : q ∈ rows.peel.peeled ∨ q ∈ rows.peel.deferRows :=
  List.mem_append.mp (h.peeled.rows.mem_iff.mpr (List.mem_range.mpr hq))

theorem solved_inj (hp : p ∈ rows.peel.peeled) (hq : q ∈ rows.peel.peeled)
    (heq : rows.peel.solved p = rows.peel.solved q) : p = q :=
  List.inj_on_of_nodup_map h.ready.solved_nodup hp hq heq

/-- Peeled rows refer only to the columns of rows before them. -/
theorem forward : Forwarding.Forward (referring rows) rows.peel.peeled where
  nodup _ _ := h.ready.inv.refs_nodup _
  later := by
    have horder := (h.peeled.triangular h.wf rows.inputFinalBytes rows.inputBlocks).order
    rw [List.pairwise_map] at horder
    refine horder.imp fun {p q} hnot hp => hnot ?_
    exact List.mem_append_left _ ((h.mem_referring q p).mp hp).2

theorem peelColumn_peeled (hp : p ∈ rows.peel.peeled) :
    rows.peelColumn p = rows.peel.solved p ∧ rows.peel.solved p ≠ listTerm := by
  have hlt : rows.peel.solved p < rows.matrix.blockCount :=
    h.wf.columns_lt _ _ (h.peeled.solves p hp).1
  have hmax := h.count_le
  have hlimits : wirehairMaxN = 64000 ∧ listTerm = 65535 := ⟨rfl, rfl⟩
  exact ⟨if_neg (h.not_deferred hp), by omega⟩

theorem copyInput_eq (hr : r < n) :
    copyInput rows r = spread (blockWidth rows) (inputValue rows r) := by
  have hlength := h.inputs.length r (List.mem_range.mpr hr)
  rw [copyInput, inputValue]
  by_cases hlast : r = rows.matrix.blockCount - 1
  · rw [if_pos hlast] at hlength
    have hle := h.inputs.final_le
    rw [if_neg (not_not.mpr hlast), blockWidth, spread_padded _ (by rw [hlength]; exact hle),
      hlength, inputRow, if_pos hlast]
  · rw [if_neg hlast] at hlength
    rw [if_pos hlast, blockWidth, ← hlength, spread_valueAt, inputRow, if_neg hlast]

theorem addInput_eq (cpu : Cpu) (hr : r < n) (f : Nat → XorByte) :
    addInput cpu rows (spread (blockWidth rows) f) r =
      spread (blockWidth rows) (f + inputValue rows r) :=
  addset_input cpu h.inputs (List.mem_range.mpr hr) f

end CodecRows.Settled

/-- With the peeled rows of `todo` still to come. -/
structure Diagonal.Stands (rows : CodecRows) (x : Nat → Nat → XorByte) (todo : List Nat)
    (d : Diagonal) (forms values : Nat → Nat → XorByte) : Prop where
  bits : ∀ q, rowForm rows x (d.compress q) + (if q ∈ todo then mixSum rows x q else 0) = forms q
  copied : ∀ q ∈ rows.peel.peeled, q ∉ todo ∨ d.isCopied q = true →
    d.blocks (rows.peel.solved q) = spread (blockWidth rows) (values q)
  fresh : ∀ q ∈ rows.peel.peeled, q ∈ todo → d.isCopied q = false → values q = inputValue rows q

namespace Diagonal.Stands
variable {n : Nat} {d : Diagonal} {todo : List Nat} {forms values : Nat → Nat → XorByte}

theorem start (h : rows.Settled n) (hd : Stands rows x (p :: todo) d forms values)
    (hp : p ∈ rows.peel.peeled) (hnot : p ∉ todo) :
    Stands rows x todo (d.startRow rows p) forms values where
  bits q := by
    have hq := hd.bits q
    rw [startRow]
    dsimp only
    rcases eq_or_ne q p with rfl | hne
    · rw [if_pos List.mem_cons_self] at hq
      rw [Function.update_self, rowForm_flipMix h.wf, if_neg hnot, add_zero]
      exact hq
    · rw [Function.update_of_ne hne]
      simpa [hne] using hq
  copied q hq hdone := by
    have hsolved := (h.peelColumn_peeled hp).1
    have hkept : q ≠ p → q ∉ p :: todo ∨ d.isCopied q = true := fun hne =>
      hdone.imp_left fun hq => by simp [hne, hq]
    rw [startRow]
    dsimp only
    cases hcopied : d.isCopied p with
    | true =>
      rw [if_pos rfl]
      rcases eq_or_ne q p with rfl | hne
      · exact hd.copied q hq (Or.inr hcopied)
      · exact hd.copied q hq (hkept hne)
    | false =>
      rw [if_neg Bool.false_ne_true, hsolved]
      rcases eq_or_ne q p with rfl | hne
      · rw [Function.update_self, h.copyInput_eq (h.peeled_lt hq),
          hd.fresh q hq List.mem_cons_self hcopied]
      · rw [Function.update_of_ne fun heq => hne (h.solved_inj hq hp heq)]
        exact hd.copied q hq (hkept hne)
  fresh q hq htodo hcopied := hd.fresh q hq (List.mem_cons_of_mem p htodo) hcopied

/-- A reference to a peeled row, or one more to it. -/
theorem visit (h : rows.Settled n) (cpu : Cpu) (hd : Stands rows x todo d forms values)
    (hp : p ∈ rows.peel.peeled) (hnot : p ∉ todo) (hq : q < n)
    (htodo : q ∈ rows.peel.peeled → q ≠ p → q ∈ todo) :
    Stands rows x todo (d.visitReference cpu rows p q)
      (if q = p then forms else Function.update forms q (forms q + forms p))
      (if q = p then values else Function.update values q (values q + values p)) := by
  rw [visitReference]
  split
  · exact hd
  rename_i hne
  have hpform : rowForm rows x (d.compress p) = forms p := by
    have := hd.bits p
    rwa [if_neg hnot, add_zero] at this
  have hbits : ∀ r, rowForm rows x
        (Function.update d.compress q (d.compress q ^^^ d.compress p) r) +
      (if r ∈ todo then mixSum rows x r else 0) =
        Function.update forms q (forms q + forms p) r := by
    intro r
    rcases eq_or_ne r q with rfl | hrq
    · rw [Function.update_self, Function.update_self, rowForm_xor, hpform, ← hd.bits r,
        add_right_comm]
    · rw [Function.update_of_ne hrq, Function.update_of_ne hrq]
      exact hd.bits r
  obtain ⟨hpcol, _⟩ := h.peelColumn_peeled hp
  have hsrc := hd.copied p hp (Or.inl hnot)
  rcases h.peeled_or_deferred hq with hpeeled | hdeferred
  · -- Only rows behind `p` refer to its column.
    have hqtodo := htodo hpeeled hne
    obtain ⟨hqcol, hterm⟩ := h.peelColumn_peeled hpeeled
    have hother : ∀ r ∈ rows.peel.peeled, r ≠ q → rows.peel.solved r ≠ rows.peel.solved q :=
      fun r hr hrq heq => hrq (h.solved_inj hr hpeeled heq)
    simp only [hqcol, hpcol, hsrc, if_neg hterm]
    split
    · rename_i hcopied
      refine ⟨hbits, fun r hr hdone => ?_, fun r hr hrtodo hfresh => ?_⟩
      · dsimp only
        rcases eq_or_ne r q with rfl | hrq
        · rw [Function.update_self, Function.update_self,
            hd.copied r hr (Or.inr hcopied), addMem_spread]
        · rw [Function.update_of_ne (hother r hr hrq), Function.update_of_ne hrq]
          exact hd.copied r hr hdone
      · have hrq : r ≠ q := fun heq => by rw [heq, hcopied] at hfresh; cases hfresh
        rw [Function.update_of_ne hrq]
        exact hd.fresh r hr hrtodo hfresh
    · rename_i hcopied
      refine ⟨hbits, fun r hr hdone => ?_, fun r hr hrtodo hfresh => ?_⟩
      · dsimp only at hdone ⊢
        rcases eq_or_ne r q with rfl | hrq
        · rw [Function.update_self, Function.update_self, h.addInput_eq cpu hq,
            hd.fresh r hr hqtodo (Bool.eq_false_iff.mpr hcopied), add_comm]
        · rw [Function.update_of_ne hrq] at hdone
          rw [Function.update_of_ne (hother r hr hrq), Function.update_of_ne hrq]
          exact hd.copied r hr hdone
      · dsimp only at hfresh
        have hrq : r ≠ q := fun heq => by
          rw [heq, Function.update_self] at hfresh
          cases hfresh
        rw [Function.update_of_ne hrq] at hfresh ⊢
        exact hd.fresh r hr hrtodo hfresh
  · have hterm : rows.peelColumn q = listTerm := if_pos hdeferred
    have hother : ∀ r ∈ rows.peel.peeled, r ≠ q := fun r hr heq =>
      h.not_deferred hr (heq ▸ hdeferred)
    simp only [hterm, if_true]
    refine ⟨hbits, fun r hr hdone => ?_, fun r hr hrtodo hfresh => ?_⟩
    · rw [Function.update_of_ne (hother r hr)]
      exact hd.copied r hr hdone
    · rw [Function.update_of_ne (hother r hr)]
      exact hd.fresh r hr hrtodo hfresh

open Forwarding in
theorem passed (h : rows.Settled n) (cpu : Cpu) (hd : Stands rows x todo d forms values)
    (hp : p ∈ rows.peel.peeled) (hnot : p ∉ todo) (targets : List Nat)
    (htargets : ∀ q ∈ targets, q < n ∧ (q ∈ rows.peel.peeled → q ≠ p → q ∈ todo)) :
    Stands rows x todo (targets.foldl (visitReference cpu rows p) d) (pass p targets forms)
      (pass p targets values) := by
  induction targets generalizing d forms values with
  | nil => exact hd
  | cons q targets ih =>
    obtain ⟨hq, htodo⟩ := htargets q List.mem_cons_self
    exact ih (hd.visit h cpu hp hnot hq htodo) fun r hr =>
      htargets r (List.mem_cons_of_mem q hr)

open Forwarding in
theorem run (h : rows.Settled n) (cpu : Cpu) (done : List Nat)
    (hsplit : rows.peel.peeled = done ++ todo)
    (hd : Stands rows x todo d forms values) :
    Stands rows x [] (todo.foldl (visitRow cpu rows) d) (passAll (referring rows) todo forms)
      (passAll (referring rows) todo values) := by
  induction todo generalizing done d forms values with
  | nil => exact hd
  | cons p todo ih =>
    have hp : p ∈ rows.peel.peeled := by rw [hsplit]; simp
    have hnodup := h.peeled_nodup
    have hlater := h.forward.later
    rw [hsplit] at hnodup hlater
    have hnot : p ∉ todo := (List.nodup_cons.mp (List.nodup_append.mp hnodup).2.1).1
    have htargets : ∀ q ∈ referring rows p,
        q < n ∧ (q ∈ rows.peel.peeled → q ≠ p → q ∈ todo) := by
      refine fun q hq => ⟨((h.mem_referring p q).mp hq).1, fun hpeeled hne => ?_⟩
      rw [hsplit] at hpeeled
      rcases List.mem_append.mp hpeeled with hdone | hrest
      · exact absurd hq ((List.pairwise_append.mp hlater).2.2 q hdone p List.mem_cons_self)
      · exact (List.mem_cons.mp hrest).resolve_left hne
    have hvisited := (hd.start h hp hnot).passed h cpu hp hnot (referring rows p) htargets
    have hrow : d.visitRow cpu rows p =
        (referring rows p).foldl (visitReference cpu rows p) (d.startRow rows p) := by
      rw [visitRow, (h.peelColumn_peeled hp).1]
      rfl
    rw [List.foldl_cons, hrow]
    exact ih (done ++ [p]) (by rw [hsplit, List.append_assoc]; rfl) hvisited

end Diagonal.Stands

/-- What a row of bits and a block start with. -/
def startForm (rows : CodecRows) (x : Nat → Nat → XorByte) (r : Nat) : Nat → XorByte :=
  deferSum rows x r + (if r ∈ rows.peel.deferRows then mixSum rows x r else 0) +
    if r ∈ rows.peel.peeled then mixSum rows x r else 0

def startValue (rows : CodecRows) (r : Nat) : Nat → XorByte :=
  if r ∈ rows.peel.peeled then inputValue rows r else 0

/-- What they have come to when the peeled rows have been passed on. -/
def finalForm (rows : CodecRows) (x : Nat → Nat → XorByte) : Nat → Nat → XorByte :=
  Forwarding.passAll (referring rows) rows.peel.peeled (startForm rows x)

def finalValue (rows : CodecRows) : Nat → Nat → XorByte :=
  Forwarding.passAll (referring rows) rows.peel.peeled (startValue rows)

/-- The peeled rows that refer to a column of this one. -/
def peeledIn (rows : CodecRows) (r : Nat) : List Nat :=
  rows.peel.peeled.filter fun p => r ∈ referring rows p

namespace CodecRows.Settled
variable {n : Nat} (h : rows.Settled n)
include h

theorem compressRows_stands (cpu : Cpu) (x : Nat → Nat → XorByte) (blocks : Nat → Bytes) :
    Diagonal.Stands rows x [] (compressRows cpu rows blocks) (finalForm rows x)
      (finalValue rows) := by
  refine Diagonal.Stands.run h cpu [] rfl ⟨fun q => ?_, fun q hq hdone => ?_,
    fun q hq _ _ => if_pos hq⟩
  · rw [rowForm_deferred h.wf h.ready.inv.refs_nodup h.deferRows_nodup]
    rfl
  · exact absurd hdone (by simp [hq])

theorem startForm_eq (hr : r < n) : startForm rows x r = deferSum rows x r + mixSum rows x r := by
  rw [startForm]
  rcases h.peeled_or_deferred hr with hpeeled | hdeferred
  · rw [if_neg (h.not_deferred hpeeled), if_pos hpeeled, add_zero]
  · rw [if_pos hdeferred, if_neg fun hpeeled => h.not_deferred hpeeled hdeferred, add_zero]

/-- The columns of a row, the peeled ones first. -/
theorem columns_perm (hr : r < n) :
    (rows.matrix.columns (rows.recoveryId r)).Perm
      ((peeledIn rows r).map rows.peel.solved ++
        rows.peel.deferColumns.filter fun c => r ∈ rows.peel.peelColRefs c) := by
  have hall := h.peeled.columns
  have hsplit : (peeledIn rows r).map rows.peel.solved ++
        (rows.peel.deferColumns.filter fun c => r ∈ rows.peel.peelColRefs c) =
      (rows.peel.peeled.map rows.peel.solved ++ rows.peel.deferColumns).filter
        fun c => r ∈ rows.peel.peelColRefs c := by
    rw [List.filter_append, List.filter_map]
    rfl
  rw [hsplit]
  refine (List.perm_ext_iff_of_nodup (h.wf.columns_nodup _)
    ((hall.nodup_iff.mpr List.nodup_range).filter _)).mpr fun c => ?_
  rw [List.mem_filter, decide_eq_true_eq, h.ready.inv.refs c r, hall.mem_iff, List.mem_range]
  exact ⟨fun hc => ⟨h.wf.columns_lt _ c hc, hr, hc⟩, fun hc => hc.2.2⟩

/-- What a row adds up to. -/
theorem row_sum (hr : r < n) (x : Nat → Nat → XorByte) :
    rowSum rows.matrix x (rows.recoveryId r) =
      ((peeledIn rows r).map fun p => x (rows.peel.solved p)).sum + startForm rows x r := by
  have hperm := ((h.columns_perm hr).map x).sum_eq
  rw [rowSum, rowColumns, List.map_append, List.sum_append, hperm, List.map_append,
    List.sum_append, List.map_map, List.map_map, h.startForm_eq hr, add_assoc]
  rfl

theorem isPeeled_solved (hp : p ∈ rows.peel.peeled) : rows.isPeeled (rows.peel.solved p) = true :=
  decide_eq_true (h.ready.result hp).2.2

theorem isPeeled_deferred (hc : c ∈ rows.peel.deferColumns) : rows.isPeeled c = false := by
  have hmark : (rows.peel.peelCols c).mark = .defer := (h.ready.inv.deferred c).mpr hc
  rw [CodecRows.isPeeled, hmark]
  rfl

theorem peeledColumns_perm (hr : r < n) :
    ((rows.matrix.columns (rows.recoveryId r)).filter rows.isPeeled).Perm
      ((peeledIn rows r).map rows.peel.solved) := by
  have hpeeled : ((peeledIn rows r).map rows.peel.solved).filter rows.isPeeled =
      (peeledIn rows r).map rows.peel.solved := by
    refine List.filter_eq_self.mpr fun c hc => ?_
    obtain ⟨p, hp, rfl⟩ := List.mem_map.mp hc
    exact h.isPeeled_solved (List.mem_filter.mp hp).1
  have hdeferred : (rows.peel.deferColumns.filter fun c =>
      r ∈ rows.peel.peelColRefs c).filter rows.isPeeled = [] := by
    refine List.filter_eq_nil_iff.mpr fun c hc => ?_
    rw [h.isPeeled_deferred (List.mem_filter.mp hc).1]
    exact Bool.false_ne_true
  have hperm := (h.columns_perm hr).filter rows.isPeeled
  rwa [List.filter_append, hpeeled, hdeferred, List.append_nil] at hperm

theorem peeledIn_self (hr : r ∈ rows.peel.peeled) (y : Nat → Nat → XorByte) :
    ((peeledIn rows r).map y).sum =
      y r + ((Forwarding.sources (referring rows) rows.peel.peeled r).map y).sum := by
  have hself : r ∈ peeledIn rows r := by
    refine List.mem_filter.mpr ⟨hr, decide_eq_true ?_⟩
    exact (h.mem_referring r r).mpr ⟨h.peeled_lt hr, (h.peeled.solves r hr).1⟩
  have hothers : (peeledIn rows r).erase r =
      Forwarding.sources (referring rows) rows.peel.peeled r := by
    rw [peeledIn, (h.peeled_nodup.filter _).erase_eq_filter, List.filter_filter,
      Forwarding.sources]
    refine List.filter_congr fun p _ => ?_
    rcases eq_or_ne p r with rfl | hne
    · simp
    · simp [hne, hne.symm]
  rw [← List.sum_map_erase y hself, hothers]

theorem peeledIn_other (hr : r ∈ rows.peel.deferRows) :
    peeledIn rows r = Forwarding.sources (referring rows) rows.peel.peeled r := by
  refine List.filter_congr fun p hp => ?_
  have hne : r ≠ p := fun heq => h.not_deferred hp (heq ▸ hr)
  simp [hne]

/-- Compression solves the peeled rows for their columns. -/
theorem peeled_hold_iff (x : Nat → Nat → XorByte) :
    (∀ r ∈ rows.peel.peeled, rowSum rows.matrix x (rows.recoveryId r) = inputValue rows r) ↔
      ∀ r ∈ rows.peel.peeled,
        x (rows.peel.solved r) = finalForm rows x r + finalValue rows r := by
  have hfinal : finalForm rows x + finalValue rows =
      Forwarding.passAll (referring rows) rows.peel.peeled (startForm rows x + startValue rows) :=
    (Forwarding.passAll_add h.forward _ _).symm
  have hsolve := Forwarding.eq_passAll_iff h.forward (fun p => x (rows.peel.solved p))
    (startForm rows x + startValue rows)
  rw [← hfinal] at hsolve
  refine Iff.trans (forall₂_congr fun r hr => ?_) hsolve
  have hstart : startValue rows r = inputValue rows r := if_pos hr
  rw [h.row_sum (h.peeled_lt hr), h.peeledIn_self hr fun p => x (rows.peel.solved p), Pi.add_apply,
    hstart, add_assoc, ← eq_sub_iff_add_eq, xor_sub]
  refine iff_of_eq (congrArg _ ?_)
  abel

/-- Where the peeled columns are put in, a deferred row is its compressed one. -/
theorem deferred_holds_iff (hr : r ∈ rows.peel.deferRows)
    (hx : ∀ p ∈ rows.peel.peeled,
      x (rows.peel.solved p) = finalForm rows x p + finalValue rows p) :
    rowSum rows.matrix x (rows.recoveryId r) = inputValue rows r ↔
      finalForm rows x r = inputValue rows r + ((peeledIn rows r).map (finalValue rows)).sum := by
  have hlt : r < n := h.ready.inv.settled_lt r (Or.inr hr)
  have hparts : ((peeledIn rows r).map fun p => x (rows.peel.solved p)).sum =
      ((peeledIn rows r).map (finalForm rows x)).sum +
        ((peeledIn rows r).map (finalValue rows)).sum := by
    rw [← List.sum_map_add]
    exact congrArg _ (List.map_congr_left fun p hp => hx p (List.mem_filter.mp hp).1)
  have hform : finalForm rows x r =
      startForm rows x r + ((peeledIn rows r).map (finalForm rows x)).sum := by
    rw [h.peeledIn_other hr]
    exact Forwarding.passAll_eq h.forward _ r
  rw [h.row_sum hlt, hparts, hform, ← xor_sub (inputValue rows r), eq_sub_iff_add_eq,
    add_right_comm, add_comm (startForm rows x r), add_assoc, add_comm (startForm rows x r),
    ← add_assoc]

end CodecRows.Settled

/-- Values of a block: nothing behind its end. -/
def Within (w : Nat) : AddSubmonoid (Nat → XorByte) where
  carrier := { f | ∀ i, w ≤ i → f i = 0 }
  zero_mem' _ _ := rfl
  add_mem' {f g} hf hg i hi := by rw [Pi.add_apply, hf i hi, hg i hi, add_zero]

theorem valueAt_within (h : block.length ≤ w) : valueAt block ∈ Within w := fun _ hi =>
  XorByte.ext (List.getD_eq_default _ _ (Nat.le_trans h hi))

theorem spread_eq_iff (hf : f ∈ Within w) (hg : g ∈ Within w) :
    spread w f = spread w g ↔ f = g := by
  refine ⟨fun h => funext fun i => ?_, fun h => h ▸ rfl⟩
  rcases Nat.lt_or_ge i w with hlt | hge
  · exact spread_inj h hlt
  · rw [hf i hge, hg i hge]

theorem valueAt_spread (hf : f ∈ Within w) : valueAt (spread w f) = f := by
  refine (spread_eq_iff (valueAt_within (Nat.le_of_eq (spread_length w f))) hf).mp ?_
  have := spread_valueAt (spread w f)
  rwa [spread_length] at this

theorem rowForm_within (hx : ∀ c, x c ∈ Within w) (geRow : Nat) :
    rowForm rows x geRow ∈ Within w := by
  refine list_sum_mem fun v hv => ?_
  obtain ⟨j, _, rfl⟩ := List.mem_map.mp hv
  split
  · exact hx _
  · exact zero_mem _

/-- The block that the columns of a row of bits add up to. -/
def geSum (rows : CodecRows) (blocks : Nat → Bytes) (geRow : Nat) : Bytes :=
  spread (blockWidth rows) (rowForm rows (fun c => valueAt (blocks c)) geRow)

namespace CodecRows.Settled
variable {n : Nat} (h : rows.Settled n)
include h

theorem input_le (hr : r < n) :
    (inputRow rows.matrix rows.inputFinalBytes rows.inputBlocks r).length ≤ blockWidth rows := by
  rw [h.inputs.length r (List.mem_range.mpr hr)]
  split
  · exact h.inputs.final_le
  · exact Nat.le_refl _

theorem finalValue_within (r : Nat) : finalValue rows r ∈ Within (blockWidth rows) := by
  refine Forwarding.passAll_mem h.forward _ (fun q => ?_) r
  rw [startValue]
  split
  · rename_i hq
    exact valueAt_within (h.input_le (h.peeled_lt hq))
  · exact zero_mem _

/-- The input of a row and the blocks of its peeled columns. -/
theorem initialValue_eq (cpu : Cpu) (hr : r < n)
    (hblocks : ∀ p ∈ rows.peel.peeled,
      blocks (rows.peel.solved p) = spread (blockWidth rows) (finalValue rows p)) :
    initialValue cpu rows blocks r = spread (blockWidth rows)
      (inputValue rows r + ((peeledIn rows r).map (finalValue rows)).sum) := by
  let value : Nat → Nat → XorByte := fun c =>
    finalValue rows (rows.peel.peelCols c).weight2RefsOrPeelRow
  have hperm := h.peeledColumns_perm hr
  have hsum : (((rows.matrix.columns (rows.recoveryId r)).filter rows.isPeeled).map value).sum =
      ((peeledIn rows r).map (finalValue rows)).sum := by
    rw [(hperm.map value).sum_eq, List.map_map]
    refine congrArg _ (List.map_congr_left fun p hp => ?_)
    exact congrArg (finalValue rows) (h.peeled.solves p (List.mem_filter.mp hp).1).2
  have hvalue : ∀ c ∈ (rows.matrix.columns (rows.recoveryId r)).filter rows.isPeeled,
      blocks c = spread (blockWidth rows) (value c) := by
    intro c hc
    obtain ⟨p, hp, rfl⟩ := List.mem_map.mp (hperm.mem_iff.mp hc)
    have hmem := (List.mem_filter.mp hp).1
    rw [hblocks p hmem]
    exact congrArg (fun q => spread _ (finalValue rows q)) (h.peeled.solves p hmem).2.symm
  have hadd : ∀ (columns : List Nat) (f : Nat → XorByte),
      (∀ c ∈ columns, blocks c = spread (blockWidth rows) (value c)) →
      columns.foldl (fun dest c => gf256AddMem cpu (dest.zip (blocks c)))
          (spread (blockWidth rows) f) =
        spread (blockWidth rows) (f + (columns.map value).sum) := by
    intro columns f hcolumns
    rw [← foldl_addMem cpu]
    exact List.foldl_ext _ _ _ fun _ c hc => by rw [hcolumns c hc]
  have hcopy := h.copyInput_eq hr
  rw [← hsum, initialValue]
  generalize (rows.matrix.columns (rows.recoveryId r)).filter rows.isPeeled = peels at hvalue
  dsimp only
  by_cases hlast : r = rows.matrix.blockCount - 1
  · rw [if_pos hlast, hcopy, hadd peels _ hvalue]
  · have hcombo : rows.inputBlocks r = copyInput rows r := (if_pos hlast).symm
    rw [if_neg hlast, hcombo, hcopy]
    cases peels with
    | nil => rw [List.map_nil, List.sum_nil, add_zero]
    | cons c columns =>
      have htail : ∀ d ∈ columns, blocks d = spread (blockWidth rows) (value d) := fun d hd =>
        hvalue d (List.mem_cons_of_mem c hd)
      dsimp only
      rw [hvalue c List.mem_cons_self, addsetMem_spread, hadd columns _ htail, List.map_cons,
        List.sum_cons, add_assoc]

end CodecRows.Settled

theorem foldl_place_other (f : Nat → Nat) (base : Nat) (places : List Nat) (k : Nat)
    (t : Nat → Nat) (hj : j < base + k) :
    (places.zipIdx k).foldl (fun t p => Function.update t (base + p.2) (f p.1)) t j = t j := by
  induction places generalizing k t with
  | nil => rfl
  | cons p places ih =>
    rw [List.zipIdx_cons, List.foldl_cons, ih (k + 1) _ (by omega), Function.update_of_ne (by omega)]

theorem foldl_place (f : Nat → Nat) (base : Nat) (places : List Nat) (k : Nat) (t : Nat → Nat)
    (hi : i < places.length) :
    (places.zipIdx k).foldl (fun t p => Function.update t (base + p.2) (f p.1)) t (base + (k + i)) =
      f places[i] := by
  induction places generalizing k t i with
  | nil => cases hi
  | cons p places ih =>
    rw [List.zipIdx_cons, List.foldl_cons]
    cases i with
    | zero =>
      rw [foldl_place_other f base places (k + 1) _ (by omega), Nat.add_zero, Function.update_self,
        List.getElem_cons_zero]
    | succ i =>
      rw [← Nat.add_assoc k, Nat.add_right_comm k, ih (k + 1) _ (Nat.lt_of_succ_lt_succ hi),
        List.getElem_cons_succ]

theorem copyDeferredRows_row (compress geMatrix : Nat → Nat)
    (hi : i < rows.peel.deferRows.length) :
    copyDeferredRows rows compress geMatrix (rows.matrix.denseCount + i) =
      compress rows.peel.deferRows[i] := by
  have h := foldl_place compress rows.matrix.denseCount rows.peel.deferRows 0 geMatrix hi
  rwa [Nat.zero_add] at h

/-- The rows hold exactly where the peeled columns are what `PeelDiagonal` says
and the others satisfy what `CopyDeferredRows` hands on. -/
theorem CodecRows.Settled.rows_hold_iff {n : Nat} (h : rows.Settled n) (cpu cpu' : Cpu)
    (blocks : Nat → Bytes) (geMatrix : Nat → Nat)
    (hsized : ∀ c, (blocks' c).length = blockWidth rows) :
    (∀ r < n, regenerate cpu' rows.matrix blocks' (rows.recoveryId r) (blockWidth rows) =
        padded rows.matrix rows.inputFinalBytes rows.inputBlocks r) ↔
      (∀ r ∈ rows.peel.peeled, blocks' (rows.peel.solved r) =
        gf256AddMem cpu' ((geSum rows blocks' ((compressRows cpu rows blocks).compress r)).zip
          ((compressRows cpu rows blocks).blocks (rows.peel.solved r)))) ∧
      ∀ i (hi : i < rows.peel.deferRows.length),
        geSum rows blocks' (copyDeferredRows rows (compressRows cpu rows blocks).compress geMatrix
          (rows.matrix.denseCount + i)) =
        initialValue cpu rows (compressRows cpu rows blocks).blocks rows.peel.deferRows[i] := by
  let x : Nat → Nat → XorByte := fun c => valueAt (blocks' c)
  have hd := h.compressRows_stands cpu x blocks
  generalize compressRows cpu rows blocks = d at hd
  have hx : ∀ c, x c ∈ Within (blockWidth rows) := fun c => valueAt_within (Nat.le_of_eq (hsized c))
  have hform : ∀ r, rowForm rows x (d.compress r) = finalForm rows x r := fun r => by
    have := hd.bits r
    rwa [if_neg List.not_mem_nil, add_zero] at this
  have hblock : ∀ p ∈ rows.peel.peeled,
      d.blocks (rows.peel.solved p) = spread (blockWidth rows) (finalValue rows p) :=
    fun p hp => hd.copied p hp (Or.inl List.not_mem_nil)
  have hwithin : ∀ r, finalForm rows x r ∈ Within (blockWidth rows) := fun r =>
    hform r ▸ rowForm_within hx _
  have hrow : ∀ r < n, (regenerate cpu' rows.matrix blocks' (rows.recoveryId r) (blockWidth rows) =
      padded rows.matrix rows.inputFinalBytes rows.inputBlocks r ↔
        rowSum rows.matrix x (rows.recoveryId r) = inputValue rows r) := fun r hr =>
    (equation_holds_iff h.wf (s := rows.peel) hsized (h.input_le hr)).symm
  have hpeeled : ∀ r ∈ rows.peel.peeled, (blocks' (rows.peel.solved r) =
      gf256AddMem cpu' ((geSum rows blocks' (d.compress r)).zip (d.blocks (rows.peel.solved r))) ↔
        x (rows.peel.solved r) = finalForm rows x r + finalValue rows r) := by
    intro r hr
    have hsum : geSum rows blocks' (d.compress r) =
        spread (blockWidth rows) (finalForm rows x r) := congrArg (spread _) (hform r)
    rw [hsum, hblock r hr, addMem_spread, spread_blocks hsized,
      spread_eq_iff (hx _) (add_mem (hwithin r) (h.finalValue_within r))]
  have hdeferred : ∀ i (hi : i < rows.peel.deferRows.length),
      (geSum rows blocks' (copyDeferredRows rows d.compress geMatrix
          (rows.matrix.denseCount + i)) =
        initialValue cpu rows d.blocks rows.peel.deferRows[i] ↔
      finalForm rows x rows.peel.deferRows[i] = inputValue rows rows.peel.deferRows[i] +
        ((peeledIn rows rows.peel.deferRows[i]).map (finalValue rows)).sum) := by
    intro i hi
    have hr := h.ready.inv.settled_lt _ (Or.inr (List.getElem_mem hi))
    rw [copyDeferredRows_row _ _ hi, h.initialValue_eq cpu hr hblock, geSum, hform]
    refine spread_eq_iff (hwithin _) (add_mem (valueAt_within (h.input_le hr)) ?_)
    refine list_sum_mem fun v hv => ?_
    obtain ⟨p, _, rfl⟩ := List.mem_map.mp hv
    exact h.finalValue_within p
  constructor
  · intro hall
    have hrows := fun r hr => (hrow r hr).mp (hall r hr)
    have hsolved := (h.peeled_hold_iff x).mp fun r hr => hrows r (h.peeled_lt hr)
    refine ⟨fun r hr => (hpeeled r hr).mpr (hsolved r hr), fun i hi => (hdeferred i hi).mpr ?_⟩
    have hmem := List.getElem_mem hi
    exact (h.deferred_holds_iff hmem hsolved).mp
      (hrows _ (h.ready.inv.settled_lt _ (Or.inr hmem)))
  · rintro ⟨hleft, hright⟩ r hr
    have hsolved := fun r hr => (hpeeled r hr).mp (hleft r hr)
    rw [hrow r hr]
    rcases h.peeled_or_deferred hr with hp | hdefer
    · exact (h.peeled_hold_iff x).mpr hsolved r hp
    · obtain ⟨i, hi, rfl⟩ := List.mem_iff_getElem.mp hdefer
      exact (h.deferred_holds_iff hdefer hsolved).mpr ((hdeferred i hi).mp (hright i hi))

/-- After any run of the peeling, compression neither loses a solution nor adds
one. -/
theorem compression_equivalent (hfuel : 2 ^ 16 ≤ fuel)
    (h : chooseMatrix getPeelSeed fuel messageBytes blockBytes = some (.ok m))
    (hdepth : m.blockCount < depth) (memory : Nat → PeelRow) (rowSeeds : List UInt32) :
    ∃ n fed s, PeelState.feedRows m depth rowSeeds (PeelState.start memory) = some (n, fed) ∧
      fed.greedyPeeling m depth depth = some s ∧
      ∀ (cpu cpu' : Cpu) (rows : CodecRows) (blocks blocks' : Nat → Bytes) (geMatrix : Nat → Nat),
        rows.matrix = m → rows.peel = s →
        Inputs m rows.inputFinalBytes rows.inputBlocks (List.range n) →
        (∀ c, (blocks' c).length = m.blockBytes.toNat) →
        ((∀ r < n, regenerate cpu' m blocks' (s.peelRows r).recoveryId m.blockBytes.toNat =
            padded m rows.inputFinalBytes rows.inputBlocks r) ↔
          (∀ r ∈ s.peeled, blocks' (s.solved r) =
            gf256AddMem cpu' ((geSum rows blocks' ((compressRows cpu rows blocks).compress r)).zip
              ((compressRows cpu rows blocks).blocks (s.solved r)))) ∧
          ∀ i (hi : i < s.deferRows.length),
            geSum rows blocks' (copyDeferredRows rows (compressRows cpu rows blocks).compress
              geMatrix (m.denseCount + i)) =
            initialValue cpu rows (compressRows cpu rows blocks).blocks s.deferRows[i]) := by
  obtain ⟨wf, _, _, _, hcount⟩ := chooseMatrix_wellformed hfuel h
  obtain ⟨n, fed, s, hfed, hs, hready, hpeeled, _⟩ :=
    PeelState.peeling_ready wf hdepth memory rowSeeds
  refine ⟨n, fed, s, hfed, hs, ?_⟩
  rintro cpu cpu' rows blocks blocks' geMatrix rfl rfl hinputs hsized
  have hsettled : rows.Settled n := ⟨wf, hcount, hready, hpeeled, hinputs⟩
  exact hsettled.rows_hold_iff cpu cpu' blocks geMatrix hsized

theorem compression_equivalent_five :
    ∃ m, chooseMatrix (fun _ => 7) (2 ^ 16) 10 2 = some (.ok m) ∧
      ∃ n fed s, PeelState.feedRows m 6 [0, 1, 2, 9, 4]
          (PeelState.start fun _ => ⟨0, 0, .result 0⟩) = some (n, fed) ∧
        fed.greedyPeeling m 6 6 = some s ∧
        ∀ (cpu cpu' : Cpu) (rows : CodecRows) (blocks blocks' : Nat → Bytes) (geMatrix : Nat → Nat),
          rows.matrix = m → rows.peel = s →
          Inputs m rows.inputFinalBytes rows.inputBlocks (List.range n) →
          (∀ c, (blocks' c).length = m.blockBytes.toNat) →
          ((∀ r < n, regenerate cpu' m blocks' (s.peelRows r).recoveryId m.blockBytes.toNat =
              padded m rows.inputFinalBytes rows.inputBlocks r) ↔
            (∀ r ∈ s.peeled, blocks' (s.solved r) =
              gf256AddMem cpu' ((geSum rows blocks' ((compressRows cpu rows blocks).compress r)).zip
                ((compressRows cpu rows blocks).blocks (s.solved r)))) ∧
            ∀ i (hi : i < s.deferRows.length),
              geSum rows blocks' (copyDeferredRows rows (compressRows cpu rows blocks).compress
                geMatrix (m.denseCount + i)) =
              initialValue cpu rows (compressRows cpu rows blocks).blocks s.deferRows[i]) := by
  have hkept : keptBlocks 10 2 = 5 := by decide
  rcases chooseMatrix_answers (fun _ => 7) (Nat.le_refl (2 ^ 16)) 10 2 with
    ⟨_, _, hwhy⟩ | ⟨m, hm, _, _, _, _, hcount, _⟩
  · rw [hkept] at hwhy
    exact absurd hwhy (by decide)
  · exact ⟨m, hm, compression_equivalent (Nat.le_refl (2 ^ 16)) hm (by omega) _ _⟩

end Sankaku
