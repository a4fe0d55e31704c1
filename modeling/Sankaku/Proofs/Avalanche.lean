import Sankaku.Proofs.Peeling

namespace Sankaku
namespace PeelState

/-- Lists only grow, marks are not taken back, and rows keep their seeds. -/
structure Grows (s s' : PeelState) : Prop where
  peeled : s.peeled <+: s'.peeled
  deferRows : s.deferRows <:+ s'.deferRows
  marks : ∀ r, s.Settled r → (s'.peelRows r).marks = (s.peelRows r).marks
  todo : ∀ c, s'.isTodo c = true → s.isTodo c = true
  ids : ∀ r, (s'.peelRows r).recoveryId = (s.peelRows r).recoveryId
  refs : s'.peelColRefs = s.peelColRefs
  deferColumns : s'.deferColumns = s.deferColumns

theorem Grows.refl (s : PeelState) : Grows s s :=
  ⟨List.prefix_refl _, List.suffix_refl _, fun _ _ => rfl, fun _ h => h, fun _ => rfl, rfl, rfl⟩

theorem Grows.settled (h : Grows s s') (hr : s.Settled r) : s'.Settled r :=
  hr.imp (fun hr => h.peeled.subset hr) (fun hr => h.deferRows.subset hr)

theorem Grows.trans (h : Grows s s') (h' : Grows s' s'') : Grows s s'' where
  peeled := h.peeled.trans h'.peeled
  deferRows := h.deferRows.trans h'.deferRows
  marks r hr := (h'.marks r (h.settled hr)).trans (h.marks r hr)
  todo c hc := h.todo c (h'.todo c hc)
  ids r := (h'.ids r).trans (h.ids r)
  refs := h'.refs.trans h.refs
  deferColumns := h'.deferColumns.trans h.deferColumns

theorem Grows.setRow (hid : row.recoveryId = (s.peelRows r).recoveryId)
    (hmarks : s.Settled r → row.marks = (s.peelRows r).marks) : Grows s (s.setRow r row) := by
  refine ⟨List.prefix_refl _, List.suffix_refl _, fun q hq => ?_, fun _ h => h, fun q => ?_, rfl, rfl⟩
  · rcases eq_or_ne q r with rfl | hne
    · rw [setRow_self, hmarks hq]
    · rw [setRow_of_ne s r row hne]
  · rcases eq_or_ne q r with rfl | hne
    · rw [setRow_self, hid]
    · rw [setRow_of_ne s r row hne]

theorem Grows.deferRow (s : PeelState) (r : Nat) : Grows s (s.deferRow r) :=
  { Grows.refl s with deferRows := List.suffix_cons r s.deferRows }

theorem Grows.setColumn (hmark : column.mark = s.mark c) : Grows s (s.setColumn c column) := by
  refine { Grows.refl s with todo := fun d hd => ?_ }
  rw [isTodo_iff, setColumn_mark] at hd
  rw [isTodo_iff]
  split at hd
  · rename_i h
    rw [h, ← hmark, hd]
  · exact hd

theorem Grows.addWeight2Ref (s : PeelState) (c : Nat) : Grows s (s.addWeight2Ref c) :=
  Grows.setColumn rfl

theorem Grows.markSolved (hnot : ¬ s.Settled r) (htodo : s.isTodo c = true) :
    Grows s (s.markSolved r c) := by
  refine ⟨List.prefix_append _ _, List.suffix_refl _, fun q hq => ?_, fun d hd => ?_, fun q => ?_,
    rfl, rfl⟩
  · have hne : q ≠ r := fun h => hnot (h ▸ hq)
    rw [markSolved_of_ne s c hne]
  · rcases eq_or_ne d c with rfl | hne
    · exact htodo
    · exact (setColumn_isTodo s hne _).symm.trans hd
  · rcases eq_or_ne q r with rfl | hne
    · rw [markSolved_self]
    · rw [markSolved_of_ne s c hne]

/-- The columns that have no mark yet. -/
def todoCount (m : Matrix) (s : PeelState) : Nat :=
  ((List.range m.blockCount).filter s.isTodo).length

theorem Grows.todoCount_le (h : Grows s s') : todoCount m s' ≤ todoCount m s := by
  refine List.Sublist.length_le (List.monotone_filter_right _ fun c hc => ?_)
  exact h.todo c hc

theorem todoCount_marked (hlt : c < m.blockCount) (htodo : s.isTodo c = true)
    (hnot : s'.isTodo c = false) (hothers : ∀ d, d ≠ c → s'.isTodo d = s.isTodo d) :
    todoCount m s' + 1 = todoCount m s :=
  length_filter_remove List.nodup_range (List.mem_range.mpr hlt) htodo hnot fun d _ => hothers d

/-- What is expected of the avalanche of a column as long as fewer than `fuel`
columns are left without a mark. -/
def AvalancheSpec (m : Matrix) (n fuel : Nat) (avalanche : Nat → PeelState → Option PeelState) :
    Prop :=
  ∀ c s pend active, Inv m n s (Function.update pend c (s.peelColRefs c)) none active →
    todoCount m s < fuel →
    ∃ s', avalanche c s = some s' ∧ Inv m n s' (Function.update pend c []) none active ∧ Grows s s'

variable {m : Matrix} {n fuel : Nat} {s : PeelState} {pend : Pending} {active : List Nat}
  {avalanche : Nat → PeelState → Option PeelState}

/-- A row with one column left solves it, and the column's avalanche follows. -/
theorem solveWithPeel_spec (wf : m.Wellformed) (spec : AvalancheSpec m n fuel avalanche)
    (h : Inv m n s pend (some r) active) (hr : r < n) (hnot : ¬ s.Settled r)
    (hcount : (s.peelRows r).unmarkedCount ≤ 1) (hc : c ∈ columnsOf m s r)
    (htodo : s.isTodo c = true) (honly : ∀ d ∈ columnsOf m s r, d ≠ c → s.isTodo d = false)
    (hfuel : todoCount m s < fuel + 1) :
    ∃ s', solveWithPeel avalanche r c s = some s' ∧ Inv m n s' pend none active ∧ Grows s s' := by
  have hempty := h.pending_todo c htodo
  have hmarked := h.markSolved hr hnot hcount hc htodo honly
  have hgrows := Grows.markSolved (c := c) hnot htodo
  have hless : todoCount m (s.markSolved r c) + 1 = todoCount m s :=
    todoCount_marked (wf.columns_lt _ c hc) htodo (setColumn_not_todo s nofun)
      fun d hne => setColumn_isTodo s hne _
  obtain ⟨s', hs', hinv, hgrows'⟩ := spec c _ pend _ hmarked (by omega)
  rw [Function.update_eq_self_iff.mpr hempty.symm] at hinv
  refine ⟨s'.setColumn c { s'.peelCols c with weight2RefsOrPeelRow := r }, ?_,
    hinv.setWeight rfl ?_ ?_, (hgrows.trans hgrows').trans (Grows.setColumn rfl)⟩
  · simp only [solveWithPeel, Option.bind_eq_bind]
    exact congrArg (Option.bind · _) hs'
  · intro _
    have hpeeled : r ∈ (s.markSolved r c).peeled :=
      List.mem_append_right _ (List.mem_singleton_self r)
    refine ⟨r, hgrows'.peeled.subset hpeeled, ?_, fun _ => rfl⟩
    rw [hgrows'.marks r (Or.inl hpeeled), markSolved_self]
  · intro d hne hd hd'
    exact (List.mem_cons.mp hd').elim hne hd

theorem awaited_setRow (hid : row.recoveryId = (s.peelRows r).recoveryId) (q : Nat) :
    awaited m (s.setRow r row) pend q = awaited m s pend q := by
  rw [awaited, awaited, columnsOf_setRow hid]

theorem openColumns_setRow (hid : row.recoveryId = (s.peelRows r).recoveryId) (q : Nat) :
    openColumns m (s.setRow r row) pend q = openColumns m s pend q := by
  rw [openColumns, openColumns, columnsOf_setRow hid]
  rfl

theorem openColumns_le (wf : m.Wellformed) (s : PeelState) (pend : Pending) (r : Nat) :
    (openColumns m s pend r).length ≤ 64 :=
  Nat.le_trans (List.length_filter_le _ _) (wf.columns_le _).1

/-- A visit is from a column with a mark, to one of its rows, and the only one
there is. -/
structure Visit (m : Matrix) (n : Nat) (s : PeelState) (pend : Pending) (c r : Nat)
    (rs : List Nat) : Prop where
  row_lt : r < n
  column : c ∈ columnsOf m s r
  marked : s.isTodo c = false
  fresh : r ∉ rs
  awaited : (awaited m s (Function.update pend c rs) r).length + 1 =
    (awaited m s (Function.update pend c (r :: rs)) r).length
  opened : (openColumns m s (Function.update pend c rs) r).length + 1 =
    (openColumns m s (Function.update pend c (r :: rs)) r).length

theorem Inv.visit (wf : m.Wellformed)
    (h : Inv m n s (Function.update pend c (r :: rs)) none active) : Visit m n s pend c r rs := by
  have hsub := h.pending c
  rw [Function.update_self] at hsub
  obtain ⟨hlt, hcol⟩ := (h.refs c r).mp (hsub.subset List.mem_cons_self)
  have hmarked : s.isTodo c = false := by
    rw [Bool.eq_false_iff]
    intro htodo
    have := h.pending_todo c htodo
    rw [Function.update_self] at this
    cases this
  have hfresh : r ∉ rs := (List.nodup_cons.mp (hsub.nodup (h.refs_nodup c))).1
  have hnodup : (columnsOf m s r).Nodup := wf.columns_nodup _
  have hin : ((Function.update pend c (r :: rs)) c).contains r = true := by
    rw [Function.update_self]
    exact List.contains_iff_mem.mpr List.mem_cons_self
  have hout : ((Function.update pend c rs) c).contains r = false := by
    rw [Function.update_self, Bool.eq_false_iff, ne_eq, List.contains_iff_mem]
    exact hfresh
  have hothers : ∀ d, d ≠ c → ((Function.update pend c rs) d).contains r =
      ((Function.update pend c (r :: rs)) d).contains r := by
    intro d hne
    rw [Function.update_of_ne hne, Function.update_of_ne hne]
  refine ⟨hlt, hcol, hmarked, hfresh, ?_, ?_⟩
  · exact length_filter_remove hnodup hcol hin hout fun d _ => hothers d
  · refine length_filter_remove hnodup hcol ?_ ?_ fun d _ hne => ?_
    · rw [hin, Bool.or_true]
    · rw [hout, hmarked, Bool.or_false]
    · rw [hothers d hne]

/-- A settled row takes visits without being looked at. -/
theorem visitRow_settled (wf : m.Wellformed)
    (h : Inv m n s (Function.update pend c (r :: rs)) none active) (hr : s.Settled r) :
    ∃ s', visitRow m avalanche c r s = some s' ∧
      Inv m n s' (Function.update pend c rs) none active ∧ Grows s s' := by
  have hv := h.visit wf
  have hdead := h.dead r hr
  have hle : (awaited m s (Function.update pend c (r :: rs)) r).length ≤ 64 :=
    Nat.le_trans (List.length_filter_le _ _) (wf.columns_le _).1
  have hawaited := hv.awaited
  have hcount := hdead.count
  generalize hu : ((s.peelRows r).unmarkedCount + (2 ^ 16 - 1)) % 2 ^ 16 = u
  have hu' : u ≠ 1 ∧ u ≠ 2 ∧ (u ≤ 1 ∨
      (3 + (awaited m s (Function.update pend c rs) r).length ≤ u ∧ u < 2 ^ 16)) := by
    omega
  obtain ⟨row, hrow⟩ : ∃ row, row = { s.peelRows r with unmarkedCount := u } := ⟨_, rfl⟩
  have hid : row.recoveryId = (s.peelRows r).recoveryId := by rw [hrow]
  have hmarks : row.marks = (s.peelRows r).marks := by rw [hrow]
  refine ⟨s.setRow r row, ?_, ?_, Grows.setRow hid fun _ => hmarks⟩
  · simp only [visitRow, hu, if_neg hu'.1, if_neg hu'.2.1, hrow]
  · refine h.visited hid (fun _ => hmarks) (fun _ => ⟨?_, ?_⟩) (fun hnot => absurd hr hnot)
    · rw [columnsOf_setRow hid]
      exact hdead.marked
    · rw [setRow_self, awaited_setRow hid, hrow]
      exact hu'.2.2

/-- What a visit leaves open of a row that is still of interest. -/
structure Leaves (m : Matrix) (s : PeelState) (pend : Pending) (c r : Nat) (rs rest : List Nat) :
    Prop where
  opened : openColumns m s (Function.update pend c rs) r = rest
  count : ((s.peelRows r).unmarkedCount + (2 ^ 16 - 1)) % 2 ^ 16 = rest.length
  pos : rest ≠ []
  nodup : rest.Nodup
  sub : ∀ d ∈ rest, d ∈ columnsOf m s r
  todo : ∀ d ∈ columnsOf m s r, s.isTodo d = true → d ∈ rest
  last : rest.length = 1 → ∃ first second, (s.peelRows r).marks = .unmarked first second ∧
    rest = [if first = c then second else first]

theorem Inv.leaves (wf : m.Wellformed)
    (h : Inv m n s (Function.update pend c (r :: rs)) none active) (hnot : ¬ s.Settled r) :
    ∃ rest, Leaves m s pend c r rs rest := by
  obtain ⟨hlt, hcol, hmarked, hfresh, _, hopened⟩ := h.visit wf
  have hlive := h.live r hlt hnot nofun
  have hle := openColumns_le wf s (Function.update pend c (r :: rs)) r
  have hcount := hlive.count
  have htwo := hlive.two_le
  have hrest : ∀ d, d ∈ openColumns m s (Function.update pend c rs) r ↔
      d ≠ c ∧ d ∈ openColumns m s (Function.update pend c (r :: rs)) r := by
    intro d
    simp only [openColumns, List.mem_filter]
    rcases eq_or_ne d c with rfl | hne
    · rw [Function.update_self, hmarked]
      simp [hfresh]
    · rw [Function.update_of_ne hne, Function.update_of_ne hne]
      simp [hne]
  have hcin : c ∈ openColumns m s (Function.update pend c (r :: rs)) r := by
    rw [openColumns, List.mem_filter, Function.update_self]
    exact ⟨hcol, by simp⟩
  refine ⟨_, rfl, by omega, fun hnil => ?_, (wf.columns_nodup _).filter _,
    fun d hd => (List.mem_filter.mp hd).1, fun d hd htodo => ?_, fun hone => ?_⟩
  · rw [hnil] at hopened
    simp only [List.length_nil] at hopened
    omega
  · exact List.mem_filter.mpr ⟨hd, by rw [htodo, Bool.true_or]⟩
  · obtain ⟨first, second, hmarks, hboth⟩ := hlive.marks (by omega)
    obtain ⟨x, hx⟩ := List.length_eq_one_iff.mp hone
    refine ⟨first, second, hmarks, ?_⟩
    have hxin : x ∈ openColumns m s (Function.update pend c rs) r := by
      rw [hx]
      exact List.mem_singleton_self x
    obtain ⟨hxc, hxopen⟩ := (hrest x).mp hxin
    rw [hx]
    -- Of the two columns remembered, one is the visitor.
    split
    · rename_i hfirst
      rw [((hboth x).mp hxopen).resolve_left fun h => hxc (h.trans hfirst)]
    · rename_i hfirst
      have hcsecond := ((hboth c).mp hcin).resolve_left (Ne.symm hfirst)
      rw [((hboth x).mp hxopen).resolve_right fun h => hxc (h.trans hcsecond.symm)]

/-- Its columns are all marked: the row goes to the deferred ones. -/
theorem visitRow_defers (wf : m.Wellformed)
    (h : Inv m n s (Function.update pend c (r :: rs)) none active) (hnot : ¬ s.Settled r)
    (hid : row.recoveryId = (s.peelRows r).recoveryId) (hcount : row.unmarkedCount ≤ 1)
    (hall : ∀ d ∈ columnsOf m s r, s.isTodo d = false) :
    Inv m n ((s.setRow r row).deferRow r) (Function.update pend c rs) none active ∧
      Grows s ((s.setRow r row).deferRow r) := by
  have hbusy : Inv m n (s.setRow r row) (Function.update pend c rs) (some r) active :=
    h.visited hid (fun hr => absurd hr hnot) (fun hr => absurd hr hnot)
      (fun _ hne => absurd rfl hne)
  refine ⟨hbusy.deferBusy (h.visit wf).row_lt hnot ⟨fun d hd => ?_, Or.inl ?_⟩,
    (Grows.setRow hid fun hr => absurd hr hnot).trans (Grows.deferRow _ r)⟩
  · rw [columnsOf_setRow hid] at hd
    exact hall d hd
  · rw [setRow_self]
    exact hcount

/-- One column is left without a mark: the row solves it. -/
theorem visitRow_solves (wf : m.Wellformed) (spec : AvalancheSpec m n fuel avalanche)
    (h : Inv m n s (Function.update pend c (r :: rs)) none active) (hnot : ¬ s.Settled r)
    (hfuel : todoCount m s < fuel + 1) (hid : row.recoveryId = (s.peelRows r).recoveryId)
    (hcount : row.unmarkedCount ≤ 1) (hx : x ∈ columnsOf m s r) (htodo : s.isTodo x = true)
    (honly : ∀ d ∈ columnsOf m s r, d ≠ x → s.isTodo d = false) :
    ∃ s', solveWithPeel avalanche r x (s.setRow r row) = some s' ∧
      Inv m n s' (Function.update pend c rs) none active ∧ Grows s s' := by
  have hbusy : Inv m n (s.setRow r row) (Function.update pend c rs) (some r) active :=
    h.visited hid (fun hr => absurd hr hnot) (fun hr => absurd hr hnot)
      (fun _ hne => absurd rfl hne)
  obtain ⟨s', hs', hinv, hgrows⟩ := solveWithPeel_spec (c := x) wf spec hbusy (h.visit wf).row_lt hnot
    (by rw [setRow_self]; exact hcount) (by rw [columnsOf_setRow hid]; exact hx) htodo
    (by rw [columnsOf_setRow hid]; exact honly) hfuel
  exact ⟨s', hs', hinv, (Grows.setRow hid fun hr => absurd hr hnot).trans hgrows⟩

@[simp] theorem addWeight2Ref_isTodo (s : PeelState) (c : Nat) :
    (s.addWeight2Ref c).isTodo = s.isTodo := by
  funext d
  rw [Bool.eq_iff_iff, isTodo_iff, isTodo_iff, addWeight2Ref, setColumn_mark]
  split
  · rename_i h
    rw [h, mark]
  · rfl

/-- The other column that was remembered is solved here, unless its own
avalanche is on the way already. -/
theorem visitRow_one (wf : m.Wellformed) (spec : AvalancheSpec m n fuel avalanche)
    (h : Inv m n s (Function.update pend c (r :: rs)) none active) (hnot : ¬ s.Settled r)
    (hfuel : todoCount m s < fuel + 1) (hl : Leaves m s pend c r rs rest) (hone : rest.length = 1) :
    ∃ s', visitRow m avalanche c r s = some s' ∧
      Inv m n s' (Function.update pend c rs) none active ∧ Grows s s' := by
  obtain ⟨first, second, hmarks, hrest⟩ := hl.last hone
  have honly : ∀ d ∈ columnsOf m s r, d ≠ (if first = c then second else first) →
      s.isTodo d = false := by
    intro d hd hne
    rw [Bool.eq_false_iff]
    intro htodo
    have := hl.todo d hd htodo
    rw [hrest, List.mem_singleton] at this
    exact hne this
  have hin : (if first = c then second else first) ∈ columnsOf m s r := by
    refine hl.sub _ ?_
    rw [hrest]
    exact List.mem_singleton_self _
  obtain ⟨row, hrow⟩ : ∃ row, row =
      { s.peelRows r with unmarkedCount := 1, marks := .unmarked first second } := ⟨_, rfl⟩
  have hid : row.recoveryId = (s.peelRows r).recoveryId := by rw [hrow]
  have hcount : row.unmarkedCount ≤ 1 := by rw [hrow]
  simp only [visitRow, hl.count, hone, if_true, hmarks, setRow_isTodo, ← hrow]
  generalize (if first = c then second else first) = x at honly hin
  by_cases htodo : s.isTodo x = true
  · rw [if_pos htodo]
    exact visitRow_solves wf spec h hnot hfuel hid hcount hin htodo honly
  · rw [if_neg htodo]
    obtain ⟨hinv, hgrows⟩ := visitRow_defers wf h hnot hid hcount fun d hd => by
      rcases eq_or_ne d x with rfl | hne
      · rwa [Bool.eq_false_iff]
      · exact honly d hd hne
    exact ⟨_, rfl, hinv, hgrows⟩

/-- Of the two columns left, some may be marked and on the way. -/
theorem visitRow_two (wf : m.Wellformed) (spec : AvalancheSpec m n fuel avalanche)
    (h : Inv m n s (Function.update pend c (r :: rs)) none active) (hnot : ¬ s.Settled r)
    (hfuel : todoCount m s < fuel + 1) (hl : Leaves m s pend c r rs rest) (htwo : rest.length = 2) :
    ∃ s', visitRow m avalanche c r s = some s' ∧
      Inv m n s' (Function.update pend c rs) none active ∧ Grows s s' := by
  have htodo : ∀ d, d ∈ (columnsOf m s r).filter s.isTodo ↔ d ∈ columnsOf m s r ∧ s.isTodo d = true :=
    fun d => List.mem_filter
  have hnodup : ((columnsOf m s r).filter s.isTodo).Nodup := (wf.columns_nodup _).filter _
  have hsub : (columnsOf m s r).filter s.isTodo ⊆ rest := fun d hd =>
    hl.todo d ((htodo d).mp hd).1 ((htodo d).mp hd).2
  have hlen := (List.subperm_of_subset hnodup hsub).length_le
  obtain ⟨row, hrow⟩ : ∃ row, row = { s.peelRows r with unmarkedCount := 0 } := ⟨_, rfl⟩
  have hid : row.recoveryId = (s.peelRows r).recoveryId := by rw [hrow]
  have hcount : row.unmarkedCount ≤ 1 := by rw [hrow]; exact Nat.zero_le 1
  simp only [visitRow, hl.count, htwo, if_true, setRow_isTodo, setRow_setRow, ← hrow,
    OfNat.ofNat_ne_one, if_false]
  rw [show m.columns (s.peelRows r).recoveryId = columnsOf m s r from rfl]
  generalize (columnsOf m s r).filter s.isTodo = todo at htodo hnodup hsub hlen
  match todo with
  | [] =>
    obtain ⟨hinv, hgrows⟩ := visitRow_defers wf h hnot hid hcount fun d hd => by
      rw [Bool.eq_false_iff]
      intro ht
      exact List.not_mem_nil ((htodo d).mpr ⟨hd, ht⟩)
    exact ⟨_, rfl, hinv, hgrows⟩
  | [x] =>
    obtain ⟨hx, hxtodo⟩ := (htodo x).mp (List.mem_singleton_self x)
    have honly : ∀ d ∈ columnsOf m s r, d ≠ x → s.isTodo d = false := by
      intro d hd hne
      rw [Bool.eq_false_iff]
      intro ht
      exact hne (List.mem_singleton.mp ((htodo d).mpr ⟨hd, ht⟩))
    obtain ⟨s', hs', hinv, hgrows⟩ := visitRow_solves wf spec (h.addWeight2Ref hxtodo) hnot
      (Nat.lt_of_le_of_lt (Grows.addWeight2Ref s x).todoCount_le hfuel) hid hcount hx
      (by rw [addWeight2Ref_isTodo]; exact hxtodo) (by rw [addWeight2Ref_isTodo]; exact honly)
    refine ⟨s', ?_, hinv, (Grows.addWeight2Ref s x).trans hgrows⟩
    rw [← hs']
    exact congrArg (solveWithPeel avalanche r x) (setRow_setRow (s.addWeight2Ref x) r _ row)
  | [x, y] =>
    obtain ⟨_, hxtodo⟩ := (htodo x).mp (by simp)
    obtain ⟨_, hytodo⟩ := (htodo y).mp (by simp)
    have hinv := (h.addWeight2Ref hxtodo).addWeight2Ref (c := y)
      (by rw [addWeight2Ref_isTodo]; exact hytodo)
    have hgrows := (Grows.addWeight2Ref s x).trans (Grows.addWeight2Ref (s.addWeight2Ref x) y)
    have hboth : ∀ d, d ∈ rest ↔ d = x ∨ d = y := by
      have hperm := (List.subperm_of_subset hnodup hsub).perm_of_length_le
        (by rw [htwo]; exact Nat.le_refl 2)
      intro d
      rw [← hperm.mem_iff, List.mem_pair]
    obtain ⟨row', hrow'⟩ : ∃ row', row' =
        { s.peelRows r with unmarkedCount := 2, marks := .unmarked x y } := ⟨_, rfl⟩
    have hid' : row'.recoveryId = (s.peelRows r).recoveryId := by rw [hrow']
    have hopened : openColumns m (((s.addWeight2Ref x).addWeight2Ref y).setRow r row')
        (Function.update pend c rs) r = rest := by
      refine (openColumns_setRow (s := (s.addWeight2Ref x).addWeight2Ref y) hid' r).trans ?_
      rw [openColumns, addWeight2Ref_isTodo, addWeight2Ref_isTodo]
      exact hl.opened
    refine ⟨((s.addWeight2Ref x).addWeight2Ref y).setRow r row', ?_,
      hinv.visited hid' (fun hr => absurd hr hnot) (fun hr => absurd hr hnot) (fun _ _ => ?_),
      hgrows.trans (Grows.setRow hid' fun hr => absurd hr hnot)⟩
    · rw [hrow']
      exact congrArg some (setRow_setRow ((s.addWeight2Ref x).addWeight2Ref y) r _ _)
    · refine ⟨?_, ?_, fun _ => ⟨x, y, ?_, ?_⟩⟩
      · rw [setRow_self, hopened, htwo, hrow']
      · rw [setRow_self, hrow']
      · rw [setRow_self, hrow']
      · rw [hopened]
        exact hboth
  | _ :: _ :: _ :: _ =>
    simp only [List.length_cons] at hlen
    omega

theorem visitRow_more (h : Inv m n s (Function.update pend c (r :: rs)) none active)
    (hnot : ¬ s.Settled r) (hl : Leaves m s pend c r rs rest) (hmore : 3 ≤ rest.length) :
    ∃ s', visitRow m avalanche c r s = some s' ∧
      Inv m n s' (Function.update pend c rs) none active ∧ Grows s s' := by
  obtain ⟨row, hrow⟩ : ∃ row, row = { s.peelRows r with unmarkedCount := rest.length } := ⟨_, rfl⟩
  have hid : row.recoveryId = (s.peelRows r).recoveryId := by rw [hrow]
  refine ⟨s.setRow r row, ?_, ?_, Grows.setRow hid fun hr => absurd hr hnot⟩
  · simp only [visitRow, hl.count, hrow]
    rw [if_neg (by omega), if_neg (by omega)]
  · refine h.visited hid (fun hr => absurd hr hnot) (fun hr => absurd hr hnot) (fun _ _ => ?_)
    refine ⟨?_, ?_, fun htwo => ?_⟩
    · rw [setRow_self, openColumns_setRow hid, hl.opened, hrow]
    · rw [setRow_self, hrow]
      exact Nat.le_of_succ_le hmore
    · rw [setRow_self, hrow] at htwo
      exact absurd htwo (by simp only; omega)

theorem visitRow_spec (wf : m.Wellformed) (spec : AvalancheSpec m n fuel avalanche)
    (h : Inv m n s (Function.update pend c (r :: rs)) none active)
    (hfuel : todoCount m s < fuel + 1) :
    ∃ s', visitRow m avalanche c r s = some s' ∧
      Inv m n s' (Function.update pend c rs) none active ∧ Grows s s' := by
  by_cases hr : s.Settled r
  · exact visitRow_settled wf h hr
  · obtain ⟨rest, hl⟩ := h.leaves wf hr
    have hpos := List.length_pos_of_ne_nil hl.pos
    rcases Nat.lt_or_ge rest.length 3 with hfew | hmore
    · rcases (by omega : rest.length = 1 ∨ rest.length = 2) with hone | htwo
      · exact visitRow_one wf spec h hr hfuel hl hone
      · exact visitRow_two wf spec h hr hfuel hl htwo
    · exact visitRow_more h hr hl hmore

theorem visits_spec (wf : m.Wellformed) (spec : AvalancheSpec m n fuel avalanche)
    (h : Inv m n s (Function.update pend c rs) none active) (hfuel : todoCount m s < fuel + 1) :
    ∃ s', rs.foldlM (fun s r => visitRow m avalanche c r s) s = some s' ∧
      Inv m n s' (Function.update pend c []) none active ∧ Grows s s' := by
  induction rs generalizing s with
  | nil => exact ⟨s, rfl, h, Grows.refl s⟩
  | cons r rs ih =>
    obtain ⟨s1, hs1, hinv1, hgrows1⟩ := visitRow_spec wf spec h hfuel
    obtain ⟨s2, hs2, hinv2, hgrows2⟩ := ih hinv1 (Nat.lt_of_le_of_lt hgrows1.todoCount_le hfuel)
    refine ⟨s2, ?_, hinv2, hgrows1.trans hgrows2⟩
    rw [List.foldlM_cons, hs1]
    exact hs2

/-- The recursion marks a column each time it goes deeper. -/
theorem peelAvalancheOnSolve_spec (wf : m.Wellformed) (fuel : Nat) :
    AvalancheSpec m n fuel (peelAvalancheOnSolve m fuel) := by
  induction fuel with
  | zero =>
    intro c s pend active _ hfuel
    exact absurd hfuel (Nat.not_lt_zero _)
  | succ fuel ih =>
    intro c s pend active h hfuel
    exact visits_spec wf ih h hfuel

end PeelState
end Sankaku
