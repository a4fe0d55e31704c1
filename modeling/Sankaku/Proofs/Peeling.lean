import Sankaku.Proofs.RowColumns

namespace Sankaku
namespace PeelState

section
variable (s : PeelState) (r c : Nat) (row : PeelRow) (column : PeelColumn)

@[simp] theorem setRow_peelCols : (s.setRow r row).peelCols = s.peelCols := rfl
@[simp] theorem setRow_peelColRefs : (s.setRow r row).peelColRefs = s.peelColRefs := rfl
@[simp] theorem setRow_peeled : (s.setRow r row).peeled = s.peeled := rfl
@[simp] theorem setRow_deferRows : (s.setRow r row).deferRows = s.deferRows := rfl
@[simp] theorem setRow_deferColumns : (s.setRow r row).deferColumns = s.deferColumns := rfl
@[simp] theorem setRow_isTodo : (s.setRow r row).isTodo = s.isTodo := rfl
@[simp] theorem setRow_self : (s.setRow r row).peelRows r = row := Function.update_self ..
@[simp] theorem setRow_of_ne (h : q ≠ r) : (s.setRow r row).peelRows q = s.peelRows q :=
  Function.update_of_ne h ..
@[simp] theorem setRow_setRow (row' : PeelRow) :
    (s.setRow r row).setRow r row' = s.setRow r row' := by
  simp only [setRow, Function.update_idem]

@[simp] theorem setColumn_peelRows : (s.setColumn c column).peelRows = s.peelRows := rfl
@[simp] theorem setColumn_peelColRefs : (s.setColumn c column).peelColRefs = s.peelColRefs := rfl
@[simp] theorem setColumn_peeled : (s.setColumn c column).peeled = s.peeled := rfl
@[simp] theorem setColumn_deferRows : (s.setColumn c column).deferRows = s.deferRows := rfl
@[simp] theorem setColumn_deferColumns : (s.setColumn c column).deferColumns = s.deferColumns := rfl
@[simp] theorem setColumn_self : (s.setColumn c column).peelCols c = column :=
  Function.update_self ..
@[simp] theorem setColumn_of_ne (h : d ≠ c) : (s.setColumn c column).peelCols d = s.peelCols d :=
  Function.update_of_ne h ..

end

def mark (s : PeelState) (c : Nat) : MarkTypes := (s.peelCols c).mark

theorem isTodo_iff (s : PeelState) (c : Nat) : s.isTodo c = true ↔ s.mark c = .todo :=
  decide_eq_true_iff

def columnsOf (m : Matrix) (s : PeelState) (r : Nat) : List Nat :=
  m.columns (s.peelRows r).recoveryId

/-- Peeled or deferred: its count is of no interest any more. -/
def Settled (s : PeelState) (r : Nat) : Prop := r ∈ s.peeled ∨ r ∈ s.deferRows

/-- The rows that the avalanche of each column has yet to visit. -/
abbrev Pending := Nat → List Nat

/-- The columns a row still counts: those without a mark, and those whose
avalanche has not come to the row. -/
def openColumns (m : Matrix) (s : PeelState) (pend : Pending) (r : Nat) : List Nat :=
  (columnsOf m s r).filter (fun c => s.isTodo c || (pend c).contains r)

/-- The columns whose avalanche will still come to the row. -/
def awaited (m : Matrix) (s : PeelState) (pend : Pending) (r : Nat) : List Nat :=
  (columnsOf m s r).filter (fun c => (pend c).contains r)

structure Live (m : Matrix) (s : PeelState) (pend : Pending) (r : Nat) : Prop where
  count : (s.peelRows r).unmarkedCount = (openColumns m s pend r).length
  two_le : 2 ≤ (s.peelRows r).unmarkedCount
  marks : (s.peelRows r).unmarkedCount = 2 → ∃ first second,
    (s.peelRows r).marks = .unmarked first second ∧
      ∀ c, c ∈ openColumns m s pend r ↔ c = first ∨ c = second

/-- Its count may wrap around, but never comes to 1 or 2 again. -/
structure Dead (m : Matrix) (s : PeelState) (pend : Pending) (r : Nat) : Prop where
  marked : ∀ c ∈ columnsOf m s r, s.isTodo c = false
  count : (s.peelRows r).unmarkedCount ≤ 1 ∨
    (3 + (awaited m s pend r).length ≤ (s.peelRows r).unmarkedCount ∧
      (s.peelRows r).unmarkedCount < 2 ^ 16)

/-- The row solves one of its columns; the others are deferred or solved by the
rows before it. -/
def Solves (m : Matrix) (s : PeelState) (before : List Nat) (r : Nat) : Prop :=
  ∃ c ∈ columnsOf m s r, (s.peelRows r).marks = .result c ∧ s.mark c = .peel ∧
    (∀ q ∈ before, (s.peelRows q).marks ≠ .result c) ∧
    ∀ d ∈ columnsOf m s r, d ≠ c → s.mark d = .defer ∨ ∃ q ∈ before, (s.peelRows q).marks = .result d

/-- With `n` rows taken. The row `busy` is between its last visit and its place
in a list; the columns of `active` are solved, but their avalanche has not come
back. -/
structure Inv (m : Matrix) (n : Nat) (s : PeelState) (pend : Pending) (busy : Option Nat)
    (active : List Nat) : Prop where
  refs : ∀ c r, r ∈ s.peelColRefs c ↔ r < n ∧ c ∈ columnsOf m s r
  refs_nodup : ∀ c, (s.peelColRefs c).Nodup
  pending : ∀ c, (pend c).Sublist (s.peelColRefs c)
  pending_todo : ∀ c, s.isTodo c = true → pend c = []
  settled_lt : ∀ r, s.Settled r → r < n
  once : (s.peeled ++ s.deferRows).Nodup
  dead : ∀ r, s.Settled r → s.Dead m pend r
  live : ∀ r < n, ¬ s.Settled r → busy ≠ some r → s.Live m pend r
  solves : ∀ before r after, s.peeled = before ++ r :: after → s.Solves m before r
  owner : ∀ c, s.mark c = .peel → ∃ r ∈ s.peeled, (s.peelRows r).marks = .result c ∧
    (c ∉ active → (s.peelCols c).weight2RefsOrPeelRow = r)
  deferred : ∀ c, s.mark c = .defer ↔ c ∈ s.deferColumns
  deferred_nodup : s.deferColumns.Nodup

theorem length_filter_remove {p q : Nat → Bool} {xs : List Nat} (hnodup : xs.Nodup) (hc : c ∈ xs)
    (hp : p c = true) (hq : q c = false) (hpq : ∀ d ∈ xs, d ≠ c → q d = p d) :
    (xs.filter q).length + 1 = (xs.filter p).length := by
  induction xs with
  | nil => cases hc
  | cons x xs ih =>
    obtain ⟨hx, hxs⟩ := List.nodup_cons.mp hnodup
    rcases List.mem_cons.mp hc with rfl | hc
    · have hrest : xs.filter q = xs.filter p := List.filter_congr fun d hd =>
        hpq d (List.mem_cons_of_mem _ hd) (ne_of_mem_of_not_mem hd hx)
      rw [List.filter_cons_of_pos hp, List.filter_cons_of_neg (by rw [hq]; decide), hrest,
        List.length_cons]
    · have htail := ih hxs hc (fun d hd => hpq d (List.mem_cons_of_mem _ hd))
      have hhead := hpq x List.mem_cons_self (ne_of_mem_of_not_mem hc hx).symm
      rw [List.filter_cons, List.filter_cons, hhead]
      split
      · rw [List.length_cons, List.length_cons, htail]
      · exact htail

theorem Live.congr {s s' : PeelState} (h : s.Live m pend r) (hrow : s'.peelRows r = s.peelRows r)
    (hopen : ∀ c ∈ columnsOf m s r,
      (s'.isTodo c || (pend' c).contains r) = (s.isTodo c || (pend c).contains r)) :
    s'.Live m pend' r := by
  have hcols : openColumns m s' pend' r = openColumns m s pend r := by
    rw [openColumns, openColumns, columnsOf, hrow]
    exact List.filter_congr hopen
  exact ⟨by rw [hrow, hcols]; exact h.count, by rw [hrow]; exact h.two_le, by
    rw [hrow, hcols]; exact h.marks⟩

theorem Dead.congr {s s' : PeelState} (h : s.Dead m pend r)
    (hid : (s'.peelRows r).recoveryId = (s.peelRows r).recoveryId)
    (hcount : (s'.peelRows r).unmarkedCount = (s.peelRows r).unmarkedCount)
    (hmarked : ∀ c ∈ columnsOf m s r, s.isTodo c = false →
      s'.isTodo c = false ∧ (pend' c).contains r = (pend c).contains r) : s'.Dead m pend' r := by
  have hcols : columnsOf m s' r = columnsOf m s r := by rw [columnsOf, hid, columnsOf]
  have hawaited : awaited m s' pend' r = awaited m s pend r := by
    rw [awaited, awaited, hcols]
    exact List.filter_congr fun c hc => (hmarked c hc (h.marked c hc)).2
  refine ⟨fun c hc => ?_, ?_⟩
  · rw [hcols] at hc
    exact (hmarked c hc (h.marked c hc)).1
  · rw [hcount, hawaited]
    exact h.count

/-- Rows that keep their seeds and, once settled, their marks, and columns that
keep theirs: the order stands. -/
theorem Solves.congr {s s' : PeelState} (h : s.Solves m before r)
    (hid : (s'.peelRows r).recoveryId = (s.peelRows r).recoveryId)
    (hmarks : ∀ q, q = r ∨ q ∈ before → (s'.peelRows q).marks = (s.peelRows q).marks)
    (hmark : ∀ c, s.mark c ≠ .todo → s'.mark c = s.mark c) : s'.Solves m before r := by
  have hcols : columnsOf m s' r = columnsOf m s r := by rw [columnsOf, hid, columnsOf]
  obtain ⟨c, hc, hresult, hpeel, hnew, hothers⟩ := h
  have hkeep : ∀ d, s.mark d = .peel → s'.mark d = .peel := fun d hd => by
    rw [hmark d (by rw [hd]; decide), hd]
  rw [Solves, hcols]
  refine ⟨c, hc, by rw [hmarks r (Or.inl rfl), hresult], hkeep c hpeel, fun q hq => ?_,
    fun d hd hne => ?_⟩
  · rw [hmarks q (Or.inr hq)]
    exact hnew q hq
  · rcases hothers d hd hne with hdefer | ⟨q, hq, hsolved⟩
    · exact Or.inl (by rw [hmark d (by rw [hdefer]; decide), hdefer])
    · exact Or.inr ⟨q, hq, by rw [hmarks q (Or.inr hq), hsolved]⟩

variable {m : Matrix} {n : Nat} {s : PeelState} {pend : Pending} {busy : Option Nat}
  {active : List Nat}

theorem columnsOf_setRow (hid : row.recoveryId = (s.peelRows r).recoveryId) (q : Nat) :
    columnsOf m (s.setRow r row) q = columnsOf m s q := by
  rcases eq_or_ne q r with rfl | hne
  · rw [columnsOf, columnsOf, setRow_self, hid]
  · rw [columnsOf, columnsOf, setRow_of_ne s r row hne]

/-- A visit changes nothing but the row it is to. -/
theorem Inv.visited (h : Inv m n s (Function.update pend c (r :: rs)) none active)
    (hid : row.recoveryId = (s.peelRows r).recoveryId)
    (hmarks : s.Settled r → row.marks = (s.peelRows r).marks)
    (hdead : s.Settled r → (s.setRow r row).Dead m (Function.update pend c rs) r)
    (hlive : ¬ s.Settled r → busy ≠ some r →
      (s.setRow r row).Live m (Function.update pend c rs) r) :
    Inv m n (s.setRow r row) (Function.update pend c rs) busy active := by
  have hother : ∀ q, q ≠ r → ∀ d, ((Function.update pend c rs) d).contains q =
      ((Function.update pend c (r :: rs)) d).contains q := by
    intro q hq d
    rcases eq_or_ne d c with rfl | hne
    · rw [Function.update_self, Function.update_self, List.contains_cons]
      simp [hq]
    · rw [Function.update_of_ne hne, Function.update_of_ne hne]
  have hcontent : ∀ q, s.Settled q → ((s.setRow r row).peelRows q).marks = (s.peelRows q).marks := by
    intro q hq
    rcases eq_or_ne q r with rfl | hne
    · rw [setRow_self, hmarks hq]
    · rw [setRow_of_ne s r row hne]
  refine
    { refs := fun d q => by rw [columnsOf_setRow hid]; exact h.refs d q
      refs_nodup := h.refs_nodup
      pending := fun d => ?_
      pending_todo := fun d hd => ?_
      settled_lt := h.settled_lt
      once := h.once
      dead := fun q hq => ?_
      live := fun q hq hnot hbusy => ?_
      solves := fun before q after hsplit => ?_
      owner := fun d hd => ?_
      deferred := h.deferred
      deferred_nodup := h.deferred_nodup }
  · have := h.pending d
    rcases eq_or_ne d c with rfl | hne
    · rw [Function.update_self] at this ⊢
      exact (List.sublist_cons_self r rs).trans this
    · rwa [Function.update_of_ne hne] at this ⊢
  · have := h.pending_todo d hd
    rcases eq_or_ne d c with rfl | hne
    · rw [Function.update_self] at this
      cases this
    · rwa [Function.update_of_ne hne] at this ⊢
  · rcases eq_or_ne q r with rfl | hne
    · exact hdead hq
    · have hrow := setRow_of_ne s r row hne
      refine (h.dead q hq).congr (by rw [hrow]) (by rw [hrow]) fun d _ hd => ⟨hd, hother q hne d⟩
  · rcases eq_or_ne q r with rfl | hne
    · exact hlive hnot hbusy
    · refine (h.live q hq hnot (by simp)).congr (setRow_of_ne s r row hne) fun d _ => ?_
      rw [hother q hne d]
      rfl
  · have hin : ∀ p, p = q ∨ p ∈ before → p ∈ s.peeled := by
      intro p hp
      have hsplit : s.peeled = before ++ q :: after := hsplit
      rw [hsplit]
      rcases hp with rfl | hp
      · exact List.mem_append_right _ List.mem_cons_self
      · exact List.mem_append_left _ hp
    refine (h.solves before q after hsplit).congr ?_ (fun p hp => hcontent p (Or.inl (hin p hp)))
      fun _ _ => rfl
    rcases eq_or_ne q r with rfl | hne
    · rw [setRow_self, hid]
    · rw [setRow_of_ne s r row hne]
  · obtain ⟨q, hq, hsolved, hweight⟩ := h.owner d hd
    exact ⟨q, hq, by rw [hcontent q (Or.inl hq), hsolved], hweight⟩

theorem Inv.deferBusy (h : Inv m n s pend (some r) active) (hr : r < n) (hnot : ¬ s.Settled r)
    (hdead : s.Dead m pend r) : Inv m n (s.deferRow r) pend none active := by
  have hsettled : ∀ q, (s.deferRow r).Settled q ↔ s.Settled q ∨ q = r := by
    intro q
    simp only [Settled, deferRow, List.mem_cons]
    tauto
  refine
    { refs := h.refs
      refs_nodup := h.refs_nodup
      pending := h.pending
      pending_todo := h.pending_todo
      settled_lt := fun q hq => ?_
      once := ?_
      dead := fun q hq => ?_
      live := fun q hq hnotq _ => ?_
      solves := h.solves
      owner := h.owner
      deferred := h.deferred
      deferred_nodup := h.deferred_nodup }
  · rcases (hsettled q).mp hq with hq | rfl
    · exact h.settled_lt q hq
    · exact hr
  · have hfresh : r ∉ s.peeled ++ s.deferRows := by
      rw [List.mem_append]
      exact hnot
    exact List.nodup_middle.mpr (List.nodup_cons.mpr ⟨hfresh, h.once⟩)
  · have hkeep : ∀ q, s.Dead m pend q → (s.deferRow r).Dead m pend q := fun q hq =>
      ⟨hq.marked, hq.count⟩
    rcases (hsettled q).mp hq with hq | rfl
    · exact hkeep q (h.dead q hq)
    · exact hkeep q hdead
  · have hne := not_or.mp (mt (hsettled q).mpr hnotq)
    have := h.live q hq hne.1 (by simpa using Ne.symm hne.2)
    exact ⟨this.count, this.two_le, this.marks⟩

/-- Nothing but its owner depends on the number that a column shares its memory
with. -/
theorem Inv.setWeight (h : Inv m n s pend busy active) (hmark : column.mark = s.mark c)
    (howner : s.mark c = .peel → ∃ r ∈ s.peeled, (s.peelRows r).marks = .result c ∧
      (c ∉ active' → column.weight2RefsOrPeelRow = r))
    (hactive : ∀ d, d ≠ c → d ∉ active' → d ∉ active) :
    Inv m n (s.setColumn c column) pend busy active' := by
  have hmarks : (s.setColumn c column).mark = s.mark := by
    funext d
    rcases eq_or_ne d c with rfl | hne
    · rw [mark, setColumn_self, hmark]
    · rw [mark, setColumn_of_ne s c column hne, mark]
  have htodo : (s.setColumn c column).isTodo = s.isTodo := by
    funext d
    rw [Bool.eq_iff_iff, isTodo_iff, isTodo_iff, hmarks]
  refine
    { refs := h.refs
      refs_nodup := h.refs_nodup
      pending := h.pending
      pending_todo := fun d hd => h.pending_todo d (htodo ▸ hd)
      settled_lt := h.settled_lt
      once := h.once
      dead := fun q hq => ?_
      live := fun q hq hnot hbusy => ?_
      solves := fun before q after hsplit => ?_
      owner := fun d hd => ?_
      deferred := fun d => by rw [hmarks]; exact h.deferred d
      deferred_nodup := h.deferred_nodup }
  · exact (h.dead q hq).congr rfl rfl fun d _ hd => ⟨by rw [htodo, hd], rfl⟩
  · exact (h.live q hq hnot hbusy).congr rfl fun d _ => by rw [htodo]
  · exact (h.solves before q after hsplit).congr rfl (fun _ _ => rfl) fun d _ => by rw [hmarks]
  · rw [hmarks] at hd
    rcases eq_or_ne d c with rfl | hne
    · rw [setColumn_self]
      exact howner hd
    · obtain ⟨q, hq, hsolved, hweight⟩ := h.owner d hd
      rw [setColumn_of_ne s c column hne]
      exact ⟨q, hq, hsolved, fun hd => hweight (hactive d hne hd)⟩

theorem Inv.addWeight2Ref (h : Inv m n s pend busy active) (htodo : s.isTodo c = true) :
    Inv m n (s.addWeight2Ref c) pend busy active := by
  refine h.setWeight rfl (fun hpeel => ?_) fun _ _ hd => hd
  rw [(isTodo_iff s c).mp htodo] at hpeel
  cases hpeel

theorem Dead.marking {s s' : PeelState} (h : s.Dead m pend q) (htodo : s.isTodo c = true)
    (hid : (s'.peelRows q).recoveryId = (s.peelRows q).recoveryId)
    (hcount : (s'.peelRows q).unmarkedCount = (s.peelRows q).unmarkedCount)
    (hothers : ∀ d, d ≠ c → s'.isTodo d = s.isTodo d) :
    s'.Dead m (Function.update pend c visits) q := by
  refine h.congr hid hcount fun d _ hd => ?_
  have hne : d ≠ c := by
    rintro rfl
    rw [htodo] at hd
    cases hd
  rw [hothers d hne, Function.update_of_ne hne]
  exact ⟨hd, rfl⟩

/-- The column was open for want of a mark, and is still open as its avalanche
is to come. -/
theorem Live.marking {s s' : PeelState} (h : s.Live m pend q) (htodo : s.isTodo c = true)
    (hrow : s'.peelRows q = s.peelRows q) (hothers : ∀ d, d ≠ c → s'.isTodo d = s.isTodo d)
    (hvisits : c ∈ columnsOf m s q → q ∈ visits) :
    s'.Live m (Function.update pend c visits) q := by
  refine h.congr hrow fun d hd => ?_
  rcases eq_or_ne d c with rfl | hne
  · rw [htodo, Function.update_self, List.contains_iff_mem.mpr (hvisits hd), Bool.or_true,
      Bool.true_or]
  · rw [hothers d hne, Function.update_of_ne hne]

/-- What `SolveWithPeel` sets before the avalanche. -/
def markSolved (s : PeelState) (r c : Nat) : PeelState :=
  let s := s.setColumn c { s.peelCols c with mark := .peel }
  let s := s.setRow r { s.peelRows r with marks := .result c }
  { s with peeled := s.peeled ++ [r] }

theorem markSolved_self (s : PeelState) (r c : Nat) :
    (s.markSolved r c).peelRows r = { s.peelRows r with marks := .result c } := setRow_self _ r _

theorem markSolved_of_ne (s : PeelState) (c : Nat) (h : q ≠ r) :
    (s.markSolved r c).peelRows q = s.peelRows q := setRow_of_ne _ r _ h

/-- What `GreedyPeeling` sets before the avalanche. -/
def markDeferred (s : PeelState) (c : Nat) : PeelState :=
  let s := s.setColumn c { s.peelCols c with mark := .defer }
  { s with deferColumns := c :: s.deferColumns }

theorem setColumn_mark (s : PeelState) (c : Nat) (column : PeelColumn) (d : Nat) :
    (s.setColumn c column).mark d = if d = c then column.mark else s.mark d := by
  split
  · rename_i h
    rw [h, mark, setColumn_self]
  · rename_i h
    rw [mark, setColumn_of_ne s c column h, mark]

theorem setColumn_isTodo (s : PeelState) (hne : d ≠ c) (column : PeelColumn) :
    (s.setColumn c column).isTodo d = s.isTodo d := by
  rw [Bool.eq_iff_iff, isTodo_iff, isTodo_iff, setColumn_mark, if_neg hne]

theorem setColumn_not_todo (s : PeelState) (hmark : column.mark ≠ .todo) :
    (s.setColumn c column).isTodo c = false := by
  rw [Bool.eq_false_iff, ne_eq, isTodo_iff, setColumn_mark, if_pos rfl]
  exact hmark

/-- A column that is marked has all its rows yet to visit. -/
theorem Inv.pending_marking (h : Inv m n s pend busy active) (c d : Nat) :
    (Function.update pend c (s.peelColRefs c) d).Sublist (s.peelColRefs d) := by
  rcases eq_or_ne d c with rfl | hne
  · rw [Function.update_self]
  · rw [Function.update_of_ne hne]
    exact h.pending d

theorem Inv.pending_todo_marking {s' : PeelState} (h : Inv m n s pend busy active)
    (hothers : ∀ d, d ≠ c → s'.isTodo d = s.isTodo d) (hnot : s'.isTodo c = false) (d : Nat)
    (hd : s'.isTodo d = true) : Function.update pend c visits d = [] := by
  have hne : d ≠ c := by
    rintro rfl
    rw [hnot] at hd
    cases hd
  rw [Function.update_of_ne hne]
  exact h.pending_todo d (hothers d hne ▸ hd)

theorem Inv.markDeferred (h : Inv m n s pend none active) (htodo : s.isTodo c = true) :
    Inv m n (s.markDeferred c) (Function.update pend c (s.peelColRefs c)) none active := by
  have hmark := (isTodo_iff s c).mp htodo
  have hmarks : ∀ d, (s.markDeferred c).mark d = if d = c then .defer else s.mark d :=
    setColumn_mark s c _
  have hothers : ∀ d, d ≠ c → (s.markDeferred c).isTodo d = s.isTodo d :=
    fun d hne => setColumn_isTodo s hne _
  have hnot : (s.markDeferred c).isTodo c = false := setColumn_not_todo s nofun
  refine
    { refs := h.refs
      refs_nodup := h.refs_nodup
      pending := h.pending_marking c
      pending_todo := h.pending_todo_marking hothers hnot
      settled_lt := h.settled_lt
      once := h.once
      dead := fun q hq => (h.dead q hq).marking htodo rfl rfl hothers
      live := fun q hq hnotq hbusy => (h.live q hq hnotq hbusy).marking htodo rfl hothers
        fun hc => (h.refs c q).mpr ⟨hq, hc⟩
      solves := fun before q after hsplit => ?_
      owner := fun d hd => ?_
      deferred := fun d => ?_
      deferred_nodup := ?_ }
  · refine (h.solves before q after hsplit).congr rfl (fun _ _ => rfl) fun d hd => ?_
    rw [hmarks, if_neg (by rintro rfl; exact hd hmark)]
  · rw [hmarks] at hd
    split at hd
    · cases hd
    · rename_i hne
      obtain ⟨q, hq, hsolved, hweight⟩ := h.owner d hd
      refine ⟨q, hq, hsolved, fun hd => ?_⟩
      rw [← hweight hd]
      exact congrArg _ (setColumn_of_ne s c _ hne)
  · have hdefers : d ∈ (s.markDeferred c).deferColumns ↔ d = c ∨ d ∈ s.deferColumns := List.mem_cons
    rw [hmarks, hdefers, ← h.deferred]
    split
    · rename_i heq
      simp [heq]
    · rename_i hne
      simp [hne]
  · refine List.nodup_cons.mpr ⟨fun hc => ?_, h.deferred_nodup⟩
    rw [(h.deferred c).mpr hc] at hmark
    cases hmark

section MarkSolved
variable {r c : Nat}

theorem markSolved_mark (s : PeelState) (r c d : Nat) :
    (s.markSolved r c).mark d = if d = c then .peel else s.mark d := setColumn_mark s c _ d

theorem markSolved_isTodo (s : PeelState) (r : Nat) (hne : d ≠ c) :
    (s.markSolved r c).isTodo d = s.isTodo d := setColumn_isTodo s hne _

theorem markSolved_not_todo (s : PeelState) (r c : Nat) : (s.markSolved r c).isTodo c = false :=
  setColumn_not_todo s (by simp)

theorem markSolved_columnsOf (s : PeelState) (r c q : Nat) :
    columnsOf m (s.markSolved r c) q = columnsOf m s q := by
  rcases eq_or_ne q r with rfl | hne
  · rw [columnsOf, markSolved_self, columnsOf]
  · rw [columnsOf, markSolved_of_ne s c hne, columnsOf]

theorem mem_markSolved_peeled : q ∈ (s.markSolved r c).peeled ↔ q ∈ s.peeled ∨ q = r := by
  rw [show (s.markSolved r c).peeled = s.peeled ++ [r] from rfl, List.mem_append,
    List.mem_singleton]

theorem markSolved_settled : (s.markSolved r c).Settled q ↔ s.Settled q ∨ q = r := by
  have hdefers : (s.markSolved r c).deferRows = s.deferRows := rfl
  rw [Settled, Settled, mem_markSolved_peeled, hdefers]
  tauto

/-- A row that was peeled before is another one, and is left alone. -/
theorem markSolved_peeled_row (hnot : ¬ s.Settled r) (hq : q ∈ s.peeled) :
    (s.markSolved r c).peelRows q = s.peelRows q :=
  markSolved_of_ne s c fun heq => hnot (heq ▸ Or.inl hq)

theorem Inv.once_markSolved (h : Inv m n s pend busy active) (hnot : ¬ s.Settled r) :
    ((s.markSolved r c).peeled ++ (s.markSolved r c).deferRows).Nodup := by
  have hfresh : r ∉ s.peeled ++ s.deferRows := by
    rw [List.mem_append]
    exact hnot
  have hlists : (s.markSolved r c).peeled ++ (s.markSolved r c).deferRows =
      s.peeled ++ r :: s.deferRows := List.append_assoc s.peeled [r] s.deferRows
  rw [hlists]
  exact List.nodup_middle.mpr (List.nodup_cons.mpr ⟨hfresh, h.once⟩)

/-- The row solves its last column without a mark: its other columns were all marked
before. -/
theorem Inv.solves_markSolved (h : Inv m n s pend busy active) (hnot : ¬ s.Settled r)
    (hc : c ∈ columnsOf m s r) (htodo : s.isTodo c = true)
    (honly : ∀ d ∈ columnsOf m s r, d ≠ c → s.isTodo d = false) :
    (s.markSolved r c).Solves m s.peeled r := by
  have hmark := (isTodo_iff s c).mp htodo
  have hbefore : ∀ q ∈ s.peeled, ((s.markSolved r c).peelRows q).marks = (s.peelRows q).marks :=
    fun q hq => by rw [markSolved_peeled_row hnot hq]
  refine ⟨c, (markSolved_columnsOf s r c r).symm ▸ hc, by rw [markSolved_self],
    by rw [markSolved_mark, if_pos rfl], fun q hq hresult => ?_, fun d hd hne => ?_⟩
  · obtain ⟨before, after, hsplit⟩ := List.append_of_mem hq
    obtain ⟨d, _, hresult', hpeel, _⟩ := h.solves before q after hsplit
    rw [hbefore q hq, hresult'] at hresult
    cases hresult
    rw [hmark] at hpeel
    cases hpeel
  · rw [markSolved_columnsOf] at hd
    rw [markSolved_mark, if_neg hne]
    have htd := honly d hd hne
    rw [Bool.eq_false_iff, ne_eq, isTodo_iff] at htd
    cases hmd : s.mark d with
    | todo => exact absurd hmd htd
    | defer => exact Or.inl rfl
    | peel =>
      obtain ⟨q, hq, hsolved, _⟩ := h.owner d hmd
      exact Or.inr ⟨q, hq, by rw [hbefore q hq, hsolved]⟩

/-- The rows that were peeled before solve what they solved. -/
theorem Solves.markSolved (h : s.Solves m before q) (hnot : ¬ s.Settled r)
    (htodo : s.isTodo c = true) (hpeeled : ∀ p, p = q ∨ p ∈ before → p ∈ s.peeled) :
    (s.markSolved r c).Solves m before q := by
  refine h.congr ?_ (fun p hp => ?_) fun d hd => ?_
  · rw [markSolved_peeled_row hnot (hpeeled q (Or.inl rfl))]
  · rw [markSolved_peeled_row hnot (hpeeled p hp)]
  · rw [markSolved_mark, if_neg (by rintro rfl; exact hd ((isTodo_iff s d).mp htodo))]

theorem Inv.owner_markSolved (h : Inv m n s pend busy active) (hnot : ¬ s.Settled r) (d : Nat)
    (hd : (s.markSolved r c).mark d = .peel) :
    ∃ q ∈ (s.markSolved r c).peeled, ((s.markSolved r c).peelRows q).marks = .result d ∧
      (d ∉ c :: active → ((s.markSolved r c).peelCols d).weight2RefsOrPeelRow = q) := by
  rw [markSolved_mark] at hd
  rcases eq_or_ne d c with rfl | hne
  · exact ⟨r, mem_markSolved_peeled.mpr (Or.inr rfl), by rw [markSolved_self],
      fun hd => absurd List.mem_cons_self hd⟩
  · rw [if_neg hne] at hd
    obtain ⟨q, hq, hsolved, hweight⟩ := h.owner d hd
    refine ⟨q, mem_markSolved_peeled.mpr (Or.inl hq),
      by rw [markSolved_peeled_row hnot hq, hsolved], fun hd => ?_⟩
    rw [← hweight fun hd' => hd (List.mem_cons_of_mem c hd')]
    exact congrArg _ (setColumn_of_ne s c _ hne)

theorem Inv.markSolved (h : Inv m n s pend (some r) active) (hr : r < n) (hnot : ¬ s.Settled r)
    (hcount : (s.peelRows r).unmarkedCount ≤ 1) (hc : c ∈ columnsOf m s r)
    (htodo : s.isTodo c = true) (honly : ∀ d ∈ columnsOf m s r, d ≠ c → s.isTodo d = false) :
    Inv m n (s.markSolved r c) (Function.update pend c (s.peelColRefs c)) none (c :: active) := by
  have hothers : ∀ d, d ≠ c → (s.markSolved r c).isTodo d = s.isTodo d :=
    fun d hne => markSolved_isTodo s r hne
  have hrow : ∀ q, q ≠ r → (s.markSolved r c).peelRows q = s.peelRows q :=
    fun q => markSolved_of_ne s c
  refine
    { refs := fun d q => by rw [markSolved_columnsOf]; exact h.refs d q
      refs_nodup := h.refs_nodup
      pending := h.pending_marking c
      pending_todo := h.pending_todo_marking hothers (markSolved_not_todo s r c)
      settled_lt := fun q hq => ?_
      once := h.once_markSolved hnot
      dead := fun q hq => ?_
      live := fun q hq hnotq hbusy => ?_
      solves := fun before q after hsplit => ?_
      owner := h.owner_markSolved hnot
      deferred := fun d => ?_
      deferred_nodup := h.deferred_nodup }
  · rcases markSolved_settled.mp hq with hq | rfl
    · exact h.settled_lt q hq
    · exact hr
  · by_cases hqr : q = r
    · subst hqr
      refine ⟨fun d hd => ?_, Or.inl (by rw [markSolved_self]; exact hcount)⟩
      rw [markSolved_columnsOf] at hd
      rcases eq_or_ne d c with rfl | hne
      · exact markSolved_not_todo s q d
      · rw [hothers d hne, honly d hd hne]
    · have hold := (markSolved_settled.mp hq).resolve_right hqr
      exact (h.dead q hold).marking htodo (by rw [hrow q hqr]) (by rw [hrow q hqr]) hothers
  · have hold := not_or.mp (mt markSolved_settled.mpr hnotq)
    exact (h.live q hq hold.1 (by simpa using Ne.symm hold.2)).marking htodo (hrow q hold.2) hothers
      fun hc => (h.refs c q).mpr ⟨hq, hc⟩
  · have hsplit : s.peeled ++ [r] = before ++ q :: after := hsplit
    rcases List.eq_nil_or_concat after with rfl | ⟨after', last, rfl⟩
    · obtain ⟨rfl, hrq⟩ := List.append_inj' hsplit rfl
      cases hrq
      exact h.solves_markSolved hnot hc htodo honly
    · rw [List.concat_eq_append, ← List.cons_append, ← List.append_assoc] at hsplit
      have hold := (List.append_inj' hsplit rfl).1
      refine (h.solves before q after' hold).markSolved hnot htodo fun p hp => ?_
      rw [hold]
      rcases hp with rfl | hp
      · exact List.mem_append_right _ List.mem_cons_self
      · exact List.mem_append_left _ hp
  · have hdefers : (s.markSolved r c).deferColumns = s.deferColumns := rfl
    rw [markSolved_mark, hdefers, ← h.deferred]
    split
    · rename_i heq
      rw [heq, (isTodo_iff s c).mp htodo]
      simp
    · rfl

end MarkSolved

end PeelState
end Sankaku
