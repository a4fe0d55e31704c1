import Sankaku.Proofs.Avalanche

namespace Sankaku
namespace PeelState

theorem addRefs_taken (hnodup : columns.Nodup) (h : addRefs r columns refs = (refs', none)) :
    (∀ c ∈ columns, (refs c).length < refListMax) ∧
      ∀ c, refs' c = if c ∈ columns then refs c ++ [r] else refs c := by
  induction columns generalizing refs with
  | nil =>
    cases h
    exact ⟨nofun, fun c => (if_neg List.not_mem_nil).symm⟩
  | cons d columns ih =>
    obtain ⟨hd, hnodup⟩ := List.nodup_cons.mp hnodup
    rw [addRefs] at h
    split at h
    · cases h
    · rename_i hroom
      obtain ⟨hrooms, hrefs⟩ := ih hnodup h
      constructor
      · intro c hc
        rcases List.mem_cons.mp hc with rfl | hc
        · exact Nat.lt_of_not_le hroom
        · have := hrooms c hc
          rwa [Function.update_of_ne (ne_of_mem_of_not_mem hc hd)] at this
      · intro c
        rw [hrefs]
        rcases eq_or_ne c d with rfl | hne
        · rw [if_neg hd, if_pos List.mem_cons_self, Function.update_self]
        · rw [Function.update_of_ne hne]
          simp [hne]

theorem fixPeelFailure_update (hc : c ∉ columns) :
    fixPeelFailure fail columns (Function.update refs c xs) =
      Function.update (fixPeelFailure fail columns refs) c xs := by
  induction columns generalizing refs with
  | nil => rfl
  | cons d columns ih =>
    obtain ⟨hd, hc⟩ := not_or.mp (mt List.mem_cons.mpr hc)
    rw [fixPeelFailure, fixPeelFailure]
    split
    · rfl
    · rw [Function.update_of_ne (Ne.symm hd), Function.update_comm hd, ih hc]

theorem addRefs_of_not_mem (hc : c ∉ columns) : (addRefs r columns refs).1 c = refs c := by
  induction columns generalizing refs with
  | nil => rfl
  | cons d columns ih =>
    obtain ⟨hd, hc⟩ := not_or.mp (mt List.mem_cons.mpr hc)
    rw [addRefs]
    split
    · rfl
    · rw [ih hc, Function.update_of_ne hd]

/-- A row that is refused leaves no reference behind. -/
theorem addRefs_refused (hnodup : columns.Nodup) (h : addRefs r columns refs = (refs', some fail)) :
    fail ∈ columns ∧ ¬ (refs fail).length < refListMax ∧
      fixPeelFailure fail columns refs' = refs := by
  induction columns generalizing refs with
  | nil => cases h
  | cons d columns ih =>
    obtain ⟨hd, hnodup⟩ := List.nodup_cons.mp hnodup
    have hsame : (addRefs r columns (Function.update refs d (refs d ++ [r]))).1 d =
        Function.update refs d (refs d ++ [r]) d := addRefs_of_not_mem hd
    rw [addRefs] at h
    split at h
    · rename_i hfull
      cases h
      exact ⟨List.mem_cons_self, Nat.not_lt.mpr hfull, by rw [fixPeelFailure, if_pos rfl]⟩
    · obtain ⟨hfail, hfull, hfix⟩ := ih hnodup h
      have hne : d ≠ fail := fun heq => hd (heq ▸ hfail)
      rw [Function.update_of_ne hne.symm] at hfull
      rw [h, Function.update_self] at hsame
      dsimp only at hsame
      refine ⟨List.mem_cons_of_mem d hfail, hfull, ?_⟩
      rw [fixPeelFailure, if_neg hne, fixPeelFailure_update hd, hfix, hsame, List.dropLast_concat,
        Function.update_idem, Function.update_eq_self]

/-- No avalanche is under way. -/
def quiet : Pending := fun _ => []

variable {m : Matrix} {n fuel : Nat} {s : PeelState}

theorem openColumns_quiet (m : Matrix) (s : PeelState) (r : Nat) :
    openColumns m s quiet r = (columnsOf m s r).filter s.isTodo :=
  List.filter_congr fun c _ => by simp [quiet]

/-- A slot beyond those taken may hold anything. -/
theorem Inv.setFree (h : Inv m n s quiet none []) (row : PeelRow) :
    Inv m n (s.setRow n row) quiet none [] := by
  have hne : ∀ r, r < n → r ≠ n := fun r => Nat.ne_of_lt
  have hrow : ∀ r, r < n → (s.setRow n row).peelRows r = s.peelRows r :=
    fun r hr => setRow_of_ne s n row (hne r hr)
  have hcols : ∀ r, r < n → columnsOf m (s.setRow n row) r = columnsOf m s r := fun r hr => by
    rw [columnsOf, hrow r hr, columnsOf]
  have hpeeled : ∀ r ∈ s.peeled, r < n := fun r hr => h.settled_lt r (Or.inl hr)
  refine
    { refs := fun c r => ?_
      refs_nodup := h.refs_nodup
      pending := h.pending
      pending_todo := h.pending_todo
      settled_lt := h.settled_lt
      once := h.once
      dead := fun r hr => ?_
      live := fun r hr hnot hbusy => (h.live r hr hnot hbusy).congr (hrow r hr) fun _ _ => rfl
      solves := fun before r after hsplit => ?_
      owner := fun c hc => ?_
      deferred := h.deferred
      deferred_nodup := h.deferred_nodup }
  · rw [setRow_peelColRefs, h.refs]
    exact and_congr_right fun hr => by rw [hcols r hr]
  · have := hrow r (h.settled_lt r hr)
    exact (h.dead r hr).congr (by rw [this]) (by rw [this]) fun _ _ hd => ⟨hd, rfl⟩
  · have hsplit : s.peeled = before ++ r :: after := hsplit
    have hin : ∀ q, q = r ∨ q ∈ before → q < n := by
      intro q hq
      refine hpeeled q ?_
      rw [hsplit]
      rcases hq with rfl | hq
      · exact List.mem_append_right _ List.mem_cons_self
      · exact List.mem_append_left _ hq
    exact (h.solves before r after hsplit).congr (by rw [hrow r (hin r (Or.inl rfl))])
      (fun q hq => by rw [hrow q (hin q hq)]) fun _ _ => rfl
  · obtain ⟨r, hr, hsolved, hweight⟩ := h.owner c hc
    exact ⟨r, hr, by rw [hrow r (hpeeled r hr), hsolved], hweight⟩

/-- The slot is filled: its columns refer to it. -/
theorem Inv.fill {filled : Nat → List Nat} (h : Inv m n s quiet none [])
    (hfilled : ∀ c, filled c =
      if c ∈ columnsOf m s n then s.peelColRefs c ++ [n] else s.peelColRefs c) :
    Inv m (n + 1) { s with peelColRefs := filled } quiet (some n) [] := by
  refine
    { refs := fun c r => ?_
      refs_nodup := fun c => ?_
      pending := fun c => List.nil_sublist _
      pending_todo := fun _ _ => rfl
      settled_lt := fun r hr => Nat.lt_succ_of_lt (h.settled_lt r hr)
      once := h.once
      dead := fun r hr => ⟨(h.dead r hr).marked, (h.dead r hr).count⟩
      live := fun r hr hnot hbusy => ?_
      solves := h.solves
      owner := h.owner
      deferred := h.deferred
      deferred_nodup := h.deferred_nodup }
  · have hcols : columnsOf m { s with peelColRefs := filled } r = columnsOf m s r := rfl
    show r ∈ filled c ↔ _
    rw [hfilled, hcols]
    split
    · rename_i hc
      rw [List.mem_append, List.mem_singleton, h.refs]
      constructor
      · rintro (⟨hr, hcr⟩ | rfl)
        · exact ⟨Nat.lt_succ_of_lt hr, hcr⟩
        · exact ⟨Nat.lt_succ_self r, hc⟩
      · rintro ⟨hr, hcr⟩
        rcases Nat.lt_or_eq_of_le (Nat.le_of_lt_succ hr) with hr | rfl
        · exact Or.inl ⟨hr, hcr⟩
        · exact Or.inr rfl
    · rename_i hc
      rw [h.refs]
      constructor
      · rintro ⟨hr, hcr⟩
        exact ⟨Nat.lt_succ_of_lt hr, hcr⟩
      · rintro ⟨hr, hcr⟩
        rcases Nat.lt_or_eq_of_le (Nat.le_of_lt_succ hr) with hr | rfl
        · exact ⟨hr, hcr⟩
        · exact absurd hcr hc
  · show (filled c).Nodup
    rw [hfilled]
    split
    · refine List.nodup_append.mpr ⟨h.refs_nodup c, List.nodup_singleton n, ?_⟩
      intro a ha b hb
      rw [List.mem_singleton] at hb
      have := ((h.refs c a).mp ha).1
      omega
    · exact h.refs_nodup c
  · have hne : r ≠ n := fun heq => hbusy (heq ▸ rfl)
    have hlive := h.live r (by omega) hnot nofun
    exact ⟨hlive.count, hlive.two_le, hlive.marks⟩

theorem Inv.enliven (h : Inv m n s pend (some r) active) (hlive : s.Live m pend r) :
    Inv m n s pend none active := by
  refine { h with live := fun q hq hnot _ => ?_ }
  rcases eq_or_ne q r with rfl | hne
  · exact hlive
  · exact h.live q hq hnot (by simpa using hne.symm)

theorem Inv.start (m : Matrix) (memory : Nat → PeelRow) :
    Inv m 0 (start memory) quiet none [] where
  refs c r := ⟨nofun, fun h => absurd h.1 (Nat.not_lt_zero r)⟩
  refs_nodup _ := List.nodup_nil
  pending _ := List.Sublist.refl _
  pending_todo _ _ := rfl
  settled_lt r hr := hr.elim nofun nofun
  once := List.nodup_nil
  dead r hr := hr.elim nofun nofun
  live r hr := absurd hr (Nat.not_lt_zero r)
  solves before r after h := by cases before <;> cases h
  owner c hc := nomatch hc
  deferred c := ⟨nofun, nofun⟩
  deferred_nodup := List.nodup_nil

theorem todoCount_le (m : Matrix) (s : PeelState) : todoCount m s ≤ m.blockCount :=
  Nat.le_trans (List.length_filter_le _ _) (Nat.le_of_eq List.length_range)

/-- What becomes of a state when a row with this seed is offered to it. -/
structure Offered (m : Matrix) (n : Nat) (rowSeed : UInt32) (s : PeelState) (taken : Bool)
    (s' : PeelState) : Prop where
  inv : Inv m (if taken then n + 1 else n) s' quiet none []
  room : taken = true ↔ ∀ c ∈ m.columns rowSeed, (s.peelColRefs c).length < refListMax
  refs : ∀ c, s'.peelColRefs c =
    if taken ∧ c ∈ m.columns rowSeed then s.peelColRefs c ++ [n] else s.peelColRefs c
  seed : taken = true → (s'.peelRows n).recoveryId = rowSeed
  ids : ∀ r, r ≠ n → (s'.peelRows r).recoveryId = (s.peelRows r).recoveryId
  deferColumns : s'.deferColumns = s.deferColumns

/-- A slot with its final contents, and the references to it. -/
def place (s : PeelState) (n : Nat) (row : PeelRow) (filled : Nat → List Nat) : PeelState :=
  { s.setRow n row with peelColRefs := filled }

theorem Offered.taken {filled : Nat → List Nat} {row : PeelRow} {rowSeed : UInt32}
    {s' : PeelState} (hid : row.recoveryId = rowSeed)
    (hrooms : ∀ c ∈ m.columns rowSeed, (s.peelColRefs c).length < refListMax)
    (hfilled : ∀ c, filled c =
      if c ∈ m.columns rowSeed then s.peelColRefs c ++ [n] else s.peelColRefs c)
    (hinv : Inv m (n + 1) s' quiet none []) (hgrows : Grows (s.place n row filled) s') :
    Offered m n rowSeed s true s' where
  inv := hinv
  room := iff_of_true rfl hrooms
  refs c := by
    rw [hgrows.refs]
    simp only [true_and]
    exact hfilled c
  seed _ := by
    rw [hgrows.ids, ← hid]
    exact congrArg PeelRow.recoveryId (setRow_self s n row)
  ids r hr := by
    rw [hgrows.ids]
    exact congrArg PeelRow.recoveryId (setRow_of_ne s n row hr)
  deferColumns := hgrows.deferColumns

theorem columnsOf_place {filled : Nat → List Nat} {row : PeelRow} :
    columnsOf m (s.place n row filled) n = m.columns row.recoveryId :=
  congrArg (fun row : PeelRow => m.columns row.recoveryId) (setRow_self s n row)

theorem Inv.place {filled : Nat → List Nat} {row : PeelRow} (h : Inv m n s quiet none [])
    (hfilled : ∀ c, filled c =
      if c ∈ m.columns row.recoveryId then s.peelColRefs c ++ [n] else s.peelColRefs c) :
    Inv m (n + 1) (s.place n row filled) quiet (some n) [] := by
  refine (h.setFree row).fill fun c => ?_
  rw [hfilled, columnsOf, setRow_self]
  rfl

/-- A row of as many columns as are still to be marked, two at least, waits. -/
theorem Live.place {filled : Nat → List Nat} {row : PeelRow}
    (hcount : row.unmarkedCount = ((m.columns row.recoveryId).filter s.isTodo).length)
    (htwo : 2 ≤ row.unmarkedCount)
    (hmarks : row.unmarkedCount = 2 → ∃ first second, row.marks = .unmarked first second ∧
      (m.columns row.recoveryId).filter s.isTodo = [first, second]) :
    (s.place n row filled).Live m quiet n := by
  have hself : (s.place n row filled).peelRows n = row := setRow_self s n row
  have hopen : openColumns m (s.place n row filled) quiet n =
      (m.columns row.recoveryId).filter s.isTodo := by
    rw [openColumns_quiet, columnsOf_place]
    rfl
  refine ⟨by rw [hself, hopen, hcount], by rw [hself]; exact htwo, fun h => ?_⟩
  rw [hself] at h
  obtain ⟨first, second, hfirst, hboth⟩ := hmarks h
  refine ⟨first, second, by rw [hself, hfirst], fun c => ?_⟩
  rw [hopen, hboth, List.mem_pair]

theorem Offered.refused {rowSeed : UInt32} {row : PeelRow} {refs : Nat → List Nat}
    (h : Inv m n s quiet none []) (hrefs : refs = s.peelColRefs)
    (hfull : ∃ c ∈ m.columns rowSeed, ¬ (s.peelColRefs c).length < refListMax) :
    Offered m n rowSeed s false { s.setRow n row with peelColRefs := refs } := by
  subst hrefs
  obtain ⟨c, hc, hfull⟩ := hfull
  exact
    { inv := h.setFree row
      room := ⟨nofun, fun hrooms => absurd (hrooms c hc) hfull⟩
      refs := fun c => by simp
      seed := nofun
      ids := fun r hr => congrArg PeelRow.recoveryId (setRow_of_ne s n row hr)
      deferColumns := rfl }

section Taken

variable {filled : Nat → List Nat} {row : PeelRow} {rowSeed : UInt32}

theorem place_row : (s.place n row filled).peelRows n = row :=
  setRow_self s n row

theorem Inv.not_settled_place (h : Inv m n s quiet none []) :
    ¬ (s.place n row filled).Settled n :=
  fun hn => absurd (h.settled_lt n hn) (Nat.lt_irrefl n)

-- The row is taken: it fills the slot and its columns refer to it.
variable (h : Inv m n s quiet none []) (hid : row.recoveryId = rowSeed)
  (hrooms : ∀ c ∈ m.columns rowSeed, (s.peelColRefs c).length < refListMax)
  (hfilled : ∀ c, filled c =
    if c ∈ m.columns rowSeed then s.peelColRefs c ++ [n] else s.peelColRefs c)
include h hid hrooms hfilled

/-- All columns of the row are marked. -/
theorem Offered.deferred (hunmarked : (m.columns rowSeed).filter s.isTodo = [])
    (hcount : row.unmarkedCount = 0) :
    Offered m n rowSeed s true ((s.place n row filled).deferRow n) := by
  subst hid
  have hmarked : ∀ c ∈ columnsOf m (s.place n row filled) n, s.isTodo c = false := by
    intro c hc
    rw [columnsOf_place] at hc
    have := List.filter_eq_nil_iff.mp hunmarked c hc
    rwa [Bool.not_eq_true] at this
  have hfew : ((s.place n row filled).peelRows n).unmarkedCount ≤ 1 := by
    rw [place_row, hcount]
    exact Nat.zero_le 1
  exact Offered.taken rfl hrooms hfilled
    ((h.place hfilled).deferBusy (Nat.lt_succ_self n) h.not_settled_place ⟨hmarked, Or.inl hfew⟩)
    (Grows.deferRow _ n)

/-- The row gives its one unmarked column. -/
theorem Offered.solved (wf : m.Wellformed) (hfuel : m.blockCount ≤ fuel)
    {x : Nat} (hunmarked : (m.columns rowSeed).filter s.isTodo = [x])
    (hcount : row.unmarkedCount = 1) :
    ∃ s', (solveWithPeel (peelAvalancheOnSolve m fuel) n x (s.place n row filled)).map (true, ·) =
        some (true, s') ∧ Offered m n rowSeed s true s' := by
  subst hid
  have hall : ∀ c, c = x ↔ c ∈ m.columns row.recoveryId ∧ s.isTodo c = true := fun c => by
    rw [← List.mem_filter, hunmarked, List.mem_singleton]
  obtain ⟨hmem, htodo⟩ := (hall x).mp rfl
  have hothers : ∀ d ∈ m.columns row.recoveryId, d ≠ x → s.isTodo d = false := by
    intro d hd hne
    rw [Bool.eq_false_iff]
    exact fun htodo => hne ((hall d).mpr ⟨hd, htodo⟩)
  have hfew : ((s.place n row filled).peelRows n).unmarkedCount ≤ 1 := by
    rw [place_row, hcount]
  have hin : x ∈ columnsOf m (s.place n row filled) n := by
    rw [columnsOf_place]
    exact hmem
  obtain ⟨s', hs', hinv, hgrows⟩ := solveWithPeel_spec (c := x) wf
    (peelAvalancheOnSolve_spec wf fuel) (h.place hfilled) (Nat.lt_succ_self n)
    h.not_settled_place hfew hin htodo
    (fun d hd => by
      rw [columnsOf_place] at hd
      exact hothers d hd)
    (Nat.lt_succ_of_le (Nat.le_trans (todoCount_le m _) hfuel))
  exact ⟨s', by rw [hs', Option.map_some], Offered.taken rfl hrooms hfilled hinv hgrows⟩

/-- The row waits, and counts at its two unmarked columns. -/
theorem Offered.weight2 {x y : Nat} (hunmarked : (m.columns rowSeed).filter s.isTodo = [x, y])
    (hcount : row.unmarkedCount = 2) (hmarks : row.marks = .unmarked x y) :
    Offered m n rowSeed s true
      (((s.place n row filled).addWeight2Ref x).addWeight2Ref y) := by
  subst hid
  have htodo : ∀ c, c = x ∨ c = y → (s.place n row filled).isTodo c = true := by
    intro c hc
    have : c ∈ (m.columns row.recoveryId).filter s.isTodo := by
      rw [hunmarked]
      exact List.mem_pair.mpr hc
    exact (List.mem_filter.mp this).2
  have hlive : (s.place n row filled).Live m quiet n :=
    Live.place (by rw [hunmarked]; exact hcount) (Nat.le_of_eq hcount.symm) fun _ =>
      ⟨x, y, hmarks, hunmarked⟩
  have hinv := ((h.place hfilled).enliven hlive).addWeight2Ref (htodo x (Or.inl rfl))
  have htodo' : ((s.place n row filled).addWeight2Ref x).isTodo y = true := by
    rw [addWeight2Ref_isTodo]
    exact htodo y (Or.inr rfl)
  exact Offered.taken rfl hrooms hfilled (hinv.addWeight2Ref htodo')
    ((Grows.addWeight2Ref _ x).trans (Grows.addWeight2Ref _ y))

/-- The row waits. -/
theorem Offered.waiting
    (hcount : row.unmarkedCount = ((m.columns rowSeed).filter s.isTodo).length)
    (hmany : 2 < row.unmarkedCount) :
    Offered m n rowSeed s true (s.place n row filled) := by
  subst hid
  have hlive : (s.place n row filled).Live m quiet n :=
    Live.place hcount (Nat.le_of_lt hmany) fun htwo => absurd htwo (Nat.ne_of_gt hmany)
  exact Offered.taken rfl hrooms hfilled ((h.place hfilled).enliven hlive) (Grows.refl _)

end Taken

/-- Every row is either taken or leaves nothing behind, and no step on the way
goes wrong. -/
theorem opportunisticPeeling_spec (wf : m.Wellformed) (hfuel : m.blockCount ≤ fuel)
    (h : Inv m n s quiet none []) (rowSeed : UInt32) :
    ∃ taken s', opportunisticPeeling m fuel n rowSeed s = some (taken, s') ∧
      Offered m n rowSeed s taken s' := by
  have hnodup : (m.columns rowSeed).Nodup := wf.columns_nodup rowSeed
  rw [opportunisticPeeling]
  dsimp only
  rw [setRow_peelColRefs]
  split
  · rename_i refs fail hadd
    obtain ⟨hfail, hfull, hfix⟩ := addRefs_refused hnodup hadd
    exact ⟨_, _, rfl, Offered.refused h hfix ⟨fail, hfail, hfull⟩⟩
  rename_i filled hadd
  obtain ⟨hrooms, hfilled⟩ := addRefs_taken hnodup hadd
  obtain ⟨first, hfirst⟩ : ∃ row, row = { s.peelRows n with recoveryId := rowSeed } := ⟨_, rfl⟩
  have hid : first.recoveryId = rowSeed := by rw [hfirst]
  have htodo : PeelState.isTodo { s.setRow n first with peelColRefs := filled } = s.isTodo := rfl
  have hplace : ∀ row, PeelState.setRow { s.setRow n first with peelColRefs := filled } n row =
      s.place n row filled := fun row =>
    congrArg (fun t : PeelState => { t with peelColRefs := filled }) (setRow_setRow s n first row)
  have hrow : ({ s.setRow n first with peelColRefs := filled } : PeelState).peelRows n = first :=
    setRow_self s n first
  rw [← hfirst, htodo, hrow]
  split
  · rename_i hunmarked
    refine ⟨true, _, rfl, ?_⟩
    rw [hplace, hunmarked]
    exact Offered.deferred h (by exact hid) hrooms hfilled hunmarked rfl
  · rename_i x hunmarked
    rw [hplace, hunmarked]
    exact ⟨true, Offered.solved h (by exact hid) hrooms hfilled wf hfuel hunmarked rfl⟩
  · rename_i x y hunmarked
    refine ⟨true, _, rfl, ?_⟩
    rw [hplace, hunmarked]
    exact Offered.weight2 h (by exact hid) hrooms hfilled hunmarked rfl rfl
  · rename_i hzero hone htwo
    refine ⟨true, _, rfl, ?_⟩
    rw [hplace]
    refine Offered.waiting h (by exact hid) hrooms hfilled rfl ?_
    rcases hunmarked : (m.columns rowSeed).filter s.isTodo with _ | ⟨x, _ | ⟨y, _ | ⟨z, l⟩⟩⟩
    · exact absurd hunmarked hzero
    · exact absurd hunmarked (hone x)
    · exact absurd hunmarked (htwo x y)
    · exact Nat.le_add_left 3 l.length

end PeelState
end Sankaku
