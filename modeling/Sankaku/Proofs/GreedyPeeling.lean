import Sankaku.Model.WirehairBlocks
import Sankaku.Proofs.PeelRun

namespace Sankaku
namespace PeelState

variable {m : Matrix} {n fuel : Nat} {s : PeelState}

/-- Between two calls. -/
structure Ready (m : Matrix) (n : Nat) (s : PeelState) : Prop where
  inv : Inv m n s quiet none []
  deferColumns_lt : ∀ c ∈ s.deferColumns, c < m.blockCount

/-- The seeds of the rows taken, in their order. -/
def seeds (n : Nat) (s : PeelState) : List UInt32 :=
  (List.range n).map fun r => (s.peelRows r).recoveryId

theorem seeds_offered {rowSeed : UInt32} {taken : Bool} {s' : PeelState}
    (h : Offered m n rowSeed s taken s') :
    seeds (if taken then n + 1 else n) s' = seeds n s ++ if taken then [rowSeed] else [] := by
  have hold : seeds n s' = seeds n s := List.map_congr_left fun r hr =>
    h.ids r (Nat.ne_of_lt (List.mem_range.mp hr))
  cases taken with
  | false => rw [if_neg Bool.false_ne_true, if_neg Bool.false_ne_true, List.append_nil, hold]
  | true =>
    rw [if_pos rfl, if_pos rfl, ← hold, ← h.seed rfl]
    simp only [seeds, List.range_succ, List.map_append, List.map_cons, List.map_nil]

theorem feedRows_spec (wf : m.Wellformed) (hfuel : m.blockCount ≤ fuel) (rowSeeds : List UInt32)
    (h : Inv m n s quiet none []) :
    ∃ n' s', rowSeeds.foldlM (feedRow m fuel) (n, s) = some (n', s') ∧
      Inv m n' s' quiet none [] ∧ s'.deferColumns = s.deferColumns ∧
      ∃ kept, seeds n' s' = seeds n s ++ kept ∧ kept.Sublist rowSeeds := by
  induction rowSeeds generalizing n s with
  | nil => exact ⟨n, s, rfl, h, rfl, [], (List.append_nil _).symm, List.Sublist.refl _⟩
  | cons rowSeed rowSeeds ih =>
    obtain ⟨taken, s1, hs1, hoffered⟩ := opportunisticPeeling_spec wf hfuel h rowSeed
    obtain ⟨n', s', hs', hinv, hdefers, kept, hseeds, hkept⟩ := ih hoffered.inv
    refine ⟨n', s', ?_, hinv, hdefers.trans hoffered.deferColumns,
      (if taken then [rowSeed] else []) ++ kept, ?_, ?_⟩
    · rw [List.foldlM_cons, feedRow]
      simp only [hs1, Option.bind_eq_bind, Option.bind_some]
      exact hs'
    · rw [hseeds, seeds_offered hoffered, List.append_assoc]
    · split
      · exact hkept.cons_cons rowSeed
      · exact hkept.cons rowSeed

theorem betterColumn_eq (s : PeelState) (best : Option (Nat × Nat × Nat)) (c : Nat) :
    (s.isTodo c = true ∧ ∃ x, s.betterColumn best c = some (c, x)) ∨
      s.betterColumn best c = best ∧ (s.isTodo c = true → best ≠ none) := by
  rw [betterColumn]
  split
  · rename_i htodo
    dsimp only
    split
    · exact Or.inl ⟨htodo, _, rfl⟩
    · rename_i hworse
      refine Or.inr ⟨rfl, fun _ hnone => hworse ?_⟩
      rw [hnone]
      exact ⟨Nat.zero_le _, Or.inr (Nat.zero_le _)⟩
  · rename_i hmarked
    exact Or.inr ⟨rfl, fun htodo => absurd htodo hmarked⟩

/-- The best of some columns is one of them that has no mark, if there is any. -/
theorem foldl_betterColumn (s : PeelState) (columns : List Nat) (best : Option (Nat × Nat × Nat)) :
    match columns.foldl s.betterColumn best with
    | none => best = none ∧ ∀ c ∈ columns, s.isTodo c = false
    | some (c, x) => best = some (c, x) ∨ c ∈ columns ∧ s.isTodo c = true := by
  induction columns generalizing best with
  | nil =>
    match best with
    | none => exact ⟨rfl, nofun⟩
    | some (c, x) => exact Or.inl rfl
  | cons d columns ih =>
    have htail := ih (s.betterColumn best d)
    rw [List.foldl_cons]
    split at htail
    · obtain ⟨hnone, hmarked⟩ := htail
      rcases betterColumn_eq s best d with ⟨_, x, hx⟩ | ⟨hsame, hbest⟩
      · rw [hx] at hnone
        cases hnone
      · rw [hsame] at hnone
        refine ⟨hnone, fun c hc => ?_⟩
        rcases List.mem_cons.mp hc with rfl | hc
        · rw [Bool.eq_false_iff]
          exact fun htodo => hbest htodo hnone
        · exact hmarked c hc
    · rename_i c x _
      rcases htail with hhead | ⟨hc, htodo⟩
      · rcases betterColumn_eq s best d with ⟨htodo, y, hy⟩ | ⟨hsame, _⟩
        · rw [hy] at hhead
          cases hhead
          exact Or.inr ⟨List.mem_cons_self, htodo⟩
        · exact Or.inl (hsame ▸ hhead)
      · exact Or.inr ⟨List.mem_cons_of_mem d hc, htodo⟩

theorem bestColumn_none (h : s.bestColumn m = none) (hc : c < m.blockCount) :
    s.isTodo c = false := by
  have hbest := foldl_betterColumn s (List.range m.blockCount) none
  rw [Option.map_eq_none_iff.mp h] at hbest
  exact hbest.2 c (List.mem_range.mpr hc)

theorem bestColumn_some (h : s.bestColumn m = some c) : c < m.blockCount ∧ s.isTodo c = true := by
  have hbest := foldl_betterColumn s (List.range m.blockCount) none
  obtain ⟨⟨d, x⟩, hfold, hd⟩ := Option.map_eq_some_iff.mp h
  cases hd
  rw [hfold] at hbest
  rcases hbest with hnone | ⟨hc, htodo⟩
  · cases hnone
  · exact ⟨List.mem_range.mp hc, htodo⟩

theorem deferColumn_spec (wf : m.Wellformed) (hfuel : m.blockCount ≤ fuel) (h : Ready m n s)
    (hlt : c < m.blockCount) (htodo : s.isTodo c = true) :
    ∃ s', deferColumn m fuel c s = some s' ∧ Ready m n s' ∧
      todoCount m s' < todoCount m s ∧ seeds n s' = seeds n s := by
  have hless : todoCount m (s.markDeferred c) + 1 = todoCount m s :=
    todoCount_marked hlt htodo (setColumn_not_todo s nofun) fun d hne => setColumn_isTodo s hne _
  have hle := todoCount_le m s
  obtain ⟨s', hs', hinv, hgrows⟩ := peelAvalancheOnSolve_spec (n := n) wf fuel c (s.markDeferred c)
    quiet [] (h.inv.markDeferred htodo) (by omega)
  have hquiet : Function.update quiet c [] = quiet := Function.update_eq_self c quiet
  have hcolumns : s'.deferColumns = c :: s.deferColumns := hgrows.deferColumns
  refine ⟨s', hs', ⟨hquiet ▸ hinv, fun d hd => ?_⟩, ?_, List.map_congr_left fun r _ => hgrows.ids r⟩
  · rw [hcolumns] at hd
    rcases List.mem_cons.mp hd with rfl | hd
    · exact hlt
    · exact h.deferColumns_lt d hd
  · have := hgrows.todoCount_le (m := m)
    omega

theorem greedyPeeling_spec (wf : m.Wellformed) (hfuel : m.blockCount ≤ fuel) (h : Ready m n s)
    (hturns : todoCount m s < turns) :
    ∃ s', greedyPeeling m fuel turns s = some s' ∧ Ready m n s' ∧
      (∀ c < m.blockCount, s'.isTodo c = false) ∧ seeds n s' = seeds n s := by
  induction turns generalizing s with
  | zero => exact absurd hturns (Nat.not_lt_zero _)
  | succ turns ih =>
    rw [greedyPeeling]
    split
    · rename_i hnone
      exact ⟨s, rfl, h, fun c hc => bestColumn_none hnone hc, rfl⟩
    · rename_i c hsome
      obtain ⟨hlt, htodo⟩ := bestColumn_some hsome
      obtain ⟨s1, hs1, hready, hless, hseeds⟩ := deferColumn_spec wf hfuel h hlt htodo
      obtain ⟨s', hs', hready', hdone, hseeds'⟩ := ih hready (by omega)
      refine ⟨s', ?_, hready', hdone, hseeds'.trans hseeds⟩
      rw [hs1]
      exact hs'

/-- Each row is either peeled or deferred, each column either solved by one
peeled row or deferred, and a peeled row needs no column but deferred ones and
those of the rows before it. -/
structure Peeled (m : Matrix) (n : Nat) (s : PeelState) : Prop where
  rows : (s.peeled ++ s.deferRows).Perm (List.range n)
  columns : (s.peeled.map s.solved ++ s.deferColumns).Perm (List.range m.blockCount)
  solves : ∀ r ∈ s.peeled, s.solved r ∈ columnsOf m s r ∧
    (s.peelCols (s.solved r)).weight2RefsOrPeelRow = r
  order : ∀ before r after, s.peeled = before ++ r :: after → ∀ d ∈ columnsOf m s r,
    d ∈ s.deferColumns ∨ d = s.solved r ∨ d ∈ before.map s.solved

theorem Peeled.counts (h : Peeled m n s) :
    s.deferRows.length + m.blockCount = n + s.deferColumns.length := by
  have hrows := h.rows.length_eq
  have hcolumns := h.columns.length_eq
  simp only [List.length_append, List.length_map, List.length_range] at hrows hcolumns
  omega

theorem solved_of_result (h : (s.peelRows r).marks = .result c) : s.solved r = c := by
  rw [solved, h]

theorem Solves.solved (h : s.Solves m before r) :
    (s.peelRows r).marks = .result (s.solved r) ∧ s.solved r ∈ columnsOf m s r ∧
      s.mark (s.solved r) = .peel := by
  obtain ⟨c, hc, hresult, hpeel, _⟩ := h
  rw [solved_of_result hresult]
  exact ⟨hresult, hc, hpeel⟩

theorem Ready.result (h : Ready m n s) (hr : r ∈ s.peeled) :
    (s.peelRows r).marks = .result (s.solved r) ∧ s.solved r ∈ columnsOf m s r ∧
      s.mark (s.solved r) = .peel := by
  obtain ⟨before, after, hsplit⟩ := List.append_of_mem hr
  exact (h.inv.solves before r after hsplit).solved

theorem Ready.solved_nodup (h : Ready m n s) : (s.peeled.map s.solved).Nodup := by
  rw [List.nodup_iff_pairwise_ne, List.pairwise_map, List.pairwise_iff_getElem]
  intro i j hi hj hij heq
  have hsplit : s.peeled = s.peeled.take j ++ s.peeled[j] :: s.peeled.drop (j + 1) := by
    rw [List.getElem_cons_drop, List.take_append_drop]
  obtain ⟨c, _, hresult, _, hnew, _⟩ := h.inv.solves _ _ _ hsplit
  have hbefore : s.peeled[i] ∈ s.peeled.take j := by
    rw [List.mem_take_iff_getElem]
    exact ⟨i, by omega, rfl⟩
  refine hnew _ hbefore ?_
  rw [(h.result (List.getElem_mem hi)).1, heq, solved_of_result hresult]

/-- A row still waiting would have at least two columns without a mark. -/
theorem Ready.settled (h : Ready m n s) (wf : m.Wellformed)
    (hdone : ∀ c < m.blockCount, s.isTodo c = false) (hr : r < n) : s.Settled r := by
  by_contra hnot
  have hlive := h.inv.live r hr hnot nofun
  have hnone : openColumns m s quiet r = [] := by
    rw [openColumns_quiet, List.filter_eq_nil_iff]
    intro c hc
    rw [hdone c (wf.columns_lt _ c hc)]
    exact Bool.false_ne_true
  have hcount := hlive.count
  have htwo := hlive.two_le
  rw [hnone, List.length_nil] at hcount
  omega

theorem Ready.peeled (h : Ready m n s) (wf : m.Wellformed)
    (hdone : ∀ c < m.blockCount, s.isTodo c = false) : Peeled m n s where
  rows := by
    refine (List.perm_ext_iff_of_nodup h.inv.once List.nodup_range).mpr fun r => ?_
    rw [List.mem_append, List.mem_range]
    exact ⟨h.inv.settled_lt r, h.settled wf hdone⟩
  columns := by
    refine (List.perm_ext_iff_of_nodup (List.nodup_append.mpr ⟨h.solved_nodup,
      h.inv.deferred_nodup, ?_⟩) List.nodup_range).mpr fun c => ?_
    · rintro c hc d hd rfl
      obtain ⟨r, hr, rfl⟩ := List.mem_map.mp hc
      have hpeel := (h.result hr).2.2
      rw [(h.inv.deferred _).mpr hd] at hpeel
      cases hpeel
    · rw [List.mem_append, List.mem_range]
      constructor
      · rintro (hc | hc)
        · obtain ⟨r, hr, rfl⟩ := List.mem_map.mp hc
          exact wf.columns_lt _ _ (h.result hr).2.1
        · exact h.deferColumns_lt c hc
      · intro hc
        have hmarked := hdone c hc
        rw [Bool.eq_false_iff, ne_eq, isTodo_iff] at hmarked
        cases hmark : s.mark c with
        | todo => exact absurd hmark hmarked
        | defer => exact Or.inr ((h.inv.deferred c).mp hmark)
        | peel =>
          obtain ⟨r, hr, hresult, _⟩ := h.inv.owner c hmark
          exact Or.inl (List.mem_map.mpr ⟨r, hr, solved_of_result hresult⟩)
  solves r hr := by
    obtain ⟨hresult, hcol, hpeel⟩ := h.result hr
    refine ⟨hcol, ?_⟩
    obtain ⟨q, hq, hqresult, hweight⟩ := h.inv.owner _ hpeel
    have hsame : q = r := List.inj_on_of_nodup_map h.solved_nodup hq hr
      (solved_of_result hqresult)
    rw [hweight List.not_mem_nil, hsame]
  order before r after hsplit d hd := by
    obtain ⟨c, _, hresult, _, _, hothers⟩ := h.inv.solves before r after hsplit
    rcases eq_or_ne d c with rfl | hne
    · exact Or.inr (Or.inl (solved_of_result hresult).symm)
    · rcases hothers d hd hne with hdefer | ⟨q, hq, hqresult⟩
      · exact Or.inl ((h.inv.deferred d).mp hdefer)
      · exact Or.inr (Or.inr (List.mem_map.mpr ⟨q, hq, solved_of_result hqresult⟩))

/-- All of peeling, for any rows in any order. -/
theorem peeling_ready (wf : m.Wellformed) (hfuel : m.blockCount < fuel) (memory : Nat → PeelRow)
    (rowSeeds : List UInt32) :
    ∃ n fed s, feedRows m fuel rowSeeds (start memory) = some (n, fed) ∧
      greedyPeeling m fuel fuel fed = some s ∧ Ready m n s ∧ Peeled m n s ∧
      (seeds n s).Sublist rowSeeds := by
  obtain ⟨n, fed, hfed, hinv, hdefers, kept, hseeds, hkept⟩ := feedRows_spec (n := 0)
    (s := start memory) wf (Nat.le_of_lt hfuel) rowSeeds (Inv.start m memory)
  have hready : Ready m n fed := ⟨hinv, by rw [hdefers]; exact nofun⟩
  obtain ⟨s, hs, hdone, hmarked, hsame⟩ := greedyPeeling_spec wf (Nat.le_of_lt hfuel) hready
    (Nat.lt_of_le_of_lt (todoCount_le m fed) hfuel)
  refine ⟨n, fed, s, hfed, hs, hdone, hdone.peeled wf hmarked, ?_⟩
  rw [hsame, hseeds]
  exact hkept

theorem peeling_spec (wf : m.Wellformed) (hfuel : m.blockCount < fuel) (memory : Nat → PeelRow)
    (rowSeeds : List UInt32) :
    ∃ n fed s, feedRows m fuel rowSeeds (start memory) = some (n, fed) ∧
      greedyPeeling m fuel fuel fed = some s ∧ Peeled m n s ∧ (seeds n s).Sublist rowSeeds := by
  obtain ⟨n, fed, s, hfed, hs, _, hpeeled, hseeds⟩ := peeling_ready wf hfuel memory rowSeeds
  exact ⟨n, fed, s, hfed, hs, hpeeled, hseeds⟩

/-- Whatever matrix is chosen, whatever rows are offered and whatever the memory
held, peeling ends within a recursion as deep as there are columns, without a
union misread, and leaves a triangular system. -/
theorem peeling_triangular (hfuel : 2 ^ 16 ≤ fuel)
    (h : chooseMatrix getPeelSeed fuel messageBytes blockBytes = some (.ok m))
    (hdepth : m.blockCount < depth) (memory : Nat → PeelRow) (rowSeeds : List UInt32) :
    ∃ n fed s, feedRows m depth rowSeeds (start memory) = some (n, fed) ∧
      greedyPeeling m depth depth fed = some s ∧ (seeds n s).Sublist rowSeeds ∧ Peeled m n s ∧
      s.deferRows.length + m.blockCount = n + s.deferColumns.length := by
  obtain ⟨n, fed, s, hfed, hs, hpeeled, hseeds⟩ :=
    peeling_spec (chooseMatrix_wellformed hfuel h).1 hdepth memory rowSeeds
  exact ⟨n, fed, s, hfed, hs, hseeds, hpeeled, hpeeled.counts⟩

theorem peeling_triangular_five :
    ∃ m, chooseMatrix (fun _ => 7) (2 ^ 16) 10 2 = some (.ok m) ∧
      ∃ n fed s, feedRows m 6 [0, 1, 2, 9, 4] (start fun _ => ⟨0, 0, .result 0⟩) = some (n, fed) ∧
        greedyPeeling m 6 6 fed = some s ∧ (seeds n s).Sublist [0, 1, 2, 9, 4] ∧ Peeled m n s ∧
        s.deferRows.length + m.blockCount = n + s.deferColumns.length := by
  have hkept : keptBlocks 10 2 = 5 := by decide
  rcases chooseMatrix_answers (fun _ => 7) (Nat.le_refl (2 ^ 16)) 10 2 with
    ⟨_, _, hwhy⟩ | ⟨m, hm, _, _, _, _, hcount, _⟩
  · rw [hkept] at hwhy
    exact absurd hwhy (by decide)
  · exact ⟨m, hm, peeling_triangular (Nat.le_refl (2 ^ 16)) hm (by omega) _ _⟩

end PeelState
end Sankaku
