import Sankaku.Proofs.EncoderRun

namespace Sankaku
namespace Codec
open PeelState

variable {P : Platform} {E : Elimination} {c : Codec E} {messageBytes : UInt64} {w : UInt32}

/-- Between two calls, before the elimination. -/
structure Collecting (P : Platform) (messageBytes : UInt64) (w : UInt32) (c : Codec E) : Prop where
  chosen : chooseMatrix P.getPeelSeed (2 ^ 16) messageBytes w = some (.ok c.matrix)
  final : c.outputFinalBytes = partialFinalBytes messageBytes w
  whole : c.inputFinalBytes = w.toNat
  inv : Inv c.matrix c.rowCount c.peel quiet none []
  deferColumns : c.peel.deferColumns = []

/-- There are fewer rows than blocks, or the elimination has begun. -/
def Usable (P : Platform) (messageBytes : UInt64) (w : UInt32) (c : Codec E) : Prop :=
  c.Collecting P messageBytes w ∧ c.rowCount < c.blockCount ∨
    c.blockCount ≤ c.rowCount ∧ c.elimination ≠ none

theorem Collecting.wellformed (h : c.Collecting P messageBytes w) :
    c.matrix.Wellformed ∧ c.matrix.blockBytes = w ∧
      c.blockCount = keptBlocks messageBytes w := by
  obtain ⟨wf, hw, hcount, _⟩ := chooseMatrix_wellformed (Nat.le_refl _) h.chosen
  exact ⟨wf, hw, hcount⟩

theorem Collecting.initial (h : chosenMatrix P messageBytes w = some m) :
    (initializeDecoder (E := E) P messageBytes m).Collecting P messageBytes w ∧
      (initializeDecoder (E := E) P messageBytes m).rowCount <
        (initializeDecoder (E := E) P messageBytes m).blockCount := by
  rw [chosenMatrix] at h
  split at h
  swap
  · cases h
  rename_i hchosen
  cases h
  obtain ⟨_, hw, _, hmin, _⟩ := chooseMatrix_wellformed (Nat.le_refl _) hchosen
  exact ⟨⟨hchosen, by rw [← hw]; rfl, by rw [← hw]; rfl, Inv.start _ _, rfl⟩,
    Nat.lt_of_lt_of_le (show 0 < wirehairMinN by decide) hmin⟩

section
variable (c : Codec E) (blockId : UInt32)

@[simp] theorem noteOriginal_rowCount : (c.noteOriginal blockId).rowCount = c.rowCount := by
  rw [noteOriginal]
  split <;> rfl

@[simp] theorem noteOriginal_elimination :
    (c.noteOriginal blockId).elimination = c.elimination := by
  rw [noteOriginal]
  split <;> rfl

end

theorem Collecting.noted (h : c.Collecting P messageBytes w) (blockId : UInt32) :
    (c.noteOriginal blockId).Collecting P messageBytes w := by
  rw [noteOriginal]
  split
  · exact ⟨h.chosen, h.final, h.whole, h.inv, h.deferColumns⟩
  · exact h

theorem Collecting.row (h : c.Collecting P messageBytes w) {peel : PeelState}
    (hoffered : Offered c.matrix c.rowCount blockId c.peel true peel) (isFinalBlock : Bool)
    (blockIn : Bytes) :
    ((c.withPeel peel).takeRow isFinalBlock blockIn).Collecting P messageBytes w :=
  ⟨h.chosen, h.final, h.whole, hoffered.inv, hoffered.deferColumns.trans h.deferColumns⟩

/-- A codec for the same message. -/
structure SameMessage (c c' : Codec E) : Prop where
  matrix : c'.matrix = c.matrix
  outputFinalBytes : c'.outputFinalBytes = c.outputFinalBytes

theorem SameMessage.trans {c c' c'' : Codec E} (h : SameMessage c c') (h' : SameMessage c' c'') :
    SameMessage c c'' :=
  ⟨h'.matrix.trans h.matrix, h'.outputFinalBytes.trans h.outputFinalBytes⟩

theorem SameMessage.blockCount {c c' : Codec E} (h : SameMessage c c') :
    c'.blockCount = c.blockCount := by rw [Codec.blockCount, h.matrix, Codec.blockCount]

theorem sameMessage_noteOriginal (c : Codec E) (blockId : UInt32) :
    SameMessage c (c.noteOriginal blockId) := by
  rw [noteOriginal]
  split <;> exact ⟨rfl, rfl⟩

theorem generateRecoveryBlocks_answered {c' : Codec E} (h : c.generateRecoveryBlocks P = some c') :
    SameMessage c c' ∧ c'.rowCount = c.rowCount := by
  rw [generateRecoveryBlocks] at h
  cases hstate : c.elimination with
  | none =>
    rw [hstate] at h
    cases h
  | some state =>
    rw [hstate] at h
    cases h
    exact ⟨⟨rfl, rfl⟩, rfl⟩

theorem thenGenerate_answered {solved : Option (WirehairResult × Codec E)} {c' : Codec E}
    (h : thenGenerate P solved = some (result, c')) :
    ∃ c, solved = some (result, c) ∧ SameMessage c c' ∧ c'.rowCount = c.rowCount := by
  rw [thenGenerate] at h
  obtain ⟨⟨result', c⟩, rfl, _⟩ := Option.bind_eq_some_iff.mp h
  simp only [Option.bind_eq_bind, Option.bind_some] at h
  split at h
  · obtain ⟨c1, hgenerate, h⟩ := Option.bind_eq_some_iff.mp h
    cases h
    exact ⟨c, rfl, generateRecoveryBlocks_answered hgenerate⟩
  · cases h
    exact ⟨_, rfl, ⟨rfl, rfl⟩, rfl⟩

theorem solveMatrix_answered {c' : Codec E} (h : c.solveMatrix = some (result, c')) :
    SameMessage c c' ∧ c'.rowCount = c.rowCount := by
  obtain ⟨peel, _, h⟩ := Option.bind_eq_some_iff.mp h
  cases h
  exact ⟨⟨rfl, rfl⟩, rfl⟩

theorem resumeSolveMatrix_answered {c' : Codec E}
    (h : c.resumeSolveMatrix blockId blockIn = some (result, c')) :
    SameMessage c c' ∧ c'.rowCount ≤ c.rowCount + 1 := by
  obtain ⟨state, _, h⟩ := Option.bind_eq_some_iff.mp h
  dsimp only at h
  split at h
  · cases h
    exact ⟨⟨rfl, rfl⟩, Nat.le_succ _⟩
  · cases h
    refine ⟨⟨rfl, rfl⟩, ?_⟩
    dsimp only [storeRow]
    split <;> omega

theorem onRow_answered {c' : Codec E} (h : c.onRow P = some (result, c')) :
    SameMessage c c' ∧ c'.rowCount = c.rowCount ∧
      (result = .success → c.blockCount = c.rowCount) := by
  rw [onRow] at h
  split at h
  · cases h
    exact ⟨⟨rfl, rfl⟩, rfl, fun h => by cases h⟩
  rename_i heq
  have hfull := (not_not.mp heq).symm
  split at h
  · split at h
    · cases h
      exact ⟨⟨rfl, rfl⟩, rfl, fun _ => hfull⟩
    · cases h
      exact ⟨⟨rfl, rfl⟩, rfl, fun _ => hfull⟩
  · obtain ⟨c1, hsolve, hsame, hrows⟩ := thenGenerate_answered h
    obtain ⟨hsame1, hrows1⟩ := solveMatrix_answered hsolve
    exact ⟨hsame1.trans hsame, hrows.trans hrows1, fun _ => hfull⟩

/-- A call that is answered, whatever was fed before and whatever it is given. -/
theorem decodeFeed_answered {c' : Codec E}
    (h : c.decodeFeed P blockId blockIn = some (result, c')) :
    SameMessage c c' ∧ c'.rowCount ≤ c.rowCount + 1 ∧
      (result = .success → c.blockCount ≤ c.rowCount + 1) := by
  rw [decodeFeed] at h
  split at h
  · cases h
    exact ⟨⟨rfl, rfl⟩, Nat.le_succ _, fun h => by cases h⟩
  split at h
  · cases h
    exact ⟨⟨rfl, rfl⟩, Nat.le_succ _, fun h => by cases h⟩
  have hsame := sameMessage_noteOriginal c blockId
  have hrows := noteOriginal_rowCount c blockId
  generalize c.noteOriginal blockId = d at *
  dsimp only at h
  split at h
  · rename_i hge
    obtain ⟨c1, hresume, hsame', hrows'⟩ := thenGenerate_answered h
    obtain ⟨hsame1, hone⟩ := resumeSolveMatrix_answered hresume
    refine ⟨hsame.trans (hsame1.trans hsame'), by omega, fun _ => ?_⟩
    rw [← hsame.blockCount, ← hrows]
    exact Nat.le_succ_of_le hge
  · obtain ⟨⟨taken, d1⟩, hpeel, h⟩ := Option.bind_eq_some_iff.mp h
    obtain ⟨⟨_, peel⟩, _, hpeel⟩ := Option.bind_eq_some_iff.mp hpeel
    cases hpeel
    split at h
    · cases h
      exact ⟨⟨hsame.matrix, hsame.outputFinalBytes⟩, by dsimp only; omega, fun h => by cases h⟩
    · obtain ⟨hsame', hrows', hsuccess⟩ := onRow_answered h
      refine ⟨⟨hsame'.matrix.trans hsame.matrix, hsame'.outputFinalBytes.trans hsame.outputFinalBytes⟩,
        ?_, fun hs => ?_⟩
      · rw [hrows', ← hrows]
        exact Nat.le_refl _
      · rw [← hsame.blockCount, ← hrows]
        exact Nat.le_of_eq (hsuccess hs)

theorem thenGenerate_some (result : WirehairResult) (h : c.elimination ≠ none) :
    ∃ c', thenGenerate P (some (result, c)) = some (result, c') ∧ c'.elimination ≠ none := by
  obtain ⟨state, hstate⟩ := Option.ne_none_iff_exists'.mp h
  rw [thenGenerate]
  simp only [Option.bind_eq_bind, Option.bind_some]
  split
  · rw [generateRecoveryBlocks_eq hstate]
    exact ⟨_, rfl, h⟩
  · exact ⟨c, rfl, h⟩

theorem resumeSolveMatrix_some (h : c.elimination ≠ none) (blockId : UInt32) (blockIn : Bytes) :
    ∃ result c', c.resumeSolveMatrix blockId blockIn = some (result, c') ∧
      c.rowCount ≤ c'.rowCount ∧ c'.elimination ≠ none := by
  obtain ⟨state, hstate⟩ := Option.ne_none_iff_exists'.mp h
  rw [resumeSolveMatrix]
  simp only [hstate, Option.bind_eq_bind, Option.bind_some]
  split
  · exact ⟨_, _, rfl, Nat.le_refl _, h⟩
  · refine ⟨_, _, rfl, ?_, nofun⟩
    dsimp only [storeRow]
    split <;> omega

theorem onRow_some (h : c.Collecting P messageBytes w) (hle : c.rowCount ≤ c.blockCount) :
    ∃ result c', c.onRow P = some (result, c') ∧
      (result = .needMore → c'.Usable P messageBytes w) := by
  rw [onRow]
  split
  · rename_i hne
    exact ⟨_, _, rfl, fun _ => Or.inl ⟨h, Nat.lt_of_le_of_ne hle hne⟩⟩
  rename_i heq
  split
  · split
    · exact ⟨_, _, rfl, nofun⟩
    · exact ⟨_, _, rfl, nofun⟩
  · obtain ⟨peel, hsolve, _⟩ := solveMatrix_spec (c := c) h.wellformed.1
      ⟨h.inv, by rw [h.deferColumns]; exact nofun⟩
    obtain ⟨c', hthen, helim⟩ := thenGenerate_some (P := P)
      (c := c.withElimination peel (E.solve { c.rows with peel }).2)
      (E.solve { c.rows with peel }).1 nofun
    obtain ⟨_, hc, hsame, hrows⟩ := thenGenerate_answered hthen
    cases hc
    rw [hsolve, hthen]
    refine ⟨_, c', rfl, fun _ => Or.inr ⟨?_, helim⟩⟩
    rw [hsame.blockCount, hrows]
    exact Nat.le_of_eq (not_not.mp heq).symm

theorem decodeFeed_some (h : c.Usable P messageBytes w) (blockId : UInt32) (blockIn : Bytes) :
    ∃ result c', c.decodeFeed P blockId blockIn = some (result, c') ∧
      (result = .needMore → c'.Usable P messageBytes w) := by
  rw [decodeFeed]
  split
  · exact ⟨_, _, rfl, nofun⟩
  split
  · exact ⟨_, _, rfl, nofun⟩
  have hsame := sameMessage_noteOriginal c blockId
  have hrows := noteOriginal_rowCount c blockId
  have helim := noteOriginal_elimination c blockId
  have hnoted : c.Collecting P messageBytes w → (c.noteOriginal blockId).Collecting P messageBytes w :=
    fun h => h.noted blockId
  generalize c.noteOriginal blockId = d at *
  have hcount := hsame.blockCount
  dsimp only
  rw [hcount, hrows]
  rcases h with ⟨h, hlt⟩ | ⟨hge, hsome⟩
  · have hd := hnoted h
    rw [if_neg (Nat.not_le.mpr hlt), ← hrows]
    obtain ⟨taken, peel, hpeel, hoffered⟩ := opportunisticPeeling_spec hd.wellformed.1 hd.inv blockId
    simp only [hpeel, Option.bind_eq_bind, Option.bind_some]
    cases taken with
    | false =>
      refine ⟨_, _, rfl, fun _ => Or.inl ⟨?_, ?_⟩⟩
      · exact ⟨hd.chosen, hd.final, hd.whole, hoffered.inv,
          hoffered.deferColumns.trans hd.deferColumns⟩
      · show d.rowCount < d.blockCount
        rw [hrows, hcount]
        exact hlt
    | true =>
      exact onRow_some (hd.row hoffered (decide ((blockId + 1).toNat = c.blockCount)) blockIn)
        (show d.rowCount + 1 ≤ d.blockCount by rw [hrows, hcount]; exact hlt)
  · rw [if_pos hge]
    obtain ⟨result, c1, hresume, hmore, helim1⟩ := resumeSolveMatrix_some
      (c := d) (by rw [helim]; exact hsome) blockId blockIn
    obtain ⟨c', hthen, helim'⟩ := thenGenerate_some (P := P) result helim1
    obtain ⟨_, hc, hsame', hrows'⟩ := thenGenerate_answered hthen
    cases hc
    rw [hresume, hthen]
    refine ⟨_, c', rfl, fun _ => Or.inr ⟨?_, helim'⟩⟩
    rw [(hsame.trans ((resumeSolveMatrix_answered hresume).1.trans hsame')).blockCount, hrows']
    exact Nat.le_trans hge (hrows ▸ hmore)

/-- One call, whatever it is given. -/
theorem decodeFeed_spec (h : c.Usable P messageBytes w) (blockId : UInt32) (blockIn : Bytes) :
    ∃ result c', c.decodeFeed P blockId blockIn = some (result, c') ∧ SameMessage c c' ∧
      c'.rowCount ≤ c.rowCount + 1 ∧ (result = .needMore → c'.Usable P messageBytes w) ∧
      (result = .success → c.blockCount ≤ c.rowCount + 1) := by
  obtain ⟨result, c', hfeed, hmore⟩ := decodeFeed_some h blockId blockIn
  obtain ⟨hsame, hrows, hsuccess⟩ := decodeFeed_answered hfeed
  exact ⟨result, c', hfeed, hsame, hrows, hmore, hsuccess⟩

end Codec
end Sankaku
