import Sankaku.Proofs.Substitution

namespace Sankaku

section
open Codec
variable {messageBytes : UInt64} {blockBytes : UInt32}

theorem partialFinalBytes_bounds (messageBytes : UInt64) (hblock : 1 ≤ blockBytes.toNat) :
    1 ≤ partialFinalBytes messageBytes blockBytes ∧
      partialFinalBytes messageBytes blockBytes ≤ blockBytes.toNat := by
  have := Nat.mod_lt messageBytes.toNat hblock
  rw [partialFinalBytes]
  split <;> omega

/-- Behind any blocks that do not exhaust the message there is room for the final
bytes. -/
theorem final_le_rest (hblock : 1 ≤ blockBytes.toNat)
    (hq : blockBytes.toNat * q < messageBytes.toNat) :
    blockBytes.toNat * q + partialFinalBytes messageBytes blockBytes ≤ messageBytes.toNat := by
  have hdiv := Nat.div_add_mod messageBytes.toNat blockBytes.toNat
  have hlt := Nat.mod_lt messageBytes.toNat hblock
  rw [partialFinalBytes]
  generalize messageBytes.toNat % blockBytes.toNat = rest at *
  generalize messageBytes.toNat / blockBytes.toNat = k at *
  have hle : q ≤ k := by
    by_contra hgt
    have := Nat.mul_le_mul_left blockBytes.toNat (show k + 1 ≤ q by omega)
    rw [Nat.mul_succ] at this
    omega
  split
  · have hless : q < k := by
      refine Nat.lt_of_le_of_ne hle fun heq => ?_
      subst heq
      omega
    have := Nat.mul_le_mul_left blockBytes.toNat hless
    rw [Nat.mul_succ] at this
    omega
  · have := Nat.mul_le_mul_left blockBytes.toNat hle
    omega

/-- The last block takes up the message where it is the last there is. -/
theorem final_eq_rest (hblock : 1 ≤ blockBytes.toNat)
    (hq : blockBytes.toNat * q < messageBytes.toNat)
    (hlast : messageBytes.toNat ≤ blockBytes.toNat * (q + 1)) :
    blockBytes.toNat * q + partialFinalBytes messageBytes blockBytes = messageBytes.toNat := by
  have hle := final_le_rest hblock hq
  have hdiv := Nat.div_add_mod messageBytes.toNat blockBytes.toNat
  have hlt := Nat.mod_lt messageBytes.toNat hblock
  rw [partialFinalBytes] at hle ⊢
  generalize messageBytes.toNat % blockBytes.toNat = rest at *
  generalize messageBytes.toNat / blockBytes.toNat = k at *
  rw [Nat.mul_succ] at hlast
  split
  · rename_i hzero
    rw [if_pos hzero] at hle
    omega
  · rename_i hpos
    have hk : k ≤ q := by
      by_contra hgt
      have := Nat.mul_le_mul_left blockBytes.toNat (show q + 1 ≤ k by omega)
      rw [Nat.mul_succ] at this
      omega
    have := Nat.mul_le_mul_left blockBytes.toNat hk
    rw [if_neg hpos] at hle
    omega

/-- As many blocks as are kept are all there, and none is left out where 16 bits
suffice. -/
theorem keptBlocks_spec (hmessage : 1 ≤ messageBytes.toNat) (hblock : 1 ≤ blockBytes.toNat) :
    blockBytes.toNat * keptBlocks messageBytes blockBytes <
        messageBytes.toNat + blockBytes.toNat ∧
      (divCeil messageBytes.toNat blockBytes.toNat < 2 ^ 16 →
        keptBlocks messageBytes blockBytes = divCeil messageBytes.toNat blockBytes.toNat) := by
  have hm := messageBytes.toNat_lt
  have hb := blockBytes.toNat_lt
  have hsum : (messageBytes + blockBytes.toUInt64 - 1).toNat =
      (messageBytes.toNat + blockBytes.toNat - 1) % 2 ^ 64 := by
    rw [UInt64.toNat_sub, UInt64.toNat_add, UInt32.toNat_toUInt64, UInt64.toNat_one]
    omega
  rw [keptBlocks, UInt64.toNat_div, hsum, UInt32.toNat_toUInt64, divCeil]
  generalize hx : (messageBytes.toNat + blockBytes.toNat - 1) % 2 ^ 64 = x
  constructor
  · have hmod := Nat.mod_le (x / blockBytes.toNat) (2 ^ 16)
    have hdiv := Nat.mul_div_le x blockBytes.toNat
    have hwrap := Nat.mod_le (messageBytes.toNat + blockBytes.toNat - 1) (2 ^ 64)
    have := Nat.mul_le_mul_left blockBytes.toNat hmod
    omega
  · intro hcount
    have hsmall : messageBytes.toNat + blockBytes.toNat - 1 < 2 ^ 16 * blockBytes.toNat :=
      (Nat.div_lt_iff_lt_mul hblock).mp hcount
    rw [Nat.mod_eq_of_lt (by omega)] at hx
    rw [← hx, Nat.mod_eq_of_lt hcount]

theorem chunk_length (message : Bytes) (w k : Nat) :
    (chunk message w k).length = min w (message.length - w * k) := by
  rw [chunk, List.length_take, List.length_drop]

/-- The blocks of a message, put side by side. -/
theorem chunks_eq (message : Bytes) (w n : Nat) :
    (List.range n).flatMap (chunk message w) = message.take (w * n) := by
  induction n with
  | zero => rw [Nat.mul_zero, List.take_zero]; rfl
  | succ n ih =>
    rw [List.range_succ, List.flatMap_append, ih, List.flatMap_singleton, Nat.mul_succ,
      List.take_add]
    rfl

end

namespace PeelState

variable {m : Matrix} {n : Nat} {s : PeelState}

/-- How often a column occurs in rows of these seeds. -/
def uses (m : Matrix) (rowSeeds : List UInt32) (c : Nat) : Nat :=
  (rowSeeds.filter fun rowSeed => c ∈ m.columns rowSeed).length

theorem Inv.refs_length (h : Inv m n s quiet none []) (c : Nat) :
    (s.peelColRefs c).length = uses m (seeds n s) c := by
  have hperm : (s.peelColRefs c).Perm
      ((List.range n).filter fun r => c ∈ columnsOf m s r) := by
    refine (List.perm_ext_iff_of_nodup (h.refs_nodup c) (List.nodup_range.filter _)).mpr fun r => ?_
    rw [h.refs, List.mem_filter, List.mem_range, decide_eq_true_iff]
  rw [hperm.length_eq, uses, seeds, List.filter_map, List.length_map]
  rfl

theorem uses_subperm (h : List.Subperm xs ys) (c : Nat) : uses m xs c ≤ uses m ys c :=
  (h.filter _).length_le

/-- A row of some rows of which all have room has room itself. -/
theorem room_of_uses (h : Inv m n s quiet none []) {all : List UInt32} {rowSeed : UInt32}
    (hall : ∀ c, uses m all c ≤ refListMax)
    (hsub : List.Subperm (rowSeed :: seeds n s) all) :
    ∀ c ∈ m.columns rowSeed, (s.peelColRefs c).length < refListMax := by
  intro c hc
  have hone : uses m (rowSeed :: seeds n s) c = uses m (seeds n s) c + 1 := by
    rw [uses, List.filter_cons_of_pos (by simpa using hc), List.length_cons, uses]
  have := uses_subperm hsub c (m := m)
  have := hall c
  rw [h.refs_length]
  omega

theorem uses_offered {rowSeed : UInt32} {s' : PeelState}
    (h : Offered m n rowSeed s true s') (hinv : Inv m n s quiet none [])
    (hall : ∀ c, uses m (seeds n s) c ≤ refListMax) (c : Nat) :
    uses m (seeds (n + 1) s') c ≤ refListMax := by
  have hinv' : Inv m (n + 1) s' quiet none [] := h.inv
  rw [← hinv'.refs_length, h.refs]
  split
  · rename_i hc
    have := h.room.mp rfl c hc.2
    rw [List.length_append, List.length_singleton]
    omega
  · rw [hinv.refs_length]
    exact hall c

end PeelState

namespace Codec
open PeelState

variable {P : Platform} {E : Elimination} {m : Matrix} {n : Nat} {c : Codec E}

def withPeel (c : Codec E) (peel : PeelState) : Codec E := { c with peel }

def withElimination (c : Codec E) (peel : PeelState) (state : E.State) : Codec E :=
  { c with peel, elimination := some state }

theorem opportunisticPeeling_spec (wf : c.matrix.Wellformed)
    (h : Inv c.matrix n c.peel quiet none []) (rowSeed : UInt32) :
    ∃ taken peel, c.opportunisticPeeling n rowSeed = some (taken, c.withPeel peel) ∧
      Offered c.matrix n rowSeed c.peel taken peel := by
  have hfuel : c.matrix.blockCount ≤ c.blockCount + 1 := Nat.le_succ _
  obtain ⟨taken, peel, hpeel, hoffered⟩ := PeelState.opportunisticPeeling_spec wf hfuel h rowSeed
  refine ⟨taken, peel, ?_, hoffered⟩
  rw [Codec.opportunisticPeeling]
  simp only [hpeel, Option.bind_eq_bind, Option.bind_some]
  rfl

/-- The original rows are fed one after the other; where all are taken, no
column is in more of them than its references have room for. -/
theorem encodeRows_spec (wf : c.matrix.Wellformed) (h : Inv c.matrix n c.peel quiet none [])
    (huses : ∀ col, uses c.matrix (seeds n c.peel) col ≤ refListMax) (k : Nat) :
    ∃ taken peel, encodeRows (List.range' n k) c = some (taken, c.withPeel peel) ∧
      (taken = true → ∀ col, uses c.matrix
        (seeds n c.peel ++ (List.range' n k).map UInt32.ofNat) col ≤ refListMax) ∧
      (taken = true → Inv c.matrix (n + k) peel quiet none [] ∧
        peel.deferColumns = c.peel.deferColumns ∧
        seeds (n + k) peel = seeds n c.peel ++ (List.range' n k).map UInt32.ofNat) := by
  induction k generalizing n c with
  | zero =>
    have hnone : seeds n c.peel ++ (List.range' n 0).map UInt32.ofNat = seeds n c.peel :=
      List.append_nil _
    exact ⟨true, c.peel, rfl, fun _ => hnone.symm ▸ huses, fun _ => ⟨h, rfl, hnone.symm⟩⟩
  | succ k ih =>
    obtain ⟨taken, peel, hpeel, hoffered⟩ := c.opportunisticPeeling_spec wf h (UInt32.ofNat n)
    rw [List.range'_succ, List.map_cons, encodeRows]
    simp only [hpeel, Option.bind_eq_bind, Option.bind_some]
    cases taken with
    | false => exact ⟨false, peel, rfl, nofun, nofun⟩
    | true =>
      have hinv1 : Inv c.matrix (n + 1) peel quiet none [] := hoffered.inv
      have hnext : seeds (n + 1) peel = seeds n c.peel ++ [UInt32.ofNat n] := seeds_offered hoffered
      obtain ⟨taken, peel', hrest, hroom, hdone⟩ := ih (c := c.withPeel peel) wf hinv1
        (uses_offered hoffered h huses)
      have hpeel1 : (c.withPeel peel).peel = peel := rfl
      rw [hpeel1, hnext, List.append_assoc, List.singleton_append] at hroom hdone
      refine ⟨taken, peel', hrest, hroom, fun ht => ?_⟩
      obtain ⟨hinv, hdefers, hseeds⟩ := hdone ht
      rw [show n + (k + 1) = n + 1 + k by omega]
      exact ⟨hinv, hdefers.trans hoffered.deferColumns, hseeds⟩

theorem solveMatrix_spec (wf : c.matrix.Wellformed) (h : Ready c.matrix n c.peel) :
    ∃ peel, c.solveMatrix = some ((E.solve { c.rows with peel }).1,
        c.withElimination peel (E.solve { c.rows with peel }).2) ∧
      Ready c.matrix n peel ∧ Peeled c.matrix n peel ∧ seeds n peel = seeds n c.peel := by
  have hfuel : c.matrix.blockCount ≤ c.blockCount + 1 := Nat.le_succ _
  have hturns : todoCount c.matrix c.peel < c.blockCount + 1 :=
    Nat.lt_succ_of_le (todoCount_le c.matrix c.peel)
  obtain ⟨peel, hpeel, hready, hdone, hseeds⟩ := greedyPeeling_spec wf hfuel h hturns
  refine ⟨peel, ?_, hready, hready.peeled wf hdone, hseeds⟩
  rw [solveMatrix]
  simp only [hpeel, Option.bind_eq_bind, Option.bind_some]
  rfl

/-- The columns the elimination finds, as blocks. -/
def found (c : Codec E) (state : E.State) (col : Nat) : Bytes :=
  (List.range c.blockBytes).map (E.values state c.rows col)

theorem found_length (c : Codec E) (state : E.State) (col : Nat) :
    (c.found state col).length = c.blockBytes := by
  rw [found, List.length_map, List.length_range]

def generated (P : Platform) (c : Codec E) (state : E.State) : Codec E :=
  { c with
    recoveryBlocks := substitute P.cpu c.matrix c.peel c.inputBlocks c.inputFinalBytes
      ⟨c.found state⟩ }

theorem generateRecoveryBlocks_eq (h : c.elimination = some state) :
    c.generateRecoveryBlocks P = some (c.generated P state) := by
  show c.elimination.bind (fun state => some (c.generated P state)) = _
  rw [h, Option.bind_some]

/-- An encoder comes about only where all the original rows are taken. -/
theorem encodeFeed_spec (P : Platform) (wf : c.matrix.Wellformed)
    (hpeel : c.peel = PeelState.start P.memory) :
    ∃ result c', c.encodeFeed P = some (result, c') ∧ (result = .success →
      ∃ peel state, c' = (c.withElimination peel state).generated P state ∧
        E.solve { c.rows with peel } = (.success, state) ∧
        Ready c.matrix c.blockCount peel ∧ Peeled c.matrix c.blockCount peel ∧
        seeds c.blockCount peel = (List.range c.blockCount).map UInt32.ofNat ∧
        ∀ col, uses c.matrix ((List.range c.blockCount).map UInt32.ofNat) col ≤ refListMax) := by
  obtain ⟨taken, peel, hrows, hroom, htaken⟩ := encodeRows_spec (n := 0) (c := c) wf
    (by rw [hpeel]; exact Inv.start _ _) (fun _ => Nat.zero_le _) c.blockCount
  have hseeds0 : seeds 0 c.peel = [] := rfl
  rw [← List.range_eq_range'] at hrows
  rw [← List.range_eq_range', hseeds0, List.nil_append] at hroom htaken
  rw [encodeFeed]
  simp only [hrows, Option.bind_eq_bind, Option.bind_some]
  cases taken with
  | false => exact ⟨_, _, rfl, nofun⟩
  | true =>
    obtain ⟨hinv, hdefers, hseeds⟩ := htaken rfl
    rw [Nat.zero_add] at hinv hseeds
    have hready : Ready c.matrix c.blockCount peel :=
      ⟨hinv, by rw [hdefers, hpeel]; exact nofun⟩
    obtain ⟨peel', hsolve, hready', hpeeled, hsame⟩ :=
      solveMatrix_spec (c := c.withPeel peel) wf hready
    have hsame : seeds c.blockCount peel' = seeds c.blockCount peel := hsame
    simp only [Bool.not_true, Bool.false_eq_true, if_false, hsolve, Option.bind_some]
    split
    · rename_i hsuccess
      rw [generateRecoveryBlocks_eq rfl]
      exact ⟨_, _, rfl, fun _ => ⟨peel', _, rfl, Prod.ext hsuccess rfl, hready', hpeeled,
        hsame.trans hseeds, hroom rfl⟩⟩
    · exact ⟨_, _, rfl, nofun⟩
    · rename_i hno _
      exact ⟨_, _, rfl, fun hsuccess => absurd hsuccess hno⟩

/-- What `InitializeEncoder` and `EncodeFeed` leave when they succeed. -/
structure Encodes (P : Platform) (message : Bytes) (w : UInt32) (c : Codec E) : Prop where
  chosen : chooseMatrix P.getPeelSeed (2 ^ 16) (UInt64.ofNat message.length) w =
    some (.ok c.matrix)
  inputs : c.inputBlocks = chunk message w.toNat
  final : c.inputFinalBytes = partialFinalBytes (UInt64.ofNat message.length) w
  ordered : c.originalOutOfOrder = false
  seeds : seeds c.blockCount c.peel = (List.range c.blockCount).map UInt32.ofNat
  uses_le : ∀ col,
    uses c.matrix ((List.range c.blockCount).map UInt32.ofNat) col ≤ refListMax
  columns : ∃ found, Solved c.matrix c.blockCount c.peel c.inputFinalBytes c.inputBlocks found ∧
    c.recoveryBlocks =
      substitute P.cpu c.matrix c.peel c.inputBlocks c.inputFinalBytes ⟨found⟩

/-- The sizes a matrix is chosen for. -/
structure Sizes (message : Bytes) (w : UInt32) (n : Nat) : Prop where
  block_pos : 1 ≤ w.toNat
  two_le : 2 ≤ n
  le_max : n ≤ 64000
  inside : w.toNat * (n - 1) < (UInt64.ofNat message.length).toNat
  length_le : (UInt64.ofNat message.length).toNat ≤ message.length

theorem sizes_of_chosen (h : chooseMatrix getPeelSeed (2 ^ 16) (UInt64.ofNat message.length) w =
    some (.ok m)) : m.Wellformed ∧ m.blockBytes = w ∧
      m.blockCount = keptBlocks (UInt64.ofNat message.length) w ∧ Sizes message w m.blockCount := by
  rcases chooseMatrix_answers getPeelSeed (Nat.le_refl _) (UInt64.ofNat message.length) w with
    ⟨_, herror, _⟩ | ⟨m', hm', hwf, hmessage, hblock, hbytes, hcount, hmin, hmax⟩
  · cases h.symm.trans herror
  cases h.symm.trans hm'
  have hmessage' : 1 ≤ (UInt64.ofNat message.length).toNat :=
    UInt64.le_iff_toNat_le.mp (UInt64.not_lt.mp hmessage)
  have hblock' : 1 ≤ w.toNat := UInt32.le_iff_toNat_le.mp (UInt32.not_lt.mp hblock)
  have hkept := (keptBlocks_spec hmessage' hblock').1
  have htwo : 2 ≤ m.blockCount := hmin
  refine ⟨hwf, hbytes, hcount, hblock', htwo, hmax, ?_, ?_⟩
  · rw [← hcount] at hkept
    obtain ⟨k, hk⟩ : ∃ k, m.blockCount = k + 1 := ⟨m.blockCount - 1, by omega⟩
    rw [hk, Nat.mul_succ] at hkept
    rw [hk, Nat.add_sub_cancel]
    omega
  · rw [UInt64.toNat_ofNat']
    exact Nat.mod_le _ _

theorem Sizes.inputs {message : Bytes} {w : UInt32} (h : Sizes message w m.blockCount)
    (hw : m.blockBytes = w) (peeled : List Nat) (hlt : ∀ r ∈ peeled, r < m.blockCount) :
    Inputs m (partialFinalBytes (UInt64.ofNat message.length) w) (chunk message w.toNat) peeled := by
  have hbounds := partialFinalBytes_bounds (UInt64.ofNat message.length) h.block_pos
  have hrest := final_le_rest h.block_pos h.inside
  have hle := h.length_le
  refine ⟨by rw [hw]; exact hbounds.2, fun r hr => ?_⟩
  have hlt := hlt r hr
  have hmono := Nat.mul_le_mul_left w.toNat (show r ≤ m.blockCount - 1 by omega)
  rw [inputRow, hw]
  split
  · rename_i hlast
    subst hlast
    rw [List.length_take, chunk_length]
    omega
  · have := Nat.mul_le_mul_left w.toNat (show r + 1 ≤ m.blockCount - 1 by omega)
    rw [Nat.mul_succ] at this
    have := h.inside
    rw [chunk_length]
    omega

/-- An encoder is made in finite time and without undefined behaviour, or not at
all. -/
theorem encoderCreate_feed {message : Bytes} {w : UInt32}
    (h : (wirehairCodec P E).encoderCreate message w = some e) :
    ∃ m peel state, chooseMatrix P.getPeelSeed (2 ^ 16) (UInt64.ofNat message.length) w =
        some (.ok m) ∧
      e = some (((initializeEncoder P message m).withElimination peel state).generated P state) ∧
      E.solve { (initializeEncoder (E := E) P message m).rows with peel } = (.success, state) ∧
      Ready m m.blockCount peel ∧ Peeled m m.blockCount peel ∧
      PeelState.seeds m.blockCount peel = (List.range m.blockCount).map UInt32.ofNat ∧
      ∀ col, uses m ((List.range m.blockCount).map UInt32.ofNat) col ≤ refListMax := by
  simp only [wirehairCodec] at h
  split at h
  · cases h
  rename_i m hchosen
  rw [chosenMatrix] at hchosen
  split at hchosen
  swap
  · cases hchosen
  rename_i hchoose
  cases hchosen
  obtain ⟨wf, _⟩ := sizes_of_chosen hchoose
  obtain ⟨result, c, hfeed, hsuccess⟩ :=
    encodeFeed_spec (c := initializeEncoder (E := E) P message m) P wf rfl
  rw [hfeed] at h
  split at h
  · rename_i hnone
    cases hnone
  · rename_i c' heq
    cases heq
    cases h
    obtain ⟨peel, state, hc, hsolve, hready, hpeeled, hseeds, huses⟩ := hsuccess rfl
    exact ⟨m, peel, state, hchoose, congrArg some hc, hsolve, hready, hpeeled, hseeds, huses⟩
  · cases h

theorem initialized_inputs {message : Bytes} {w : UInt32}
    (h : chooseMatrix P.getPeelSeed (2 ^ 16) (UInt64.ofNat message.length) w = some (.ok m))
    (rows : List Nat) (hlt : ∀ r ∈ rows, r < m.blockCount) :
    Inputs m (partialFinalBytes (UInt64.ofNat message.length) m.blockBytes)
      (chunk message m.blockBytes.toNat) rows := by
  obtain ⟨_, hw, _, hsizes⟩ := sizes_of_chosen h
  have := hsizes.inputs hw rows hlt
  rwa [← hw] at this

theorem encoderCreate_encodes {message : Bytes} {w : UInt32}
    (h : (wirehairCodec P E).encoderCreate message w = some e) :
    ∃ c : Codec E, e = some c ∧ c.Encodes P message w := by
  obtain ⟨m, peel, state, hchoose, rfl, _, _, hpeeled, hseeds, huses⟩ := encoderCreate_feed h
  obtain ⟨wf, hw, _⟩ := sizes_of_chosen hchoose
  have hinputs := initialized_inputs hchoose peel.peeled fun r hr =>
    List.mem_range.mp (hpeeled.rows.subset (List.mem_append_left _ hr))
  refine ⟨_, rfl, ?_⟩
  exact
    { chosen := hchoose
      inputs := by rw [← hw]; rfl
      final := by rw [← hw]; rfl
      ordered := rfl
      seeds := hseeds
      uses_le := huses
      columns := ⟨_, ⟨wf, hpeeled, hinputs, found_length _ _⟩, rfl⟩ }

namespace Encodes
variable {message : Bytes} {w : UInt32} (h : c.Encodes P message w)
include h

theorem sizes : c.matrix.blockBytes = w ∧ Sizes message w c.blockCount := by
  obtain ⟨_, hw, _, hsizes⟩ := sizes_of_chosen h.chosen
  exact ⟨hw, hsizes⟩

theorem inputRow_length (hr : r < c.blockCount) :
    (inputRow c.matrix c.inputFinalBytes c.inputBlocks r).length =
      if r = c.blockCount - 1 then c.inputFinalBytes else w.toNat := by
  obtain ⟨hw, hsizes⟩ := h.sizes
  have hinputs := hsizes.inputs hw [r] fun q hq => List.mem_singleton.mp hq ▸ hr
  rw [h.inputs, h.final, hinputs.length r (List.mem_singleton_self r), hw]
  rfl

theorem final_bounds : 1 ≤ c.inputFinalBytes ∧ c.inputFinalBytes ≤ w.toNat := by
  rw [h.final]
  exact partialFinalBytes_bounds _ h.sizes.2.block_pos

/-- An original block is copied. -/
theorem encode_original {blockId : UInt32} (hid : blockId.toNat < c.blockCount) :
    c.encode P blockId w = inputRow c.matrix c.inputFinalBytes c.inputBlocks blockId.toNat := by
  obtain ⟨hw, hsizes⟩ := h.sizes
  have hlength := h.inputRow_length hid
  have hmod : blockId.toNat % 2 ^ 16 = blockId.toNat := Nat.mod_eq_of_lt (by have := hsizes.le_max; omega)
  have hbytes : c.blockBytes = w.toNat := by rw [blockBytes, hw]
  have hcopy : (if blockId.toNat = c.blockCount - 1 then c.inputFinalBytes else c.blockBytes) ≤ w.toNat := by
    have := h.final_bounds
    split <;> omega
  simp only [encode, hmod, h.ordered, Bool.not_false, and_true]
  rw [if_neg (Nat.not_lt.mpr hcopy), if_pos hid]
  rw [inputRow] at hlength ⊢
  rw [show c.matrix.blockCount = c.blockCount from rfl] at *
  split
  · rfl
  · rename_i hne
    rw [if_neg hne, if_neg hne] at hlength
    rw [hbytes, ← hlength, List.take_length]

theorem encode_length (blockId : UInt32) : (c.encode P blockId w).length =
    if blockId.toNat % 2 ^ 16 = c.blockCount - 1 then c.inputFinalBytes else w.toNat := by
  obtain ⟨hw, hsizes⟩ := h.sizes
  have hbounds := h.final_bounds
  rcases Nat.lt_or_ge blockId.toNat c.blockCount with hid | hid
  · rw [h.encode_original hid, h.inputRow_length hid,
      Nat.mod_eq_of_lt (by have := hsizes.le_max; omega)]
  · obtain ⟨found, hsolved, hblocks⟩ := h.columns
    have hbytes : c.blockBytes = w.toNat := by rw [blockBytes, hw]
    generalize hcopy : (if blockId.toNat % 2 ^ 16 = c.blockCount - 1 then c.inputFinalBytes
      else c.blockBytes) = copyBytes
    have hle : copyBytes ≤ w.toNat := by
      rw [← hcopy]
      split <;> omega
    simp only [encode, hcopy]
    rw [if_neg (Nat.not_lt.mpr hle), if_neg (fun h => absurd h.1 (Nat.not_lt.mpr hid)), hblocks,
      regenerate_eq hsolved.wf hsolved.block_eq (by rw [hw]; exact hle), spread_length, ← hcopy,
      hbytes]

end Encodes

end Codec
end Sankaku
