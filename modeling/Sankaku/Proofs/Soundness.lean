import Sankaku.Proofs.Compression
import Sankaku.Proofs.WirehairMeets

namespace Sankaku
open PeelState

namespace CodecRows

/-- The columns add up to the first rows. -/
def Holds (rows : CodecRows) (n : Nat) (blocks : Nat → Bytes) : Prop :=
  ∀ r < n, rowSum rows.matrix (fun c => valueAt (blocks c)) (rows.recoveryId r) = inputValue rows r

/-- A row more, or one in the place of another. -/
def withRow (rows : CodecRows) (rowI : Nat) (id : UInt32) (block : Bytes) : CodecRows :=
  { rows with
    peel := rows.peel.setRow rowI { rows.peel.peelRows rowI with recoveryId := id }
    inputBlocks := Function.update rows.inputBlocks rowI block }

/-- The columns that are left to the elimination. -/
def Unpeeled (rows : CodecRows) (c : Nat) : Prop :=
  c ∈ rows.peel.deferColumns ∨
    rows.matrix.blockCount ≤ c ∧ c < rows.matrix.blockCount + rows.matrix.mixCount

/-- What no row was peeled for is left. -/
theorem unpeeled {rows : CodecRows} (h : Peeled rows.matrix rows.matrix.blockCount rows.peel)
    (hc : c < rows.matrix.blockCount + rows.matrix.mixCount)
    (hnone : ∀ r ∈ rows.peel.peeled, rows.peel.solved r ≠ c) : rows.Unpeeled c := by
  rcases Nat.lt_or_ge c rows.matrix.blockCount with hpeel | hmix
  · have hmem := h.columns.mem_iff.mpr (List.mem_range.mpr hpeel)
    refine Or.inl ((List.mem_append.mp hmem).resolve_left fun hsolved => ?_)
    obtain ⟨r, hr, heq⟩ := List.mem_map.mp hsolved
    exact hnone r hr heq
  · exact Or.inr ⟨hmix, hc⟩

def found (rows : CodecRows) (values : Nat → Nat → UInt8) (c : Nat) : Bytes :=
  (List.range (blockWidth rows)).map (values c)

/-- All the columns, once those are found. -/
def substituted (cpu : Cpu) (rows : CodecRows) (found : Nat → Bytes) : Nat → Bytes :=
  (substitute cpu rows.matrix rows.peel rows.inputBlocks rows.inputFinalBytes ⟨found⟩).block

theorem Settled.solved {rows : CodecRows} {found : Nat → Bytes}
    (h : rows.Settled rows.matrix.blockCount) (hsized : ∀ c, (found c).length = blockWidth rows) :
    Solved rows.matrix rows.matrix.blockCount rows.peel rows.inputFinalBytes rows.inputBlocks
      found :=
  ⟨h.wf, h.peeled, ⟨h.inputs.final_le, fun r hr =>
    h.inputs.length r (List.mem_range.mpr (h.peeled_lt hr))⟩, hsized⟩

end CodecRows

/-- What `SolveMatrix` can come to, and `ResumeSolveMatrix` as long as more is asked
for: the rows, how many they are, the state and the last result. -/
inductive Elimination.Reached (E : Elimination) : CodecRows → Nat → E.State → WirehairResult → Prop
  | solved {rows : CodecRows} (h : rows.Settled rows.matrix.blockCount) :
    Reached E rows rows.matrix.blockCount (E.solve rows).2 (E.solve rows).1
  | appended {rows : CodecRows} (id : UInt32) (block : Bytes)
      (h : Reached E rows n state .needMore) (room : n < rows.matrix.blockCount + rows.extraCount) :
    Reached E (rows.withRow n id block) (n + 1)
      (E.resume (E.append state rows n).2 (rows.withRow n id block) (E.append state rows n).1 n
        id).2
      (E.resume (E.append state rows n).2 (rows.withRow n id block) (E.append state rows n).1 n
        id).1
  | reused {rows : CodecRows} (id : UInt32) (block : Bytes)
      (h : Reached E rows n state .needMore) (full : rows.matrix.blockCount + rows.extraCount ≤ n)
      (found : E.reuse state rows = some (pivotI, rowI)) :
    Reached E (rows.withRow rowI id block) n
      (E.resume state (rows.withRow rowI id block) pivotI rowI id).2
      (E.resume state (rows.withRow rowI id block) pivotI rowI id).1

/-- `side` is what the dense and the heavy rows ask of the columns. A success of
`SolveMatrix` solves every row, and after any success no other columns do. -/
structure Elimination.Eliminates (E : Elimination) (side : Matrix → (Nat → Bytes) → Prop) :
    Prop where
  solves : ∀ rows : CodecRows, rows.Settled rows.matrix.blockCount → (E.solve rows).1 = .success →
    ∀ cpu, (∀ r ∈ rows.peel.deferRows, rowSum rows.matrix
        (fun c => valueAt (rows.substituted cpu (rows.found (E.values (E.solve rows).2 rows)) c))
        (rows.recoveryId r) = inputValue rows r) ∧
      side rows.matrix (rows.substituted cpu (rows.found (E.values (E.solve rows).2 rows)))
  determines : ∀ rows n state, E.Reached rows n state .success → ∀ blocks : Nat → Bytes,
    (∀ c, (blocks c).length = blockWidth rows) → rows.Holds n blocks → side rows.matrix blocks →
    ∀ c, rows.Unpeeled c → rows.found (E.values state rows) c = blocks c
  extra : ∀ rows n state pivotI rowI, E.Reached rows n state .needMore →
    E.reuse state rows = some (pivotI, rowI) → rows.matrix.blockCount ≤ rowI ∧ rowI < n

variable {P : Platform} {E : Elimination} {side : Matrix → (Nat → Bytes) → Prop}

/-- No row has a column behind the mixing columns. -/
theorem rowSum_congr {m : Matrix} (wf : m.Wellformed) {x y : Nat → Nat → XorByte}
    (h : ∀ c < m.blockCount + m.mixCount, x c = y c) (seed : UInt32) :
    rowSum m x seed = rowSum m y seed := by
  refine congrArg _ (List.map_congr_left fun c hc => h c ?_)
  rcases List.mem_append.mp hc with hpeel | hmix
  · have := wf.columns_lt seed c hpeel
    omega
  · obtain ⟨mix, hmem, rfl⟩ := List.mem_map.mp hmix
    have := wf.mix_lt seed mix hmem
    omega

/-- The columns that an encoder was left with, and what they add up to. -/
structure Codec.Columns (P : Platform) (side : Matrix → (Nat → Bytes) → Prop) (message : Bytes)
    (w : UInt32) (e : Codec E) : Prop extends e.Encodes P message w where
  sized : ∀ c, (e.recoveryBlocks.block c).length = w.toNat
  holds : e.rows.Holds e.blockCount e.recoveryBlocks.block
  side : side e.matrix e.recoveryBlocks.block

theorem encoderCreate_columns (hE : E.Eliminates side) {message : Bytes} {w : UInt32}
    (h : (wirehairCodec P E).encoderCreate message w = some e) :
    ∃ c : Codec E, e = some c ∧ c.Columns P side message w := by
  obtain ⟨c, rfl, hencodes⟩ := Codec.encoderCreate_encodes h
  obtain ⟨m, peel, state, hchoose, hc, hsolve, hready, hpeeled, _, _⟩ := Codec.encoderCreate_feed h
  obtain ⟨wf, hw, _, hsizes⟩ := Codec.sizes_of_chosen hchoose
  obtain ⟨_, _, _, _, hmax⟩ := chooseMatrix_wellformed (Nat.le_refl _) hchoose
  have hinputs := Codec.initialized_inputs hchoose (List.range m.blockCount)
    fun r => List.mem_range.mp
  let rows : CodecRows := { (Codec.initializeEncoder (E := E) P message m).rows with peel }
  have hsettled : rows.Settled m.blockCount := ⟨wf, hmax, hready, hpeeled, hinputs⟩
  have hsuccess : (E.solve rows).1 = .success := congrArg Prod.fst hsolve
  obtain ⟨hdeferred, hside⟩ := hE.solves rows hsettled hsuccess P.cpu
  have hstate : (E.solve rows).2 = state := congrArg Prod.snd hsolve
  rw [hstate] at hdeferred hside
  have hc := Option.some.inj hc
  have hmatrix : c.matrix = m := by rw [hc]; rfl
  have hrows : c.rows = rows := by rw [hc]; rfl
  have hblocks : c.recoveryBlocks.block =
      rows.substituted P.cpu (rows.found (E.values state rows)) := by rw [hc]; rfl
  have hsolved : Solved m m.blockCount peel rows.inputFinalBytes rows.inputBlocks
      (rows.found (E.values state rows)) :=
    hsettled.solved fun c => by rw [CodecRows.found, List.length_map, List.length_range]
  refine ⟨c, rfl, ⟨hencodes, fun col => ?_, fun r hr => ?_, ?_⟩⟩
  · rw [hblocks, ← hw]
    exact (congrArg List.length (hsolved.block_eq col)).trans (spread_length _ _)
  · rw [hrows, hblocks]
    rw [Codec.blockCount, hmatrix] at hr
    rcases hsettled.peeled_or_deferred hr with hpeel | hdefer
    · exact hsolved.row_holds P.cpu hpeel
    · exact hdeferred r hdefer
  · rw [hmatrix, hblocks]
    exact hside

namespace Codec

/-- What the columns of an encoder add up to for an id. -/
def value (e : Codec E) (id : UInt32) : Nat → XorByte :=
  rowSum e.matrix (fun c => valueAt (e.recoveryBlocks.block c)) id

/-- `Encode` does not mistake the id for that of the last block, or the last block
is as long as the others. -/
def Honest (e : Codec E) (w id : UInt32) : Prop :=
  id.toNat < 2 ^ 16 ∨ id.toNat % 2 ^ 16 ≠ e.blockCount - 1 ∨ e.inputFinalBytes = w.toNat

namespace Columns
variable {e : Codec E} {message : Bytes} {w id : UInt32} (h : e.Columns P side message w)
include h

theorem wellformed : e.matrix.Wellformed := (sizes_of_chosen h.chosen).1

theorem value_within (id : UInt32) : e.value id ∈ Within w.toNat := by
  refine list_sum_mem fun v hv => ?_
  obtain ⟨c, _, rfl⟩ := List.mem_map.mp hv
  exact valueAt_within (Nat.le_of_eq (h.sized c))

theorem value_original (hid : id.toNat < e.blockCount) :
    e.value id = valueAt (inputRow e.matrix e.inputFinalBytes e.inputBlocks id.toNat) := by
  have hseed : (e.peel.peelRows id.toNat).recoveryId = id := by
    have := List.map_inj_left.mp h.seeds id.toNat (List.mem_range.mpr hid)
    rwa [UInt32.ofNat_toNat] at this
  have hrow := h.holds id.toNat hid
  rw [CodecRows.recoveryId, rows, hseed] at hrow
  exact hrow

/-- What an encoder writes is what its columns add up to. -/
theorem encode_value (id : UInt32) :
    e.encode P id w = spread (e.encode P id w).length (e.value id) := by
  rcases Nat.lt_or_ge id.toNat e.blockCount with hid | hid
  · rw [h.encode_original hid, h.value_original hid, spread_valueAt]
  · have hlength := h.encode_length (P := P) id
    have hbounds := h.final_bounds
    have hbytes : e.blockBytes = w.toNat := by rw [blockBytes, h.sizes.1]
    rw [hlength, encode, hbytes]
    generalize hcopy : (if id.toNat % 2 ^ 16 = e.blockCount - 1 then e.inputFinalBytes
      else w.toNat) = copyBytes
    have hle : copyBytes ≤ w.toNat := by
      rw [← hcopy]
      split <;> omega
    rw [if_neg (Nat.not_lt.mpr hle), if_neg fun hboth => absurd hboth.1 (Nat.not_lt.mpr hid)]
    exact regenerate_eq h.wellformed (spread_blocks h.sized) hle id

theorem chunk_value (hfits : Fits message w e.blockCount) (hid : id.toNat < e.blockCount) :
    chunk message w.toNat id.toNat =
      spread (chunk message w.toNat id.toNat).length (e.value id) := by
  rw [← h.chunk_eq hfits hid]
  exact h.encode_value id

/-- A row is stored as what the columns add up to, over a whole block. -/
theorem stored_eq (hfits : Fits message w e.blockCount) (honest : e.Honest w id)
    (hs : s = e.encode P id w ++ List.replicate k 0) :
    (if id.toNat = e.blockCount - 1 then
        s.take e.inputFinalBytes ++ List.replicate (w.toNat - e.inputFinalBytes) 0
      else s.take w.toNat) = spread w.toNat (e.value id) := by
  have htwo := hfits.two_le
  have hencode := h.encode_length (P := P) id
  have hvalue := h.encode_value id
  have hbounds := h.final_bounds
  split
  · rename_i hlast
    rw [if_pos (by rw [hlast]; exact Nat.mod_eq_of_lt (by have := hfits.le_max; omega))] at hencode
    have horiginal := h.encode_original (P := P) (show id.toNat < e.blockCount by omega)
    have hle : (inputRow e.matrix e.inputFinalBytes e.inputBlocks id.toNat).length ≤ w.toNat := by
      rw [← horiginal, hencode]
      exact hbounds.2
    rw [hs, List.take_left' hencode, horiginal, h.value_original (by omega), spread_padded _ hle,
      ← horiginal, hencode]
  · rename_i hother
    have hwhole : (e.encode P id w).length = w.toNat := by
      rw [hencode]
      split
      · rename_i hmod
        rcases honest with hsmall | hno | hfull
        · exact absurd (Nat.mod_eq_of_lt hsmall ▸ hmod) hother
        · exact absurd hmod hno
        · exact hfull
      · rfl
    rw [hs, List.take_left' hwhole, ← hwhole]
    exact hvalue

end Columns

/-- Every row is what the encoder's columns add up to for its id. -/
structure Knows (e : Codec E) (w : UInt32) (c : Codec E) : Prop where
  matrix : c.matrix = e.matrix
  final : c.outputFinalBytes = e.inputFinalBytes
  whole : c.inputFinalBytes = w.toNat
  rows : ∀ r < c.rowCount,
    c.inputBlocks r = spread w.toNat (e.value (c.peel.peelRows r).recoveryId)

namespace Knows
variable {e c : Codec E} {message : Bytes} {w : UInt32} (hk : Knows e w c)
include hk

theorem inputRow_eq (hr : r < c.rowCount) :
    inputRow c.matrix c.inputFinalBytes c.inputBlocks r =
      spread w.toNat (e.value (c.peel.peelRows r).recoveryId) := by
  rw [inputRow, hk.whole, hk.rows r hr]
  split
  · rw [spread_take _ (Nat.le_refl _)]
  · rfl

variable (h : e.Columns P side message w)
include h

theorem width : c.matrix.blockBytes.toNat = w.toNat := by rw [hk.matrix, h.sizes.1]

theorem inputs (hn : n ≤ c.rowCount) :
    Inputs c.matrix c.inputFinalBytes c.inputBlocks (List.range n) := by
  refine ⟨by rw [hk.whole, hk.width h], fun r hr => ?_⟩
  rw [hk.inputRow_eq (Nat.lt_of_lt_of_le (List.mem_range.mp hr) hn), spread_length, hk.whole,
    hk.width h, ite_self]

/-- The encoder's columns satisfy the rows of the decoder. -/
theorem holds : c.rows.Holds c.rowCount e.recoveryBlocks.block := by
  intro r hr
  have hwithin := h.value_within (c.peel.peelRows r).recoveryId
  have hvalue : inputValue c.rows r = e.value (c.peel.peelRows r).recoveryId :=
    (congrArg valueAt (hk.inputRow_eq hr)).trans (valueAt_spread hwithin)
  rw [hvalue, value, ← hk.matrix]
  rfl

/-- What the elimination determines are the encoder's columns. -/
theorem generated_regenerates (hE : E.Eliminates side)
    (hpeeled : Peeled c.matrix c.blockCount c.peel)
    (hle : c.blockCount ≤ c.rowCount) (hreached : E.Reached c.rows c.rowCount state .success)
    (cpu : Cpu) (id : UInt32) (hbytes : bytes ≤ w.toNat) :
    regenerate cpu c.matrix (c.generated P state).recoveryBlocks.block id bytes =
      spread bytes (e.value id) := by
  have wf : c.matrix.Wellformed := hk.matrix ▸ h.wellformed
  have hfound : ∀ col, c.rows.Unpeeled col → c.found state col = e.recoveryBlocks.block col :=
    hE.determines _ _ _ hreached e.recoveryBlocks.block
      (fun col => by rw [h.sized, blockWidth]; exact (hk.width h).symm) (hk.holds h)
      (by rw [show c.rows.matrix = e.matrix from hk.matrix]; exact h.side)
  have hinputs := hk.inputs h hle
  have hlt : ∀ r ∈ c.peel.peeled, r < c.blockCount := fun r hr =>
    List.mem_range.mp (hpeeled.rows.subset (List.mem_append_left _ hr))
  have hsolved : Solved c.matrix c.blockCount c.peel c.inputFinalBytes c.inputBlocks
      (c.found state) :=
    ⟨wf, hpeeled, ⟨hinputs.final_le, fun r hr => hinputs.length r (List.mem_range.mpr (hlt r hr))⟩,
      found_length c state⟩
  -- Columns behind the mixing columns are in no row.
  let y : Nat → Nat → XorByte := fun col =>
    valueAt (if col < c.matrix.blockCount + c.matrix.mixCount then e.recoveryBlocks.block col
      else c.found state col)
  have hrow : ∀ seed, rowSum c.matrix y seed = e.value seed := fun seed => by
    rw [value, ← hk.matrix]
    exact rowSum_congr wf (fun col hcol => congrArg valueAt (if_pos hcol)) seed
  have hunique := Substitution.substitute_unique
    (hpeeled.triangular wf c.inputFinalBytes c.inputBlocks)
    (x := fun col => valueAt (c.found state col)) (y := y) ?_ ?_
  · have hvalues : ∀ col, (c.generated P state).recoveryBlocks.block col =
        spread c.matrix.blockBytes.toNat (y col) := fun col =>
      (hsolved.block_eq col).trans (congrArg (fun v => spread _ (v col)) hunique)
    rw [regenerate_eq wf hvalues (by rw [hk.width h]; exact hbytes), hrow]
  · intro q hq
    obtain ⟨r, hr, rfl⟩ := List.mem_map.mp hq
    have hr' : r < c.rowCount := Nat.lt_of_lt_of_le (hlt r hr) hle
    have hholds := hk.holds h r hr'
    refine (hrow (c.peel.peelRows r).recoveryId).trans (Eq.trans ?_ hholds)
    rw [value, ← hk.matrix]
    rfl
  · intro col hcol
    refine congrArg valueAt ?_
    split
    · rename_i hinside
      refine hfound col (CodecRows.unpeeled hpeeled hinside fun r hr heq => ?_)
      exact hcol _ (List.mem_map_of_mem hr) heq.symm
    · rfl

/-- What a decoder stores of an honest droplet. -/
theorem block_eq {id : UInt32} (hfits : Fits message w e.blockCount) (honest : e.Honest w id)
    (hs : s = e.encode P id w ++ List.replicate k 0) (isFinalBlock : Bool)
    (hfinal : isFinalBlock = true ↔ id.toNat = e.blockCount - 1) :
    (if isFinalBlock then
        s.take c.outputFinalBytes ++ List.replicate (c.blockBytes - c.outputFinalBytes) 0
      else s.take c.blockBytes) = spread w.toNat (e.value id) := by
  have hbytes : c.blockBytes = w.toNat := hk.width h
  rw [← h.stored_eq hfits honest hs, hk.final, hbytes]
  by_cases hlast : id.toNat = e.blockCount - 1
  · rw [if_pos (hfinal.mpr hlast), if_pos hlast]
  · rw [if_neg (mt hfinal.mp hlast), if_neg hlast]

/-- Where each original block is there or can be put together, the message is. -/
theorem recovers (hfits : Fits message w e.blockCount)
    (hdone : (∀ b < e.blockCount, ∃ r < c.rowCount, (c.peel.peelRows r).recoveryId.toNat = b) ∨
      ∀ id bytes, bytes ≤ w.toNat →
        regenerate P.cpu c.matrix c.recoveryBlocks.block id bytes = spread bytes (e.value id)) :
    c.reconstructOutput P (UInt64.ofNat message.length) = (.success, message) := by
  have hbytes : c.blockBytes = w.toNat := hk.width h
  have hcount : c.blockCount = e.blockCount := by rw [blockCount, hk.matrix, blockCount]
  have hfinal : c.outputFinalBytes = partialFinalBytes (UInt64.ofNat message.length) w := by
    rw [hk.final, h.final]
  rw [← hcount] at hfits hdone
  refine reconstructOutput_eq hfits hbytes hfinal fun b hb => ?_
  have hb32 : (UInt32.ofNat b).toNat = b := by
    have := hfits.le_max
    rw [UInt32.toNat_ofNat', Nat.mod_eq_of_lt (by omega)]
  have hsize : (chunk message w.toNat b).length =
      if b + 1 = c.blockCount then c.outputFinalBytes else c.blockBytes := by
    rw [hfits.chunk_length_eq hb, hfinal, hbytes]
  have hvalue := h.chunk_value (hcount ▸ hfits) (by rw [hb32, ← hcount]; exact hb)
  rw [hb32, hsize] at hvalue
  have hwidth : (if b + 1 = c.blockCount then c.outputFinalBytes else c.blockBytes) ≤ w.toNat := by
    have := (partialFinalBytes_bounds (UInt64.ofNat message.length) hfits.block_pos).2
    rw [hfinal, hbytes]
    split <;> omega
  -- A row of the id is the block; without one the block is put together.
  by_cases hthere : ∃ r < c.rowCount, (c.peel.peelRows r).recoveryId.toNat = b
  · refine Or.inl (copiedOriginals_present hb (fun r hr hkey => ?_) hthere)
    have hseed : (c.peel.peelRows r).recoveryId = UInt32.ofNat b := by
      rw [← hkey, UInt32.ofNat_toNat]
    rw [hk.rows r hr, spread_take _ hwidth, hseed]
    exact hvalue.symm
  · refine Or.inr ⟨copiedOriginals_missing hthere, ?_⟩
    have hput := hdone.resolve_left fun hall => hthere (hall b hb)
    exact (hput _ _ hwidth).trans hvalue.symm

end Knows

end Codec

/-- The peeling does not see the rows behind it. -/
theorem PeelState.Peeled.setRow {s : PeelState} (h : Peeled m n s) (hq : n ≤ q) (row : PeelRow) :
    Peeled m n (s.setRow q row) := by
  have hlt : ∀ r ∈ s.peeled, r < n := fun r hr =>
    List.mem_range.mp (h.rows.subset (List.mem_append_left _ hr))
  have hrow : ∀ r ∈ s.peeled, (s.setRow q row).peelRows r = s.peelRows r := fun r hr =>
    setRow_of_ne s q row (Nat.ne_of_lt (Nat.lt_of_lt_of_le (hlt r hr) hq))
  have hsolved : ∀ r ∈ s.peeled, (s.setRow q row).solved r = s.solved r := fun r hr => by
    rw [PeelState.solved, hrow r hr, PeelState.solved]
  have hcolumns : ∀ r ∈ s.peeled, columnsOf m (s.setRow q row) r = columnsOf m s r := fun r hr => by
    rw [columnsOf, hrow r hr, columnsOf]
  have hmap : ∀ l : List Nat, l ⊆ s.peeled →
      l.map (s.setRow q row).solved = l.map s.solved := fun l hl =>
    List.map_congr_left fun r hr => hsolved r (hl hr)
  refine ⟨h.rows, ?_, fun r hr => ?_, fun before r after hsplit d hd => ?_⟩
  · have hcols := h.columns
    rw [← hmap _ (List.Subset.refl _)] at hcols
    exact hcols
  · have hr : r ∈ s.peeled := hr
    rw [hsolved r hr, hcolumns r hr]
    exact h.solves r hr
  · have hsplit : s.peeled = before ++ r :: after := hsplit
    have hr : r ∈ s.peeled := by rw [hsplit]; simp
    have hbefore : before ⊆ s.peeled := by rw [hsplit]; exact List.subset_append_left _ _
    rw [hsolved r hr, hmap before hbefore]
    exact h.order before r after hsplit d (hcolumns r hr ▸ hd)

namespace Codec

/-- The elimination was begun over the rows there are. -/
def Begun (c : Codec E) (result : WirehairResult) : Prop :=
  c.blockCount ≤ c.rowCount ∧ Peeled c.matrix c.blockCount c.peel ∧
    ∃ state, c.elimination = some state ∧ E.Reached c.rows c.rowCount state result

/-- Between two calls. -/
def Waiting (P : Platform) (message : Bytes) (w : UInt32) (e c : Codec E) : Prop :=
  Knows e w c ∧ (c.Collecting P (UInt64.ofNat message.length) w ∧ c.rowCount < c.blockCount ∨
    c.Begun .needMore)

theorem Waiting.noteOriginal {e c : Codec E} {message : Bytes} {w : UInt32}
    (hw : Waiting P message w e c) (id : UInt32) :
    Waiting P message w e (c.noteOriginal id) := by
  obtain ⟨hk, hphase⟩ := hw
  rw [Codec.noteOriginal]
  split
  · refine ⟨⟨hk.matrix, hk.final, hk.whole, hk.rows⟩, hphase.imp_left fun hc => ⟨?_, hc.2⟩⟩
    exact ⟨hc.1.chosen, hc.1.final, hc.1.whole, hc.1.inv, hc.1.deferColumns⟩
  · exact ⟨hk, hphase⟩

/-- What may come of a call. -/
def Answers (P : Platform) (message : Bytes) (w : UInt32) (e : Codec E) (result : WirehairResult)
    (c : Codec E) : Prop :=
  (result = .needMore → Waiting P message w e c) ∧ (result = .success →
    c.reconstructOutput P (UInt64.ofNat message.length) = (.success, message))

theorem Answers.failed {e c : Codec E} {message : Bytes} {w : UInt32} (hmore : result ≠ .needMore)
    (hsuccess : result ≠ .success) : Answers P message w e result c :=
  ⟨fun h => absurd h hmore, fun h => absurd h hsuccess⟩

/-- Every original block is among as many rows as there are blocks. -/
theorem originals_present {c : Codec E} (hall : c.isAllOriginalData = true) :
    ∀ b < c.blockCount, ∃ r < c.rowCount, (c.peel.peelRows r).recoveryId.toNat = b := by
  intro b hb
  simp only [isAllOriginalData, ge_iff_le, decide_eq_true_eq] at hall
  have hsub : List.Subperm
      ((((List.range c.rowCount).map fun r => (c.peel.peelRows r).recoveryId.toNat).filter
        (fun id => id < c.blockCount)).dedup) (List.range c.blockCount) := by
    refine List.subperm_of_subset (List.nodup_dedup _) fun k hk => ?_
    have := (List.mem_filter.mp (List.mem_dedup.mp hk)).2
    exact List.mem_range.mpr (of_decide_eq_true this)
  have hperm := hsub.perm_of_length_le (by rw [List.length_range]; exact hall)
  have hmem := List.mem_dedup.mp (hperm.mem_iff.mpr (List.mem_range.mpr hb))
  obtain ⟨r, hr, hid⟩ := List.mem_map.mp (List.mem_filter.mp hmem).1
  exact ⟨r, List.mem_range.mp hr, hid⟩

/-- A row that is stored behind the others, or over one of them. -/
theorem Knows.stored {e c : Codec E} {w id : UInt32} (hk : Knows e w c) (peel : PeelState)
    (q n : Nat) (hn : ∀ r < n, r = q ∨ r < c.rowCount)
    (hq : (peel.peelRows q).recoveryId = id)
    (hothers : ∀ r < n, r ≠ q → (peel.peelRows r).recoveryId = (c.peel.peelRows r).recoveryId)
    (isFinalBlock : Bool)
    (hblock : (if isFinalBlock then
        s.take c.outputFinalBytes ++ List.replicate (c.blockBytes - c.outputFinalBytes) 0
      else s.take c.blockBytes) = spread w.toNat (e.value id)) (elimination : Option E.State) :
    Knows e w { ({ c with rowCount := n, peel } : Codec E).storeRow q isFinalBlock s with
      elimination } := by
  refine ⟨hk.matrix, hk.final, hk.whole, fun r hr => ?_⟩
  have hr : r < n := hr
  show Function.update c.inputBlocks q _ r = spread w.toNat (e.value (peel.peelRows r).recoveryId)
  rcases eq_or_ne r q with rfl | hne
  · rw [Function.update_self, hq]
    exact hblock
  · rw [Function.update_of_ne hne, hothers r hr hne]
    exact hk.rows r ((hn r hr).resolve_left hne)

section
variable {e c : Codec E} {message : Bytes} {w id : UInt32} (hE : E.Eliminates side)
  (h : e.Columns P side message w) (hfits : Fits message w e.blockCount)
include hE h hfits

theorem Knows.thenGenerate (hk : Knows e w c) (hbegun : c.Begun result) :
    ∃ c', Codec.thenGenerate P (some (result, c)) = some (result, c') ∧
      Answers P message w e result c' := by
  obtain ⟨hle, hpeeled, state, hstate, hreached⟩ := hbegun
  rw [Codec.thenGenerate]
  simp only [Option.bind_eq_bind, Option.bind_some]
  split
  · rw [generateRecoveryBlocks_eq hstate]
    refine ⟨c.generated P state, rfl, fun hmore => absurd hmore (by decide), fun _ => ?_⟩
    have hk' : Knows e w (c.generated P state) := ⟨hk.matrix, hk.final, hk.whole, hk.rows⟩
    exact hk'.recovers h hfits (Or.inr fun id bytes hbytes =>
      hk.generated_regenerates h hE hpeeled hle hreached P.cpu id hbytes)
  · rename_i hno
    refine ⟨c, rfl, fun hmore => ⟨hk, Or.inr ⟨hle, hpeeled, state, hstate, ?_⟩⟩,
      fun hsuccess => absurd hsuccess hno⟩
    rw [← hmore]
    exact hreached

theorem Knows.onRow (hk : Knows e w c) (hc : c.Collecting P (UInt64.ofNat message.length) w)
    (hle : c.rowCount ≤ c.blockCount) :
    ∃ result c', c.onRow P = some (result, c') ∧ Answers P message w e result c' := by
  have hcount : c.blockCount = e.blockCount := by rw [blockCount, hk.matrix, blockCount]
  rw [Codec.onRow]
  split
  · rename_i hne
    exact ⟨_, _, rfl, fun _ => ⟨hk, Or.inl ⟨hc, Nat.lt_of_le_of_ne hle hne⟩⟩,
      fun hsuccess => absurd hsuccess (by decide)⟩
  rename_i heq
  have heq : c.rowCount = c.blockCount := not_not.mp heq
  split
  · split
    · rename_i hall
      refine ⟨_, _, rfl, fun hmore => absurd hmore (by decide),
        fun _ => hk.recovers h hfits (Or.inl ?_)⟩
      rw [← hcount]
      exact originals_present hall
    · exact ⟨_, _, rfl, .failed (by decide) (by decide)⟩
  · have hinv : Inv c.matrix c.blockCount c.peel quiet none [] := heq ▸ hc.inv
    obtain ⟨peel, hsolve, hready, hpeeled, hseeds⟩ := solveMatrix_spec (c := c) hc.wellformed.1
      ⟨hinv, by rw [hc.deferColumns]; exact fun _ hmem => absurd hmem List.not_mem_nil⟩
    obtain ⟨_, _, _, _, hmax⟩ := chooseMatrix_wellformed (Nat.le_refl _) hc.chosen
    have hids : ∀ r < c.rowCount, (peel.peelRows r).recoveryId = (c.peel.peelRows r).recoveryId :=
      fun r hr => List.map_inj_left.mp hseeds r (List.mem_range.mpr (heq ▸ hr))
    have hk' : Knows e w (c.withElimination peel (E.solve { c.rows with peel }).2) :=
      ⟨hk.matrix, hk.final, hk.whole, fun r hr => (hk.rows r hr).trans
        (congrArg (fun seed => spread w.toNat (e.value seed)) (hids r hr).symm)⟩
    have hsettled : CodecRows.Settled { c.rows with peel } c.blockCount :=
      ⟨hc.wellformed.1, hmax, hready, hpeeled, hk.inputs h (Nat.le_of_eq heq.symm)⟩
    have hreached := Elimination.Reached.solved (E := E) hsettled
    have hbegun : (c.withElimination peel (E.solve { c.rows with peel }).2).Begun
        (E.solve { c.rows with peel }).1 := by
      refine ⟨Nat.le_of_eq heq.symm, hpeeled, _, rfl, ?_⟩
      have hrows : (c.withElimination peel (E.solve { c.rows with peel }).2).rowCount =
          c.blockCount := heq
      rw [hrows]
      exact hreached
    obtain ⟨c', hthen, hanswers⟩ := hk'.thenGenerate hE h hfits hbegun
    rw [hsolve, hthen]
    exact ⟨_, c', rfl, hanswers⟩

/-- A block more than there are blocks. -/
theorem Knows.resumed (hk : Knows e w c) (hbegun : c.Begun .needMore) (honest : e.Honest w id)
    (hs : s = e.encode P id w ++ List.replicate k 0) :
    ∃ result' c', c.resumeSolveMatrix id s = some (result', c') ∧
      (result' = .extraInsufficient ∨ Knows e w c' ∧ c'.Begun result') := by
  obtain ⟨hle, hpeeled, state, hstate, hreached⟩ := hbegun
  have hcount : c.blockCount = e.blockCount := by rw [blockCount, hk.matrix, blockCount]
  have hblock := hk.block_eq h hfits honest hs (decide (id.toNat = c.blockCount - 1))
    (by rw [decide_eq_true_eq, hcount])
  rw [resumeSolveMatrix]
  simp only [hstate, Option.bind_eq_bind, Option.bind_some]
  by_cases hfull : c.rowCount ≥ c.blockCount + c.extraCount
  · simp only [decide_eq_true hfull, if_true]
    cases hreuse : E.reuse state c.rows with
    | none => exact ⟨_, _, rfl, Or.inl rfl⟩
    | some place =>
      obtain ⟨pivotI, q⟩ := place
      obtain ⟨hge, hlt⟩ := hE.extra _ _ _ _ _ hreached hreuse
      refine ⟨_, _, rfl, Or.inr ⟨?_, hle, hpeeled.setRow hge _, _, rfl, ?_⟩⟩
      · exact hk.stored _ q c.rowCount (fun r hr => Or.inr hr) (by rw [setRow_self])
          (fun r _ hne => by rw [setRow_of_ne _ _ _ hne]) _ hblock _
      · exact Elimination.Reached.reused id _ hreached hfull hreuse
  · simp only [decide_eq_false hfull, Bool.false_eq_true, if_false]
    refine ⟨_, _, rfl, Or.inr ⟨?_, Nat.le_succ_of_le hle, hpeeled.setRow hle _, _, rfl, ?_⟩⟩
    · exact hk.stored _ c.rowCount (c.rowCount + 1)
        (fun r hr => (Nat.lt_succ_iff_lt_or_eq.mp hr).symm) (by rw [setRow_self])
        (fun r _ hne => by rw [setRow_of_ne _ _ _ hne]) _ hblock _
    · exact Elimination.Reached.appended id _ hreached (Nat.not_le.mp hfull)

/-- One call with an honest droplet. -/
theorem Waiting.decodeFeed (hw : Waiting P message w e c) (honest : e.Honest w id)
    (hs : s = e.encode P id w ++ List.replicate k 0) :
    ∃ result c', c.decodeFeed P id s = some (result, c') ∧ Answers P message w e result c' := by
  rw [Codec.decodeFeed]
  split
  · exact ⟨_, _, rfl, .failed (by decide) (by decide)⟩
  split
  · exact ⟨_, _, rfl, .failed (by decide) (by decide)⟩
  have hd := hw.noteOriginal id
  have hcount : c.blockCount = (c.noteOriginal id).blockCount :=
    (sameMessage_noteOriginal c id).blockCount.symm
  dsimp only
  rw [hcount]
  generalize c.noteOriginal id = d at hd
  obtain ⟨hk, hphase⟩ := hd
  have hblocks : d.blockCount = e.blockCount := by rw [blockCount, hk.matrix, blockCount]
  rcases hphase with ⟨hc, hlt⟩ | hbegun
  · rw [if_neg (Nat.not_le.mpr hlt)]
    obtain ⟨taken, peel, hpeel, hoffered⟩ := opportunisticPeeling_spec hc.wellformed.1 hc.inv id
    simp only [hpeel, Option.bind_eq_bind, Option.bind_some]
    cases taken with
    | false =>
      refine ⟨_, _, rfl, fun _ => ⟨⟨hk.matrix, hk.final, hk.whole, fun r hr => ?_⟩,
        Or.inl ⟨⟨hc.chosen, hc.final, hc.whole, hoffered.inv,
          hoffered.deferColumns.trans hc.deferColumns⟩, hlt⟩⟩,
        fun hsuccess => absurd hsuccess (by decide)⟩
      exact (hk.rows r hr).trans (congrArg (fun seed => spread w.toNat (e.value seed))
        (hoffered.ids r (Nat.ne_of_lt hr)).symm)
    | true =>
      have hfinal : decide ((id + 1).toNat = d.blockCount) = true ↔
          id.toNat = e.blockCount - 1 := by
        have htwo := hfits.two_le
        have hmax := hfits.le_max
        have hid := id.toNat_lt
        rw [decide_eq_true_eq, hblocks, UInt32.toNat_add, UInt32.toNat_one]
        omega
      have hblock := hk.block_eq h hfits honest hs _ hfinal
      have hrow : Knows e w ((d.withPeel peel).takeRow
          (decide ((id + 1).toNat = d.blockCount)) s) :=
        hk.stored peel d.rowCount (d.rowCount + 1)
          (fun r hr => (Nat.lt_succ_iff_lt_or_eq.mp hr).symm) (hoffered.seed rfl)
          (fun r _ hne => hoffered.ids r hne) _ hblock d.elimination
      exact hrow.onRow hE h hfits (hc.row hoffered _ s) hlt
  · rw [if_pos hbegun.1]
    obtain ⟨result', c', hresume, hinsufficient | ⟨hk', hbegun'⟩⟩ :=
      hk.resumed hE h hfits hbegun honest hs
    · rw [hresume, hinsufficient]
      exact ⟨_, c', rfl, .failed (by decide) (by decide)⟩
    · rw [hresume]
      obtain ⟨c'', hthen, hanswers⟩ := hk'.thenGenerate hE h hfits hbegun'
      exact ⟨_, c'', hthen, hanswers⟩

/-- A call from outside. -/
theorem Waiting.decode (hw : Waiting P message w e c) (honest : e.Honest w id)
    (hs : s = e.encode P id w ++ List.replicate k 0) :
    ∃ result c', (wirehairCodec P E).decode (some c) id s = (result, some c') ∧
      Answers P message w e result c' := by
  obtain ⟨result, c', hfeed, hanswers⟩ := hw.decodeFeed hE h hfits honest hs
  simp only [wirehairCodec]
  split
  · exact ⟨_, _, rfl, .failed (by decide) (by decide)⟩
  · rw [hfeed]
    exact ⟨result, c', rfl, hanswers⟩

theorem Waiting.feed (hw : Waiting P message w e c)
    (hx : ∀ x ∈ xs, e.Honest w x.1 ∧ ∃ k, x.2 = e.encode P x.1 w ++ List.replicate k 0)
    (hfeed : (wirehairCodec P E).code.feed (some c) xs = some d) :
    ∃ c' : Codec E, d = some c' ∧ Waiting P message w e c' := by
  induction xs generalizing c with
  | nil =>
    cases hfeed
    exact ⟨c, rfl, hw⟩
  | cons x xs ih =>
    obtain ⟨d', hstep, hrest⟩ := Erasure.Code.feed_cons_some _ hfeed
    obtain ⟨honest, k, hs⟩ := hx x List.mem_cons_self
    obtain ⟨result, c1, hdecode, hmore, _⟩ := hw.decode hE h hfits honest hs
    have hd' : (result.verdict, some c1) = (.needMore, d') :=
      (congrArg (fun r => (WirehairResult.verdict r.1, r.2)) hdecode).symm.trans hstep
    obtain ⟨hverdict, rfl⟩ := Prod.mk.inj hd'
    exact ih (hmore (verdict_needMore hverdict)) (fun y hy => hx y (List.mem_cons_of_mem x hy))
      hrest

end

/-- A decoder that was fed nothing. -/
theorem Originals.waiting {e c : Codec E} (hc : c.Originals P message w [])
    (h : e.Columns P side message w) (hmatrix : c.matrix = e.matrix)
    (hfits : Fits message w e.blockCount) : Waiting P message w e c := by
  have hcount : c.blockCount = e.blockCount := by rw [blockCount, hmatrix, blockCount]
  refine ⟨⟨hmatrix, by rw [hc.final, h.final], hc.whole, fun r hr => ?_⟩,
    Or.inl ⟨hc.toCollecting, ?_⟩⟩
  · rw [hc.count] at hr
    exact absurd hr (Nat.not_lt_zero r)
  · rw [hc.count, hcount]
    exact Nat.lt_of_lt_of_le Nat.zero_lt_two hfits.two_le

end Codec

/-- `Encode` does not take the id for that of the last block unless it is, or the
blocks of the message are all of one length. -/
def Geometry.Honest (g : Geometry) (id : UInt32) : Prop :=
  id.toNat < 2 ^ 16 ∨ id.toNat % 2 ^ 16 ≠ g.count - 1 ∨
    g.messageBytes.toNat % g.blockBytes.toNat = 0

/-- What a droplet is to the encoder it came from. -/
theorem Codec.Columns.arrives {g : Geometry} {e : Codec E} {id : UInt32}
    (h : e.Columns P side message g.blockBytes)
    (he : (wirehairCodec P E).encoderCreate message g.blockBytes = some (some e))
    (hmessage : UInt64.ofNat message.length = g.messageBytes) (hcount : e.blockCount = g.count)
    (hs : (wirehairCodec P E).IsDroplet g message id s) (honest : g.Honest id) :
    e.Honest g.blockBytes id ∧ ∃ k, s = e.encode P id g.blockBytes ++ List.replicate k 0 := by
  obtain ⟨_, _, e', k, he', _, rfl⟩ := hs
  cases he.symm.trans he'
  refine ⟨?_, k, rfl⟩
  rcases honest with hsmall | hother | hwhole
  · exact Or.inl hsmall
  · exact Or.inr (Or.inl (by rw [hcount]; exact hother))
  · refine Or.inr (Or.inr ?_)
    rw [h.final, hmessage, Codec.partialFinalBytes, if_pos hwhole]

/-- Over an elimination that does what it is for, the codec is sound: whatever
blocks of a message a decoder was fed, whatever their ids, in whatever order and
however often, all it ever yields is the message. -/
theorem wirehairCodec_sound (P : Platform) (hE : E.Eliminates side) :
    (keptCode P E).Sound
      (fun g b i s => (wirehairCodec P E).IsDroplet g.1 b i s ∧ g.1.Honest i) := by
  intro g b xs d i s d' hfed hi hdecode
  obtain ⟨⟨d₀, hcreate, hfeed⟩, hdroplets⟩ := hfed
  rw [Erasure.Code.feed_pull] at hfeed
  obtain ⟨e, c₀, he?, _, hmade, hmatrix, hstart, hmessage, hblocks, hfits⟩ :=
    droplet_spec g.2 hi.1
  cases hcreate.symm.trans hmade
  obtain ⟨e', heq, h⟩ := encoderCreate_columns (P := P) hE he?
  cases heq
  have hfed : ∀ x ∈ xs.map id, e.Honest g.1.blockBytes x.1 ∧
      ∃ k, x.2 = e.encode P x.1 g.1.blockBytes ++ List.replicate k 0 := fun x hx => by
    obtain ⟨y, hy, rfl⟩ := List.mem_map.mp hx
    exact h.arrives he? hmessage hblocks (hdroplets y hy).1 (hdroplets y hy).2
  obtain ⟨c, rfl, hc⟩ := (hstart.waiting h hmatrix hfits).feed hE h hfits hfed hfeed
  obtain ⟨honest, k, hs⟩ := h.arrives he? hmessage hblocks hi.1 hi.2
  obtain ⟨result, c', hstep, _, hsuccess⟩ := hc.decode hE h hfits honest hs
  have hpair : (result.verdict, some c') = (.success, d') :=
    (congrArg (fun r => (WirehairResult.verdict r.1, r.2)) hstep).symm.trans hdecode
  obtain ⟨hverdict, rfl⟩ := Prod.mk.inj hpair
  have hrecover := hsuccess (verdict_success hverdict)
  show (wirehairCodec P E).code.recover g.1 (some c') = some b
  simp only [wirehairCodec, ← hmessage, hrecover]

namespace Elimination

/-- Columns that satisfy the rows; what is behind the mixing columns does not
matter and is zero. -/
structure Solution (side : Matrix → (Nat → Bytes) → Prop) (rows : CodecRows) (n : Nat)
    (blocks : Nat → Bytes) : Prop where
  sized : ∀ c, (blocks c).length = blockWidth rows
  behind : ∀ c, rows.matrix.blockCount + rows.matrix.mixCount ≤ c →
    blocks c = List.replicate (blockWidth rows) 0
  holds : rows.Holds n blocks
  side : side rows.matrix blocks

/-- Succeeds where there is one solution, and finds it. -/
noncomputable def ideal (side : Matrix → (Nat → Bytes) → Prop) : Elimination :=
  open Classical in
  { State := Nat
    solve := fun rows =>
      (if ∃! blocks, Solution side rows rows.matrix.blockCount blocks then .success else .needMore,
        rows.matrix.blockCount)
    values := fun n rows c i =>
      if h : ∃ blocks, Solution side rows n blocks then (h.choose c).getD i 0 else 0
    append := fun _ _ n => (0, n + 1)
    reuse := fun _ _ => none
    resume := fun n rows _ _ _ =>
      (if ∃! blocks, Solution side rows n blocks then .success else .needMore, n) }

theorem ideal_reached {rows : CodecRows} {state : (ideal side).State}
    (h : (ideal side).Reached rows n state result) :
    state = n ∧ rows.matrix.Wellformed ∧
      (∀ c ∈ rows.peel.deferColumns, c < rows.matrix.blockCount) ∧
      (result = .success → ∃! blocks, Solution side rows n blocks) := by
  have answer : ∀ p : Prop, (open Classical in
      if p then WirehairResult.success else .needMore) = .success → p := by
    intro p hp
    by_contra hnot
    rw [if_neg hnot] at hp
    cases hp
  induction h with
  | solved h => exact ⟨rfl, h.wf, h.ready.deferColumns_lt, answer _⟩
  | appended id block h room ih =>
    obtain ⟨_, wf, hdefer, _⟩ := ih
    exact ⟨rfl, wf, hdefer, answer _⟩
  | reused id block h full hfound ih => cases hfound

theorem ideal_found {rows : CodecRows} (h : ∃ blocks, Solution side rows n blocks) (c : Nat) :
    rows.found ((ideal side).values n rows) c = h.choose c := by
  have hvalues : ∀ i, (ideal side).values n rows c i = (h.choose c).getD i 0 := fun i => dif_pos h
  have hsized := h.choose_spec.sized c
  rw [CodecRows.found, ← hsized]
  exact (List.map_congr_left fun i _ => hvalues i).trans (spread_valueAt _)

/-- What the elimination is to find decides a solution. -/
theorem Solution.substituted_eq {rows : CodecRows} {found blocks : Nat → Bytes}
    (h : Solution side rows rows.matrix.blockCount blocks)
    (hsettled : rows.Settled rows.matrix.blockCount)
    (hsized : ∀ c, (found c).length = blockWidth rows)
    (hfound : ∀ c, c ∈ rows.peel.deferColumns ∨ rows.matrix.blockCount ≤ c → found c = blocks c)
    (cpu : Cpu) : rows.substituted cpu found = blocks := by
  have hrows : ∀ r ∈ rows.peel.peeled, padded rows.matrix rows.inputFinalBytes rows.inputBlocks r =
      regenerate cpu rows.matrix blocks (rows.peel.peelRows r).recoveryId
        rows.matrix.blockBytes.toNat := by
    intro r hr
    have hlt := hsettled.peeled_lt hr
    exact ((equation_holds_iff hsettled.wf h.sized (hsettled.input_le hlt)).mp
      (h.holds r hlt)).symm
  exact (hsettled.solved hsized).agrees h.sized hfound hrows

/-- Nothing more is asked than can be done. -/
theorem ideal_eliminates
    (hside : ∀ m : Matrix, ∀ blocks blocks' : Nat → Bytes,
      (∀ c < m.blockCount + m.mixCount, blocks c = blocks' c) → side m blocks → side m blocks') :
    (ideal side).Eliminates side where
  solves rows hsettled hsuccess cpu := by
    obtain ⟨_, _, _, hunique⟩ := ideal_reached (Reached.solved (E := ideal side) hsettled)
    have h := (hunique hsuccess).exists
    have hfound : rows.found ((ideal side).values ((ideal side).solve rows).2 rows) = h.choose :=
      funext (ideal_found h)
    have hspec := h.choose_spec
    have hblocks : rows.substituted cpu h.choose = h.choose :=
      hspec.substituted_eq hsettled hspec.sized (fun _ _ => rfl) cpu
    rw [hfound, hblocks]
    exact ⟨fun r hr => hspec.holds r (hsettled.ready.inv.settled_lt r (Or.inr hr)), hspec.side⟩
  determines rows n state hreached blocks hsized hholds hblocks c hc := by
    obtain ⟨rfl, wf, hdefer, hunique⟩ := ideal_reached hreached
    obtain h := (hunique rfl).exists
    have hlt : c < rows.matrix.blockCount + rows.matrix.mixCount := by
      rcases hc with hmem | ⟨_, hmix⟩
      · have := hdefer c hmem
        omega
      · exact hmix
    -- The columns behind the mixing columns put to zero, the given ones are the solution.
    let cut : Nat → Bytes := fun col =>
      if col < rows.matrix.blockCount + rows.matrix.mixCount then blocks col
      else List.replicate (blockWidth rows) 0
    have hcut : ∀ col < rows.matrix.blockCount + rows.matrix.mixCount, blocks col = cut col :=
      fun col hcol => (if_pos hcol).symm
    have hsolution : Solution side rows state cut := by
      refine ⟨fun col => ?_, fun col hcol => if_neg (Nat.not_lt.mpr hcol), fun r hr => ?_,
        hside _ _ _ hcut hblocks⟩
      · dsimp only [cut]
        split
        · exact hsized col
        · rw [List.length_replicate]
      · rw [← hholds r hr]
        exact (rowSum_congr wf (fun col hcol => congrArg valueAt (hcut col hcol)) _).symm
    rw [ideal_found h, (hunique rfl).unique h.choose_spec hsolution]
    exact (hcut c hlt).symm
  extra _ _ _ _ _ _ hreuse := by cases hreuse

/-- Asks that the mixing columns be zero. -/
def mixingZero (m : Matrix) (blocks : Nat → Bytes) : Prop :=
  ∀ c, m.blockCount ≤ c → c < m.blockCount + m.mixCount →
    blocks c = List.replicate m.blockBytes.toNat 0

theorem mixingZero_congr (m : Matrix) (blocks blocks' : Nat → Bytes)
    (h : ∀ c < m.blockCount + m.mixCount, blocks c = blocks' c) (hzero : mixingZero m blocks) :
    mixingZero m blocks' := fun c hge hlt => by
  rw [← h c hlt]
  exact hzero c hge hlt

/-- Where the peeling leaves no column, zero mixing columns leave one solution. -/
theorem ideal_solves {rows : CodecRows} (h : rows.Settled rows.matrix.blockCount)
    (hnone : rows.peel.deferColumns = []) : ((ideal mixingZero).solve rows).1 = .success := by
  let zero : Nat → Bytes := fun _ => List.replicate (blockWidth rows) 0
  have hsized : ∀ c, (zero c).length = blockWidth rows := fun _ => List.length_replicate
  have hsolved := h.solved hsized
  have hcounts := h.peeled.counts
  have hpeeled : ∀ r < rows.matrix.blockCount, r ∈ rows.peel.peeled := by
    intro r hr
    refine (h.peeled_or_deferred hr).resolve_right fun hdefer => ?_
    have := List.length_pos_of_mem hdefer
    rw [hnone, List.length_nil] at hcounts
    omega
  let cpu : Cpu := .desktop false false
  have hkept : ∀ c, rows.matrix.blockCount ≤ c → rows.substituted cpu zero c = zero c :=
    fun c hc => hsolved.keeps (Or.inr hc)
  have hsolution : Solution mixingZero rows rows.matrix.blockCount (rows.substituted cpu zero) :=
    { sized := fun c => (congrArg List.length (hsolved.block_eq c)).trans (spread_length _ _)
      behind := fun c hc => hkept c (by omega)
      holds := fun r hr => hsolved.row_holds cpu (hpeeled r hr)
      side := fun c hge _ => hkept c hge }
  have hunique : ∀ blocks, Solution mixingZero rows rows.matrix.blockCount blocks →
      blocks = rows.substituted cpu zero := by
    intro blocks hblocks
    refine (hblocks.substituted_eq h hsized (fun c hc => ?_) cpu).symm
    rw [hnone] at hc
    have hge : rows.matrix.blockCount ≤ c := hc.resolve_left List.not_mem_nil
    rcases Nat.lt_or_ge c (rows.matrix.blockCount + rows.matrix.mixCount) with hmix | hbehind
    · exact (hblocks.side c hge hmix).symm
    · exact (hblocks.behind c hbehind).symm
  exact if_pos ⟨_, hsolution, hunique⟩

end Elimination

/-- With this seed the peeling of five rows leaves no column. -/
def Platform.peels : Platform := { Platform.plain with getPeelSeed := fun _ => 193 }

namespace Codec
open Elimination

theorem encodeFeed_success {c₀ c : Codec E} {peel : PeelState}
    (hrows : encodeRows (List.range c₀.blockCount) c₀ = some (true, c))
    (hpeel : c.peel.greedyPeeling c.matrix (c.blockCount + 1) (c.blockCount + 1) = some peel)
    (hsuccess : (E.solve { c.rows with peel }).1 = .success) :
    ∃ e, c₀.encodeFeed P = some (.success, e) := by
  rw [encodeFeed]
  simp only [hrows, Option.bind_eq_bind, Option.bind_some, Bool.not_true, Bool.false_eq_true,
    if_false, solveMatrix, hpeel, hsuccess]
  rw [generateRecoveryBlocks_eq rfl]
  exact ⟨_, rfl⟩

/-- An encoder comes about where the peeling of its rows leaves no column. -/
theorem encoderCreate_peeled {message : Bytes} {w : UInt32} {m : Matrix} {peel : PeelState}
    {c : Codec (.ideal mixingZero)}
    (hchoose : chooseMatrix P.getPeelSeed (2 ^ 16) (UInt64.ofNat message.length) w = some (.ok m))
    (hrows : encodeRows (List.range m.blockCount) (initializeEncoder P message m) = some (true, c))
    (hpeel : c.peel.greedyPeeling m (m.blockCount + 1) (m.blockCount + 1) = some peel)
    (hnone : peel.deferColumns = []) :
    ∃ e, (wirehairCodec P (.ideal mixingZero)).encoderCreate message w = some (some e) := by
  obtain ⟨wf, _⟩ := sizes_of_chosen hchoose
  obtain ⟨_, _, _, _, hmax⟩ := chooseMatrix_wellformed (Nat.le_refl _) hchoose
  obtain ⟨taken, fed, hfed, _, htaken⟩ := encodeRows_spec (n := 0)
    (c := initializeEncoder (E := .ideal mixingZero) P message m) wf (Inv.start _ _)
    (fun _ => Nat.zero_le _) m.blockCount
  rw [← List.range_eq_range'] at hfed
  cases hrows.symm.trans hfed
  obtain ⟨hinv, hdefers, _⟩ := htaken rfl
  rw [Nat.zero_add] at hinv
  have hready : Ready m m.blockCount fed :=
    ⟨hinv, fun c hc => absurd (hdefers ▸ hc) List.not_mem_nil⟩
  obtain ⟨peel', hpeel', hready', hdone, _⟩ := greedyPeeling_spec wf (Nat.le_succ m.blockCount)
    hready (Nat.lt_succ_of_le (todoCount_le m fed))
  cases hpeel.symm.trans hpeel'
  have hsettled : CodecRows.Settled
      { (initializeEncoder (E := .ideal mixingZero) P message m).rows with peel } m.blockCount :=
    ⟨wf, hmax, hready', hready'.peeled wf hdone, initialized_inputs hchoose _
      fun r => List.mem_range.mp⟩
  have hfeed : ∃ e, (initializeEncoder (E := .ideal mixingZero) P message m).encodeFeed P =
      some (.success, e) := encodeFeed_success hrows hpeel (ideal_solves hsettled hnone)
  obtain ⟨e, he⟩ := hfeed
  refine ⟨e, ?_⟩
  simp only [wirehairCodec, chosenMatrix, hchoose, he]

theorem nine_bytes_peeled :
    ∃ e, (wirehairCodec .peels (.ideal mixingZero)).encoderCreate
      [1, 2, 3, 4, 5, 6, 7, 8, 9] 2 = some (some e) := by
  have hleft : (do
      let m ← chosenMatrix .peels 9 2
      let (taken, c) ← encodeRows (List.range m.blockCount)
        (initializeEncoder (E := .ideal mixingZero) .peels
          [1, 2, 3, 4, 5, 6, 7, 8, 9] m)
      let peel ← c.peel.greedyPeeling m (m.blockCount + 1) (m.blockCount + 1)
      some (taken, peel.deferColumns)) = some (true, []) := by decide +kernel
  obtain ⟨m, hm, hleft⟩ := Option.bind_eq_some_iff.mp hleft
  obtain ⟨⟨taken, c⟩, hrows, hleft⟩ := Option.bind_eq_some_iff.mp hleft
  obtain ⟨peel, hpeel, hleft⟩ := Option.bind_eq_some_iff.mp hleft
  obtain ⟨rfl, hnone⟩ := Prod.mk.inj (Option.some.inj hleft)
  have hchoose : chooseMatrix Platform.peels.getPeelSeed (2 ^ 16) 9 2 = some (.ok m) := by
    rw [chosenMatrix] at hm
    split at hm
    · rename_i hchoose
      cases hm
      exact hchoose
    · cases hm
  exact encoderCreate_peeled hchoose hrows hpeel hnone

end Codec

theorem keptCode_fed {g : KeptGeometry} {isDroplet : KeptGeometry → Bytes → UInt32 → Bytes → Prop}
    {xs : List (UInt32 × Bytes)} (hcreate : (wirehairCodec P E).code.create g.1 = some d₀)
    (hfeed : (wirehairCodec P E).code.feed d₀ xs = some d)
    (hdroplets : ∀ x ∈ xs, isDroplet g b x.1 x.2) :
    Erasure.Fed (keptCode P E) isDroplet g b xs d := by
  refine ⟨⟨d₀, hcreate, ?_⟩, hdroplets⟩
  rw [Erasure.Code.feed_pull, ← hfeed]
  exact congrArg _ (List.map_id xs)

theorem wirehairCodec_sound_nine :
    ∃ (e : Codec (.ideal Elimination.mixingZero)) (d₀ d d' : Option (Codec _)),
      let W := wirehairCodec .peels (.ideal Elimination.mixingZero)
      let packets := [3, 0, 4, 2].map fun id => (id, e.encode .peels id 2)
      W.encoderCreate [1, 2, 3, 4, 5, 6, 7, 8, 9] 2 = some (some e) ∧
      W.code.create ⟨9, 2⟩ = some d₀ ∧ W.code.feed d₀ packets = some d ∧
      W.code.decode d 1 (e.encode .peels 1 2) = (.success, d') ∧
      W.code.recover ⟨9, 2⟩ d' = some [1, 2, 3, 4, 5, 6, 7, 8, 9] := by
  obtain ⟨e, he⟩ := Codec.nine_bytes_peeled
  obtain ⟨e', heq, hencodes⟩ := Codec.encoderCreate_encodes he
  cases heq
  have hkept : Geometry.Kept ⟨9, 2⟩ := ⟨by decide, by decide⟩
  let packets := ([3, 0, 4, 2] : List UInt32).map fun id => (id, e.encode .peels id 2)
  have hdroplet : ∀ id, (wirehairCodec .peels (.ideal Elimination.mixingZero)).IsDroplet ⟨9, 2⟩
      [1, 2, 3, 4, 5, 6, 7, 8, 9] id (e.encode .peels id 2) := by
    intro id
    have hlength := hencodes.encode_length id
    have hbounds := hencodes.final_bounds
    have hle : 0 < (e.encode .peels id 2).length ∧ (e.encode .peels id 2).length ≤ 2 := by
      rw [hlength]
      split
      · exact hbounds
      · exact ⟨Nat.zero_lt_two, Nat.le_refl 2⟩
    exact ⟨rfl, hle.2, some e, 0, he, hle.1, (List.append_nil _).symm⟩
  have hfed : ∀ x ∈ packets,
      (wirehairCodec .peels (.ideal Elimination.mixingZero)).IsDroplet ⟨9, 2⟩
        [1, 2, 3, 4, 5, 6, 7, 8, 9] x.1 x.2 ∧ Geometry.Honest ⟨9, 2⟩ x.1 := by
    intro x hx
    obtain ⟨id, hid, rfl⟩ := List.mem_map.mp hx
    have hsmall : ([3, 0, 4, 2] : List UInt32).all (·.toNat < 2 ^ 16) = true := by decide
    exact ⟨hdroplet id, Or.inl (of_decide_eq_true (List.all_eq_true.mp hsmall id hid))⟩
  have hperm : ([3, 0, 4, 2, 1] : List UInt32).Perm ((List.range 5).map UInt32.ofNat) := by decide
  have hids : (packets.map Prod.fst ++ [1]).Perm
      ((List.range (Geometry.count ⟨9, 2⟩)).map UInt32.ofNat) := hperm
  obtain ⟨d₀, d, d', hcreate, hfeed, hdecode, _⟩ := recovers_originals hkept hids
    (fun x hx => (hfed x hx).1) (hdroplet 1)
  refine ⟨e, d₀, d, d', he, hcreate, hfeed, hdecode, ?_⟩
  exact wirehairCodec_sound .peels (Elimination.ideal_eliminates Elimination.mixingZero_congr)
    ⟨⟨9, 2⟩, hkept⟩ _ packets d 1 _ d' (keptCode_fed hcreate hfeed hfed)
    ⟨hdroplet 1, Or.inl (by decide)⟩ hdecode

end Sankaku
