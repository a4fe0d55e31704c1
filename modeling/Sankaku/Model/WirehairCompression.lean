import Sankaku.Model.WirehairBlocks

namespace Sankaku

def listTerm : Nat := 0xffff

namespace CodecRows

def deferCount (rows : CodecRows) : Nat := rows.peel.deferColumns.length

def geCols (rows : CodecRows) : Nat := rows.deferCount + rows.matrix.mixCount

/-- `_ge_col_map`, from `SetDeferredColumns`. -/
def geColMap (rows : CodecRows) (geColumnI : Nat) : Nat :=
  (rows.peel.deferColumns ++
    (List.range rows.matrix.mixCount).map (rows.matrix.blockCount + ·)).getD geColumnI 0

/-- `Marks.Result.PeelColumn`, which `SetMixingColumnsForDeferredRows` sets for
the deferred rows. -/
def peelColumn (rows : CodecRows) (rowI : Nat) : Nat :=
  if rowI ∈ rows.peel.deferRows then listTerm else rows.peel.solved rowI

def isPeeled (rows : CodecRows) (columnI : Nat) : Bool := (rows.peel.peelCols columnI).mark = .peel

def recoveryId (rows : CodecRows) (rowI : Nat) : UInt32 := (rows.peel.peelRows rowI).recoveryId

end CodecRows

/-- Sets the bit of a deferred column in the rows that refer to it. A row of bits, in
64-bit words in the source, is one number. -/
def setDeferredColumn (rows : CodecRows) (compress : Nat → Nat) (deferI geColumnI : Nat) :
    Nat → Nat :=
  (rows.peel.peelColRefs deferI).foldl (fun compress rowI =>
    Function.update compress rowI (compress rowI ||| 1 <<< geColumnI)) compress

/-- `_compress_matrix` starts as zeros. -/
def setDeferredColumns (rows : CodecRows) : Nat → Nat :=
  rows.peel.deferColumns.zipIdx.foldl (fun compress column =>
    setDeferredColumn rows compress column.1 column.2) fun _ => 0

/-- Flips the three mixing columns of a row. -/
def flipMix (rows : CodecRows) (rowI geRow : Nat) : Nat :=
  (rows.matrix.mix (rows.recoveryId rowI)).foldl
    (fun geRow mix => geRow ^^^ 1 <<< (rows.deferCount + mix)) geRow

def setMixingColumnsForDeferredRows (rows : CodecRows) (compress : Nat → Nat) : Nat → Nat :=
  rows.peel.deferRows.foldl (fun compress rowI =>
    Function.update compress rowI (flipMix rows rowI (compress rowI))) compress

/-- What `PeelDiagonal` changes. -/
structure Diagonal where
  compress : Nat → Nat
  blocks : Nat → Bytes
  isCopied : Nat → Bool

/-- An input block; row `N - 1` is padded with zeros. -/
def copyInput (rows : CodecRows) (rowI : Nat) : Bytes :=
  let blockSrc := rows.inputBlocks rowI
  if rowI ≠ rows.matrix.blockCount - 1 then blockSrc
  else
    blockSrc.take rows.inputFinalBytes ++
      List.replicate (rows.matrix.blockBytes.toNat - rows.inputFinalBytes) 0

/-- The sum of a block and an input block. -/
def addInput (cpu : Cpu) (rows : CodecRows) (src : Bytes) (rowI : Nat) : Bytes :=
  let blockSrc := rows.inputBlocks rowI
  if rowI ≠ rows.matrix.blockCount - 1 then gf256AddsetMem cpu (src.zip blockSrc)
  else
    gf256AddsetMem cpu ((src.take rows.inputFinalBytes).zip (blockSrc.take rows.inputFinalBytes)) ++
      src.drop rows.inputFinalBytes

namespace Diagonal

/-- A peeled row is added to one that refers to its column. -/
def visitReference (cpu : Cpu) (rows : CodecRows) (peelRowI : Nat) (d : Diagonal) (refRowI : Nat) :
    Diagonal :=
  if refRowI = peelRowI then d
  else
    let compress := Function.update d.compress refRowI (d.compress refRowI ^^^ d.compress peelRowI)
    let src := d.blocks (rows.peelColumn peelRowI)
    let refColumnI := rows.peelColumn refRowI
    if refColumnI = listTerm then { d with compress }
    else if d.isCopied refRowI then
      let dest := gf256AddMem cpu ((d.blocks refColumnI).zip src)
      { d with compress, blocks := Function.update d.blocks refColumnI dest }
    else
      { compress
        blocks := Function.update d.blocks refColumnI (addInput cpu rows src refRowI)
        isCopied := Function.update d.isCopied refRowI true }

/-- The mixing columns of a peeled row, and its block where nothing was added to
it before. -/
def startRow (rows : CodecRows) (d : Diagonal) (peelRowI : Nat) : Diagonal :=
  let geRow := flipMix rows peelRowI (d.compress peelRowI)
  { d with
    compress := Function.update d.compress peelRowI geRow
    blocks :=
      if d.isCopied peelRowI then d.blocks
      else Function.update d.blocks (rows.peelColumn peelRowI) (copyInput rows peelRowI) }

def visitRow (cpu : Cpu) (rows : CodecRows) (d : Diagonal) (peelRowI : Nat) : Diagonal :=
  (rows.peel.peelColRefs (rows.peelColumn peelRowI)).foldl (visitReference cpu rows peelRowI)
    (d.startRow rows peelRowI)

end Diagonal

def peelDiagonal (cpu : Cpu) (rows : CodecRows) (compress : Nat → Nat) (blocks : Nat → Bytes) :
    Diagonal :=
  rows.peel.peeled.foldl (Diagonal.visitRow cpu rows) ⟨compress, blocks, fun _ => false⟩

/-- The compressed deferred rows stand behind the dense ones. -/
def copyDeferredRows (rows : CodecRows) (compress geMatrix : Nat → Nat) : Nat → Nat :=
  rows.peel.deferRows.zipIdx.foldl (fun geMatrix row =>
    Function.update geMatrix (rows.matrix.denseCount + row.2) (compress row.1)) geMatrix

/-- What `InitializeColumnValues` writes where the pivot is a row of the input. -/
def initialValue (cpu : Cpu) (rows : CodecRows) (blocks : Nat → Bytes) (rowI : Nat) : Bytes :=
  let combo := rows.inputBlocks rowI
  let peels := (rows.matrix.columns (rows.recoveryId rowI)).filter rows.isPeeled
  let addAll := fun dest columns =>
    columns.foldl (fun dest columnI => gf256AddMem cpu (dest.zip (blocks columnI))) dest
  if rowI = rows.matrix.blockCount - 1 then addAll (copyInput rows rowI) peels
  else
    match peels with
    | [] => combo
    | column0 :: columns => addAll (gf256AddsetMem cpu (combo.zip (blocks column0))) columns

/-- The compression in `SolveMatrix`, up to `PeelDiagonal`. -/
def compressRows (cpu : Cpu) (rows : CodecRows) (blocks : Nat → Bytes) : Diagonal :=
  peelDiagonal cpu rows (setMixingColumnsForDeferredRows rows (setDeferredColumns rows)) blocks

end Sankaku
