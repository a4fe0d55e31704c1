import Sankaku.Model.WirehairCodec

namespace Sankaku

/-- The processor, the table of peel seeds and what fresh memory holds. Allocations
succeed. -/
structure Platform where
  cpu : Cpu
  getPeelSeed : Nat → UInt32
  memory : Nat → PeelRow

/-- What the elimination reads of a codec. -/
structure CodecRows where
  matrix : Matrix
  peel : PeelState
  extraCount : Nat
  inputFinalBytes : Nat
  inputBlocks : Nat → Bytes

/-- Compression, Gaussian elimination and back-substitution. `solve` is what
`SolveMatrix` does after the peeling, `values` what `GenerateRecoveryBlocks` does
before `Substitute`: the bytes of each deferred and each mixing column.
`ResumeSolveMatrix` takes the row for a new block from `append`, or from `reuse`
when there is no room for another, and `resume` goes on with it. A row comes with
its place among the pivots. -/
structure Elimination where
  State : Type
  solve : CodecRows → WirehairResult × State
  values : State → CodecRows → Nat → Nat → UInt8
  append : State → CodecRows → Nat → Nat × State
  reuse : State → CodecRows → Option (Nat × Nat)
  resume : State → CodecRows → Nat → Nat → UInt32 → WirehairResult × State

/-- How `Encode`, `ReconstructBlock` and `ReconstructOutput` put together the
first bytes of a block. -/
def regenerate (cpu : Cpu) (m : Matrix) (recoveryBlocks : Nat → Bytes) (blockId : UInt32)
    (bytes : Nat) : Bytes :=
  let block := fun columnI => (recoveryBlocks columnI).take bytes
  match m.columns blockId, m.mix blockId with
  | peel0 :: peels, [mix0, mix1, mix2] =>
    let mixSrc := fun mix => block (m.blockCount + mix)
    let out :=
      match peels with
      | peel1 :: rest =>
        let out := gf256AddsetMem cpu ((block peel0).zip (block peel1))
        let out := rest.foldl (fun out peelX => gf256AddMem cpu (out.zip (block peelX))) out
        gf256AddMem cpu (out.zip (mixSrc mix0))
      | [] => gf256AddsetMem cpu ((block peel0).zip (mixSrc mix0))
    gf256Add2Mem cpu (out.zip ((mixSrc mix1).zip (mixSrc mix2)))
  | _, _ => []

namespace PeelState

/-- `Marks.Result.PeelColumn`. -/
def solved (s : PeelState) (rowI : Nat) : Nat :=
  match (s.peelRows rowI).marks with
  | .unmarked first _ => first
  | .result peelColumn => peelColumn

end PeelState

/-- The value of the column that a peeled row solves. Row `N - 1` may be shorter
than a block. -/
def substituted (cpu : Cpu) (m : Matrix) (s : PeelState) (inputBlocks : Nat → Bytes)
    (inputFinalBytes : Nat) (recoveryBlocks : Nat → Bytes) (rowI : Nat) : Bytes :=
  let destColumnI := s.solved rowI
  let rowSeed := (s.peelRows rowI).recoveryId
  match m.columns rowSeed, m.mix rowSeed with
  | column0 :: columns, [mix0, mix1, mix2] =>
    let inputSrc := inputBlocks rowI
    let src := recoveryBlocks (m.blockCount + mix0)
    let dest :=
      if rowI ≠ m.blockCount - 1 then gf256AddsetMem cpu (src.zip inputSrc)
      else gf256AddsetMem cpu ((src.take inputFinalBytes).zip (inputSrc.take inputFinalBytes)) ++
        src.drop inputFinalBytes
    let src0 := recoveryBlocks (m.blockCount + mix1)
    let src1 := recoveryBlocks (m.blockCount + mix2)
    let dest := gf256Add2Mem cpu (dest.zip (src0.zip src1))
    match columns with
    | [] => dest
    | column1 :: rest =>
      let peel0 := recoveryBlocks column0
      let peel1 := recoveryBlocks column1
      let dest :=
        if column0 ≠ destColumnI then
          if column1 ≠ destColumnI then gf256Add2Mem cpu (dest.zip (peel0.zip peel1))
          else gf256AddMem cpu (dest.zip peel0)
        else gf256AddMem cpu (dest.zip peel1)
      rest.foldl (fun dest columnI =>
        if columnI ≠ destColumnI then gf256AddMem cpu (dest.zip (recoveryBlocks columnI))
        else dest) dest
  | _, _ => []

/-- The recovery blocks, as a value of their own. -/
structure RecoveryBlocks where
  block : Nat → Bytes

def substituteRows (cpu : Cpu) (m : Matrix) (s : PeelState) (inputBlocks : Nat → Bytes)
    (inputFinalBytes : Nat) : List Nat → RecoveryBlocks → RecoveryBlocks
  | [], blocks => blocks
  | rowI :: rows, blocks =>
    let dest := substituted cpu m s inputBlocks inputFinalBytes blocks.block rowI
    substituteRows cpu m s inputBlocks inputFinalBytes rows
      ⟨Function.update blocks.block (s.solved rowI) dest⟩

/-- From `_peel_head_rows` on. -/
def substitute (cpu : Cpu) (m : Matrix) (s : PeelState) (inputBlocks : Nat → Bytes)
    (inputFinalBytes : Nat) (recoveryBlocks : RecoveryBlocks) : RecoveryBlocks :=
  substituteRows cpu m s inputBlocks inputFinalBytes s.peeled recoveryBlocks

structure Codec (E : Elimination) where
  matrix : Matrix
  peel : PeelState
  rowCount : Nat
  extraCount : Nat
  inputFinalBytes : Nat
  outputFinalBytes : Nat
  allOriginal : Bool
  originalOutOfOrder : Bool
  inputBlocks : Nat → Bytes
  recoveryBlocks : RecoveryBlocks
  /-- `none` before `SolveMatrix` has set the matrices up. -/
  elimination : Option E.State

namespace Codec
variable {E : Elimination}

def maxExtraRows : Nat := 32

def partialFinalBytes (messageBytes : UInt64) (blockBytes : UInt32) : Nat :=
  let partialFinalBytes := messageBytes.toNat % blockBytes.toNat
  if partialFinalBytes = 0 then blockBytes.toNat else partialFinalBytes

/-- The block with this number of a message. -/
def chunk (message : Bytes) (blockBytes : Nat) (blockI : Nat) : Bytes :=
  (message.drop (blockBytes * blockI)).take blockBytes

def rows (c : Codec E) : CodecRows :=
  ⟨c.matrix, c.peel, c.extraCount, c.inputFinalBytes, c.inputBlocks⟩

def blockBytes (c : Codec E) : Nat := c.matrix.blockBytes.toNat

def blockCount (c : Codec E) : Nat := c.matrix.blockCount

/-- `none` stands for undefined behaviour here and below. -/
def solveMatrix (c : Codec E) : Option (WirehairResult × Codec E) := do
  let peel ← c.peel.greedyPeeling c.matrix (c.blockCount + 1) (c.blockCount + 1)
  let (result, state) := E.solve { c.rows with peel }
  some (result, { c with peel, elimination := some state })

def generateRecoveryBlocks (P : Platform) (c : Codec E) : Option (Codec E) := do
  let state ← c.elimination
  let values := E.values state c.rows
  let recoveryBlocks : RecoveryBlocks :=
    ⟨fun columnI => (List.range c.blockBytes).map (values columnI)⟩
  some { c with
    recoveryBlocks := substitute P.cpu c.matrix c.peel c.inputBlocks c.inputFinalBytes
      recoveryBlocks }

def initializeEncoder (P : Platform) (message : Bytes) (matrix : Matrix) : Codec E :=
  { matrix, peel := PeelState.start P.memory, rowCount := 0, extraCount := 0
    inputFinalBytes := partialFinalBytes (UInt64.ofNat message.length) matrix.blockBytes
    outputFinalBytes := matrix.blockBytes.toNat
    allOriginal := false, originalOutOfOrder := false
    inputBlocks := chunk message matrix.blockBytes.toNat
    recoveryBlocks := ⟨fun _ => []⟩, elimination := none }

def opportunisticPeeling (c : Codec E) (rowI : Nat) (rowSeed : UInt32) :
    Option (Bool × Codec E) := do
  let (taken, peel) ← c.peel.opportunisticPeeling c.matrix (c.blockCount + 1) rowI rowSeed
  some (taken, { c with peel })

/-- The original rows are fed in their order; a row that is not taken ends the
loop. -/
def encodeRows : List Nat → Codec E → Option (Bool × Codec E)
  | [], c => some (true, c)
  | id :: ids, c => do
    let (taken, c) ← c.opportunisticPeeling id (UInt32.ofNat id)
    if taken then encodeRows ids c else some (false, c)

def encodeFeed (P : Platform) (c : Codec E) : Option (WirehairResult × Codec E) := do
  let (taken, c) ← encodeRows (List.range c.blockCount) c
  if !taken then some (.badPeelSeed, c)
  else do
    let (result, c) ← c.solveMatrix
    match result with
    | .success => do
      let c ← c.generateRecoveryBlocks P
      some (.success, c)
    | .needMore => some (.badPeelSeed, c)
    | failure => some (failure, c)

/-- What is written to the buffer; nothing where it is too small. -/
def encode (P : Platform) (c : Codec E) (blockId outBufferBytes : UInt32) : Bytes :=
  let copyBytes := if blockId.toNat % 2 ^ 16 = c.blockCount - 1 then c.inputFinalBytes else c.blockBytes
  if outBufferBytes.toNat < copyBytes then []
  else if blockId.toNat < c.blockCount ∧ !c.originalOutOfOrder then
    (c.inputBlocks blockId.toNat).take copyBytes
  else regenerate P.cpu c.matrix c.recoveryBlocks.block blockId copyBytes

def initializeDecoder (P : Platform) (messageBytes : UInt64) (matrix : Matrix) : Codec E :=
  { matrix, peel := PeelState.start P.memory, rowCount := 0, extraCount := maxExtraRows
    inputFinalBytes := matrix.blockBytes.toNat
    outputFinalBytes := partialFinalBytes messageBytes matrix.blockBytes
    allOriginal := true, originalOutOfOrder := true
    inputBlocks := fun _ => []
    recoveryBlocks := ⟨fun _ => []⟩, elimination := none }

/-- Copies a row into the input block area and pads the last block of the message
with zeros. -/
def storeRow (c : Codec E) (rowI : Nat) (isFinalBlock : Bool) (blockIn : Bytes) : Codec E :=
  let row :=
    if isFinalBlock then
      blockIn.take c.outputFinalBytes ++ List.replicate (c.blockBytes - c.outputFinalBytes) 0
    else blockIn.take c.blockBytes
  { c with inputBlocks := Function.update c.inputBlocks rowI row }

/-- `none` where the elimination that is to go on was never begun. -/
def resumeSolveMatrix (c : Codec E) (id : UInt32) (data : Bytes) :
    Option (WirehairResult × Codec E) := do
  let state ← c.elimination
  let full := decide (c.rowCount ≥ c.blockCount + c.extraCount)
  let place :=
    if full then (E.reuse state c.rows).map (·, state)
    else
      let (newPivotI, state) := E.append state c.rows c.rowCount
      some ((newPivotI, c.rowCount), state)
  match place with
  | none => some (.extraInsufficient, c)
  | some ((newPivotI, rowI), state) =>
    let rowCount := if full then c.rowCount else c.rowCount + 1
    let peel := c.peel.setRow rowI { c.peel.peelRows rowI with recoveryId := id }
    let c := { c with rowCount, peel }.storeRow rowI (id.toNat = c.blockCount - 1) data
    let (result, state) := E.resume state c.rows newPivotI rowI id
    some (result, { c with elimination := some state })

/-- Whether every original block is among the rows. -/
def isAllOriginalData (c : Codec E) : Bool :=
  let ids := (List.range c.rowCount).map (fun rowI => (c.peel.peelRows rowI).recoveryId.toNat)
  let seen := (ids.filter (fun id => id < c.blockCount)).dedup
  seen.length ≥ c.blockCount

/-- `SolveMatrix` or `ResumeSolveMatrix`, and the recovery blocks after a success. -/
def thenGenerate (P : Platform) (solved : Option (WirehairResult × Codec E)) :
    Option (WirehairResult × Codec E) := do
  let (result, c) ← solved
  match result with
  | .success => do
    let c ← c.generateRecoveryBlocks P
    some (.success, c)
  | other => some (other, c)

/-- A block of non-original data marks all original as false. -/
def noteOriginal (c : Codec E) (blockId : UInt32) : Codec E :=
  if blockId.toNat ≥ c.blockCount then { c with allOriginal := false } else c

def takeRow (c : Codec E) (isFinalBlock : Bool) (blockIn : Bytes) : Codec E :=
  { c.storeRow c.rowCount isFinalBlock blockIn with rowCount := c.rowCount + 1 }

/-- After a row was taken. -/
def onRow (P : Platform) (c : Codec E) : Option (WirehairResult × Codec E) :=
  if c.rowCount ≠ c.blockCount then some (.needMore, c)
  else if c.allOriginal then
    if c.isAllOriginalData then some (.success, c)
    else some (.invalidInput, { c with allOriginal := false })
  else thenGenerate P c.solveMatrix

def decodeFeed (P : Platform) (c : Codec E) (blockId : UInt32) (blockIn : Bytes) :
    Option (WirehairResult × Codec E) :=
  let isFinalBlock := (blockId + 1).toNat = c.blockCount
  if isFinalBlock ∧ c.outputFinalBytes > blockIn.length then some (.invalidInput, c)
  else if ¬ isFinalBlock ∧ c.blockBytes ≠ blockIn.length then some (.invalidInput, c)
  else
    let c := c.noteOriginal blockId
    if c.rowCount ≥ c.blockCount then thenGenerate P (c.resumeSolveMatrix blockId blockIn)
    else do
      let (taken, c) ← c.opportunisticPeeling c.rowCount blockId
      if !taken then some (.needMore, c) else (c.takeRow isFinalBlock blockIn).onRow P

/-- The original blocks among the rows, the last row of each id winning. -/
def copiedOriginals (c : Codec E) : Nat → Option Bytes :=
  (List.range c.rowCount).foldl (fun copied rowI =>
    let blockId := (c.peel.peelRows rowI).recoveryId.toNat
    if blockId < c.blockCount then
      let bytes := if blockId ≠ c.blockCount - 1 then c.blockBytes else c.outputFinalBytes
      Function.update copied blockId (some ((c.inputBlocks rowI).take bytes))
    else copied) (fun _ => none)

/-- The product is one of 32 bits. -/
def reconstructOutput (P : Platform) (c : Codec E) (messageBytes : UInt64) :
    WirehairResult × Bytes :=
  if messageBytes.toNat ≠ (c.blockBytes * (c.blockCount - 1) + c.outputFinalBytes) % 2 ^ 32 then
    (.invalidInput, [])
  else
    let copied := c.copiedOriginals
    let output := (List.range c.blockCount).flatMap fun blockId =>
      match copied blockId with
      | some block => block
      | none =>
        let bytes := if blockId + 1 = c.blockCount then c.outputFinalBytes else c.blockBytes
        regenerate P.cpu c.matrix c.recoveryBlocks.block (UInt32.ofNat blockId) bytes
    (.success, output)

end Codec

/-- The searches of `ChooseMatrix` end within 2^16 turns. -/
def chosenMatrix (P : Platform) (messageBytes : UInt64) (blockBytes : UInt32) : Option Matrix :=
  match chooseMatrix P.getPeelSeed (2 ^ 16) messageBytes blockBytes with
  | some (.ok matrix) => some matrix
  | _ => none

/-- A codec whose behaviour is undefined is `none`, and stays so: a decoder asks
for more for ever. -/
def wirehairCodec (P : Platform) (E : Elimination) : Wirehair where
  Encoder := Option (Codec E)
  Decoder := Option (Codec E)
  encoderCreate message blockBytes :=
    match chosenMatrix P (UInt64.ofNat message.length) blockBytes with
    | none => none
    | some matrix =>
      match (Codec.initializeEncoder P message matrix).encodeFeed P with
      | none => some none
      | some (.success, c) => some (some c)
      | some (_, _) => none
  encode codec blockId outBytes :=
    match codec with
    | none => []
    | some c => c.encode P blockId outBytes
  decoderCreate messageBytes blockBytes :=
    (chosenMatrix P messageBytes blockBytes).map
      (fun matrix => some (Codec.initializeDecoder P messageBytes matrix))
  decode codec blockId blockData :=
    match codec with
    | none => (.needMore, none)
    | some c =>
      if blockData.length < 1 then (.invalidInput, codec)
      else
        match c.decodeFeed P blockId blockData with
        | none => (.needMore, none)
        | some (result, c) => (result, some c)
  recover codec messageBytes :=
    match codec with
    | none => (.error, [])
    | some c => c.reconstructOutput P messageBytes

end Sankaku
