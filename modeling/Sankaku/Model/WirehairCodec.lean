import Sankaku.Model.Fec
import Sankaku.Model.Gf256
import Sankaku.Model.WirehairTools

namespace Sankaku

def kHeavyRows : Nat := 6
def refListMax : Nat := 32
def wirehairMinN : Nat := 2
def wirehairMaxN : Nat := 64000

/-- What `ChooseMatrix` leaves in the codec. -/
structure Matrix where
  blockBytes : UInt32
  blockCount : Nat
  blockNextPrime : Nat
  denseCount : Nat
  pSeed : UInt32
  mixCount : Nat
  mixNextPrime : Nat
  deriving DecidableEq, Repr

/-- `none` where one of the searches takes more than `fuel` turns. The table of
peel seeds is a parameter. -/
def chooseMatrix (getPeelSeed : Nat → UInt32) (fuel : Nat) (messageBytes : UInt64)
    (blockBytes : UInt32) : Option (Except WirehairResult Matrix) :=
  if messageBytes < 1 ∨ blockBytes < 1 then some (.error .invalidInput)
  else do
    let blocks := (messageBytes + blockBytes.toUInt64 - 1) / blockBytes.toUInt64
    let blockCount := blocks.toNat % 2 ^ 16
    let blockNextPrime ← nextPrime16 fuel blockCount
    if blockCount < wirehairMinN then some (.error .badInputSmallN)
    else if blockCount > wirehairMaxN then some (.error .badInputLargeN)
    else do
      let denseCount ← getDenseCount fuel blockCount
      let mixCount := denseCount + kHeavyRows
      let mixNextPrime ← nextPrime16 fuel mixCount
      some (.ok { blockBytes, blockCount, blockNextPrime, denseCount, mixCount, mixNextPrime
                  pSeed := getPeelSeed blockCount })

namespace Matrix

def params (m : Matrix) (rowSeed : UInt32) : PeelRowParameters :=
  PeelRowParameters.initialize rowSeed m.pSeed m.blockCount m.mixCount

/-- The peeling columns of the row with this seed. -/
def columns (m : Matrix) (rowSeed : UInt32) : List Nat :=
  peelColumns (m.params rowSeed) m.blockCount m.blockNextPrime

/-- Its mixing columns. -/
def mix (m : Matrix) (rowSeed : UInt32) : List Nat :=
  mixColumns (m.params rowSeed) m.mixCount m.mixNextPrime

end Matrix

inductive MarkTypes
  | todo
  | peel
  | defer
  deriving DecidableEq, Repr

/-- `PeelOverlappingFields`, a union: whichever member was written last. -/
inductive PeelOverlappingFields
  | unmarked (first second : Nat)
  | result (peelColumn : Nat)
  deriving DecidableEq, Repr

structure PeelRow where
  recoveryId : UInt32
  unmarkedCount : Nat
  marks : PeelOverlappingFields
  deriving DecidableEq, Repr

/-- `Weight2Refs` and `PeelRow` share their memory. -/
structure PeelColumn where
  mark : MarkTypes
  weight2RefsOrPeelRow : Nat
  deriving DecidableEq, Repr

/-- What is linked through the rows and columns are lists here. -/
structure PeelState where
  peelRows : Nat → PeelRow
  peelCols : Nat → PeelColumn
  peelColRefs : Nat → List Nat
  /-- From `_peel_head_rows` to `_peel_tail_rows`. -/
  peeled : List Nat
  /-- From `_defer_head_rows` on. -/
  deferRows : List Nat
  /-- From `_defer_head_columns` on; their number is `_defer_count`. -/
  deferColumns : List Nat

namespace PeelState

/-- As `ChooseMatrix` and `AllocateWorkspace` set it up over a memory of any
content. -/
def start (memory : Nat → PeelRow) : PeelState :=
  { peelRows := memory, peelCols := fun _ => ⟨.todo, 0⟩, peelColRefs := fun _ => []
    peeled := [], deferRows := [], deferColumns := [] }

def setRow (s : PeelState) (rowI : Nat) (row : PeelRow) : PeelState :=
  { s with peelRows := Function.update s.peelRows rowI row }

def setColumn (s : PeelState) (columnI : Nat) (column : PeelColumn) : PeelState :=
  { s with peelCols := Function.update s.peelCols columnI column }

/-- `Weight2Refs++`. -/
def addWeight2Ref (s : PeelState) (columnI : Nat) : PeelState :=
  s.setColumn columnI
    { s.peelCols columnI with
      weight2RefsOrPeelRow := ((s.peelCols columnI).weight2RefsOrPeelRow + 1) % 2 ^ 16 }

/-- Link at head of defer list. -/
def deferRow (s : PeelState) (rowI : Nat) : PeelState := { s with deferRows := rowI :: s.deferRows }

def isTodo (s : PeelState) (columnI : Nat) : Bool := (s.peelCols columnI).mark = .todo

def solveWithPeel (peelAvalancheOnSolve : Nat → PeelState → Option PeelState) (rowI columnI : Nat)
    (s : PeelState) : Option PeelState := do
  let s := s.setColumn columnI { s.peelCols columnI with mark := .peel }
  let s := s.setRow rowI { s.peelRows rowI with marks := .result columnI }
  let s := { s with peeled := s.peeled ++ [rowI] }
  let s ← peelAvalancheOnSolve columnI s
  some (s.setColumn columnI { s.peelCols columnI with weight2RefsOrPeelRow := rowI })

/-- What the avalanche of a column does to one row that references it. `none`
stands for reading `Unmarked` where `Result` was written last, and for writing
past its two entries. -/
def visitRow (m : Matrix) (peelAvalancheOnSolve : Nat → PeelState → Option PeelState)
    (columnI refRowI : Nat) (s : PeelState) : Option PeelState :=
  let refRow := s.peelRows refRowI
  let unmarkedCount := (refRow.unmarkedCount + (2 ^ 16 - 1)) % 2 ^ 16
  let s := s.setRow refRowI { refRow with unmarkedCount }
  if unmarkedCount = 1 then
    match refRow.marks with
    | .result _ => none
    | .unmarked first second =>
      let newColumnI := if first = columnI then second else first
      if s.isTodo newColumnI then solveWithPeel peelAvalancheOnSolve refRowI newColumnI s
      else some (s.deferRow refRowI)
  else if unmarkedCount = 2 then
    match (m.columns refRow.recoveryId).filter s.isTodo with
    | [] => some ((s.setRow refRowI { refRow with unmarkedCount := 0 }).deferRow refRowI)
    | [only] =>
      let s := s.addWeight2Ref only
      let s := s.setRow refRowI { refRow with unmarkedCount := 0 }
      solveWithPeel peelAvalancheOnSolve refRowI only s
    | [first, second] =>
      let s := (s.addWeight2Ref first).addWeight2Ref second
      some (s.setRow refRowI { refRow with unmarkedCount, marks := .unmarked first second })
    | _ => none
  else some s

/-- `none` where the recursion goes deeper than `fuel`. -/
def peelAvalancheOnSolve (m : Matrix) : Nat → Nat → PeelState → Option PeelState
  | 0, _, _ => none
  | fuel + 1, columnI, s =>
    (s.peelColRefs columnI).foldlM
      (fun s refRowI => visitRow m (peelAvalancheOnSolve m fuel) columnI refRowI s) s

/-- Adds a row to the references of its columns, up to one that has no room. -/
def addRefs (rowI : Nat) : List Nat → (Nat → List Nat) → (Nat → List Nat) × Option Nat
  | [], refs => (refs, none)
  | columnI :: columns, refs =>
    if (refs columnI).length ≥ refListMax then (refs, some columnI)
    else addRefs rowI columns (Function.update refs columnI (refs columnI ++ [rowI]))

/-- Takes back the references before the column that had no room. -/
def fixPeelFailure (failColumnI : Nat) : List Nat → (Nat → List Nat) → Nat → List Nat
  | [], refs => refs
  | columnI :: columns, refs =>
    if columnI = failColumnI then refs
    else fixPeelFailure failColumnI columns (Function.update refs columnI (refs columnI).dropLast)

/-- The answer is whether the row was taken. -/
def opportunisticPeeling (m : Matrix) (fuel rowI : Nat) (rowSeed : UInt32) (s : PeelState) :
    Option (Bool × PeelState) :=
  let columns := m.columns rowSeed
  let s := s.setRow rowI { s.peelRows rowI with recoveryId := rowSeed }
  match addRefs rowI columns s.peelColRefs with
  | (refs, some failColumnI) =>
    some (false, { s with peelColRefs := fixPeelFailure failColumnI columns refs })
  | (refs, none) =>
    let s := { s with peelColRefs := refs }
    let unmarked := columns.filter s.isTodo
    let row := { s.peelRows rowI with unmarkedCount := unmarked.length }
    match unmarked with
    | [] => some (true, (s.setRow rowI row).deferRow rowI)
    | [only] =>
      (solveWithPeel (peelAvalancheOnSolve m fuel) rowI only (s.setRow rowI row)).map (true, ·)
    | [first, second] =>
      let s := s.setRow rowI { row with marks := .unmarked first second }
      some (true, (s.addWeight2Ref first).addWeight2Ref second)
    | _ => some (true, s.setRow rowI row)

/-- A row is offered at the next free slot, which it fills when it is taken. -/
def feedRow (m : Matrix) (fuel : Nat) (x : Nat × PeelState) (rowSeed : UInt32) :
    Option (Nat × PeelState) := do
  let (taken, s) ← opportunisticPeeling m fuel x.1 rowSeed x.2
  some (if taken then x.1 + 1 else x.1, s)

/-- Rows of these seeds, one after the other, from a state without rows. -/
def feedRows (m : Matrix) (fuel : Nat) (rowSeeds : List UInt32) (s : PeelState) :
    Option (Nat × PeelState) :=
  rowSeeds.foldlM (feedRow m fuel) (0, s)

/-- The best column so far: its number, weight-2 references and references. -/
def betterColumn (s : PeelState) (best : Option (Nat × Nat × Nat)) (columnI : Nat) :
    Option (Nat × Nat × Nat) :=
  if s.isTodo columnI then
    let w2Refs := (s.peelCols columnI).weight2RefsOrPeelRow
    let rowCount := (s.peelColRefs columnI).length
    let (bestW2Refs, bestRowCount) := (best.map Prod.snd).getD (0, 0)
    if w2Refs ≥ bestW2Refs ∧ (w2Refs > bestW2Refs ∨ rowCount ≥ bestRowCount) then
      some (columnI, w2Refs, rowCount)
    else best
  else best

def bestColumn (m : Matrix) (s : PeelState) : Option Nat :=
  ((List.range m.blockCount).foldl s.betterColumn none).map Prod.fst

/-- Defers a column and peels on from there. -/
def deferColumn (m : Matrix) (fuel columnI : Nat) (s : PeelState) : Option PeelState :=
  let s := s.setColumn columnI { s.peelCols columnI with mark := .defer }
  peelAvalancheOnSolve m fuel columnI { s with deferColumns := columnI :: s.deferColumns }

/-- `turns` bounds the number of columns that are deferred. -/
def greedyPeeling (m : Matrix) (fuel : Nat) : Nat → PeelState → Option PeelState
  | 0, _ => none
  | turns + 1, s =>
    match s.bestColumn m with
    | none => some s
    | some columnI => do
      let s ← deferColumn m fuel columnI s
      greedyPeeling m fuel turns s

end PeelState

end Sankaku
