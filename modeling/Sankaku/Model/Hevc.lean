import Mathlib.Data.Vector.Basic
import Sankaku.Lib.Delimiter
import Sankaku.Model.Types

namespace Sankaku

/-- Start code used by the iOS capture stream (`00 00 00 01`). -/
def annexBStartCode : Bytes := [0x00, 0x00, 0x00, 0x01]

/-- A `usize` is a natural number: no slice is long enough for a position to saturate. -/
def findStartCode (data : Bytes) (start : Nat) : Option Nat :=
  if start ≥ data.length then none
  else (Delimiter.find annexBStartCode (data.drop start)).map (start + ·)

theorem findStartCode_bounds (h : findStartCode data start = some i) : start ≤ i ∧ i < data.length := by
  unfold findStartCode at h
  split at h
  · cases h
  · obtain ⟨j, hj, rfl⟩ := Option.map_eq_some_iff.mp h
    have bound := (Delimiter.find_some hj).2.1
    rw [List.length_drop] at bound
    omega

/-- Past a start code the search comes to a later one or to the end. -/
theorem nextStart_gt (hlt : cursor < data.length) (hs : findStartCode data cursor = some start) :
    cursor < (findStartCode data (start + annexBStartCode.length)).getD data.length := by
  cases hn : findStartCode data (start + annexBStartCode.length) with
  | none => exact hlt
  | some j =>
    have h1 := (findStartCode_bounds hs).1
    have h2 := (findStartCode_bounds hn).1
    have hlen : annexBStartCode.length = 4 := rfl
    rw [Option.getD_some]
    omega

/-- Zero-copy iterator over Annex B NAL units. -/
structure AnnexBNalIter where
  data : Bytes
  cursor : Nat

namespace AnnexBNalIter

/-- The loop skips empty units. -/
def next (it : AnnexBNalIter) : Option Bytes × AnnexBNalIter :=
  if it.cursor < it.data.length then
    match _h : findStartCode it.data it.cursor with
    | none => (none, it)
    | some start =>
      let nalStart := start + annexBStartCode.length
      let nextStart := findStartCode it.data nalStart
      let nalEnd := nextStart.getD it.data.length
      let it' := { it with cursor := nextStart.getD it.data.length }
      if nalStart < nalEnd then (some ((it.data.take nalEnd).drop nalStart), it') else next it'
  else (none, it)
termination_by it.data.length - it.cursor
decreasing_by
  have := nextStart_gt ‹_› _h
  omega

/-- A unit moves the cursor on. -/
theorem next_some {it : AnnexBNalIter} (h : it.next = (some unit, it')) :
    it'.data = it.data ∧ it.cursor < it.data.length ∧ it.cursor < it'.cursor := by
  fun_induction next it with
  | case1 it hlt hnone => cases h
  | case2 it hlt start hs nalStart nextStart nalEnd after hunit =>
    rw [← (Prod.mk.inj h).2]
    exact ⟨rfl, hlt, nextStart_gt hlt hs⟩
  | case3 it hlt start hs nalStart nextStart nalEnd after hskip ih =>
    obtain ⟨hdata, _, hcursor⟩ := ih h
    exact ⟨hdata, hlt, Nat.lt_trans (nextStart_gt hlt hs) hcursor⟩
  | case4 it hdone => cases h

/-- What a `for` loop over the iterator sees. -/
def collect (it : AnnexBNalIter) : List Bytes :=
  match _h : it.next with
  | (some unit, it') => unit :: it'.collect
  | (none, _) => []
termination_by it.data.length - it.cursor
decreasing_by
  obtain ⟨hdata, hlt, hcursor⟩ := next_some _h
  rw [hdata]
  omega

end AnnexBNalIter

/-- Creates a zero-copy iterator over Annex B NAL units. -/
def splitAnnexB (data : Bytes) : AnnexBNalIter := ⟨data, 0⟩

/-- Extracts HEVC NAL unit type from the first NAL header byte. -/
def nalUnitType (nalUnit : Bytes) : Option UInt8 :=
  nalUnit.head?.map (fun headerByte : UInt8 => (headerByte >>> 1) &&& 0x3F)

structure BitReader where
  data : Bytes
  bitPos : Nat
  deriving DecidableEq, Repr

/-- How a function stops short: it returns `None`, or it panics. -/
inductive Stop
  | none
  | panicked
  deriving DecidableEq, Repr

/-- A function on a reader that returns an `Option`. -/
abbrev Scan := StateT BitReader (Except Stop)

def orPanic (x : Option α) : Scan α :=
  match x with
  | some a => pure a
  | none => throw .panicked

/-- `1u32 << n` -/
def checkedShlOne (n : Nat) : Option UInt32 := if n < 32 then some (UInt32.ofNat (2 ^ n)) else none

def checkedAdd32 (a b : UInt32) : Option UInt32 :=
  if a.toNat + b.toNat < 2 ^ 32 then some (a + b) else none

def checkedSub32 (a b : UInt32) : Option UInt32 := if b ≤ a then some (a - b) else none

namespace BitReader

def bitsRemaining (r : BitReader) : Nat := r.data.length * 8 - r.bitPos

def readBit : Scan UInt8 := fun r =>
  if r.bitPos ≥ r.data.length * 8 then .error .none
  else
    match r.data[r.bitPos / 8]? with
    | none => .error .panicked
    | some byte =>
      let shift := 7 - r.bitPos % 8
      .ok ((byte >>> UInt8.ofNat shift) &&& 0x01, { r with bitPos := r.bitPos + 1 })

def readBitsLoop (value : UInt32) : Nat → Scan UInt32
  | 0 => pure value
  | n + 1 => do
    let bit ← readBit
    readBitsLoop ((value <<< 1) ||| bit.toUInt32) n

def readBits (n : Nat) : Scan UInt32 := fun r =>
  if n > 32 ∨ r.bitsRemaining < n then .error .none else readBitsLoop 0 n r

/-- The loop over the leading zeros, which are counted up to 31. -/
def readUeZeros (leadingZeroBits : Nat) : Scan Nat := do
  let bit ← readBit
  if bit = 0 then
    if _h : leadingZeroBits + 1 > 31 then throw .none else readUeZeros (leadingZeroBits + 1)
  else pure leadingZeroBits
termination_by 32 - leadingZeroBits

def readUe : Scan UInt32 := do
  let leadingZeroBits ← readUeZeros 0
  if leadingZeroBits = 0 then pure 0
  else
    let suffix ← readBits leadingZeroBits
    orPanic ((checkedShlOne leadingZeroBits).bind (fun one =>
      (checkedSub32 one 1).bind (fun base => checkedAdd32 base suffix)))

end BitReader

/-- The loop of `ebsp_to_rbsp`. -/
def ebspToRbspLoop (zeroRun : Nat) : Bytes → Bytes
  | [] => []
  | byte :: ebsp =>
    if zeroRun ≥ 2 ∧ byte = 0x03 then ebspToRbspLoop 0 ebsp
    else byte :: ebspToRbspLoop (if byte = 0 then zeroRun + 1 else 0) ebsp

/-- Converts NAL payload EBSP into RBSP by removing emulation prevention bytes. -/
def ebspToRbsp (ebsp : Bytes) : Bytes := ebspToRbspLoop 0 ebsp

/-- HEVC SAO parameters extracted from slice-level syntax. -/
structure SaoParameters where
  ctuX : UInt16
  ctuY : UInt16
  saoTypeIdx : UInt8
  bandPosition : UInt8
  offset : List.Vector Int8 4
  deriving DecidableEq

/-- `u8::try_from(value).ok()?` -/
def u8TryFrom (value : UInt32) : Scan UInt8 :=
  if value.toNat < 2 ^ 8 then pure (UInt8.ofNat value.toNat) else throw .none

/-- `i8::try_from(value).ok()?` -/
def i8TryFrom (value : UInt32) : Scan Int8 :=
  if value.toNat < 2 ^ 7 then pure (Int8.ofNat value.toNat) else throw .none

/-- The values before the flag; the last one is kept as a slice address. -/
def readPrelude (ctuAddressHint : UInt32) : Nat → Scan UInt32
  | 0 => pure ctuAddressHint
  | n + 1 => do
    let ctuAddressHint ← BitReader.readUe
    if ctuAddressHint > (1 : UInt32) <<< 20 then throw .none else readPrelude ctuAddressHint n

def readSaoFlag (expectSaoFlag : Bool) : Scan Unit := do
  if expectSaoFlag then
    let bit ← BitReader.readBit
    if bit = 0 then throw .none else pure ()
  else pure ()

def readSaoTypeIdx : Scan UInt8 := do
  let value ← BitReader.readUe
  let saoTypeIdx ← u8TryFrom value
  if 1 ≤ saoTypeIdx ∧ saoTypeIdx ≤ 2 then pure saoTypeIdx else throw .none

/-- One turn of the loop over the offsets. Zero has no sign bit. -/
def readOffset (nonZeroOffsets : Nat) : Scan (Int8 × Nat) := do
  let magnitude ← BitReader.readUe
  if magnitude > 7 then throw .none
  else if magnitude = 0 then pure (0, nonZeroOffsets)
  else
    let sign ← BitReader.readBit
    let value ← i8TryFrom magnitude
    pure (if sign = 1 then -value else value, nonZeroOffsets + 1)

def readOffsets (nonZeroOffsets : Nat) : (n : Nat) → Scan (List.Vector Int8 n × Nat)
  | 0 => pure (.nil, nonZeroOffsets)
  | n + 1 => do
    let first ← readOffset nonZeroOffsets
    let rest ← readOffsets first.2 n
    pure (first.1 ::ᵥ rest.1, rest.2)

def readBandPosition (saoTypeIdx : UInt8) : Scan UInt8 := do
  if saoTypeIdx = 1 then u8TryFrom (← BitReader.readBits 5)
  else u8TryFrom (← BitReader.readBits 2)

def saoCandidate (preludeUeCount : Nat) (expectSaoFlag : Bool) : Scan SaoParameters := do
  let ctuAddressHint ← readPrelude 0 preludeUeCount
  readSaoFlag expectSaoFlag
  let saoTypeIdx ← readSaoTypeIdx
  let offsets ← readOffsets 0 4
  if offsets.2 = 0 then throw .none
  else
    let bandPosition ← readBandPosition saoTypeIdx
    pure
      { ctuX := (ctuAddressHint &&& 0xFFFF).toUInt16
        ctuY := ((ctuAddressHint >>> 16) &&& 0xFFFF).toUInt16
        saoTypeIdx
        bandPosition
        offset := offsets.1 }

def tryParseSaoCandidate (rbsp : Bytes) (startByte preludeUeCount : Nat) (expectSaoFlag : Bool) :
    Except Stop SaoParameters :=
  (saoCandidate preludeUeCount expectSaoFlag ⟨rbsp, startByte * 8⟩).map Prod.fst

def heuristicScanLimitBytes : Nat := 512

/-- The three nested loops, in the order they run. -/
def saoCandidates (scanLimit : Nat) : List (Nat × Nat × Bool) :=
  (List.range scanLimit).flatMap (fun startByte =>
    [0, 1, 2].flatMap (fun preludeUeCount =>
      [true, false].map (fun expectSaoFlag => (startByte, preludeUeCount, expectSaoFlag))))

def firstSaoCandidate (rbsp : Bytes) : List (Nat × Nat × Bool) → Except Stop SaoParameters
  | [] => .error .none
  | (startByte, preludeUeCount, expectSaoFlag) :: rest =>
    match tryParseSaoCandidate rbsp startByte preludeUeCount expectSaoFlag with
    | .error .none => firstSaoCandidate rbsp rest
    | result => result

def heuristicScanSao (rbsp : Bytes) : Except Stop SaoParameters :=
  firstSaoCandidate rbsp (saoCandidates (min rbsp.length heuristicScanLimitBytes))

def hevcNalHeaderLen : Nat := 2

/-- Returns `None` for non-VCL units (types 32..63). -/
def extractSaoParameters (nalUnit : Bytes) : Except Stop SaoParameters :=
  match nalUnitType nalUnit with
  | none => .error .none
  | some nalType =>
    if nalType > 31 then .error .none
    else if nalUnit.length < hevcNalHeaderLen then .error .none
    else
      let payload := nalUnit.drop hevcNalHeaderLen
      if payload.isEmpty then .error .none else heuristicScanSao (ebspToRbsp payload)

end Sankaku
