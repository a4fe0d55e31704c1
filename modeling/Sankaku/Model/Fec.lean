import Sankaku.Lib.Erasure
import Sankaku.Model.Types

namespace Sankaku

inductive WirehairResult
  | success
  | needMore
  | invalidInput
  | badDenseSeed
  | badPeelSeed
  | badInputSmallN
  | badInputLargeN
  | extraInsufficient
  | error
  | oom
  | unsupportedPlatform
  deriving DecidableEq, Repr

def WirehairResult.code : WirehairResult → Int
  | .success => 0
  | .needMore => 1
  | .invalidInput => 2
  | .badDenseSeed => 3
  | .badPeelSeed => 4
  | .badInputSmallN => 5
  | .badInputLargeN => 6
  | .extraInsufficient => 7
  | .error => 8
  | .oom => 9
  | .unsupportedPlatform => 10

/-- The codec behind `wirehair.h`, a parameter of the session layer. A null pointer is `none`; `encode` and
`recover` return the bytes they wrote, `encode` none at all when it fails. -/
structure Wirehair where
  Encoder : Type
  Decoder : Type
  encoderCreate : Bytes → UInt32 → Option Encoder
  encode : Encoder → UInt32 → UInt32 → Bytes
  decoderCreate : UInt64 → UInt32 → Option Decoder
  decode : Decoder → UInt32 → Bytes → WirehairResult × Decoder
  recover : Decoder → UInt64 → WirehairResult × Bytes

/-- `wirehair_encode`: writing nothing is a failure. -/
def Wirehair.wirehairEncode (W : Wirehair) (e : W.Encoder) (blockId outBytes : UInt32) :
    WirehairResult × Bytes :=
  let written := W.encode e blockId outBytes
  if written.length = 0 then (.invalidInput, written) else (.success, written)

def maxWirehairMessageBytes : Nat := 64 * 1024 * 1024
def maxWirehairPacketBytes : UInt32 := 1500

inductive FecError
  | initFailed
  | invalidInput
  | recoveryFailed
  | needMoreData
  | packetSizeOutOfBounds
  | messageSizeOutOfBounds
  | internal (code : Int)
  deriving DecidableEq, Repr

def FecError.display : FecError → String
  | .initFailed => "Wirehair initialization failed"
  | .invalidInput => "Invalid input parameters"
  | .recoveryFailed => "Recovery failed"
  | .needMoreData => "Need more data to recover"
  | .packetSizeOutOfBounds => "Packet size out of bounds"
  | .messageSizeOutOfBounds => "Message size out of bounds"
  | .internal code => s!"Internal Wirehair error: {code}"

def FecError.debug : FecError → String
  | .initFailed => "InitFailed"
  | .invalidInput => "InvalidInput"
  | .recoveryFailed => "RecoveryFailed"
  | .needMoreData => "NeedMoreData"
  | .packetSizeOutOfBounds => "PacketSizeOutOfBounds"
  | .messageSizeOutOfBounds => "MessageSizeOutOfBounds"
  | .internal code => s!"Internal({code})"

variable {W : Wirehair}

structure WirehairEncoder (W : Wirehair) where
  inner : W.Encoder
  packetSize : UInt32

def WirehairEncoder.new (W : Wirehair) (message : Bytes) (packetSize : UInt32) :
    Except FecError (WirehairEncoder W) :=
  if message.isEmpty ∨ message.length > maxWirehairMessageBytes then .error .messageSizeOutOfBounds
  else if packetSize = 0 ∨ packetSize > maxWirehairPacketBytes then .error .packetSizeOutOfBounds
  else
    match W.encoderCreate message packetSize with
    | none => .error .initFailed
    | some codec => .ok ⟨codec, packetSize⟩

/-- Block ids below `N` are original data, the others repair data. -/
def WirehairEncoder.encode (e : WirehairEncoder W) (blockId : UInt32) : Except FecError Bytes :=
  match W.wirehairEncode e.inner blockId e.packetSize with
  | (.success, written) =>
    if written.length > e.packetSize.toNat then .error (.internal (-1)) else .ok written
  | (failure, _) => .error (.internal failure.code)

structure WirehairDecoder (W : Wirehair) where
  inner : W.Decoder
  messageSize : UInt64
  packetSize : UInt32

def WirehairDecoder.new (W : Wirehair) (messageSize : UInt64) (packetSize : UInt32) :
    Except FecError (WirehairDecoder W) :=
  if messageSize = 0 ∨ messageSize.toNat > maxWirehairMessageBytes then
    .error .messageSizeOutOfBounds
  else if packetSize = 0 ∨ packetSize > maxWirehairPacketBytes then .error .packetSizeOutOfBounds
  else
    match W.decoderCreate messageSize packetSize with
    | none => .error .initFailed
    | some codec => .ok ⟨codec, messageSize, packetSize⟩

def WirehairDecoder.decode (d : WirehairDecoder W) (blockId : UInt32) (data : Bytes) :
    Except FecError Bool × WirehairDecoder W :=
  if data.isEmpty ∨ data.length > d.packetSize.toNat then (.error .packetSizeOutOfBounds, d)
  else
    match W.decode d.inner blockId data with
    | (.success, inner) => (.ok true, { d with inner })
    | (.needMore, inner) => (.ok false, { d with inner })
    | (failure, inner) => (.error (.internal failure.code), { d with inner })

def WirehairDecoder.recover (d : WirehairDecoder W) : Except FecError Bytes :=
  match W.recover d.inner d.messageSize with
  | (.success, output) => .ok output
  | _ => .error .recoveryFailed

/-- The two lengths a codec is made for. -/
structure Geometry where
  messageBytes : UInt64
  blockBytes : UInt32

/-- The number of original blocks, `N` in the sources. -/
def Geometry.count (g : Geometry) : Nat := divCeil g.messageBytes.toNat g.blockBytes.toNat

def WirehairResult.verdict : WirehairResult → Erasure.Verdict
  | .success => .success
  | .needMore => .needMore
  | _ => .refused

/-- The receiving half of Wirehair as an erasure code. -/
abbrev Wirehair.code (W : Wirehair) : Erasure.Code Geometry Bytes UInt32 Bytes where
  Dec := W.Decoder
  create g := W.decoderCreate g.messageBytes g.blockBytes
  decode d blockId data := ((W.decode d blockId data).1.verdict, (W.decode d blockId data).2)
  recover g d :=
    match W.recover d g.messageBytes with
    | (.success, output) => some output
    | _ => none

/-- A droplet of a block as it arrives: what the encoder wrote, possibly padded
with zeros, and never longer than a block of the code. -/
def Wirehair.IsDroplet (W : Wirehair) (g : Geometry) (b : Bytes) (blockId : UInt32) (s : Bytes) :
    Prop :=
  b.length = g.messageBytes.toNat ∧ s.length ≤ g.blockBytes.toNat ∧
    ∃ e k, W.encoderCreate b g.blockBytes = some e ∧
      0 < (W.encode e blockId g.blockBytes).length ∧
      s = W.encode e blockId g.blockBytes ++ List.replicate k 0

/-- Fed droplets of one block only, under its geometry, in any order and with
repeats, the codec never yields anything but that block. -/
def Wirehair.Sound (W : Wirehair) : Prop := W.code.Sound W.IsDroplet

/-- The codec recovers a block from its ids `0..N-1` fed in order. -/
def Wirehair.Completes (W : Wirehair) : Prop :=
  W.code.Completes W.IsDroplet (fun g => (List.range g.count).map UInt32.ofNat)

/-- The codec never succeeds on fewer than `N` blocks. -/
def Wirehair.Thrifty (W : Wirehair) : Prop := W.code.Thrifty Geometry.count

/-- `CAT_WIREHAIR_MIN_N` and `CAT_WIREHAIR_MAX_N` decide alone whether a decoder
can be made. -/
def Wirehair.CreatesWithinLimits (W : Wirehair) : Prop :=
  ∀ g : Geometry, g.messageBytes ≠ 0 → g.blockBytes ≠ 0 →
    (W.decoderCreate g.messageBytes g.blockBytes = none ↔ g.count < 2 ∨ 64000 < g.count)

/-- An encoder that could be made encodes every id. -/
def Wirehair.EncodesAll (W : Wirehair) : Prop :=
  ∀ message blockBytes e, W.encoderCreate message blockBytes = some e →
    ∀ blockId, 0 < (W.encode e blockId blockBytes).length ∧
      (W.encode e blockId blockBytes).length ≤ blockBytes.toNat

end Sankaku
