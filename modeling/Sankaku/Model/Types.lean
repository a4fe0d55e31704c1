import Mathlib.Data.Rat.Floor
import Mathlib.Logic.Function.Basic
import Sankaku.Lib.LittleEndian

namespace Sankaku
open LittleEndian

abbrev Bytes := List UInt8

/-- `[u8; n]` -/
abbrev Octets (n : Nat) := { bs : Bytes // bs.length = n }

def Octets.fill (n : Nat) (byte : UInt8) : Octets n := ⟨List.replicate n byte, List.length_replicate⟩

/-- The bytes of a string literal. -/
def ascii (s : String) : Bytes := s.toUTF8.data.toList

def maxRedundancy : ℚ := 4
def maxProtectedBlockSize : UInt32 := 512 * 1024
def maxWirePacketSize : Nat := 65507
def targetPacketSize : Nat := 1150
def adaptivePaddingAlign : Nat := 32
def geometryHeaderSize : Nat := 24
def dataPrefixSize : Nat := 1 + 8 + geometryHeaderSize
def audioPrefixSize : Nat := 1 + 8 + 4 + 8 + 1 + 4 + 4
/-- 500 ms on the nanosecond clock. -/
def feedbackWindow : Nat := 500000000
def minVideoBitrateBps : UInt32 := 500000
def maxVideoBitrateBps : UInt32 := 8000000
def aimdIncreaseStepBps : UInt32 := 50000
def aimdDecreaseFactor : ℚ := 4 / 5
def defaultVideoBitrateBps : UInt32 := 2000000
def quicDatagramFallbackMax : Nat := 1200

def videoCodecHevc : UInt8 := 0x01
def videoCodecH264 : UInt8 := 0x02
def audioCodecOpus : UInt8 := 0x03
def audioCodecDebugText : UInt8 := 0x7E

def isSupportedVideoCodec (codec : UInt8) : Bool :=
  codec == videoCodecHevc || codec == videoCodecH264

def isSupportedAudioCodec (codec : UInt8) : Bool :=
  codec == audioCodecOpus || codec == audioCodecDebugText

def saturatingAdd64 (a b : UInt64) : UInt64 := UInt64.ofNat (min (a.toNat + b.toNat) (2 ^ 64 - 1))

def saturatingSub64 (a b : UInt64) : UInt64 := UInt64.ofNat (a.toNat - b.toNat)

def saturatingAdd32 (a b : UInt32) : UInt32 := UInt32.ofNat (min (a.toNat + b.toNat) (2 ^ 32 - 1))

def rotateLeft64 (x k : UInt64) : UInt64 := (x <<< k) ||| (x >>> (64 - k))

def divCeil (a b : Nat) : Nat := (a + b - 1) / b

@[simp] theorem saturatingAdd64_toNat (a b : UInt64) :
    (saturatingAdd64 a b).toNat = min (a.toNat + b.toNat) (2 ^ 64 - 1) := by
  rw [saturatingAdd64, UInt64.toNat_ofNat', Nat.mod_eq_of_lt]
  omega

@[simp] theorem saturatingAdd32_toNat (a b : UInt32) :
    (saturatingAdd32 a b).toNat = min (a.toNat + b.toNat) (2 ^ 32 - 1) := by
  rw [saturatingAdd32, UInt32.toNat_ofNat', Nat.mod_eq_of_lt]
  omega

/-- A counter below the cap moves on by one. -/
theorem saturatingAdd64_one (h : a.toNat < 2 ^ 64 - 1) :
    (saturatingAdd64 a 1).toNat = a.toNat + 1 := by
  rw [saturatingAdd64_toNat, UInt64.toNat_one]
  omega

def parseU64Le (bytes : Bytes) : Option UInt64 :=
  if bytes.length = 8 then some (UInt64.ofNat (ofLE bytes)) else none

def parseU16Le (bytes : Bytes) : Option UInt16 :=
  if bytes.length = 2 then some (UInt16.ofNat (ofLE bytes)) else none

def parseU32Le (bytes : Bytes) : Option UInt32 :=
  if bytes.length = 4 then some (UInt32.ofNat (ofLE bytes)) else none

def le64 (n : UInt64) : Bytes := toLE 8 n.toNat
def le32 (n : UInt32) : Bytes := toLE 4 n.toNat
def le16 (n : UInt16) : Bytes := toLE 2 n.toNat

@[simp] theorem le64_length (n : UInt64) : (le64 n).length = 8 := toLE_length 8 _
@[simp] theorem le32_length (n : UInt32) : (le32 n).length = 4 := toLE_length 4 _
@[simp] theorem le16_length (n : UInt16) : (le16 n).length = 2 := toLE_length 2 _

@[simp] theorem parseU64Le_le64 (n : UInt64) : parseU64Le (le64 n) = some n := by
  simp [parseU64Le, le64]

@[simp] theorem parseU32Le_le32 (n : UInt32) : parseU32Le (le32 n) = some n := by
  simp [parseU32Le, le32]

@[simp] theorem parseU16Le_le16 (n : UInt16) : parseU16Le (le16 n) = some n := by
  simp [parseU16Le, le16]

inductive StreamType
  | audio
  | video
  | screenShare
  | data
  deriving DecidableEq, Repr

def StreamType.debug : StreamType → String
  | .audio => "Audio"
  | .video => "Video"
  | .screenShare => "ScreenShare"
  | .data => "Data"

inductive PacketType
  | data
  | audio
  | ack
  | ping
  | pong
  | fecFeedback
  | streamFin
  | telemetry
  | feedback
  deriving DecidableEq, Repr

def PacketType.toByte : PacketType → UInt8
  | .data => 0x44
  | .audio => 0x05
  | .ack => 0x41
  | .ping => 0x50
  | .pong => 0x4F
  | .fecFeedback => 0x46
  | .streamFin => 0x45
  | .telemetry => 0x54
  | .feedback => 0x42

def PacketType.fromByte (byte : UInt8) : Option PacketType :=
  if byte = 0x44 then some .data
  else if byte = 0x05 then some .audio
  else if byte = 0x41 then some .ack
  else if byte = 0x50 then some .ping
  else if byte = 0x4F then some .pong
  else if byte = 0x46 then some .fecFeedback
  else if byte = 0x45 then some .streamFin
  else if byte = 0x54 then some .telemetry
  else if byte = 0x42 then some .feedback
  else none

@[simp] theorem PacketType.fromByte_toByte (t : PacketType) : fromByte t.toByte = some t := by
  cases t <;> rfl

/-- Media payload class carried by a frame. -/
inductive VideoPayloadKind
  | nalUnit
  | saoParameters
  deriving DecidableEq, Repr

def VideoPayloadKind.fromHeaderFlag (flag : UInt8) : Option VideoPayloadKind :=
  if flag = 0 then some .nalUnit else if flag = 1 then some .saoParameters else none

def VideoPayloadKind.asHeaderFlag : VideoPayloadKind → UInt8
  | .nalUnit => 0
  | .saoParameters => 1

@[simp] theorem VideoPayloadKind.fromHeaderFlag_asHeaderFlag (k : VideoPayloadKind) :
    fromHeaderFlag k.asHeaderFlag = some k := by
  cases k <;> rfl

structure StreamContext (T : Type) where
  streamType : StreamType
  state : T

def wrongStreamType (streamId : UInt32) (registered requested : StreamType) : String :=
  s!"stream id {streamId} is registered as {registered.debug}, not {requested.debug}"

/-- A `HashMap` from stream ids is the partial function it stands for: no code
iterates over it. -/
structure StreamRegistry (T : Type) where
  entries : UInt32 → Option (StreamContext T)

namespace StreamRegistry

def empty : StreamRegistry T := ⟨fun _ => none⟩

def context (r : StreamRegistry T) (streamId : UInt32) : Option (StreamContext T) :=
  r.entries streamId

def get (r : StreamRegistry T) (streamId : UInt32) : Option T :=
  (r.context streamId).map StreamContext.state

def insert (r : StreamRegistry T) (streamId : UInt32) (streamType : StreamType) (state : T) :
    StreamRegistry T :=
  ⟨Function.update r.entries streamId (some ⟨streamType, state⟩)⟩

def remove (r : StreamRegistry T) (streamId : UInt32) : StreamRegistry T :=
  ⟨Function.update r.entries streamId none⟩

/-- `get_mut` followed by an assignment through the reference. -/
def modify (r : StreamRegistry T) (streamId : UInt32) (f : T → T) : StreamRegistry T :=
  ⟨Function.update r.entries streamId
    ((r.entries streamId).map (fun c => { c with state := f c.state }))⟩

/-- The state registered under an id, after registering a new one if there was
none. A wrong type is refused and changes nothing. -/
def ensureWith (r : StreamRegistry T) (streamId : UInt32) (streamType : StreamType) (build : T) :
    Except String (T × StreamRegistry T) :=
  match r.entries streamId with
  | some existing =>
    if existing.streamType ≠ streamType then
      .error (wrongStreamType streamId existing.streamType streamType)
    else .ok (existing.state, r)
  | none => .ok (build, r.insert streamId streamType build)

@[simp] theorem context_empty (id : UInt32) : (empty : StreamRegistry T).context id = none := rfl

@[simp] theorem context_insert_self (r : StreamRegistry T) (id : UInt32) (t : StreamType) (s : T) :
    (r.insert id t s).context id = some ⟨t, s⟩ := by
  simp [insert, context]

theorem context_insert_other (r : StreamRegistry T) {id id' : UInt32} (t : StreamType) (s : T)
    (h : id' ≠ id) :
    (r.insert id t s).context id' = r.context id' := by
  simp [insert, context, Function.update_of_ne h]

@[simp] theorem context_remove_self (r : StreamRegistry T) (id : UInt32) :
    (r.remove id).context id = none := by
  simp [remove, context]

theorem context_remove_other (r : StreamRegistry T) {id id' : UInt32} (h : id' ≠ id) :
    (r.remove id).context id' = r.context id' := by
  simp [remove, context, Function.update_of_ne h]

@[simp] theorem context_modify_self (r : StreamRegistry T) (id : UInt32) (f : T → T) :
    (r.modify id f).context id = (r.context id).map (fun c => { c with state := f c.state }) := by
  simp [modify, context]

theorem context_modify_other (r : StreamRegistry T) {id id' : UInt32} (f : T → T)
    (h : id' ≠ id) :
    (r.modify id f).context id' = r.context id' := by
  simp [modify, context, Function.update_of_ne h]

/-- All `ensureWith` can do: the id was registered under this type, or it was
free and is registered now, or it belongs to another type. -/
theorem ensureWith_cases (r : StreamRegistry T) (id : UInt32) (t : StreamType) (build : T) :
    (∃ s, r.context id = some ⟨t, s⟩ ∧ r.ensureWith id t build = .ok (s, r)) ∨
    (r.context id = none ∧ r.ensureWith id t build = .ok (build, r.insert id t build)) ∨
    (∃ c, r.context id = some c ∧ c.streamType ≠ t ∧
      r.ensureWith id t build = .error (wrongStreamType id c.streamType t)) := by
  unfold ensureWith context
  cases hc : r.entries id with
  | none => exact .inr (.inl ⟨rfl, rfl⟩)
  | some c =>
    by_cases ht : c.streamType = t
    · exact .inl ⟨c.state, by rw [← ht], by simp [ht]⟩
    · exact .inr (.inr ⟨c, rfl, ht, by simp only [ne_eq, ht, not_false_eq_true, ↓reduceIte]⟩)

end StreamRegistry

/-- Outbound frame data accepted by the sender. -/
structure VideoFrame where
  timestampUs : UInt64
  keyframe : Bool
  codec : UInt8
  kind : VideoPayloadKind
  payload : Bytes
  deriving DecidableEq, Repr

/-- Inbound frame data emitted by the receiver. -/
structure InboundVideoFrame where
  sessionId : UInt64
  streamId : UInt32
  frameIndex : UInt64
  timestampUs : UInt64
  keyframe : Bool
  codec : UInt8
  packetLossRatio : ℚ
  kind : VideoPayloadKind
  payload : Bytes
  deriving DecidableEq

structure InboundAudioFrame where
  sessionId : UInt64
  streamId : UInt32
  timestampUs : UInt64
  codec : UInt8
  framesPerPacket : UInt32
  payload : Bytes
  deriving DecidableEq, Repr

structure FrameEnvelope where
  timestampUs : UInt64
  keyframe : Bool
  payload : Bytes
  deriving DecidableEq, Repr

structure FecFeedbackPacket where
  sessionId : UInt64
  streamId : UInt32
  frameIndex : UInt64
  idealPackets : UInt32
  usedPackets : UInt32
  deriving DecidableEq, Repr

structure TelemetryPacket where
  sessionId : UInt64
  streamId : UInt32
  frameIndex : UInt64
  packetLossPpm : UInt32
  jitterUs : UInt32
  deriving DecidableEq, Repr

/-- An `f32` as a peer can send it. Elsewhere a finite one is the rational it denotes. -/
inductive F32
  | finite (value : ℚ)
  | infinite (negative : Bool)
  | nan
  deriving DecidableEq

structure FeedbackPacket where
  sessionId : UInt64
  streamId : UInt32
  lossRatio : F32
  deriving DecidableEq

structure StreamFinPacket where
  sessionId : UInt64
  streamId : UInt32
  finalBytes : UInt64
  finalFrames : UInt64
  deriving DecidableEq, Repr

end Sankaku
