import Sankaku.Model.Types

namespace Sankaku
open LittleEndian

/-- A reader takes what it needs from the front and hands on the rest. The format is
that of `bincode` 1.3: little-endian, integers of fixed width, `u64` lengths, trailing
bytes allowed. -/
abbrev Reader (α : Type) := Bytes → Option (α × Bytes)

def readLE (w : Nat) : Reader Nat := fun bs =>
  if w ≤ bs.length then some (ofLE (bs.take w), bs.drop w) else none

def readU8 : Reader UInt8
  | [] => none
  | b :: bs => some (b, bs)

def readU16 : Reader UInt16 := fun bs => (readLE 2 bs).map (fun r => (UInt16.ofNat r.1, r.2))

def readU32 : Reader UInt32 := fun bs => (readLE 4 bs).map (fun r => (UInt32.ofNat r.1, r.2))

def readU64 : Reader UInt64 := fun bs => (readLE 8 bs).map (fun r => (UInt64.ofNat r.1, r.2))

/-- Any byte but 0 and 1 is an invalid bool. -/
def readBool : Reader Bool := fun bs =>
  (readU8 bs).bind (fun r =>
    if r.1 = 0 then some (false, r.2) else if r.1 = 1 then some (true, r.2) else none)

/-- A `Vec<u8>`: its length, then that many bytes. -/
def readVec : Reader Bytes := fun bs =>
  (readU64 bs).bind (fun r =>
    if r.1.toNat ≤ r.2.length then some (r.2.take r.1.toNat, r.2.drop r.1.toNat) else none)

/-- An array goes without its length. -/
def readOctets (n : Nat) : Reader (Octets n) := fun bs =>
  if h : n ≤ bs.length then some (⟨bs.take n, List.length_take_of_le h⟩, bs.drop n) else none

/-- The value of an IEEE 754 single with the given bits. -/
def F32.ofBits (bits : UInt32) : F32 :=
  let negative := 2 ^ 31 ≤ bits.toNat
  let exponent := bits.toNat / 2 ^ 23 % 256
  let fraction := bits.toNat % 2 ^ 23
  if exponent = 255 then
    if fraction = 0 then .infinite negative else .nan
  else
    let significand : ℚ := ((if exponent = 0 then fraction else 2 ^ 23 + fraction : Nat) : ℚ)
    let scale := max exponent 1
    let magnitude := if 150 ≤ scale then significand * 2 ^ (scale - 150)
      else significand / 2 ^ (150 - scale)
    .finite (if negative then -magnitude else magnitude)

def readF32 : Reader F32 := fun bs => (readU32 bs).map (fun r => (F32.ofBits r.1, r.2))

def FrameEnvelope.serialize (e : FrameEnvelope) : Bytes :=
  le64 e.timestampUs ++ (if e.keyframe then 1 else 0) ::
    (le64 (UInt64.ofNat e.payload.length) ++ e.payload)

def FrameEnvelope.deserialize (bs : Bytes) : Option FrameEnvelope := do
  let (timestampUs, bs) ← readU64 bs
  let (keyframe, bs) ← readBool bs
  let (payload, _) ← readVec bs
  return { timestampUs, keyframe, payload }

def FecFeedbackPacket.deserialize (bs : Bytes) : Option FecFeedbackPacket := do
  let (sessionId, bs) ← readU64 bs
  let (streamId, bs) ← readU32 bs
  let (frameIndex, bs) ← readU64 bs
  let (idealPackets, bs) ← readU32 bs
  let (usedPackets, _) ← readU32 bs
  return { sessionId, streamId, frameIndex, idealPackets, usedPackets }

def TelemetryPacket.deserialize (bs : Bytes) : Option TelemetryPacket := do
  let (sessionId, bs) ← readU64 bs
  let (streamId, bs) ← readU32 bs
  let (frameIndex, bs) ← readU64 bs
  let (packetLossPpm, bs) ← readU32 bs
  let (jitterUs, _) ← readU32 bs
  return { sessionId, streamId, frameIndex, packetLossPpm, jitterUs }

def FeedbackPacket.deserialize (bs : Bytes) : Option FeedbackPacket := do
  let (sessionId, bs) ← readU64 bs
  let (streamId, bs) ← readU32 bs
  let (lossRatio, _) ← readF32 bs
  return { sessionId, streamId, lossRatio }

def StreamFinPacket.serialize (p : StreamFinPacket) : Bytes :=
  le64 p.sessionId ++ le32 p.streamId ++ le64 p.finalBytes ++ le64 p.finalFrames

def StreamFinPacket.deserialize (bs : Bytes) : Option StreamFinPacket := do
  let (sessionId, bs) ← readU64 bs
  let (streamId, bs) ← readU32 bs
  let (finalBytes, bs) ← readU64 bs
  let (finalFrames, _) ← readU64 bs
  return { sessionId, streamId, finalBytes, finalFrames }

@[simp] theorem readLE_append (n : Nat) (rest : Bytes) (h : n < 256 ^ w) :
    readLE w (toLE w n ++ rest) = some (n, rest) := by
  simp [readLE, ofLE_toLE_of_lt h]

@[simp] theorem readU64_append (n : UInt64) (rest : Bytes) :
    readU64 (le64 n ++ rest) = some (n, rest) := by
  simp [readU64, readLE, le64]

@[simp] theorem readU32_append (n : UInt32) (rest : Bytes) :
    readU32 (le32 n ++ rest) = some (n, rest) := by
  simp [readU32, readLE, le32]

@[simp] theorem readU16_append (n : UInt16) (rest : Bytes) :
    readU16 (le16 n ++ rest) = some (n, rest) := by
  simp [readU16, readLE, le16]

@[simp] theorem readOctets_append (a : Octets n) (rest : Bytes) :
    readOctets n (a.val ++ rest) = some (a, rest) := by
  obtain ⟨bs, rfl⟩ := a
  simp [readOctets]

@[simp] theorem readBool_cons (b : Bool) (rest : Bytes) :
    readBool ((if b then 1 else 0) :: rest) = some (b, rest) := by
  cases b <;> rfl

theorem readVec_append (p rest : Bytes) (h : p.length < 2 ^ 64) :
    readVec (le64 (UInt64.ofNat p.length) ++ (p ++ rest)) = some (p, rest) := by
  have hn : (UInt64.ofNat p.length).toNat = p.length := by
    rw [UInt64.toNat_ofNat', Nat.mod_eq_of_lt h]
  simp [readVec, hn]

/-- A frame survives its envelope. -/
theorem FrameEnvelope.round_trip (e : FrameEnvelope) (h : e.payload.length < 2 ^ 64) :
    deserialize e.serialize = some e := by
  have hv := readVec_append e.payload [] h
  rw [List.append_nil] at hv
  simp [serialize, deserialize, hv]

theorem FrameEnvelope.serialize_length (e : FrameEnvelope) :
    e.serialize.length = 17 + e.payload.length := by
  simp [serialize]
  omega

theorem StreamFinPacket.round_trip (p : StreamFinPacket) : deserialize p.serialize = some p := by
  have h := readU64_append p.finalFrames []
  rw [List.append_nil] at h
  simp [serialize, deserialize, List.append_assoc, h]

end Sankaku
