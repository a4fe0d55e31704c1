import Sankaku.Model.Types

namespace Sankaku
open LittleEndian

/-- The geometry header, between the session id and the droplet. -/
structure DataHeader where
  streamId : UInt32
  frameIndex : UInt64
  seqId : UInt32
  totalSize : UInt32
  pktSize : UInt16
  kindFlag : UInt8
  codec : UInt8
  deriving DecidableEq, Repr

/-- `plain_header` as `send_chunk` fills it. -/
def DataHeader.encode (h : DataHeader) : Bytes :=
  le32 h.streamId ++ (le64 h.frameIndex ++ (le32 h.seqId ++ (le32 h.totalSize ++
    (le16 h.pktSize ++ [h.kindFlag, h.codec]))))

def parseHeaderU32 (header : Bytes) (start : Nat) : UInt32 :=
  UInt32.ofNat (ofLE ((header.drop start).take 4))

def parseHeaderU64 (header : Bytes) (start : Nat) : UInt64 :=
  UInt64.ofNat (ofLE ((header.drop start).take 8))

/-- The fields `handle_data_packet` reads off a header of 24 bytes. -/
def DataHeader.parse (plainHeader : Bytes) : DataHeader where
  streamId := parseHeaderU32 plainHeader 0
  frameIndex := parseHeaderU64 plainHeader 4
  seqId := parseHeaderU32 plainHeader 12
  totalSize := parseHeaderU32 plainHeader 16
  pktSize := UInt16.ofNat (ofLE ((plainHeader.drop 20).take 2))
  kindFlag := plainHeader.getD 22 0
  codec := plainHeader.getD 23 0

def dataDatagram (sessionId : UInt64) (h : DataHeader) (droplet : Bytes) : Bytes :=
  PacketType.data.toByte :: (le64 sessionId ++ (h.encode ++ droplet))

/-- The datagram `send_audio_frame` builds. -/
def audioDatagram (sessionId : UInt64) (streamId : UInt32) (timestampUs : UInt64) (codec : UInt8)
    (framesPerPacket payloadLen : UInt32) (payload : Bytes) : Bytes :=
  PacketType.audio.toByte :: (le64 sessionId ++ (le32 streamId ++ (le64 timestampUs ++
    (codec :: (le32 framesPerPacket ++ (le32 payloadLen ++ payload))))))

@[simp] theorem DataHeader.encode_length (h : DataHeader) : h.encode.length = 24 := by
  simp [encode]

@[simp] theorem DataHeader.parse_encode (h : DataHeader) : parse h.encode = h := by
  have h20 : h.encode.drop 20 = le16 h.pktSize ++ [h.kindFlag, h.codec] := by
    simp [encode, List.drop_append, List.drop_eq_nil_of_le]
  have h22 : h.encode.drop 22 = [h.kindFlag, h.codec] := by
    simp [encode, List.drop_append, List.drop_eq_nil_of_le]
  have hk : h.encode.getD 22 0 = h.kindFlag := by
    rw [List.getD_eq_getElem?_getD, ← Nat.add_zero 22, ← List.getElem?_drop, h22]; rfl
  have hc : h.encode.getD 23 0 = h.codec := by
    rw [List.getD_eq_getElem?_getD, show 23 = 22 + 1 from rfl, ← List.getElem?_drop, h22]; rfl
  have hs : parseHeaderU32 h.encode 0 = h.streamId := by
    simp [parseHeaderU32, encode, le32]
  have hf : parseHeaderU64 h.encode 4 = h.frameIndex := by
    simp [parseHeaderU64, encode, le64]
  have hq : parseHeaderU32 h.encode 12 = h.seqId := by
    simp [parseHeaderU32, encode, le32, List.drop_append, List.drop_eq_nil_of_le]
  have ht : parseHeaderU32 h.encode 16 = h.totalSize := by
    simp [parseHeaderU32, encode, le32, List.drop_append, List.drop_eq_nil_of_le]
  have hp : UInt16.ofNat (ofLE ((h.encode.drop 20).take 2)) = h.pktSize := by
    simp [h20, le16]
  simp only [parse, hs, hf, hq, ht, hp, hk, hc]

section Layout
variable (sessionId : UInt64) (h : DataHeader) (droplet : Bytes)

@[simp] theorem dataDatagram_length :
    (dataDatagram sessionId h droplet).length = dataPrefixSize + droplet.length := by
  simp [dataDatagram, dataPrefixSize, geometryHeaderSize]
  omega

@[simp] theorem dataDatagram_session :
    slice? (dataDatagram sessionId h droplet) 1 9 = some (le64 sessionId) := by
  simpa [dataDatagram] using slice?_append [PacketType.data.toByte] (le64 sessionId)
    (h.encode ++ droplet) (a := 1) (b := 9) rfl (by simp)

@[simp] theorem dataDatagram_header :
    slice? (dataDatagram sessionId h droplet) 9 dataPrefixSize = some h.encode := by
  simpa [dataDatagram] using slice?_append (PacketType.data.toByte :: le64 sessionId) h.encode
    droplet (a := 9) (b := dataPrefixSize) (by simp) (by simp [dataPrefixSize, geometryHeaderSize])

@[simp] theorem dataDatagram_droplet :
    (dataDatagram sessionId h droplet).drop dataPrefixSize = droplet := by
  simp [dataDatagram, dataPrefixSize, geometryHeaderSize, List.drop_append]

end Layout

end Sankaku
