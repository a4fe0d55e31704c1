import Sankaku.Lib.Machine
import Sankaku.Model.Fec
import Sankaku.Model.Feedback
import Sankaku.Model.Pipeline
import Sankaku.Model.Transport
import Sankaku.Model.Wire

namespace Sankaku
open LittleEndian

structure TransportConfig where
  compression : CompressionMode
  padding : PaddingMode
  fec : FecPolicy
  initialRedundancy : ℚ

def TransportConfig.default : TransportConfig where
  compression := .openZlForSao
  padding := .disabled
  fec := .default
  initialRedundancy := 11 / 10

structure SenderStreamState where
  nextFrameIndex : UInt64
  redundancy : ℚ
  jitterUs : UInt32
  bytesSent : UInt64
  framesSent : UInt64
  deriving DecidableEq

/-- `controlInRx` is the queue between the task that reads control streams and
`drain_control_channel`; both control channels exist once the tasks run. -/
structure SankakuSender where
  transport : TransportConfig
  sessionId : Option UInt64
  pipeline : Option SankakuPipeline
  compressionGraph : Bytes
  nextStreamId : UInt32
  streams : StreamRegistry SenderStreamState
  targetBitrateBps : UInt32
  pendingBitrateUpdateBps : Option UInt32
  controlOutTx : Bool
  controlInRx : Option (List Bytes)

/-- How a call fails: with an error, named by its outermost text, or by a panic. -/
inductive SendError
  | failed (message : String)
  | panicked
  deriving DecidableEq, Repr

/-- What the outside contributes around one droplet: the control packets that
reach the queue before it is drained, quinn's datagram limit, and quinn's answer. -/
structure DropletEnv where
  arrivals : List Bytes
  maxDatagramSize : Option Nat
  sendDatagram : Except TransportError Unit

/-- The same for a whole call: the random session id, should one be needed, and
the datagram limit when the packet size is chosen. -/
structure SendEnv where
  sessionId : UInt64
  maxDatagramSize : Option Nat
  droplet : UInt32 → DropletEnv

/-- What the outside contributes to `send_audio_frame`: the random session id, should
one be needed, and quinn's answer. -/
structure AudioEnv where
  sessionId : UInt64
  sendDatagram : Except TransportError Unit

def hexDigitUpper (n : Nat) : Char := "0123456789ABCDEF".toList.getD n '0'

/-- `{:02X}` -/
def hexByteUpper (b : UInt8) : String :=
  String.ofList [hexDigitUpper (b.toNat / 16), hexDigitUpper (b.toNat % 16)]

/-- The sender a call leaves, also when it fails half way, and the datagrams the
transport took from it. The pacer only delays them and is left out. -/
structure SendOutcome (α : Type) where
  result : Except SendError α
  sender : SankakuSender
  sent : List Bytes

namespace SankakuSender

def new (transport : TransportConfig) (seed : UInt32) : SankakuSender where
  transport := transport
  sessionId := none
  pipeline := none
  compressionGraph := []
  nextStreamId := max seed 1
  streams := StreamRegistry.empty
  targetBitrateBps := clampVideoBitrate defaultVideoBitrateBps
  pendingBitrateUpdateBps := none
  controlOutTx := false
  controlInRx := none

def setTransportConfig (s : SankakuSender) (transport : TransportConfig) : SankakuSender :=
  { s with transport }

def streamRedundancy (s : SankakuSender) (streamId : UInt32) : Option ℚ :=
  (s.streams.get streamId).map SenderStreamState.redundancy

def takeBitrateUpdateBps (s : SankakuSender) : Option UInt32 × SankakuSender :=
  (s.pendingBitrateUpdateBps, { s with pendingBitrateUpdateBps := none })

def updateCompressionGraph (s : SankakuSender) (graph : Bytes) : SankakuSender :=
  { s with compressionGraph := graph
           pipeline := s.pipeline.map (fun p => p.updateCompressionGraph graph) }

def startControlTasks (s : SankakuSender) : SankakuSender :=
  if s.controlOutTx ∧ s.controlInRx.isSome then s
  else { s with controlOutTx := true, controlInRx := some [] }

/-- The reading task puts a control packet into the queue. -/
def receiveControl (s : SankakuSender) (packets : List Bytes) : SankakuSender :=
  { s with controlInRx := s.controlInRx.map (fun queue => queue ++ packets) }

def ensureHandshake (s : SankakuSender) (sessionId : UInt64) : SankakuSender :=
  if s.sessionId.isSome ∧ s.pipeline.isSome then s
  else
    let s := s.startControlTasks
    let pipeline := SankakuPipeline.newWithConfig s.transport.compression
    { s with
      pipeline := some
        (if s.compressionGraph.isEmpty then pipeline
         else pipeline.updateCompressionGraph s.compressionGraph)
      sessionId := some (s.sessionId.getD sessionId) }

def newStreamState (s : SankakuSender) : SenderStreamState where
  nextFrameIndex := 0
  redundancy := clampRat s.transport.initialRedundancy 1 maxRedundancy
  jitterUs := 0
  bytesSent := 0
  framesSent := 0

/-- The new id is inserted whether or not it is already in use. -/
def openStreamWithType (s : SankakuSender) (streamType : StreamType) :
    Except SendError UInt32 × SankakuSender :=
  let streamId := s.nextStreamId
  if streamId.toNat + 1 < 2 ^ 32 then
    (.ok streamId,
      { s with
        nextStreamId := streamId + 1
        streams := s.streams.insert streamId streamType s.newStreamState })
  else (.error (.failed "Stream id space exhausted for this sender session"), s)

def openStream (s : SankakuSender) : Except SendError UInt32 × SankakuSender :=
  s.openStreamWithType .video

/-- External telemetry. A policy whose bounds cross panics and leaves the sender
as it was. -/
def applyNetworkTelemetry (s : SankakuSender) (streamId : UInt32)
    (packetLossPpm jitterUs : UInt32) : SankakuSender :=
  match s.streams.get streamId with
  | none => s
  | some state =>
    let telemetry : TelemetryPacket :=
      { sessionId := s.sessionId.getD 0, streamId, frameIndex := state.nextFrameIndex,
        packetLossPpm, jitterUs }
    match adjustRedundancyWithTelemetry state.redundancy telemetry s.transport.fec with
    | none => s
    | some redundancy =>
      { s with
        streams := s.streams.modify streamId (fun state => { state with redundancy, jitterUs }) }

structure TxPacketContext where
  sessionId : UInt64
  streamId : UInt32
  deriving DecidableEq, Repr

/-- Everything the droplet loop keeps fixed. -/
structure ChunkPlan (W : Wirehair) where
  context : TxPacketContext
  frameIndex : UInt64
  totalSize : UInt32
  pktSize : UInt32
  kind : VideoPayloadKind
  codec : UInt8
  encoder : WirehairEncoder W

variable {W : Wirehair}

def ChunkPlan.header (plan : ChunkPlan W) (seqId : UInt32) : DataHeader where
  streamId := plan.context.streamId
  frameIndex := plan.frameIndex
  seqId := seqId
  totalSize := plan.totalSize
  pktSize := UInt16.ofNat plan.pktSize.toNat
  kindFlag := plan.kind.asHeaderFlag
  codec := plan.codec

def ChunkPlan.drainContext (plan : ChunkPlan W) (s : SankakuSender) : DrainContext where
  fec := s.transport.fec
  sessionId := plan.context.sessionId
  streamId := plan.context.streamId
  frameIndex := plan.frameIndex

/-- The two values `send_chunk` borrows from `send_frame`. -/
structure Tuning where
  redundancy : ℚ
  jitterUs : UInt32
  deriving DecidableEq

/-- `drain_control_channel` on the sender's own queue. -/
def drain (s : SankakuSender) (cx : DrainContext) (t : Tuning) :
    Except SendError Tuning × SankakuSender :=
  match s.controlInRx with
  | none => (.ok t, s)
  | some queue =>
    let drained := drainControlChannel cx
      ⟨s.targetBitrateBps, s.pendingBitrateUpdateBps, t.redundancy, t.jitterUs⟩ queue
    let s := { s with
      targetBitrateBps := drained.state.targetBitrateBps
      pendingBitrateUpdateBps := drained.state.pendingBitrateUpdateBps
      controlInRx := some drained.queue }
    if drained.panicked then (.error .panicked, s)
    else (.ok ⟨drained.state.redundancy, drained.state.jitterUs⟩, s)

/-- The padding step: the packet grows to the target, never past the limit. -/
def padPacket (mode : PaddingMode) (maxDatagramSize : Option Nat) (packet : Bytes) : Option Bytes :=
  (targetPacketLen mode packet.length).map (fun target =>
    packet ++ List.replicate
      (min target (maxDatagramSize.getD quicDatagramFallbackMax) - packet.length) 0)

/-- One turn of the droplet loop. -/
def sendDroplet (s : SankakuSender) (plan : ChunkPlan W) (env : DropletEnv) (seqId : UInt32)
    (t : Tuning) : SendOutcome Tuning :=
  match (s.receiveControl env.arrivals).drain (plan.drainContext s) t with
  | (.error e, s) => ⟨.error e, s, []⟩
  | (.ok t, s) =>
    match plan.encoder.encode seqId with
    | .error e => ⟨.error (.failed e.debug), s, []⟩
    | .ok packetData =>
      match padPacket s.transport.padding env.maxDatagramSize
          (dataDatagram plan.context.sessionId (plan.header seqId) packetData) with
      | none => ⟨.error .panicked, s, []⟩
      | some wirePacket =>
        match env.sendDatagram with
        | .error error =>
          ⟨.error (.failed (annotateTransportError "failed to send media datagram" error)), s, []⟩
        | .ok () => ⟨.ok t, s, [wirePacket]⟩

def sendDroplets (s : SankakuSender) (plan : ChunkPlan W) (env : SendEnv) (t : Tuning) :
    List UInt32 → SendOutcome Tuning
  | [] => ⟨.ok t, s, []⟩
  | seqId :: seqIds =>
    let first := s.sendDroplet plan (env.droplet seqId) seqId t
    match first.result with
    | .error e => ⟨.error e, first.sender, first.sent⟩
    | .ok t =>
      let rest := first.sender.sendDroplets plan env t seqIds
      { rest with sent := first.sent ++ rest.sent }

def targetPacketSize (env : SendEnv) : Nat :=
  let room := env.maxDatagramSize.getD quicDatagramFallbackMax - dataPrefixSize
  min (max room 1) Sankaku.targetPacketSize

/-- The packet size of a block: a block that fits one packet is cut in two. -/
def pktSizeFor (env : SendEnv) (totalSize : UInt32) : UInt32 :=
  let pktSize := UInt32.ofNat (targetPacketSize env)
  if totalSize ≤ pktSize then UInt32.ofNat (max (divCeil totalSize.toNat 2) 1) else pktSize

def totalPackets (totalSize pktSize : UInt32) (redundancy : ℚ) : UInt32 :=
  ceilToU32 (divCeil totalSize.toNat pktSize.toNat * clampRat redundancy 1 maxRedundancy)

/-- Everything `send_chunk` does before its loop. -/
def planChunk (W : Wirehair) (s : SankakuSender) (context : TxPacketContext) (data : Bytes)
    (codec : UInt8) (kind : VideoPayloadKind) (frameIndex : UInt64) (env : SendEnv) :
    Except SendError (ChunkPlan W) :=
  match s.pipeline with
  | none => .error (.failed "Sender pipeline not initialized")
  | some pipeline =>
    match pipeline.protectFrame data kind context.streamId frameIndex with
    | .error why => .error (.failed why)
    | .ok block =>
      if block.length ≥ 2 ^ 32 then .error (.failed "Protected block exceeded u32 length")
      else
        let totalSize := UInt32.ofNat block.length
        if totalSize = 0 ∨ totalSize > maxProtectedBlockSize then
          .error (.failed s!"Protected block size {totalSize} outside allowed range (1..={maxProtectedBlockSize})")
        else
          let pktSize := pktSizeFor env totalSize
          match WirehairEncoder.new W block pktSize with
          | .error e => .error (.failed e.display)
          | .ok encoder => .ok { context, frameIndex, totalSize, pktSize, kind, codec, encoder }

def sendChunk (W : Wirehair) (s : SankakuSender) (context : TxPacketContext) (data : Bytes)
    (codec : UInt8) (kind : VideoPayloadKind) (frameIndex : UInt64) (t : Tuning) (env : SendEnv) :
    SendOutcome Tuning :=
  match planChunk W s context data codec kind frameIndex env with
  | .error e => ⟨.error e, s, []⟩
  | .ok plan =>
    let count := totalPackets plan.totalSize plan.pktSize t.redundancy
    s.sendDroplets plan env t ((List.range count.toNat).map UInt32.ofNat)

/-- The write-back after the droplet loop succeeded. -/
def commitFrame (s : SankakuSender) (streamId : UInt32) (rawLen : Nat) (t : Tuning) :
    SankakuSender :=
  { s with
    streams := s.streams.modify streamId (fun state =>
      { nextFrameIndex := saturatingAdd64 state.nextFrameIndex 1
        redundancy := clampRat t.redundancy 1 maxRedundancy
        jitterUs := t.jitterUs
        bytesSent := saturatingAdd64 state.bytesSent (UInt64.ofNat rawLen)
        framesSent := saturatingAdd64 state.framesSent 1 }) }

def sendFrame (W : Wirehair) (s : SankakuSender) (streamId : UInt32) (frame : VideoFrame)
    (env : SendEnv) : SendOutcome UInt64 :=
  let s := s.ensureHandshake env.sessionId
  if !isSupportedVideoCodec frame.codec then
    ⟨.error (.failed s!"unsupported video codec id {frame.codec}"), s, []⟩
  else
    match s.streams.ensureWith streamId .video s.newStreamState with
    | .error why => ⟨.error (.failed why), s, []⟩
    | .ok (state, streams) =>
      let s := { s with streams }
      let frameIndex := state.nextFrameIndex
      let raw := FrameEnvelope.serialize ⟨frame.timestampUs, frame.keyframe, frame.payload⟩
      match s.sessionId with
      | none => ⟨.error (.failed "Sender missing session id after handshake"), s, []⟩
      | some sessionId =>
        let chunk := s.sendChunk W ⟨sessionId, streamId⟩ raw frame.codec frame.kind frameIndex
          ⟨state.redundancy, state.jitterUs⟩ env
        match chunk.result with
        | .error e => ⟨.error e, chunk.sender, chunk.sent⟩
        | .ok t => ⟨.ok frameIndex, chunk.sender.commitFrame streamId raw.length t, chunk.sent⟩

/-- The stream is registered before the length of the payload is looked at. -/
def sendAudioFrame (s : SankakuSender) (streamId : UInt32) (timestampUs : UInt64) (codec : UInt8)
    (framesPerPacket : UInt32) (payload : Bytes) (env : AudioEnv) : SendOutcome Unit :=
  if payload.isEmpty then ⟨.ok (), s, []⟩
  else if !isSupportedAudioCodec codec then
    ⟨.error (.failed s!"unsupported audio codec 0x{hexByteUpper codec}"), s, []⟩
  else
    let s := s.ensureHandshake env.sessionId
    match s.streams.ensureWith streamId .audio s.newStreamState with
    | .error why => ⟨.error (.failed why), s, []⟩
    | .ok (_, streams) =>
      let s := { s with streams }
      match s.sessionId with
      | none => ⟨.error (.failed "Sender missing session id after handshake"), s, []⟩
      | some sessionId =>
        if payload.length ≥ 2 ^ 32 then ⟨.error (.failed "audio payload too large"), s, []⟩
        else
          let packet := audioDatagram sessionId streamId timestampUs codec framesPerPacket
            (UInt32.ofNat payload.length) payload
          match env.sendDatagram with
          | .error error =>
            ⟨.error (.failed (annotateTransportError "failed to send audio datagram" error)), s, []⟩
          | .ok () => ⟨.ok (), s, [packet]⟩

/-- The FIN goes to the control stream; no stream state changes. -/
def sendStreamFin (s : SankakuSender) (sessionId : UInt64) (streamId : UInt32)
    (finalBytes finalFrames : UInt64) : SendOutcome Unit :=
  let s := s.ensureHandshake sessionId
  match s.sessionId with
  | none => ⟨.error (.failed "Sender missing session id after handshake"), s, []⟩
  | some sessionId =>
    if s.controlOutTx then
      ⟨.ok (), s, [PacketType.streamFin.toByte ::
        StreamFinPacket.serialize ⟨sessionId, streamId, finalBytes, finalFrames⟩]⟩
    else ⟨.error (.failed "control stream sender is not initialized"), s, []⟩

end SankakuSender

/-- What happens to a sender: a call of its owner, or control packets that the
reading task puts into the queue between two calls. -/
inductive SenderOp
  | setTransportConfig (transport : TransportConfig)
  | updateCompressionGraph (graph : Bytes)
  | applyNetworkTelemetry (streamId packetLossPpm jitterUs : UInt32)
  | takeBitrateUpdateBps
  | receiveControl (packets : List Bytes)
  | openStreamWithType (streamType : StreamType)
  | sendFrame (streamId : UInt32) (frame : VideoFrame) (env : SendEnv)
  | sendStreamFin (sessionId : UInt64) (streamId : UInt32) (finalBytes finalFrames : UInt64)

/-- One call of `send_frame`: its arguments, its answer, and the datagrams the
transport took. -/
structure Call where
  streamId : UInt32
  frame : VideoFrame
  result : Except SendError UInt64
  sent : List Bytes

inductive SenderOutput
  | call (call : Call)
  | fin (packet : Bytes)

/-- One use of the sender. The caller carries on after an error, but not after a
panic. -/
def senderStep (W : Wirehair) (s : SankakuSender) :
    SenderOp → Machine.Outcome SankakuSender SenderOutput String
  | .setTransportConfig transport => ⟨s.setTransportConfig transport, [], none⟩
  | .updateCompressionGraph graph => ⟨s.updateCompressionGraph graph, [], none⟩
  | .applyNetworkTelemetry streamId packetLossPpm jitterUs =>
    ⟨s.applyNetworkTelemetry streamId packetLossPpm jitterUs, [], none⟩
  | .takeBitrateUpdateBps => ⟨s.takeBitrateUpdateBps.2, [], none⟩
  | .receiveControl packets => ⟨s.receiveControl packets, [], none⟩
  | .openStreamWithType streamType => ⟨(s.openStreamWithType streamType).2, [], none⟩
  | .sendFrame streamId frame env =>
    let o := s.sendFrame W streamId frame env
    ⟨o.sender, [.call ⟨streamId, frame, o.result, o.sent⟩],
      match o.result with
      | .error .panicked => some "panicked"
      | _ => none⟩
  | .sendStreamFin sessionId streamId finalBytes finalFrames =>
    let o := s.sendStreamFin sessionId streamId finalBytes finalFrames
    ⟨o.sender, o.sent.map .fin, none⟩

end Sankaku
