import Sankaku.Lib.Machine
import Sankaku.Model.Bincode
import Sankaku.Model.Fec
import Sankaku.Model.LossWindow
import Sankaku.Model.Pipeline
import Sankaku.Model.Transport
import Sankaku.Model.Wire

namespace Sankaku
open LittleEndian Machine

structure DecoderState (W : Wirehair) where
  frameIndex : UInt64
  decoder : WirehairDecoder W
  idealPackets : UInt32
  usedPackets : UInt32

structure StreamState (W : Wirehair) where
  nextFrameIndex : UInt64
  decoderState : Option (DecoderState W)
  bytesReceived : UInt64
  framesReceived : UInt64
  lastArrival : Option Nat
  lastTimestampUs : Option UInt64
  jitterUs : UInt32
  lossWindow : LossFeedbackWindow
  packetLossRatio : ℚ

def StreamState.default (W : Wirehair) : StreamState W where
  nextFrameIndex := 0
  decoderState := none
  bytesReceived := 0
  framesReceived := 0
  lastArrival := none
  lastTimestampUs := none
  jitterUs := 0
  lossWindow := LossFeedbackWindow.default
  packetLossRatio := 0

structure SessionState (W : Wirehair) where
  pipeline : SankakuPipeline
  streams : StreamRegistry (StreamState W)

structure ReceiverRuntime (W : Wirehair) where
  sessions : UInt64 → Option (SessionState W)

def ReceiverRuntime.default (W : Wirehair) : ReceiverRuntime W := ⟨fun _ => none⟩

/-- The receiver's settings. `audioTx` says whether `run_media_loop` was given an
audio channel. -/
structure SankakuReceiver where
  compression : CompressionMode
  compressionGraph : Bytes
  audioTx : Bool

/-- What the outside contributes while one packet is handled: the clock, quinn's
current datagram limit, whether the frame channel and the outgoing control task
are alive, and quinn's answer to a datagram sent back. -/
structure RxEnv where
  now : Nat
  maxDatagramSize : Option Nat
  frameTxOpen : Bool
  controlOpen : Bool
  sendDatagram : Except TransportError Unit

/-- Everything the receiver emits: frames handed to the application, the pong
datagram, and the packets it enqueues for the control stream. -/
inductive Output
  | frame (frame : InboundVideoFrame)
  | audio (frame : InboundAudioFrame)
  | pong (sessionId : UInt64)
  | ack (sessionId : UInt64) (streamId : UInt32)
  | feedback (packet : FeedbackPacket)
  | fecFeedback (packet : FecFeedbackPacket)
  | telemetry (packet : TelemetryPacket)
  deriving DecidableEq

/-- The runtime a handler leaves, what it emitted and, where it propagates an error
with `?`, the error's outermost text. -/
abbrev Handled (W : Wirehair) := Outcome (ReceiverRuntime W) Output String

def done (state : σ) : Outcome σ Output String := ⟨state, [], none⟩

def controlTaskGone : String := "receiver control stream sender task is not running"

variable {W : Wirehair}

def SankakuReceiver.buildReceiverPipeline (R : SankakuReceiver) : SankakuPipeline :=
  let pipeline := SankakuPipeline.newWithConfig R.compression
  if R.compressionGraph.isEmpty then pipeline
  else pipeline.updateCompressionGraph R.compressionGraph

def maxDatagramPayload (env : RxEnv) : Nat :=
  max (env.maxDatagramSize.getD quicDatagramFallbackMax - dataPrefixSize) 1

/-- Creates the session unless it exists. -/
def handleHandshakePacket (R : SankakuReceiver) (rt : ReceiverRuntime W) (sessionId : UInt64) :
    ReceiverRuntime W :=
  match rt.sessions sessionId with
  | some _ => rt
  | none => ⟨Function.update rt.sessions sessionId
      (some ⟨R.buildReceiverPipeline, StreamRegistry.empty⟩)⟩

/-- Writes back the registry that a handler changed through `get_mut`. -/
def ReceiverRuntime.setStreams (rt : ReceiverRuntime W) (sessionId : UInt64)
    (session : SessionState W) (streams : StreamRegistry (StreamState W)) : ReceiverRuntime W :=
  ⟨Function.update rt.sessions sessionId (some { session with streams })⟩

def handlePingPacket (R : SankakuReceiver) (env : RxEnv) (rt : ReceiverRuntime W) (packet : Bytes) :
    Handled W :=
  match (slice? packet 1 9).bind parseU64Le with
  | none => done rt
  | some sessionId =>
    let rt := handleHandshakePacket R rt sessionId
    match env.sendDatagram with
    | .error error => ⟨rt, [], some (annotateTransportError "failed to send pong datagram" error)⟩
    | .ok () => ⟨rt, [.pong sessionId], none⟩

def handleStreamFinPacket (R : SankakuReceiver) (env : RxEnv) (rt : ReceiverRuntime W)
    (packet : Bytes) : Handled W :=
  match StreamFinPacket.deserialize (packet.drop 1) with
  | none => done rt
  | some fin =>
    let rt := handleHandshakePacket R rt fin.sessionId
    match rt.sessions fin.sessionId with
    | none => done rt
    | some session =>
      let rt := rt.setStreams fin.sessionId session (session.streams.remove fin.streamId)
      if env.controlOpen then ⟨rt, [.ack fin.sessionId fin.streamId], none⟩
      else ⟨rt, [], some controlTaskGone⟩

/-- The fields of an audio packet, once every check up to the payload passed. -/
def parseAudioPacket (packet : Bytes) : Option InboundAudioFrame := do
  let sessionId ← (slice? packet 1 9).bind parseU64Le
  let streamId ← (slice? packet 9 13).bind parseU32Le
  let timestampUs ← (slice? packet 13 21).bind parseU64Le
  let codec ← packet[21]?
  if !isSupportedAudioCodec codec then none
  let framesPerPacket ← (slice? packet 22 26).bind parseU32Le
  let payloadLen ← (slice? packet 26 30).bind parseU32Le
  if payloadLen.toNat = 0 then none
  let payloadEnd := audioPrefixSize + payloadLen.toNat
  if payloadEnd > packet.length then none
  let payload := (packet.drop audioPrefixSize).take payloadLen.toNat
  return { sessionId, streamId, timestampUs, codec, framesPerPacket, payload }

def handleAudioPacket (R : SankakuReceiver) (rt : ReceiverRuntime W) (packet : Bytes) : Handled W :=
  if packet.length < audioPrefixSize then done rt
  else
    match (slice? packet 1 9).bind parseU64Le with
    | none => done rt
    | some sessionId =>
      let rt := handleHandshakePacket R rt sessionId
      match parseAudioPacket packet with
      | none => done rt
      | some frame =>
        match rt.sessions sessionId with
        | none => done rt
        | some session =>
          let rt :=
            -- The result is dropped here: a stream of another type keeps its state.
            match session.streams.ensureWith frame.streamId .audio (StreamState.default W) with
            | .ok (_, streams) => rt.setStreams sessionId session streams
            | .error _ => rt
          if R.audioTx then ⟨rt, [.audio frame], none⟩ else done rt

/-- The checks on the header, and the payload cut back to `pkt_size`. -/
def admitDroplet (env : RxEnv) (h : DataHeader) (payloadWithPadding : Bytes) : Option Bytes :=
  if h.totalSize = 0 ∨ h.totalSize > maxProtectedBlockSize then none
  else if h.pktSize = 0 ∨ h.pktSize.toNat > maxDatagramPayload env then none
  else if VideoPayloadKind.fromHeaderFlag h.kindFlag = none then none
  else if !isSupportedVideoCodec h.codec then none
  else
    let payloadLen := min h.pktSize.toNat payloadWithPadding.length
    if payloadLen = 0 then none else some (payloadWithPadding.take payloadLen)

def observeLoss (env : RxEnv) (sessionId : UInt64) (h : DataHeader) (stream : StreamState W) :
    Outcome (StreamState W) Output String :=
  let observed := stream.lossWindow.observePacket env.now h.frameIndex h.seqId
  match observed.maybeFlushLossRatio env.now with
  | (none, lossWindow) => done { stream with lossWindow }
  | (some lossRatio, lossWindow) =>
    let stream := { stream with lossWindow, packetLossRatio := lossRatio }
    if env.controlOpen then
      ⟨stream, [.feedback ⟨sessionId, h.streamId, .finite lossRatio⟩], none⟩
    else ⟨stream, [], some controlTaskGone⟩

/-- The decoder for this frame: the one at hand if it is for the same frame,
otherwise a new one. -/
def openDecoder (h : DataHeader) (stream : StreamState W) : Except FecError (DecoderState W) :=
  match stream.decoderState.filter (fun state => state.frameIndex = h.frameIndex) with
  | some state => .ok state
  | none =>
    match WirehairDecoder.new W (UInt64.ofNat h.totalSize.toNat) (UInt32.ofNat h.pktSize.toNat) with
    | .error e => .error e
    | .ok decoder => .ok
      { frameIndex := h.frameIndex
        decoder
        idealPackets := UInt32.ofNat (divCeil h.totalSize.toNat h.pktSize.toNat)
        usedPackets := 0 }

/-- How far a droplet got: the handler returned, or a block came out. -/
inductive FedDroplet (W : Wirehair)
  | returned (outcome : Outcome (StreamState W) Output String)
  | recovered (stream : StreamState W) (block : Bytes) (idealPackets usedPackets : UInt32)

def feedDecoder (h : DataHeader) (payload : Bytes) (stream : StreamState W) : FedDroplet W :=
  if h.frameIndex ≠ stream.nextFrameIndex then .returned (done stream)
  else
    match openDecoder h stream with
    | .error e => .returned ⟨{ stream with decoderState := none }, [], some e.display⟩
    | .ok state =>
      match state.decoder.decode h.seqId payload with
      | (.ok true, decoder) =>
        match decoder.recover with
        | .error e => .returned
            ⟨{ stream with decoderState := some { state with decoder } }, [], some e.display⟩
        | .ok block => .recovered { stream with decoderState := none } block
            state.idealPackets (saturatingAdd32 h.seqId 1)
      | (.ok false, decoder) =>
        .returned (done { stream with decoderState := some { state with decoder } })
      | (.error _, _) => .returned (done { stream with decoderState := none })

/-- The update of a stream by a frame that was recovered. Sums and products on
`u64` wrap, as in the release build; the casts truncate. -/
def StreamState.accept (stream : StreamState W) (arrivalNow : Nat) (envelope : FrameEnvelope) :
    StreamState W :=
  let jitterUs :=
    match stream.lastArrival, stream.lastTimestampUs with
    | some lastArrival, some lastTimestamp =>
      let arrivalDelta : Int := ((arrivalNow - lastArrival) / 1000 : Nat)
      let senderDelta : Int := (saturatingSub64 envelope.timestampUs lastTimestamp).toNat
      let sample := UInt64.ofNat (arrivalDelta - senderDelta).natAbs
      UInt32.ofNat ((UInt64.ofNat stream.jitterUs.toNat * 7 + sample) / 8).toNat
    | _, _ => stream.jitterUs
  { stream with
    jitterUs
    lastArrival := some arrivalNow
    lastTimestampUs := some envelope.timestampUs
    bytesReceived := saturatingAdd64 stream.bytesReceived (UInt64.ofNat envelope.payload.length)
    framesReceived := saturatingAdd64 stream.framesReceived 1
    nextFrameIndex := saturatingAdd64 stream.nextFrameIndex 1 }

def packetLossPpm (idealPackets usedPackets : UInt32) : UInt32 :=
  if idealPackets = 0 ∨ usedPackets ≤ idealPackets then 0
  else
    let excess := usedPackets.toNat - idealPackets.toNat
    UInt32.ofNat (min (excess * 1000000 / idealPackets.toNat) (2 ^ 32 - 1))

def deliverFrame (env : RxEnv) (pipeline : SankakuPipeline) (sessionId : UInt64) (h : DataHeader)
    (stream : StreamState W) (block : Bytes) (idealPackets usedPackets : UInt32) :
    Outcome (StreamState W) Output String :=
  match pipeline.restoreFrame block h.streamId h.frameIndex with
  | .error why => ⟨stream, [], some why⟩
  | .ok (restoredKind, raw) =>
    if restoredKind.asHeaderFlag ≠ h.kindFlag then done stream
    else
      match FrameEnvelope.deserialize raw with
      | none => ⟨stream, [], some "Failed to decode frame envelope"⟩
      | some envelope =>
        let stream := stream.accept env.now envelope
        let inbound : InboundVideoFrame :=
          { sessionId
            streamId := h.streamId
            frameIndex := h.frameIndex
            timestampUs := envelope.timestampUs
            keyframe := envelope.keyframe
            codec := h.codec
            packetLossRatio := stream.packetLossRatio
            kind := restoredKind
            payload := envelope.payload }
        if !env.frameTxOpen then ⟨stream, [.frame inbound], none⟩
        else if !env.controlOpen then ⟨stream, [.frame inbound], some controlTaskGone⟩
        else
          ⟨stream,
            [.frame inbound,
             .fecFeedback ⟨sessionId, h.streamId, h.frameIndex, idealPackets, usedPackets⟩,
             .telemetry ⟨sessionId, h.streamId, h.frameIndex,
               packetLossPpm idealPackets usedPackets, stream.jitterUs⟩], none⟩

/-- One admitted droplet on the state of its stream. -/
def receiveDroplet (env : RxEnv) (pipeline : SankakuPipeline) (sessionId : UInt64) (h : DataHeader)
    (payload : Bytes) (stream : StreamState W) : Outcome (StreamState W) Output String :=
  let observed := observeLoss env sessionId h stream
  match observed.error with
  | some _ => observed
  | none =>
    let rest :=
      match feedDecoder h payload observed.state with
      | .returned outcome => outcome
      | .recovered stream block idealPackets usedPackets =>
        deliverFrame env pipeline sessionId h stream block idealPackets usedPackets
    { rest with out := observed.out ++ rest.out }

def handleDataPacket (R : SankakuReceiver) (env : RxEnv) (rt : ReceiverRuntime W) (packet : Bytes) :
    Handled W :=
  if packet.length < dataPrefixSize then done rt
  else
    match (slice? packet 1 9).bind parseU64Le with
    | none => done rt
    | some sessionId =>
      let rt := handleHandshakePacket R rt sessionId
      match rt.sessions sessionId with
      | none => done rt
      | some session =>
        match slice? packet 9 dataPrefixSize with
        | none => done rt
        | some wireHeader =>
          let payloadWithPadding := packet.drop dataPrefixSize
          if payloadWithPadding.isEmpty then done rt
          else
            let h := DataHeader.parse wireHeader
            match admitDroplet env h payloadWithPadding with
            | none => done rt
            | some payload =>
              match session.streams.ensureWith h.streamId .video (StreamState.default W) with
              | .error why => ⟨rt, [], some why⟩
              | .ok (stream, streams) =>
                let received := receiveDroplet env session.pipeline sessionId h payload stream
                ⟨rt.setStreams sessionId session
                    (streams.modify h.streamId (fun _ => received.state)),
                  received.out, received.error⟩

/-- What one turn of the `select!` loop takes. -/
inductive RxInput
  | datagram (env : RxEnv) (packet : Bytes)
  | control (env : RxEnv) (packet : Bytes)

def mediaStep (R : SankakuReceiver) (rt : ReceiverRuntime W) : RxInput → Handled W
  | .datagram _ [] => done rt
  | .datagram env (type :: rest) =>
    match PacketType.fromByte type with
    | some .ping => handlePingPacket R env rt (type :: rest)
    | some .data => handleDataPacket R env rt (type :: rest)
    | some .audio => handleAudioPacket R rt (type :: rest)
    | _ => done rt
  | .control _ [] => done rt
  | .control env (type :: rest) =>
    if PacketType.fromByte type = some .streamFin then handleStreamFinPacket R env rt (type :: rest)
    else done rt

/-- The media loop on a sequence of packets, up to the first error. -/
def runMediaLoop (R : SankakuReceiver) (rt : ReceiverRuntime W) (inputs : List RxInput) :
    Handled W :=
  run (mediaStep R) rt inputs

/-- The media loop's runtime, and whether the reading task still runs. -/
structure RunningReceiver (W : Wirehair) where
  runtime : ReceiverRuntime W
  reading : Bool

/-- What a peer can send: a datagram, or the contents of a control stream. -/
inductive PeerInput
  | datagram (env : RxEnv) (packet : Bytes)
  | controlStream (env : RxEnv) (contents : Bytes)

def PeerInput.env : PeerInput → RxEnv
  | .datagram env _ => env
  | .controlStream env _ => env

def RunningReceiver.handle (R : SankakuReceiver) (s : RunningReceiver W) (i : RxInput) :
    Outcome (RunningReceiver W) Output String :=
  let handled := mediaStep R s.runtime i
  ⟨{ s with runtime := handled.state }, handled.out, handled.error⟩

/-- A control stream that cannot be read to its end breaks the reading task's
loop. Nobody reads the streams after it. -/
def peerStep (R : SankakuReceiver) (s : RunningReceiver W) :
    PeerInput → Outcome (RunningReceiver W) Output String
  | .datagram env packet => s.handle R (.datagram env packet)
  | .controlStream env contents =>
    if s.reading then
      match recvControl contents with
      | .error _ => done { s with reading := false }
      | .ok packet => s.handle R (.control env packet)
    else done s

end Sankaku
