import Sankaku.Model.Receiver
import Sankaku.Model.Sender

namespace Sankaku
open Machine SankakuSender

inductive Half
  | sender
  | receiver
  deriving DecidableEq, Repr

/-- A sender and a receiver over one connection. Each has a task that accepts incoming
control streams and puts what it reads into the channel of its own half.
`drawn` is the random session id the first handshake takes, `frameIndex` and
`tuning` are the locals of the latest `send`. `incoming` holds the contents of the
peer's bidirectional streams that no task has accepted yet, `controlRx` is the
receiver's channel from its reading task to its media loop. The sender has its
channel in `controlInRx`. -/
structure SankakuStream (W : Wirehair) where
  drawn : UInt64
  streamId : UInt32
  sender : SankakuSender
  senderReading : Bool
  frameIndex : UInt64
  tuning : Tuning
  receiver : RunningReceiver W
  looping : Bool
  controlRx : List Bytes
  incoming : List Bytes

/-- The receiver's tasks start with its media loop, the sender's with the first
send. -/
def SankakuStream.connect (W : Wirehair) (seed : UInt32) (drawn : UInt64) :
    Except SendError (SankakuStream W) :=
  match (SankakuSender.new .default seed).openStream with
  | (.error e, _) => .error e
  | (.ok streamId, sender) => .ok
    { drawn
      streamId
      sender
      senderReading := false
      frameIndex := 0
      tuning := ⟨sender.newStreamState.redundancy, 0⟩
      receiver := ⟨.default W, true⟩
      looping := true
      controlRx := []
      incoming := [] }

/-- What happens around a stream. Between two packets that a send drains anything
else can happen, so a send shows as its start, single turns of the loop of
`drain_control_channel`, and its write-back. One that fails lacks the write-back. -/
inductive StreamEvent
  | opened (contents : Bytes)
  | accepted (half : Half) (position : Nat)
  | sending
  | drained
  | sent (rawLen : Nat)
  | controlled (env : RxEnv)
  | datagram (env : RxEnv) (packet : Bytes)

/-- A control packet a half took off its channel, and what that changed: the values
a drain works on before and after, or the receiver's runtime and what it emitted. -/
inductive Disposal (W : Wirehair)
  | drained (cx : DrainContext) (packet : Bytes) (before after : DrainState)
  | handled (env : RxEnv) (packet : Bytes) (after : ReceiverRuntime W) (emitted : List Output)

namespace SankakuStream
variable {W : Wirehair}

def reading (s : SankakuStream W) : Half → Bool
  | .sender => s.senderReading
  | .receiver => s.receiver.reading

def channel (s : SankakuStream W) : Half → List Bytes
  | .sender => s.sender.controlInRx.getD []
  | .receiver => s.controlRx

/-- The reading task of a half puts a packet into its channel. -/
def deliver (s : SankakuStream W) (half : Half) (packet : Bytes) : SankakuStream W :=
  match half with
  | .sender => { s with sender := s.sender.receiveControl [packet] }
  | .receiver => { s with controlRx := s.controlRx ++ [packet] }

/-- The reading task of a half ends. -/
def stopReading (s : SankakuStream W) : Half → SankakuStream W
  | .sender => { s with senderReading := false }
  | .receiver => { s with receiver := { s.receiver with reading := false } }

/-- `accept_bi` gives a stream to the task of one half, which reads it. -/
def accept (s : SankakuStream W) (half : Half) (position : Nat) : SankakuStream W :=
  match s.incoming[position]? with
  | none => s
  | some contents =>
    if s.reading half then
      let s := { s with incoming := s.incoming.eraseIdx position }
      match recvControl contents with
      | .error _ => s.stopReading half
      | .ok packet => s.deliver half packet
    else s

/-- What a turn of the media loop leaves. An error ends the loop, and with its
runtime end the receiver's tasks and its channel. -/
def afterTurn (s : SankakuStream W) (turn : Handled W) : SankakuStream W :=
  match turn.error with
  | none => { s with receiver := { s.receiver with runtime := turn.state } }
  | some _ => { s with receiver := ⟨turn.state, false⟩, looping := false, controlRx := [] }

/-- `ensure_handshake` of a send, which starts the sender's tasks the first time. -/
def handshake (s : SankakuStream W) : SankakuStream W :=
  let sender := s.sender.ensureHandshake s.drawn
  { s with
    sender
    senderReading := if s.sender.controlInRx.isNone ∧ sender.controlInRx.isSome then true
      else s.senderReading }

/-- `send` up to its droplet loop. -/
def beginSend (s : SankakuStream W) : SankakuStream W :=
  let s := s.handshake
  match s.sender.streams.ensureWith s.streamId .video s.sender.newStreamState with
  | .error _ => s
  | .ok (state, streams) =>
    { s with
      sender := { s.sender with streams }
      frameIndex := state.nextFrameIndex
      tuning := ⟨state.redundancy, state.jitterUs⟩ }

def drainContext (s : SankakuStream W) (sessionId : UInt64) : DrainContext where
  fec := s.sender.transport.fec
  sessionId
  streamId := s.streamId
  frameIndex := s.frameIndex

def drainState (s : SankakuStream W) : DrainState :=
  ⟨s.sender.targetBitrateBps, s.sender.pendingBitrateUpdateBps, s.tuning.redundancy,
    s.tuning.jitterUs⟩

def afterDrain (s : SankakuStream W) (queue : List Bytes) (st : DrainState) : SankakuStream W :=
  { s with
    sender := { s.sender with
      targetBitrateBps := st.targetBitrateBps
      pendingBitrateUpdateBps := st.pendingBitrateUpdateBps
      controlInRx := some queue }
    tuning := ⟨st.redundancy, st.jitterUs⟩ }

end SankakuStream

def streamStep (R : SankakuReceiver) (s : SankakuStream W) :
    StreamEvent → Outcome (SankakuStream W) (Disposal W) String
  | .opened contents => ⟨{ s with incoming := s.incoming ++ [contents] }, [], none⟩
  | .accepted half position => ⟨s.accept half position, [], none⟩
  | .sending => ⟨s.beginSend, [], none⟩
  | .drained =>
    match s.sender.sessionId, s.sender.controlInRx with
    | some sessionId, some (packet :: queue) =>
      let cx := s.drainContext sessionId
      -- A policy whose bounds cross panics. The packet is gone then, too.
      let after := s.afterDrain queue ((drainPacket cx s.drainState packet).getD s.drainState)
      ⟨after, [.drained cx packet s.drainState after.drainState], none⟩
    | _, _ => ⟨s, [], none⟩
  | .sent rawLen => ⟨{ s with sender := s.sender.commitFrame s.streamId rawLen s.tuning }, [], none⟩
  | .controlled env =>
    match s.controlRx with
    | [] => ⟨s, [], none⟩
    | packet :: rest =>
      if s.looping then
        let turn := mediaStep R s.receiver.runtime (.control env packet)
        let after := { s with controlRx := rest }.afterTurn turn
        ⟨after, [.handled env packet after.receiver.runtime turn.out], none⟩
      else ⟨s, [], none⟩
  | .datagram env packet =>
    if s.looping then
      ⟨s.afterTurn (mediaStep R s.receiver.runtime (.datagram env packet)), [], none⟩
    else ⟨s, [], none⟩

end Sankaku
