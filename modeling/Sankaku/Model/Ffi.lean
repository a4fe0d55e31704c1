import Mathlib.Data.List.Infix
import Sankaku.Model.Sender

namespace Sankaku

def sankakuStatusOk : Int := 0
def sankakuStatusInvalidArgument : Int := -1
def sankakuStatusInvalidHandle : Int := -2
def sankakuStatusDisconnected : Int := -3
def sankakuStatusBufferOverflow : Int := -5
def sankakuStatusInternal : Int := -6
def sankakuStatusPanic : Int := -7

def sankakuFrameFlagKeyframe : UInt32 := 0x00000001

inductive SankakuFrameKind
  | nalUnit
  | saoParameters
  deriving DecidableEq, Repr

def frameKindToRust : SankakuFrameKind → VideoPayloadKind
  | .nalUnit => .nalUnit
  | .saoParameters => .saoParameters

/-- A frame as C passes it. `data` is the memory behind the pointer, none for
`NULL`; the caller vouches for `len` bytes of it. -/
structure SankakuVideoFrame where
  data : Option Bytes
  len : Nat
  ptsUs : UInt64
  dtsUs : UInt64
  codec : UInt8
  kind : SankakuFrameKind
  flags : UInt32
  readable : ∀ memory ∈ data, len ≤ memory.length

/-- A null pointer is refused unless the frame is empty. -/
def SankakuVideoFrame.toRust (frame : SankakuVideoFrame) : Option VideoFrame :=
  if frame.len > 0 ∧ frame.data.isNone then none
  else some
    { timestampUs := if frame.ptsUs ≠ 0 then frame.ptsUs else frame.dtsUs
      keyframe := (frame.flags &&& sankakuFrameFlagKeyframe) != 0
      codec := frame.codec
      kind := frameKindToRust frame.kind
      payload := if frame.len = 0 then [] else (frame.data.getD []).take frame.len }

def disconnectedWords : List String := ["disconnected", "connection", "timed out", "[socket]"]

def overflowWords : List String := ["too large", "overflow", "exceeded"]

/-- `str::contains` on characters. -/
def mentions (text : List Char) (word : String) : Bool := decide (word.toList <:+: text)

def mapRuntimeError (message : String) : Int :=
  let lowered := message.toList.map Char.toLower
  if disconnectedWords.any (mentions lowered) then sankakuStatusDisconnected
  else if overflowWords.any (mentions lowered) then sankakuStatusBufferOverflow
  else sankakuStatusInternal

/-- The stream behind a handle: the sending half of its `SankakuStream`. -/
structure FfiStreamState where
  sender : SankakuSender
  streamId : UInt32

/-- `SankakuStream::connect` once the connection is resolved; the first stream id is random. -/
def FfiStreamState.connect (seed : UInt32) : Except SendError FfiStreamState :=
  match (SankakuSender.new .default seed).openStream with
  | (.ok streamId, sender) => .ok ⟨sender, streamId⟩
  | (.error e, _) => .error e

def sendStatus : Except SendError UInt64 → Int
  | .ok _ => sankakuStatusOk
  | .error (.failed message) => mapRuntimeError message
  | .error .panicked => sankakuStatusPanic

/-- What a call from C answers and leaves behind its handle. -/
structure FfiOutcome where
  status : Int
  handle : Option FfiStreamState
  sent : List Bytes

/-- A panic is caught, and the next call gets the lock it poisoned. -/
def sankakuStreamSendFrame (W : Wirehair) (handle : Option FfiStreamState)
    (frame : Option SankakuVideoFrame) (env : SendEnv) : FfiOutcome :=
  match frame with
  | none => ⟨sankakuStatusInvalidArgument, handle, []⟩
  | some frame =>
    match frame.toRust with
    | none => ⟨sankakuStatusInvalidArgument, handle, []⟩
    | some rustFrame =>
      match handle with
      | none => ⟨sankakuStatusInvalidHandle, none, []⟩
      | some stream =>
        let o := stream.sender.sendFrame W stream.streamId rustFrame env
        ⟨sendStatus o.result, some { stream with sender := o.sender }, o.sent⟩

/-- One call on a live handle. -/
structure FfiCall where
  frame : Option SankakuVideoFrame
  env : SendEnv

def ffiStep (W : Wirehair) (stream : FfiStreamState) (call : FfiCall) :
    Machine.Outcome FfiStreamState (Int × List Bytes) String :=
  let o := sankakuStreamSendFrame W (some stream) call.frame call.env
  ⟨o.handle.getD stream, [(o.status, o.sent)], none⟩

end Sankaku
