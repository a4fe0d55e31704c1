import Sankaku.Model.Types

namespace Sankaku
open LittleEndian

inductive KyuErrorCode
  | config
  | socket
  | handshakeAuth
  | versionMismatch
  | packetMalformed
  | packetRejected
  | internal
  deriving DecidableEq, Repr

def KyuErrorCode.asStr : KyuErrorCode → String
  | .config => "CONFIG"
  | .socket => "SOCKET"
  | .handshakeAuth => "HANDSHAKE_AUTH"
  | .versionMismatch => "VERSION_MISMATCH"
  | .packetMalformed => "PACKET_MALFORMED"
  | .packetRejected => "PACKET_REJECTED"
  | .internal => "INTERNAL"

inductive ConnectionError
  | versionMismatch
  | transportError
  | connectionClosed
  | applicationClosed
  | reset
  | timedOut
  | locallyClosed
  | cidsExhausted
  deriving DecidableEq, Repr

/-- `quinn::SendDatagramError`; `transport.rs` passes it on as it is. -/
inductive SendDatagramError
  | unsupportedByPeer
  | disabled
  | tooLarge
  | connectionLost (error : ConnectionError)
  deriving DecidableEq, Repr

/-- The errors a transport call can fail with, by the type `anyhow` would
downcast them to. -/
inductive TransportError
  | connection (error : ConnectionError)
  | sendDatagram (error : SendDatagramError)
  | other
  deriving DecidableEq, Repr

def KyuErrorCode.fromQuicConnectionError : ConnectionError → KyuErrorCode
  | .versionMismatch => .versionMismatch
  | _ => .socket

/-- A `SendDatagramError` is none of the types looked for, whatever it wraps. -/
def kyuErrorCodeFromTransport : TransportError → KyuErrorCode
  | .connection error => .fromQuicConnectionError error
  | .sendDatagram _ => .socket
  | .other => .socket

/-- The outermost text of the annotated error. -/
def annotateTransportError (context : String) (error : TransportError) : String :=
  s!"{context} [{(kyuErrorCodeFromTransport error).asStr}]"

/-- `recv_control` on the bytes of one incoming stream: a length, then that many
bytes. A stream that ends early is an error. -/
def recvControl (contents : Bytes) : Except String Bytes :=
  if contents.length < 4 then .error "failed to fill whole buffer"
  else
    let len := ofLE (contents.take 4)
    if (contents.drop 4).length < len then .error "failed to fill whole buffer"
    else .ok ((contents.drop 4).take len)

/-- What `send_control` writes on the stream it opens. -/
def sendControl (data : Bytes) : Bytes := toLE 4 data.length ++ data

theorem recvControl_sendControl (data : Bytes) (h : data.length < 2 ^ 32) :
    recvControl (sendControl data) = .ok data := by
  have hn : ofLE (toLE 4 data.length) = data.length :=
    ofLE_toLE_of_lt (Nat.lt_of_lt_of_eq h (by norm_num))
  simp [recvControl, sendControl, hn]

end Sankaku
