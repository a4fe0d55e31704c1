import Sankaku.Model.Types

namespace Sankaku.DefaultHasher
open LittleEndian

structure State where
  v0 : UInt64
  v1 : UInt64
  v2 : UInt64
  v3 : UInt64

def State.round (s : State) : State :=
  let v0 := s.v0 + s.v1
  let v1 := rotateLeft64 s.v1 13 ^^^ v0
  let v0 := rotateLeft64 v0 32
  let v2 := s.v2 + s.v3
  let v3 := rotateLeft64 s.v3 16 ^^^ v2
  let v0 := v0 + v3
  let v3 := rotateLeft64 v3 21 ^^^ v0
  let v2 := v2 + v1
  let v1 := rotateLeft64 v1 17 ^^^ v2
  let v2 := rotateLeft64 v2 32
  ⟨v0, v1, v2, v3⟩

def State.new : State :=
  ⟨0x736f6d6570736575, 0x646f72616e646f6d, 0x6c7967656e657261, 0x7465646279746573⟩

/-- One compression round for each word. -/
def State.absorb (s : State) (m : UInt64) : State :=
  let s := { s with v3 := s.v3 ^^^ m }.round
  { s with v0 := s.v0 ^^^ m }

/-- The whole words, then the last bytes under the length. -/
def State.write (s : State) (length : Nat) : Bytes → State
  | b0 :: b1 :: b2 :: b3 :: b4 :: b5 :: b6 :: b7 :: rest =>
    (s.absorb (UInt64.ofNat (ofLE [b0, b1, b2, b3, b4, b5, b6, b7]))).write length rest
  | tail => s.absorb (UInt64.ofNat (ofLE tail + length % 256 * 2 ^ 56))

/-- Three finalisation rounds. -/
def State.finish (s : State) : UInt64 :=
  let s := { s with v2 := s.v2 ^^^ 0xff }.round.round.round
  s.v0 ^^^ s.v1 ^^^ s.v2 ^^^ s.v3

/-- SipHash-1-3 under two zero keys, on the bytes written to it. -/
def hash (bytes : Bytes) : UInt64 := (State.new.write bytes.length bytes).finish

end Sankaku.DefaultHasher
