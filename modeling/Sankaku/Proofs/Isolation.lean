import Sankaku.Proofs.Droplet
import Sankaku.Proofs.RepetitionWirehair

namespace Sankaku
open Machine

variable {W : Wirehair}

/-- The packets that carry a session and a stream, in the order they came. -/
def packetsOf (k : StreamKey) (inputs : List RxInput) : List RxInput := inputs.filter (concerns k)

/-- What the receiver produces for a session and a stream. -/
def outputsFor (k : StreamKey) (out : List Output) : List Output := out.filter (reads k)

theorem packetsOf_concerns : ∀ i ∈ packetsOf k inputs, concerns k i = true :=
  fun _ h => (List.mem_filter.mp h).2

theorem packetsOf_packetsOf : packetsOf k (packetsOf k inputs) = packetsOf k inputs := by
  simp [packetsOf]

/-- The packets of a stream alone are handled without error if all of them are. -/
theorem packetsOf_ok (R : SankakuReceiver) (rt : ReceiverRuntime W) (k : StreamKey)
    (ok : (runMediaLoop R rt inputs).error = none) :
    (runMediaLoop R rt (packetsOf k inputs)).error = none := by
  have component := stream_component (W := W) R k
  unfold runMediaLoop
  rw [component.own_error packetsOf_concerns]
  exact (component.project ok).1

/-- The run on the packets of one stream ends without error, with the same
outputs for the stream and the same state of it as the run on all packets. So
does every other run in which the stream's packets are interleaved otherwise. -/
theorem stream_isolation (R : SankakuReceiver) (inputs : List RxInput) (k : StreamKey)
    (ok : (runMediaLoop R (.default W) inputs).error = none) :
    let full := runMediaLoop R (.default W) inputs
    let own := runMediaLoop R (.default W) (packetsOf k inputs)
    (own.error = none ∧ outputsFor k full.out = outputsFor k own.out ∧
      full.state.slot k = own.state.slot k) ∧
    ∀ inputs', packetsOf k inputs' = packetsOf k inputs →
      (runMediaLoop R (.default W) inputs').error = none →
      outputsFor k (runMediaLoop R (.default W) inputs').out = outputsFor k full.out ∧
        (runMediaLoop R (.default W) inputs').state.slot k = full.state.slot k := by
  have component := stream_component (W := W) R k
  have own := packetsOf_ok R (.default W) k ok
  obtain ⟨hstate, hout⟩ := component.run_eq rfl packetsOf_packetsOf.symm ok own
  refine ⟨⟨own, hout, hstate⟩, fun inputs' hi ok' => ?_⟩
  obtain ⟨hstate', hout'⟩ := component.run_eq rfl hi ok' ok
  exact ⟨hout', hstate'⟩

/-- Two droplets of a frame on stream 2, with a droplet and the end of stream 3
in between and after. -/
def twoStreams : List RxInput :=
  let droplet (streamId seqId : UInt32) :=
    dataDatagram 1 ⟨streamId, 0, seqId, 18, 9, 0, videoCodecHevc⟩ (List.replicate 9 0)
  [.datagram (.live 0) (droplet 2 0), .datagram (.live 1) (droplet 3 0),
   .datagram (.live 2) (droplet 2 1),
   .control (.live 3) (PacketType.streamFin.toByte :: StreamFinPacket.serialize ⟨1, 3, 0, 0⟩)]

theorem stream_isolation_twoStreams :
    let R : SankakuReceiver := ⟨.disabled, [], true⟩
    let full := runMediaLoop R (.default .repetition) twoStreams
    let own := runMediaLoop R (.default .repetition) (packetsOf ⟨1, 2⟩ twoStreams)
    own.error = none ∧ outputsFor ⟨1, 2⟩ full.out = outputsFor ⟨1, 2⟩ own.out ∧
      full.state.slot ⟨1, 2⟩ = own.state.slot ⟨1, 2⟩ :=
  (stream_isolation ⟨.disabled, [], true⟩ twoStreams ⟨1, 2⟩ (by decide +kernel)).1

end Sankaku
