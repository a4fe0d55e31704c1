import Sankaku.Proofs.Decoding
import Sankaku.Proofs.StreamInvariant
import Sankaku.Proofs.WirehairMeets

namespace Sankaku
open Machine

variable {P : Platform} {E : Elimination}

/-- The codec behind the decoder has no undefined behaviour behind it. -/
def WirehairDecoder.Defined (d : WirehairDecoder (wirehairCodec P E)) : Prop :=
  ∃ c : Codec E, d.inner = some c

/-- And none before it: there are fewer rows than blocks, or the elimination has
begun. -/
def WirehairDecoder.Usable (d : WirehairDecoder (wirehairCodec P E)) : Prop :=
  ∃ c : Codec E, d.inner = some c ∧ c.Usable P d.messageSize d.packetSize

theorem WirehairDecoder.Usable.defined {d : WirehairDecoder (wirehairCodec P E)}
    (h : d.Usable) : d.Defined := by
  obtain ⟨c, hc, _⟩ := h
  exact ⟨c, hc⟩

theorem decoder_new_usable {d : WirehairDecoder (wirehairCodec P E)}
    (h : WirehairDecoder.new (wirehairCodec P E) m b = .ok d) : d.Usable := by
  obtain ⟨hcreate, rfl, rfl⟩ := decoder_new_ok h
  obtain ⟨c, hc, husable, _⟩ := decoderCreate_usable hcreate
  exact ⟨c, hc, husable⟩

/-- A packet a decoder asks for more after leaves it usable, a last one defined. -/
theorem WirehairDecoder.Usable.decode {d d' : WirehairDecoder (wirehairCodec P E)} (h : d.Usable)
    (hd : d.decode seqId data = (.ok complete, d')) : d'.Defined ∧ (complete = false → d'.Usable) := by
  obtain ⟨c, hc, husable⟩ := h
  obtain ⟨hverdict, hm, hp⟩ := decode_verdict hd
  obtain ⟨result, c', hstep, _, _, hmore, _⟩ := decode_spec husable seqId data
  rw [hc] at hverdict
  have hpair : (result.verdict, some c') =
      (if complete then Erasure.Verdict.success else .needMore, d'.inner) :=
    (congrArg (fun r => (WirehairResult.verdict r.1, r.2)) hstep).symm.trans hverdict
  obtain ⟨hresult, hinner⟩ := Prod.mk.inj hpair
  refine ⟨⟨c', hinner.symm⟩, ?_⟩
  rintro rfl
  rw [WirehairDecoder.Usable, hm, hp]
  exact ⟨c', hinner.symm, hmore (verdict_needMore hresult)⟩

/-- What holds of the decoder of a stream, if it has one. -/
def StreamState.All (p : WirehairDecoder (wirehairCodec P E) → Prop)
    (st : StreamState (wirehairCodec P E)) : Prop :=
  ∀ ds, st.decoderState = some ds → p ds.decoder

theorem StreamState.All.none {p : WirehairDecoder (wirehairCodec P E) → Prop}
    {st : StreamState (wirehairCodec P E)} (h : st.decoderState = none) : st.All p := fun ds hds => by
  rw [h] at hds
  cases hds

theorem StreamState.All.defined {st : StreamState (wirehairCodec P E)}
    (h : st.All WirehairDecoder.Usable) : st.All WirehairDecoder.Defined :=
  fun ds hds => (h ds hds).defined

theorem openDecoder_usable {st : StreamState (wirehairCodec P E)}
    (hst : st.All WirehairDecoder.Usable) (ho : openDecoder h st = .ok ds) : ds.decoder.Usable := by
  obtain ⟨_, hold | ⟨_, _, hnew⟩⟩ := openDecoder_cases ho
  · exact hst ds hold
  · exact decoder_new_usable hnew

/-- One droplet. Only where the loop ends may a decoder be left that is complete. -/
theorem Received.usable {st : StreamState (wirehairCodec P E)}
    (hr : Received env sid h payload st o) (hst : st.All WirehairDecoder.Usable) :
    o.state.All WirehairDecoder.Defined ∧
      (o.error = none → o.state.All WirehairDecoder.Usable) := by
  cases hr with
  | unreported w r control => exact ⟨hst.defined, nofun⟩
  | otherFrame w r fb noFrame other => exact ⟨hst.defined, fun _ => hst⟩
  | noDecoder w r fb noFrame next opened => exact ⟨.none rfl, nofun⟩
  | waiting w r fb noFrame next opened decoded =>
    obtain ⟨_, husable⟩ := (openDecoder_usable hst opened).decode decoded
    refine ⟨fun ds hds => ?_, fun _ ds hds => ?_⟩
    · cases hds
      exact (husable rfl).defined
    · cases hds
      exact husable rfl
  | refused w r fb noFrame next opened decoded => exact ⟨.none rfl, fun _ => .none rfl⟩
  | unrecoverable w r fb noFrame next opened decoded recovered =>
    obtain ⟨hdefined, _⟩ := (openDecoder_usable hst opened).decode decoded
    refine ⟨fun ds hds => ?_, nofun⟩
    cases hds
    exact hdefined
  | rejected w r fb noFrame next opened decoded recovered malformed =>
    exact ⟨.none rfl, fun _ => .none rfl⟩
  | otherKind w r fb noFrame next opened decoded recovered announced =>
    exact ⟨.none rfl, fun _ => .none rfl⟩
  | delivered w r fb rest err noFrame noMore next opened decoded recovered content control =>
    exact ⟨.none rfl, fun _ => .none rfl⟩

def Slot.All (p : WirehairDecoder (wirehairCodec P E) → Prop) (slot : Slot (wirehairCodec P E)) :
    Prop :=
  ∀ context, slot = some context → context.state.All p

theorem Slot.All.defined {slot : Slot (wirehairCodec P E)} (h : slot.All WirehairDecoder.Usable) :
    slot.All WirehairDecoder.Defined := fun context hcontext => (h context hcontext).defined

/-- After a step: defined, and usable where the loop goes on. -/
def Slot.Sane (o : Outcome (Slot (wirehairCodec P E)) Output String) : Prop :=
  o.state.All WirehairDecoder.Defined ∧ (o.error = none → o.state.All WirehairDecoder.Usable)

theorem Slot.All.sane {slot : Slot (wirehairCodec P E)} (h : slot.All WirehairDecoder.Usable)
    (out : List Output) (e : Option String) : Slot.Sane ⟨slot, out, e⟩ :=
  ⟨h.defined, fun _ => h⟩

theorem Slot.All.vacant (p : WirehairDecoder (wirehairCodec P E) → Prop) :
    Slot.All p none := fun _ h => nomatch h

theorem slotDroplet_sane (R : SankakuReceiver) {slot : Slot (wirehairCodec P E)}
    (hs : slot.All WirehairDecoder.Usable) (env : RxEnv) (sid : UInt64) (h : DataHeader)
    (payload : Bytes) : Slot.Sane (slotDroplet R env sid h payload slot) := by
  have hsome : ∀ st : StreamState (wirehairCodec P E), st.All WirehairDecoder.Usable →
      let o := receiveDroplet env R.buildReceiverPipeline sid h payload st
      Slot.Sane ⟨some ⟨.video, o.state⟩, o.out, o.error⟩ := by
    intro st hst o
    obtain ⟨hdefined, husable⟩ :=
      (receiveDroplet_cases env R.buildReceiverPipeline sid h payload st).usable hst
    refine ⟨fun context hcontext => ?_, fun herror context hcontext => ?_⟩
    · cases hcontext
      exact hdefined
    · cases hcontext
      exact husable herror
  unfold slotDroplet
  split
  · rename_i context
    split
    · exact hs.sane _ _
    · exact hsome context.state (hs context rfl)
  · exact hsome _ (.none rfl)

theorem slotStep_sane (R : SankakuReceiver) {slot : Slot (wirehairCodec P E)}
    (hs : slot.All WirehairDecoder.Usable) (i : RxInput) : Slot.Sane (slotStep R slot i) := by
  cases i with
  | control env packet =>
    simp only [slotStep]
    split
    · unfold slotFin
      split
      · exact hs.sane _ _
      · split <;> exact (Slot.All.vacant _).sane _ _
    · exact hs.sane _ _
  | datagram env packet =>
    simp only [slotStep]
    split
    · unfold slotData
      split
      · exact hs.sane _ _
      · split
        · exact hs.sane _ _
        · exact slotDroplet_sane R hs env _ _ _
    · unfold slotAudio
      split
      · exact hs.sane _ _
      split
      · exact hs.sane _ _
      · refine Slot.All.sane (fun context hcontext => ?_) _ _
        cases slot with
        | none =>
          cases hcontext
          exact .none rfl
        | some old =>
          cases hcontext
          exact hs old rfl
    · exact hs.sane _ _

theorem mediaStep_sane (R : SankakuReceiver) (k : StreamKey)
    {rt : ReceiverRuntime (wirehairCodec P E)} (hs : (rt.slot k).All WirehairDecoder.Usable)
    (i : RxInput) :
    ((mediaStep R rt i).state.slot k).All WirehairDecoder.Defined ∧
      ((mediaStep R rt i).error = none →
        ((mediaStep R rt i).state.slot k).All WirehairDecoder.Usable) := by
  have component := stream_component (W := wirehairCodec P E) R k
  cases hc : concerns k i with
  | false =>
    obtain ⟨hslot, _⟩ := component.others rt i hc
    rw [hslot]
    exact ⟨hs.defined, fun _ => hs⟩
  | true =>
    obtain ⟨hslot, _, herror⟩ := component.own rt i hc
    rw [hslot, herror]
    exact slotStep_sane R hs i

theorem runMediaLoop_sane (R : SankakuReceiver) (k : StreamKey) (inputs : List RxInput)
    {rt : ReceiverRuntime (wirehairCodec P E)} (hs : (rt.slot k).All WirehairDecoder.Usable) :
    ((runMediaLoop R rt inputs).state.slot k).All WirehairDecoder.Defined ∧
      ((runMediaLoop R rt inputs).error = none →
        ((runMediaLoop R rt inputs).state.slot k).All WirehairDecoder.Usable) := by
  induction inputs generalizing rt with
  | nil => exact ⟨hs.defined, fun _ => hs⟩
  | cons i is ih =>
    obtain ⟨hdefined, husable⟩ := mediaStep_sane R k hs i
    simp only [runMediaLoop]
    cases he : (mediaStep R rt i).error with
    | some e =>
      rw [run_cons_error he]
      exact ⟨hdefined, husable⟩
    | none =>
      rw [run_cons_ok he]
      exact ih (husable he)

/-- After any run of the media loop no call of `wirehair_decode` was undefined, and
while the loop runs the next one will not be either. -/
theorem media_loop_defined (P : Platform) (E : Elimination) (R : SankakuReceiver)
    (inputs : List RxInput) (k : StreamKey) :
    ((runMediaLoop R (.default (wirehairCodec P E)) inputs).state.slot k).All
        WirehairDecoder.Defined ∧
      ((runMediaLoop R (.default (wirehairCodec P E)) inputs).error = none →
        ((runMediaLoop R (.default (wirehairCodec P E)) inputs).state.slot k).All
          WirehairDecoder.Usable) :=
  runMediaLoop_sane R k inputs (Slot.All.vacant _)

end Sankaku
