import Sankaku.Proofs.Feeding
import Sankaku.Proofs.RepetitionWirehair

namespace Sankaku
open Machine Erasure

variable {W : Wirehair}

/-- A decoder made for this geometry that has been given these droplets, and perhaps
others after them, whatever it answered to those. -/
structure DecoderState.Holds (ds : DecoderState W) (g : Geometry) (xs : List (UInt32 × Bytes)) :
    Prop where
  messageSize : ds.decoder.messageSize = g.messageBytes
  packetSize : ds.decoder.packetSize = g.blockBytes
  given : ∃ d₀ ys, W.code.create g = some d₀ ∧ xs <+: ys ∧ W.code.takeAll d₀ ys = ds.decoder.inner

theorem DecoderState.Taken.holds {ds : DecoderState W} (h : ds.Taken g xs) : ds.Holds g xs := by
  obtain ⟨d₀, hcreate, hfeed⟩ := h.fed
  exact ⟨h.messageSize, h.packetSize, d₀, xs, hcreate, List.prefix_refl xs,
    W.code.takeAll_of_feed hfeed⟩

/-- Any answer but an error leaves the droplets where they are. -/
theorem DecoderState.Taken.holds_more {ds : DecoderState W} (h : ds.Taken g xs)
    (decoded : ds.decoder.decode seqId data = (.ok complete, d)) :
    ({ ds with decoder := d } : DecoderState W).Holds g xs := by
  obtain ⟨d₀, hcreate, hfeed⟩ := h.fed
  obtain ⟨hverdict, hmessage, hpacket⟩ := decode_verdict decoded
  refine ⟨hmessage.trans h.messageSize, hpacket.trans h.packetSize, d₀, xs ++ [(seqId, data)],
    hcreate, List.prefix_append _ _, ?_⟩
  rw [Code.takeAll_append, W.code.takeAll_of_feed hfeed, Code.takeAll, List.foldl_cons, hverdict]
  rfl

/-- The droplet is refused by the decoder's `decode()`. -/
def DecoderState.Refuses (ds : DecoderState W) (a : AdmittedDroplet) : Prop :=
  ∃ e d, ds.decoder.decode a.header.seqId a.payload = (.error e, d)

theorem accepted_not_refused {ds : DecoderState W} {a : AdmittedDroplet}
    (decoded : ds.decoder.decode a.header.seqId a.payload = (.ok complete, d)) :
    ¬ ds.Refuses a := by
  rintro ⟨e, d', hrefused⟩
  rw [decoded] at hrefused
  cases hrefused

/-- The decoder was given this droplet before. -/
def Fed.Has (fed : Fed) (a : AdmittedDroplet) : Prop :=
  a.symbol ∈ fed.map AdmittedDroplet.symbol

/-- What becomes of the decoder `ds`, which took the notes: its frame is handed over,
or a decoder of this frame still holds everything; and a droplet that is refused or
repeated changes nothing. -/
structure ProgressKept (ds : DecoderState W) (fed : Fed) (arrived : Option AdmittedDroplet)
    (after : StreamState W) (out : List Output) : Prop where
  held : (∃ f ∈ framesOf out, f.frameIndex = ds.frameIndex) ∨
    ∃ ds', after.decoderState = some ds' ∧ ds'.frameIndex = ds.frameIndex ∧
      ∃ opener ∈ fed.head?, ds'.Holds opener.header.geometry (fed.map AdmittedDroplet.symbol)
  unchanged : ∀ a, arrived = some a → a.header.frameIndex = ds.frameIndex →
    ds.Refuses a ∨ fed.Has a → after.decoderState = some ds

/-- The droplet is not refused; if it completes the block, a frame of the announced
kind comes out; and the codec is not changed by a repetition. -/
def DecoderState.Harmless (ds : DecoderState W) (fed : Fed) (a : AdmittedDroplet) : Prop :=
  match ds.decoder.decode a.header.seqId a.payload with
  | (.error _, _) => False
  | (.ok false, d) => fed.Has a → d = ds.decoder
  | (.ok true, d) =>
    match d.recover with
    | .error _ => fed.Has a → d = ds.decoder
    | .ok block => ¬ fed.Has a ∧ ∃ content, openBlock a.header block = .ok (some content)

/-- A decoder that is kept, whatever it answered. -/
theorem StreamState.Collects.kept_decoder {st : StreamState W} {a : AdmittedDroplet}
    (h : st.Collects fed) (opened : st.decoderState = some ds) (out : List Output)
    (decoded : ds.decoder.decode a.header.seqId a.payload = (.ok complete, d))
    (next : a.header.frameIndex = ds.frameIndex) (seen : StreamState W) :
    ProgressKept ds fed (some a) (seen.withDecoder (some { ds with decoder := d })) out ↔
      (fed.Has a → d = ds.decoder) := by
  constructor
  · intro hkept hrepeated
    have hsame := hkept.unchanged a rfl next (.inr hrepeated)
    exact congrArg DecoderState.decoder (Option.some.inj hsame)
  · intro hrepeated
    constructor
    · obtain ⟨opener, hhead, hcollects⟩ := h.notes ds opened
      exact .inr ⟨_, rfl, rfl, opener, hhead, hcollects.taken.holds_more decoded⟩
    · intro b hb _ hcause
      cases hb
      rcases hcause with hrefused | hagain
      · exact absurd hrefused (accepted_not_refused decoded)
      · rw [withDecoder_decoder, hrepeated hagain]

/-- A decoder that is gone without a frame. -/
theorem progress_lost (quiet : OnlyReports fb) (seen : StreamState W)
    (arrived : Option AdmittedDroplet) :
    ¬ ProgressKept ds fed arrived (seen.withDecoder none) fb := by
  intro hkept
  rcases hkept.held with ⟨f, hf, _⟩ | ⟨ds', hds', _⟩
  · rw [quiet.noFrame] at hf
    cases hf
  · cases hds'

/-- One droplet passed to the decoder. -/
theorem StreamState.Collects.kept_iff {st : StreamState W} {a : AdmittedDroplet}
    (h : st.Collects fed) (R : SankakuReceiver) (opened : st.decoderState = some ds)
    (passed : st.decoderFor a = some ds) :
    ProgressKept ds fed (some a) (a.received R st).state (a.received R st).out ↔
      ds.Harmless fed a := by
  obtain ⟨w, r, fb, hquiet, hdecoded⟩ := received_decoded R passed
  have hframe := (openDecoder_cases (decoderFor_opened passed).2.2).1.symm
  unfold DecoderState.Harmless
  generalize a.received R st = o at hdecoded
  cases hdecoded with
  | waiting decoded =>
    rw [decoded]
    exact h.kept_decoder opened fb decoded hframe _
  | refused decoded =>
    rw [decoded]
    exact iff_of_false (progress_lost hquiet _ _) id
  | unrecoverable decoded recovered =>
    rw [decoded]
    simp only [recovered]
    exact h.kept_decoder opened fb decoded hframe _
  | rejected decoded recovered malformed =>
    rw [decoded]
    simp only [recovered, malformed]
    refine iff_of_false (progress_lost hquiet _ _) ?_
    rintro ⟨_, content, hcontent⟩
    cases hcontent
  | otherKind decoded recovered announced =>
    rw [decoded]
    simp only [recovered, announced]
    refine iff_of_false (progress_lost hquiet _ _) ?_
    rintro ⟨_, content, hcontent⟩
    cases hcontent
  | delivered rest err noMore feedback decoded recovered content control =>
    rw [decoded]
    simp only [recovered, content]
    constructor
    · intro hkept
      refine ⟨fun hagain => ?_, _, rfl⟩
      have hsame := hkept.unchanged a rfl hframe (.inr hagain)
      cases hsame
    · rintro ⟨hfresh, _⟩
      have hhanded : ∀ f, f ∈ framesOf (fb ++ .frame f :: rest) := by
        intro f
        rw [framesOf_append, framesOf_cons]
        exact List.mem_append_right _ (List.mem_append_left _ (List.mem_singleton.mpr rfl))
      constructor
      · exact .inl ⟨_, hhanded _, hframe⟩
      · intro b hb _ hcause
        cases hb
        rcases hcause with hrefused | hagain
        · exact absurd hrefused (accepted_not_refused decoded)
        · exact absurd hagain hfresh

/-- Every packet that leaves the decoder alone keeps its progress. -/
theorem StreamState.Collects.left_alone {st after : StreamState W} (h : st.Collects fed)
    (opened : st.decoderState = some ds) (same : after.decoderState = st.decoderState)
    (arrived : Option AdmittedDroplet) (out : List Output) :
    ProgressKept ds fed arrived after out := by
  have hsame := same.trans opened
  constructor
  · obtain ⟨opener, hhead, hcollects⟩ := h.notes ds opened
    exact .inr ⟨ds, hsame, rfl, opener, hhead, hcollects.taken.holds⟩
  · intro a _ _ _
    exact hsame

/-- A datagram throws nothing away that a stream's decoder has accepted. -/
def KeepsProgress (R : SankakuReceiver) (k : StreamKey) (s : Fed × ReceiverRuntime W)
    (i : RxInput) : Prop :=
  i.isControl = false → ∀ ds, (s.2.slot k).state.decoderState = some ds →
    ProgressKept ds s.1 (s.2.incoming k i) ((mediaStep R s.2 i).state.slot k).state
      ((mediaStep R s.2 i).out.filter (reads k))

/-- A droplet that is passed to the open decoder is harmless to it. -/
def HarmlessToDecoder (k : StreamKey) (s : Fed × ReceiverRuntime W) (i : RxInput) : Prop :=
  ∀ a, s.2.incoming k i = some a → ∀ ds, (s.2.slot k).state.decoderState = some ds →
    (s.2.slot k).state.decoderFor a = some ds → ds.Harmless s.1 a

theorem keepsProgress_iff (R : SankakuReceiver) (k : StreamKey) (s : Fed × ReceiverRuntime W)
    (i : RxInput) (h : (s.2.slot k).state.Collects s.1) :
    KeepsProgress R k s i ↔ HarmlessToDecoder k s i := by
  obtain ⟨fed, rt⟩ := s
  unfold KeepsProgress HarmlessToDecoder
  simp only at h ⊢
  cases hin : rt.incoming k i with
  | none =>
    refine iff_of_true ?_ (fun a ha => by cases ha)
    intro hdatagram ds hds
    obtain ⟨_, hstate | ⟨hcontrol, _⟩⟩ := mediaStep_other R hin
    · exact h.left_alone hds (by rw [hstate]) _ _
    · rw [hdatagram] at hcontrol
      cases hcontrol
  | some a =>
    obtain ⟨hstate, hout, _⟩ := mediaStep_incoming R hin
    have hdatagram : i.isControl = false := by
      obtain ⟨_, packet, _, hi, _⟩ := incoming_spec hin
      rw [hi]
      rfl
    rw [hstate, hout, Slot.state_some]
    cases hpassed : (rt.slot k).state.decoderFor a with
    | none =>
      refine iff_of_true ?_ (fun b hb ds _ hno => ?_)
      · intro _ ds hds
        obtain ⟨_, w, r, hseen | ⟨_, hnext, hnone⟩⟩ := received_other R hpassed
        · exact h.left_alone hds (by rw [hseen, seen_decoder]) _ _
        · rw [h.filter hnext, hds] at hnone
          cases hnone
      · cases hb
        rw [hpassed] at hno
        cases hno
    | some ds =>
      constructor
      · intro hkept b hb ds' hds' _
        cases hb
        obtain rfl := h.open_eq hpassed hds'
        exact (h.kept_iff R hds' hpassed).mp (hkept hdatagram ds' hds')
      · intro hharmless _ ds' hds'
        obtain rfl := h.open_eq hpassed hds'
        exact (h.kept_iff R hds' hpassed).mpr (hharmless a rfl ds' hds' hpassed)

/-- In a run every datagram keeps the progress made on a stream, if and only if every
droplet passed to an open decoder is harmless to it. -/
theorem progress_kept_iff (R : SankakuReceiver) (k : StreamKey) (inputs : List RxInput) :
    Along (feedingStep (W := W) R k) (KeepsProgress R k) ([], .default W) inputs ↔
      Along (feedingStep R k) (HarmlessToDecoder k) ([], .default W) inputs := by
  apply Along.congr (fun s : Fed × ReceiverRuntime W => (s.2.slot k).state.Collects s.1)
  · intro s i h _ hok
    exact feedingStep_collects R k s i h hok
  · intro s i h
    exact keepsProgress_iff R k s i h
  · exact .empty rfl

/-- The repetition code behind the length checks of `Codec::DecodeFeed`: a block that
is not the last original one comes whole, and a call refused changes nothing. -/
def Wirehair.lengthChecked : Wirehair :=
  { Wirehair.repetition with
    decode d blockId data :=
      let fits : Bool :=
        if blockId.toNat + 1 = d.shape.count then
          d.shape.chunkLen (d.shape.count - 1) ≤ data.length
        else data.length = d.shape.width
      if fits then Wirehair.repetition.decode d blockId data else (.invalidInput, d) }

/-- A droplet of a frame of three blocks of nine bytes, perhaps cut short. -/
def dropletOfThree (seqId : UInt32) (size : Nat) : RxInput :=
  .datagram (.live 0)
    (dataDatagram 1 ⟨2, 0, seqId, 27, 9, 0, videoCodecHevc⟩ (List.replicate size 0))

/-- The first droplet is accepted. The second, of five bytes, is refused and takes
the first one with it. -/
theorem refusal_drops_decoder :
    ¬ Along (feedingStep ⟨.disabled, [], true⟩ ⟨1, 2⟩) (KeepsProgress ⟨.disabled, [], true⟩ ⟨1, 2⟩)
      ([], .default .lengthChecked) [dropletOfThree 0 9, dropletOfThree 1 5] := by
  intro h
  let R : SankakuReceiver := ⟨.disabled, [], true⟩
  let rt := (mediaStep R (.default .lengthChecked) (dropletOfThree 0 9)).state
  obtain ⟨hkept, _⟩ := h.2 (by decide +kernel)
  have hopen : ((rt.slot ⟨1, 2⟩).state.decoderState).isSome := by decide +kernel
  obtain ⟨ds, hds⟩ := Option.isSome_iff_exists.mp hopen
  have hgone : (((mediaStep R rt (dropletOfThree 1 5)).state.slot
      ⟨1, 2⟩).state.decoderState).isNone := by decide +kernel
  have hsilent : framesOf ((mediaStep R rt (dropletOfThree 1 5)).out.filter
      (reads ⟨1, 2⟩)) = [] := by decide +kernel
  rcases (hkept rfl ds hds).held with ⟨f, hf, _⟩ | ⟨ds', hds', _⟩
  · change f ∈ framesOf ((mediaStep R rt (dropletOfThree 1 5)).out.filter (reads ⟨1, 2⟩)) at hf
    rw [hsilent] at hf
    cases hf
  · change (((mediaStep R rt (dropletOfThree 1 5)).state.slot ⟨1, 2⟩).state.decoderState) =
      some ds' at hds'
    rw [hds'] at hgone
    cases hgone

end Sankaku
