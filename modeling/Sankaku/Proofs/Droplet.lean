import Sankaku.Proofs.StreamSlot

namespace Sankaku
open Machine

variable {W : Wirehair}

/-- The channels around the receiver work. -/
structure RxEnv.Alive (env : RxEnv) : Prop where
  frameTx : env.frameTxOpen = true
  control : env.controlOpen = true

/-- Such surroundings at an instant, with quinn's datagram limit still unknown. -/
def RxEnv.live (now : Nat) : RxEnv := ⟨now, none, true, true, .ok ()⟩

theorem RxEnv.live_alive (now : Nat) : (RxEnv.live now).Alive := ⟨rfl, rfl⟩

/-- A droplet that passes the checks on its header, and what is left of its
payload. -/
structure Admitted (env : RxEnv) (h : DataHeader) (body payload : Bytes) : Prop where
  totalSize : 0 < h.totalSize.toNat ∧ h.totalSize.toNat ≤ 512 * 1024
  pktSize : 0 < h.pktSize.toNat ∧ h.pktSize.toNat ≤ maxDatagramPayload env
  kind : (VideoPayloadKind.fromHeaderFlag h.kindFlag).isSome
  codec : isSupportedVideoCodec h.codec
  payload : payload = body.take h.pktSize.toNat ∧ payload ≠ []

theorem admitDroplet_iff (env : RxEnv) (h : DataHeader) (body payload : Bytes) :
    admitDroplet env h body = some payload ↔ Admitted env h body payload := by
  have htotal : h.totalSize = 0 ∨ h.totalSize > maxProtectedBlockSize ↔
      ¬ (0 < h.totalSize.toNat ∧ h.totalSize.toNat ≤ 512 * 1024) := by
    have h0 : h.totalSize = 0 ↔ h.totalSize.toNat = 0 := by rw [← UInt32.toNat_inj]; rfl
    have hmax : maxProtectedBlockSize.toNat = 512 * 1024 := rfl
    rw [h0, gt_iff_lt, UInt32.lt_iff_toNat_lt, hmax]
    omega
  have hpkt : h.pktSize = 0 ∨ h.pktSize.toNat > maxDatagramPayload env ↔
      ¬ (0 < h.pktSize.toNat ∧ h.pktSize.toNat ≤ maxDatagramPayload env) := by
    have h0 : h.pktSize = 0 ↔ h.pktSize.toNat = 0 := by rw [← UInt16.toNat_inj]; rfl
    rw [h0]
    omega
  unfold admitDroplet
  rw [if_congr htotal rfl rfl, if_congr hpkt rfl rfl]
  constructor
  · intro ha
    split at ha
    · cases ha
    rename_i ht
    split at ha
    · cases ha
    rename_i hp
    split at ha
    · cases ha
    rename_i hk
    split at ha
    · cases ha
    rename_i hc
    simp only at ha
    split at ha
    · cases ha
    rename_i hl
    cases ha
    refine ⟨not_not.mp ht, not_not.mp hp, Option.isSome_iff_ne_none.mpr hk, by simpa using hc,
      ?_, ?_⟩
    · exact List.take_eq_take_min.symm
    · intro hnil
      have := congrArg List.length hnil
      rw [List.length_take, List.length_nil] at this
      omega
  · intro ⟨ht, hp, hk, hc, hpay, hne⟩
    have hlen : 0 < body.length := by
      rcases Nat.eq_zero_or_pos body.length with h0 | h0
      · rw [List.length_eq_zero_iff.mp h0, List.take_nil] at hpay
        exact absurd hpay hne
      · exact h0
    rw [if_neg (not_not.mpr ht), if_neg (not_not.mpr hp),
      if_neg (Option.isSome_iff_ne_none.mp hk), if_neg (by simp [hc])]
    simp only
    rw [if_neg (by omega), hpay, ← List.take_eq_take_min]

def Output.frame? : Output → Option InboundVideoFrame
  | .frame f => some f
  | _ => none

/-- The frames handed to `frame_tx`, in order. -/
def framesOf (out : List Output) : List InboundVideoFrame := out.filterMap Output.frame?

@[simp] theorem framesOf_nil : framesOf [] = [] := rfl

@[simp] theorem framesOf_append (xs ys : List Output) :
    framesOf (xs ++ ys) = framesOf xs ++ framesOf ys := List.filterMap_append

@[simp] theorem framesOf_cons (x : Output) (xs : List Output) :
    framesOf (x :: xs) = x.frame?.toList ++ framesOf xs := by
  cases x <;> rfl

/-- What a recovered block holds for the packet that completed it: an error, a
frame of another kind than announced, or the frame. -/
def openBlock (h : DataHeader) (block : Bytes) :
    Except String (Option (VideoPayloadKind × FrameEnvelope)) :=
  match (SankakuPipeline.newWithConfig .disabled).restoreFrame block h.streamId h.frameIndex with
  | .error why => .error why
  | .ok (kind, raw) =>
    if kind.asHeaderFlag ≠ h.kindFlag then .ok none
    else
      match FrameEnvelope.deserialize raw with
      | none => .error "Failed to decode frame envelope"
      | some envelope => .ok (some (kind, envelope))

/-- A stream after the loss window took note of a packet. -/
def StreamState.seen (st : StreamState W) (w : LossFeedbackWindow) (r : ℚ) : StreamState W :=
  { st with lossWindow := w, packetLossRatio := r }

def StreamState.withDecoder (st : StreamState W) (d : Option (DecoderState W)) : StreamState W :=
  { st with decoderState := d }

section Fields
variable (st : StreamState W) (w : LossFeedbackWindow) (r : ℚ) (d : Option (DecoderState W))
  (now : Nat) (e : FrameEnvelope)

@[simp] theorem seen_next : (st.seen w r).nextFrameIndex = st.nextFrameIndex := rfl
@[simp] theorem seen_decoder : (st.seen w r).decoderState = st.decoderState := rfl
@[simp] theorem seen_bytes : (st.seen w r).bytesReceived = st.bytesReceived := rfl
@[simp] theorem seen_frames : (st.seen w r).framesReceived = st.framesReceived := rfl
@[simp] theorem withDecoder_next : (st.withDecoder d).nextFrameIndex = st.nextFrameIndex := rfl
@[simp] theorem withDecoder_decoder : (st.withDecoder d).decoderState = d := rfl
@[simp] theorem withDecoder_bytes : (st.withDecoder d).bytesReceived = st.bytesReceived := rfl
@[simp] theorem withDecoder_frames : (st.withDecoder d).framesReceived = st.framesReceived := rfl
@[simp] theorem accept_next :
    (st.accept now e).nextFrameIndex = saturatingAdd64 st.nextFrameIndex 1 := rfl
@[simp] theorem accept_decoder : (st.accept now e).decoderState = st.decoderState := rfl
@[simp] theorem accept_bytes : (st.accept now e).bytesReceived =
    saturatingAdd64 st.bytesReceived (UInt64.ofNat e.payload.length) := rfl
@[simp] theorem accept_frames :
    (st.accept now e).framesReceived = saturatingAdd64 st.framesReceived 1 := rfl

end Fields

/-- The frame a packet with this header delivers. -/
def inboundFrame (sid : UInt64) (h : DataHeader) (ratio : ℚ) (kind : VideoPayloadKind)
    (e : FrameEnvelope) : InboundVideoFrame where
  sessionId := sid
  streamId := h.streamId
  frameIndex := h.frameIndex
  timestampUs := e.timestampUs
  keyframe := e.keyframe
  codec := h.codec
  packetLossRatio := ratio
  kind := kind
  payload := e.payload

/-- Everything a droplet can do. `fb` is the loss report, if one was due, and
`rest` the feedback on a delivered frame. -/
inductive Received (env : RxEnv) (sid : UInt64) (h : DataHeader) (payload : Bytes)
    (st : StreamState W) : Outcome (StreamState W) Output String → Prop
  | unreported (w r) (control : env.controlOpen = false) :
    Received env sid h payload st ⟨st.seen w r, [], some controlTaskGone⟩
  | otherFrame (w r fb) (noFrame : framesOf fb = []) (other : h.frameIndex ≠ st.nextFrameIndex) :
    Received env sid h payload st ⟨st.seen w r, fb, none⟩
  | noDecoder (w r fb) (noFrame : framesOf fb = []) (next : h.frameIndex = st.nextFrameIndex)
    (opened : openDecoder h st = .error e) :
    Received env sid h payload st ⟨(st.seen w r).withDecoder none, fb, some e.display⟩
  | waiting (w r fb) (noFrame : framesOf fb = []) (next : h.frameIndex = st.nextFrameIndex)
    (opened : openDecoder h st = .ok ds)
    (decoded : ds.decoder.decode h.seqId payload = (.ok false, d)) :
    Received env sid h payload st
      ⟨(st.seen w r).withDecoder (some { ds with decoder := d }), fb, none⟩
  | refused (w r fb) (noFrame : framesOf fb = []) (next : h.frameIndex = st.nextFrameIndex)
    (opened : openDecoder h st = .ok ds)
    (decoded : ds.decoder.decode h.seqId payload = (.error e, d)) :
    Received env sid h payload st ⟨(st.seen w r).withDecoder none, fb, none⟩
  | unrecoverable (w r fb) (noFrame : framesOf fb = []) (next : h.frameIndex = st.nextFrameIndex)
    (opened : openDecoder h st = .ok ds)
    (decoded : ds.decoder.decode h.seqId payload = (.ok true, d))
    (recovered : d.recover = .error e) :
    Received env sid h payload st
      ⟨(st.seen w r).withDecoder (some { ds with decoder := d }), fb, some e.display⟩
  | rejected (w r fb) (noFrame : framesOf fb = []) (next : h.frameIndex = st.nextFrameIndex)
    (opened : openDecoder h st = .ok ds)
    (decoded : ds.decoder.decode h.seqId payload = (.ok true, d))
    (recovered : d.recover = .ok block) (malformed : openBlock h block = .error why) :
    Received env sid h payload st ⟨(st.seen w r).withDecoder none, fb, some why⟩
  | otherKind (w r fb) (noFrame : framesOf fb = []) (next : h.frameIndex = st.nextFrameIndex)
    (opened : openDecoder h st = .ok ds)
    (decoded : ds.decoder.decode h.seqId payload = (.ok true, d))
    (recovered : d.recover = .ok block) (announced : openBlock h block = .ok none) :
    Received env sid h payload st ⟨(st.seen w r).withDecoder none, fb, none⟩
  | delivered (w r fb rest err) (noFrame : framesOf fb = []) (noMore : framesOf rest = [])
    (next : h.frameIndex = st.nextFrameIndex) (opened : openDecoder h st = .ok ds)
    (decoded : ds.decoder.decode h.seqId payload = (.ok true, d))
    (recovered : d.recover = .ok block) (content : openBlock h block = .ok (some (kind, e)))
    (control : env.controlOpen = true → err = none) :
    Received env sid h payload st
      ⟨((st.seen w r).withDecoder none).accept env.now e,
        fb ++ .frame (inboundFrame sid h r kind e) :: rest, err⟩

/-- Nothing but loss reports. -/
def OnlyReports (out : List Output) : Prop := ∀ x ∈ out, ∃ p, x = .feedback p

theorem OnlyReports.noFrame (h : OnlyReports out) : framesOf out = [] := by
  apply List.filterMap_eq_nil_iff.mpr
  intro x hx
  obtain ⟨p, rfl⟩ := h x hx
  rfl

theorem OnlyReports.noFec (h : OnlyReports out) : .fecFeedback q ∉ out := by
  intro hq
  obtain ⟨p, hp⟩ := h _ hq
  cases hp

theorem observeLoss_seen (env : RxEnv) (sid : UInt64) (h : DataHeader) (st : StreamState W) :
    (∃ w r, env.controlOpen = false ∧
      observeLoss env sid h st = ⟨st.seen w r, [], some controlTaskGone⟩) ∨
    ∃ w r fb, OnlyReports fb ∧ observeLoss env sid h st = ⟨st.seen w r, fb, none⟩ := by
  unfold observeLoss
  simp only
  split
  · exact .inr ⟨_, st.packetLossRatio, [], fun x hx => absurd hx List.not_mem_nil, rfl⟩
  · cases hc : env.controlOpen with
    | true =>
      refine .inr ⟨_, _, _, fun x hx => ?_, rfl⟩
      exact ⟨_, List.mem_singleton.mp hx⟩
    | false => exact .inl ⟨_, _, rfl, rfl⟩

/-- The decoder at hand after `openDecoder`: the stream's own, or a new one. -/
theorem openDecoder_cases {h : DataHeader} {st : StreamState W} (ho : openDecoder h st = .ok ds) :
    ds.frameIndex = h.frameIndex ∧
    (st.decoderState = some ds ∨
      (st.decoderState.filter (fun d => d.frameIndex = h.frameIndex) = none ∧
        ds.idealPackets = UInt32.ofNat (divCeil h.totalSize.toNat h.pktSize.toNat) ∧
        WirehairDecoder.new W (UInt64.ofNat h.totalSize.toNat) (UInt32.ofNat h.pktSize.toNat) =
          .ok ds.decoder)) := by
  unfold openDecoder at ho
  split at ho
  · rename_i hf
    cases ho
    obtain ⟨hs, hp⟩ := Option.filter_eq_some_iff.mp hf
    exact ⟨by simpa using hp, .inl hs⟩
  · rename_i hf
    split at ho
    · cases ho
    · rename_i decoder hnew
      cases ho
      exact ⟨rfl, .inr ⟨hf, rfl, hnew⟩⟩

theorem openDecoder_seen (h : DataHeader) (st : StreamState W) (w : LossFeedbackWindow) (r : ℚ) :
    openDecoder h (st.seen w r) = openDecoder h st := rfl

theorem deliverFrame_openBlock (env : RxEnv) (p : SankakuPipeline) (sid : UInt64) (h : DataHeader)
    (st : StreamState W) (block : Bytes) (ideal used : UInt32) :
    match openBlock h block with
    | .error why => deliverFrame env p sid h st block ideal used = ⟨st, [], some why⟩
    | .ok none => deliverFrame env p sid h st block ideal used = done st
    | .ok (some (kind, e)) => ∃ rest err, framesOf rest = [] ∧
      (∀ q, .fecFeedback q ∈ rest → q = ⟨sid, h.streamId, h.frameIndex, ideal, used⟩) ∧
      (env.controlOpen = true → err = none) ∧
      deliverFrame env p sid h st block ideal used =
        ⟨st.accept env.now e, .frame (inboundFrame sid h st.packetLossRatio kind e) :: rest, err⟩ := by
  unfold openBlock deliverFrame
  rw [SankakuPipeline.restoreFrame_block (.newWithConfig .disabled) p block h.streamId h.streamId
    h.frameIndex h.frameIndex]
  cases p.restoreFrame block h.streamId h.frameIndex with
  | error why => rfl
  | ok restored =>
    obtain ⟨kind, raw⟩ := restored
    simp only
    by_cases hk : kind.asHeaderFlag ≠ h.kindFlag
    · simp only [if_pos hk]
    · simp only [if_neg hk]
      cases FrameEnvelope.deserialize raw with
      | none => rfl
      | some e =>
        cases hf : env.frameTxOpen with
        | false => exact ⟨[], none, rfl, by simp, fun _ => rfl, rfl⟩
        | true =>
          cases hc : env.controlOpen with
          | false => exact ⟨[], some controlTaskGone, rfl, by simp, by simp, rfl⟩
          | true => exact ⟨_, none, rfl, by simp, fun _ => rfl, rfl⟩

/-- What comes of a droplet that is passed to the decoder `ds`. `seen` is the
stream after the loss window took note, `fb` the loss report, if one was due. -/
inductive Decoded (env : RxEnv) (sid : UInt64) (h : DataHeader) (payload : Bytes)
    (seen : StreamState W) (fb : List Output) (ds : DecoderState W) :
    Outcome (StreamState W) Output String → Prop
  | waiting (decoded : ds.decoder.decode h.seqId payload = (.ok false, d)) :
    Decoded env sid h payload seen fb ds
      ⟨seen.withDecoder (some { ds with decoder := d }), fb, none⟩
  | refused (decoded : ds.decoder.decode h.seqId payload = (.error e, d)) :
    Decoded env sid h payload seen fb ds ⟨seen.withDecoder none, fb, none⟩
  | unrecoverable (decoded : ds.decoder.decode h.seqId payload = (.ok true, d))
    (recovered : d.recover = .error e) :
    Decoded env sid h payload seen fb ds
      ⟨seen.withDecoder (some { ds with decoder := d }), fb, some e.display⟩
  | rejected (decoded : ds.decoder.decode h.seqId payload = (.ok true, d))
    (recovered : d.recover = .ok block) (malformed : openBlock h block = .error why) :
    Decoded env sid h payload seen fb ds ⟨seen.withDecoder none, fb, some why⟩
  | otherKind (decoded : ds.decoder.decode h.seqId payload = (.ok true, d))
    (recovered : d.recover = .ok block) (announced : openBlock h block = .ok none) :
    Decoded env sid h payload seen fb ds ⟨seen.withDecoder none, fb, none⟩
  | delivered (rest err) (noMore : framesOf rest = [])
    (feedback : ∀ q, .fecFeedback q ∈ rest →
      q = ⟨sid, h.streamId, h.frameIndex, ds.idealPackets, saturatingAdd32 h.seqId 1⟩)
    (decoded : ds.decoder.decode h.seqId payload = (.ok true, d))
    (recovered : d.recover = .ok block) (content : openBlock h block = .ok (some (kind, e)))
    (control : env.controlOpen = true → err = none) :
    Decoded env sid h payload seen fb ds
      ⟨(seen.withDecoder none).accept env.now e,
        fb ++ .frame (inboundFrame sid h seen.packetLossRatio kind e) :: rest, err⟩

theorem receiveDroplet_decoded (p : SankakuPipeline) (payload : Bytes) {env : RxEnv}
    {st : StreamState W} (observed : observeLoss env sid h st = ⟨st.seen w r, fb, none⟩)
    (next : h.frameIndex = st.nextFrameIndex) (opened : openDecoder h st = .ok ds) :
    Decoded env sid h payload (st.seen w r) fb ds (receiveDroplet env p sid h payload st) := by
  unfold receiveDroplet
  rw [observed]
  simp only [feedDecoder, seen_next, openDecoder_seen, next, not_true_eq_false, ne_eq, ↓reduceIte,
    opened]
  cases hd : ds.decoder.decode h.seqId payload with
  | mk verdict d =>
  cases verdict with
  | error e =>
    simp only [done, List.append_nil]
    exact .refused hd
  | ok complete =>
  cases complete with
  | false =>
    simp only [done, List.append_nil]
    exact .waiting hd
  | true =>
  simp only
  cases hrec : d.recover with
  | error e =>
    simp only [List.append_nil]
    exact .unrecoverable hd hrec
  | ok block =>
    have hblock := deliverFrame_openBlock env p sid h ((st.seen w r).withDecoder none) block
      ds.idealPackets (saturatingAdd32 h.seqId 1)
    change Decoded env sid h payload (st.seen w r) fb ds
      { deliverFrame env p sid h ((st.seen w r).withDecoder none) block ds.idealPackets
          (saturatingAdd32 h.seqId 1) with
        out := fb ++ (deliverFrame env p sid h ((st.seen w r).withDecoder none) block
          ds.idealPackets (saturatingAdd32 h.seqId 1)).out }
    cases hb : openBlock h block with
    | error why =>
      simp only [hb] at hblock
      simp only [hblock, List.append_nil]
      exact .rejected hd hrec hb
    | ok content =>
      cases content with
      | none =>
        simp only [hb] at hblock
        simp only [hblock, done, List.append_nil]
        exact .otherKind hd hrec hb
      | some content =>
        simp only [hb] at hblock
        obtain ⟨rest, err, hrest, hfec, herr, hd'⟩ := hblock
        simp only [hd']
        exact .delivered rest err hrest hfec hd hrec hb herr

/-- The inversion lemma of the droplet handler. -/
theorem receiveDroplet_cases (env : RxEnv) (p : SankakuPipeline) (sid : UInt64) (h : DataHeader)
    (payload : Bytes) (st : StreamState W) :
    Received env sid h payload st (receiveDroplet env p sid h payload st) := by
  rcases observeLoss_seen env sid h st with ⟨w, r, hc, ho⟩ | ⟨w, r, fb, hfb, ho⟩
  · unfold receiveDroplet
    rw [ho]
    exact .unreported w r hc
  by_cases hnext : h.frameIndex = st.nextFrameIndex
  case neg =>
    unfold receiveDroplet
    rw [ho]
    simp only [feedDecoder, seen_next, ne_eq, hnext, not_false_eq_true, ↓reduceIte, done,
      List.append_nil]
    exact .otherFrame w r fb hfb.noFrame hnext
  cases hopen : openDecoder h st with
  | error e =>
    unfold receiveDroplet
    rw [ho]
    simp only [feedDecoder, seen_next, ne_eq, hnext, not_true_eq_false, ↓reduceIte,
      openDecoder_seen, hopen, List.append_nil]
    exact .noDecoder w r fb hfb.noFrame hnext hopen
  | ok ds =>
    have hdecoded := receiveDroplet_decoded p payload ho hnext hopen
    generalize receiveDroplet env p sid h payload st = o at hdecoded
    cases hdecoded with
    | waiting hd => exact .waiting w r fb hfb.noFrame hnext hopen hd
    | refused hd => exact .refused w r fb hfb.noFrame hnext hopen hd
    | unrecoverable hd hrec => exact .unrecoverable w r fb hfb.noFrame hnext hopen hd hrec
    | rejected hd hrec hb => exact .rejected w r fb hfb.noFrame hnext hopen hd hrec hb
    | otherKind hd hrec hb => exact .otherKind w r fb hfb.noFrame hnext hopen hd hrec hb
    | delivered rest err hrest hfec hd hrec hb herr =>
      exact .delivered w r fb rest err hfb.noFrame hrest hnext hopen hd hrec hb herr

section Outcomes
variable {env : RxEnv} {sid : UInt64} {h : DataHeader} {payload : Bytes} {st : StreamState W}
  {o : Outcome (StreamState W) Output String}

/-- A droplet of another frame than the next is only counted. -/
theorem Received.ignores (hr : Received env sid h payload st o)
    (other : h.frameIndex ≠ st.nextFrameIndex) :
    framesOf o.out = [] ∧ ∃ w r, o.state = st.seen w r := by
  cases hr with
  | unreported w r control => exact ⟨rfl, w, r, rfl⟩
  | otherFrame w r fb noFrame _ => exact ⟨noFrame, w, r, rfl⟩
  | _ => exact absurd ‹h.frameIndex = st.nextFrameIndex› other

/-- A droplet the decoder asks to go on after stays with the decoder. -/
theorem Received.waits (hr : Received env sid h payload st o) (control : env.controlOpen = true)
    (next : h.frameIndex = st.nextFrameIndex) (opened : openDecoder h st = .ok ds)
    (decoded : ds.decoder.decode h.seqId payload = (.ok false, d)) :
    framesOf o.out = [] ∧
      ∃ w r, o.state = (st.seen w r).withDecoder (some { ds with decoder := d }) := by
  cases hr with
  | unreported w r closed => rw [control] at closed; cases closed
  | otherFrame w r fb noFrame other => exact absurd next other
  | noDecoder w r fb noFrame _ opened' => cases opened.symm.trans opened'
  | waiting w r fb noFrame _ opened' decoded' =>
    cases opened.symm.trans opened'
    cases decoded.symm.trans decoded'
    exact ⟨noFrame, w, r, rfl⟩
  | refused w r fb noFrame _ opened' decoded' =>
    cases opened.symm.trans opened'
    cases decoded.symm.trans decoded'
  | unrecoverable w r fb noFrame _ opened' decoded' =>
    cases opened.symm.trans opened'
    cases decoded.symm.trans decoded'
  | rejected w r fb noFrame _ opened' decoded' =>
    cases opened.symm.trans opened'
    cases decoded.symm.trans decoded'
  | otherKind w r fb noFrame _ opened' decoded' =>
    cases opened.symm.trans opened'
    cases decoded.symm.trans decoded'
  | delivered w r fb rest err noFrame noMore _ opened' decoded' =>
    cases opened.symm.trans opened'
    cases decoded.symm.trans decoded'

/-- A droplet that completes a block with a frame hands the frame over. -/
theorem Received.delivers (hr : Received env sid h payload st o) (control : env.controlOpen = true)
    (next : h.frameIndex = st.nextFrameIndex) (opened : openDecoder h st = .ok ds)
    (decoded : ds.decoder.decode h.seqId payload = (.ok true, d)) (recovered : d.recover = .ok block)
    (content : openBlock h block = .ok (some (kind, e))) :
    ∃ w r, framesOf o.out = [inboundFrame sid h r kind e] ∧
      o.state = ((st.seen w r).withDecoder none).accept env.now e := by
  cases hr with
  | unreported w r closed => rw [control] at closed; cases closed
  | otherFrame w r fb noFrame other => exact absurd next other
  | noDecoder w r fb noFrame _ opened' => cases opened.symm.trans opened'
  | waiting w r fb noFrame _ opened' decoded' =>
    cases opened.symm.trans opened'
    cases decoded.symm.trans decoded'
  | refused w r fb noFrame _ opened' decoded' =>
    cases opened.symm.trans opened'
    cases decoded.symm.trans decoded'
  | unrecoverable w r fb noFrame _ opened' decoded' recovered' =>
    cases opened.symm.trans opened'
    cases decoded.symm.trans decoded'
    cases recovered.symm.trans recovered'
  | rejected w r fb noFrame _ opened' decoded' recovered' malformed =>
    cases opened.symm.trans opened'
    cases decoded.symm.trans decoded'
    cases recovered.symm.trans recovered'
    cases content.symm.trans malformed
  | otherKind w r fb noFrame _ opened' decoded' recovered' announced =>
    cases opened.symm.trans opened'
    cases decoded.symm.trans decoded'
    cases recovered.symm.trans recovered'
    cases content.symm.trans announced
  | delivered w r fb rest err noFrame noMore _ opened' decoded' recovered' content' =>
    cases opened.symm.trans opened'
    cases decoded.symm.trans decoded'
    cases recovered.symm.trans recovered'
    cases content.symm.trans content'
    exact ⟨w, r, by simp [noFrame, noMore, Output.frame?], rfl⟩

end Outcomes

end Sankaku
