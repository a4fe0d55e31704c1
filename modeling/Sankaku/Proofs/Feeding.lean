import Sankaku.Proofs.Delivery
import Sankaku.Proofs.RepetitionWirehair

namespace Sankaku
open Machine

variable {W : Wirehair}

/-- A droplet that passed the checks on its header. -/
structure AdmittedDroplet where
  env : RxEnv
  sessionId : UInt64
  header : DataHeader
  payload : Bytes

/-- The droplet as the codec sees it. -/
def AdmittedDroplet.symbol (a : AdmittedDroplet) : UInt32 × Bytes := (a.header.seqId, a.payload)

def AdmittedDroplet.received (R : SankakuReceiver) (a : AdmittedDroplet) (st : StreamState W) :
    Outcome (StreamState W) Output String :=
  receiveDroplet a.env R.buildReceiverPipeline a.sessionId a.header a.payload st

/-- The droplet a packet brings to a slot that is free or of video. -/
def Slot.incoming (slot : Slot W) : RxInput → Option AdmittedDroplet
  | .control _ _ => none
  | .datagram env packet =>
    if packet.head?.bind PacketType.fromByte = some .data ∧
        slot.all (fun c => c.streamType = .video) then
      (parseDataPacket packet).bind (fun p =>
        (admitDroplet env p.2.1 p.2.2).map (fun payload => ⟨env, p.1, p.2.1, payload⟩))
    else none

/-- The droplet a packet brings to one stream of the receiver. -/
def ReceiverRuntime.incoming (rt : ReceiverRuntime W) (k : StreamKey) (i : RxInput) :
    Option AdmittedDroplet :=
  if concerns k i then (rt.slot k).incoming i else none

/-- The decoder a droplet is passed to, unless the handler returns before. -/
def StreamState.decoderFor (st : StreamState W) (a : AdmittedDroplet) : Option (DecoderState W) :=
  if (observeLoss a.env a.sessionId a.header st).error = none ∧
      a.header.frameIndex = st.nextFrameIndex then
    (openDecoder a.header st).toOption
  else none

theorem slot_all_video {slot : Slot W} :
    slot.all (fun c => c.streamType = .video) = true ↔ slot.IsVideo := by
  cases slot with
  | none => exact iff_of_true rfl Slot.isVideo_none
  | some c =>
    simp only [Option.all_some, decide_eq_true_eq]
    constructor
    · intro h c' hc'
      cases hc'
      exact h
    · intro h
      exact h c rfl

/-- What a packet must be to bring the slot a droplet. -/
theorem slot_incoming_spec {slot : Slot W} (h : slot.incoming i = some a) : slot.IsVideo ∧
    ∃ packet body, i = .datagram a.env packet ∧
      packet.head?.bind PacketType.fromByte = some .data ∧
      parseDataPacket packet = some (a.sessionId, a.header, body) ∧
      admitDroplet a.env a.header body = some a.payload := by
  cases i with
  | control env packet => cases h
  | datagram env packet =>
    simp only [Slot.incoming] at h
    split at h
    · rename_i hvideo
      obtain ⟨⟨sid, header, body⟩, hparsed, h⟩ := Option.bind_eq_some_iff.mp h
      obtain ⟨payload, hadmitted, rfl⟩ := Option.map_eq_some_iff.mp h
      exact ⟨slot_all_video.mp hvideo.2, packet, body, rfl, hvideo.1, hparsed, hadmitted⟩
    · cases h

theorem incoming_slot {rt : ReceiverRuntime W} (h : rt.incoming k i = some a) :
    concerns k i = true ∧ (rt.slot k).incoming i = some a := by
  unfold ReceiverRuntime.incoming at h
  split at h
  · exact ⟨by assumption, h⟩
  · cases h

/-- The packet that brought a droplet, as it came. -/
theorem incoming_spec {rt : ReceiverRuntime W} (h : rt.incoming k i = some a) :
    concerns k i = true ∧ ∃ packet body, i = .datagram a.env packet ∧
      packet.head?.bind PacketType.fromByte = some .data ∧
      parseDataPacket packet = some (a.sessionId, a.header, body) := by
  obtain ⟨hown, hslot⟩ := incoming_slot h
  obtain ⟨_, packet, body, hi, htype, hparsed, _⟩ := slot_incoming_spec hslot
  exact ⟨hown, packet, body, hi, htype, hparsed⟩

/-- A droplet for the slot is received on the slot's state. -/
theorem slotStep_incoming (R : SankakuReceiver) {slot : Slot W} (h : slot.incoming i = some a) :
    slotStep R slot i =
      ⟨some ⟨.video, (a.received R slot.state).state⟩, (a.received R slot.state).out,
        (a.received R slot.state).error⟩ := by
  obtain ⟨hvideo, packet, body, rfl, htype, hparsed, hadmitted⟩ := slot_incoming_spec h
  rw [slotStep_data R a.env slot htype hparsed, hadmitted]
  exact slotDroplet_video R a.env _ _ _ hvideo

/-- Nothing is said of a frame. -/
structure Silent (out : List Output) : Prop where
  frames : framesOf out = []
  noFec : ∀ q, .fecFeedback q ∉ out

theorem Silent.nil : Silent [] := ⟨rfl, fun _ => List.not_mem_nil⟩

theorem OnlyReports.silent (h : OnlyReports out) : Silent out := ⟨h.noFrame, fun _ => h.noFec⟩

theorem slotFin_silent (env : RxEnv) (slot : Slot W) (packet : Bytes) :
    Silent (slotFin env slot packet).out ∧
      ((slotFin env slot packet).state = slot ∨ (slotFin env slot packet).state = none) := by
  unfold slotFin
  split
  · exact ⟨.nil, .inl rfl⟩
  · split
    · exact ⟨⟨rfl, fun q hq => by simp at hq⟩, .inr rfl⟩
    · exact ⟨.nil, .inr rfl⟩

theorem slotAudio_silent (R : SankakuReceiver) (slot : Slot W) (packet : Bytes) :
    Silent (slotAudio R slot packet).out ∧
      Slot.state (slotAudio R slot packet).state = slot.state := by
  unfold slotAudio
  split
  · exact ⟨.nil, rfl⟩
  split
  · exact ⟨.nil, rfl⟩
  · constructor
    · simp only
      split
      · exact ⟨rfl, fun q hq => by simp at hq⟩
      · exact .nil
    · cases slot <;> rfl

/-- A slot of another type refuses a droplet, all else is ignored. -/
theorem slotData_silent (R : SankakuReceiver) {slot : Slot W} {env : RxEnv} {packet : Bytes}
    (data : packet.head?.bind PacketType.fromByte = some .data)
    (h : slot.incoming (.datagram env packet) = none) :
    Silent (slotData R env slot packet).out ∧ (slotData R env slot packet).state = slot := by
  simp only [Slot.incoming] at h
  cases hparsed : parseDataPacket packet with
  | none =>
    simp only [slotData, hparsed]
    exact ⟨.nil, rfl⟩
  | some p =>
  obtain ⟨sid, header, body⟩ := p
  cases hadmitted : admitDroplet env header body with
  | none =>
    simp only [slotData, hparsed, hadmitted]
    exact ⟨.nil, rfl⟩
  | some payload =>
    have htype : ¬ slot.IsVideo := by
      intro hvideo
      rw [if_pos ⟨data, slot_all_video.mpr hvideo⟩] at h
      simp [hparsed, hadmitted] at h
    cases slot with
    | none => exact absurd Slot.isVideo_none htype
    | some c =>
      have hother : c.streamType ≠ .video := by
        intro ht
        apply htype
        intro c' hc'
        cases hc'
        exact ht
      simp only [slotData, hparsed, hadmitted, slotDroplet, ne_eq, hother, not_false_eq_true,
        ↓reduceIte]
      exact ⟨.nil, trivial⟩

/-- Any other packet leaves the slot's state alone, or takes the stream away. -/
theorem slotStep_other (R : SankakuReceiver) {slot : Slot W} (h : slot.incoming i = none) :
    Silent (slotStep R slot i).out ∧
    (Slot.state (slotStep R slot i).state = slot.state ∨
      i.isControl ∧ (slotStep R slot i).state = none) := by
  cases i with
  | control env packet =>
    simp only [slotStep]
    split
    · obtain ⟨hsilent, hslot | hgone⟩ := slotFin_silent env slot packet
      · exact ⟨hsilent, .inl (congrArg Slot.state hslot)⟩
      · exact ⟨hsilent, .inr ⟨rfl, hgone⟩⟩
    · exact ⟨.nil, .inl rfl⟩
  | datagram env packet =>
    simp only [slotStep]
    split
    · rename_i hdata
      obtain ⟨hsilent, hslot⟩ := slotData_silent R hdata h
      exact ⟨hsilent, .inl (congrArg Slot.state hslot)⟩
    · obtain ⟨hsilent, hstate⟩ := slotAudio_silent R slot packet
      exact ⟨hsilent, .inl hstate⟩
    · exact ⟨.nil, .inl rfl⟩

/-- A droplet for a stream of the receiver is received on the stream's state. -/
theorem mediaStep_incoming (R : SankakuReceiver) {rt : ReceiverRuntime W}
    (h : rt.incoming k i = some a) :
    (mediaStep R rt i).state.slot k =
      some ⟨.video, (a.received R (rt.slot k).state).state⟩ ∧
    (mediaStep R rt i).out.filter (reads k) = (a.received R (rt.slot k).state).out ∧
    (mediaStep R rt i).error = (a.received R (rt.slot k).state).error := by
  obtain ⟨hown, hincoming⟩ := incoming_slot h
  obtain ⟨hslot, hout, herror⟩ := (stream_component R k).own rt i hown
  rw [slotStep_incoming R hincoming] at hslot hout herror
  exact ⟨hslot, hout, herror⟩

theorem mediaStep_other (R : SankakuReceiver) {rt : ReceiverRuntime W}
    (h : rt.incoming k i = none) :
    Silent ((mediaStep R rt i).out.filter (reads k)) ∧
    (((mediaStep R rt i).state.slot k).state = (rt.slot k).state ∨
      i.isControl ∧ (mediaStep R rt i).state.slot k = none) := by
  cases hconcerns : concerns k i with
  | false =>
    obtain ⟨hslot, hout⟩ := (stream_component R k).others rt i hconcerns
    rw [hslot, hout]
    exact ⟨.nil, .inl rfl⟩
  | true =>
    rw [ReceiverRuntime.incoming, if_pos hconcerns] at h
    obtain ⟨hslot, hout, _⟩ := (stream_component R k).own rt i hconcerns
    rw [hslot, hout]
    exact slotStep_other R h

/-- A droplet is passed to the decoder of its frame, the stream's next one. -/
theorem decoderFor_opened {st : StreamState W} (h : st.decoderFor a = some ds) :
    (observeLoss a.env a.sessionId a.header st).error = none ∧
      a.header.frameIndex = st.nextFrameIndex ∧ openDecoder a.header st = .ok ds := by
  unfold StreamState.decoderFor at h
  split at h
  · rename_i hreach
    refine ⟨hreach.1, hreach.2, ?_⟩
    cases ho : openDecoder a.header st with
    | error e => simp [ho, Except.toOption] at h
    | ok ds' => simpa [ho, Except.toOption] using h
  · cases h

/-- A droplet passed to a decoder. -/
theorem received_decoded (R : SankakuReceiver) {st : StreamState W}
    (h : st.decoderFor a = some ds) : ∃ w r fb, OnlyReports fb ∧
      Decoded a.env a.sessionId a.header a.payload (st.seen w r) fb ds (a.received R st) := by
  obtain ⟨hreported, hnext, hopened⟩ := decoderFor_opened h
  rcases observeLoss_seen a.env a.sessionId a.header st with
    ⟨w, r, _, hobserved⟩ | ⟨w, r, fb, hquiet, hobserved⟩
  · rw [hobserved] at hreported
    cases hreported
  · exact ⟨w, r, fb, hquiet, receiveDroplet_decoded _ a.payload hobserved hnext hopened⟩

/-- Any other droplet leaves the stream's decoder alone; only where none can be made
for it, one of another frame is gone. -/
theorem received_other (R : SankakuReceiver) {st : StreamState W} (h : st.decoderFor a = none) :
    Silent (a.received R st).out ∧ ∃ w r, (a.received R st).state = st.seen w r ∨
      (a.received R st).state = (st.seen w r).withDecoder none ∧
        a.header.frameIndex = st.nextFrameIndex ∧
        st.decoderState.filter (fun d => d.frameIndex = a.header.frameIndex) = none := by
  unfold StreamState.decoderFor at h
  unfold AdmittedDroplet.received receiveDroplet
  rcases observeLoss_seen a.env a.sessionId a.header st with
    ⟨w, r, _, hobserved⟩ | ⟨w, r, fb, hquiet, hobserved⟩
  · rw [hobserved]
    exact ⟨.nil, w, r, .inl rfl⟩
  rw [hobserved] at h ⊢
  simp only [feedDecoder, seen_next, openDecoder_seen]
  by_cases hnext : a.header.frameIndex = st.nextFrameIndex
  · rw [if_pos ⟨rfl, hnext⟩] at h
    cases ho : openDecoder a.header st with
    | ok ds => simp [ho, Except.toOption] at h
    | error e =>
      simp only [ne_eq, hnext, not_true_eq_false, ↓reduceIte, List.append_nil]
      refine ⟨hquiet.silent, w, r, .inr ⟨rfl, trivial, ?_⟩⟩
      unfold openDecoder at ho
      split at ho
      · cases ho
      · rename_i hfilter
        rw [hnext] at hfilter
        exact hfilter
  · simp only [ne_eq, hnext, not_false_eq_true, ↓reduceIte, done, List.append_nil]
    exact ⟨hquiet.silent, w, r, .inl rfl⟩

/-- Notes on a stream that no code keeps: the droplets passed to `decode()` of the
stream's latest decoder, from the one that made it on. -/
abbrev Fed := List AdmittedDroplet

/-- A decoder for the droplet's frame goes on, any other makes room for a new one. -/
def StreamState.noteFed (st : StreamState W) (fed : Fed) (a : AdmittedDroplet) : Fed :=
  match st.decoderFor a with
  | none => fed
  | some _ =>
    if (st.decoderState.filter (fun d => d.frameIndex = a.header.frameIndex)).isSome then
      fed ++ [a]
    else [a]

def noteFed (k : StreamKey) (fed : Fed) (rt : ReceiverRuntime W) (i : RxInput)
    (_ : Handled W) : Fed :=
  match rt.incoming k i with
  | none => fed
  | some a => (rt.slot k).state.noteFed fed a

/-- The receiver with the notes on one stream. -/
abbrev feedingStep (R : SankakuReceiver) (k : StreamKey) :
    Fed × ReceiverRuntime W → RxInput → Outcome (Fed × ReceiverRuntime W) Output String :=
  noted (mediaStep R) (noteFed k)

/-- The decoder was made by the first droplet of the notes and has taken exactly the
droplets of the notes, all of its frame. -/
structure DecoderState.Collects (ds : DecoderState W) (opener : AdmittedDroplet) (fed : Fed) :
    Prop where
  frame : ∀ a ∈ fed, a.header.frameIndex = ds.frameIndex
  ideal : ds.idealPackets =
    UInt32.ofNat (divCeil opener.header.totalSize.toNat opener.header.pktSize.toNat)
  taken : ds.Taken opener.header.geometry (fed.map AdmittedDroplet.symbol)

structure StreamState.Collects (st : StreamState W) (fed : Fed) : Prop where
  next : ∀ ds, st.decoderState = some ds → ds.frameIndex = st.nextFrameIndex
  notes : ∀ ds, st.decoderState = some ds → ∃ opener ∈ fed.head?, ds.Collects opener fed

theorem StreamState.Collects.empty {st : StreamState W} (h : st.decoderState = none) :
    st.Collects fed := by
  constructor
  · intro ds hds
    rw [h] at hds
    cases hds
  · intro ds hds
    rw [h] at hds
    cases hds

theorem StreamState.Collects.seen {st : StreamState W} (h : st.Collects fed)
    (w : LossFeedbackWindow) (r : ℚ) : (st.seen w r).Collects fed :=
  ⟨h.next, h.notes⟩

/-- A stream collects for its next frame only, so that its decoder is the one a
droplet of that frame is passed to. -/
theorem StreamState.Collects.filter {st : StreamState W} {a : AdmittedDroplet} (h : st.Collects fed)
    (next : a.header.frameIndex = st.nextFrameIndex) :
    st.decoderState.filter (fun d => d.frameIndex = a.header.frameIndex) = st.decoderState := by
  cases hds : st.decoderState with
  | none => rfl
  | some ds =>
    have hframe := h.next ds hds
    rw [Option.filter_some, if_pos (by simp [hframe, next])]

theorem StreamState.Collects.noteFed_eq {st : StreamState W} (h : st.Collects fed)
    (passed : st.decoderFor a = some ds) :
    st.noteFed fed a = if st.decoderState.isSome then fed ++ [a] else [a] := by
  have hnext := (decoderFor_opened passed).2.1
  simp only [StreamState.noteFed, passed, h.filter hnext]

/-- An open decoder is the one a droplet is passed to. -/
theorem StreamState.Collects.open_eq {st : StreamState W} (h : st.Collects fed)
    (passed : st.decoderFor a = some ds) (opened : st.decoderState = some old) : old = ds := by
  obtain ⟨_, hnext, hopen⟩ := decoderFor_opened passed
  rcases (openDecoder_cases hopen).2 with hold | ⟨hnone, _⟩
  · exact Option.some.inj (opened.symm.trans hold)
  · rw [h.filter hnext, opened] at hnone
    cases hnone

/-- The decoder a droplet is passed to has taken the notes before it. -/
theorem StreamState.Collects.passed {st : StreamState W} (h : st.Collects fed)
    (passed : st.decoderFor a = some ds) :
    ∃ before, st.noteFed fed a = before ++ [a] ∧
      ∃ opener ∈ (before ++ [a]).head?, ds.Collects opener before := by
  obtain ⟨_, hnext, hopened⟩ := decoderFor_opened passed
  obtain ⟨hframe, hcases⟩ := openDecoder_cases hopened
  obtain ⟨_, htaken⟩ := openDecoder_taken hopened
  rw [h.noteFed_eq passed]
  rcases hcases with hold | ⟨hnone, hideal, hnew⟩
  · obtain ⟨opener, hhead, hcollects⟩ := h.notes ds hold
    refine ⟨fed, ?_, opener, ?_, hcollects⟩
    · rw [hold]
      rfl
    · cases fed with
      | nil => cases hhead
      | cons x xs => exact hhead
  · rw [h.filter hnext] at hnone
    refine ⟨[], ?_, a, rfl, fun b hb => absurd hb List.not_mem_nil, hideal, ?_⟩
    · rw [hnone]
      rfl
    · rcases htaken with hold | ⟨_, htaken⟩
      · rw [hnone] at hold
        cases hold
      · exact htaken

/-- Whatever comes of a droplet, a decoder that is left has taken the notes. -/
theorem StreamState.Collects.received {st : StreamState W} {a : AdmittedDroplet}
    (h : st.Collects fed) (R : SankakuReceiver) (ok : (a.received R st).error = none) :
    (a.received R st).state.Collects (st.noteFed fed a) := by
  cases hpassed : st.decoderFor a with
  | none =>
    rw [StreamState.noteFed, hpassed]
    obtain ⟨_, w, r, hstate | ⟨hstate, _, _⟩⟩ := received_other R hpassed
    · rw [hstate]
      exact h.seen w r
    · rw [hstate]
      exact .empty rfl
  | some ds =>
    obtain ⟨before, hnotes, opener, hhead, hcollects⟩ := h.passed hpassed
    obtain ⟨_, hnext, hopened⟩ := decoderFor_opened hpassed
    obtain ⟨w, r, fb, _, hdecoded⟩ := received_decoded R hpassed
    have hframe := (openDecoder_cases hopened).1
    rw [hnotes]
    generalize a.received R st = o at hdecoded ok
    cases hdecoded with
    | waiting decoded =>
      constructor
      · intro ds' hds'
        cases hds'
        exact hframe.trans hnext
      · intro ds' hds'
        cases hds'
        refine ⟨opener, hhead, ?_, hcollects.ideal, ?_⟩
        · intro b hb
          rcases List.mem_append.mp hb with hb | hb
          · exact hcollects.frame b hb
          · rw [List.mem_singleton.mp hb]
            exact hframe.symm
        · rw [List.map_append]
          exact hcollects.taken.waiting decoded
    | refused decoded => exact .empty rfl
    | unrecoverable decoded recovered => cases ok
    | rejected decoded recovered malformed => exact .empty rfl
    | otherKind decoded recovered announced => exact .empty rfl
    | delivered rest err noMore feedback decoded recovered content control => exact .empty rfl

theorem feedingStep_collects (R : SankakuReceiver) (k : StreamKey)
    (s : Fed × ReceiverRuntime W) (i : RxInput) (h : (s.2.slot k).state.Collects s.1)
    (ok : (feedingStep R k s i).error = none) :
    ((feedingStep R k s i).state.2.slot k).state.Collects (feedingStep R k s i).state.1 := by
  obtain ⟨fed, rt⟩ := s
  simp only [noted_state, noted_error] at ok ⊢
  cases hin : rt.incoming k i with
  | none =>
    simp only [noteFed, hin]
    obtain ⟨_, hstate | ⟨_, hgone⟩⟩ := mediaStep_other R hin
    · rw [hstate]
      exact h
    · rw [hgone]
      exact .empty rfl
  | some a =>
    obtain ⟨hstate, _, herror⟩ := mediaStep_incoming R hin
    simp only [noteFed, hin]
    rw [hstate, Slot.state_some]
    exact h.received R (herror ▸ ok)

/-- After any run without error the notes tell what the stream's decoder has taken. -/
theorem run_collects (R : SankakuReceiver) (k : StreamKey) (inputs : List RxInput)
    (ok : (run (feedingStep R k) ([], .default W) inputs).error = none) :
    ((run (feedingStep R k) ([], .default W) inputs).state.2.slot k).state.Collects
      (run (feedingStep R k) ([], .default W) inputs).state.1 := by
  apply run_keeps_ok (fun s : Fed × ReceiverRuntime W => (s.2.slot k).state.Collects s.1) _ _ ok
  · intro s i h hok
    exact feedingStep_collects R k s i h hok
  · exact .empty rfl

end Sankaku
