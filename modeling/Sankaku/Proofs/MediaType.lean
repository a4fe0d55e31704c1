import Sankaku.Proofs.Droplet
import Sankaku.Proofs.RepetitionWirehair
import Sankaku.Proofs.StreamSlot

namespace Sankaku
open Machine

variable {W : Wirehair}

/-- The stream a media packet names, and its media. -/
def RxInput.media : RxInput → Option (StreamKey × StreamType)
  | .datagram _ packet =>
    match packet.head?.bind PacketType.fromByte with
    | some .data => (parseDataPacket packet).map (fun d => (⟨d.1, d.2.1.streamId⟩, .video))
    | some .audio => (parseAudioKey packet).map (fun k => (k, .audio))
    | _ => none
  | .control _ _ => none

/-- A media packet that passes every check of its handler up to the registry. -/
def RxInput.wellFormed : RxInput → Bool
  | .datagram env packet =>
    match packet.head?.bind PacketType.fromByte with
    | some .data => (parseDataPacket packet).any (fun d => (admitDroplet env d.2.1 d.2.2).isSome)
    | some .audio => (parseAudioPacket packet).isSome
    | _ => false
  | .control _ _ => false

/-- The type each id is registered for. -/
abbrev Registered := StreamKey → Option StreamType

def noteTypes (types : Registered) (_ : ReceiverRuntime W) (i : RxInput)
    (_ : Handled W) : Registered :=
  match i with
  | .control _ packet =>
    match controlKey packet with
    | some k => Function.update types k none
    | none => types
  | .datagram _ _ =>
    match i.media with
    | some (k, t) => if i.wellFormed ∧ types k = none then Function.update types k (some t) else types
    | none => types

def Output.mediaType : Output → Option StreamType
  | .frame _ => some .video
  | .audio _ => some .audio
  | _ => none

/-- The packet changed nothing of the stream it names, and nothing came of it. -/
structure Dropped (k : StreamKey) (rt : ReceiverRuntime W) (o : Handled W) : Prop where
  slot : o.state.slot k = rt.slot k
  out : o.out = []
  error : o.error = none

/-- What one step owes: it hands over media of the registered type only, and drops
what is of another type. -/
structure OneMedia (R : SankakuReceiver) (s : Registered × ReceiverRuntime W) (i : RxInput) :
    Prop where
  handed : ∀ x ∈ (mediaStep R s.2 i).out, ∀ k t t', x.key = some k → x.mediaType = some t →
    noteTypes s.1 s.2 i (mediaStep R s.2 i) k = some t' → t = t'
  dropped : ∀ k t t', i.media = some (k, t) → s.1 k = some t' → t ≠ t' →
    Dropped k s.2 (mediaStep R s.2 i)

/-- A well-formed packet of the wrong type comes only as audio, and only where no
audio channel is open. -/
def AgreesWithType (R : SankakuReceiver) (s : Registered × ReceiverRuntime W) (i : RxInput) : Prop :=
  ∀ k t t', i.media = some (k, t) → s.1 k = some t' → t ≠ t' → i.wellFormed = true →
    t = .audio ∧ R.audioTx = false

/-- The notes are the types of the slots. -/
def Noted (s : Registered × ReceiverRuntime W) : Prop :=
  ∀ k, s.1 k = (s.2.slot k).map StreamContext.streamType

theorem media_key {i : RxInput} (h : i.media = some (k, t)) : i.key = some k := by
  cases i with
  | control env packet => cases h
  | datagram env packet =>
    simp only [RxInput.media] at h
    split at h
    · rename_i ht
      obtain ⟨d, hd, hk⟩ := Option.map_eq_some_iff.mp h
      cases hk
      simp only [RxInput.key, datagramKey, ht, hd, Option.map_some]
    · rename_i ht
      obtain ⟨k', hk', hk⟩ := Option.map_eq_some_iff.mp h
      cases hk
      simp only [RxInput.key, datagramKey, ht, hk']
    · cases h

/-- No droplet makes audio. -/
theorem receiveDroplet_noAudio (env : RxEnv) (p : SankakuPipeline) (sid : UInt64) (h : DataHeader)
    (payload : Bytes) (st : StreamState W) :
    ∀ x ∈ (receiveDroplet env p sid h payload st).out, x.mediaType ≠ some .audio := by
  have observed : ∀ x ∈ (observeLoss env sid h st).out, x.mediaType ≠ some .audio := by
    unfold observeLoss
    simp only
    split
    · simp [done]
    · split
      · simp [Output.mediaType]
      · simp
  have delivered : ∀ st block ideal used,
      ∀ x ∈ (deliverFrame (W := W) env p sid h st block ideal used).out,
        x.mediaType ≠ some .audio := by
    intro st block ideal used
    unfold deliverFrame
    split
    · simp
    split
    · simp [done]
    split
    · simp
    simp only
    split
    · simp [Output.mediaType]
    split
    · simp [Output.mediaType]
    · simp [Output.mediaType]
  unfold receiveDroplet
  intro x hx
  simp only at hx
  split at hx
  · exact observed x hx
  · rcases List.mem_append.mp hx with hx | hx
    · exact observed x hx
    · split at hx
      · rename_i o ho
        rw [feedDecoder_quiet ho] at hx
        cases hx
      · exact delivered _ _ _ _ x hx

/-- A stream's step on a packet of its own media, or on any other input. -/
inductive MediaCase (R : SankakuReceiver) (k : StreamKey) (slot : Slot W) (i : RxInput) :
    Outcome (Slot W) Output String → Prop
  | malformed (t) (media : i.media = some (k, t)) (bad : i.wellFormed = false) :
    MediaCase R k slot i (done slot)
  | video (context) (media : i.media = some (k, .video)) (good : i.wellFormed = true)
    (fits : ∀ c, slot = some c → c.streamType = .video) (type : context.streamType = .video)
    (noAudio : ∀ x ∈ out, x.mediaType ≠ some .audio) :
    MediaCase R k slot i ⟨some context, out, error⟩
  | refused (context) (media : i.media = some (k, .video)) (good : i.wellFormed = true)
    (registered : slot = some context) (other : context.streamType ≠ .video) :
    MediaCase R k slot i ⟨slot, [], some why⟩
  | audio (frame) (media : i.media = some (k, .audio)) (good : i.wellFormed = true) :
    MediaCase R k slot i ⟨some (slot.getD ⟨.audio, StreamState.default W⟩),
      if R.audioTx then [.audio frame] else [], none⟩
  | fin (env packet) (isFin : i = .control env packet) (names : controlKey packet = some k)
    (silent : ∀ x ∈ out, x.mediaType = none) :
    MediaCase R k slot i ⟨none, out, error⟩

theorem slotData_media (R : SankakuReceiver) (env : RxEnv) (slot : Slot W)
    (ht : packet.head?.bind PacketType.fromByte = some .data)
    (media : RxInput.media (.datagram env packet) = some (k, t)) :
    MediaCase R k slot (.datagram env packet) (slotData R env slot packet) := by
  have hmedia := media
  simp only [RxInput.media, ht] at hmedia
  obtain ⟨⟨sid, h, body⟩, hp, hk⟩ := Option.map_eq_some_iff.mp hmedia
  cases hk
  have good : RxInput.wellFormed (.datagram env packet) = (admitDroplet env h body).isSome := by
    simp [RxInput.wellFormed, ht, hp]
  unfold slotData
  simp only [hp]
  cases ha : admitDroplet env h body with
  | none =>
    rw [ha, Option.isSome_none] at good
    exact .malformed _ media good
  | some payload =>
    rw [ha, Option.isSome_some] at good
    simp only
    unfold slotDroplet
    split
    · rename_i context
      split
      · rename_i other
        exact .refused context media good rfl other
      · rename_i same
        exact .video _ media good (fun c hc => by cases hc; exact not_not.mp same) rfl
          (fun x hx => receiveDroplet_noAudio _ _ _ _ _ _ x hx)
    · exact .video _ media good (fun c hc => by cases hc) rfl
        (fun x hx => receiveDroplet_noAudio _ _ _ _ _ _ x hx)

theorem slotAudio_media (R : SankakuReceiver) (env : RxEnv) (slot : Slot W)
    (ht : packet.head?.bind PacketType.fromByte = some .audio)
    (media : RxInput.media (.datagram env packet) = some (k, t)) :
    MediaCase R k slot (.datagram env packet) (slotAudio R slot packet) := by
  have hmedia := media
  simp only [RxInput.media, ht] at hmedia
  obtain ⟨k', hkey, hk⟩ := Option.map_eq_some_iff.mp hmedia
  cases hk
  have long : ¬ packet.length < audioPrefixSize := by
    intro short
    rw [parseAudioKey, if_pos short] at hkey
    cases hkey
  have good : RxInput.wellFormed (.datagram env packet) = (parseAudioPacket packet).isSome := by
    simp [RxInput.wellFormed, ht]
  unfold slotAudio
  rw [if_neg long]
  cases hp : parseAudioPacket packet with
  | none =>
    rw [hp, Option.isSome_none] at good
    exact .malformed _ media good
  | some frame =>
    rw [hp, Option.isSome_some] at good
    exact .audio frame media good

theorem slotStep_media (R : SankakuReceiver) (slot : Slot W) {i : RxInput} (hk : i.key = some k) :
    MediaCase R k slot i (slotStep R slot i) := by
  cases i with
  | datagram env packet =>
    simp only [RxInput.key, datagramKey] at hk
    split at hk
    · rename_i ht
      obtain ⟨d, hd, rfl⟩ := Option.map_eq_some_iff.mp hk
      simp only [slotStep, ht]
      exact slotData_media R env slot ht (t := .video) (by simp [RxInput.media, ht, hd])
    · rename_i ht
      simp only [slotStep, ht]
      exact slotAudio_media R env slot ht (t := .audio) (by simp [RxInput.media, ht, hk])
    · cases hk
  | control env packet =>
    have names : controlKey packet = some k := hk
    simp only [RxInput.key, controlKey] at hk
    split at hk
    · rename_i ht
      obtain ⟨fin, hf, rfl⟩ := Option.map_eq_some_iff.mp hk
      simp only [slotStep, ht, slotFin, hf]
      split
      · exact .fin env packet rfl names (by simp [Output.mediaType])
      · exact .fin env packet rfl names (by simp)
    · cases hk

theorem noteTypes_media (types : Registered) (rt : ReceiverRuntime W) {i : RxInput} (o : Handled W)
    (h : i.media = some (k, t)) : noteTypes types rt i o =
      if i.wellFormed ∧ types k = none then Function.update types k (some t) else types := by
  cases i with
  | control env packet => cases h
  | datagram env packet => simp only [noteTypes, h]

theorem noteTypes_fin (types : Registered) (rt : ReceiverRuntime W) (env : RxEnv) (o : Handled W)
    (h : controlKey packet = some k) :
    noteTypes types rt (.control env packet) o = Function.update types k none := by
  simp only [noteTypes, h]

theorem noteTypes_idle (types : Registered) (rt : ReceiverRuntime W) {i : RxInput} (o : Handled W)
    (h : i.key = none) : noteTypes types rt i o = types := by
  cases i with
  | control env packet =>
    have hk : controlKey packet = none := h
    simp only [noteTypes, hk]
  | datagram env packet =>
    cases hm : RxInput.media (.datagram env packet) with
    | none => simp only [noteTypes, hm]
    | some m =>
      rw [media_key (t := m.2) (by rw [hm])] at h
      cases h

/-- A packet leaves the notes on every stream but its own. -/
theorem noteTypes_other (types : Registered) (rt : ReceiverRuntime W) {i : RxInput} (o : Handled W)
    (h : i.key = some k') (hk : k ≠ k') : noteTypes types rt i o k = types k := by
  cases i with
  | control env packet => rw [noteTypes_fin _ _ _ _ h, Function.update_of_ne hk]
  | datagram env packet =>
    cases hm : RxInput.media (.datagram env packet) with
    | none => simp only [noteTypes, hm]
    | some m =>
      have hkey := media_key (t := m.2) (hm.trans rfl)
      rw [h, Option.some.injEq] at hkey
      rw [noteTypes_media _ _ _ hm]
      split
      · rw [Function.update_of_ne (hkey ▸ hk)]
      · rfl

/-- The packets say what the registry holds, step by step. -/
theorem Noted.step {s : Registered × ReceiverRuntime W} (h : Noted s) (R : SankakuReceiver)
    (i : RxInput) : Noted (noted (mediaStep R) noteTypes s i).state := by
  rw [noted_state]
  intro k
  simp only
  cases hi : i.key with
  | none =>
    rw [noteTypes_idle _ _ _ hi, (mediaStep_idle R s.2 i hi).slots k]
    exact h k
  | some k' =>
    have acts := mediaStep_acts R s.2 i hi
    by_cases hkk : k = k'
    · subst hkk
      have hown := h k
      have hcase := slotStep_media R (s.2.slot k) hi
      rw [acts.slot]
      generalize slotStep R (s.2.slot k) i = p at hcase
      cases hcase with
      | malformed t media bad =>
        rw [noteTypes_media _ _ _ media, if_neg (by simp [bad])]
        exact hown
      | video context media good fits type noAudio =>
        rw [noteTypes_media _ _ _ media]
        cases hslot : s.2.slot k with
        | none =>
          rw [hslot] at hown
          rw [if_pos ⟨good, hown⟩, Function.update_self, Option.map_some, type]
        | some c =>
          rw [hslot] at hown
          rw [if_neg (by simp [hown]), hown, Option.map_some, Option.map_some, type,
            fits c hslot]
      | refused context media good registered other =>
        rw [registered] at hown
        rw [noteTypes_media _ _ _ media, if_neg (by simp [hown]), hown]
        simp only [registered]
      | audio frame media good =>
        rw [noteTypes_media _ _ _ media]
        cases hslot : s.2.slot k with
        | none =>
          rw [hslot] at hown
          rw [if_pos ⟨good, hown⟩, Function.update_self]
          rfl
        | some c =>
          rw [hslot] at hown
          rw [if_neg (by simp [hown]), hown]
          rfl
      | fin env packet isFin names silent =>
        subst isFin
        rw [noteTypes_fin _ _ _ _ names, Function.update_self]
        rfl
    · rw [acts.others k hkk, ← h k]
      exact noteTypes_other _ _ _ hi hkk

theorem mediaType_video {x : Output} (h : x.mediaType = some t) (noAudio : x.mediaType ≠ some .audio) :
    t = .video := by
  cases x with
  | frame f =>
    cases h
    rfl
  | audio f => exact absurd rfl noAudio
  | _ => cases h

/-- Where a well-formed packet of another type is dropped, it is audio without a channel. -/
theorem Noted.agrees {R : SankakuReceiver} {s : Registered × ReceiverRuntime W} (h : Noted s)
    {i : RxInput} (one : OneMedia R s i) : AgreesWithType R s i := by
  intro k t t' media registered other good
  have dropped := one.dropped k t t' media registered other
  have acts := mediaStep_acts R s.2 i (media_key media)
  have hout := acts.out.symm.trans dropped.out
  have herror := acts.error.symm.trans dropped.error
  have hcase := slotStep_media R (s.2.slot k) (media_key media)
  rw [h k] at registered
  obtain ⟨c, hc, hct⟩ := Option.map_eq_some_iff.mp registered
  generalize slotStep R (s.2.slot k) i = p at hcase hout herror
  cases hcase with
  | malformed _ _ bad =>
    rw [good] at bad
    cases bad
  | video context media' _ fits _ _ =>
    rw [media] at media'
    cases media'
    exact absurd ((fits c hc).symm.trans hct) other
  | refused => cases herror
  | audio frame media' _ =>
    rw [media] at media'
    cases media'
    refine ⟨rfl, ?_⟩
    cases hR : R.audioTx with
    | false => rfl
    | true =>
      rw [hR] at hout
      cases hout
  | fin env packet isFin =>
    subst isFin
    cases media

/-- What is handed over is of the type noted after the step. -/
theorem Noted.handed {R : SankakuReceiver} {s : Registered × ReceiverRuntime W} (h : Noted s)
    {i : RxInput} (agrees : AgreesWithType R s i) {x : Output} (hx : x ∈ (mediaStep R s.2 i).out)
    (hkey : x.key = some k) (htype : x.mediaType = some t)
    (hnote : noteTypes s.1 s.2 i (mediaStep R s.2 i) k = some t') : t = t' := by
  have after := h.step R i
  cases hi : i.key with
  | none =>
    rw [(mediaStep_idle R s.2 i hi).named x hx] at hkey
    cases hkey
  | some k' =>
    have acts := mediaStep_acts R s.2 i hi
    rw [acts.out] at hx
    have hk := acts.named x hx
    rw [hkey, Option.some.injEq] at hk
    subst hk
    have hslot := after k
    rw [noted_state] at hslot
    simp only [hnote, acts.slot] at hslot
    have hcase := slotStep_media R (s.2.slot k) hi
    generalize slotStep R (s.2.slot k) i = p at hcase hx hslot
    cases hcase with
    | malformed => cases hx
    | video context _ _ _ type noAudio =>
      rw [Option.map_some, type, Option.some.injEq] at hslot
      rw [hslot]
      exact mediaType_video htype (noAudio x hx)
    | refused => cases hx
    | audio frame media good =>
      split at hx
      · rename_i hR
        rw [List.mem_singleton] at hx
        subst hx
        cases htype
        by_contra other
        cases hc : s.2.slot k with
        | none =>
          rw [hc] at hslot
          cases hslot
          exact other rfl
        | some c =>
          rw [hc] at hslot
          have registered : s.1 k = some t' := by
            rw [h k, hc]
            exact hslot.symm
          have hclosed := (agrees k .audio t' media registered other good).2
          rw [hR] at hclosed
          cases hclosed
      · cases hx
    | fin _ _ _ _ silent =>
      rw [silent x hx] at htype
      cases htype

theorem Noted.dropped {R : SankakuReceiver} {s : Registered × ReceiverRuntime W} (h : Noted s)
    {i : RxInput} (agrees : AgreesWithType R s i) (media : i.media = some (k, t))
    (registered : s.1 k = some t') (other : t ≠ t') : Dropped k s.2 (mediaStep R s.2 i) := by
  have acts := mediaStep_acts R s.2 i (media_key media)
  have hcase := slotStep_media R (s.2.slot k) (media_key media)
  have hagree := agrees k t t' media registered other
  rw [h k] at registered
  obtain ⟨c, hc, hct⟩ := Option.map_eq_some_iff.mp registered
  obtain ⟨hs, ho, he, _, _⟩ := acts
  generalize slotStep R (s.2.slot k) i = p at hcase hs ho he
  cases hcase with
  | malformed => exact ⟨hs, ho, he⟩
  | video context media' _ fits _ _ =>
    rw [media] at media'
    cases media'
    exact absurd ((fits c hc).symm.trans hct) other
  | refused context media' good _ _ =>
    rw [media] at media'
    cases media'
    exact absurd (hagree good).1 (by decide)
  | audio frame media' good =>
    rw [(hagree good).2] at ho
    rw [hc] at hs
    exact ⟨hs.trans hc.symm, ho, he⟩
  | fin env packet isFin =>
    subst isFin
    cases media

/-- Within the type of its stream, or where the drop is complete, a packet does what
it owes, and nowhere else. -/
theorem oneMedia_iff (R : SankakuReceiver) {s : Registered × ReceiverRuntime W} (h : Noted s)
    (i : RxInput) : OneMedia R s i ↔ AgreesWithType R s i := by
  constructor
  · exact h.agrees
  · intro agrees
    constructor
    · intro x hx k t t' hkey htype hnote
      exact h.handed agrees hx hkey htype hnote
    · intro k t t' media registered other
      exact h.dropped agrees media registered other

/-- No id is registered. -/
def unregistered (W : Wirehair) : Registered × ReceiverRuntime W := (fun _ => none, .default W)

/-- Along any run of the media loop, every step hands over media of the registered
type only and drops what is of another type, just if no well-formed packet of another
type comes between the registration of its id and the FIN, audio for a receiver
without an audio channel excepted. -/
theorem one_media_type_iff (R : SankakuReceiver) (inputs : List RxInput) :
    Along (noted (mediaStep (W := W) R) noteTypes) (OneMedia R) (unregistered W) inputs ↔
      Along (noted (mediaStep R) noteTypes) (AgreesWithType R) (unregistered W) inputs := by
  apply Along.congr Noted
  · intro s i h _ _
    exact h.step R i
  · intro s i h
    exact oneMedia_iff R h i
  · intro k
    rfl

/-- A video droplet registers stream 2 of session 1, then audio comes for it. -/
def audioOnVideo : List RxInput :=
  [.datagram (.live 0) (dataDatagram 1 ⟨2, 0, 0, 18, 9, 0, videoCodecHevc⟩ (List.replicate 9 0)),
   .datagram (.live 1) (audioDatagram 1 2 7 audioCodecOpus 960 1 [0])]

/-- The application gets the audio. -/
theorem audio_on_video_stream :
    let R : SankakuReceiver := ⟨.disabled, [], true⟩
    .audio ⟨1, 2, 7, audioCodecOpus, 960, [0]⟩ ∈
      (runMediaLoop R (.default .repetition) audioOnVideo).out ∧
    ¬ Along (noted (mediaStep R) noteTypes) (OneMedia R) (unregistered .repetition) audioOnVideo := by
  refine ⟨by decide +kernel, fun ⟨_, hrest⟩ => ?_⟩
  have handed := (hrest (by decide +kernel)).1.handed
    (.audio ⟨1, 2, 7, audioCodecOpus, 960, [0]⟩) (by decide +kernel) ⟨1, 2⟩ .audio .video rfl rfl
    (by decide +kernel)
  cases handed

end Sankaku
