import Sankaku.Proofs.Feeding

namespace Sankaku
open Machine

variable {W : Wirehair}

/-- Two packets claim the same block. -/
structure DataHeader.SameBlock (h o : DataHeader) : Prop where
  totalSize : h.totalSize = o.totalSize
  pktSize : h.pktSize = o.pktSize
  kindFlag : h.kindFlag = o.kindFlag
  codec : h.codec = o.codec

instance (h o : DataHeader) : Decidable (h.SameBlock o) :=
  decidable_of_iff (h.totalSize = o.totalSize ∧ h.pktSize = o.pktSize ∧ h.kindFlag = o.kindFlag ∧
      h.codec = o.codec)
    ⟨fun ⟨ht, hp, hk, hc⟩ => ⟨ht, hp, hk, hc⟩, fun ⟨ht, hp, hk, hc⟩ => ⟨ht, hp, hk, hc⟩⟩

theorem DataHeader.SameBlock.refl (h : DataHeader) : h.SameBlock h := ⟨rfl, rfl, rfl, rfl⟩

def Fed.seqIds (fed : Fed) : List UInt32 := fed.map (fun a => a.header.seqId)

/-- The droplets of one decoder have different ids and claim the block of the packet
that made it. -/
structure Fed.Orderly (fed : Fed) : Prop where
  distinct : fed.seqIds.Nodup
  oneBlock : ∀ o ∈ fed.head?, ∀ a ∈ fed, a.header.SameBlock o.header

/-- A droplet with a new id for the block the decoder was made for. -/
structure AdmittedDroplet.Fits (a : AdmittedDroplet) (fed : Fed) : Prop where
  newId : a.header.seqId ∉ fed.seqIds
  sameBlock : ∀ o ∈ fed.head?, a.header.SameBlock o.header

theorem Fed.Orderly.single (a : AdmittedDroplet) : Fed.Orderly [a] := by
  constructor
  · exact List.nodup_singleton _
  · intro o ho b hb
    cases ho
    rw [List.mem_singleton.mp hb]
    exact .refl _

theorem Fed.orderly_append {fed : Fed} (h : fed.Orderly) (started : fed ≠ [])
    (a : AdmittedDroplet) : Fed.Orderly (fed ++ [a]) ↔ a.Fits fed := by
  have hhead : (fed ++ [a]).head? = fed.head? := by
    cases fed with
    | nil => exact absurd rfl started
    | cons x xs => rfl
  constructor
  · intro hall
    constructor
    · intro hold
      have hnodup := hall.distinct
      rw [Fed.seqIds, List.map_append, List.nodup_append] at hnodup
      exact hnodup.2.2 _ hold _ (List.mem_singleton.mpr rfl) rfl
    · intro o ho
      exact hall.oneBlock o (hhead ▸ ho) a (List.mem_append_right _ (List.mem_singleton.mpr rfl))
  · intro hfits
    constructor
    · rw [Fed.seqIds, List.map_append, List.nodup_append]
      refine ⟨h.distinct, List.nodup_singleton _, ?_⟩
      intro i hi j hj hij
      rw [List.map_singleton, List.mem_singleton] at hj
      exact hfits.newId (hj ▸ hij ▸ hi)
    · intro o ho b hb
      rw [hhead] at ho
      rcases List.mem_append.mp hb with hb | hb
      · exact h.oneBlock o ho b hb
      · rw [List.mem_singleton.mp hb]
        exact hfits.sameBlock o ho

/-- What a packet must be for the decoder that is open when it arrives: any droplet
passed to it has a new id and claims the decoder's block. -/
def FitsDecoder (k : StreamKey) (s : Fed × ReceiverRuntime W) (i : RxInput) : Prop :=
  ∀ a, s.2.incoming k i = some a → ((s.2.slot k).state.decoderFor a).isSome →
    (s.2.slot k).state.decoderState.isSome → a.Fits s.1

/-- One droplet keeps the notes in order just if it fits the decoder. -/
theorem StreamState.Collects.orderly_iff {st : StreamState W} (h : st.Collects fed)
    (orderly : fed.Orderly) (a : AdmittedDroplet) :
    (st.noteFed fed a).Orderly ↔
      ((st.decoderFor a).isSome → st.decoderState.isSome → a.Fits fed) := by
  cases hpassed : st.decoderFor a with
  | none =>
    simp only [StreamState.noteFed, hpassed, Option.isSome_none]
    exact iff_of_true orderly (fun hno => absurd hno Bool.false_ne_true)
  | some ds =>
    rw [h.noteFed_eq hpassed]
    cases hopen : st.decoderState with
    | none =>
      rw [Option.isSome_none, if_neg Bool.false_ne_true]
      exact iff_of_true (.single a) (fun _ hno => absurd hno Bool.false_ne_true)
    | some old =>
      obtain ⟨opener, hhead, _⟩ := h.notes old hopen
      have hstarted : fed ≠ [] := by
        rintro rfl
        cases hhead
      rw [Option.isSome_some, if_pos rfl, Fed.orderly_append orderly hstarted]
      exact ⟨fun hfits _ _ => hfits, fun hfits => hfits rfl rfl⟩

/-- In every state of a run the notes on a stream are in order, if and only if no
packet brings its decoder a droplet with an id it was fed before, or of another
block. -/
theorem fed_orderly_iff (R : SankakuReceiver) (k : StreamKey) (inputs : List RxInput) :
    (∀ n, (run (feedingStep (W := W) R k) ([], .default W) (inputs.take n)).state.1.Orderly) ↔
      Along (feedingStep R k) (FitsDecoder k) ([], .default W) inputs := by
  have hstart : Fed.Orderly [] := ⟨List.nodup_nil, fun o ho => by cases ho⟩
  rw [Along.iff_always (fun s : Fed × ReceiverRuntime W => s.1.Orderly)]
  refine Iff.trans (and_iff_right hstart) ?_
  apply Along.congr (fun s : Fed × ReceiverRuntime W =>
    (s.2.slot k).state.Collects s.1 ∧ s.1.Orderly)
  · intro s i hs horderly hok
    exact ⟨feedingStep_collects R k s i hs.1 hok, horderly⟩
  · intro s i hs
    obtain ⟨fed, rt⟩ := s
    obtain ⟨hcollects, horderly⟩ := hs
    simp only [noted_state, noteFed, FitsDecoder]
    cases hin : rt.incoming k i with
    | none => exact iff_of_true horderly (fun a ha => by cases ha)
    | some a =>
      rw [hcollects.orderly_iff horderly a]
      constructor
      · intro h b hb
        cases hb
        exact h
      · intro h
        exact h a rfl
  · exact ⟨.empty rfl, hstart⟩

/-- The droplet a datagram carries for a stream, if its header passes the checks. -/
def RxInput.droplet (k : StreamKey) : RxInput → Option AdmittedDroplet
  | .control _ _ => none
  | .datagram env packet =>
    if packet.head?.bind PacketType.fromByte = some .data ∧ datagramKey packet = some k then
      (parseDataPacket packet).bind (fun p =>
        (admitDroplet env p.2.1 p.2.2).map (fun payload => ⟨env, p.1, p.2.1, payload⟩))
    else none

def RxInput.ends (k : StreamKey) : RxInput → Bool
  | .datagram _ _ => false
  | .control _ packet => controlKey packet = some k

/-- The droplets that arrived for a stream since its last FIN. -/
def noteArrived (k : StreamKey) (earlier : List AdmittedDroplet) (i : RxInput) :
    List AdmittedDroplet :=
  if i.ends k then [] else earlier ++ (i.droplet k).toList

/-- Droplets of one frame claim one block and have different ids. -/
def AdmittedDroplet.Agrees (a b : AdmittedDroplet) : Prop :=
  a.header.frameIndex = b.header.frameIndex →
    a.header.seqId ≠ b.header.seqId ∧ a.header.SameBlock b.header

instance (a b : AdmittedDroplet) : Decidable (a.Agrees b) :=
  inferInstanceAs (Decidable (_ → _))

/-- Every droplet that arrives for the stream agrees with all that arrived before it
since the stream's last FIN. -/
def Unambiguous (k : StreamKey) : List AdmittedDroplet → List RxInput → Prop
  | _, [] => True
  | earlier, i :: is => (∀ a ∈ i.droplet k, ∀ b ∈ earlier, a.Agrees b) ∧
      Unambiguous k (noteArrived k earlier i) is

instance Unambiguous.decidable (k : StreamKey) : (earlier : List AdmittedDroplet) →
    (inputs : List RxInput) → Decidable (Unambiguous k earlier inputs)
  | _, [] => .isTrue trivial
  | earlier, i :: is =>
    have := Unambiguous.decidable k (noteArrived k earlier i) is
    inferInstanceAs (Decidable (_ ∧ _))

theorem incoming_droplet {rt : ReceiverRuntime W} (h : rt.incoming k i = some a) :
    i.droplet k = some a ∧ i.ends k = false := by
  obtain ⟨hown, hslot⟩ := incoming_slot h
  obtain ⟨_, packet, body, rfl, htype, hparsed, hadmitted⟩ := slot_incoming_spec hslot
  have hkey : datagramKey packet = some k := of_decide_eq_true hown
  refine ⟨?_, rfl⟩
  simp only [RxInput.droplet, if_pos (And.intro htype hkey), hparsed, Option.bind_some, hadmitted,
    Option.map_some]

/-- A FIN takes its stream away. -/
theorem mediaStep_ends (R : SankakuReceiver) (rt : ReceiverRuntime W) (h : i.ends k = true) :
    (mediaStep R rt i).state.slot k = none := by
  cases i with
  | datagram env packet => cases h
  | control env packet =>
    have hkey : controlKey packet = some k := of_decide_eq_true h
    rw [(mediaStep_acts R rt (.control env packet) hkey).slot]
    simp only [controlKey] at hkey
    split at hkey
    · rename_i htype
      obtain ⟨fin, hfin, _⟩ := Option.map_eq_some_iff.mp hkey
      simp only [slotStep, htype, slotFin, hfin]
      split <;> rfl
    · cases hkey

/-- An open decoder was fed only droplets that arrived since the last FIN. -/
structure NotesMatch (k : StreamKey) (earlier : List AdmittedDroplet)
    (s : Fed × ReceiverRuntime W) : Prop where
  collects : (s.2.slot k).state.Collects s.1
  covered : (s.2.slot k).state.decoderState.isSome → s.1 ⊆ earlier

theorem NotesMatch.fits {s : Fed × ReceiverRuntime W} (h : NotesMatch k earlier s)
    (agrees : ∀ a ∈ i.droplet k, ∀ b ∈ earlier, a.Agrees b) : FitsDecoder k s i := by
  intro a hin passed opened
  obtain ⟨ds, hds⟩ := Option.isSome_iff_exists.mp opened
  obtain ⟨ds', hpassed⟩ := Option.isSome_iff_exists.mp passed
  obtain ⟨opener, hhead, hcollects⟩ := h.collects.notes ds hds
  have hnext := (decoderFor_opened hpassed).2.1
  have hall : ∀ b ∈ s.1, a.header.seqId ≠ b.header.seqId ∧ a.header.SameBlock b.header := by
    intro b hb
    refine agrees a (incoming_droplet hin).1 b (h.covered opened hb) ?_
    rw [hnext, hcollects.frame b hb, h.collects.next ds hds]
  constructor
  · intro hold
    obtain ⟨b, hb, heq⟩ := List.mem_map.mp hold
    exact (hall b hb).1 heq.symm
  · intro o ho
    exact (hall o (List.mem_of_head? ho)).2

/-- What a droplet is noted behind had arrived, if a decoder is left. -/
theorem StreamState.Collects.noteFed_arrived {st : StreamState W} (h : st.Collects fed)
    (R : SankakuReceiver) (a : AdmittedDroplet) (old : st.decoderState.isSome → fed ⊆ earlier)
    (opened : (a.received R st).state.decoderState.isSome) :
    st.noteFed fed a ⊆ earlier ++ [a] := by
  cases hpassed : st.decoderFor a with
  | none =>
    rw [StreamState.noteFed, hpassed]
    obtain ⟨_, w, r, hstate | ⟨hstate, _, _⟩⟩ := received_other R hpassed
    · rw [hstate] at opened
      exact List.Subset.trans (old opened) (List.subset_append_left _ _)
    · rw [hstate] at opened
      cases opened
  | some ds =>
    rw [h.noteFed_eq hpassed]
    split
    · rename_i hopen
      exact List.append_subset.mpr ⟨List.Subset.trans (old hopen) (List.subset_append_left _ _),
        List.subset_append_right _ _⟩
    · exact List.subset_append_right _ _

theorem NotesMatch.step {s : Fed × ReceiverRuntime W} (h : NotesMatch k earlier s)
    (R : SankakuReceiver) (i : RxInput) (ok : (feedingStep R k s i).error = none) :
    NotesMatch k (noteArrived k earlier i) (feedingStep R k s i).state := by
  refine ⟨feedingStep_collects R k s i h.collects ok, fun opened => ?_⟩
  obtain ⟨fed, rt⟩ := s
  simp only [noted_state] at opened ⊢
  cases hin : rt.incoming k i with
  | none =>
    simp only [noteFed, hin, noteArrived]
    split
    · rename_i hends
      rw [mediaStep_ends R rt hends] at opened
      cases opened
    · obtain ⟨_, hstate | ⟨_, hgone⟩⟩ := mediaStep_other R hin
      · rw [hstate] at opened
        exact List.Subset.trans (h.covered opened) (List.subset_append_left _ _)
      · rw [hgone] at opened
        cases opened
  | some a =>
    obtain ⟨hdroplet, hgoes⟩ := incoming_droplet hin
    rw [(mediaStep_incoming R hin).1, Slot.state_some] at opened
    simp only [noteFed, hin, noteArrived, hdroplet, hgoes, Bool.false_eq_true, if_false,
      Option.toList_some]
    exact h.collects.noteFed_arrived R a h.covered opened

/-- A run on packets that agree passes every decoder what fits it. -/
theorem Unambiguous.along (R : SankakuReceiver) {k : StreamKey} {inputs : List RxInput}
    {s : Fed × ReceiverRuntime W} (h : Unambiguous k earlier inputs)
    (tracks : NotesMatch k earlier s) :
    Along (feedingStep R k) (FitsDecoder k) s inputs := by
  induction inputs generalizing earlier s with
  | nil => trivial
  | cons i is ih => exact ⟨tracks.fits h.1, fun ok => ih h.2 (tracks.step R i ok)⟩

/-- If the datagrams of a frame claim one block, each with an id of its own, then
whatever else arrives, and in whatever order, the droplets passed to a decoder have
different ids and claim the block of the packet that made it; an open decoder has
taken exactly the droplets noted for it. -/
theorem decoder_preconditions (R : SankakuReceiver) (k : StreamKey) (inputs : List RxInput)
    (h : Unambiguous k [] inputs) (n : Nat) :
    let o := run (feedingStep (W := W) R k) ([], .default W) (inputs.take n)
    o.state.1.Orderly ∧ (o.error = none → (o.state.2.slot k).state.Collects o.state.1) := by
  have start : NotesMatch k [] (([], .default W) : Fed × ReceiverRuntime W) := ⟨.empty rfl, nofun⟩
  exact ⟨(fed_orderly_iff R k inputs).mpr (h.along R start) n,
    fun ok => run_collects R k (inputs.take n) ok⟩

/-- The two droplets of a frame, a FIN, and the first of another frame 0. -/
theorem decoder_preconditions_twoFrames :
    let droplet (seqId totalSize : UInt32) : RxInput := .datagram (.live 0)
      (dataDatagram 1 ⟨2, 0, seqId, totalSize, 9, 0, videoCodecHevc⟩ (List.replicate 9 0))
    let fin : RxInput := .control (.live 0) (PacketType.streamFin.toByte ::
      StreamFinPacket.serialize ⟨1, 2, 0, 0⟩)
    let o := run (feedingStep ⟨.disabled, [], true⟩ ⟨1, 2⟩) ([], .default .repetition)
      [droplet 0 18, fin, droplet 0 27, droplet 1 27]
    o.state.1.Orderly ∧ (o.error = none → (o.state.2.slot ⟨1, 2⟩).state.Collects o.state.1) := by
  intro droplet fin
  exact decoder_preconditions ⟨.disabled, [], true⟩ ⟨1, 2⟩
    [droplet 0 18, fin, droplet 0 27, droplet 1 27] (by decide +kernel) 4

/-- Two datagrams with the first droplet of a frame of two. -/
def sameDropletTwice : List RxInput :=
  let droplet := dataDatagram 1 ⟨2, 0, 0, 18, 9, 0, videoCodecHevc⟩ (List.replicate 9 0)
  [.datagram (.live 0) droplet, .datagram (.live 1) droplet]

/-- Both are passed to one decoder. -/
theorem block_id_fed_twice :
    ¬ ∀ n, (run (feedingStep ⟨.disabled, [], true⟩ ⟨1, 2⟩) ([], .default .repetition)
      (sameDropletTwice.take n)).state.1.Orderly := by
  intro h
  have hids := (h 2).distinct
  exact absurd hids (by decide +kernel)

end Sankaku
