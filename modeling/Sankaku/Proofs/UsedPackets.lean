import Sankaku.Proofs.BlockIds
import Sankaku.Proofs.InOrder
import Sankaku.Proofs.Redundancy

namespace Sankaku
open Machine SankakuSender

variable {W : Wirehair}

/-- The report on the frame had its droplets come in order, none of them lost. -/
def FecFeedbackPacket.lossless (q : FecFeedbackPacket) : FecFeedbackPacket :=
  { q with usedPackets := q.idealPackets }

/-- The steps lead up and down as their names say. -/
def FecPolicy.StepsFit : FecPolicy → Prop
  | .fixed => True
  | .adaptive _ _ increaseStep decreaseStep _ _ => 0 ≤ increaseStep ∧ 0 ≤ decreaseStep

theorem clampF32_mono (h : x ≤ y) (hx : clampF32 x lo hi = some a)
    (hy : clampF32 y lo hi = some b) : a ≤ b := by
  unfold clampF32 at hx hy
  split at hx
  · rename_i ordered
    rw [if_pos ordered] at hy
    cases hx
    cases hy
    exact clampRat_mono h lo hi ordered
  · cases hx

theorem lossless_observed (q : FecFeedbackPacket) : q.lossless.observed = 1 := by
  unfold FecFeedbackPacket.observed FecFeedbackPacket.lossless
  split
  · rfl
  · rename_i hideal
    refine div_self ?_
    rw [Nat.cast_ne_zero]
    exact fun h => hideal (UInt32.toNat_inj.mp h)

/-- A ratio of 1 or more is adjusted no lower than one of 1. -/
theorem adjustRedundancy_lossless {policy : FecPolicy} (steps : policy.StepsFit)
    (above : 1 ≤ q.observed) (adjusted : adjustRedundancy current q policy = some r)
    (ideally : adjustRedundancy current q.lossless policy = some l) : l ≤ r := by
  cases policy with
  | fixed =>
    cases adjusted
    cases ideally
    exact le_refl _
  | adaptive lo hi up down high low =>
    obtain ⟨hup, hdown⟩ := steps
    rw [adjustRedundancy_adaptive] at adjusted ideally
    rw [lossless_observed] at ideally
    refine clampF32_mono ?_ ideally adjusted
    split_ifs <;> linarith

/-- The packets that came for one frame of a stream, in order. -/
def packetsFor (k : StreamKey) (index : UInt64) (inputs : List RxInput) : List Bytes :=
  (inputs.filter (fun i => concerns k i && i.frame? = some index)).map RxInput.packet

/-- Of what was sent some packets came, in whatever order, and none of them twice. -/
structure DistinctDroplets (sent arrived : List Bytes) : Prop where
  own : ∀ p ∈ arrived, p ∈ sent
  once : arrived.Nodup

/-- The packets of one call carry the droplets of one chunk, numbered by their place. -/
theorem sendFrame_numbered (s : SankakuSender) (id : UInt32) (frame : VideoFrame) (env : SendEnv)
    (hp : p ∈ (s.sendFrame W id frame env).sent) : ∃ (plan : ChunkPlan W) (block : Bytes),
      plan.Protects block ∧ (s.sendFrame W id frame env).sent.length < 2 ^ 32 ∧
      List.Forall₂ plan.IsPacket
        ((List.range (s.sendFrame W id frame env).sent.length).map UInt32.ofNat)
        (s.sendFrame W id frame env).sent := by
  have hcase := sendFrame_cases (W := W) s id frame env
  generalize s.sendFrame W id frame env = o at hcase hp ⊢
  cases hcase with
  | early same => cases hp
  | broken e s' plan block n sent same session stream index protects holds packets small =>
    obtain rfl := range_forall₂ packets
    exact ⟨plan, block, protects, small, packets⟩
  | sent s' plan block n sent session same nextStreamId stream index protects holds packets small =>
    obtain rfl := range_forall₂ packets
    exact ⟨plan, block, protects, small, packets⟩

/-- The header of such a packet tells its place. -/
theorem numbered_header {plan : ChunkPlan W} (protects : plan.Protects block)
    (small : sent.length < 2 ^ 32)
    (packets : List.Forall₂ plan.IsPacket ((List.range sent.length).map UInt32.ofNat) sent)
    (hp : p ∈ sent) (parsed : parseDataPacket p = some (sid, h, body)) :
    h = plan.header h.seqId ∧ h.seqId.toNat < sent.length ∧ sent[h.seqId.toNat]? = some p := by
  obtain ⟨j, hj, rfl⟩ := List.mem_iff_getElem.mp hp
  have hpacket := packets.get (by rw [packets.length_eq]; exact hj) hj
  rw [List.get_eq_getElem, List.getElem_map, List.getElem_range] at hpacket
  obtain ⟨_, _, hparsed⟩ := (hpacket.carries protects).parse
  rw [List.get_eq_getElem, parsed, Option.some.injEq, Prod.mk.injEq, Prod.mk.injEq] at hparsed
  obtain ⟨_, rfl, _⟩ := hparsed
  have hseq : (plan.header (UInt32.ofNat j)).seqId.toNat = j := by
    rw [ChunkPlan.header, UInt32.toNat_ofNat', Nat.mod_eq_of_lt (by omega)]
  rw [hseq]
  exact ⟨rfl, hj, List.getElem?_eq_getElem hj⟩

/-- A droplet as a packet of the stream brought it. -/
structure AdmittedDroplet.From (a : AdmittedDroplet) (k : StreamKey) (i : RxInput) : Prop where
  own : concerns k i = true
  frame : i.frame? = some a.header.frameIndex
  parsed : ∃ body, parseDataPacket i.packet = some (a.sessionId, a.header, body)

theorem incoming_from {rt : ReceiverRuntime W} (h : rt.incoming k i = some a) : a.From k i := by
  obtain ⟨hown, packet, body, rfl, htype, hparsed⟩ := incoming_spec h
  refine ⟨hown, ?_, body, hparsed⟩
  simp only [RxInput.frame?, htype, hparsed, Option.map_some]

/-- The droplets passed to the stream's latest decoder in a run on these packets. -/
def fedTo (W : Wirehair) (R : SankakuReceiver) (k : StreamKey) (inputs : List RxInput) : Fed :=
  (run (feedingStep R k) ([], .default W) inputs).state.1

/-- Every droplet of the notes came with a packet of its own. -/
theorem fedTo_from (R : SankakuReceiver) (k : StreamKey) (inputs : List RxInput) :
    ∃ came : List (AdmittedDroplet × RxInput), came.map Prod.fst = fedTo W R k inputs ∧
      (came.map Prod.snd).Sublist inputs ∧ ∀ x ∈ came, x.1.From k x.2 := by
  apply run_keeps_taken (fun past (s : Fed × ReceiverRuntime W) =>
    ∃ came : List (AdmittedDroplet × RxInput), came.map Prod.fst = s.1 ∧
      (came.map Prod.snd).Sublist past ∧ ∀ x ∈ came, x.1.From k x.2)
  · rintro past ⟨fed, rt⟩ i ⟨came, rfl, hsub, hfrom⟩
    have hpast := hsub.trans (List.sublist_append_left past [i])
    simp only [noted_state, noteFed]
    cases hin : rt.incoming k i with
    | none => exact ⟨came, rfl, hpast, hfrom⟩
    | some a =>
      unfold StreamState.noteFed
      simp only
      split
      · exact ⟨came, rfl, hpast, hfrom⟩
      · split
        · refine ⟨came ++ [(a, i)], List.map_append, ?_, ?_⟩
          · rw [List.map_append]
            exact hsub.append (List.Sublist.refl _)
          · intro x hx
            rcases List.mem_append.mp hx with hx | hx
            · exact hfrom x hx
            · rw [List.mem_singleton.mp hx]
              exact incoming_from hin
        · refine ⟨[(a, i)], rfl, List.sublist_append_right past [i], ?_⟩
          intro x hx
          rw [List.mem_singleton.mp hx]
          exact incoming_from hin
  · rintro past s later ⟨came, hfed, hsub, hfrom⟩
    exact ⟨came, hfed, hsub.trans (List.sublist_append_left _ _), hfrom⟩
  · exact ⟨[], rfl, List.Sublist.refl _, fun x hx => absurd hx List.not_mem_nil⟩

/-- The report counts up to the largest id the decoder was fed, which is enough for the
frame, and never has the redundancy lowered further than a lossless delivery would. -/
structure FeedbackSound (q : FecFeedbackPacket) (fed : Fed) : Prop where
  used : ∃ a ∈ fed, q.usedPackets.toNat = a.header.seqId.toNat + 1 ∧
    ∀ b ∈ fed, b.header.seqId ≤ a.header.seqId
  enough : q.idealPackets ≤ q.usedPackets
  ratio : 1 ≤ q.observed
  redundancy : ∀ (policy : FecPolicy) (current r l : ℚ), policy.StepsFit →
    adjustRedundancy current q policy = some r →
    adjustRedundancy current q.lossless policy = some l → l ≤ r

/-- The packet brings the largest id of those fed. -/
def BringsLargest (k : StreamKey) (rt : ReceiverRuntime W) (i : RxInput) (fed : Fed) : Prop :=
  ∀ a, rt.incoming k i = some a → ∀ b ∈ fed, b.header.seqId ≤ a.header.seqId

/-- Different ids up to a largest one are not many. -/
theorem Fed.length_le {fed : Fed} (distinct : fed.seqIds.Nodup)
    (largest : ∀ b ∈ fed, b.header.seqId ≤ m) : fed.length ≤ m.toNat + 1 := by
  have hnodup : (fed.seqIds.map UInt32.toNat).Nodup :=
    distinct.map (fun _ _ h => UInt32.toNat_inj.mp h)
  have hrange : fed.seqIds.map UInt32.toNat ⊆ List.range (m.toNat + 1) := by
    intro n hn
    obtain ⟨seqId, hseq, rfl⟩ := List.mem_map.mp hn
    obtain ⟨b, hb, rfl⟩ := List.mem_map.mp hseq
    have hle := UInt32.le_iff_toNat_le.mp (largest b hb)
    exact List.mem_range.mpr (by omega)
  simpa [Fed.seqIds] using (hnodup.subperm hrange).length_le

theorem feedbackSound_iff {fed : Fed} {a : AdmittedDroplet} (fedLast : a ∈ fed)
    (distinct : fed.seqIds.Nodup) (room : a.header.seqId.toNat + 1 < 2 ^ 32)
    (needed : 0 < ideal.toNat ∧ ideal.toNat ≤ fed.length) :
    FeedbackSound ⟨sid, stream, index, ideal, saturatingAdd32 a.header.seqId 1⟩ fed ↔
      ∀ b ∈ fed, b.header.seqId ≤ a.header.seqId := by
  have hused : (saturatingAdd32 a.header.seqId 1).toNat = a.header.seqId.toNat + 1 := by
    rw [saturatingAdd32_toNat]
    exact Nat.min_eq_left (by change a.header.seqId.toNat + 1 ≤ _; omega)
  constructor
  · intro hsound
    obtain ⟨c, _, hc, hlargest⟩ := hsound.used
    rw [hused] at hc
    have hsame : a.header.seqId = c.header.seqId := UInt32.toNat_inj.mp (by omega)
    rw [hsame]
    exact hlargest
  · intro hlargest
    have hcount := Fed.length_le distinct hlargest
    have henough : ideal ≤ saturatingAdd32 a.header.seqId 1 := by
      rw [UInt32.le_iff_toNat_le, hused]
      omega
    have hratio : 1 ≤ FecFeedbackPacket.observed
        ⟨sid, stream, index, ideal, saturatingAdd32 a.header.seqId 1⟩ := by
      have hideal : ideal ≠ 0 := by
        rintro rfl
        exact absurd needed.1 (lt_irrefl 0)
      rw [FecFeedbackPacket.observed, if_neg hideal, one_le_div (by exact_mod_cast needed.1)]
      exact_mod_cast UInt32.le_iff_toNat_le.mp henough
    refine ⟨⟨a, fedLast, hused, hlargest⟩, henough, hratio, ?_⟩
    intro policy current r l hsteps hr hl
    exact adjustRedundancy_lossless hsteps hratio hr hl

/-- A report says what the droplet that completed the decode made of it. -/
theorem received_reported (R : SankakuReceiver) {st : StreamState W} {a : AdmittedDroplet}
    (reported : .fecFeedback q ∈ (a.received R st).out) : ∃ ds d, st.decoderFor a = some ds ∧
      ds.decoder.decode a.header.seqId a.payload = (.ok true, d) ∧
      q = ⟨a.sessionId, a.header.streamId, a.header.frameIndex, ds.idealPackets,
        saturatingAdd32 a.header.seqId 1⟩ := by
  cases hpassed : st.decoderFor a with
  | none => exact absurd reported ((received_other R hpassed).1.noFec q)
  | some ds =>
    obtain ⟨w, r, fb, hquiet, hdecoded⟩ := received_decoded R hpassed
    generalize a.received R st = o at hdecoded reported
    cases hdecoded with
    | delivered rest err noMore feedback decoded =>
      refine ⟨ds, _, rfl, decoded, ?_⟩
      rcases List.mem_append.mp reported with hq | hq
      · exact absurd hq hquiet.noFec
      · rcases List.mem_cons.mp hq with hq | hq
        · cases hq
        · exact feedback q hq
    | _ => exact absurd reported hquiet.noFec

theorem mediaStep_reported (R : SankakuReceiver) {rt : ReceiverRuntime W}
    (reported : .fecFeedback q ∈ (mediaStep R rt i).out.filter (reads k)) :
    ∃ a, rt.incoming k i = some a ∧ .fecFeedback q ∈ (a.received R (rt.slot k).state).out := by
  cases hin : rt.incoming k i with
  | none => exact absurd reported ((mediaStep_other R hin).1.noFec q)
  | some a => exact ⟨a, rfl, (mediaStep_incoming R hin).2.1 ▸ reported⟩

/-- What a report in a run tells of: the decoder of the last droplet of the notes had
taken those before it, and completed the frame with it. -/
structure Completed (k : StreamKey) (rt : ReceiverRuntime W) (i : RxInput) (fed : Fed)
    (q : FecFeedbackPacket) (a : AdmittedDroplet) (before : Fed) (opener : AdmittedDroplet)
    (ds : DecoderState W) : Prop where
  brought : rt.incoming k i = some a
  notes : fed = before ++ [a]
  first : opener ∈ fed.head?
  collects : ds.Collects opener before
  frame : ds.frameIndex = a.header.frameIndex
  decoded : ∃ d, ds.decoder.decode a.header.seqId a.payload = (.ok true, d)
  report : q = ⟨a.sessionId, a.header.streamId, a.header.frameIndex, ds.idealPackets,
    saturatingAdd32 a.header.seqId 1⟩

theorem run_reported (R : SankakuReceiver) (k : StreamKey) (inputs : List RxInput) (i : RxInput)
    (ok : (runMediaLoop R (.default W) inputs).error = none)
    (reported : .fecFeedback q ∈
      (mediaStep R (runMediaLoop R (.default W) inputs).state i).out.filter (reads k)) :
    ∃ a before opener ds, Completed k (runMediaLoop R (.default W) inputs).state i
      (fedTo W R k (inputs ++ [i])) q a before opener ds := by
  obtain ⟨hstate, _, herror⟩ := run_noted (mediaStep R) (noteFed k) [] (.default W) inputs
  have hok := herror.trans ok
  have hcollects := run_collects (W := W) R k inputs hok
  obtain ⟨a, hin, hreported⟩ := mediaStep_reported R reported
  obtain ⟨ds, d, hpassed, hdecoded, hreport⟩ := received_reported R hreported
  rw [hstate] at hcollects
  obtain ⟨before, hnotes, opener, hhead, hds⟩ := hcollects.passed hpassed
  have hfed : fedTo W R k (inputs ++ [i]) = before ++ [a] := by
    rw [fedTo, run_snoc_state hok, noted_state, noteFed, hstate]
    unfold runMediaLoop at hin
    rw [hin]
    exact hnotes
  exact ⟨a, before, opener, ds, hin, hfed, hfed ▸ hhead, hds,
    (openDecoder_cases (decoderFor_opened hpassed).2.2).1, ⟨d, hdecoded⟩, hreport⟩

theorem Completed.oneFrame {rt : ReceiverRuntime W} {ds : DecoderState W}
    (h : Completed k rt i fed q a before opener ds) :
    ∀ b ∈ fed, b.header.frameIndex = q.frameIndex := by
  intro b hb
  rw [h.notes] at hb
  rw [h.report]
  rcases List.mem_append.mp hb with hb | hb
  · exact (h.collects.frame b hb).trans h.frame
  · rw [List.mem_singleton.mp hb]

/-- A decoder that is fed packets of one chunk, each of them once, has different ids. -/
theorem fedTo_distinct {plan : ChunkPlan W} (protects : plan.Protects block)
    (small : sent.length < 2 ^ 32)
    (packets : List.Forall₂ plan.IsPacket ((List.range sent.length).map UInt32.ofNat) sent)
    (R : SankakuReceiver) (arrives : DistinctDroplets sent (packetsFor k index inputs))
    (ofFrame : ∀ a ∈ fedTo W R k inputs, a.header.frameIndex = index) :
    (fedTo W R k inputs).seqIds.Nodup ∧ ∀ a ∈ fedTo W R k inputs,
      a.header = plan.header a.header.seqId ∧ a.header.seqId.toNat < sent.length := by
  obtain ⟨came, hfed, hsub, hfrom⟩ := fedTo_from (W := W) R k inputs
  rw [← hfed] at ofFrame ⊢
  -- The packets that brought the droplets are among those that came for the frame.
  have harrived : (came.map (fun x => x.2.packet)).Sublist (packetsFor k index inputs) := by
    have hall : (came.map Prod.snd).filter (fun i => concerns k i && i.frame? = some index) =
        came.map Prod.snd := by
      rw [List.filter_eq_self]
      intro i hi
      obtain ⟨x, hx, rfl⟩ := List.mem_map.mp hi
      have hindex := ofFrame x.1 (List.mem_map_of_mem hx)
      simp [(hfrom x hx).own, (hfrom x hx).frame, hindex]
    have hpackets := (hall ▸ hsub.filter _).map RxInput.packet
    rwa [List.map_map] at hpackets
  -- Such a packet is the one at the place its header tells.
  have hplace : ∀ x ∈ came, x.1.header = plan.header x.1.header.seqId ∧
      x.1.header.seqId.toNat < sent.length ∧
      sent[x.1.header.seqId.toNat]? = some x.2.packet := by
    intro x hx
    obtain ⟨body, hparsed⟩ := (hfrom x hx).parsed
    have hsent := arrives.own _ (harrived.subset (List.mem_map_of_mem hx))
    exact numbered_header protects small packets hsent hparsed
  constructor
  · have hplaces : (Fed.seqIds (came.map Prod.fst)).map (fun seqId => sent[seqId.toNat]?) =
        (came.map (fun x => x.2.packet)).map some := by
      rw [Fed.seqIds, List.map_map, List.map_map, List.map_map]
      exact List.map_congr_left (fun x hx => (hplace x hx).2.2)
    have honce := (arrives.once.sublist harrived).map (Option.some_injective Bytes)
    rw [← hplaces] at honce
    exact honce.of_map
  · intro a ha
    obtain ⟨x, hx, rfl⟩ := List.mem_map.mp ha
    exact ⟨(hplace x hx).1, (hplace x hx).2.1⟩

/-- Whatever of a frame's droplets reach the receiver, each of them once, and in whatever
order and among whatever else: the report on the frame is sound, if and only if the
packet that completes the frame brings the largest id its decoder was fed. -/
theorem fec_feedback_iff (thrifty : W.Thrifty) (R : SankakuReceiver) (s : SankakuSender)
    (id : UInt32) (frame : VideoFrame) (env : SendEnv) (k : StreamKey) (inputs : List RxInput)
    (i : RxInput) (q : FecFeedbackPacket)
    (arrives : DistinctDroplets (s.sendFrame W id frame env).sent
      (packetsFor k q.frameIndex (inputs ++ [i])))
    (ok : (runMediaLoop R (.default W) inputs).error = none)
    (reported : .fecFeedback q ∈
      (mediaStep R (runMediaLoop R (.default W) inputs).state i).out.filter (reads k)) :
    FeedbackSound q (fedTo W R k (inputs ++ [i])) ↔
      BringsLargest k (runMediaLoop R (.default W) inputs).state i
        (fedTo W R k (inputs ++ [i])) := by
  obtain ⟨a, before, opener, ds, h⟩ := run_reported R k inputs i ok reported
  have hlast : a ∈ fedTo W R k (inputs ++ [i]) := by
    rw [h.notes]
    exact List.mem_append_right _ (List.mem_singleton.mpr rfl)
  have hfrom := incoming_from h.brought
  have hindex : a.header.frameIndex = q.frameIndex := h.oneFrame a hlast
  have harrived : i.packet ∈ packetsFor k q.frameIndex (inputs ++ [i]) :=
    List.mem_map_of_mem (List.mem_filter.mpr ⟨List.mem_append_right _ (List.mem_singleton.mpr rfl),
      by simp [hfrom.own, hfrom.frame, hindex]⟩)
  obtain ⟨plan, block, protects, small, packets⟩ :=
    sendFrame_numbered s id frame env (arrives.own _ harrived)
  obtain ⟨hdistinct, hheader⟩ := fedTo_distinct protects small packets R arrives h.oneFrame
  have hblocks : divCeil opener.header.totalSize.toNat opener.header.pktSize.toNat =
      plan.blocks := by
    rw [(hheader opener (List.mem_of_mem_head? h.first)).1, (header_pktSize protects _).1]
    rfl
  have hideal : ds.idealPackets.toNat = plan.blocks := by
    rw [h.collects.ideal, hblocks, UInt32.toNat_ofNat']
    exact Nat.mod_eq_of_lt (blocks_lt protects)
  have henough : ds.idealPackets.toNat ≤ (fedTo W R k (inputs ++ [i])).length := by
    obtain ⟨d, hdecoded⟩ := h.decoded
    have hneed := h.collects.taken.enough thrifty hdecoded
    rw [geometry_count, hblocks, List.length_map] at hneed
    rw [hideal, h.notes, List.length_append, List.length_singleton]
    exact hneed
  have hroom : a.header.seqId.toNat + 1 < 2 ^ 32 := by
    have hplace := (hheader a hlast).2
    omega
  rw [h.report, feedbackSound_iff hlast hdistinct hroom ⟨hideal ▸ blocks_pos protects, henough⟩]
  constructor
  · intro hlargest a' ha'
    rw [h.brought] at ha'
    cases ha'
    exact hlargest
  · intro hbrings
    exact hbrings a h.brought

/-- The droplets of a frame of two blocks, as its sender numbers them. -/
def dropletsOfTwo : List Bytes :=
  ((SankakuSender.new .default 7).sendFrame .repetition 7 (nalFrame [1]) (.live 42)).sent

def dropletOfTwo (seqId : Nat) : RxInput := .datagram (.live 0) (dropletsOfTwo.getD seqId [])

/-- In order the second droplet completes the frame, and two were used. -/
theorem fec_feedback_inOrder :
    FeedbackSound ⟨42, 7, 0, 2, 2⟩
      (fedTo .repetition ⟨.disabled, [], true⟩ ⟨42, 7⟩ [dropletOfTwo 0, dropletOfTwo 1]) := by
  refine (fec_feedback_iff Wirehair.repetition_isThrifty ⟨.disabled, [], true⟩ (.new .default 7) 7
    (nalFrame [1]) (.live 42) ⟨42, 7⟩ [dropletOfTwo 0] (dropletOfTwo 1) ⟨42, 7, 0, 2, 2⟩
    ⟨by decide +kernel, by decide +kernel⟩ (by decide +kernel) (by decide +kernel)).mpr ?_
  unfold BringsLargest
  decide +kernel

/-- The other way round the first droplet completes it: the report says one was used, of
a frame that needs two. -/
theorem fec_feedback_reordered :
    let R : SankakuReceiver := ⟨.disabled, [], true⟩
    let q : FecFeedbackPacket := ⟨42, 7, 0, 2, 1⟩
    DistinctDroplets dropletsOfTwo (packetsFor ⟨42, 7⟩ 0 [dropletOfTwo 1, dropletOfTwo 0]) ∧
    .fecFeedback q ∈ (runMediaLoop R (.default .repetition) [dropletOfTwo 1, dropletOfTwo 0]).out ∧
    ¬ FeedbackSound q (fedTo .repetition R ⟨42, 7⟩ [dropletOfTwo 1, dropletOfTwo 0]) := by
  intro R q
  refine ⟨⟨by decide +kernel, by decide +kernel⟩, by decide +kernel, ?_⟩
  intro hsound
  exact absurd hsound.enough (by decide)

end Sankaku
