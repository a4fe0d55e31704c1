import Sankaku.Proofs.SenderSpec

namespace Sankaku
open SankakuSender

variable {W : Wirehair}

/-- A control packet that reports on one frame. -/
inductive Report
  | fec (packet : FecFeedbackPacket)
  | telemetry (packet : TelemetryPacket)
  deriving DecidableEq

namespace Report

def parse : Bytes → Option Report
  | [] => none
  | type :: body =>
    match PacketType.fromByte type with
    | some .fecFeedback => (FecFeedbackPacket.deserialize body).map .fec
    | some .telemetry => (TelemetryPacket.deserialize body).map .telemetry
    | _ => none

def key : Report → StreamKey
  | .fec packet => ⟨packet.sessionId, packet.streamId⟩
  | .telemetry packet => ⟨packet.sessionId, packet.streamId⟩

def frameIndex : Report → UInt64
  | .fec packet => packet.frameIndex
  | .telemetry packet => packet.frameIndex

/-- What a report makes of the two values of its stream. A policy whose bounds
cross panics. -/
def adjust (policy : FecPolicy) (t : Tuning) : Report → Option Tuning
  | .fec packet =>
    (adjustRedundancy t.redundancy packet policy).map (fun r => { t with redundancy := r })
  | .telemetry packet =>
    (adjustRedundancyWithTelemetry t.redundancy packet policy).map (fun r => ⟨r, packet.jitterUs⟩)

/-- One report after the other. -/
def adjustAll (policy : FecPolicy) (t : Tuning) (reports : List Report) : Option Tuning :=
  reports.foldlM (adjust policy) t

theorem adjustAll_append (policy : FecPolicy) (t : Tuning) (xs ys : List Report) :
    adjustAll policy t (xs ++ ys) =
      (adjustAll policy t xs).bind (fun t' => adjustAll policy t' ys) :=
  List.foldlM_append

end Report

def reportsIn (packets : List Bytes) : List Report := packets.filterMap Report.parse

theorem reportsIn_append (ps qs : List Bytes) :
    reportsIn (ps ++ qs) = reportsIn ps ++ reportsIn qs := List.filterMap_append

def DrainState.tuning (st : DrainState) : Tuning := ⟨st.redundancy, st.jitterUs⟩

/-- The reports a drain goes by: those on its stream, up to its frame. -/
def DrainContext.heeds (cx : DrainContext) (r : Report) : Bool :=
  r.key = ⟨cx.sessionId, cx.streamId⟩ ∧ r.frameIndex ≤ cx.frameIndex

theorem heeds_fec (cx : DrainContext) (f : FecFeedbackPacket) : cx.heeds (.fec f) = true ↔
    f.sessionId = cx.sessionId ∧ f.streamId = cx.streamId ∧ f.frameIndex ≤ cx.frameIndex := by
  simp [DrainContext.heeds, Report.key, Report.frameIndex, and_assoc]

theorem heeds_telemetry (cx : DrainContext) (f : TelemetryPacket) :
    cx.heeds (.telemetry f) = true ↔
      f.sessionId = cx.sessionId ∧ f.streamId = cx.streamId ∧ f.frameIndex ≤ cx.frameIndex := by
  simp [DrainContext.heeds, Report.key, Report.frameIndex, and_assoc]

def DrainContext.heeded (cx : DrainContext) (packets : List Bytes) : List Report :=
  (reportsIn packets).filter cx.heeds

theorem heeded_append (cx : DrainContext) (ps qs : List Bytes) :
    cx.heeded (ps ++ qs) = cx.heeded ps ++ cx.heeded qs := by
  rw [DrainContext.heeded, reportsIn_append, List.filter_append]
  rfl

theorem adjustAll_one (policy : FecPolicy) (t : Tuning) (r : Report) :
    Report.adjustAll policy t [r] = r.adjust policy t := by
  simp [Report.adjustAll]

theorem heeded_one (cx : DrainContext) (packet : Bytes) :
    cx.heeded [packet] = (Report.parse packet).toList.filter cx.heeds := by
  cases h : Report.parse packet <;> simp [DrainContext.heeded, reportsIn, h]

theorem heeded_tuning (cx : DrainContext) (st : DrainState) (r : Report) {drained : Option DrainState}
    (h : drained.map DrainState.tuning = r.adjust cx.fec st.tuning) :
    (if cx.heeds r = true then drained else some st).map DrainState.tuning =
      Report.adjustAll cx.fec st.tuning ([r].filter cx.heeds) := by
  rw [List.filter_singleton]
  cases cx.heeds r with
  | false => rfl
  | true => rw [if_pos rfl, cond_true, adjustAll_one, h]

theorem drainFecFeedback_tuning (cx : DrainContext) (st : DrainState) (body : Bytes) :
    (drainFecFeedback cx st body).map DrainState.tuning = Report.adjustAll cx.fec st.tuning
      (((FecFeedbackPacket.deserialize body).map Report.fec).toList.filter cx.heeds) := by
  unfold drainFecFeedback
  cases FecFeedbackPacket.deserialize body with
  | none => rfl
  | some f =>
    simp only [Option.map_some, Option.toList_some, ← heeds_fec]
    exact heeded_tuning cx st _ (Option.map_map ..)

theorem drainTelemetry_tuning (cx : DrainContext) (st : DrainState) (body : Bytes) :
    (drainTelemetry cx st body).map DrainState.tuning = Report.adjustAll cx.fec st.tuning
      (((TelemetryPacket.deserialize body).map Report.telemetry).toList.filter cx.heeds) := by
  unfold drainTelemetry
  cases TelemetryPacket.deserialize body with
  | none => rfl
  | some f =>
    simp only [Option.map_some, Option.toList_some, ← heeds_telemetry]
    exact heeded_tuning cx st _ (Option.map_map ..)

/-- Feedback on the bitrate leaves the tuning alone. -/
theorem drainFeedback_tuning (cx : DrainContext) (st : DrainState) (body : Bytes) :
    (drainFeedback cx st body).tuning = st.tuning := by
  unfold drainFeedback
  split
  · split
    · simp only
      split <;> rfl
    · rfl
  · rfl

theorem drainPacket_tuning (cx : DrainContext) (st : DrainState) (packet : Bytes) :
    (drainPacket cx st packet).map DrainState.tuning =
      Report.adjustAll cx.fec st.tuning (cx.heeded [packet]) := by
  rw [heeded_one]
  cases packet with
  | nil => rfl
  | cons type body =>
    simp only [drainPacket, Report.parse]
    cases PacketType.fromByte type with
    | none => rfl
    | some kind =>
      cases kind with
      | feedback => exact congrArg some (drainFeedback_tuning cx st body)
      | fecFeedback => exact drainFecFeedback_tuning cx st body
      | telemetry => exact drainTelemetry_tuning cx st body
      | _ => rfl

/-- A drain that does not panic applies what it heeds, in order, and leaves nothing. -/
theorem drainControlChannel_tuning (cx : DrainContext) (st : DrainState) (queue : List Bytes)
    (goes : (drainControlChannel cx st queue).panicked = false) :
    (drainControlChannel cx st queue).queue = [] ∧
    Report.adjustAll cx.fec st.tuning (cx.heeded queue) =
      some (drainControlChannel cx st queue).state.tuning := by
  induction queue generalizing st with
  | nil => exact ⟨rfl, rfl⟩
  | cons packet queue ih =>
    have hone := drainPacket_tuning cx st packet
    rw [← List.singleton_append, heeded_append, Report.adjustAll_append, ← hone]
    cases hd : drainPacket cx st packet with
    | none => simp [drainControlChannel, hd] at goes
    | some st' =>
      simp only [drainControlChannel, hd, List.singleton_append] at goes ⊢
      exact ih st' goes

namespace SankakuSender

theorem queued_receiveControl {s : SankakuSender} (listening : s.controlInRx.isSome = true)
    (packets : List Bytes) :
    (s.receiveControl packets).queued = s.queued ++ packets := by
  obtain ⟨queue, h⟩ := Option.isSome_iff_exists.mp listening
  simp [queued, receiveControl, h]

theorem drain_tuning (s : SankakuSender) (cx : DrainContext) (t : Tuning) :
    (s.drain cx t).1 = .error .panicked ∨ (s.drain cx t).2.queued = [] ∧
      ∃ t', (s.drain cx t).1 = .ok t' ∧ Report.adjustAll cx.fec t (cx.heeded s.queued) = some t' := by
  unfold drain queued
  cases h : s.controlInRx with
  | none =>
    simp only [h]
    exact .inr ⟨rfl, t, rfl, rfl⟩
  | some queue =>
    simp only [Option.getD_some]
    have htuning := drainControlChannel_tuning cx
      ⟨s.targetBitrateBps, s.pendingBitrateUpdateBps, t.redundancy, t.jitterUs⟩ queue
    split
    · exact .inl rfl
    · rename_i hgoes
      obtain ⟨hempty, hadjust⟩ := htuning (Bool.eq_false_iff.mpr hgoes)
      exact .inr ⟨hempty, _, rfl, hadjust⟩

def arrivals (env : SendEnv) (ids : List UInt32) : List Bytes :=
  ids.flatMap (fun i => (env.droplet i).arrivals)

/-- How a loop that took these packets off the channel can end. -/
inductive LoopCase (policy : FecPolicy) (t : Tuning) (heeded : List Report) (takes : Prop)
    (o : SendOutcome Tuning) : Prop
  | panicked (h : o.result = .error .panicked)
  | failed (e) (h : o.result = .error e) (refused : ¬ takes) (empty : o.sender.queued = [])
  | done (t') (h : o.result = .ok t') (takes : takes) (empty : o.sender.queued = [])
    (applied : Report.adjustAll policy t heeded = some t')

/-- One droplet: everything there is and everything that arrives is drained. -/
theorem sendDroplet_loop (s : SankakuSender) (plan : ChunkPlan W) (env : DropletEnv) (i : UInt32)
    (t : Tuning) (listening : s.controlInRx.isSome = true)
    (encodes : ∀ j, ∃ data, plan.encoder.encode j = .ok data) :
    LoopCase s.transport.fec t ((plan.drainContext s).heeded (s.queued ++ env.arrivals))
      (env.sendDatagram = .ok ()) (s.sendDroplet plan env i t) := by
  have hdrain := drain_tuning (s.receiveControl env.arrivals) (plan.drainContext s) t
  rw [queued_receiveControl listening] at hdrain
  unfold sendDroplet
  cases hd : (s.receiveControl env.arrivals).drain (plan.drainContext s) t with
  | mk result s' =>
  rw [hd] at hdrain
  rcases hdrain with rfl | ⟨hempty, t', rfl, happlied⟩
  · exact .panicked rfl
  obtain ⟨data, hdata⟩ := encodes i
  simp only [hdata]
  cases padPacket s'.transport.padding env.maxDatagramSize
      (dataDatagram plan.context.sessionId (plan.header i) data) with
  | none => exact .panicked rfl
  | some packet =>
    cases hsend : env.sendDatagram with
    | error e => exact .failed _ rfl nofun hempty
    | ok u => exact .done t' rfl rfl hempty happlied

/-- The loop applies what was there and what arrives until it is done. -/
theorem sendDroplets_loop (s : SankakuSender) (plan : ChunkPlan W) (env : SendEnv) (t : Tuning)
    (i : UInt32) (ids : List UInt32) (listening : s.controlInRx.isSome = true)
    (encodes : ∀ j, ∃ data, plan.encoder.encode j = .ok data) :
    LoopCase s.transport.fec t ((plan.drainContext s).heeded (s.queued ++ arrivals env (i :: ids)))
      (TakesAll env (i :: ids)) (s.sendDroplets plan env t (i :: ids)) := by
  induction ids generalizing s t i with
  | nil =>
    have hfirst := sendDroplet_loop s plan (env.droplet i) i t listening encodes
    simp only [arrivals, List.flatMap_cons, List.flatMap_nil, List.append_nil, sendDroplets]
    cases hfirst with
    | panicked h =>
      rw [h]
      exact .panicked rfl
    | failed e h refused empty =>
      rw [h]
      exact .failed e rfl (fun all => refused (all i List.mem_cons_self)) empty
    | done t' h takes empty applied =>
      rw [h]
      exact .done t' rfl (by simpa [TakesAll] using takes) empty applied
  | cons j ids ih =>
    have hfirst := sendDroplet_loop s plan (env.droplet i) i t listening encodes
    have hkept := (sendDroplet_cases s plan (env.droplet i) i t).1
    rw [sendDroplets]
    cases hfirst with
    | panicked h =>
      simp only [h]
      exact .panicked rfl
    | failed e h refused empty =>
      simp only [h]
      exact .failed e rfl (fun all => refused (all i List.mem_cons_self)) empty
    | done t' h takes empty applied =>
      have hcx : plan.drainContext (s.sendDroplet plan (env.droplet i) i t).sender =
          plan.drainContext s := by simp only [ChunkPlan.drainContext, hkept.transport]
      have hrest := ih (s.sendDroplet plan (env.droplet i) i t).sender t' j
        (hkept.listening.trans listening)
      rw [hcx, hkept.transport, empty, List.nil_append] at hrest
      simp only [h]
      cases hrest with
      | panicked h' => exact .panicked h'
      | failed e h' refused' empty' =>
        exact .failed e h' (fun all => refused' (fun k hk => all k (List.mem_cons_of_mem _ hk))) empty'
      | done t'' h' takes' empty' applied' =>
        refine .done t'' h' ?_ empty' ?_
        · exact List.forall_mem_cons.mpr ⟨takes, takes'⟩
        · rw [arrivals, List.flatMap_cons, ← List.append_assoc, heeded_append,
            Report.adjustAll_append, applied]
          exact applied'

theorem Loop.Begins.listening {l : Loop W} {id : UInt32} (begins : l.Begins s id frame)
    (atOnce : HandshakeAtOnce s) : l.sender.controlInRx.isSome = true := by
  rw [(begins.prepared.control atOnce).1.controlIn, begins.session, Option.isSome_some]

/-- How the loop of a call ends. -/
theorem Loop.Begins.ends {l : Loop W} {id : UInt32} (begins : l.Begins s id frame)
    (encodes : W.EncodesAll) (atOnce : HandshakeAtOnce s) (env : SendEnv) :
    Kept l.sender (l.run env).sender ∧
    LoopCase s.transport.fec (s.tuning id)
      ((l.plan.drainContext l.sender).heeded (s.queued ++ arrivals env l.ids)) (TakesAll env l.ids)
      (l.run env) := by
  obtain ⟨block, hprotects, _⟩ := begins.block
  obtain ⟨rest, hids⟩ := begins.ids_cons
  refine ⟨(sendDroplets_sent l.sender l.plan env l.tuning l.ids).1, ?_⟩
  rw [← begins.tuning, ← (begins.prepared.control atOnce).2, ← begins.prepared.transport, Loop.run,
    hids]
  exact sendDroplets_loop l.sender l.plan env l.tuning 0 rest (begins.listening atOnce)
    (hprotects.encodes encodes)

end SankakuSender

end Sankaku
