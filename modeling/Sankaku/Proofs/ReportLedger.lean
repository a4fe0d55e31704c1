import Sankaku.Proofs.FrameIndex
import Sankaku.Proofs.Reports

namespace Sankaku
open Machine SankakuSender

variable {W : Wirehair}

namespace SankakuSender

/-- The report is on a frame that was sent on this stream. -/
def due (s : SankakuSender) (id : UInt32) (r : Report) : Bool :=
  s.sessionId = some r.key.sessionId ∧ r.key.streamId = id ∧ r.frameIndex < s.nextIndex id

/-- The due reports among these packets, in their order. -/
def dueIn (s : SankakuSender) (id : UInt32) (packets : List Bytes) : List Report :=
  (reportsIn packets).filter (s.due id)

/-- The droplets a loop comes to: up to the first that the transport refuses. -/
def reached (env : SendEnv) : List UInt32 → List UInt32
  | [] => []
  | i :: ids =>
    match (env.droplet i).sendDatagram with
    | .ok () => i :: reached env ids
    | .error _ => [i]

/-- The control packets that arrive during a call. -/
def arrivingIn (W : Wirehair) (s : SankakuSender) (id : UInt32) (frame : VideoFrame) (env : SendEnv) :
    List Bytes :=
  match s.loop? W id frame env with
  | none => []
  | some l => arrivals env (reached env l.ids)

/-- The reports a call applies to the tuning of its stream. -/
def appliedIn (W : Wirehair) (s : SankakuSender) (id : UInt32) (frame : VideoFrame) (env : SendEnv) :
    List Report :=
  match s.loop? W id frame env with
  | none => []
  | some l => (l.plan.drainContext l.sender).heeded (s.queued ++ arrivals env (reached env l.ids))

/-- No due report on this stream is lost: a call that takes one off the channel is on
this stream and gets all its datagrams out, and the stream is not opened anew before. -/
def KeepsReports (W : Wirehair) (id : UInt32) (s : SankakuSender) : SenderOp → Prop
  | .sendFrame other frame env => ∀ l, s.loop? W other frame env = some l →
      s.dueIn id (s.queued ++ arrivals env (reached env l.ids)) ≠ [] → other = id ∧ TakesAll env l.ids
  | .openStreamWithType _ => s.nextStreamId = id → s.nextStreamId.toNat + 1 < 2 ^ 32 →
      s.dueIn id s.queued = []
  | _ => True

/-- The due reports that have arrived since the stream was last sent on. -/
def owedStep (W : Wirehair) (id : UInt32) (s : SankakuSender) (owed : List Report) :
    SenderOp → List Report
  | .receiveControl packets => owed ++ s.dueIn id packets
  | .sendFrame other frame env =>
    match (s.sendFrame W other frame env).result with
    | .ok _ => if other = id then [] else owed ++ s.dueIn id (s.arrivingIn W other frame env)
    | .error _ => owed ++ s.dueIn id (s.arrivingIn W other frame env)
  | _ => owed

def owed (W : Wirehair) (id : UInt32) (s : SankakuSender) (soFar : List Report) :
    List SenderOp → List Report
  | [] => soFar
  | op :: ops => owed W id (senderStep W s op).state (owedStep W id s soFar op) ops

theorem dueIn_append (s : SankakuSender) (id : UInt32) (ps qs : List Bytes) :
    s.dueIn id (ps ++ qs) = s.dueIn id ps ++ s.dueIn id qs := by
  rw [dueIn, reportsIn_append, List.filter_append]
  rfl

theorem due_congr {s s' : SankakuSender} {id : UInt32} (session : s'.sessionId = s.sessionId)
    (index : s'.nextIndex id = s.nextIndex id) : s'.due id = s.due id := by
  funext r
  simp only [due, session, index]

theorem dueIn_none {s : SankakuSender} (h : s.sessionId = none) (id : UInt32) (packets : List Bytes) :
    s.dueIn id packets = [] :=
  List.filter_eq_nil_iff.mpr (fun r _ => by simp [due, h])

theorem dueIn_prepared {s s' : SankakuSender} (atOnce : HandshakeAtOnce s) (h : Prepared s s')
    (id : UInt32) : s'.dueIn id s'.queued = s.dueIn id s.queued := by
  rw [(h.control atOnce).2]
  cases hs : s.sessionId with
  | none =>
    rw [atOnce.queued_nil hs]
    rfl
  | some sid =>
    rw [dueIn, dueIn, due_congr ((h.sessionId sid hs).trans hs.symm) (h.same.indices id)]

theorem reached_all (h : TakesAll env ids) : reached env ids = ids := by
  induction ids with
  | nil => rfl
  | cons i ids ih =>
    rw [TakesAll, List.forall_mem_cons] at h
    simp only [reached, h.1]
    rw [ih h.2]

/-- The invariant of a run: the channel holds the due reports, all of them. -/
structure Ledger (id : UInt32) (s : SankakuSender) (soFar : List Report) : Prop where
  atOnce : HandshakeAtOnce s
  queued : s.dueIn id s.queued = soFar

theorem Ledger.prepared {id : UInt32} (h : Ledger id s soFar) (prepared : Prepared s s') :
    Ledger id s' soFar :=
  ⟨(prepared.control h.atOnce).1, (dueIn_prepared h.atOnce prepared id).trans h.queued⟩

theorem commitFrame_queued (s : SankakuSender) (id : UInt32) (len : Nat) (t : Tuning) :
    (s.commitFrame id len t).queued = s.queued := rfl

/-- A call that fails before its loop takes nothing off the channel. One that comes
to its loop empties it. -/
theorem sendFrame_ledger (encodes : W.EncodesAll) {id : UInt32} (ledger : Ledger id s soFar)
    (other : UInt32) (frame : VideoFrame) (env : SendEnv)
    (keeps : KeepsReports W id s (.sendFrame other frame env))
    (goes : (s.sendFrame W other frame env).result ≠ .error .panicked) :
    Ledger id (s.sendFrame W other frame env).sender
      (owedStep W id s soFar (.sendFrame other frame env)) := by
  rcases sendFrame_loop (W := W) s other frame env with
    ⟨hloop, e, s', he, hprepared⟩ | ⟨l, hloop, begins, heq⟩
  · have hsame : s.dueIn id (s.arrivingIn W other frame env) = [] := by
      rw [arrivingIn, hloop]
      rfl
    simp only [owedStep, he, hsame, List.append_nil]
    exact ledger.prepared hprepared
  · obtain ⟨atOnce, rfl⟩ := ledger
    obtain ⟨hkept, hend⟩ := begins.ends encodes atOnce env
    have hatOnce := hkept.atOnce (begins.prepared.control atOnce).1
    have hkeeps := keeps l hloop
    rw [dueIn_append] at hkeeps
    simp only [owedStep, arrivingIn, hloop]
    cases hend with
    | panicked h =>
      rw [heq, h] at goes
      exact absurd rfl goes
    | failed e h refused empty =>
      -- Nothing due was in reach of a call that lost a datagram.
      have hnone : s.dueIn id s.queued ++ s.dueIn id (arrivals env (reached env l.ids)) = [] :=
        Classical.byContradiction (fun hne => refused (hkeeps hne).2)
      simp only [heq, h, hnone]
      exact ⟨hatOnce, by rw [empty]; rfl⟩
    | done t h takes empty applied =>
      simp only [heq, h]
      have hdone : (if other = id then [] else s.dueIn id s.queued ++
          s.dueIn id (arrivals env (reached env l.ids))) = [] := by
        split
        · rfl
        · rename_i hother
          exact Classical.byContradiction (fun hne => hother (hkeeps hne).1)
      rw [hdone]
      exact ⟨{ hatOnce with }, by rw [commitFrame_queued, empty]; rfl⟩

theorem owedStep_ledger (encodes : W.EncodesAll) {id : UInt32} (ledger : Ledger id s soFar)
    (op : SenderOp) (keeps : KeepsReports W id s op) (goes : (senderStep W s op).error = none) :
    Ledger id (senderStep W s op).state (owedStep W id s soFar op) := by
  obtain ⟨atOnce, rfl⟩ := ledger
  cases op with
  | setTransportConfig transport => exact ⟨{ atOnce with }, rfl⟩
  | updateCompressionGraph graph =>
    exact ⟨⟨Option.isSome_map.trans atOnce.pipeline, atOnce.controlIn, atOnce.controlOut⟩, rfl⟩
  | applyNetworkTelemetry other ppm jitter =>
    have hindex := (applyNetworkTelemetry_same s other ppm jitter).indices id
    obtain ⟨streams, hs⟩ := applyNetworkTelemetry_streams s other ppm jitter
    simp only [senderStep, owedStep, hs] at hindex ⊢
    exact ⟨{ atOnce with }, congrArg (fun d => (reportsIn s.queued).filter d) (due_congr rfl hindex)⟩
  | takeBitrateUpdateBps => exact ⟨{ atOnce with }, rfl⟩
  | receiveControl packets =>
    refine ⟨(receiveControl_kept s packets).atOnce atOnce, ?_⟩
    change s.dueIn id (s.receiveControl packets).queued = _
    cases hrx : s.controlInRx with
    | some queue => rw [queued_receiveControl (by rw [hrx, Option.isSome_some]), dueIn_append]; rfl
    | none =>
      have hnone : s.sessionId = none := by
        have := atOnce.controlIn
        rwa [hrx, Option.isSome_none, eq_comm, Option.isSome_eq_false_iff,
          Option.isNone_iff_eq_none] at this
      simp only [owedStep, dueIn_none hnone, List.append_nil]
  | openStreamWithType t =>
    by_cases hroom : s.nextStreamId.toNat + 1 < 2 ^ 32
    · rw [openStream_room t hroom]
      refine ⟨{ atOnce with }, ?_⟩
      by_cases hid : s.nextStreamId = id
      · refine Eq.trans ?_ (keeps hid hroom).symm
        apply List.filter_eq_nil_iff.mpr
        intro r _ hdue
        simp [due, nextIndex, StreamRegistry.get, hid, newStreamState] at hdue
      · refine congrArg (fun d => (reportsIn s.queued).filter d) (due_congr rfl ?_)
        simp [nextIndex, StreamRegistry.get, StreamRegistry.context_insert_other _ _ _ (Ne.symm hid)]
    · rw [openStream_full t hroom]
      exact ⟨atOnce, rfl⟩
  | sendFrame other frame env =>
    refine sendFrame_ledger encodes ⟨atOnce, rfl⟩ other frame env keeps (fun hpanic => ?_)
    simp [senderStep, hpanic] at goes
  | sendStreamFin sessionId other bytes frames =>
    rw [senderStep, sendStreamFin_sender]
    exact Ledger.prepared ⟨atOnce, rfl⟩ (ensureHandshake_prepared s sessionId)

theorem owed_ledger (encodes : W.EncodesAll) {id : UInt32} (ops : List SenderOp)
    (ledger : Ledger id s soFar) (kept : Along (senderStep W) (KeepsReports W id) s ops)
    (goes : (run (senderStep W) s ops).error = none) :
    Ledger id (run (senderStep W) s ops).state (owed W id s soFar ops) := by
  induction ops generalizing s soFar with
  | nil => exact ledger
  | cons op ops ih =>
    obtain ⟨hfirst, hrest⟩ := run_cons_none goes
    obtain ⟨hkeeps, hlater⟩ := kept
    rw [run_cons_state hfirst]
    exact ih (owedStep_ledger encodes ledger op hkeeps hfirst) (hlater hfirst) hrest

theorem commitFrame_tuning {s : SankakuSender} {id : UInt32} (registered : s.streams.get id = some st)
    (len : Nat) (t : Tuning) :
    (s.commitFrame id len t).tuning id = ⟨clampRat t.redundancy 1 maxRedundancy, t.jitterUs⟩ ∧
    ∀ other, other ≠ id → (s.commitFrame id len t).tuning other = s.tuning other := by
  obtain ⟨c, hc, _⟩ := Option.map_eq_some_iff.mp registered
  constructor
  · simp [tuning, streamState, commitFrame, StreamRegistry.get, hc]
  · intro other hother
    simp only [tuning, streamState, commitFrame, StreamRegistry.get,
      StreamRegistry.context_modify_other _ _ hother]
    rfl

/-- A drain for the next frame of a stream heeds every due report on it. -/
theorem due_heeded {l : Loop W} {id : UInt32} (begins : l.Begins s id frame) (packets : List Bytes) :
    ((l.plan.drainContext l.sender).heeded packets).filter (s.due id) = s.dueIn id packets := by
  rw [DrainContext.heeded, List.filter_filter, dueIn]
  apply List.filter_congr
  intro r _
  cases hdue : s.due id r with
  | false => rfl
  | true =>
  rw [Bool.true_and]
  simp only [due, decide_eq_true_eq] at hdue
  obtain ⟨hsession, hstream, hframe⟩ := hdue
  have hid : l.plan.context.sessionId = r.key.sessionId := by
    have := begins.session.symm.trans (begins.prepared.sessionId _ hsession)
    exact Option.some.inj this
  refine decide_eq_true ⟨?_, ?_⟩
  · rw [ChunkPlan.drainContext, hid, begins.stream, ← hstream]
  · rw [ChunkPlan.drainContext, begins.index]
    exact UInt64.le_of_lt hframe

end SankakuSender

/-- In a run in which every step keeps the due reports on a stream, a successful call
on it applies, in their order, what it is owed and what arrives during the call, and
leaves the other streams alone. -/
theorem reports_applied (encodes : W.EncodesAll) (transport : TransportConfig) (seed id : UInt32)
    (ops : List SenderOp)
    (kept : Along (senderStep W) (KeepsReports W id) (.new transport seed) ops)
    (goes : (run (senderStep W) (.new transport seed) ops).error = none)
    (frame : VideoFrame) (env : SendEnv) (index : UInt64) :
    let s := (run (senderStep W) (.new transport seed) ops).state
    let call := s.sendFrame W id frame env
    call.result = .ok index → ∃ t,
      Report.adjustAll s.transport.fec (s.tuning id) (s.appliedIn W id frame env) = some t ∧
      call.sender.tuning id = ⟨clampRat t.redundancy 1 maxRedundancy, t.jitterUs⟩ ∧
      (∀ other, other ≠ id → call.sender.tuning other = s.tuning other) ∧
      (s.appliedIn W id frame env).filter (s.due id) =
        owed W id (.new transport seed) [] ops ++ s.dueIn id (s.arrivingIn W id frame env) := by
  have start : Ledger id (.new transport seed) [] := ⟨⟨rfl, rfl, rfl⟩, rfl⟩
  obtain ⟨atOnce, hqueued⟩ := owed_ledger encodes ops start kept goes
  intro s call sent
  rcases sendFrame_loop (W := W) s id frame env with
    ⟨_, e, s', he, _⟩ | ⟨l, hloop, begins, heq⟩
  · rw [show call = _ from he] at sent
    cases sent
  obtain ⟨hkept, hend⟩ := begins.ends encodes atOnce env
  cases hend with
  | panicked h | failed e h refused empty =>
    rw [show call = _ from heq, h] at sent
    cases sent
  | done t h takes empty applied =>
    have hcall : call.sender = (l.run env).sender.commitFrame id
        (FrameEnvelope.serialize ⟨frame.timestampUs, frame.keyframe, frame.payload⟩).length t := by
      rw [show call = _ from heq, h]
    obtain ⟨hown, hothers⟩ := commitFrame_tuning (hkept.streams ▸ begins.registered)
      (FrameEnvelope.serialize ⟨frame.timestampUs, frame.keyframe, frame.payload⟩).length t
    refine ⟨t, ?_, ?_, fun other hother => ?_, ?_⟩
    · simpa only [appliedIn, hloop, reached_all takes] using applied
    · rw [hcall]
      exact hown
    · rw [hcall, hothers other hother, ← begins.prepared.tuning, hkept.tuning]
    · simp only [appliedIn, arrivingIn, hloop, due_heeded begins, dueIn_append]
      exact congrArg (· ++ s.dueIn id (arrivals env (reached env l.ids))) hqueued

/-- Frame 0 of stream 7 took twice as many packets as it has blocks. -/
def decodedFrame : Bytes :=
  PacketType.fecFeedback.toByte :: (le64 42 ++ le32 7 ++ le64 0 ++ le32 2 ++ le32 4)

/-- A stream that gets a report on its first frame. -/
theorem reports_applied_oneStream :
    let ops := [.openStreamWithType .video, .sendFrame 7 (nalFrame [1]) (.live 42),
      .receiveControl [decodedFrame]]
    let s := (run (senderStep .repetition) (.new .default 7) ops).state
    let call := s.sendFrame .repetition 7 (nalFrame [2]) (.live 42)
    ∃ t, Report.adjustAll s.transport.fec (s.tuning 7)
        (s.appliedIn .repetition 7 (nalFrame [2]) (.live 42)) = some t ∧
      call.sender.tuning 7 = ⟨clampRat t.redundancy 1 maxRedundancy, t.jitterUs⟩ ∧
      (∀ other, other ≠ 7 → call.sender.tuning other = s.tuning other) ∧
      (s.appliedIn .repetition 7 (nalFrame [2]) (.live 42)).filter (s.due 7) =
        owed .repetition 7 (.new .default 7) [] ops ++
          s.dueIn 7 (s.arrivingIn .repetition 7 (nalFrame [2]) (.live 42)) := by
  intro ops s call
  refine reports_applied Wirehair.repetition_encodesAll .default 7 7 ops ⟨fun _ _ => ?_, fun _ =>
    ⟨fun _ _ _ => ⟨rfl, fun _ _ => rfl⟩, fun _ => ⟨trivial, fun _ => trivial⟩⟩⟩ ?_ (nalFrame [2])
    (.live 42) 1 ?_
  all_goals decide +kernel

/-- The report is taken off the channel by a call on another stream, or by a call that
the transport refuses. The next call on its stream succeeds without it. -/
theorem report_discarded :
    let refusing : SendEnv := ⟨42, none, fun _ => ⟨[], none, .error (.sendDatagram .tooLarge)⟩⟩
    let s := (run (senderStep .repetition) (.new .default 7) [.openStreamWithType .video,
      .openStreamWithType .video, .sendFrame 7 (nalFrame [1]) (.live 42)]).state
    ∃ r, Report.parse decodedFrame = some r ∧ s.due 7 r = true ∧
      r.adjust s.transport.fec (s.tuning 7) ≠ some (s.tuning 7) ∧
      ∀ op ∈ [SenderOp.sendFrame 8 (nalFrame [2]) (.live 42), .sendFrame 7 (nalFrame [2]) refusing],
        let s' := (run (senderStep .repetition) s [.receiveControl [decodedFrame], op]).state
        let call := s'.sendFrame .repetition 7 (nalFrame [3]) (.live 42)
        call.result = .ok 1 ∧ s'.appliedIn .repetition 7 (nalFrame [3]) (.live 42) = [] ∧
          call.sender.tuning 7 = s.tuning 7 :=
  ⟨.fec ⟨42, 7, 0, 2, 4⟩, by decide +kernel⟩

end Sankaku
