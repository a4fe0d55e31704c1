import Mathlib.Tactic.Linarith
import Mathlib.Tactic.NormNum
import Sankaku.Proofs.LossReports
import Sankaku.Proofs.RepetitionWirehair
import Sankaku.Proofs.SenderSpec

namespace Sankaku
open Machine

variable {W : Wirehair} {held target : UInt32} {slot : Option UInt32}

/-- The target lies in its range, and an embedder that runs at `held` runs at the
target once it has taken what is pending. -/
structure Settled (held target : UInt32) (slot : Option UInt32) : Prop where
  low : minVideoBitrateBps ≤ target
  high : target ≤ maxVideoBitrateBps
  adopted : slot.getD held = target

theorem Settled.pending (h : Settled held target slot) (hb : slot = some b) : b = target := by
  have adopted := h.adopted
  rwa [hb, Option.getD_some] at adopted

/-- Nothing is pending after a take, and the embedder is at the target. -/
theorem Settled.taken (h : Settled held target slot) : Settled (slot.getD held) target none :=
  ⟨h.low, h.high, h.adopted⟩

theorem clampVideoBitrate_bounds (b : UInt32) :
    minVideoBitrateBps ≤ clampVideoBitrate b ∧ clampVideoBitrate b ≤ maxVideoBitrateBps := by
  have hlo : minVideoBitrateBps.toNat = 500000 := rfl
  have hhi : maxVideoBitrateBps.toNat = 8000000 := rfl
  rw [UInt32.le_iff_toNat_le, UInt32.le_iff_toNat_le, clampVideoBitrate_toNat, hlo, hhi]
  omega

theorem applyAimdBitrate_bounds (current : UInt32) (lossRatio : F32) :
    minVideoBitrateBps ≤ applyAimdBitrate current lossRatio ∧
      applyAimdBitrate current lossRatio ≤ maxVideoBitrateBps := by
  unfold applyAimdBitrate
  split
  · exact clampVideoBitrate_bounds _
  split
  · exact clampVideoBitrate_bounds _
  · exact clampVideoBitrate_bounds _

/-- Four fifths of a bitrate, rounded, are at most the bitrate. -/
theorem decreased_le (current : UInt32) :
    (roundToU32 (current.toNat * aimdDecreaseFactor)).toNat ≤ current.toNat := by
  have hfloor : (current.toNat * aimdDecreaseFactor + 1 / 2).floor < (current.toNat : Int) + 1 := by
    rw [Rat.floor_lt_iff, aimdDecreaseFactor]
    have : (0 : ℚ) ≤ current.toNat := Nat.cast_nonneg _
    push_cast
    linarith
  have hlt := current.toNat_lt
  rw [roundToU32, UInt32.toNat_ofNat', Nat.mod_eq_of_lt (by omega)]
  omega

theorem Settled.lossy (h : Settled held target slot) (hloss : lossRatio.gt (2 / 100) = true) :
    applyAimdBitrate target lossRatio ≤ target := by
  have hlo : minVideoBitrateBps.toNat = 500000 := rfl
  have low := UInt32.le_iff_toNat_le.mp h.low
  have decreased := decreased_le target
  rw [applyAimdBitrate, if_pos hloss, UInt32.le_iff_toNat_le, clampVideoBitrate_toNat]
  omega

theorem Settled.lossless (h : Settled held target slot) :
    target ≤ applyAimdBitrate target (.finite 0) := applyAimdBitrate_zero target h.high

/-- The target after a matching report. -/
theorem drainFeedback_matching {cx : DrainContext} (st : DrainState)
    (decoded : FeedbackPacket.deserialize body = some feedback)
    (session : feedback.sessionId = cx.sessionId) (stream : feedback.streamId = cx.streamId) :
    (drainFeedback cx st body).targetBitrateBps =
      applyAimdBitrate st.targetBitrateBps feedback.lossRatio := by
  unfold drainFeedback
  simp only [decoded, session, stream, and_self, ↓reduceIte]
  split
  · rfl
  · rename_i same
    exact (not_not.mp same).symm

abbrev DrainState.Settled (held : UInt32) (st : DrainState) : Prop :=
  Sankaku.Settled held st.targetBitrateBps st.pendingBitrateUpdateBps

theorem drainFeedback_settled (cx : DrainContext) {st : DrainState} (h : st.Settled held)
    (body : Bytes) : (drainFeedback cx st body).Settled held := by
  unfold drainFeedback
  split
  · split
    · simp only
      split
      · obtain ⟨low, high⟩ := applyAimdBitrate_bounds st.targetBitrateBps _
        exact ⟨low, high, rfl⟩
      · exact h
    · exact h
  · exact h

/-- Only feedback touches the bitrate. -/
theorem drainPacket_settled (cx : DrainContext) {st : DrainState} (h : st.Settled held)
    (hd : drainPacket cx st packet = some st') : st'.Settled held := by
  unfold drainPacket at hd
  split at hd
  · cases hd
    exact h
  split at hd
  · cases hd
    exact drainFeedback_settled cx h _
  · unfold drainFecFeedback at hd
    split at hd
    · split at hd
      · obtain ⟨r, _, rfl⟩ := Option.map_eq_some_iff.mp hd
        exact h
      · cases hd
        exact h
    · cases hd
      exact h
  · unfold drainTelemetry at hd
    split at hd
    · split at hd
      · obtain ⟨r, _, rfl⟩ := Option.map_eq_some_iff.mp hd
        exact h
      · cases hd
        exact h
    · cases hd
      exact h
  · cases hd
    exact h

theorem drainControlChannel_settled (cx : DrainContext) {st : DrainState} (h : st.Settled held)
    (queue : List Bytes) : (drainControlChannel cx st queue).state.Settled held := by
  induction queue generalizing st with
  | nil => exact h
  | cons packet queue ih =>
    unfold drainControlChannel
    cases hd : drainPacket cx st packet with
    | none => exact h
    | some st' => exact ih (drainPacket_settled cx h hd)

namespace SankakuSender

abbrev Settled (held : UInt32) (s : SankakuSender) : Prop :=
  Sankaku.Settled held s.targetBitrateBps s.pendingBitrateUpdateBps

theorem Settled.drain {s : SankakuSender} (h : s.Settled held) (cx : DrainContext) (t : Tuning) :
    (s.drain cx t).2.Settled held := by
  unfold SankakuSender.drain
  split
  · exact h
  · rename_i queue _
    have start : DrainState.Settled held
        ⟨s.targetBitrateBps, s.pendingBitrateUpdateBps, t.redundancy, t.jitterUs⟩ := h
    have drained := drainControlChannel_settled cx start queue
    simp only
    split
    · exact drained
    · exact drained

/-- The bitrate after a turn of the droplet loop is what its drain left. -/
theorem Settled.sendDroplet {s : SankakuSender} (h : s.Settled held) (plan : ChunkPlan W)
    (env : DropletEnv) (i : UInt32) (t : Tuning) :
    (s.sendDroplet plan env i t).sender.Settled held := by
  have received : (s.receiveControl env.arrivals).Settled held := h
  have drained := received.drain (plan.drainContext s) t
  unfold SankakuSender.sendDroplet
  split
  · rename_i hd
    rw [hd] at drained
    exact drained
  · rename_i hd
    rw [hd] at drained
    split
    · exact drained
    split
    · exact drained
    split
    · exact drained
    · exact drained

theorem Settled.sendDroplets {s : SankakuSender} (h : s.Settled held) (plan : ChunkPlan W)
    (env : SendEnv) (t : Tuning) (ids : List UInt32) :
    (s.sendDroplets plan env t ids).sender.Settled held := by
  induction ids generalizing s t with
  | nil => exact h
  | cons i ids ih =>
    have first := h.sendDroplet plan (env.droplet i) i t
    unfold SankakuSender.sendDroplets
    simp only
    split
    · exact first
    · exact ih first _

theorem Settled.sendChunk {s : SankakuSender} (h : s.Settled held) (cx : TxPacketContext)
    (data : Bytes) (codec : UInt8) (kind : VideoPayloadKind) (index : UInt64) (t : Tuning)
    (env : SendEnv) : (s.sendChunk W cx data codec kind index t env).sender.Settled held := by
  unfold SankakuSender.sendChunk
  split
  · exact h
  · exact h.sendDroplets ..

theorem Settled.ensureHandshake {s : SankakuSender} (h : s.Settled held) (fresh : UInt64) :
    (s.ensureHandshake fresh).Settled held := by
  unfold SankakuSender.ensureHandshake
  split
  · exact h
  · unfold SankakuSender.startControlTasks
    split
    · exact h
    · exact h

theorem Settled.sendFrame {s : SankakuSender} (h : s.Settled held) (id : UInt32)
    (frame : VideoFrame) (env : SendEnv) : (s.sendFrame W id frame env).sender.Settled held := by
  have handshake := h.ensureHandshake env.sessionId
  unfold SankakuSender.sendFrame
  simp only
  split
  · exact handshake
  split
  · exact handshake
  split
  · exact handshake
  · -- The registry is no part of the invariant, so the loop starts from it as it is.
    rename_i state streams _ _ sid _
    have registered : { s.ensureHandshake env.sessionId with streams }.Settled held := handshake
    split
    · exact registered.sendChunk ..
    · exact registered.sendChunk ..

theorem Settled.sendAudioFrame {s : SankakuSender} (h : s.Settled held) (id : UInt32) (ts : UInt64)
    (codec : UInt8) (fpp : UInt32) (payload : Bytes) (env : AudioEnv) :
    (s.sendAudioFrame id ts codec fpp payload env).sender.Settled held := by
  have handshake := h.ensureHandshake env.sessionId
  unfold SankakuSender.sendAudioFrame
  split
  · exact h
  split
  · exact h
  simp only
  split
  · exact handshake
  split
  · exact handshake
  split
  · exact handshake
  split
  · exact handshake
  · exact handshake

theorem Settled.applyNetworkTelemetry {s : SankakuSender} (h : s.Settled held)
    (id ppm jitter : UInt32) : (s.applyNetworkTelemetry id ppm jitter).Settled held := by
  obtain ⟨streams, hs⟩ := applyNetworkTelemetry_streams s id ppm jitter
  rw [hs]
  exact h

theorem Settled.sendStreamFin {s : SankakuSender} (h : s.Settled held) (sessionId : UInt64)
    (id : UInt32) (bytes frames : UInt64) :
    (s.sendStreamFin sessionId id bytes frames).sender.Settled held := by
  rw [sendStreamFin_sender]
  exact h.ensureHandshake sessionId

theorem new_settled (transport : TransportConfig) (seed : UInt32) :
    (SankakuSender.new transport seed).Settled (SankakuSender.new transport seed).targetBitrateBps := by
  obtain ⟨low, high⟩ := clampVideoBitrate_bounds defaultVideoBitrateBps
  exact ⟨low, high, rfl⟩

end SankakuSender

/-- What an embedder does with a sender: the calls of `senderStep`, and audio. -/
inductive EmbedderOp
  | use (op : SenderOp)
  | sendAudioFrame (streamId : UInt32) (timestampUs : UInt64) (codec : UInt8)
      (framesPerPacket : UInt32) (payload : Bytes) (env : AudioEnv)

def embedderStep (W : Wirehair) (s : SankakuSender) :
    EmbedderOp → Outcome SankakuSender SenderOutput String
  | .use op => senderStep W s op
  | .sendAudioFrame streamId timestampUs codec framesPerPacket payload env =>
    ⟨(s.sendAudioFrame streamId timestampUs codec framesPerPacket payload env).sender, [], none⟩

/-- The embedder's own bitrate: what a take gave it, if it gave anything. -/
def adopt (held : UInt32) (s : SankakuSender) (op : EmbedderOp)
    (_ : Outcome SankakuSender SenderOutput String) : UInt32 :=
  match op with
  | .use .takeBitrateUpdateBps => s.takeBitrateUpdateBps.1.getD held
  | _ => held

theorem senderStep_settled {s : SankakuSender} (h : s.Settled held) (op : SenderOp) :
    (senderStep W s op).state.Settled (adopt held s (.use op) (senderStep W s op)) := by
  cases op with
  | setTransportConfig transport => exact h
  | updateCompressionGraph graph => exact h
  | applyNetworkTelemetry id ppm jitter => exact h.applyNetworkTelemetry id ppm jitter
  | takeBitrateUpdateBps => exact h.taken
  | receiveControl packets => exact h
  | openStreamWithType t =>
    simp only [senderStep, SankakuSender.openStreamWithType]
    split
    · exact h
    · exact h
  | sendFrame id frame env => exact h.sendFrame id frame env
  | sendStreamFin sid id bytes frames => exact h.sendStreamFin sid id bytes frames

theorem embedderStep_settled {s : SankakuSender} (h : s.Settled held) (op : EmbedderOp) :
    (embedderStep W s op).state.Settled (adopt held s op (embedderStep W s op)) := by
  cases op with
  | use op => exact senderStep_settled h op
  | sendAudioFrame id ts codec fpp payload env => exact h.sendAudioFrame id ts codec fpp payload env

/-- Whatever an embedder does with a new sender, the target stays in its range, what
is pending is the target, and a take brings the embedder to the target. In any state
of any drain that may follow, a matching report of more than two percent loss does
not raise the target, and one of no loss does not lower it. -/
theorem bitrate_updates_kept (transport : TransportConfig) (seed : UInt32) (ops : List EmbedderOp) :
    let new := SankakuSender.new transport seed
    let embedder := (run (noted (embedderStep W) adopt) (new.targetBitrateBps, new) ops).state
    let s := embedder.2
    (minVideoBitrateBps ≤ s.targetBitrateBps ∧ s.targetBitrateBps ≤ maxVideoBitrateBps) ∧
    (∀ b, s.pendingBitrateUpdateBps = some b → b = s.targetBitrateBps) ∧
    s.takeBitrateUpdateBps.1.getD embedder.1 = s.targetBitrateBps ∧
    ∀ (cx : DrainContext) (t : SankakuSender.Tuning) (packets : List Bytes),
      let st := (drainControlChannel cx
        ⟨s.targetBitrateBps, s.pendingBitrateUpdateBps, t.redundancy, t.jitterUs⟩ packets).state
      ∀ body feedback, FeedbackPacket.deserialize body = some feedback →
        feedback.sessionId = cx.sessionId → feedback.streamId = cx.streamId →
        ∃ st', drainPacket cx st (PacketType.feedback.toByte :: body) = some st' ∧
          (feedback.lossRatio.gt (2 / 100) = true → st'.targetBitrateBps ≤ st.targetBitrateBps) ∧
          (feedback.lossRatio = .finite 0 → st.targetBitrateBps ≤ st'.targetBitrateBps) := by
  intro new embedder s
  have settled : s.Settled embedder.1 :=
    run_keeps_state (fun n : UInt32 × SankakuSender => n.2.Settled n.1)
      (fun n op _ h => embedderStep_settled h op) (SankakuSender.new_settled transport seed)
  refine ⟨⟨settled.low, settled.high⟩, fun b hb => settled.pending hb, settled.adopted, ?_⟩
  intro cx t packets st body feedback decoded session stream
  have start : DrainState.Settled embedder.1
      ⟨s.targetBitrateBps, s.pendingBitrateUpdateBps, t.redundancy, t.jitterUs⟩ := settled
  have drained : st.Settled embedder.1 := drainControlChannel_settled cx start packets
  refine ⟨drainFeedback cx st body, rfl, fun hloss => ?_, fun hloss => ?_⟩
  · rw [drainFeedback_matching st decoded session stream]
    exact drained.lossy hloss
  · rw [drainFeedback_matching st decoded session stream, hloss]
    exact drained.lossless

/-- Session 7, stream 1, half of the packets lost. -/
def halfLost : Bytes := le64 7 ++ le32 1 ++ [0, 0, 0, 0x3F]

/-- Such a report to a new sender does not raise the target. -/
theorem bitrate_updates_kept_halfLost :
    let s := SankakuSender.new .default 1
    ∃ st', drainPacket ⟨.default, 7, 1, 0⟩
        ⟨s.targetBitrateBps, s.pendingBitrateUpdateBps, 1, 0⟩
        (PacketType.feedback.toByte :: halfLost) = some st' ∧
      st'.targetBitrateBps ≤ s.targetBitrateBps := by
  have decoded : FeedbackPacket.deserialize halfLost = some ⟨7, 1, .finite (1 / 2)⟩ := by
    decide +kernel
  obtain ⟨st', drained, lossy, _⟩ := (bitrate_updates_kept (W := .repetition) .default 1 []).2.2.2
    ⟨.default, 7, 1, 0⟩ ⟨1, 0⟩ [] halfLost _ decoded rfl rfl
  exact ⟨st', drained, lossy (by decide +kernel)⟩

end Sankaku
