import Sankaku.Lib.Delimiter
import Sankaku.Model.Ffi
import Sankaku.Proofs.Redundancy
import Sankaku.Proofs.RepetitionWirehair
import Sankaku.Proofs.SenderSpec

namespace Sankaku
open Machine

variable {W : Wirehair}

/-- No word looked for is in the text, lowered. -/
def Plain (text : String) : Prop :=
  ∀ word ∈ disconnectedWords ++ overflowWords, ¬ word.toList <:+: text.toList.map Char.toLower

instance (text : String) : Decidable (Plain text) := List.decidableBAll _ _

theorem mapRuntimeError_plain (h : Plain text) : mapRuntimeError text = sankakuStatusInternal := by
  have absent : ∀ words : List String, (∀ w ∈ words, w ∈ disconnectedWords ++ overflowWords) →
      ¬ words.any (mentions (text.toList.map Char.toLower)) = true := by
    intro words hwords hany
    obtain ⟨w, hw, hin⟩ := List.any_eq_true.mp hany
    exact h w (hwords w hw) (of_decide_eq_true hin)
  unfold mapRuntimeError
  simp only
  rw [if_neg (absent _ (fun _ => List.mem_append_left _)),
    if_neg (absent _ (fun _ => List.mem_append_right _))]

/-- What `{}` prints for a number: digits, after a sign if need be. -/
def Numeral (s : List Char) : Prop := s ≠ [] ∧ ∀ c ∈ s, c.isDigit = true ∨ c = '-'

theorem numeral_nat (n : Nat) : Numeral n.repr.toList := by
  rw [Nat.toList_repr]
  exact ⟨Nat.toDigits_ne_nil, fun c hc => .inl (Nat.isDigit_of_mem_toDigits (by decide) (by decide) hc)⟩

theorem numeral_int (n : Int) : Numeral n.repr.toList := by
  cases n with
  | ofNat n => exact numeral_nat n
  | negSucc n =>
    have h := numeral_nat n.succ
    rw [Int.repr, String.toList_append]
    refine ⟨by simp, fun c hc => ?_⟩
    rcases List.mem_append.mp hc with hc | hc
    · exact .inr (List.mem_singleton.mp hc)
    · exact h.2 c hc

theorem Numeral.map_toLower (h : Numeral s) : s.map Char.toLower = s := by
  apply (List.map_congr_left fun c hc => ?_).trans (List.map_id s)
  rcases h.2 c hc with hd | rfl
  · have upper : ¬ (c.val ≥ 'A'.val ∧ c.val ≤ 'Z'.val) := by
      rintro ⟨hA, _⟩
      rw [Char.isDigit, Bool.and_eq_true, decide_eq_true_eq, decide_eq_true_eq] at hd
      exact absurd (UInt32.le_trans hA hd.2) (by decide)
    exact dif_neg upper
  · rfl

/-- A number between two plain texts makes no word. -/
theorem plain_numbered {number : String} (h : Numeral number.toList) (before after : String)
    (hb : Plain before) (ha : Plain after) : Plain (before ++ number ++ after) := by
  intro word hword hin
  rw [String.toList_append, String.toList_append, List.map_append, List.map_append,
    h.map_toLower] at hin
  have apart : ∀ c ∈ number.toList, c ∉ word.toList := by
    have letters : ∀ w ∈ disconnectedWords ++ overflowWords,
        (w.toList.all fun c => !(c.isDigit || c == '-')) = true := by decide
    intro c hc hcw
    have hletter := List.all_eq_true.mp (letters word hword) c hcw
    rw [Bool.not_eq_true', Bool.or_eq_false_iff, beq_eq_false_iff_ne] at hletter
    rcases h.2 c hc with hdigit | hminus
    · rw [hdigit] at hletter
      cases hletter.1
    · exact hletter.2 hminus
  rcases Delimiter.infix_around h.1 apart hin with h | h
  · exact hb word hword h
  · exact ha word hword h

def unsupportedText (codec : UInt8) : String := s!"unsupported video codec id {codec}"

def outsideText (totalSize : UInt32) : String :=
  s!"Protected block size {totalSize} outside allowed range (1..={maxProtectedBlockSize})"

def exceededText : String := "Protected block exceeded u32 length"

theorem unsupportedText_status (codec : UInt8) :
    mapRuntimeError (unsupportedText codec) = sankakuStatusInternal := by
  have h := plain_numbered (numeral_nat codec.toNat) "unsupported video codec id " ""
    (by decide) (by decide)
  rw [String.append_empty] at h
  exact mapRuntimeError_plain h

theorem outsideText_status (totalSize : UInt32) :
    mapRuntimeError (outsideText totalSize) = sankakuStatusInternal := by
  have h := plain_numbered (numeral_nat totalSize.toNat) "Protected block size "
    (" outside allowed range (1..=" ++ toString maxProtectedBlockSize ++ ")") (by decide) (by decide)
  rw [← String.append_assoc, ← String.append_assoc] at h
  exact mapRuntimeError_plain h

theorem exceededText_status : mapRuntimeError exceededText = sankakuStatusBufferOverflow := by
  decide

/-- No error of the codec wrapper counts as a lost connection or an overflow. -/
theorem FecError.display_status (e : FecError) : mapRuntimeError e.display = sankakuStatusInternal := by
  cases e with
  | internal code =>
    have h := plain_numbered (numeral_int code) "Internal Wirehair error: " "" (by decide) (by decide)
    rw [String.append_empty] at h
    exact mapRuntimeError_plain h
  | _ => decide

theorem FecError.debug_status (e : FecError) : mapRuntimeError e.debug = sankakuStatusInternal := by
  cases e with
  | internal code =>
    exact mapRuntimeError_plain
      (plain_numbered (numeral_int code) "Internal(" ")" (by decide) (by decide))
  | _ => decide

/-- The connection is gone: what quinn says of it, by itself or as the reason a
datagram was refused. -/
def TransportError.connectionLost : TransportError → Bool
  | .connection _ => true
  | .sendDatagram (.connectionLost _) => true
  | _ => false

/-- All refusals are one to C, but for a peer of another version. -/
theorem refused_status (e : TransportError) :
    mapRuntimeError (annotateTransportError "failed to send media datagram" e) =
      if e = .connection .versionMismatch then sankakuStatusInternal
      else sankakuStatusDisconnected := by
  have socket : mapRuntimeError "failed to send media datagram [SOCKET]" =
      sankakuStatusDisconnected := by decide
  have version : mapRuntimeError "failed to send media datagram [VERSION_MISMATCH]" =
      sankakuStatusInternal := by decide
  have code : kyuErrorCodeFromTransport e =
      if e = .connection .versionMismatch then .versionMismatch else .socket := by
    rcases e with e | e | _
    · cases e <;> rfl
    · rfl
    · rfl
  rw [annotateTransportError, code]
  split
  · exact version
  · exact socket

namespace SankakuSender

/-- The text a frame is turned away with before anything is encoded. -/
def rejection (frame : VideoFrame) : Option String :=
  let size := frame.payload.length + 18
  if !isSupportedVideoCodec frame.codec then some (unsupportedText frame.codec)
  else if 2 ^ 32 ≤ size then some exceededText
  else if 512 * 1024 < size then some (outsideText (UInt32.ofNat size))
  else none

theorem encoder_new_error {env : SendEnv} {totalSize : UInt32} (some : block ≠ [])
    (small : block.length ≤ 512 * 1024)
    (h : WirehairEncoder.new W block (pktSizeFor env totalSize) = .error e) : e = .initFailed := by
  obtain ⟨hpos, hle⟩ := pktSizeFor_bounds env totalSize
  have length : ¬ (block.isEmpty = true ∨ block.length > maxWirehairMessageBytes) := by
    rw [List.isEmpty_iff, maxWirehairMessageBytes]
    rintro (hempty | hlong)
    · exact some hempty
    · omega
  have packet : ¬ (pktSizeFor env totalSize = 0 ∨
      pktSizeFor env totalSize > maxWirehairPacketBytes) := by
    rintro (hzero | hlong)
    · rw [hzero] at hpos
      exact absurd hpos (by decide)
    · rw [gt_iff_lt, UInt32.lt_iff_toNat_lt] at hlong
      have hmax : maxWirehairPacketBytes.toNat = 1500 := rfl
      omega
  unfold WirehairEncoder.new at h
  rw [if_neg length, if_neg packet] at h
  split at h
  · cases h
    rfl
  · cases h

/-- With a pipeline in place only the size of the block and the codec decide. -/
theorem planChunk_cases {s : SankakuSender} (ready : s.pipeline.isSome = true) (cx : TxPacketContext)
    (data : Bytes) (codec : UInt8) (kind : VideoPayloadKind) (index : UInt64) (env : SendEnv) :
    (2 ^ 32 ≤ data.length + 1 ∧
      planChunk W s cx data codec kind index env = .error (.failed exceededText)) ∨
    (512 * 1024 < data.length + 1 ∧ data.length + 1 < 2 ^ 32 ∧
      planChunk W s cx data codec kind index env =
        .error (.failed (outsideText (UInt32.ofNat (data.length + 1))))) ∨
    (data.length + 1 ≤ 512 * 1024 ∧
      (planChunk W s cx data codec kind index env = .error (.failed FecError.initFailed.display) ∨
        ∃ plan, planChunk W s cx data codec kind index env = .ok plan)) := by
  obtain ⟨pipeline, hp⟩ := Option.isSome_iff_exists.mp ready
  obtain ⟨mode, hmode, _⟩ := pipeline.protectFrame_ok data kind cx.streamId index
  have hlen : (mode :: data).length = data.length + 1 := List.length_cons
  unfold planChunk
  simp only [hp, hmode, hlen]
  by_cases huge : data.length + 1 ≥ 2 ^ 32
  · rw [if_pos huge]
    exact .inl ⟨huge, rfl⟩
  rw [if_neg huge]
  have total : (UInt32.ofNat (data.length + 1)).toNat = data.length + 1 := by
    rw [UInt32.toNat_ofNat', Nat.mod_eq_of_lt (by omega)]
  have outside : UInt32.ofNat (data.length + 1) = 0 ∨
      UInt32.ofNat (data.length + 1) > maxProtectedBlockSize ↔ 512 * 1024 < data.length + 1 := by
    rw [gt_iff_lt, UInt32.lt_iff_toNat_lt, ← UInt32.toNat_inj, total]
    change data.length + 1 = 0 ∨ 512 * 1024 < data.length + 1 ↔ _
    omega
  by_cases large : 512 * 1024 < data.length + 1
  · rw [if_pos (outside.mpr large)]
    exact .inr (.inl ⟨large, not_le.mp huge, rfl⟩)
  rw [if_neg (fun h => large (outside.mp h))]
  refine .inr (.inr ⟨not_lt.mp large, ?_⟩)
  cases hnew : WirehairEncoder.new W (mode :: data) (pktSizeFor env (UInt32.ofNat (data.length + 1))) with
  | error e =>
    rw [encoder_new_error (List.cons_ne_nil _ _) (by omega) hnew]
    exact .inl rfl
  | ok encoder => exact .inr ⟨_, rfl⟩

theorem ensureHandshake_pipeline (s : SankakuSender) (fresh : UInt64) :
    (s.ensureHandshake fresh).pipeline.isSome = true := by
  unfold ensureHandshake
  split
  · rename_i h
    exact h.2
  · rfl

/-- A stream registered for video goes straight to its chunk. -/
theorem sendFrame_video {s : SankakuSender} {id : UInt32} (frame : VideoFrame) (env : SendEnv)
    (video : s.streams.context id = some ⟨.video, st⟩) :
    ∃ s' : SankakuSender, s'.streams = s.streams ∧ s'.transport = s.transport ∧
      ((∃ text, (rejection frame = some text ∨
          rejection frame = none ∧ text = FecError.initFailed.display) ∧
        s.loop? W id frame env = none ∧
        s.sendFrame W id frame env = ⟨.error (.failed text), s', []⟩) ∨
      ∃ l, rejection frame = none ∧ s.loop? W id frame env = some l ∧ l.sender = s') := by
  obtain ⟨_, ⟨sid, hsid⟩, hstreams, htransport⟩ := ensureHandshake_spec s env.sessionId
  have hready := ensureHandshake_pipeline s env.sessionId
  refine ⟨s.ensureHandshake env.sessionId, hstreams, htransport, ?_⟩
  unfold sendFrame loop? rejection
  generalize s.ensureHandshake env.sessionId = s₁ at *
  obtain ⟨registry, hregistry⟩ : ∃ registry, registry = s₁.streams := ⟨_, rfl⟩
  have hensure : ∀ build, s₁.streams.ensureWith id .video build = .ok (st, registry) := by
    intro build
    have entry : s₁.streams.entries id = some ⟨.video, st⟩ := by
      rw [hstreams]
      exact video
    simp [StreamRegistry.ensureWith, entry, hregistry]
  simp only [hensure]
  obtain ⟨s₂, hs₂⟩ : ∃ s₂ : SankakuSender, s₂ = { s₁ with streams := registry } := ⟨_, rfl⟩
  rw [← hs₂, hsid]
  have hsame : s₂ = s₁ := by rw [hs₂, hregistry]
  rw [hsame]
  cases hcodec : isSupportedVideoCodec frame.codec with
  | false => exact .inl ⟨_, .inl rfl, rfl, rfl⟩
  | true =>
  have hlen : (FrameEnvelope.serialize ⟨frame.timestampUs, frame.keyframe, frame.payload⟩).length + 1 =
      frame.payload.length + 18 := by
    rw [FrameEnvelope.serialize_length]
    change 17 + frame.payload.length + 1 = _
    omega
  have hcases := planChunk_cases (W := W) hready ⟨sid, id⟩
    (FrameEnvelope.serialize ⟨frame.timestampUs, frame.keyframe, frame.payload⟩) frame.codec
    frame.kind st.nextFrameIndex env
  rw [hlen] at hcases
  simp only [Bool.not_true, Bool.false_eq_true, if_false, sendChunk]
  rcases hcases with ⟨huge, he⟩ | ⟨large, fits, he⟩ | ⟨small, he | ⟨plan, hplan⟩⟩
  · rw [he, if_pos huge]
    exact .inl ⟨_, .inl rfl, rfl, rfl⟩
  · rw [he, if_neg (not_le.mpr fits), if_pos large]
    exact .inl ⟨_, .inl rfl, rfl, rfl⟩
  · rw [he, if_neg (by omega), if_neg (by omega)]
    exact .inl ⟨_, .inr ⟨rfl, rfl⟩, rfl, rfl⟩
  · rw [hplan, if_neg (by omega), if_neg (by omega)]
    exact .inr ⟨_, rfl, rfl, rfl⟩

/-- Under a policy whose bounds do not cross, draining never panics. -/
theorem drainPacket_calm (P : AdaptivePolicy) {cx : DrainContext} (policy : cx.fec = P.policy)
    (st : DrainState) (packet : Bytes) : ∃ st', drainPacket cx st packet = some st' := by
  unfold drainPacket
  split
  · exact ⟨_, rfl⟩
  split
  · exact ⟨_, rfl⟩
  · unfold drainFecFeedback
    simp only [policy, adjustRedundancy_next, Option.map_some]
    split
    · split
      · exact ⟨_, rfl⟩
      · exact ⟨_, rfl⟩
    · exact ⟨_, rfl⟩
  · unfold drainTelemetry
    simp only [policy, adjustRedundancyWithTelemetry_next, Option.map_some]
    split
    · split
      · exact ⟨_, rfl⟩
      · exact ⟨_, rfl⟩
    · exact ⟨_, rfl⟩
  · exact ⟨_, rfl⟩

theorem drainControlChannel_calm (P : AdaptivePolicy) {cx : DrainContext}
    (policy : cx.fec = P.policy) (st : DrainState) (queue : List Bytes) :
    (drainControlChannel cx st queue).panicked = false := by
  induction queue generalizing st with
  | nil => rfl
  | cons packet queue ih =>
    obtain ⟨st', hst'⟩ := drainPacket_calm P policy st packet
    rw [drainControlChannel, hst']
    exact ih st'

theorem drain_calm {s : SankakuSender} {cx : DrainContext} (policy : cx.fec = .default) (t : Tuning) :
    ∃ t', (s.drain cx t).1 = .ok t' := by
  unfold drain
  split
  · exact ⟨t, rfl⟩
  · simp only [drainControlChannel_calm .default policy, Bool.false_eq_true, if_false]
    exact ⟨_, rfl⟩

/-- Why a droplet does not leave. -/
inductive DropletFailure
  | encoder (error : FecError)
  | transport (error : TransportError)

def DropletFailure.message : DropletFailure → String
  | .encoder error => error.debug
  | .transport error => annotateTransportError "failed to send media datagram" error

/-- None if the droplet leaves. -/
def ChunkPlan.failure (plan : ChunkPlan W) (env : SendEnv) (seqId : UInt32) :
    Option DropletFailure :=
  match plan.encoder.encode seqId with
  | .error error => some (.encoder error)
  | .ok _ =>
    match (env.droplet seqId).sendDatagram with
    | .error error => some (.transport error)
    | .ok () => none

/-- With the settings of a stream from C a droplet leaves or fails as its plan and
the transport say. -/
theorem sendDroplet_default {s : SankakuSender} (settings : s.transport = .default)
    (plan : ChunkPlan W) (env : SendEnv) (seqId : UInt32) (t : Tuning) :
    match plan.failure env seqId with
    | some failure => (s.sendDroplet plan (env.droplet seqId) seqId t).result =
        .error (.failed failure.message) ∧ (s.sendDroplet plan (env.droplet seqId) seqId t).sent = []
    | none => ∃ t' packet, (s.sendDroplet plan (env.droplet seqId) seqId t).result = .ok t' ∧
        (s.sendDroplet plan (env.droplet seqId) seqId t).sent = [packet] := by
  have policy : (plan.drainContext s).fec = .default := by rw [ChunkPlan.drainContext, settings]; rfl
  obtain ⟨t', ht'⟩ := drain_calm (s := s.receiveControl (env.droplet seqId).arrivals) policy t
  have hkept := (receiveControl_kept s (env.droplet seqId).arrivals).trans
    (drain_kept (s.receiveControl (env.droplet seqId).arrivals) (plan.drainContext s) t)
  unfold sendDroplet ChunkPlan.failure
  cases hd : (s.receiveControl (env.droplet seqId).arrivals).drain (plan.drainContext s) t with
  | mk result s' =>
  rw [hd] at ht' hkept
  change result = .ok t' at ht'
  subst ht'
  simp only
  cases he : plan.encoder.encode seqId with
  | error e => exact ⟨rfl, rfl⟩
  | ok data =>
  have unpadded : s'.transport.padding = .disabled := by
    rw [hkept.transport, settings]
    rfl
  simp only [padPacket, unpadded, targetPacketLen, Option.map_some]
  cases hs : (env.droplet seqId).sendDatagram with
  | error e => exact ⟨rfl, rfl⟩
  | ok u => exact ⟨_, _, rfl, rfl⟩

/-- The first failure among the droplets ends the loop there. -/
theorem sendDroplets_default {s : SankakuSender} (settings : s.transport = .default)
    (plan : ChunkPlan W) (env : SendEnv) (t : Tuning) (ids : List UInt32) :
    match ids.findSome? (plan.failure env) with
    | some failure => (s.sendDroplets plan env t ids).result = .error (.failed failure.message) ∧
        ∃ i, ids[(s.sendDroplets plan env t ids).sent.length]? = some i ∧
          plan.failure env i = some failure
    | none => ∃ t', (s.sendDroplets plan env t ids).result = .ok t' := by
  induction ids generalizing s t with
  | nil => exact ⟨t, rfl⟩
  | cons i ids ih =>
    have hfirst := sendDroplet_default settings plan env i t
    rw [List.findSome?_cons, sendDroplets]
    cases hf : plan.failure env i with
    | some failure =>
      rw [hf] at hfirst
      obtain ⟨he, hsent⟩ := hfirst
      simp only [he, hsent]
      exact ⟨trivial, i, rfl, hf⟩
    | none =>
      rw [hf] at hfirst
      obtain ⟨t', packet, hok, hsent⟩ := hfirst
      have hkept := (sendDroplet_cases s plan (env.droplet i) i t).1
      have hrest := ih (hkept.transport.trans settings) t'
      simp only [hok, hsent]
      cases hr : ids.findSome? (plan.failure env) with
      | some failure =>
        rw [hr] at hrest
        exact hrest
      | none =>
        rw [hr] at hrest
        exact hrest

end SankakuSender

namespace FfiStreamState
open SankakuSender

/-- A stream from C keeps the settings and the type it was opened with. -/
structure Live (s : FfiStreamState) : Prop where
  settings : s.sender.transport = .default
  registered : ∃ st, s.sender.streams.context s.streamId = some ⟨.video, st⟩

theorem connect_live (h : connect seed = .ok s) : s.Live := by
  unfold connect SankakuSender.openStream openStreamWithType at h
  simp only at h
  split at h
  · rename_i heq
    split at heq
    · cases heq
      cases h
      exact ⟨rfl, _, StreamRegistry.context_insert_self _ _ _ _⟩
    · cases heq
  · cases h

/-- The first droplet of a call that does not leave, if its loop is reached. -/
def firstFailure (W : Wirehair) (s : FfiStreamState) (frame : VideoFrame) (env : SendEnv) :
    Option DropletFailure :=
  (s.sender.loop? W s.streamId frame env).bind (fun l => l.ids.findSome? (l.plan.failure env))

/-- A call on a live stream is turned away, fails at a droplet, or succeeds. -/
inductive CallCase (W : Wirehair) (s : FfiStreamState) (frame : VideoFrame) (env : SendEnv) :
    SendOutcome UInt64 → Prop
  | rejected (text s') (live : Live ⟨s', s.streamId⟩)
    (why : rejection frame = some text ∨
      rejection frame = none ∧ text = FecError.initFailed.display)
    (reached : firstFailure W s frame env = none) (streams : s'.streams = s.sender.streams) :
    CallCase W s frame env ⟨.error (.failed text), s', []⟩
  | failed (failure s' sent) (live : Live ⟨s', s.streamId⟩)
    (fits : rejection frame = none)
    (first : firstFailure W s frame env = some failure)
    (answer : ∀ e, failure = .transport e →
      (env.droplet (UInt32.ofNat sent.length)).sendDatagram = .error e) :
    CallCase W s frame env ⟨.error (.failed failure.message), s', sent⟩
  | sent (index s' sent) (live : Live ⟨s', s.streamId⟩)
    (fits : rejection frame = none) (first : firstFailure W s frame env = none) :
    CallCase W s frame env ⟨.ok index, s', sent⟩

theorem failure_transport {plan : ChunkPlan W} {env : SendEnv} {seqId : UInt32}
    (h : plan.failure env seqId = some (.transport e)) :
    (env.droplet seqId).sendDatagram = .error e := by
  unfold ChunkPlan.failure at h
  split at h
  · cases h
  split at h
  · rename_i answer
    cases h
    exact answer
  · cases h

theorem Live.cases {s : FfiStreamState} (live : s.Live) (frame : VideoFrame) (env : SendEnv) :
    CallCase W s frame env (s.sender.sendFrame W s.streamId frame env) := by
  obtain ⟨st, video⟩ := live.registered
  obtain ⟨s', streams, transport, ⟨text, why, hloop, heq⟩ | ⟨l, fits, hloop, hsender⟩⟩ :=
    sendFrame_video (W := W) frame env video
  · rw [heq]
    have video' : s'.streams.context s.streamId = some ⟨.video, st⟩ := by rw [streams, video]
    exact .rejected text s' ⟨transport.trans live.settings, st, video'⟩ why
      (by rw [firstFailure, hloop, Option.bind_none]) streams
  rcases sendFrame_loop (W := W) s.sender s.streamId frame env with
    ⟨hnone, _⟩ | ⟨l', hl', begins, heq⟩
  · rw [hloop] at hnone
    cases hnone
  rw [hloop, Option.some.injEq] at hl'
  subst hl'
  rw [heq]
  have settings : l.sender.transport = .default := by rw [hsender, transport, live.settings]
  have hends := sendDroplets_default settings l.plan env l.tuning l.ids
  have hkept := (sendDroplets_sent l.sender l.plan env l.tuning l.ids).1
  change Kept l.sender (l.run env).sender at hkept
  have video' : (l.run env).sender.streams.context s.streamId = some ⟨.video, st⟩ := by
    rw [hkept.streams, hsender, streams, video]
  have first : firstFailure W s frame env = l.ids.findSome? (l.plan.failure env) := by
    rw [firstFailure, hloop, Option.bind_some]
  rw [← first] at hends
  cases hf : firstFailure W s frame env with
  | none =>
    rw [hf] at hends
    obtain ⟨t, hok⟩ := hends
    change (l.run env).result = .ok t at hok
    simp only [hok]
    refine .sent _ _ _ ⟨hkept.transport.trans settings, ?_⟩ fits hf
    exact ⟨_, by rw [commitFrame, StreamRegistry.context_modify_self, video']; rfl⟩
  | some failure =>
    rw [hf] at hends
    obtain ⟨he, i, hi, hfailure⟩ := hends
    change (l.run env).result = .error (.failed failure.message) at he
    change l.ids[(l.run env).sent.length]? = some i at hi
    simp only [he]
    refine .failed failure _ _ ⟨hkept.transport.trans settings, st, video'⟩ fits hf
      (fun e hte => ?_)
    obtain ⟨n, hids, _, _⟩ := begins.ids
    rw [hids, List.getElem?_map] at hi
    obtain ⟨k, hk, rfl⟩ := Option.map_eq_some_iff.mp hi
    rw [(List.getElem?_eq_some_iff.mp hk).2.symm, List.getElem_range] at hfailure
    rw [hte] at hfailure
    exact failure_transport hfailure

theorem firstFailure_transport {s : FfiStreamState} {frame : VideoFrame} {env : SendEnv}
    (h : firstFailure W s frame env = some (.transport e)) :
    ∃ i, (env.droplet i).sendDatagram = .error e := by
  obtain ⟨l, _, hl⟩ := Option.bind_eq_some_iff.mp h
  obtain ⟨i, _, hi⟩ := List.exists_of_findSome?_eq_some hl
  exact ⟨i, failure_transport hi⟩

theorem rejection_none {frame : VideoFrame} (h : rejection frame = none) :
    frame.payload.length + 18 ≤ 512 * 1024 := by
  unfold rejection at h
  simp only at h
  split at h
  · cases h
  split at h
  · cases h
  split at h
  · cases h
  · rename_i small
    exact not_lt.mp small

/-- A frame whose block is too large is turned away for its size. -/
theorem rejection_large {frame : VideoFrame} (codec : isSupportedVideoCodec frame.codec = true)
    (large : 512 * 1024 < frame.payload.length + 18) : rejection frame =
      some (if 2 ^ 32 ≤ frame.payload.length + 18 then exceededText
        else outsideText (UInt32.ofNat (frame.payload.length + 18))) := by
  unfold rejection
  simp only [codec, Bool.not_true, Bool.false_eq_true, if_false, large, if_true]
  split
  · rfl
  · rfl

theorem rejection_status {frame : VideoFrame} (h : rejection frame = some text) :
    mapRuntimeError text ≠ sankakuStatusDisconnected := by
  unfold rejection at h
  simp only at h
  split at h
  · cases h
    rw [unsupportedText_status]
    decide
  split at h
  · cases h
    rw [exceededText_status]
    decide
  split at h
  · cases h
    rw [outsideText_status]
    decide
  · cases h

/-- A block that is too large sends nothing and moves no counter. Only one too large
for its length to be counted is called an overflow. -/
theorem CallCase.tooLarge {s : FfiStreamState} {frame : VideoFrame} {env : SendEnv}
    (h : CallCase W s frame env o) (codec : isSupportedVideoCodec frame.codec = true)
    (large : 512 * 1024 < frame.payload.length + 18) :
    o.sent = [] ∧ o.sender.streams = s.sender.streams ∧
      sendStatus o.result = if 2 ^ 32 ≤ frame.payload.length + 18 then sankakuStatusBufferOverflow
        else sankakuStatusInternal := by
  cases h with
  | rejected text s' _ why _ streams =>
    refine ⟨rfl, streams, ?_⟩
    rw [rejection_large codec large] at why
    rcases why with why | ⟨why, _⟩
    · cases why
      rw [sendStatus]
      split
      · exact exceededText_status
      · exact outsideText_status _
    · cases why
  | failed _ _ _ _ fits => exact absurd (rejection_none fits) (not_le.mpr large)
  | sent _ _ _ _ fits => exact absurd (rejection_none fits) (not_le.mpr large)

/-- The connection counts as lost for every refusal but one. -/
theorem CallCase.disconnected {s : FfiStreamState} {frame : VideoFrame} {env : SendEnv}
    (h : CallCase W s frame env o) : sendStatus o.result = sankakuStatusDisconnected ↔
      ∃ e, firstFailure W s frame env = some (.transport e) ∧ e ≠ .connection .versionMismatch := by
  cases h with
  | rejected text s' _ why reached _ =>
    have connected : mapRuntimeError text ≠ sankakuStatusDisconnected := by
      rcases why with why | ⟨_, rfl⟩
      · exact rejection_status why
      · rw [FecError.display_status]
        decide
    rw [reached]
    exact ⟨fun hd => absurd hd connected, fun ⟨_, first, _⟩ => by cases first⟩
  | failed failure s' sent _ _ first _ =>
    rw [first]
    cases failure with
    | encoder e =>
      have hstatus := FecError.debug_status e
      exact ⟨fun hd => absurd (hstatus.symm.trans hd) (by decide), fun ⟨_, first, _⟩ => by cases first⟩
    | transport e =>
      have hstatus := refused_status e
      constructor
      · intro hd
        refine ⟨e, rfl, fun version => ?_⟩
        rw [if_pos version] at hstatus
        exact absurd (hstatus.symm.trans hd) (by decide)
      · rintro ⟨_, he, version⟩
        cases he
        rw [if_neg version] at hstatus
        exact hstatus
  | sent index s' sent _ _ first =>
    rw [first]
    constructor
    · intro hd
      cases hd
    · rintro ⟨_, first, _⟩
      cases first

theorem CallCase.answer {s : FfiStreamState} {frame : VideoFrame} {env : SendEnv}
    (h : CallCase W s frame env o) (refused : firstFailure W s frame env = some (.transport e)) :
    (env.droplet (UInt32.ofNat o.sent.length)).sendDatagram = .error e := by
  cases h with
  | rejected _ _ _ _ reached _ =>
    rw [reached] at refused
    cases refused
  | failed failure s' sent _ _ first answer =>
    rw [first, Option.some.injEq] at refused
    exact answer e refused
  | sent _ _ _ _ _ first =>
    rw [first] at refused
    cases refused

end FfiStreamState

/-- The frame a call is about, if its pointers are good. -/
def FfiCall.video (call : FfiCall) : Option VideoFrame := call.frame.bind SankakuVideoFrame.toRust

theorem sendFrame_outcome (s : FfiStreamState) {call : FfiCall} (h : call.video = some frame) :
    sankakuStreamSendFrame W (some s) call.frame call.env =
      ⟨sendStatus (s.sender.sendFrame W s.streamId frame call.env).result,
        some ⟨(s.sender.sendFrame W s.streamId frame call.env).sender, s.streamId⟩,
        (s.sender.sendFrame W s.streamId frame call.env).sent⟩ := by
  obtain ⟨passed, hc, hframe⟩ := Option.bind_eq_some_iff.mp h
  simp only [sankakuStreamSendFrame, hc, hframe]

theorem sendFrame_invalid (s : FfiStreamState) {call : FfiCall} (h : call.video = none) :
    sankakuStreamSendFrame W (some s) call.frame call.env =
      ⟨sankakuStatusInvalidArgument, some s, []⟩ := by
  unfold sankakuStreamSendFrame
  cases hc : call.frame with
  | none => rfl
  | some frame =>
    rw [FfiCall.video, hc, Option.bind_some] at h
    simp only [h]

/-- A block that is too large sends nothing, moves no counter and is an overflow. A
lost connection is reported only if the datagram after the last one sent was refused
for it. -/
structure Classified (s : FfiStreamState) (call : FfiCall) (o : FfiOutcome) : Prop where
  tooLarge : ∀ frame, call.video = some frame → isSupportedVideoCodec frame.codec = true →
    512 * 1024 < frame.payload.length + 18 →
    o.sent = [] ∧ (∃ s', o.handle = some s' ∧ s'.sender.streams = s.sender.streams) ∧
      o.status = sankakuStatusBufferOverflow
  disconnected : o.status = sankakuStatusDisconnected →
    ∃ e : TransportError, e.connectionLost = true ∧
      (call.env.droplet (UInt32.ofNat o.sent.length)).sendDatagram = .error e

/-- A block past 512 KiB is past 4 GiB as well, and the first datagram the transport
refuses, if any, is refused because the connection is lost. -/
structure ToldApart (W : Wirehair) (s : FfiStreamState) (call : FfiCall) : Prop where
  size : ∀ frame, call.video = some frame → isSupportedVideoCodec frame.codec = true →
    512 * 1024 < frame.payload.length + 18 → 2 ^ 32 ≤ frame.payload.length + 18
  refusal : ∀ frame, call.video = some frame → ∀ e,
    s.firstFailure W frame call.env = some (.transport e) → e.connectionLost = true

/-- The status tells the causes apart just where it does not have to choose between
texts that it reads alike. -/
theorem classified_iff {s : FfiStreamState} (live : s.Live) (call : FfiCall) :
    Classified s call (sankakuStreamSendFrame W (some s) call.frame call.env) ↔
      ToldApart W s call := by
  cases hv : call.video with
  | none =>
    have noFrame : ∀ frame, call.video ≠ some frame := by
      intro frame hf
      rw [hv] at hf
      cases hf
    rw [sendFrame_invalid s hv]
    constructor
    · intro _
      constructor
      · exact fun frame hf => absurd hf (noFrame frame)
      · exact fun frame hf => absurd hf (noFrame frame)
    · intro _
      constructor
      · exact fun frame hf => absurd hf (noFrame frame)
      · exact fun hd => by cases hd
  | some frame =>
    have hcase := live.cases (W := W) frame call.env
    have only : ∀ frame', call.video = some frame' → frame' = frame := by
      intro frame' hf
      rw [hv, Option.some.injEq] at hf
      exact hf.symm
    rw [sendFrame_outcome s hv]
    constructor
    · intro h
      constructor
      · intro frame' hf codec large
        obtain ⟨_, _, hstatus⟩ := h.tooLarge frame' hf codec large
        rw [only frame' hf] at codec large ⊢
        have hreally := (hcase.tooLarge codec large).2.2
        by_contra huge
        rw [if_neg huge] at hreally
        exact absurd (hreally.symm.trans hstatus) (by decide)
      · intro frame' hf e first
        rw [only frame' hf] at first
        by_cases version : e = .connection .versionMismatch
        · rw [version]
          rfl
        · obtain ⟨e', lost, hanswer⟩ := h.disconnected (hcase.disconnected.mpr ⟨e, first, version⟩)
          have same := (hcase.answer first).symm.trans hanswer
          cases same
          exact lost
    · intro h
      constructor
      · intro frame' hf codec large
        have huge := h.size frame' hf codec large
        rw [only frame' hf] at codec large huge
        obtain ⟨silent, streams, hstatus⟩ := hcase.tooLarge codec large
        rw [if_pos huge] at hstatus
        exact ⟨silent, ⟨_, rfl, streams⟩, hstatus⟩
      · intro hd
        obtain ⟨e, first, _⟩ := hcase.disconnected.mp hd
        exact ⟨e, h.refusal frame hv e first, hcase.answer first⟩

theorem ffiStep_live {s : FfiStreamState} (live : s.Live) (call : FfiCall) :
    (ffiStep W s call).state.Live := by
  unfold ffiStep sankakuStreamSendFrame
  simp only
  split
  · exact live
  split
  · exact live
  · rename_i frame _
    have hcase := live.cases (W := W) frame call.env
    generalize s.sender.sendFrame W s.streamId frame call.env = o at hcase
    cases hcase with
    | rejected text s' live' => exact live'
    | failed failure s' sent live' => exact live'
    | sent index s' sent live' => exact live'

/-- In a run of calls on a connected stream every error is atomic and classified just
if every call's failures are told apart. -/
theorem send_errors_classified_iff (seed : UInt32) (s : FfiStreamState)
    (opened : FfiStreamState.connect seed = .ok s) (calls : List FfiCall) :
    Along (ffiStep W) (fun s call =>
        Classified s call (sankakuStreamSendFrame W (some s) call.frame call.env)) s calls ↔
      Along (ffiStep W) (ToldApart W) s calls := by
  apply Along.congr FfiStreamState.Live
  · intro s call live _ _
    exact ffiStep_live live call
  · intro s call live
    exact classified_iff live call
  · exact FfiStreamState.connect_live opened

/-- A frame from C with this payload. -/
def ffiFrame (payload : Bytes) : SankakuVideoFrame where
  data := some payload
  len := payload.length
  ptsUs := 1
  dtsUs := 1
  codec := videoCodecHevc
  kind := .nalUnit
  flags := 1
  readable := fun memory h => by cases h; exact le_refl _

theorem ffiFrame_video (payload : Bytes) (env : SendEnv) :
    FfiCall.video ⟨some (ffiFrame payload), env⟩ = some ⟨1, true, videoCodecHevc, .nalUnit, payload⟩ := by
  have content : (if payload.length = 0 then [] else payload.take payload.length) = payload := by
    split
    · rename_i h
      exact (List.length_eq_zero_iff.mp h).symm
    · exact List.take_length
  simp only [FfiCall.video, ffiFrame, SankakuVideoFrame.toRust, Option.bind_some, Option.isNone_some,
    Bool.false_eq_true, and_false, if_false, Option.getD_some, content]
  rfl

theorem send_errors_classified_live :
    ∃ s, FfiStreamState.connect 1 = .ok s ∧
      Along (ffiStep .repetition) (fun s call =>
        Classified s call (sankakuStreamSendFrame .repetition (some s) call.frame call.env)) s
          [⟨some (ffiFrame [1, 2, 3]), .live 1⟩] := by
  refine ⟨_, rfl, (send_errors_classified_iff 1 _ rfl _).mpr ⟨⟨fun frame hf _ large => ?_, ?_⟩, ?_⟩⟩
  · cases hf
    exact absurd large (by decide)
  · intro frame _ e he
    obtain ⟨i, hi⟩ := FfiStreamState.firstFailure_transport he
    cases hi
  · exact fun _ => trivial

/-- One byte past 512 KiB. -/
def oversizedPayload : Bytes := List.replicate (512 * 1024 - 17) 0

/-- Quinn takes no datagram of this size. -/
def SendEnv.refusing (sessionId : UInt64) : SendEnv :=
  ⟨sessionId, none, fun _ => ⟨[], none, .error (.sendDatagram .tooLarge)⟩⟩

/-- A frame from C past 512 KiB, the length of which still fits in 32 bits. -/
theorem ffiFrame_oversized {s : FfiStreamState} (live : s.Live) {payload : Bytes} (env : SendEnv)
    (large : 512 * 1024 < payload.length + 18) (small : ¬ 2 ^ 32 ≤ payload.length + 18) :
    (sankakuStreamSendFrame W (some s) (some (ffiFrame payload)) env).status = sankakuStatusInternal ∧
      ¬ Classified s ⟨some (ffiFrame payload), env⟩
        (sankakuStreamSendFrame W (some s) (some (ffiFrame payload)) env) := by
  have internal : (sankakuStreamSendFrame W (some s) (some (ffiFrame payload)) env).status =
      sankakuStatusInternal := by
    have hcase := live.cases (W := W) ⟨1, true, videoCodecHevc, .nalUnit, payload⟩ env
    rw [sendFrame_outcome s (ffiFrame_video payload env)]
    exact (hcase.tooLarge rfl large).2.2.trans (if_neg small)
  refine ⟨internal, fun h => ?_⟩
  have overflow := (h.tooLarge _ (ffiFrame_video payload env) rfl large).2.2
  rw [internal] at overflow
  exact absurd overflow (by decide)

/-- The first frame is reported as an internal error, the second as a lost connection. -/
theorem send_errors_misread :
    ∃ s, FfiStreamState.connect 1 = .ok s ∧
      (sankakuStreamSendFrame .repetition (some s) (some (ffiFrame oversizedPayload))
        (.live 1)).status = sankakuStatusInternal ∧
      ¬ Classified s ⟨some (ffiFrame oversizedPayload), .live 1⟩
        (sankakuStreamSendFrame .repetition (some s) (some (ffiFrame oversizedPayload)) (.live 1)) ∧
      (sankakuStreamSendFrame .repetition (some s) (some (ffiFrame [1, 2, 3]))
        (.refusing 1)).status = sankakuStatusDisconnected ∧
      ¬ Classified s ⟨some (ffiFrame [1, 2, 3]), .refusing 1⟩
        (sankakuStreamSendFrame .repetition (some s) (some (ffiFrame [1, 2, 3])) (.refusing 1)) := by
  obtain ⟨s, hs⟩ : ∃ s, s = (⟨((SankakuSender.new .default 1).openStream).2, 1⟩ : FfiStreamState) :=
    ⟨_, rfl⟩
  have opened : FfiStreamState.connect 1 = .ok s := by rw [hs]; rfl
  have live := FfiStreamState.connect_live opened
  have large : 512 * 1024 < oversizedPayload.length + 18 := by
    rw [oversizedPayload, List.length_replicate]
    omega
  have small : ¬ 2 ^ 32 ≤ oversizedPayload.length + 18 := by
    rw [oversizedPayload, List.length_replicate]
    omega
  obtain ⟨internal, notOverflow⟩ := ffiFrame_oversized (W := .repetition) live (.live 1) large small
  have disconnected : (sankakuStreamSendFrame .repetition (some s) (some (ffiFrame [1, 2, 3]))
      (.refusing 1)).status = sankakuStatusDisconnected := by
    rw [hs]
    decide +kernel
  refine ⟨s, opened, internal, notOverflow, disconnected, fun h => ?_⟩
  obtain ⟨e, lost, answer⟩ := h.disconnected disconnected
  cases answer
  cases lost

end Sankaku
