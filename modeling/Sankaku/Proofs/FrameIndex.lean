import Sankaku.Proofs.SenderSpec
import Sankaku.Proofs.RepetitionWirehair

namespace Sankaku
open Machine SankakuSender

variable {W : Wirehair}

def SenderOutput.call? : SenderOutput → Option Call
  | .call c => some c
  | .fin _ => none

/-- The calls of `send_frame` in a run, in order. -/
def callsOf (out : List SenderOutput) : List Call := out.filterMap SenderOutput.call?

def SenderOutput.fin? : SenderOutput → Option Bytes
  | .call _ => none
  | .fin packet => some packet

/-- The FIN packets of a run, in order. -/
def finsOf (out : List SenderOutput) : List Bytes := out.filterMap SenderOutput.fin?

/-- The media datagrams the transport took in a run, in order. -/
def datagramsOf (out : List SenderOutput) : List Bytes := (callsOf out).flatMap Call.sent

@[simp] theorem callsOf_append (xs ys : List SenderOutput) :
    callsOf (xs ++ ys) = callsOf xs ++ callsOf ys := List.filterMap_append

@[simp] theorem datagramsOf_append (xs ys : List SenderOutput) :
    datagramsOf (xs ++ ys) = datagramsOf xs ++ datagramsOf ys := by
  simp [datagramsOf]

/-- Every step but an opening and a sending leaves the indices alone. -/
inductive SenderCase (W : Wirehair) (s : SankakuSender) :
    SenderOp → Outcome SankakuSender SenderOutput String → Prop
  | quiet (op) (same : SameIndices s s') (noCall : callsOf out = []) :
    SenderCase W s op ⟨s', out, none⟩
  | opened (t) (room : s.nextStreamId.toNat + 1 < 2 ^ 32) (fresh : s'.nextIndex s.nextStreamId = 0)
    (others : ∀ id, id ≠ s.nextStreamId → s'.nextIndex id = s.nextIndex id)
    (session : s'.sessionId = s.sessionId) : SenderCase W s (.openStreamWithType t) ⟨s', [], none⟩
  | sending (id frame env) (o) (sends : SendCase W s id frame env o)
    (err : Option String) (stops : err ≠ none ↔ o.result = .error .panicked) :
    SenderCase W s (.sendFrame id frame env)
      ⟨o.sender, [.call ⟨id, frame, o.result, o.sent⟩], err⟩

theorem applyNetworkTelemetry_same (s : SankakuSender) (id ppm jitter : UInt32) :
    SameIndices s (s.applyNetworkTelemetry id ppm jitter) := by
  unfold applyNetworkTelemetry
  split
  · exact (Kept.refl s).same
  · simp only
    split
    · exact (Kept.refl s).same
    · refine ⟨fun id' => ?_, fun _ h => h, rfl⟩
      by_cases hid : id' = id
      · subst hid
        simp only [nextIndex, StreamRegistry.get, StreamRegistry.context_modify_self]
        cases s.streams.context id' <;> rfl
      · simp [nextIndex, StreamRegistry.get, StreamRegistry.context_modify_other _ _ hid]

theorem openStream_room (t : StreamType) (room : s.nextStreamId.toNat + 1 < 2 ^ 32) :
    senderStep W s (.openStreamWithType t) = ⟨{ s with
      nextStreamId := s.nextStreamId + 1
      streams := s.streams.insert s.nextStreamId t s.newStreamState }, [], none⟩ := by
  simp only [senderStep, openStreamWithType, if_pos room]

theorem openStream_full (t : StreamType) (full : ¬ s.nextStreamId.toNat + 1 < 2 ^ 32) :
    senderStep W s (.openStreamWithType t) = ⟨s, [], none⟩ := by
  simp only [senderStep, openStreamWithType, if_neg full]

theorem senderStep_cases (W : Wirehair) (s : SankakuSender) (op : SenderOp) :
    SenderCase W s op (senderStep W s op) := by
  have kept : ∀ op s', Kept s s' → SenderCase W s op ⟨s', [], none⟩ :=
    fun op s' h => .quiet op h.same rfl
  cases op with
  | setTransportConfig transport =>
    exact .quiet _ ⟨fun _ => rfl, fun _ h => h, rfl⟩ rfl
  | updateCompressionGraph graph =>
    exact .quiet _ ⟨fun _ => rfl, fun _ h => h, rfl⟩ rfl
  | applyNetworkTelemetry id ppm jitter =>
    exact .quiet _ (applyNetworkTelemetry_same s id ppm jitter) rfl
  | takeBitrateUpdateBps => exact kept _ _ ⟨rfl, rfl, rfl, rfl, rfl, rfl, rfl⟩
  | receiveControl packets => exact kept _ _ (receiveControl_kept s packets)
  | openStreamWithType t =>
    by_cases hroom : s.nextStreamId.toNat + 1 < 2 ^ 32
    · rw [openStream_room t hroom]
      refine .opened t hroom ?_ (fun id hid => ?_) rfl
      · simp [nextIndex, StreamRegistry.get, newStreamState]
      · simp [nextIndex, StreamRegistry.get, StreamRegistry.context_insert_other _ _ _ hid]
    · rw [openStream_full t hroom]
      exact kept _ _ (Kept.refl s)
  | sendFrame id frame env =>
    refine .sending id frame env _ (sendFrame_cases s id frame env) _ ?_
    split
    · rename_i h
      exact iff_of_true (by simp) h
    · rename_i h
      exact iff_of_false (by simp) h
  | sendStreamFin sessionId id bytes frames =>
    have hsame := (ensureHandshake_spec s sessionId).1
    simp only [senderStep, sendStreamFin]
    split
    · exact .quiet _ hsame rfl
    · split
      · exact .quiet _ hsame rfl
      · exact .quiet _ hsame rfl

/-- Two packets of the same session, stream and index announce the same block. -/
structure SameBlock (W : Wirehair) (sid : UInt64) (hp hq : DataHeader) (p q : Bytes) : Prop where
  totalSize : hp.totalSize = hq.totalSize
  pktSize : hp.pktSize = hq.pktSize
  kind : hp.kindFlag = hq.kindFlag
  codec : hp.codec = hq.codec
  droplets : ∃ block, CarriesBlock W block sid hp p ∧ CarriesBlock W block sid hq q

def OneBlockPerIndex (W : Wirehair) (packets : List Bytes) : Prop :=
  ∀ p ∈ packets, ∀ q ∈ packets, ∀ sid hp bp hq bq,
    parseDataPacket p = some (sid, hp, bp) → parseDataPacket q = some (sid, hq, bq) →
    hp.streamId = hq.streamId → hp.frameIndex = hq.frameIndex → SameBlock W sid hp hq p q

/-- In particular their headers agree, which a run can be asked. -/
theorem OneBlockPerIndex.headers (h : OneBlockPerIndex W packets) :
    ∀ x ∈ packets.filterMap parseDataPacket, ∀ y ∈ packets.filterMap parseDataPacket,
      x.1 = y.1 → x.2.1.streamId = y.2.1.streamId → x.2.1.frameIndex = y.2.1.frameIndex →
      x.2.1.totalSize = y.2.1.totalSize := by
  intro x hx y hy hsession hstream hindex
  obtain ⟨p, hp, hpx⟩ := List.mem_filterMap.mp hx
  obtain ⟨q, hq, hqy⟩ := List.mem_filterMap.mp hy
  exact (h p hp q hq x.1 x.2.1 x.2.2 y.2.1 y.2.2 hpx (by rw [hsession, hqy]) hstream
    hindex).totalSize

/-- The step gives no index to a second block: an index that gets a droplet out
gets all of them out and is used up, and no stream that has sent is opened anew. -/
def KeepsIndices (W : Wirehair) (s : SankakuSender) : SenderOp → Prop
  | .sendFrame id frame env => (s.nextIndex id).toNat < 2 ^ 64 - 1 ∧
    ∀ l, s.loop? W id frame env = some l → (env.droplet 0).sendDatagram = .ok () → TakesAll env l.ids
  | .openStreamWithType _ => s.nextStreamId.toNat + 1 < 2 ^ 32 → s.nextIndex s.nextStreamId = 0
  | _ => True

/-- Everything sent so far is under the sender's session and below the stream's
next index. -/
def Below (s : SankakuSender) (packets : List Bytes) : Prop :=
  ∀ p ∈ packets, ∃ sid h body, s.sessionId = some sid ∧ parseDataPacket p = some (sid, h, body) ∧
    h.frameIndex.toNat < (s.nextIndex h.streamId).toNat

theorem Below.grows (h : Below s packets)
    (session : ∀ sid, s.sessionId = some sid → s'.sessionId = some sid)
    (indices : ∀ id, (s.nextIndex id).toNat ≤ (s'.nextIndex id).toNat) : Below s' packets := by
  intro p hp
  obtain ⟨sid, hdr, body, hs, hparse, hlt⟩ := h p hp
  exact ⟨sid, hdr, body, session sid hs, hparse, Nat.lt_of_lt_of_le hlt (indices _)⟩

/-- All packets of one chunk announce its block. -/
theorem packets_carry {plan : ChunkPlan W} (hp : plan.Protects block)
    (h : List.Forall₂ plan.IsPacket ids sent) : ∀ p ∈ sent, ∃ i ∈ ids,
      CarriesBlock W block plan.context.sessionId (plan.header i) p := by
  intro p hmem
  induction h with
  | nil => cases hmem
  | cons hpacket _ ih =>
    rcases List.mem_cons.mp hmem with rfl | hmem
    · exact ⟨_, List.mem_cons_self, hpacket.carries hp⟩
    · obtain ⟨i, hi, hc⟩ := ih hmem
      exact ⟨i, List.mem_cons_of_mem _ hi, hc⟩

/-- A chunk under an index nothing was sent under yet keeps one block for each. -/
theorem OneBlockPerIndex.chunk (h : OneBlockPerIndex W packets) (below : Below s packets)
    {plan : ChunkPlan W} (index : plan.frameIndex = s.nextIndex plan.context.streamId)
    (protects : plan.Protects block) (all : List.Forall₂ plan.IsPacket ids sent) :
    OneBlockPerIndex W (packets ++ sent) := by
  have hnew := packets_carry protects all
  -- An older packet of the stream has a smaller index.
  have fresh : ∀ p ∈ packets, ∀ sid hp bp, parseDataPacket p = some (sid, hp, bp) →
      hp.streamId = plan.context.streamId → hp.frameIndex ≠ plan.frameIndex := by
    intro p hp sid hdr body hparse hstream heq
    obtain ⟨sid', hdr', body', _, hparse', hlt⟩ := below p hp
    rw [hparse] at hparse'
    cases hparse'
    rw [hstream, ← index, heq] at hlt
    exact absurd hlt (lt_irrefl _)
  intro p hp q hq sid hdr bp hdr' bq hparse hparse' hstream hindex
  rcases List.mem_append.mp hp with hp | hp <;> rcases List.mem_append.mp hq with hq | hq
  · exact h p hp q hq sid hdr bp hdr' bq hparse hparse' hstream hindex
  · obtain ⟨i, _, hc⟩ := hnew q hq
    obtain ⟨body, _, hpq⟩ := hc.parse
    rw [hparse'] at hpq
    cases hpq
    exact absurd hindex (fresh p hp _ _ _ hparse hstream)
  · obtain ⟨i, _, hc⟩ := hnew p hp
    obtain ⟨body, _, hpq⟩ := hc.parse
    rw [hparse] at hpq
    cases hpq
    exact absurd hindex.symm (fresh q hq _ _ _ hparse' hstream.symm)
  · obtain ⟨i, _, hc⟩ := hnew p hp
    obtain ⟨j, _, hd⟩ := hnew q hq
    obtain ⟨body, _, hpp⟩ := hc.parse
    obtain ⟨body', _, hpq⟩ := hd.parse
    rw [hparse] at hpp
    rw [hparse'] at hpq
    cases hpp
    cases hpq
    exact ⟨rfl, rfl, rfl, rfl, block, hc, hd⟩

theorem datagramsOf_none (h : callsOf out = []) : datagramsOf out = [] := by
  rw [datagramsOf, h, List.flatMap_nil]

theorem datagramsOf_call (out : List SenderOutput) (c : Call) :
    datagramsOf (out ++ [.call c]) = datagramsOf out ++ c.sent := by
  simp [datagramsOf, callsOf, SenderOutput.call?]

/-- One step that keeps the indices. -/
theorem oneBlock_step (encodes : W.EncodesAll) (hop : KeepsIndices W s op)
    (below : Below s (datagramsOf out)) (one : OneBlockPerIndex W (datagramsOf out)) :
    OneBlockPerIndex W (datagramsOf (out ++ (senderStep W s op).out)) ∧
    ((senderStep W s op).error = none →
      Below (senderStep W s op).state (datagramsOf (out ++ (senderStep W s op).out))) := by
  have hcase := senderStep_cases W s op
  generalize senderStep W s op = o at hcase ⊢
  cases hcase with
  | quiet op same noCall =>
    rw [datagramsOf_append, datagramsOf_none noCall, List.append_nil]
    exact ⟨one, fun _ => below.grows same.sessionId (fun id => by rw [same.indices])⟩
  | opened t room fresh others session =>
    rw [List.append_nil]
    refine ⟨one, fun _ => below.grows (fun _ h => session.trans h) (fun id => ?_)⟩
    by_cases hid : id = s.nextStreamId
    · rw [hid, hop room]
      exact Nat.zero_le _
    · rw [others id hid]
  | sending id frame env o sends err stops =>
    rw [datagramsOf_call]
    cases sends with
    | early same =>
      rw [List.append_nil]
      exact ⟨one, fun _ => below.grows same.sessionId (fun id => by rw [same.indices])⟩
    | broken e s' plan block n sent same session stream index protects holds packets small why =>
      refine ⟨one.chunk below (by rw [index, stream]) protects packets, fun hgo => ?_⟩
      rcases why with rfl | rfl | ⟨j, e', he'⟩ | ⟨l, hloop, taken, refused⟩
      · exact absurd hgo (stops.mpr rfl)
      · rw [List.append_nil]
        exact below.grows same.sessionId (fun id => by rw [same.indices])
      · obtain ⟨data, hd⟩ := protects.encodes encodes j
        rw [hd] at he'
        cases he'
      · exact absurd (hop.2 l hloop taken) refused
    | sent s' plan block n sent session same nextStreamId stream index protects holds packets small
        all next others =>
      refine ⟨one.chunk below (by rw [index, stream]) protects packets, fun _ p hp => ?_⟩
      have hnext : (s'.nextIndex id).toNat = (s.nextIndex id).toNat + 1 := by
        rw [next, saturatingAdd64_one hop.1]
      rcases List.mem_append.mp hp with hp | hp
      · refine below.grows same (fun id' => ?_) p hp
        by_cases hid : id' = id
        · rw [hid, hnext]
          exact Nat.le_succ _
        · rw [others id' hid]
      · obtain ⟨i, _, hc⟩ := packets_carry protects packets p hp
        obtain ⟨body, _, hparse⟩ := hc.parse
        refine ⟨_, _, body, session, hparse, ?_⟩
        simp only [ChunkPlan.header, stream, index, hnext]
        exact Nat.lt_succ_self _

/-- In a run of a sender whose every step keeps the indices, any two media
datagrams of one session, stream and index are droplets of the same block, under
the same header fields. -/
theorem one_block_per_index (encodes : W.EncodesAll) (transport : TransportConfig) (seed : UInt32)
    (ops : List SenderOp) (keeps : Along (senderStep W) (KeepsIndices W) (.new transport seed) ops) :
    OneBlockPerIndex W (datagramsOf (run (senderStep W) (.new transport seed) ops).out) := by
  have start : Below (.new transport seed) (datagramsOf []) ∧
      OneBlockPerIndex W (datagramsOf []) := by
    simp [Below, OneBlockPerIndex, datagramsOf, callsOf]
  simpa using keeps.ends (fun s out => Below s (datagramsOf out) ∧ OneBlockPerIndex W (datagramsOf out))
    (fun out => OneBlockPerIndex W (datagramsOf out))
    (fun s out op hop h hok =>
      let step := oneBlock_step encodes hop h.1 h.2
      ⟨step.2 hok, step.1⟩)
    (fun s out op e hop h _ => (oneBlock_step encodes hop h.1 h.2).1) (fun _ _ h => h.2) start

def nalFrame (payload : Bytes) : VideoFrame := ⟨0, true, videoCodecHevc, .nalUnit, payload⟩

/-- A stream opened, a frame sent on it, one refused at its first droplet, and
one more sent. -/
theorem one_block_per_index_refusal :
    let refusing : SendEnv := ⟨42, none, fun seqId =>
      ⟨[], none, if seqId = 0 then .error (.sendDatagram .tooLarge) else .ok ()⟩⟩
    OneBlockPerIndex .repetition (datagramsOf (run (senderStep .repetition) (.new .default 7)
      [.openStreamWithType .video, .sendFrame 7 (nalFrame [1]) (.live 42),
       .sendFrame 7 (nalFrame [2, 3]) refusing, .sendFrame 7 (nalFrame [4]) (.live 42)]).out) := by
  intro refusing
  have hrefused : (refusing.droplet 0).sendDatagram ≠ .ok () := nofun
  refine one_block_per_index Wirehair.repetition_encodesAll .default 7 _ ⟨fun _ => ?_, fun _ =>
    ⟨⟨?_, fun _ _ _ _ _ => rfl⟩, fun _ => ⟨⟨?_, fun _ _ taken => absurd taken hrefused⟩, fun _ =>
      ⟨⟨?_, fun _ _ _ _ _ => rfl⟩, fun _ => trivial⟩⟩⟩⟩
  all_goals decide +kernel

/-- Two blocks under one index: the second droplet of a frame is refused and the
caller sends another frame; and a stream that `send_frame` made is opened again. -/
theorem index_names_two_blocks :
    let refusing : SendEnv := ⟨42, none, fun seqId =>
      ⟨[], none, if seqId = 1 then .error (.sendDatagram .tooLarge) else .ok ()⟩⟩
    (¬ OneBlockPerIndex .repetition (datagramsOf (run (senderStep .repetition) (.new .default 7)
      [.sendFrame 7 (nalFrame [1]) refusing, .sendFrame 7 (nalFrame [2, 3]) (.live 42)]).out)) ∧
    ¬ OneBlockPerIndex .repetition (datagramsOf (run (senderStep .repetition) (.new .default 7)
      [.sendFrame 7 (nalFrame [1]) (.live 42), .openStreamWithType .video,
       .sendFrame 7 (nalFrame [2, 3]) (.live 42)]).out) := by
  refine ⟨fun h => ?_, fun h => ?_⟩
  · exact absurd h.headers (by decide +kernel)
  · exact absurd h.headers (by decide +kernel)

end Sankaku
