import Sankaku.Proofs.FrameIndex
import Sankaku.Proofs.Decoding

namespace Sankaku
open Machine SankakuSender

variable {W : Wirehair}

/-- A call of `send_frame` that succeeded, with the block its packets carry. -/
structure Transmission (W : Wirehair) where
  call : Call
  plan : ChunkPlan W
  block : Bytes
  stream : plan.context.streamId = call.streamId
  result : call.result = .ok plan.frameIndex
  protects : plan.Protects block
  holds : plan.Holds block call.frame
  packets : List.Forall₂ plan.IsPacket ((List.range call.sent.length).map UInt32.ofNat) call.sent
  small : call.sent.length < 2 ^ 32
  all : plan.blocks ≤ call.sent.length

/-- The stream the packets name. -/
def Transmission.key (t : Transmission W) : StreamKey :=
  ⟨t.plan.context.sessionId, t.plan.context.streamId⟩

def Transmission.geometry (t : Transmission W) : Geometry := (t.plan.header 0).geometry

/-- What the caller handed in and got back, as the receiver can see it. -/
def Call.asSent (c : Call) : Except SendError UInt64 × VideoFrame := (c.result, c.frame)

/-- The calls on one stream, in order. -/
def callsOn (id : UInt32) (out : List SenderOutput) : List Call :=
  (callsOf out).filter (fun c => c.streamId = id)

@[simp] theorem callsOn_append (id : UInt32) (xs ys : List SenderOutput) :
    callsOn id (xs ++ ys) = callsOn id xs ++ callsOn id ys := by
  simp [callsOn]

theorem callsOn_call (id : UInt32) (c : Call) :
    callsOn id [.call c] = if c.streamId = id then [c] else [] := by
  simp only [callsOn, callsOf, List.filterMap_cons, SenderOutput.call?, List.filterMap_nil,
    List.filter_cons, List.filter_nil, decide_eq_true_eq]

theorem range_forall₂ (h : List.Forall₂ R ((List.range n).map UInt32.ofNat) sent) :
    sent.length = n := by
  simpa using h.length_eq.symm

/-- A successful call is a transmission under the stream's next index. -/
theorem SankakuSender.SendCase.transmission {id : UInt32} (h : SendCase W s id frame env o)
    (hok : o.result = .ok index) :
    ∃ t : Transmission W, t.call = ⟨id, frame, o.result, o.sent⟩ ∧
      t.plan.frameIndex = s.nextIndex id ∧
      o.sender.sessionId = some t.plan.context.sessionId ∧
      o.sender.nextIndex id = saturatingAdd64 (s.nextIndex id) 1 := by
  cases h with
  | early same => cases hok
  | broken e s' plan block n sent same session stream index protects holds packets small why =>
    cases hok
  | sent s' plan block n sent session same nextStreamId stream index protects holds packets small all
      next others =>
    have hn := range_forall₂ packets
    subst hn
    exact ⟨⟨⟨id, frame, .ok (s.nextIndex id), sent⟩, plan, block, stream, by rw [index], protects,
      holds, packets, small, all⟩, rfl, index, session, next⟩

/-- The id is not opened again once a frame was sent under it. -/
def OpensUnused (id : UInt32) (s : SankakuSender) : SenderOp → Prop
  | .openStreamWithType _ => s.nextStreamId = id → s.nextStreamId.toNat + 1 < 2 ^ 32 →
    s.nextIndex id = 0
  | _ => True

/-- The transmissions of a stream so far, numbered from 0 on. -/
structure Numbered (s : SankakuSender) (id : UInt32) (calls : List Call)
    (ts : List (Transmission W)) : Prop where
  calls : ts.map Transmission.call = calls
  indices : ∀ (i : Nat) (t : Transmission W), ts[i]? = some t → t.plan.frameIndex.toNat = i
  session : ∀ t ∈ ts, s.sessionId = some t.plan.context.sessionId
  next : (s.nextIndex id).toNat = ts.length

theorem Numbered.same {id : UInt32} {calls : List Call} {ts : List (Transmission W)}
    (h : Numbered s id calls ts)
    (session : ∀ sid, s.sessionId = some sid → s'.sessionId = some sid)
    (next : s'.nextIndex id = s.nextIndex id) : Numbered s' id calls ts :=
  ⟨h.calls, h.indices, fun t ht => session _ (h.session t ht), by rw [next, h.next]⟩

/-- One more successful call adds one transmission. -/
theorem Numbered.add {id : UInt32} {calls : List Call} {ts : List (Transmission W)}
    (h : Numbered s id calls ts) (t : Transmission W)
    (session : ∀ sid, s.sessionId = some sid → s'.sessionId = some sid)
    (own : s'.sessionId = some t.plan.context.sessionId) (index : t.plan.frameIndex = s.nextIndex id)
    (next : s'.nextIndex id = saturatingAdd64 (s.nextIndex id) 1)
    (few : ts.length + 1 < 2 ^ 64) : Numbered s' id (calls ++ [t.call]) (ts ++ [t]) := by
  refine ⟨by simp [h.calls], fun i u hu => ?_, fun u hu => ?_, ?_⟩
  · rcases lt_trichotomy i ts.length with hi | hi | hi
    · rw [List.getElem?_append_left hi] at hu
      exact h.indices i u hu
    · rw [hi, List.getElem?_concat_length, Option.some.injEq] at hu
      rw [← hu, index, h.next, hi]
    · rw [List.getElem?_eq_none (by rw [List.length_append, List.length_singleton]; omega)] at hu
      cases hu
  · rcases List.mem_append.mp hu with hu | hu
    · exact session _ (h.session u hu)
    · rw [List.mem_singleton.mp hu]
      exact own
  · rw [next, saturatingAdd64_one (by rw [h.next]; omega), h.next, List.length_append,
      List.length_singleton]

theorem numbered_step {id : UInt32} (hop : OpensUnused id s op)
    (succeeds : ∀ c ∈ callsOn id (out ++ (senderStep W s op).out), ∃ i, c.result = .ok i)
    (few : (callsOn id (out ++ (senderStep W s op).out)).length < 2 ^ 64)
    {ts : List (Transmission W)} (h : Numbered s id (callsOn id out) ts) :
    ∃ ts' : List (Transmission W), Numbered (senderStep W s op).state id
      (callsOn id (out ++ (senderStep W s op).out)) ts' := by
  have hcase := senderStep_cases W s op
  generalize senderStep W s op = o at hcase succeeds few ⊢
  cases hcase with
  | quiet op same noCall =>
    refine ⟨ts, ?_⟩
    rw [callsOn_append, callsOn, callsOn, noCall, List.filter_nil, List.append_nil]
    exact h.same same.sessionId (same.indices id)
  | opened t room fresh others session =>
    refine ⟨ts, ?_⟩
    rw [List.append_nil]
    refine h.same (fun _ hs => session.trans hs) ?_
    by_cases hid : id = s.nextStreamId
    · rw [hid, fresh, ← hid]
      exact (hop hid.symm room).symm
    · exact others id hid
  | sending id' frame env o sends err stops =>
    rw [callsOn_append, callsOn_call] at succeeds few ⊢
    by_cases hid : id' = id
    · subst hid
      rw [if_pos rfl] at succeeds few ⊢
      obtain ⟨i, hi⟩ := succeeds _ (List.mem_append_right _ (List.mem_singleton_self _))
      obtain ⟨t, hcall, hindex, hsession, hnext⟩ := sends.transmission hi
      have hlen : ts.length = (callsOn id' out).length := by rw [← h.calls, List.length_map]
      refine ⟨ts ++ [t], hcall ▸ h.add t ?_ hsession hindex hnext ?_⟩
      · exact sends.session
      · rw [hlen]
        simpa using few
    · rw [if_neg hid, List.append_nil]
      exact ⟨ts, h.same sends.session (sends.others id (Ne.symm hid))⟩

/-- All successful calls on a stream in a run, as numbered transmissions. -/
theorem calls_numbered {id : UInt32} (opens : Along (senderStep W) (OpensUnused id) s ops)
    (succeeds : ∀ c ∈ callsOn id (run (senderStep W) s ops).out, ∃ i, c.result = .ok i)
    (few : (callsOn id (run (senderStep W) s ops).out).length < 2 ^ 64)
    (start : s.nextIndex id = 0) : ∃ ts : List (Transmission W),
      Numbered (run (senderStep W) s ops).state id (callsOn id (run (senderStep W) s ops).out) ts := by
  let P (s : SankakuSender) (out : List SenderOutput) : Prop :=
    (∀ c ∈ callsOn id out, ∃ i, c.result = .ok i) → (callsOn id out).length < 2 ^ 64 →
      ∃ ts : List (Transmission W), Numbered s id (callsOn id out) ts
  have hstart : P s [] := fun _ _ => ⟨[], rfl, by simp, by simp, by simp [start]⟩
  have hrun := opens.keeps P (fun s out op hop ih succeeds few => ?_) hstart
  · simpa [P] using hrun (by simpa using succeeds) (by simpa using few)
  · obtain ⟨ts, hts⟩ := ih
      (fun c hc => succeeds c (by simp [hc])) (by simp at few; omega)
    exact numbered_step hop succeeds few hts

/-- Every packet of every call so far names the sender's session and the call's
stream. -/
def OnOwnStream (s : SankakuSender) (out : List SenderOutput) : Prop :=
  ∀ c ∈ callsOf out, ∀ p ∈ c.sent, ∃ sid, s.sessionId = some sid ∧
    datagramKey p = some ⟨sid, c.streamId⟩

theorem CarriesBlock.key (h : CarriesBlock W block sid hdr packet) :
    datagramKey packet = some ⟨sid, hdr.streamId⟩ := by
  obtain ⟨body, rfl, _⟩ := h.parse
  exact datagramKey_dataDatagram sid hdr body

/-- The packets of a call, whether it succeeded or not, name its own stream. -/
theorem SankakuSender.SendCase.named {id : UInt32} (h : SendCase W s id frame env o) : ∀ p ∈ o.sent,
    ∃ sid, o.sender.sessionId = some sid ∧ datagramKey p = some ⟨sid, id⟩ := by
  cases h with
  | early same => simp
  | broken e s' plan block n sent same session stream index protects holds packets =>
    intro p hp
    obtain ⟨i, _, hc⟩ := packets_carry protects packets p hp
    exact ⟨_, session, stream ▸ hc.key⟩
  | sent s' plan block n sent session same nextStreamId stream index protects holds packets =>
    intro p hp
    obtain ⟨i, _, hc⟩ := packets_carry protects packets p hp
    exact ⟨_, session, stream ▸ hc.key⟩

theorem onOwnStream_step (h : OnOwnStream s out) (op : SenderOp) :
    OnOwnStream (senderStep W s op).state (out ++ (senderStep W s op).out) := by
  have hcase := senderStep_cases W s op
  generalize senderStep W s op = o at hcase ⊢
  have old : ∀ s' : SankakuSender, (∀ sid, s.sessionId = some sid → s'.sessionId = some sid) →
      OnOwnStream s' out := by
    intro s' hs c hc p hp
    obtain ⟨sid, hsid, hk⟩ := h c hc p hp
    exact ⟨sid, hs sid hsid, hk⟩
  cases hcase with
  | quiet op same noCall =>
    intro c hc
    rw [callsOf_append, noCall, List.append_nil] at hc
    exact old _ same.sessionId c hc
  | opened t room fresh others session =>
    intro c hc
    rw [List.append_nil] at hc
    exact old _ (fun _ hs => session.trans hs) c hc
  | sending id frame env o sends err stops =>
    intro c hc
    rw [callsOf_append] at hc
    rcases List.mem_append.mp hc with hc | hc
    · exact old _ sends.session c hc
    · simp only [callsOf, List.filterMap_cons, SenderOutput.call?, List.filterMap_nil,
        List.mem_singleton] at hc
      subst hc
      exact sends.named

theorem datagrams_on_own_stream (ops : List SenderOp) (h : OnOwnStream s []) :
    OnOwnStream (run (senderStep W) s ops).state (run (senderStep W) s ops).out := by
  have hrun : OnOwnStream (run (senderStep W) s ops).state ([] ++ (run (senderStep W) s ops).out) :=
    run_keeps OnOwnStream (fun s out op _ h => onOwnStream_step h op) h
  exact hrun

/-- A sender all of whose calls on a stream succeeded. -/
theorem numbered_run {transport : TransportConfig} {seed id : UInt32}
    (opens : Along (senderStep W) (OpensUnused id) (.new transport seed) ops)
    (succeeds : ∀ c ∈ callsOn id (run (senderStep W) (.new transport seed) ops).out,
      c.result.isOk = true)
    (few : (callsOn id (run (senderStep W) (.new transport seed) ops).out).length < 2 ^ 64) :
    let o := run (senderStep W) (.new transport seed) ops
    (∃ ts : List (Transmission W), Numbered o.state id (callsOn id o.out) ts) ∧
      OnOwnStream o.state o.out := by
  refine ⟨calls_numbered opens (fun c hc => ?_) few rfl,
    datagrams_on_own_stream ops (fun c hc => by simp [callsOf] at hc)⟩
  cases hr : c.result with
  | ok i => exact ⟨i, rfl⟩
  | error e => simpa [hr, Except.isOk, Except.toBool] using succeeds c hc

/-- A datagram that names a stream is from a call on it. -/
theorem datagram_call (own : OnOwnStream s out) (hp : p ∈ datagramsOf out)
    (hk : datagramKey p = some k) : ∃ c ∈ callsOn k.streamId out, p ∈ c.sent := by
  obtain ⟨c, hc, hp⟩ := List.mem_flatMap.mp hp
  obtain ⟨sid, _, hkey⟩ := own c hc p hp
  rw [hk] at hkey
  cases hkey
  exact ⟨c, List.mem_filter.mpr ⟨hc, by simp⟩, hp⟩

end Sankaku
