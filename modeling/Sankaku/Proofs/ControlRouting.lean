import Sankaku.Proofs.ControlPackets
import Sankaku.Proofs.RepetitionWirehair
import Sankaku.Proofs.SenderSpec

namespace Sankaku
open Machine SankakuSender

variable {W : Wirehair} {k : StreamKey} {R : SankakuReceiver}

/-- A packet with the half it is meant for. -/
structure Addressed (k : StreamKey) where
  packet : Bytes
  half : Half
  meant : meantFor k packet = some half

/-- Reading a control stream with these contents gives this packet. -/
def carries (packet contents : Bytes) : Bool := (recvControl contents).toOption = some packet

def StreamEvent.taken (a : Addressed k) : StreamEvent → Nat
  | .opened contents => if carries a.packet contents then 1 else 0
  | _ => 0

/-- How often the half it is meant for has acted on a packet. -/
def settled (a : Addressed k) (disposals : List (Disposal W)) : Nat :=
  disposals.countP (fun d => d.half = a.half ∧ d.packet = a.packet ∧ d.acted)

@[simp] theorem settled_nil (a : Addressed k) : settled a ([] : List (Disposal W)) = 0 := rfl

theorem settled_one (a : Addressed k) (d : Disposal W) : settled a [d] =
    if d.half = a.half ∧ d.packet = a.packet ∧ d.acted = true then 1 else 0 := by
  rw [settled, List.countP_singleton]
  simp only [decide_eq_true_eq]

namespace SankakuStream

def key (s : SankakuStream W) : StreamKey := ⟨s.drawn, s.streamId⟩

/-- The reading task of this half runs or is yet to start. -/
def listens (s : SankakuStream W) : Half → Bool
  | .sender => s.sender.controlInRx.isNone || s.senderReading
  | .receiver => s.receiver.reading

/-- Copies of a packet that no task has accepted and its half can still accept. -/
def arriving (s : SankakuStream W) (a : Addressed k) : Nat :=
  if s.listens a.half then s.incoming.countP (carries a.packet) else 0

/-- Those, and the copies in the channel of its half. -/
def waiting (s : SankakuStream W) (a : Addressed k) : Nat :=
  s.arriving a + (s.channel a.half).count a.packet

/-- A step that loses no packet: a stream is opened to a half that listens, it is
accepted by the half it is meant for, no task or loop ends while it has more to
come, and no drain takes a report on a frame that comes after the one being sent. -/
def Keeps (R : SankakuReceiver) (k : StreamKey) (s : SankakuStream W) : StreamEvent → Prop
  | .opened contents => ∀ a : Addressed k, carries a.packet contents = true → s.listens a.half = true
  | .accepted half position => ∀ contents, s.incoming[position]? = some contents →
      s.reading half = true →
      match recvControl contents with
      | .error _ => ∀ a : Addressed k, a.half = half → s.arriving a = 0
      | .ok packet => ∀ a : Addressed k, a.packet = packet → s.listens a.half = true → a.half = half
  | .sending => True
  | .drained => ∀ packet queue, s.channel .sender = packet :: queue →
      meantFor k packet = some .sender → ∀ f, reportedFrame packet = some f → f ≤ s.frameIndex
  | .sent _ => True
  | .controlled env => ∀ packet rest, s.controlRx = packet :: rest → s.looping = true →
      meantFor k packet = some .receiver → env.controlOpen = false →
      ∀ a : Addressed k, a.half = .receiver →
        ({ s with controlRx := rest } : SankakuStream W).waiting a = 0
  | .datagram env packet => s.looping = true →
      (mediaStep R s.receiver.runtime (.datagram env packet)).error ≠ none →
      ∀ a : Addressed k, a.half = .receiver → s.waiting a = 0

/-- What holds of every stream that `connect` made. -/
structure Wired (k : StreamKey) (s : SankakuStream W) : Prop where
  key : s.key = k
  session : ∀ sessionId, s.sender.sessionId = some sessionId → sessionId = k.sessionId
  atOnce : HandshakeAtOnce s.sender
  reading : s.senderReading = true → s.sender.controlInRx.isSome = true
  policy : s.sender.transport.fec = .default

theorem connect_spec (s : SankakuStream W) {id : UInt64} (connected : connect W seed id = .ok s) :
    s.Wired s.key ∧ ∀ a : Addressed s.key, s.waiting a = 0 := by
  unfold connect at connected
  cases hopen : (SankakuSender.new .default seed).openStream with
  | mk result sender =>
  rw [hopen] at connected
  unfold openStream openStreamWithType at hopen
  by_cases hroom : (SankakuSender.new .default seed).nextStreamId.toNat + 1 < 2 ^ 32
  · rw [if_pos hroom] at hopen
    cases hopen
    cases connected
    refine ⟨⟨rfl, nofun, ⟨rfl, rfl, rfl⟩, nofun, rfl⟩, fun a => ?_⟩
    cases hhalf : a.half <;> simp [waiting, arriving, channel, hhalf, SankakuSender.new]
  · rw [if_neg hroom] at hopen
    cases hopen
    cases connected

/-- A handshake starts the sender's tasks on an empty channel, or it is none. -/
theorem handshake_spec (s : SankakuStream W) (wired : s.Wired k) : s.handshake.Wired k ∧
    (∀ half, s.handshake.channel half = s.channel half) ∧
    (∀ half, s.handshake.listens half = s.listens half) ∧ s.handshake.incoming = s.incoming := by
  obtain ⟨hkey, hsession, hatOnce, hreading, hpolicy⟩ := wired
  have htransport := (ensureHandshake_spec s.sender s.drawn).2.2.2
  rcases hatOnce.cases s.drawn with ⟨hsome, hsame⟩ | ⟨hnone, hrx, hid, hnew, hatOnce'⟩
  · have hrx : s.sender.controlInRx.isSome = true := by rw [hatOnce.controlIn, hsome]
    have hstays : s.handshake = s := by
      simp only [handshake, hsame, hrx, Option.isNone_eq_false_iff.mpr hrx, Bool.false_eq_true,
        false_and, if_false]
    rw [hstays]
    exact ⟨⟨hkey, hsession, hatOnce, hreading, hpolicy⟩, fun _ => rfl, fun _ => rfl, rfl⟩
  · refine ⟨⟨hkey, fun sessionId h => ?_, hatOnce', fun _ => ?_, ?_⟩, fun half => ?_, fun half => ?_,
      rfl⟩
    · rw [handshake, hid] at h
      exact (Option.some.inj h).symm.trans (congrArg StreamKey.sessionId hkey)
    · rw [handshake, hnew, Option.isSome_some]
    · rw [handshake, htransport]
      exact hpolicy
    · cases half <;> simp [handshake, channel, hrx, hnew]
    · cases half <;> simp [handshake, listens, hrx, hnew]

theorem beginSend_spec (s : SankakuStream W) (wired : s.Wired k) : s.beginSend.Wired k ∧
    (∀ half, s.beginSend.channel half = s.channel half) ∧
    (∀ half, s.beginSend.listens half = s.listens half) ∧ s.beginSend.incoming = s.incoming := by
  obtain ⟨hwired, hchannel, hlistens, hincoming⟩ := handshake_spec s wired
  unfold beginSend
  simp only
  split
  · exact ⟨hwired, hchannel, hlistens, hincoming⟩
  · refine ⟨{ hwired with
      atOnce := ⟨hwired.atOnce.pipeline, hwired.atOnce.controlIn, hwired.atOnce.controlOut⟩ },
      fun half => ?_, fun half => ?_, hincoming⟩
    · rw [← hchannel half]
      cases half <;> rfl
    · rw [← hlistens half]
      cases half <;> rfl

theorem afterDrain_kept (s : SankakuStream W) (listening : s.sender.controlInRx.isSome = true)
    (queue : List Bytes) (st : DrainState) : Kept s.sender (s.afterDrain queue st).sender :=
  ⟨rfl, rfl, rfl, rfl, rfl, rfl, listening.symm⟩

theorem accept_wired (s : SankakuStream W) (wired : s.Wired k) (half : Half) (position : Nat) :
    (s.accept half position).Wired k := by
  unfold accept
  split
  · exact wired
  · split
    · simp only
      split
      · cases half
        · exact { wired with reading := nofun }
        · exact { wired with }
      · rename_i packet _
        cases half
        · have kept := receiveControl_kept s.sender [packet]
          exact { wired with
            atOnce := kept.atOnce wired.atOnce
            reading := fun h => kept.listening.trans (wired.reading h) }
        · exact { wired with }
    · exact wired

theorem afterTurn_wired (s : SankakuStream W) (wired : s.Wired k) (turn : Handled W) :
    (s.afterTurn turn).Wired k := by
  unfold afterTurn
  split <;> exact { wired with }

theorem streamStep_wired (R : SankakuReceiver) (s : SankakuStream W) (event : StreamEvent)
    (wired : s.Wired k) : (streamStep R s event).state.Wired k := by
  cases event with
  | opened contents => exact { wired with }
  | accepted half position => exact accept_wired s wired half position
  | sending => exact (beginSend_spec s wired).1
  | drained =>
    simp only [streamStep]
    split
    · rename_i sessionId packet queue _ hrx
      have kept := afterDrain_kept s (by rw [hrx, Option.isSome_some]) queue
        ((drainPacket (s.drainContext sessionId) s.drainState packet).getD s.drainState)
      exact ⟨wired.key, fun id h => wired.session id (kept.sessionId.symm.trans h),
        kept.atOnce wired.atOnce, fun h => kept.listening.trans (wired.reading h), wired.policy⟩
    · exact wired
  | sent rawLen =>
    exact { wired with
      atOnce := ⟨wired.atOnce.pipeline, wired.atOnce.controlIn, wired.atOnce.controlOut⟩ }
  | controlled env =>
    simp only [streamStep]
    split
    · exact wired
    · rename_i rest _
      split
      · exact afterTurn_wired { s with controlRx := rest } { wired with } _
      · exact wired
  | datagram env packet =>
    simp only [streamStep]
    split
    · exact afterTurn_wired s wired _
    · exact wired

/-- Every copy there was or came in is on its way, settled or lost, and none is
lost just if the event is one that keeps them. -/
def Accounted (R : SankakuReceiver) (k : StreamKey) (s : SankakuStream W) (event : StreamEvent)
    (s' : SankakuStream W) (out : List (Disposal W)) : Prop :=
  ∃ lost : Addressed k → Nat,
    (∀ a, s'.waiting a + settled a out + lost a = s.waiting a + event.taken a) ∧
    ((∀ a, lost a = 0) ↔ s.Keeps R k event)

/-- An event that leaves all accounts as they were. -/
theorem Accounted.of_same {s s' : SankakuStream W} {event : StreamEvent} {out : List (Disposal W)}
    (same : ∀ a : Addressed k, s'.waiting a + settled a out = s.waiting a)
    (none : ∀ a : Addressed k, event.taken a = 0) (keeps : s.Keeps R k event) :
    Accounted R k s event s' out :=
  ⟨fun _ => 0, fun a => by rw [same a, none a], fun _ => keeps, fun _ _ => rfl⟩

theorem waiting_eq {s s' : SankakuStream W} {a : Addressed k} (incoming : s'.incoming = s.incoming)
    (listens : s'.listens a.half = s.listens a.half) (channel : s'.channel a.half = s.channel a.half) :
    s'.waiting a = s.waiting a := by
  simp only [waiting, arriving, incoming, listens, channel]

/-- Taking a packet off the channel of a half takes one copy off what waits. -/
theorem waiting_taken (s s' : SankakuStream W) (half : Half) (incoming : s'.incoming = s.incoming)
    (listens : ∀ h, s'.listens h = s.listens h)
    (before : s.channel half = packet :: queue) (after : s'.channel half = queue)
    (others : ∀ h, h ≠ half → s'.channel h = s.channel h) (a : Addressed k) :
    s.waiting a = s'.waiting a + if a.half = half ∧ a.packet = packet then 1 else 0 := by
  by_cases hhalf : a.half = half
  · simp only [waiting, arriving, incoming, listens, hhalf, before, after, List.count_cons,
      true_and, eq_comm (a := packet), beq_iff_eq, Nat.add_assoc]
  · rw [if_neg fun h => hhalf h.1, Nat.add_zero,
      waiting_eq incoming (listens _) (others _ hhalf)]

theorem countP_eraseIdx {p : α → Bool} {xs : List α} {i : Nat} {x : α} (h : xs[i]? = some x) :
    (xs.eraseIdx i).countP p + (if p x then 1 else 0) = xs.countP p := by
  obtain ⟨hi, rfl⟩ := List.getElem?_eq_some_iff.mp h
  rw [← (List.getElem_cons_eraseIdx_perm hi).countP_eq p, List.countP_cons]

theorem carries_ok (h : recvControl contents = .ok packet) (other : Bytes) :
    carries other contents = true ↔ other = packet := by
  simp [carries, h, Except.toOption, eq_comm]

theorem carries_error (h : recvControl contents = .error e) (other : Bytes) :
    carries other contents = false := by
  simp [carries, h, Except.toOption]

theorem reading_listens (s : SankakuStream W) (half : Half) (h : s.reading half = true) :
    s.listens half = true := by
  cases half <;> simp_all [reading, listens]

theorem incoming_listens (s : SankakuStream W) (incoming : List Bytes) (half : Half) :
    ({ s with incoming } : SankakuStream W).listens half = s.listens half := by
  cases half <;> rfl

theorem incoming_channel (s : SankakuStream W) (incoming : List Bytes) (half : Half) :
    ({ s with incoming } : SankakuStream W).channel half = s.channel half := by
  cases half <;> rfl

theorem opened_accounted (s : SankakuStream W) (contents : Bytes) :
    Accounted R k s (.opened contents) { s with incoming := s.incoming ++ [contents] } [] := by
  refine ⟨fun a => if carries a.packet contents ∧ ¬ s.listens a.half then 1 else 0, fun a => ?_, ?_⟩
  · simp only [waiting, arriving, incoming_listens, incoming_channel, List.countP_append,
      List.countP_singleton, settled_nil, StreamEvent.taken]
    split <;> split <;> simp_all
    omega
  · simp only [ite_eq_right_iff, Keeps]
    exact forall_congr' (fun a => by simp)

/-- A task that stops leaves the channels and the other half's task alone. -/
theorem stopReading_spec (s : SankakuStream W) (wired : s.Wired k) (half : Half)
    (running : s.reading half = true) : (s.stopReading half).incoming = s.incoming ∧
    (∀ h, (s.stopReading half).channel h = s.channel h) ∧
    (s.stopReading half).listens half = false ∧
    ∀ h, h ≠ half → (s.stopReading half).listens h = s.listens h := by
  cases half with
  | sender =>
    refine ⟨rfl, fun h => by cases h <;> rfl, ?_, fun h hne => ?_⟩
    · obtain ⟨queue, hrx⟩ := Option.isSome_iff_exists.mp (wired.reading running)
      simp [stopReading, listens, hrx]
    · cases h
      · exact absurd rfl hne
      · rfl
  | receiver =>
    refine ⟨rfl, fun h => by cases h <;> rfl, rfl, fun h hne => ?_⟩
    cases h
    · rfl
    · exact absurd rfl hne

theorem deliver_spec (s : SankakuStream W) (wired : s.Wired k) (half : Half) (packet : Bytes)
    (running : s.reading half = true) : (s.deliver half packet).incoming = s.incoming ∧
    (∀ h, (s.deliver half packet).listens h = s.listens h) ∧
    (s.deliver half packet).channel half = s.channel half ++ [packet] ∧
    ∀ h, h ≠ half → (s.deliver half packet).channel h = s.channel h := by
  cases half with
  | sender =>
    obtain ⟨queue, hrx⟩ := Option.isSome_iff_exists.mp (wired.reading running)
    refine ⟨rfl, fun h => ?_, ?_, fun h hne => ?_⟩
    · cases h <;> simp [deliver, receiveControl, listens, hrx]
    · simp [deliver, receiveControl, channel, hrx]
    · cases h
      · exact absurd rfl hne
      · rfl
  | receiver =>
    refine ⟨rfl, fun h => by cases h <;> rfl, rfl, fun h hne => ?_⟩
    cases h
    · rfl
    · exact absurd rfl hne

/-- What a task cannot read to its end ends it: the copies on the way to its half
stay where they are for good. -/
theorem accept_error_accounted (s : SankakuStream W) (wired : s.Wired k) {half : Half}
    {position : Nat} {contents : Bytes} (hat : s.incoming[position]? = some contents)
    (running : s.reading half = true) {e : String} (hread : recvControl contents = .error e) :
    Accounted R k s (.accepted half position)
      ({ s with incoming := s.incoming.eraseIdx position }.stopReading half) [] := by
  have wired' : ({ s with incoming := s.incoming.eraseIdx position } : SankakuStream W).Wired k :=
    { wired with }
  obtain ⟨hincoming, hchannel, hstopped, hother⟩ := stopReading_spec _ wired' half running
  refine ⟨fun a => if a.half = half then s.arriving a else 0, fun a => ?_, ?_⟩
  · have hcount := countP_eraseIdx (p := carries a.packet) hat
    rw [carries_error hread, if_neg Bool.false_ne_true, Nat.add_zero] at hcount
    simp only [waiting, arriving, hincoming, hchannel, hcount, incoming_channel, settled_nil, StreamEvent.taken]
    by_cases hhalf : a.half = half
    · rw [hhalf, hstopped, if_pos rfl]
      simp only [Bool.false_eq_true, if_false]
      omega
    · rw [if_neg hhalf, hother _ hhalf, incoming_listens]
  · simp only [ite_eq_right_iff, Keeps, hat, Option.some.injEq, forall_eq', hread, running,
      forall_const]

theorem accept_ok_accounted (s : SankakuStream W) (wired : s.Wired k) {half : Half}
    {position : Nat} {contents : Bytes} (hat : s.incoming[position]? = some contents)
    (running : s.reading half = true) {packet : Bytes} (hread : recvControl contents = .ok packet) :
    Accounted R k s (.accepted half position)
      ({ s with incoming := s.incoming.eraseIdx position }.deliver half packet) [] := by
  have wired' : ({ s with incoming := s.incoming.eraseIdx position } : SankakuStream W).Wired k :=
    { wired with }
  obtain ⟨hincoming, hlistens, hown, hother⟩ := deliver_spec _ wired' half packet running
  refine ⟨fun a => if a.packet = packet ∧ s.listens a.half = true ∧ a.half ≠ half then 1 else 0,
    fun a => ?_, ?_⟩
  · have hcount := countP_eraseIdx (p := carries a.packet) hat
    simp only [carries_ok hread] at hcount
    simp only [waiting, arriving, hincoming, hlistens, incoming_listens, settled_nil,
      StreamEvent.taken]
    by_cases hhalf : a.half = half
    · rw [hhalf, hown, incoming_channel, reading_listens s half running, List.count_append,
        List.count_singleton]
      simp only [ne_eq, not_true_eq_false, and_false, if_false, if_true, ← hcount]
      grind
    · rw [hother _ hhalf, incoming_channel]
      by_cases hl : s.listens a.half = true
      · simp only [hl, hhalf, ne_eq, not_false_eq_true, and_self, and_true, if_true, ← hcount]
        omega
      · simp [hl]
  · simp only [Keeps, hat, Option.some.injEq, forall_eq', hread, running, forall_const]
    exact forall_congr' (fun a => by simp)

theorem accepted_accounted (s : SankakuStream W) (wired : s.Wired k) (half : Half) (position : Nat) :
    Accounted R k s (.accepted half position) (s.accept half position) [] := by
  cases hat : s.incoming[position]? with
  | none =>
    have hsame : s.accept half position = s := by simp only [accept, hat]
    rw [hsame]
    apply Accounted.of_same (fun _ => rfl) (fun _ => rfl)
    intro contents hc
    rw [hat] at hc
    cases hc
  | some contents =>
    by_cases running : s.reading half = true
    · cases hread : recvControl contents with
      | error e =>
        simp only [accept, hat, if_pos running, hread]
        exact accept_error_accounted s wired hat running hread
      | ok packet =>
        simp only [accept, hat, if_pos running, hread]
        exact accept_ok_accounted s wired hat running hread
    · have hsame : s.accept half position = s := by simp only [accept, hat, if_neg running]
      rw [hsame]
      exact Accounted.of_same (fun _ => rfl) (fun _ => rfl) (fun _ _ h => absurd h running)

/-- A turn of a drain hands the packet at the head of the channel to its frame. -/
theorem drained_step (R : SankakuReceiver) (s : SankakuStream W) {sessionId : UInt64}
    (hsid : s.sender.sessionId = some sessionId) {packet : Bytes} {queue : List Bytes}
    (hrx : s.sender.controlInRx = some (packet :: queue)) :
    let cx := s.drainContext sessionId
    let after := (drainPacket cx s.drainState packet).getD s.drainState
    streamStep R s .drained = ⟨s.afterDrain queue after,
      [.drained cx packet s.drainState after], none⟩ := by
  simp only [streamStep, hsid, hrx]
  rfl

theorem drain_nil (s : SankakuStream W) (cx : DrainContext)
    (hrx : s.sender.controlInRx = some []) : s.sender.drain cx s.tuning = (.ok s.tuning, s.sender) := by
  have hsame : { s.sender with controlInRx := some [] } = s.sender := by rw [← hrx]
  simp only [drain, hrx]
  exact congrArg (Prod.mk (Except.ok s.tuning)) hsame

theorem drain_cons (s : SankakuStream W) (cx : DrainContext) {after : DrainState}
    (hrx : s.sender.controlInRx = some (packet :: queue))
    (hafter : drainPacket cx s.drainState packet = some after) :
    s.sender.drain cx s.tuning =
      (s.afterDrain queue after).sender.drain cx (s.afterDrain queue after).tuning := by
  rw [drainState] at hafter
  simp only [drain, hrx, afterDrain, drainControlChannel, hafter]
  rfl

/-- Turn by turn the channel is drained as `drain_control_channel` drains it. -/
theorem drained_run (R : SankakuReceiver) (s : SankakuStream W) (wired : s.Wired k)
    {sessionId : UInt64} (hsid : s.sender.sessionId = some sessionId) {queue : List Bytes}
    (hrx : s.sender.controlInRx = some queue) :
    let o := run (streamStep R) s (List.replicate queue.length .drained)
    s.sender.drain (s.drainContext sessionId) s.tuning = (.ok o.state.tuning, o.state.sender) := by
  induction queue generalizing s with
  | nil => exact drain_nil s _ hrx
  | cons packet queue ih =>
    have hafter := drainPacket_asked (s.drainContext sessionId) s.drainState wired.policy packet
    have hstep := drained_step R s hsid hrx
    have hwired := streamStep_wired R s .drained wired
    simp only [hafter, Option.getD_some] at hstep
    rw [hstep] at hwired
    simp only [drain_cons s _ hrx hafter, List.length_cons, List.replicate_succ,
      run_cons_state (congrArg Outcome.error hstep), hstep]
    exact ih _ hwired hsid rfl

/-- A drain acts on what is meant for the sender but the reports it takes too early. -/
theorem drained_acts (s : SankakuStream W) (wired : s.Wired k) {sessionId : UInt64}
    (hsid : s.sender.sessionId = some sessionId) (packet : Bytes) :
    let cx := s.drainContext sessionId
    (Disposal.drained (W := W) cx packet s.drainState
      ((drainPacket cx s.drainState packet).getD s.drainState)).acted = true ↔
      meantFor k packet = some .sender ∧ ∀ f, reportedFrame packet = some f → f ≤ s.frameIndex := by
  have hkey : (⟨sessionId, s.streamId⟩ : StreamKey) = k := by
    rw [wired.session sessionId hsid]
    exact congrArg (StreamKey.mk k.sessionId) (congrArg StreamKey.streamId wired.key)
  simp only
  rw [drained_acted _ _ wired.policy, asked_isSome_iff _ _ wired.policy, ← hkey]
  rfl

theorem drained_accounted (R : SankakuReceiver) (s : SankakuStream W) (wired : s.Wired k) :
    Accounted R k s .drained (streamStep R s .drained).state (streamStep R s .drained).out := by
  by_cases hempty : s.channel .sender = []
  · have hidle : streamStep R s .drained = ⟨s, [], none⟩ := by
      simp only [streamStep]
      split
      · rename_i hrx
        simp only [channel, hrx, Option.getD_some, reduceCtorEq] at hempty
      · rfl
    rw [hidle]
    apply Accounted.of_same (fun _ => rfl) (fun _ => rfl)
    intro packet queue hqueue
    rw [hempty] at hqueue
    cases hqueue
  obtain ⟨packet, queue, hqueue⟩ := List.exists_cons_of_ne_nil hempty
  have hrx : s.sender.controlInRx = some (packet :: queue) := by
    rw [channel] at hqueue
    cases hin : s.sender.controlInRx <;> simp_all
  have hlistening : s.sender.controlInRx.isSome = true := by rw [hrx, Option.isSome_some]
  obtain ⟨sessionId, hsid⟩ := Option.isSome_iff_exists.mp (wired.atOnce.controlIn ▸ hlistening)
  rw [drained_step R s hsid hrx]
  have hacts := drained_acts s wired hsid packet
  simp only at hacts ⊢
  generalize (drainPacket (s.drainContext sessionId) s.drainState packet).getD s.drainState = after
    at hacts ⊢
  have hwaiting := waiting_taken (k := k) s (s.afterDrain queue after) .sender rfl
    (fun half => by cases half <;> simp [listens, afterDrain, hrx]) hqueue rfl
    (fun half hne => by
      cases half with
      | sender => exact absurd rfl hne
      | receiver => rfl)
  refine ⟨fun a => if a.half = .sender ∧ a.packet = packet ∧
      ¬ ∀ f, reportedFrame packet = some f → f ≤ s.frameIndex then 1 else 0, fun a => ?_,
    ⟨fun lost p q hp hmeant => ?_, fun keeps a => if_neg fun early => early.2.2 ?_⟩⟩
  · simp only [settled_one, hacts, hwaiting a, StreamEvent.taken, Disposal.half, Disposal.packet,
      eq_comm (a := Half.sender), eq_comm (a := packet)]
    by_cases hown : a.half = .sender ∧ a.packet = packet
    · obtain ⟨hhalf, hp⟩ := hown
      have hmeant : meantFor k packet = some .sender := hp ▸ hhalf ▸ a.meant
      simp only [hhalf, hp, hmeant, true_and, and_self, if_true, Nat.add_zero, Nat.add_assoc,
        Nat.add_left_cancel_iff]
      split <;> simp_all
    · simp [hown, ← and_assoc]
  · obtain ⟨rfl, rfl⟩ := List.cons.inj (hqueue.symm.trans hp)
    by_contra hearly
    exact absurd (lost ⟨packet, .sender, hmeant⟩) (by simp [hearly])
  · exact keeps packet queue hqueue (early.2.1 ▸ early.1 ▸ a.meant)

/-- A turn without error loses nothing, an error loses what waits for the receiver. -/
theorem afterTurn_waiting (s : SankakuStream W) (turn : Handled W) (a : Addressed k) :
    (s.afterTurn turn).waiting a =
      if turn.error.isSome = true ∧ a.half = .receiver then 0 else s.waiting a := by
  unfold afterTurn
  cases turn.error with
  | none =>
    refine waiting_eq rfl ?_ ?_ <;> cases a.half <;> rfl
  | some e =>
    cases hhalf : a.half with
    | sender =>
      simp only [Option.isSome_some, reduceCtorEq, and_false, if_false]
      refine waiting_eq rfl ?_ ?_ <;> rw [hhalf] <;> rfl
    | receiver => simp [waiting, arriving, listens, channel, hhalf]

theorem afterTurn_runtime (s : SankakuStream W) (turn : Handled W) :
    (s.afterTurn turn).receiver.runtime = turn.state := by
  unfold afterTurn
  split <;> rfl

theorem controlled_accounted (R : SankakuReceiver) (s : SankakuStream W) (env : RxEnv) :
    Accounted R k s (.controlled env) (streamStep R s (.controlled env)).state
      (streamStep R s (.controlled env)).out := by
  cases hrx : s.controlRx with
  | nil =>
    simp only [streamStep, hrx]
    apply Accounted.of_same (fun _ => rfl) (fun _ => rfl)
    intro packet rest hcons
    rw [hrx] at hcons
    cases hcons
  | cons packet rest =>
  by_cases hloop : s.looping = true
  · simp only [streamStep, hrx, if_pos hloop]
    have hwaiting := waiting_taken (k := k) s { s with controlRx := rest } .receiver rfl
      (fun half => by cases half <;> rfl) hrx rfl
      (fun half hne => by
        cases half with
        | sender => rfl
        | receiver => exact absurd rfl hne)
    obtain ⟨hacted, herror⟩ := mediaStep_fin R s.receiver.runtime env packet
    generalize mediaStep R s.receiver.runtime (.control env packet) = turn at hacted herror ⊢
    rw [afterTurn_runtime]
    refine ⟨fun a => if turn.error.isSome = true ∧ a.half = .receiver then
      ({ s with controlRx := rest } : SankakuStream W).waiting a else 0, fun a => ?_, ?_⟩
    · rw [settled_one, afterTurn_waiting, hwaiting a, hacted]
      simp only [StreamEvent.taken, Disposal.half, Disposal.packet, eq_comm (a := Half.receiver),
        eq_comm (a := packet)]
      by_cases hown : a.half = .receiver ∧ a.packet = packet
      · obtain ⟨hhalf, hp⟩ := hown
        have hfin : (controlKey packet).isSome = true :=
          (meantFor_receiver k packet).mp (hp ▸ hhalf ▸ a.meant)
        simp only [hhalf, hp, hfin, and_self, and_true, if_true]
        split <;> omega
      · simp only [← and_assoc, hown, false_and, if_false]
        split <;> omega
    · have hfails : turn.error.isSome = true ↔
          meantFor k packet = some .receiver ∧ env.controlOpen = false := by
        rw [Option.isSome_iff_ne_none, ne_eq, herror, meantFor_receiver]
        simp
      simp only [ite_eq_right_iff, Keeps, hrx, hfails]
      refine ⟨fun lost p q hcons _ hmeant hclosed a hhalf => ?_,
        fun keeps a h => keeps packet rest rfl hloop h.1.1 h.1.2 a h.2⟩
      obtain ⟨rfl, rfl⟩ := List.cons.inj hcons
      exact lost a ⟨⟨hmeant, hclosed⟩, hhalf⟩
  · simp only [streamStep, hrx, if_neg hloop]
    exact Accounted.of_same (fun _ => rfl) (fun _ => rfl) (fun _ _ _ h => absurd h hloop)

theorem datagram_accounted (R : SankakuReceiver) (s : SankakuStream W) (env : RxEnv)
    (packet : Bytes) : Accounted R k s (.datagram env packet)
      (streamStep R s (.datagram env packet)).state (streamStep R s (.datagram env packet)).out := by
  by_cases hloop : s.looping = true
  · simp only [streamStep, if_pos hloop]
    refine ⟨fun a => if (mediaStep R s.receiver.runtime (.datagram env packet)).error.isSome = true ∧
      a.half = .receiver then s.waiting a else 0, fun a => ?_, ?_⟩
    · rw [afterTurn_waiting]
      simp only [settled_nil, StreamEvent.taken]
      split <;> omega
    · simp only [ite_eq_right_iff, and_imp, Keeps, hloop, forall_const, ← Option.isSome_iff_ne_none]
      exact ⟨fun h hsome a => h a hsome, fun h a hsome => h hsome a⟩
  · simp only [streamStep, if_neg hloop]
    exact Accounted.of_same (fun _ => rfl) (fun _ => rfl) (fun h => absurd h hloop)

theorem streamStep_accounted (R : SankakuReceiver) (s : SankakuStream W) (wired : s.Wired k)
    (event : StreamEvent) :
    Accounted R k s event (streamStep R s event).state (streamStep R s event).out := by
  cases event with
  | opened contents => exact opened_accounted s contents
  | accepted half position => exact accepted_accounted s wired half position
  | sending =>
    obtain ⟨_, hchannel, hlistens, hincoming⟩ := beginSend_spec s wired
    exact Accounted.of_same (fun a => waiting_eq hincoming (hlistens a.half) (hchannel a.half))
      (fun _ => rfl) trivial
  | drained => exact drained_accounted R s wired
  | sent rawLen =>
    refine Accounted.of_same (fun a => waiting_eq rfl ?_ ?_) (fun _ => rfl) trivial
    · cases a.half <;> rfl
    · cases a.half <;> rfl
  | controlled env => exact controlled_accounted R s env
  | datagram env packet => exact datagram_accounted R s env packet

end SankakuStream

theorem streamStep_goes (R : SankakuReceiver) (s : SankakuStream W) (event : StreamEvent) :
    (streamStep R s event).error = none := by
  cases event with
  | drained =>
    simp only [streamStep]
    split <;> rfl
  | controlled =>
    simp only [streamStep]
    split
    · rfl
    · split <;> rfl
  | datagram =>
    simp only [streamStep]
    split <;> rfl
  | _ => rfl

/-- Along any events of a stream that `connect` made, every control packet the peer
sent is on its way to the half it is meant for, in that half's channel, or was acted
on by that half once, if and only if every event keeps the packets. -/
theorem control_routed_iff (R : SankakuReceiver) (s : SankakuStream W) {id : UInt64}
    (connected : SankakuStream.connect W seed id = .ok s) (events : List StreamEvent) :
    (∀ a : Addressed s.key, (run (streamStep R) s events).state.waiting a +
        settled a (run (streamStep R) s events).out = (events.map (StreamEvent.taken a)).sum) ↔
      Along (streamStep R) (SankakuStream.Keeps R s.key) s events := by
  obtain ⟨wired, nothing⟩ := SankakuStream.connect_spec s connected
  have balance := Along.balance (fun (a : Addressed s.key) (s : SankakuStream W) => s.waiting a)
    (fun a out => settled a out) StreamEvent.taken (fun _ _ _ => List.countP_append)
    (SankakuStream.Wired s.key) (SankakuStream.streamStep_wired R) (streamStep_goes R)
    (fun t event (_ : event ∈ events) wired =>
      SankakuStream.streamStep_accounted R t wired event) wired
  simpa only [nothing, Nat.zero_add] using balance

def finPacket : Bytes := PacketType.streamFin.toByte :: StreamFinPacket.serialize ⟨42, 7, 0, 0⟩

def feedbackPacket : Bytes := PacketType.feedback.toByte :: (le64 42 ++ le32 7 ++ le32 0)

theorem control_routed_fin : ∃ s, SankakuStream.connect .repetition 7 42 = .ok s ∧
    let events := [.opened (sendControl finPacket), .accepted .receiver 0, .controlled (.live 0)]
    let o := run (streamStep ⟨.disabled, [], false⟩) s events
    ∀ a : Addressed s.key,
      o.state.waiting a + settled a o.out = (events.map (StreamEvent.taken a)).sum := by
  have connected : SankakuStream.connect .repetition 7 42 = .ok _ := rfl
  refine ⟨_, connected, (control_routed_iff _ _ connected _).mpr ?_⟩
  refine ⟨fun a _ => by cases a.half <;> rfl, fun _ => ⟨fun contents hat _ => ?_, fun _ =>
    ⟨fun _ _ _ _ _ hclosed => absurd hclosed (by decide), fun _ => trivial⟩⟩⟩
  cases hat
  intro a ha _
  have hm := a.meant
  rw [ha] at hm
  exact (Option.some.inj hm).symm

/-- The sender's task takes the FIN and the receiver's the feedback. Both are taken
off their channels and nothing comes of them. -/
theorem control_stolen : ∃ s, SankakuStream.connect .repetition 7 42 = .ok s ∧
    meantFor s.key finPacket = some .receiver ∧ meantFor s.key feedbackPacket = some .sender ∧
    let o := run (streamStep ⟨.disabled, [], false⟩) s
      [.sending, .opened (sendControl finPacket), .opened (sendControl feedbackPacket),
       .accepted .sender 0, .accepted .receiver 0, .drained, .controlled (.live 0)]
    o.state.incoming = [] ∧ o.state.channel .sender = [] ∧ o.state.channel .receiver = [] ∧
    o.out.map (fun d => (d.half, d.packet, d.acted)) =
      [(.sender, finPacket, false), (.receiver, feedbackPacket, false)] :=
  ⟨_, rfl, by decide +kernel⟩

end Sankaku
