import Sankaku.Proofs.Feeding

namespace Sankaku
open Machine

variable {W : Wirehair}

/-- A frame that was recovered, and when. -/
structure Recovery where
  arrivalNow : Nat
  envelope : FrameEnvelope

/-- The stream's part of the loop that recovers its frames one after the other. -/
def recoverStep (st : StreamState W) (r : Recovery) : Outcome (StreamState W) Output String :=
  done (st.accept r.arrivalNow r.envelope)

/-- How far the arrival gap in microseconds and the timestamp gap, 0 for a timestamp that
goes back, are apart. The first frame of a stream gives no sample. -/
def StreamState.sample (st : StreamState W) (r : Recovery) : Option Nat :=
  match st.lastArrival, st.lastTimestampUs with
  | some lastArrival, some lastTimestamp =>
    let arrivalGap := (r.arrivalNow - lastArrival) / 1000
    let timestampGap := r.envelope.timestampUs.toNat - lastTimestamp.toNat
    some ((arrivalGap : Int) - (timestampGap : Int)).natAbs
  | _, _ => none

/-- The code's value for a sample. -/
def jitterEstimate (jitterUs : UInt32) (s : Nat) : UInt32 :=
  UInt32.ofNat ((UInt64.ofNat jitterUs.toNat * 7 + UInt64.ofNat s) / 8).toNat

theorem jitterEstimate_toNat (jitterUs : UInt32) (s : Nat) :
    (jitterEstimate jitterUs s).toNat = (7 * jitterUs.toNat + s) % 2 ^ 64 / 8 % 2 ^ 32 := by
  have hjitter := jitterUs.toNat_lt
  have hsum : (UInt64.ofNat jitterUs.toNat * 7 + UInt64.ofNat s).toNat =
      (7 * jitterUs.toNat + s) % 2 ^ 64 := by
    rw [UInt64.toNat_add, UInt64.toNat_mul, UInt64.toNat_ofNat', UInt64.toNat_ofNat',
      Nat.mod_eq_of_lt (by omega : jitterUs.toNat < 2 ^ 64), Nat.mul_comm]
    exact (Nat.add_mod _ _ _).symm
  rw [jitterEstimate, UInt32.toNat_ofNat', UInt64.toNat_div, hsum]
  rfl

theorem jitterEstimate_small {jitterUs : UInt32} (small : 7 * jitterUs.toNat + s < 2 ^ 35) :
    (jitterEstimate jitterUs s).toNat = (7 * jitterUs.toNat + s) / 8 := by
  rw [jitterEstimate_toNat, Nat.mod_eq_of_lt (by omega), Nat.mod_eq_of_lt (by omega)]

/-- The estimate after a frame is the one for its sample. -/
theorem accept_jitter (st : StreamState W) (r : Recovery) :
    (st.accept r.arrivalNow r.envelope).jitterUs =
      match st.sample r with
      | some s => jitterEstimate st.jitterUs s
      | none => st.jitterUs := by
  unfold StreamState.accept StreamState.sample
  cases st.lastArrival with
  | none => rfl
  | some lastArrival =>
    cases st.lastTimestampUs with
    | none => rfl
    | some lastTimestamp =>
      have hgap := r.envelope.timestampUs.toNat_lt
      simp only [jitterEstimate, saturatingSub64, UInt64.toNat_ofNat']
      rw [Nat.mod_eq_of_lt (by omega)]

theorem accept_sample {st : StreamState W} (h : st.sample r = some s) :
    (st.accept r.arrivalNow r.envelope).jitterUs = jitterEstimate st.jitterUs s := by
  rw [accept_jitter, h]

/-- The update by a frame with the sample `s` is the formula's: the value is right, no
step wraps or cuts anything off, and no smaller sample would give more. -/
structure ExactUpdateBy (st : StreamState W) (r : Recovery) (s : Nat) : Prop where
  value : (st.accept r.arrivalNow r.envelope).jitterUs.toNat =
    min ((7 * st.jitterUs.toNat + s) / 8) (2 ^ 32 - 1)
  noOverflow : s < 2 ^ 64 ∧ 7 * st.jitterUs.toNat + s < 2 ^ 64
  noTruncation : (7 * st.jitterUs.toNat + s) / 8 < 2 ^ 32
  monotone : ∀ r' s', st.sample r' = some s' → s' ≤ s →
    (st.accept r'.arrivalNow r'.envelope).jitterUs ≤ (st.accept r.arrivalNow r.envelope).jitterUs

def ExactUpdate (st : StreamState W) (r : Recovery) : Prop :=
  ∀ s, st.sample r = some s → ExactUpdateBy st r s

/-- The old estimate and the sample leave room for the new estimate. -/
def RoomForUpdate (st : StreamState W) (r : Recovery) : Prop :=
  ∀ s, st.sample r = some s → 7 * st.jitterUs.toNat + s < 2 ^ 35

theorem exactUpdate_iff (st : StreamState W) (r : Recovery) :
    ExactUpdate st r ↔ RoomForUpdate st r := by
  constructor
  · intro hexact s hs
    have hfits := (hexact s hs).noTruncation
    omega
  · intro hroom s hs
    have hsmall := hroom s hs
    have hvalue := jitterEstimate_small hsmall
    refine ⟨?_, ⟨by omega, by omega⟩, by omega, ?_⟩
    · rw [accept_sample hs, hvalue]
      omega
    · intro r' s' hs' hle
      rw [accept_sample hs, accept_sample hs', UInt32.le_iff_toNat_le, hvalue,
        jitterEstimate_small (by omega)]
      exact Nat.div_le_div_right (by omega)

/-- Whatever frames a stream recovers and whenever, every update of its estimate is
exact, if and only if there is room for every one. -/
theorem jitter_exact_iff (st : StreamState W) (recovered : List Recovery) :
    Along recoverStep ExactUpdate st recovered ↔ Along recoverStep RoomForUpdate st recovered := by
  apply Along.congr (fun _ => True)
  · intro _ _ _ _ _
    trivial
  · intro s r _
    exact exactUpdate_iff s r
  · trivial

/-- Two frames at one instant, the second stamped 2^35 microseconds after the first.
The formula gives the largest estimate there is, the code gives 0. -/
theorem jitter_cut_off :
    let recovered : List Recovery := [⟨0, ⟨0, true, []⟩⟩, ⟨0, ⟨34359738368, false, []⟩⟩]
    (run recoverStep (.default .repetition) recovered).state.jitterUs = 0 ∧
      ¬ Along recoverStep ExactUpdate (.default .repetition) recovered := by
  intro recovered
  refine ⟨by decide +kernel, ?_⟩
  rintro ⟨_, hrest⟩
  have hsecond := (hrest rfl).1 (2 ^ 35) (by decide +kernel)
  exact absurd hsecond.noTruncation (by decide +kernel)

/-- What the estimate of a stream is computed from. -/
def StreamState.clock (st : StreamState W) : Option Nat × Option UInt64 × UInt32 :=
  (st.lastArrival, st.lastTimestampUs, st.jitterUs)

theorem accept_clock {st st' : StreamState W} (h : st.clock = st'.clock) (now : Nat)
    (e : FrameEnvelope) : (st.accept now e).clock = (st'.accept now e).clock := by
  simp only [StreamState.clock, Prod.mk.injEq] at h
  obtain ⟨harrival, hstamp, hjitter⟩ := h
  simp only [StreamState.clock, StreamState.accept, harrival, hstamp, hjitter]

theorem recovered_append (st : StreamState W) (rs : List Recovery) (r : Recovery) :
    (run recoverStep st (rs ++ [r])).state =
      (run recoverStep st rs).state.accept r.arrivalNow r.envelope := by
  induction rs generalizing st with
  | nil => rfl
  | cons x rs ih =>
    have hx : (recoverStep st x).error = none := rfl
    rw [List.cons_append, run_cons_state hx, run_cons_state hx]
    exact ih _

/-- The frame as it was recovered. -/
def InboundVideoFrame.recovery (env : RxEnv) (f : InboundVideoFrame) : Recovery :=
  ⟨env.now, f.timestampUs, f.keyframe, f.payload⟩

/-- Notes on a stream that no code keeps: the frames recovered since it was opened. -/
def noteRecovered (k : StreamKey) (notes : List Recovery) (_ : ReceiverRuntime W) (i : RxInput)
    (o : Handled W) : List Recovery :=
  if (o.state.slot k).isNone then []
  else notes ++ (framesOf (o.out.filter (reads k))).map (InboundVideoFrame.recovery i.env)

/-- A droplet moves the stream's clock just by the frame it completes. -/
theorem received_clock (R : SankakuReceiver) (a : AdmittedDroplet) (st : StreamState W)
    (rs : List Recovery) (h : st.clock = (run recoverStep (.default W) rs).state.clock) :
    (a.received R st).state.clock = (run recoverStep (.default W) (rs ++
      (framesOf (a.received R st).out).map (InboundVideoFrame.recovery a.env))).state.clock := by
  cases hpassed : st.decoderFor a with
  | none =>
    obtain ⟨hsilent, w, r, hstate | ⟨hstate, _⟩⟩ := received_other R hpassed <;>
    · rw [hsilent.frames, List.map_nil, List.append_nil, hstate]
      exact h
  | some ds =>
    obtain ⟨w, r, fb, hquiet, hdecoded⟩ := received_decoded R hpassed
    generalize a.received R st = o at hdecoded
    cases hdecoded with
    | delivered rest err noMore =>
      rw [framesOf_append, framesOf_cons, hquiet.noFrame, noMore]
      refine Eq.trans ?_ (congrArg StreamState.clock (recovered_append _ rs _)).symm
      exact accept_clock h _ _
    | _ =>
      rw [hquiet.noFrame, List.map_nil, List.append_nil]
      exact h

/-- After any run of the media loop the clock of a stream is that of its recovered
frames. -/
theorem stream_clock (R : SankakuReceiver) (k : StreamKey) (inputs : List RxInput) :
    let s := (run (noted (mediaStep R) (noteRecovered k)) ([], .default W) inputs).state
    (s.2.slot k).state.clock = (run recoverStep (.default W) s.1).state.clock := by
  apply run_keeps_state (fun s : List Recovery × ReceiverRuntime W =>
    (s.2.slot k).state.clock = (run recoverStep (.default W) s.1).state.clock)
  · rintro ⟨rs, rt⟩ i _ h
    simp only [noted_state, noteRecovered] at h ⊢
    cases hin : rt.incoming k i with
    | none =>
      obtain ⟨hsilent, hstate | ⟨_, hgone⟩⟩ := mediaStep_other R hin
      · split
        · rename_i hnone
          rw [Option.isNone_iff_eq_none.mp hnone]
          rfl
        · rw [hsilent.frames, List.map_nil, List.append_nil, hstate]
          exact h
      · rw [hgone]
        rfl
    | some a =>
      obtain ⟨hstate, hout, _⟩ := mediaStep_incoming R hin
      obtain ⟨_, packet, _, hi, _⟩ := incoming_spec hin
      have henv : i.env = a.env := by
        rw [hi]
        rfl
      rw [hstate, hout, if_neg (by simp), henv]
      exact received_clock R a _ rs h
  · rfl

end Sankaku
