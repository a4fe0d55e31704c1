import Mathlib.Algebra.Order.Group.Defs
import Mathlib.Algebra.Ring.Nat

namespace Machine

/-- What one step, or a run of steps, leaves: the state, the outputs in order,
and the error that ended it. -/
structure Outcome (σ ο ε : Type) where
  state : σ
  out : List ο
  error : Option ε

/-- A machine handles its inputs one at a time and stops at the first error.
The outputs of the failing step are kept. -/
def run (step : σ → ι → Outcome σ ο ε) (s : σ) : List ι → Outcome σ ο ε
  | [] => ⟨s, [], none⟩
  | i :: is =>
    let first := step s i
    match first.error with
    | some _ => first
    | none =>
      let rest := run step first.state is
      ⟨rest.state, first.out ++ rest.out, rest.error⟩

variable {step : σ → ι → Outcome σ ο ε}

@[simp] theorem run_nil (s : σ) : run step s [] = ⟨s, [], none⟩ := rfl

theorem run_cons_ok (h : (step s i).error = none) :
    run step s (i :: is) = ⟨(run step (step s i).state is).state,
      (step s i).out ++ (run step (step s i).state is).out,
      (run step (step s i).state is).error⟩ := by
  simp only [run, h]

theorem run_cons_state (h : (step s i).error = none) :
    (run step s (i :: is)).state = (run step (step s i).state is).state := by
  rw [run_cons_ok h]

theorem run_cons_out (h : (step s i).error = none) :
    (run step s (i :: is)).out = (step s i).out ++ (run step (step s i).state is).out := by
  rw [run_cons_ok h]

theorem run_cons_error (h : (step s i).error = some e) : run step s (i :: is) = step s i := by
  simp only [run, h]

/-- A run without error had no error in its first step. -/
theorem run_cons_none (h : (run step s (i :: is)).error = none) :
    (step s i).error = none ∧ (run step (step s i).state is).error = none := by
  cases hs : (step s i).error with
  | some e => rw [run_cons_error hs, hs] at h; cases h
  | none => rw [run_cons_ok hs] at h; exact ⟨rfl, h⟩

theorem run_append_ok (h : (run step s is).error = none) :
    run step s (is ++ js) = ⟨(run step (run step s is).state js).state,
      (run step s is).out ++ (run step (run step s is).state js).out,
      (run step (run step s is).state js).error⟩ := by
  induction is generalizing s with
  | nil => simp
  | cons i is ih =>
    obtain ⟨hs, hr⟩ := run_cons_none h
    rw [List.cons_append, run_cons_ok hs, run_cons_ok hs, ih hr, List.append_assoc]

/-- The last step may end in an error. -/
theorem run_snoc_state (h : (run step s is).error = none) :
    (run step s (is ++ [i])).state = (step (run step s is).state i).state := by
  rw [run_append_ok h]
  cases hs : (step (run step s is).state i).error with
  | some e => rw [run_cons_error hs]
  | none => rw [run_cons_ok hs, run_nil]

/-- A property of the state and of the outputs so far that every step keeps,
the failing one included, holds after any run. -/
theorem run_keeps (P : σ → List ο → Prop)
    (keep : ∀ s os i, i ∈ is → P s os → P (step s i).state (os ++ (step s i).out))
    (start : P s os) : P (run step s is).state (os ++ (run step s is).out) := by
  induction is generalizing s os with
  | nil => simpa using start
  | cons i is ih =>
    have hk := keep s os i List.mem_cons_self start
    cases hs : (step s i).error with
    | some e => rw [run_cons_error hs]; exact hk
    | none =>
      rw [run_cons_ok hs, ← List.append_assoc]
      exact ih (fun s os j hj => keep s os j (List.mem_cons_of_mem _ hj)) hk

/-- The same for a property of the state alone. -/
theorem run_keeps_state (P : σ → Prop) (keep : ∀ s i, i ∈ is → P s → P (step s i).state)
    (start : P s) : P (run step s is).state :=
  @run_keeps _ _ _ _ step is s [] (fun s _ => P s) (fun s _ i hi h => keep s i hi h) start

/-- The same for a property of the inputs taken and the state, which holds of more
inputs as well. -/
theorem run_keeps_taken (P : List ι → σ → Prop)
    (keep : ∀ past s i, P past s → P (past ++ [i]) (step s i).state)
    (more : ∀ past s later, P past s → P (past ++ later) s) (start : P [] s) :
    P is (run step s is).state := by
  have hgo : ∀ past s, P past s → P (past ++ is) (run step s is).state := by
    clear start
    induction is with
    | nil =>
      intro past s h
      rw [List.append_nil]
      exact h
    | cons i is ih =>
      intro past s h
      have hkept := keep past s i h
      rw [List.append_cons]
      cases hs : (step s i).error with
      | some e =>
        rw [run_cons_error hs]
        exact more _ _ is hkept
      | none =>
        rw [run_cons_state hs]
        exact ih _ _ hkept
  exact hgo [] s start

/-- The machine that takes the next input whatever the last one returned. -/
def carryOn (step : σ → ι → Outcome σ ο ε) (s : σ) (i : ι) : Outcome σ ο ε :=
  { step s i with error := none }

@[simp] theorem carryOn_state : (carryOn step s i).state = (step s i).state := rfl
@[simp] theorem carryOn_out : (carryOn step s i).out = (step s i).out := rfl
@[simp] theorem carryOn_error : (carryOn step s i).error = none := rfl

theorem run_carryOn_error : (run (carryOn step) s is).error = none := by
  induction is generalizing s with
  | nil => rfl
  | cons i is ih => rw [run_cons_ok carryOn_error]; exact ih

@[simp] theorem run_carryOn_nil : run (carryOn step) s [] = ⟨s, [], none⟩ := rfl

theorem run_carryOn_cons_state :
    (run (carryOn step) s (i :: is)).state = (run (carryOn step) (step s i).state is).state := by
  rw [run_cons_ok carryOn_error, carryOn_state]

theorem run_carryOn_cons_out :
    (run (carryOn step) s (i :: is)).out =
      (step s i).out ++ (run (carryOn step) (step s i).state is).out := by
  rw [run_cons_ok carryOn_error, carryOn_state, carryOn_out]

theorem run_carryOn_append_state :
    (run (carryOn step) s (is ++ js)).state =
      (run (carryOn step) (run (carryOn step) s is).state js).state := by
  rw [run_append_ok run_carryOn_error]

theorem run_carryOn_append_out :
    (run (carryOn step) s (is ++ js)).out =
      (run (carryOn step) s is).out ++
        (run (carryOn step) (run (carryOn step) s is).state js).out := by
  rw [run_append_ok run_carryOn_error]

/-- Every step the run takes meets a condition on the state before it, its input
and the inputs still to come. -/
def AlongRest (step : σ → ι → Outcome σ ο ε) (cond : σ → ι → List ι → Prop) (s : σ) :
    List ι → Prop
  | [] => True
  | i :: is =>
    cond s i is ∧ ((step s i).error = none → AlongRest step cond (step s i).state is)

/-- The same for a condition on the state and the input alone. -/
abbrev Along (step : σ → ι → Outcome σ ο ε) (cond : σ → ι → Prop) (s : σ) (is : List ι) : Prop :=
  AlongRest step (fun s i _ => cond s i) s is

instance AlongRest.decide {cond : σ → ι → List ι → Prop} [∀ s i is, Decidable (cond s i is)] :
    ∀ s is, Decidable (AlongRest step cond s is)
  | _, [] => isTrue trivial
  | s, i :: is =>
    have : Decidable (AlongRest step cond (step s i).state is) := AlongRest.decide _ _
    inferInstanceAs (Decidable
      (cond s i is ∧ ((step s i).error = none → AlongRest step cond (step s i).state is)))

/-- A run in two parts meets the condition if both parts do. -/
theorem Along.append {cond : σ → ι → Prop} (h : (run step s is).error = none) :
    Along step cond s (is ++ js) ↔
      Along step cond s is ∧ Along step cond (run step s is).state js := by
  induction is generalizing s with
  | nil => exact (and_iff_right trivial).symm
  | cons i is ih =>
    obtain ⟨hs, hr⟩ := run_cons_none h
    have hih := ih hr
    rw [run_cons_state hs]
    constructor
    · intro ⟨hc, hrest⟩
      obtain ⟨hfirst, hsecond⟩ := hih.mp (hrest hs)
      exact ⟨⟨hc, fun _ => hfirst⟩, hsecond⟩
    · intro ⟨⟨hc, hfirst⟩, hsecond⟩
      exact ⟨hc, fun _ => hih.mpr ⟨hfirst hs, hsecond⟩⟩

/-- A property of the state, the inputs to come and the outputs so far that every
step under the condition keeps holds after a run all of whose steps meet it. -/
theorem AlongRest.keeps {cond : σ → ι → List ι → Prop} (P : σ → List ι → List ο → Prop)
    (keep : ∀ s os i is, cond s i is → P s (i :: is) os →
      P (step s i).state is (os ++ (step s i).out))
    (along : AlongRest step cond s is) (start : P s is os) :
    ∃ rest, P (run step s is).state rest (os ++ (run step s is).out) := by
  induction is generalizing s os with
  | nil => exact ⟨[], by simpa using start⟩
  | cons i is ih =>
    obtain ⟨hc, hrest⟩ := along
    have hk := keep s os i is hc start
    cases hs : (step s i).error with
    | some e => rw [run_cons_error hs]; exact ⟨is, hk⟩
    | none =>
      rw [run_cons_ok hs, ← List.append_assoc]
      exact ih (hrest hs) hk

theorem Along.keeps {cond : σ → ι → Prop} (P : σ → List ο → Prop)
    (keep : ∀ s os i, cond s i → P s os → P (step s i).state (os ++ (step s i).out))
    (along : Along step cond s is) (start : P s os) :
    P (run step s is).state (os ++ (run step s is).out) :=
  have ends := AlongRest.keeps (fun s _ os => P s os) (fun s os i _ hc h => keep s os i hc h) along
    start
  ends.choose_spec

/-- The same with a weaker property for the runs that end in an error. -/
theorem Along.ends {cond : σ → ι → Prop} (P : σ → List ο → Prop) (Q : List ο → Prop)
    (keep : ∀ s os i, cond s i → P s os → (step s i).error = none →
      P (step s i).state (os ++ (step s i).out))
    (stop : ∀ s os i e, cond s i → P s os → (step s i).error = some e → Q (os ++ (step s i).out))
    (weaken : ∀ s os, P s os → Q os) (along : Along step cond s is) (start : P s os) :
    Q (os ++ (run step s is).out) := by
  induction is generalizing s os with
  | nil => simpa using weaken s os start
  | cons i is ih =>
    obtain ⟨hc, hrest⟩ := along
    cases hs : (step s i).error with
    | some e => rw [run_cons_error hs]; exact stop s os i e hc start hs
    | none =>
      rw [run_cons_ok hs, ← List.append_assoc]
      exact ih (hrest hs) (keep s os i hc start hs)

/-- What was lost once stays lost. -/
theorem run_bad (good : σ → Prop) (bad : ∀ s i, ¬ good s → ¬ good (step s i).state)
    (h : ¬ good s) : ¬ good (run step s is).state := by
  induction is generalizing s with
  | nil => exact h
  | cons i is ih =>
    cases hs : (step s i).error with
    | some e => rw [run_cons_error hs]; exact bad s i h
    | none => rw [run_cons_ok hs]; exact ih (bad s i h)

/-- If the condition is what one step needs to end well, it is along a run what
the run needs. -/
theorem Along.iff_ok {cond : σ → ι → Prop} (good : σ → Prop)
    (each : ∀ s i, i ∈ is → good s →
      ((step s i).error = none ∧ good (step s i).state ↔ cond s i))
    (bad : ∀ s i, ¬ good s → ¬ good (step s i).state) (start : good s) :
    (run step s is).error = none ∧ good (run step s is).state ↔ Along step cond s is := by
  induction is generalizing s with
  | nil => exact ⟨fun _ => trivial, fun _ => ⟨rfl, start⟩⟩
  | cons i is ih =>
    have hfirst := each s i List.mem_cons_self start
    have hrest := fun h => ih (s := (step s i).state)
      (fun s j hj => each s j (List.mem_cons_of_mem _ hj)) h
    constructor
    · intro ⟨he, hg⟩
      obtain ⟨hs, hr⟩ := run_cons_none he
      rw [run_cons_ok hs] at hg
      have hgood : good (step s i).state :=
        Classical.byContradiction (fun hb => run_bad good bad hb hg)
      exact ⟨hfirst.mp ⟨hs, hgood⟩, fun _ => (hrest hgood).mp ⟨hr, hg⟩⟩
    · intro ⟨hc, hr⟩
      obtain ⟨hs, hgood⟩ := hfirst.mpr hc
      rw [run_cons_ok hs]
      exact (hrest hgood).mpr (hr hs)

/-- What a condition asks of a step, another condition asks of it in the states a
run comes to. The first may serve to stay within these states. -/
theorem Along.congr {cond cond' : σ → ι → Prop} (inv : σ → Prop)
    (keep : ∀ s i, inv s → cond s i → (step s i).error = none → inv (step s i).state)
    (same : ∀ s i, inv s → (cond s i ↔ cond' s i)) (start : inv s) :
    Along step cond s is ↔ Along step cond' s is := by
  induction is generalizing s with
  | nil => exact Iff.rfl
  | cons i is ih =>
    constructor
    · intro ⟨hc, hrest⟩
      refine ⟨(same s i start).mp hc, fun hs => ?_⟩
      exact (ih (keep s i start hc hs)).mp (hrest hs)
    · intro ⟨hc, hrest⟩
      have hc := (same s i start).mpr hc
      refine ⟨hc, fun hs => ?_⟩
      exact (ih (keep s i start hc hs)).mpr (hrest hs)

/-- A property holds in every state of a run if it holds at the start and after
every step. -/
theorem Along.iff_always (P : σ → Prop) :
    (∀ n, P (run step s (is.take n)).state) ↔
      P s ∧ Along step (fun s i => P (step s i).state) s is := by
  induction is generalizing s with
  | nil =>
    simp only [List.take_nil, run_nil, forall_const]
    exact (and_iff_left trivial).symm
  | cons i is ih =>
    cases hs : (step s i).error with
    | some e =>
      constructor
      · intro h
        refine ⟨h 0, ?_, fun hok => ?_⟩
        · have hone := h 1
          rw [List.take_succ_cons, run_cons_error hs] at hone
          exact hone
        · rw [hs] at hok
          cases hok
      · rintro ⟨hstart, hfirst, _⟩ n
        cases n with
        | zero => exact hstart
        | succ n =>
          rw [List.take_succ_cons, run_cons_error hs]
          exact hfirst
    | none =>
      constructor
      · intro h
        have hrest := ih.mp (fun n => by
          have hn := h (n + 1)
          rw [List.take_succ_cons, run_cons_state hs] at hn
          exact hn)
        exact ⟨h 0, hrest.1, fun _ => hrest.2⟩
      · rintro ⟨hstart, hfirst, hrest⟩ n
        cases n with
        | zero => exact hstart
        | succ n =>
          rw [List.take_succ_cons, run_cons_state hs]
          exact ih.mpr ⟨hfirst, hrest hs⟩ n

/-- What every step without error keeps holds after a run without error. -/
theorem run_keeps_ok (inv : σ → Prop)
    (keep : ∀ s i, inv s → (step s i).error = none → inv (step s i).state) (start : inv s)
    (ok : (run step s is).error = none) : inv (run step s is).state := by
  induction is generalizing s with
  | nil => exact start
  | cons i is ih =>
    obtain ⟨hs, hr⟩ := run_cons_none ok
    rw [run_cons_state hs]
    exact ih (keep s i start hs) hr

/-- The machine with notes kept beside its state. They are written from the state
before a step, its input and what it left, and no step reads them. -/
def noted (step : σ → ι → Outcome σ ο ε) (write : ν → σ → ι → Outcome σ ο ε → ν)
    (s : ν × σ) (i : ι) : Outcome (ν × σ) ο ε :=
  ⟨(write s.1 s.2 i (step s.2 i), (step s.2 i).state), (step s.2 i).out, (step s.2 i).error⟩

section Noted
variable {write : ν → σ → ι → Outcome σ ο ε → ν}

@[simp] theorem noted_out (s : ν × σ) (i : ι) : (noted step write s i).out = (step s.2 i).out := rfl

@[simp] theorem noted_error (s : ν × σ) (i : ι) :
    (noted step write s i).error = (step s.2 i).error := rfl

@[simp] theorem noted_state (s : ν × σ) (i : ι) : (noted step write s i).state =
    (write s.1 s.2 i (step s.2 i), (step s.2 i).state) := rfl

/-- Taking notes changes nothing else. -/
theorem run_noted (step : σ → ι → Outcome σ ο ε) (write : ν → σ → ι → Outcome σ ο ε → ν) (n : ν)
    (s : σ) (is : List ι) :
    (run (noted step write) (n, s) is).state.2 = (run step s is).state ∧
    (run (noted step write) (n, s) is).out = (run step s is).out ∧
    (run (noted step write) (n, s) is).error = (run step s is).error := by
  induction is generalizing n s with
  | nil => exact ⟨rfl, rfl, rfl⟩
  | cons i is ih =>
    cases hs : (step s i).error with
    | some e =>
      have hn : (noted step write (n, s) i).error = some e := hs
      rw [run_cons_error hn, run_cons_error hs]
      exact ⟨rfl, rfl, rfl⟩
    | none =>
      have hn : (noted step write (n, s) i).error = none := hs
      obtain ⟨hstate, hout, herror⟩ := ih (write n s i (step s i)) (step s i).state
      rw [run_cons_ok hn, run_cons_ok hs]
      exact ⟨hstate, congrArg _ hout, herror⟩

end Noted

section Potential
variable {K : Type*} [AddCommGroup K] [PartialOrder K] [IsOrderedAddMonoid K]

/-- A potential that every step lowers by at least its cost pays for a whole run. -/
theorem Along.pays {cond : σ → ι → Prop} (inv : σ → Prop) (potential : σ → K) (cost : ι → K)
    (keep : ∀ s i, inv s → cond s i → inv (step s i).state)
    (pay : ∀ s i, inv s → cond s i → cost i + potential (step s i).state ≤ potential s)
    (along : Along step cond s is) (start : inv s) (ok : (run step s is).error = none) :
    (is.map cost).sum + potential (run step s is).state ≤ potential s := by
  induction is generalizing s with
  | nil => simp
  | cons i is ih =>
    obtain ⟨hs, hr⟩ := run_cons_none ok
    obtain ⟨hc, hrest⟩ := along
    have hlater := ih (hrest hs) (keep s i start hc) hr
    rw [run_cons_state hs, List.map_cons, List.sum_cons, add_assoc]
    exact (add_le_add_right hlater _).trans (pay s i start hc)

end Potential

/-- Accounts along a run. If a step loses nothing just under the condition, then
a run has on every account what was there and what came in just if every step of
it meets the condition. -/
theorem Along.balance {cond : σ → ι → Prop} (waiting : α → σ → Nat) (settled : α → List ο → Nat)
    (taken : α → ι → Nat) (split : ∀ a xs ys, settled a (xs ++ ys) = settled a xs + settled a ys)
    (inv : σ → Prop) (keep : ∀ s i, inv s → inv (step s i).state)
    (goes : ∀ s i, (step s i).error = none)
    (account : ∀ s i, i ∈ is → inv s → ∃ lost : α → Nat,
      (∀ a, waiting a (step s i).state + settled a (step s i).out + lost a =
        waiting a s + taken a i) ∧ ((∀ a, lost a = 0) ↔ cond s i)) (start : inv s) :
    (∀ a, waiting a (run step s is).state + settled a (run step s is).out =
      waiting a s + (is.map (taken a)).sum) ↔ Along step cond s is := by
  have settled_nil : ∀ a, settled a [] = 0 := by
    intro a
    have := split a [] []
    rw [List.append_nil] at this
    omega
  -- The losses of a run, step by step, so that those of its first step can be told apart.
  have losses : ∀ s, inv s → ∃ lost : α → Nat,
      (∀ a, waiting a (run step s is).state + settled a (run step s is).out + lost a =
        waiting a s + (is.map (taken a)).sum) ∧ ((∀ a, lost a = 0) ↔ Along step cond s is) := by
    clear start
    induction is with
    | nil => exact fun s _ => ⟨fun _ => 0, by simp [settled_nil], fun _ => trivial, fun _ _ => rfl⟩
    | cons i is ih =>
      intro s hs
      obtain ⟨lost, hsum, hlost⟩ := account s i List.mem_cons_self hs
      obtain ⟨later, hlater, hrest⟩ :=
        ih (fun s j hj => account s j (List.mem_cons_of_mem _ hj)) _ (keep s i hs)
      refine ⟨fun a => lost a + later a, fun a => ?_, ?_⟩
      · have hfirst := hsum a
        have hnext := hlater a
        rw [run_cons_state (goes s i), run_cons_out (goes s i), split, List.map_cons,
          List.sum_cons]
        simp only
        omega
      · have hnext : ((step s i).error = none → Along step cond (step s i).state is) ↔
            ∀ a, later a = 0 := ⟨fun h => hrest.mpr (h (goes s i)), fun h _ => hrest.mp h⟩
        refine Iff.trans ?_ (and_congr hlost hnext.symm)
        simp only [Nat.add_eq_zero_iff, forall_and]
  obtain ⟨lost, hsum, hlost⟩ := losses s start
  rw [← hlost]
  exact forall_congr' (fun a => by have := hsum a; omega)

/-- One component of a machine is a machine by itself: inputs of others leave
its view alone and emit nothing it reads, its own inputs act as its own step
does. -/
structure Component (step : σ → ι → Outcome σ ο ε) (part : τ → ι → Outcome τ ο ε) (view : σ → τ)
    (concerns : ι → Bool) (reads : ο → Bool) : Prop where
  others : ∀ s i, concerns i = false →
    view (step s i).state = view s ∧ (step s i).out.filter reads = []
  own : ∀ s i, concerns i = true →
    view (step s i).state = (part (view s) i).state ∧
      (step s i).out.filter reads = (part (view s) i).out ∧ (step s i).error = (part (view s) i).error

namespace Component
variable {part : τ → ι → Outcome τ ο ε} {view : σ → τ} {concerns : ι → Bool} {reads : ο → Bool}

theorem carryOn (c : Component step part view concerns reads) :
    Component (carryOn step) (carryOn part) view concerns reads where
  others s i h := c.others s i h
  own s i h := ⟨(c.own s i h).1, (c.own s i h).2.1, rfl⟩

/-- A run without error is, for the component, its own run on its own inputs. -/
theorem project (c : Component step part view concerns reads) (h : (run step s is).error = none) :
    (run part (view s) (is.filter concerns)).error = none ∧
    view (run step s is).state = (run part (view s) (is.filter concerns)).state ∧
    (run step s is).out.filter reads = (run part (view s) (is.filter concerns)).out := by
  induction is generalizing s with
  | nil => exact ⟨rfl, rfl, rfl⟩
  | cons i is ih =>
    obtain ⟨hs, hr⟩ := run_cons_none h
    obtain ⟨he, hv, ho⟩ := ih hr
    rw [run_cons_ok hs]
    cases hc : concerns i with
    | false =>
      obtain ⟨hview, hout⟩ := c.others s i hc
      rw [List.filter_cons_of_neg (by simp [hc]), List.filter_append, hout, List.nil_append]
      rw [hview] at he hv ho
      exact ⟨he, hv, ho⟩
    | true =>
      obtain ⟨hview, hout, herr⟩ := c.own s i hc
      have hp : (part (view s) i).error = none := herr ▸ hs
      rw [hview] at he hv ho
      rw [List.filter_cons_of_pos hc, run_cons_ok hp, List.filter_append, hout, ho]
      exact ⟨he, hv, rfl⟩

/-- On its own inputs alone the machine fails exactly when the component does. -/
theorem own_error (c : Component step part view concerns reads) (own : ∀ i ∈ is, concerns i = true) :
    (run step s is).error = (run part (view s) is).error := by
  induction is generalizing s with
  | nil => rfl
  | cons i is ih =>
    obtain ⟨hview, _, herr⟩ := c.own s i (own i List.mem_cons_self)
    cases hs : (step s i).error with
    | some e =>
      have hp : (part (view s) i).error = some e := herr ▸ hs
      rw [run_cons_error hs, run_cons_error hp, herr]
    | none =>
      have hp : (part (view s) i).error = none := herr ▸ hs
      rw [run_cons_ok hs, run_cons_ok hp, ← hview]
      exact ih (fun j hj => own j (List.mem_cons_of_mem _ hj))

/-- Two runs without error that agree on the component's inputs agree on its
view and on what it reads, if they start from the same view. -/
theorem run_eq (c : Component step part view concerns reads) (hv : view s = view t)
    (hi : is.filter concerns = js.filter concerns) (hs : (run step s is).error = none)
    (ht : (run step t js).error = none) :
    view (run step s is).state = view (run step t js).state ∧
      (run step s is).out.filter reads = (run step t js).out.filter reads := by
  obtain ⟨_, hs₁, hs₂⟩ := c.project hs
  obtain ⟨_, ht₁, ht₂⟩ := c.project ht
  rw [hs₁, hs₂, ht₁, ht₂, hv, hi]
  exact ⟨rfl, rfl⟩

end Component

end Machine
