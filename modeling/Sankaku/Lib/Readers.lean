import Mathlib.Data.List.Infix

namespace Readers

variable {σ ε α β γ : Type}

/-- Something to read from: what is left of it, and how to move on. -/
structure Tape (σ β : Type) where
  left : σ → List β
  advance : σ → Nat → σ
  left_advance : ∀ s n, left (advance s n) = (left s).drop n
  advance_zero : ∀ s, advance s 0 = s
  advance_add : ∀ s m n, advance (advance s m) n = advance s (m + n)

/-- A reader returns a value just if what is left begins with a word for it, and moves
past that word. -/
def Exact (T : Tape σ β) (read : StateT σ (Except ε) α) (word : α → List β → Prop) : Prop :=
  ∀ s a s', read s = .ok (a, s') ↔ ∃ w, word a w ∧ w <+: T.left s ∧ s' = T.advance s w.length

/-- No state makes a reader end in this way. -/
def Never (bad : ε) (read : StateT σ (Except ε) α) : Prop := ∀ s, read s ≠ .error bad

theorem bind_ok {x : StateT σ (Except ε) α} {f : α → StateT σ (Except ε) γ} :
    (x >>= f) s = .ok (c, t) ↔ ∃ a s', x s = .ok (a, s') ∧ f a s' = .ok (c, t) := by
  have hbind : (x >>= f) s = match x s with
      | .ok p => f p.1 p.2
      | .error e => .error e := by
    change Except.bind (x s) (fun p => f p.1 p.2) = _
    cases x s <;> rfl
  rw [hbind]
  cases x s with
  | error e => simp
  | ok p =>
    constructor
    · exact fun h => ⟨p.1, p.2, rfl, h⟩
    · rintro ⟨a, s', ha, h⟩
      cases ha
      exact h

variable {T : Tape σ β}

theorem Exact.congr {read : StateT σ (Except ε) α} {word word' : α → List β → Prop}
    (h : Exact T read word)
    (same : ∀ a w, word a w ↔ word' a w) : Exact T read word' := by
  intro s a s'
  rw [h s a s']
  simp only [same]

theorem Exact.pure (a : α) :
    Exact T (Pure.pure a : StateT σ (Except ε) α) (fun b w => b = a ∧ w = []) := by
  intro s b s'
  change Except.ok (a, s) = .ok (b, s') ↔ _
  constructor
  · intro h
    cases h
    exact ⟨[], ⟨rfl, rfl⟩, List.nil_prefix, (T.advance_zero s).symm⟩
  · rintro ⟨w, ⟨rfl, rfl⟩, _, rfl⟩
    rw [List.length_nil, T.advance_zero]

theorem Exact.throw (e : ε) :
    Exact T (MonadExcept.throw e : StateT σ (Except ε) α) (fun _ _ => False) := by
  intro s b s'
  change Except.error e = .ok (b, s') ↔ _
  constructor
  · intro h
    cases h
  · rintro ⟨_, h, _⟩
    exact h.elim

/-- Going on under a condition. -/
theorem Exact.guard {c : Prop} [Decidable c] (e : ε) {x : StateT σ (Except ε) α}
    {word : α → List β → Prop} (hx : c → Exact T x word) :
    Exact T (if c then x else MonadExcept.throw e) (fun a w => c ∧ word a w) := by
  by_cases h : c
  · rw [if_pos h]
    exact (hx h).congr (fun a w => (and_iff_right h).symm)
  · rw [if_neg h]
    exact (Exact.throw e).congr (fun a w => ⟨False.elim, fun hw => h hw.1⟩)

/-- Stopping under a condition. -/
theorem Exact.refuse {c : Prop} [Decidable c] (e : ε) {x : StateT σ (Except ε) α}
    {word : α → List β → Prop} (hx : ¬ c → Exact T x word) :
    Exact T (if c then MonadExcept.throw e else x) (fun a w => ¬ c ∧ word a w) := by
  rw [← ite_not]
  exact Exact.guard e hx

/-- One reader after another: one word after another. -/
theorem Exact.bind {x : StateT σ (Except ε) α} {f : α → StateT σ (Except ε) γ}
    {first : α → List β → Prop} {second : α → γ → List β → Prop} (hx : Exact T x first)
    (hf : ∀ a u, first a u → Exact T (f a) (second a)) :
    Exact T (x >>= f) (fun c w => ∃ a u v, first a u ∧ second a c v ∧ w = u ++ v) := by
  intro s c t
  rw [bind_ok]
  constructor
  · rintro ⟨a, s', hxs, hfs⟩
    obtain ⟨u, hu, ⟨rest, hrest⟩, rfl⟩ := (hx s a s').mp hxs
    obtain ⟨v, hv, hpre, rfl⟩ := (hf a u hu _ c t).mp hfs
    refine ⟨u ++ v, ⟨a, u, v, hu, hv, rfl⟩, ?_, ?_⟩
    · rw [T.left_advance, ← hrest, List.drop_left] at hpre
      rw [← hrest, List.prefix_append_right_inj]
      exact hpre
    · rw [T.advance_add, List.length_append]
  · rintro ⟨w, ⟨a, u, v, hu, hv, rfl⟩, ⟨rest, hrest⟩, rfl⟩
    have hleft : T.left s = u ++ (v ++ rest) := by rw [← hrest, List.append_assoc]
    refine ⟨a, T.advance s u.length, (hx s a _).mpr ⟨u, hu, ⟨_, hleft.symm⟩, rfl⟩, ?_⟩
    refine (hf a u hu _ c _).mpr ⟨v, hv, ?_, ?_⟩
    · rw [T.left_advance, hleft, List.drop_left]
      exact List.prefix_append v rest
    · rw [T.advance_add, List.length_append]

/-- A second part that reads nothing. -/
theorem Exact.settle {x : StateT σ (Except ε) α} {f : α → StateT σ (Except ε) γ}
    {word : α → List β → Prop} {result : α → γ → Prop} (hx : Exact T x word)
    (hf : ∀ a u, word a u → Exact T (f a) (fun c w => result a c ∧ w = [])) :
    Exact T (x >>= f) (fun c w => ∃ a, word a w ∧ result a c) := by
  apply (hx.bind hf).congr
  intro c w
  constructor
  · rintro ⟨a, u, v, hu, ⟨hc, rfl⟩, rfl⟩
    rw [List.append_nil]
    exact ⟨a, hu, hc⟩
  · rintro ⟨a, hw, hc⟩
    exact ⟨a, w, [], hw, ⟨hc, rfl⟩, (List.append_nil w).symm⟩

theorem Never.pure {bad : ε} (a : α) : Never bad (Pure.pure a : StateT σ (Except ε) α) := by
  intro s hs
  cases hs

theorem Never.throw {e bad : ε} (h : e ≠ bad) :
    Never bad (MonadExcept.throw e : StateT σ (Except ε) α) := by
  intro s hs
  cases hs
  exact h rfl

theorem Never.ite {bad : ε} {c : Prop} [Decidable c] {x y : StateT σ (Except ε) α}
    (hx : c → Never bad x) (hy : ¬ c → Never bad y) : Never bad (if c then x else y) := by
  by_cases h : c
  · rw [if_pos h]
    exact hx h
  · rw [if_neg h]
    exact hy h

theorem Never.bind {bad : ε} {x : StateT σ (Except ε) α} {f : α → StateT σ (Except ε) γ}
    (hx : Never bad x) (hf : ∀ a s s', x s = .ok (a, s') → f a s' ≠ .error bad) : Never bad (x >>= f) := by
  intro s h
  change Except.bind (x s) (fun p => f p.1 p.2) = _ at h
  cases hs : x s with
  | error e =>
    rw [hs] at h
    cases h
    exact hx s hs
  | ok p =>
    rw [hs] at h
    exact hf p.1 s p.2 hs h

/-- `Never.bind` where the second part is fine from any state. -/
theorem Never.seq {bad : ε} {x : StateT σ (Except ε) α} {f : α → StateT σ (Except ε) γ}
    (hx : Never bad x) (hf : ∀ a, Never bad (f a)) : Never bad (x >>= f) :=
  hx.bind (fun a _ s' _ => hf a s')

end Readers
