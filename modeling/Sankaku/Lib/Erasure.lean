import Mathlib.Data.Finset.Card
import Mathlib.Data.Finset.Range
import Mathlib.Data.List.Basic

namespace Erasure

inductive Verdict
  | success
  | needMore
  | refused
  deriving DecidableEq, Repr

/-- The receiving half of an erasure code. A decoder is made for one geometry,
takes symbols one by one and yields the block after a success. -/
structure Code (Geo Block Id Sym : Type) where
  Dec : Type
  create : Geo → Option Dec
  decode : Dec → Id → Sym → Verdict × Dec
  recover : Geo → Dec → Option Block

variable {Geo Block Id Sym : Type}

/-- Feeds symbols as long as the decoder asks for more. -/
def Code.feed (C : Code Geo Block Id Sym) : C.Dec → List (Id × Sym) → Option C.Dec
  | d, [] => some d
  | d, x :: xs =>
    match C.decode d x.1 x.2 with
    | (.needMore, d') => C.feed d' xs
    | _ => none

theorem Code.feed_cons (C : Code Geo Block Id Sym) {d d' : C.Dec} {x : Id × Sym}
    (hd : C.decode d x.1 x.2 = (.needMore, d')) :
    C.feed d (x :: xs) = C.feed d' xs := by
  simp only [Code.feed, hd]

/-- A decoder that took a list of symbols asked for more at the first. -/
theorem Code.feed_cons_some (C : Code Geo Block Id Sym) {d e : C.Dec}
    (h : C.feed d (x :: xs) = some e) :
    ∃ d', C.decode d x.1 x.2 = (.needMore, d') ∧ C.feed d' xs = some e := by
  rw [Code.feed] at h
  split at h
  · exact ⟨_, by assumption, h⟩
  · cases h

theorem Code.feed_append (C : Code Geo Block Id Sym) (d : C.Dec) (xs ys : List (Id × Sym)) :
    C.feed d (xs ++ ys) = (C.feed d xs).bind (fun d' => C.feed d' ys) := by
  induction xs generalizing d with
  | nil => rfl
  | cons x xs ih =>
    rw [List.cons_append, Code.feed, Code.feed]
    split
    · exact ih _
    · rfl

/-- The decoder after all these symbols, whatever it answered. -/
def Code.takeAll (C : Code Geo Block Id Sym) (d : C.Dec) (xs : List (Id × Sym)) : C.Dec :=
  xs.foldl (fun d x => (C.decode d x.1 x.2).2) d

theorem Code.takeAll_append (C : Code Geo Block Id Sym) (d : C.Dec) (xs ys : List (Id × Sym)) :
    C.takeAll d (xs ++ ys) = C.takeAll (C.takeAll d xs) ys := List.foldl_append

/-- A decoder that asked for more at each symbol took them all. -/
theorem Code.takeAll_of_feed (C : Code Geo Block Id Sym) {d e : C.Dec}
    (h : C.feed d xs = some e) : C.takeAll d xs = e := by
  induction xs generalizing d with
  | nil => exact Option.some.inj h
  | cons x xs ih =>
    obtain ⟨d', hd, hrest⟩ := C.feed_cons_some h
    have htaken := ih hrest
    rw [Code.takeAll, List.foldl_cons, hd]
    exact htaken

variable {C : Code Geo Block Id Sym} {isDroplet : Geo → Block → Id → Sym → Prop}

/-- A decoder that has taken exactly these symbols since it was made, all of
them droplets of one block under its geometry. -/
structure Fed (C : Code Geo Block Id Sym) (isDroplet : Geo → Block → Id → Sym → Prop)
    (g : Geo) (b : Block) (xs : List (Id × Sym)) (d : C.Dec) : Prop where
  taken : ∃ d₀, C.create g = some d₀ ∧ C.feed d₀ xs = some d
  droplets : ∀ x ∈ xs, isDroplet g b x.1 x.2

theorem Fed.start (h : C.create g = some d) : Fed C isDroplet g b [] d :=
  ⟨⟨d, h, rfl⟩, by simp⟩

theorem Fed.more (h : Fed C isDroplet g b xs d) (hs : isDroplet g b i s)
    (hd : C.decode d i s = (.needMore, d')) : Fed C isDroplet g b (xs ++ [(i, s)]) d' := by
  obtain ⟨d₀, hc, hf⟩ := h.taken
  refine ⟨⟨d₀, hc, ?_⟩, ?_⟩
  · rw [Code.feed_append, hf]
    simp [Code.feed, hd]
  · intro x hx
    rcases List.mem_append.mp hx with hx | hx
    · exact h.droplets x hx
    · rw [List.mem_singleton.mp hx]; exact hs

/-- Fed droplets of one block only, a decoder that reports success yields that
block. -/
def Code.Sound (C : Code Geo Block Id Sym) (isDroplet : Geo → Block → Id → Sym → Prop) : Prop :=
  ∀ g b xs d i s d', Fed C isDroplet g b xs d → isDroplet g b i s →
    C.decode d i s = (.success, d') → C.recover g d' = some b

/-- No success before `need g` symbols were taken, whatever their contents. -/
def Code.Thrifty (C : Code Geo Block Id Sym) (need : Geo → Nat) : Prop :=
  ∀ g xs d₀ d i s d', C.create g = some d₀ → C.feed d₀ xs = some d →
    C.decode d i s = (.success, d') → need g ≤ xs.length + 1

/-- The same, whatever the calls before it answered. -/
def Code.AlwaysThrifty (C : Code Geo Block Id Sym) (need : Geo → Nat) : Prop :=
  ∀ g xs d₀ i s d', C.create g = some d₀ → C.decode (C.takeAll d₀ xs) i s = (.success, d') →
    need g ≤ xs.length + 1

theorem Code.AlwaysThrifty.thrifty {need : Geo → Nat} (h : C.AlwaysThrifty need) :
    C.Thrifty need := fun g xs d₀ d i s d' hcreate hfeed hdecode =>
  h g xs d₀ i s d' hcreate (by rw [C.takeAll_of_feed hfeed, hdecode])

/-- The first `need g` droplets of a block, taken in order, complete it. -/
def Code.Completes (C : Code Geo Block Id Sym) (isDroplet : Geo → Block → Id → Sym → Prop)
    (firstIds : Geo → List Id) : Prop :=
  ∀ g b xs i s, xs.map Prod.fst ++ [i] = firstIds g → (∀ x ∈ xs, isDroplet g b x.1 x.2) →
    isDroplet g b i s →
    ∃ d₀ d d', C.create g = some d₀ ∧ C.feed d₀ xs = some d ∧ C.decode d i s = (.success, d') ∧
      C.recover g d' = some b

/-- The same code under other names for ids and geometries. -/
abbrev Code.pull {Geo' Id' : Type} (C : Code Geo Block Id Sym) (geo : Geo' → Geo) (ids : Id' → Id) :
    Code Geo' Block Id' Sym where
  Dec := C.Dec
  create g := C.create (geo g)
  decode d i s := C.decode d (ids i) s
  recover g d := C.recover (geo g) d

section Pull
variable {Geo' Id' : Type} {geo : Geo' → Geo} {ids : Id' → Id}
  {isDroplet' : Geo' → Block → Id' → Sym → Prop}

theorem Code.feed_pull (geo : Geo' → Geo) (ids : Id' → Id) (d : C.Dec) (xs : List (Id' × Sym)) :
    (C.pull geo ids).feed d xs = C.feed d (xs.map (fun x => (ids x.1, x.2))) := by
  induction xs generalizing d with
  | nil => rfl
  | cons x xs ih =>
    simp only [List.map_cons, Code.feed, Code.pull]
    split
    · exact ih _
    · rfl

theorem Code.Sound.pull (hs : C.Sound isDroplet)
    (hq : ∀ g b i s, isDroplet' g b i s → isDroplet (geo g) b (ids i) s) :
    (C.pull geo ids).Sound isDroplet' := by
  intro g b xs d i s d' hfed hi hd
  obtain ⟨⟨d₀, hc, hf⟩, hx⟩ := hfed
  refine hs (geo g) b (xs.map (fun x => (ids x.1, x.2))) d (ids i) s d' ⟨⟨d₀, hc, ?_⟩, ?_⟩
    (hq g b i s hi) hd
  · exact (Code.feed_pull geo ids d₀ xs).symm.trans hf
  · intro y hy
    obtain ⟨x, hxm, rfl⟩ := List.mem_map.mp hy
    exact hq g b x.1 x.2 (hx x hxm)

theorem Code.Thrifty.pull {need : Geo → Nat} (ht : C.Thrifty need) :
    (C.pull geo ids).Thrifty (fun g => need (geo g)) := by
  intro g xs d₀ d i s d' hc hf hd
  simpa using ht (geo g) _ d₀ d (ids i) s d' hc ((Code.feed_pull geo ids d₀ xs).symm.trans hf) hd

theorem Code.Completes.pull {firstIds : Geo → List Id} {firstIds' : Geo' → List Id'}
    (hc : C.Completes isDroplet firstIds)
    (hq : ∀ g b i s, isDroplet' g b i s → isDroplet (geo g) b (ids i) s)
    (hids : ∀ g b i s, isDroplet' g b i s → (firstIds' g).map ids = firstIds (geo g)) :
    (C.pull geo ids).Completes isDroplet' firstIds' := by
  intro g b xs i s hfirst hx hi
  obtain ⟨d₀, d, d', hd₀, hf, hd, hr⟩ := hc (geo g) b (xs.map (fun x => (ids x.1, x.2))) (ids i) s
    (by rw [← hids g b i s hi, ← hfirst]; simp [Function.comp_def]) (by
      intro y hy
      obtain ⟨x, hxm, rfl⟩ := List.mem_map.mp hy
      exact hq g b x.1 x.2 (hx x hxm))
    (hq g b i s hi)
  exact ⟨d₀, d, d', hd₀, (Code.feed_pull geo ids d₀ xs).trans hf, hd, hr⟩

end Pull

section Repetition
variable {α : Type}

/-- Lengths of the block and of one symbol. -/
structure Shape where
  total : Nat
  width : Nat
  deriving DecidableEq

def Shape.count (g : Shape) : Nat := (g.total + g.width - 1) / g.width

def Shape.chunk (g : Shape) (b : List α) (j : Nat) : List α := (b.drop (j * g.width)).take g.width

def Shape.chunkLen (g : Shape) (j : Nat) : Nat := min g.width (g.total - j * g.width)

structure Holder (α : Type) where
  shape : Shape
  held : Nat → Option (List α)

def Holder.full (h : Holder α) : Bool := (List.range h.shape.count).all (fun j => (h.held j).isSome)

def Holder.take (h : Holder α) (i : Nat) (s : List α) : Holder α :=
  { h with held := fun j => if j = i % h.shape.count then some (s.take (h.shape.chunkLen j)) else h.held j }

/-- The symbol the repetition code sends under id `i`. -/
def repeated (z : α) (g : Shape) (b : List α) (i : Nat) : List α :=
  let c := g.chunk b (i % g.count)
  if i < g.count then c else c ++ List.replicate (g.width - c.length) z

abbrev repetition (lo hi : Nat) : Code Shape (List α) Nat (List α) where
  Dec := Holder α
  create g := if 0 < g.width ∧ lo ≤ g.count ∧ g.count ≤ hi then some ⟨g, fun _ => none⟩ else none
  decode h i s :=
    let h' := h.take i s
    if h'.full then (.success, h') else (.needMore, h')
  recover _ h :=
    if h.full then
      some ((List.range h.shape.count).flatMap (fun j => (h.held j).getD []))
    else none

/-- A symbol as the link may hand it over: what was sent, padded at the end. -/
def Padded (z : α) (g : Shape) (b : List α) (i : Nat) (s : List α) : Prop :=
  b.length = g.total ∧ 0 < g.width ∧ 0 < g.count ∧ ∃ k, s = repeated z g b i ++ List.replicate k z

theorem chunk_length (g : Shape) (b : List α) (hb : b.length = g.total) (j : Nat) :
    (g.chunk b j).length = g.chunkLen j := by
  rw [Shape.chunk, List.length_take, List.length_drop, hb, Shape.chunkLen]

/-- Cutting a padded symbol back to the chunk's length gives the chunk. -/
theorem Padded.take_chunk (h : Padded z g b i s) :
    s.take (g.chunkLen (i % g.count)) = g.chunk b (i % g.count) := by
  obtain ⟨hb, _, _, k, rfl⟩ := h
  rw [← chunk_length g b hb, repeated]
  split <;> simp [List.append_assoc]

theorem flatMap_chunks (g : Shape) (b : List α) (n : Nat) :
    (List.range n).flatMap (g.chunk b) = b.take (n * g.width) := by
  induction n with
  | zero => simp
  | succ n ih =>
    rw [List.range_succ, List.flatMap_append, ih, Nat.succ_mul, List.take_add]
    simp [Shape.chunk]

theorem total_le_count_mul (g : Shape) (h : 0 < g.width) : g.total ≤ g.count * g.width := by
  have hd := Nat.div_add_mod (g.total + g.width - 1) g.width
  have hm := Nat.mod_lt (g.total + g.width - 1) h
  rw [Shape.count, Nat.mul_comm]
  omega

/-- No symbol is empty or longer than a chunk. -/
theorem repeated_length (z : α) (g : Shape) (b : List α) (hb : b.length = g.total)
    (hw : 0 < g.width) (hc : 0 < g.count) (i : Nat) :
    0 < (repeated z g b i).length ∧ (repeated z g b i).length ≤ g.width := by
  have hlen := chunk_length g b hb (i % g.count)
  have hpos : i % g.count * g.width < g.total := by
    have hmod := Nat.mod_lt i hc
    rw [Shape.count] at hmod ⊢
    have hle := (Nat.le_div_iff_mul_le hw).mp (Nat.succ_le_of_lt hmod)
    rw [Nat.succ_mul] at hle
    omega
  rw [Shape.chunkLen] at hlen
  simp only [repeated]
  split
  · omega
  · rw [List.length_append, List.length_replicate]
    omega

theorem repetition_needMore {lo hi : Nat} {d d' : Holder α}
    (h : (repetition lo hi).decode d i s = (.needMore, d')) : d' = d.take i s := by
  simp only at h
  split at h
  · cases h
  · cases h; rfl

/-- Every chunk a decoder holds is the block's own. -/
theorem held_chunk {lo hi : Nat} (h : Fed (repetition lo hi) (Padded z) g b xs d) :
    d.shape = g ∧ ∀ j c, d.held j = some c → c = g.chunk b j := by
  obtain ⟨⟨d₀, hc, hf⟩, hx⟩ := h
  have start : d₀.shape = g ∧ ∀ j c, d₀.held j = some c → c = g.chunk b j := by
    simp only at hc
    split at hc
    · cases hc; exact ⟨rfl, by simp⟩
    · cases hc
  clear hc
  induction xs generalizing d₀ with
  | nil => cases hf; exact start
  | cons x xs ih =>
    obtain ⟨d', hd, hf⟩ := Code.feed_cons_some _ hf
    refine ih (fun y hy => hx y (List.mem_cons_of_mem _ hy)) d' hf ?_
    rw [repetition_needMore hd]
    refine ⟨start.1, ?_⟩
    intro j c hj
    simp only [Holder.take] at hj
    split at hj
    · rename_i he
      cases hj
      rw [he, start.1]
      exact (hx x List.mem_cons_self).take_chunk
    · exact start.2 j c hj

theorem Holder.full_iff (h : Holder α) : h.full = true ↔ ∀ j < h.shape.count, (h.held j).isSome := by
  simp [Holder.full]

theorem repetition_sound (z : α) (lo hi : Nat) : (repetition lo hi).Sound (Padded z) := by
  intro g b xs d i s d' hfed hs hd
  obtain ⟨hg, hheld⟩ := held_chunk hfed
  simp only at hd ⊢
  split at hd
  · rename_i hfull
    cases hd
    rw [if_pos hfull]
    obtain ⟨hb, hw, _, _⟩ := id hs
    have hchunk : ∀ j c, (d.take i s).held j = some c → c = g.chunk b j := by
      intro j c hj
      simp only [Holder.take] at hj
      split at hj
      · rename_i he
        cases hj
        rw [he, hg]
        exact hs.take_chunk
      · exact hheld j c hj
    have hall : (List.range (d.take i s).shape.count).flatMap
        (fun j => ((d.take i s).held j).getD []) =
        (List.range (d.take i s).shape.count).flatMap (g.chunk b) := by
      apply List.flatMap_congr
      intro j hj
      obtain ⟨c, hc⟩ := Option.isSome_iff_exists.mp
        ((Holder.full_iff _).mp hfull j (List.mem_range.mp hj))
      rw [hc, Option.getD_some]
      exact hchunk j c hc
    rw [hall, flatMap_chunks]
    have hshape : (d.take i s).shape = g := hg
    rw [hshape, List.take_of_length_le]
    rw [hb]
    exact total_le_count_mul g hw
  · cases hd

/-- A decoder holds only chunks whose ids it was fed. -/
theorem held_fed {lo hi : Nat} {d₀ d : Holder α} (hf : (repetition lo hi).feed d₀ xs = some d) :
    d.shape = d₀.shape ∧ ∀ j, (d.held j).isSome → (d₀.held j).isSome ∨
      j ∈ xs.map (fun x => x.1 % d₀.shape.count) := by
  induction xs generalizing d₀ with
  | nil => cases hf; exact ⟨rfl, fun j hj => .inl hj⟩
  | cons x xs ih =>
    obtain ⟨d', hd, hf⟩ := Code.feed_cons_some _ hf
    rw [repetition_needMore hd] at hf
    obtain ⟨hs, hh⟩ := ih hf
    refine ⟨hs, fun j hj => ?_⟩
    rcases hh j hj with h | h
    · simp only [Holder.take] at h
      split at h
      · rename_i he; right; simp [he]
      · exact .inl h
    · exact .inr (List.mem_cons_of_mem _ h)

theorem repetition_thrifty (lo hi : Nat) : (repetition (α := α) lo hi).Thrifty Shape.count := by
  intro g xs d₀ d i s d' hc hf hd
  have hstart : d₀ = ⟨g, fun _ => none⟩ := by
    simp only at hc
    split at hc <;> cases hc; rfl
  obtain ⟨hs, hh⟩ := held_fed hf
  subst hstart
  simp only at hd
  split at hd
  · rename_i hfull
    have hsub : Finset.range g.count ⊆
        ((xs.map (fun x => x.1 % g.count)) ++ [i % g.count]).toFinset := by
      intro j hj
      have hsome := (Holder.full_iff _).mp hfull j
        (by simpa [Holder.take, hs] using Finset.mem_range.mp hj)
      simp only [Holder.take] at hsome
      rw [List.mem_toFinset, List.mem_append]
      split at hsome
      · rename_i he; right; rw [he, hs]; simp
      · rcases hh j hsome with h | h
        · simp at h
        · exact .inl h
    have hcard := Finset.card_le_card hsub
    have hlen := List.toFinset_card_le ((xs.map (fun x => x.1 % g.count)) ++ [i % g.count])
    simp only [Finset.card_range, List.length_append, List.length_map, List.length_cons,
      List.length_nil] at hcard hlen
    omega
  · cases hd

/-- After the first `k` ids in order, exactly the first `k` chunks are held. -/
theorem feed_in_order {lo hi : Nat} (g : Shape) (d : Holder α) (k : Nat)
    (hshape : d.shape = g) (hheld : ∀ j, (d.held j).isSome ↔ j < k) (xs : List (Nat × List α))
    (hids : xs.map Prod.fst = List.range' k xs.length) (hlt : k + xs.length < g.count) :
    ∃ d', (repetition lo hi).feed d xs = some d' ∧ d'.shape = g ∧
      ∀ j, (d'.held j).isSome ↔ j < k + xs.length := by
  induction xs generalizing d k with
  | nil => exact ⟨d, rfl, hshape, by simpa using hheld⟩
  | cons x xs ih =>
    simp only [List.map_cons, List.length_cons, List.range'_succ, List.cons.injEq] at hids hlt
    obtain ⟨hx, hrest⟩ := hids
    have hmod : x.1 % d.shape.count = k := by
      rw [hx, hshape]; exact Nat.mod_eq_of_lt (by omega)
    have hnext : ∀ j, ((d.take x.1 x.2).held j).isSome ↔ j < k + 1 := by
      intro j
      simp only [Holder.take, hmod]
      split
      · rename_i he; simp [he]
      · rename_i he; rw [hheld j]; omega
    have hopen : (d.take x.1 x.2).full = false := by
      rw [Bool.eq_false_iff, ne_eq, Holder.full_iff]
      intro hall
      have := (hnext (k + 1)).mp (hall (k + 1) (by simp only [Holder.take, hshape]; omega))
      omega
    obtain ⟨d', hf, hs, hh⟩ := ih (d.take x.1 x.2) (k + 1) hshape hnext hrest (by omega)
    refine ⟨d', ?_, hs, ?_⟩
    · have hd : (repetition lo hi).decode d x.1 x.2 = (.needMore, d.take x.1 x.2) := by
        simp [hopen]
      rw [Code.feed_cons _ hd]
      exact hf
    · intro j
      rw [hh j, List.length_cons]
      omega

theorem repetition_completes (z : α) (lo hi : Nat) :
    (repetition lo hi).Completes
      (fun g b i s => Padded z g b i s ∧ lo ≤ g.count ∧ g.count ≤ hi)
      (fun g => List.range g.count) := by
  intro g b xs i s hids hx hs
  obtain ⟨⟨_, hw, hpos, _⟩, hlo, hhi⟩ := id hs
  have hlen : xs.length + 1 = g.count := by
    have := congrArg List.length hids
    simpa using this
  have hsplit : xs.map Prod.fst = List.range' 0 xs.length ∧ i = xs.length := by
    simp only [← hlen, List.range_succ, List.range_eq_range'] at hids
    exact ⟨(List.append_inj' hids rfl).1, by simpa using (List.append_inj' hids rfl).2⟩
  obtain ⟨d, hf, hshape, hheld⟩ := @feed_in_order α lo hi g ⟨g, fun _ => none⟩ 0 rfl
    (by simp) xs hsplit.1 (by omega)
  have hcreate : (repetition (α := α) lo hi).create g = some ⟨g, fun _ => none⟩ := by
    simp [hw, hlo, hhi]
  have hdecode : (repetition lo hi).decode d i s = (.success, d.take i s) := by
    have hmod : i % d.shape.count = xs.length := by
      rw [hsplit.2, hshape]; exact Nat.mod_eq_of_lt (by omega)
    have hfull : (d.take i s).full = true := by
      rw [Holder.full_iff]
      intro j hj
      have hj' : j < g.count := by simpa [Holder.take, hshape] using hj
      simp only [Holder.take, hmod]
      split
      · rfl
      · rw [hheld j]; omega
    simp [hfull]
  exact ⟨_, d, _, hcreate, hf, hdecode, repetition_sound z lo hi g b xs d i s _
    ⟨⟨_, hcreate, hf⟩, fun x h => (hx x h).1⟩ hs.1 hdecode⟩

end Repetition

end Erasure
