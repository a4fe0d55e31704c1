import Mathlib.Data.List.Chain
import Mathlib.Data.List.Range
import Sankaku.Model.Feedback
import Sankaku.Model.LossWindow

namespace Sankaku

/-- A droplet as the receiver's loss window sees it. -/
structure Arrival where
  instant : Nat
  frameIndex : UInt64
  seqId : UInt32

/-- The droplets of consecutive frames, the `k`-th frame first: every id of
every frame, in order. -/
def dropletsFrom (k : Nat) : List Nat → List (UInt64 × UInt32)
  | [] => []
  | n :: ns => (List.range n).map (fun j => (UInt64.ofNat k, UInt32.ofNat j)) ++ dropletsFrom (k + 1) ns

/-- `observe_packet`, then `maybe_flush_loss_ratio`, for each droplet: the ratios
that are flushed. -/
def flushedRatios (w : LossFeedbackWindow) : List Arrival → List ℚ
  | [] => []
  | a :: as =>
    let flushed := (w.observePacket a.instant a.frameIndex a.seqId).maybeFlushLossRatio a.instant
    flushed.1.toList ++ flushedRatios flushed.2 as

/-- Cuts the arrivals as the clock does: a window ends with the first droplet
500 ms after its start. The one still open at the end is not flushed. -/
def windowsFrom (started : Nat) (taken : List Arrival) : List Arrival → List (List Arrival)
  | [] => []
  | a :: as =>
    if a.instant - started < feedbackWindow then windowsFrom started (taken ++ [a]) as
    else (taken ++ [a]) :: windowsFrom a.instant [] as

/-- The flushed windows. Only the instants decide where they are cut. -/
def flushedWindows (arrivals : List Arrival) : List (List Arrival) :=
  match arrivals with
  | [] => []
  | a :: _ => windowsFrom a.instant [] arrivals

namespace LossFeedbackWindow

def expected (w : LossFeedbackWindow) : Nat :=
  (w.frames.entries.map (fun f => f.2.maxSeqId.toNat + 1)).sum

def received (w : LossFeedbackWindow) : Nat :=
  (w.frames.entries.map (fun f => f.2.seenSeqIds.card)).sum

end LossFeedbackWindow

/-- A sum over an association list, with one key's entry taken out. -/
theorem sum_kerase {β : Type} (f : ((_ : UInt64) × β) → Nat) {l : List ((_ : UInt64) × β)} {v : β}
    (hl : l.NodupKeys) (h : l.dlookup k = some v) :
    (l.map f).sum = f ⟨k, v⟩ + ((l.kerase k).map f).sum := by
  obtain ⟨v', l₁, l₂, hk, rfl, he⟩ := List.exists_of_kerase
    (List.dlookup_isSome.mp (h ▸ rfl : (l.dlookup k).isSome))
  have hv : v' = v := by
    have := (List.mem_dlookup_iff hl).mpr
      (List.mem_append_right l₁ List.mem_cons_self)
    rw [h] at this
    exact (Option.some.inj this).symm
  subst hv
  rw [he]
  simp only [List.map_append, List.map_cons, List.sum_append, List.sum_cons]
  omega

theorem max_eq_of_le {a b : UInt32} (h : a.toNat ≤ b.toNat) : max a b = b := by
  rw [show max a b = if a ≤ b then b else a from rfl, if_pos (UInt32.le_iff_toNat_le.mpr h)]

section Observe
variable (w : LossFeedbackWindow) (t : Nat) (f : UInt64) (s : UInt32)

theorem observe_entries : (w.observePacket t f s).frames.entries =
    ⟨f, ⟨max ((w.frames.lookup f).getD .default).maxSeqId s,
      insert s ((w.frames.lookup f).getD .default).seenSeqIds⟩⟩ :: w.frames.entries.kerase f := rfl

/-- The first droplet of a frame in a window: its id counts in full. -/
theorem observe_fresh (h : w.frames.lookup f = none) :
    (w.observePacket t f s).expected = w.expected + (s.toNat + 1) ∧
      (w.observePacket t f s).received = w.received + 1 := by
  have hk : w.frames.entries.kerase f = w.frames.entries :=
    List.kerase_of_notMem_keys (List.dlookup_eq_none.mp h)
  have hs : max (FrameSequenceWindow.default.maxSeqId) s = s := max_eq_of_le (Nat.zero_le _)
  simp only [LossFeedbackWindow.expected, LossFeedbackWindow.received, observe_entries, hk, h,
    Option.getD_none, hs, List.map_cons, List.sum_cons]
  simp only [FrameSequenceWindow.default, insert_empty_eq, Finset.card_singleton]
  omega

/-- A later droplet of a frame whose ids in the window are all smaller by one
step at least. -/
theorem observe_next (h : w.frames.lookup f = some ⟨m, seen⟩) (hm : ∀ q ∈ seen, q.toNat ≤ m.toNat)
    (hs : s.toNat = m.toNat + 1) :
    (w.observePacket t f s).expected = w.expected + 1 ∧
      (w.observePacket t f s).received = w.received + 1 := by
  have hmax : max m s = s := max_eq_of_le (by omega)
  have hnew : s ∉ seen := fun hmem => by have := hm s hmem; omega
  have he := sum_kerase (fun f => f.2.maxSeqId.toNat + 1) w.frames.nodupKeys h
  have hr := sum_kerase (fun f => f.2.seenSeqIds.card) w.frames.nodupKeys h
  simp only [LossFeedbackWindow.expected, LossFeedbackWindow.received, observe_entries, h,
    Option.getD_some, hmax, List.map_cons, List.sum_cons, he, hr,
    Finset.card_insert_of_notMem hnew]
  omega

theorem observe_lookup_other (h : g ≠ f) :
    (w.observePacket t f s).frames.lookup g = w.frames.lookup g := AList.lookup_insert_ne h

end Observe

/-- `e` is the droplet after `d`: the next id of the frame, or the first of a
later frame. -/
def Follows (d e : UInt64 × UInt32) : Prop :=
  (e.1 = d.1 ∧ e.2.toNat = d.2.toNat + 1) ∨ (d.1.toNat < e.1.toNat ∧ e.2 = 0)

def Arrival.droplet (a : Arrival) : UInt64 × UInt32 := (a.frameIndex, a.seqId)

def Arrival.Follows (a b : Arrival) : Prop := Sankaku.Follows a.droplet b.droplet

/-- A window whose last droplet is `a`: everything in it is of that frame or
older, and `missing` droplets are counted that were never in it. -/
structure Tracks (w : LossFeedbackWindow) (a : Arrival) (missing : Nat) : Prop where
  current : ∃ seen, w.frames.lookup a.frameIndex = some ⟨a.seqId, seen⟩ ∧
    ∀ q ∈ seen, q.toNat ≤ a.seqId.toNat
  latest : ∀ g, (w.frames.lookup g).isSome → g.toNat ≤ a.frameIndex.toNat
  gap : w.expected = w.received + missing

def observeAll (w : LossFeedbackWindow) (arrivals : List Arrival) : LossFeedbackWindow :=
  arrivals.foldl (fun w a => w.observePacket a.instant a.frameIndex a.seqId) w

/-- The ids before a window's first droplet are taken for lost. -/
theorem Tracks.start (started : Option Nat) (a : Arrival) :
    Tracks ((⟨started, ∅⟩ : LossFeedbackWindow).observePacket a.instant a.frameIndex a.seqId) a
      a.seqId.toNat := by
  have hmax : max FrameSequenceWindow.default.maxSeqId a.seqId = a.seqId :=
    max_eq_of_le (Nat.zero_le _)
  obtain ⟨he, hr⟩ := observe_fresh ⟨started, ∅⟩ a.instant a.frameIndex a.seqId rfl
  refine ⟨⟨{a.seqId}, ?_, by simp⟩, fun g hg => ?_, ?_⟩
  · simp only [LossFeedbackWindow.observePacket, AList.lookup_empty, Option.getD_none, hmax,
      AList.lookup_insert]
    rfl
  · by_cases h : g = a.frameIndex
    · rw [h]
    · rw [observe_lookup_other _ _ _ _ h] at hg
      simp at hg
  · rw [he, hr]
    simp [LossFeedbackWindow.expected, LossFeedbackWindow.received]
    omega

/-- From there on every droplet counts once on both sides. -/
theorem Tracks.next (h : Tracks w a missing) (hf : a.Follows b) :
    Tracks (w.observePacket b.instant b.frameIndex b.seqId) b missing ∧
      (w.observePacket b.instant b.frameIndex b.seqId).received = w.received + 1 := by
  obtain ⟨seen, hcur, hseen⟩ := h.current
  rcases hf with ⟨hframe, hseq⟩ | ⟨hframe, hseq⟩ <;> simp only [Arrival.droplet] at hframe hseq
  · rw [← hframe] at hcur
    have hmax : max a.seqId b.seqId = b.seqId := max_eq_of_le (by omega)
    obtain ⟨he, hr⟩ := observe_next w b.instant b.frameIndex b.seqId hcur hseen hseq
    refine ⟨⟨⟨insert b.seqId seen, ?_, ?_⟩, fun g hg => ?_, by rw [he, hr, h.gap]; omega⟩, hr⟩
    · simp [LossFeedbackWindow.observePacket, hcur, hmax]
    · intro q hq
      rcases Finset.mem_insert.mp hq with rfl | hq
      · exact le_refl _
      · have := hseen q hq; omega
    · by_cases hgb : g = b.frameIndex
      · rw [hgb]
      · rw [observe_lookup_other _ _ _ _ hgb] at hg
        exact hframe ▸ h.latest g hg
  · have hnone : w.frames.lookup b.frameIndex = none := by
      rw [← Option.not_isSome_iff_eq_none]
      exact fun hs => absurd (h.latest _ hs) (Nat.not_le.mpr hframe)
    obtain ⟨he, hr⟩ := observe_fresh w b.instant b.frameIndex b.seqId hnone
    refine ⟨⟨⟨{b.seqId}, ?_, by simp⟩, fun g hg => ?_, ?_⟩, hr⟩
    · simp only [LossFeedbackWindow.observePacket, hnone, Option.getD_none, AList.lookup_insert,
        hseq]
      rfl
    · by_cases hgb : g = b.frameIndex
      · rw [hgb]
      · rw [observe_lookup_other _ _ _ _ hgb] at hg
        exact (h.latest g hg).trans hframe.le
    · rw [he, hr, h.gap, hseq]
      simp
      omega

/-- A window over droplets in order counts as lost exactly the ids of its first
frame before its first droplet. -/
theorem observeAll_gap (started : Option Nat) (a : Arrival) (as : List Arrival)
    (hc : (a :: as).IsChain Arrival.Follows) :
    (observeAll ⟨started, ∅⟩ (a :: as)).received = as.length + 1 ∧
      (observeAll ⟨started, ∅⟩ (a :: as)).expected = as.length + 1 + a.seqId.toNat := by
  have hfirst := Tracks.start started a
  have hone := (observe_fresh ⟨started, ∅⟩ a.instant a.frameIndex a.seqId rfl).2
  have go : ∀ (w : LossFeedbackWindow) (b : Arrival) (n : Nat) (bs : List Arrival),
      Tracks w b a.seqId.toNat → w.received = n → (b :: bs).IsChain Arrival.Follows →
      (observeAll w bs).received = n + bs.length ∧
        (observeAll w bs).expected = n + bs.length + a.seqId.toNat := by
    intro w b n bs
    induction bs generalizing w b n with
    | nil => intro ht hn _; exact ⟨hn, by rw [← hn]; exact ht.gap⟩
    | cons c cs ih =>
      intro ht hn hcs
      obtain ⟨hbc, hcs⟩ := List.isChain_cons_cons.mp hcs
      obtain ⟨ht', hn'⟩ := ht.next hbc
      obtain ⟨hr, he⟩ := ih _ c (n + 1) ht' (by rw [hn', hn]) hcs
      simp only [observeAll, List.foldl_cons, List.length_cons] at hr he ⊢
      omega
  obtain ⟨hr, he⟩ := go _ a 1 as hfirst (by rw [hone]; rfl) hc
  simp only [observeAll, List.foldl_cons] at hr he ⊢
  omega

theorem card_lt (seen : Finset UInt32) : seen.card < 2 ^ 64 := by
  have h : seen.card ≤ (Finset.range (2 ^ 32)).card :=
    Finset.card_le_card_of_injOn UInt32.toNat
      (fun q _ => Finset.mem_coe.mpr (Finset.mem_range.mpr q.toNat_lt))
      (fun a _ b _ hab => UInt32.toNat_inj.mp hab)
  rw [Finset.card_range] at h
  omega

theorem foldl_pair (f : σ → α → σ) (g : τ → α → τ) (l : List α) (x : σ) (y : τ) :
    l.foldl (fun sums a => (f sums.1 a, g sums.2 a)) (x, y) = (l.foldl f x, l.foldl g y) := by
  induction l generalizing x y with
  | nil => rfl
  | cons a l ih => exact ih _ _

/-- A saturating sum is the sum, stopped at the cap. -/
theorem foldl_saturatingAdd64 (f : α → UInt64) (l : List α) (x : UInt64) :
    (l.foldl (fun sum a => saturatingAdd64 sum (f a)) x).toNat =
      min (x.toNat + (l.map (fun a => (f a).toNat)).sum) (2 ^ 64 - 1) := by
  induction l generalizing x with
  | nil =>
    have := x.toNat_lt
    simp
    omega
  | cons a l ih =>
    rw [List.foldl_cons, ih, saturatingAdd64_toNat, List.map_cons, List.sum_cons]
    omega

/-- The two counters are the sums, stopped at the cap of `u64`. -/
theorem countPackets_toNat (w : LossFeedbackWindow) :
    w.countPackets.1.toNat = min w.expected (2 ^ 64 - 1) ∧
      w.countPackets.2.toNat = min w.received (2 ^ 64 - 1) := by
  have hmax : ∀ f : (_ : UInt64) × FrameSequenceWindow,
      (UInt64.ofNat (f.2.maxSeqId.toNat + 1)).toNat = f.2.maxSeqId.toNat + 1 := by
    intro f
    have := f.2.maxSeqId.toNat_lt
    rw [UInt64.toNat_ofNat', Nat.mod_eq_of_lt (by omega)]
  have hcard : ∀ f : (_ : UInt64) × FrameSequenceWindow,
      (UInt64.ofNat f.2.seenSeqIds.card).toNat = f.2.seenSeqIds.card := fun f => by
    rw [UInt64.toNat_ofNat', Nat.mod_eq_of_lt (card_lt _)]
  unfold LossFeedbackWindow.countPackets LossFeedbackWindow.expected LossFeedbackWindow.received
  rw [foldl_pair
    (fun (sum : UInt64) (f : (_ : UInt64) × FrameSequenceWindow) =>
      saturatingAdd64 sum (UInt64.ofNat (f.2.maxSeqId.toNat + 1)))
    (fun (sum : UInt64) (f : (_ : UInt64) × FrameSequenceWindow) =>
      saturatingAdd64 sum (UInt64.ofNat f.2.seenSeqIds.card))]
  constructor
  · rw [foldl_saturatingAdd64]
    simp only [hmax, UInt64.toNat_zero, Nat.zero_add]
  · rw [foldl_saturatingAdd64]
    simp only [hcard, UInt64.toNat_zero, Nat.zero_add]

/-- What a due flush reports. -/
def LossFeedbackWindow.lossRatio (w : LossFeedbackWindow) : ℚ :=
  if w.countPackets.1 = 0 then 0
  else
    max 0 (min (((saturatingSub64 w.countPackets.1 w.countPackets.2).toNat : ℚ) /
      w.countPackets.1.toNat) 1)

theorem maybeFlush_open {w : LossFeedbackWindow} (h : w.startedAt = some t₀)
    (ht : t - t₀ < feedbackWindow) : w.maybeFlushLossRatio t = (none, w) := by
  simp [LossFeedbackWindow.maybeFlushLossRatio, h, ht]

theorem maybeFlush_due {w : LossFeedbackWindow} (h : w.startedAt = some t₀)
    (ht : ¬ t - t₀ < feedbackWindow) :
    w.maybeFlushLossRatio t = (some w.lossRatio, ⟨some t, ∅⟩) := by
  simp only [LossFeedbackWindow.maybeFlushLossRatio, h, ht, ↓reduceIte,
    LossFeedbackWindow.lossRatio]
  split <;> rfl

/-- No loss is reported just when the counters, as far as they go, agree. -/
theorem lossRatio_eq_zero_iff (w : LossFeedbackWindow) :
    w.lossRatio = 0 ↔ min w.expected (2 ^ 64 - 1) ≤ min w.received (2 ^ 64 - 1) := by
  obtain ⟨he, hr⟩ := countPackets_toNat w
  have hlt := w.countPackets.1.toNat_lt
  have hsub : (saturatingSub64 w.countPackets.1 w.countPackets.2).toNat =
      w.countPackets.1.toNat - w.countPackets.2.toNat := by
    rw [saturatingSub64, UInt64.toNat_ofNat', Nat.mod_eq_of_lt (by omega)]
  rw [← he, ← hr]
  unfold LossFeedbackWindow.lossRatio
  split
  · rename_i h0
    simp [h0]
  · rename_i h0
    have hpos : (0 : ℚ) < w.countPackets.1.toNat := by
      exact_mod_cast Nat.pos_of_ne_zero (fun h => h0 (UInt64.toNat_inj.mp h))
    rw [hsub]
    constructor
    · intro h
      by_contra hgt
      have hn : (0 : ℚ) < ((w.countPackets.1.toNat - w.countPackets.2.toNat : Nat) : ℚ) := by
        exact_mod_cast Nat.sub_pos_of_lt (Nat.lt_of_not_le hgt)
      have hd := div_pos hn hpos
      have hmin : (0 : ℚ) < min (((w.countPackets.1.toNat - w.countPackets.2.toNat : Nat) : ℚ) /
          w.countPackets.1.toNat) 1 := lt_min hd one_pos
      rw [max_eq_right hmin.le] at h
      exact absurd h hmin.ne'
    · intro h
      rw [Nat.sub_eq_zero_of_le h]
      simp

theorem observeAll_started (frames : AList (fun _ : UInt64 => FrameSequenceWindow)) (t : Nat)
    (as : List Arrival) :
    (observeAll ⟨some t, frames⟩ as).startedAt = some t := by
  induction as generalizing frames with
  | nil => rfl
  | cons a as ih => exact ih _

theorem observeAll_append (w : LossFeedbackWindow) (as bs : List Arrival) :
    observeAll w (as ++ bs) = observeAll (observeAll w as) bs := List.foldl_append

theorem observeAll_frames (frames : AList (fun _ : UInt64 => FrameSequenceWindow)) (t t' : Nat)
    (as : List Arrival) :
    (observeAll ⟨some t, frames⟩ as).frames = (observeAll ⟨some t', frames⟩ as).frames := by
  induction as generalizing frames with
  | nil => rfl
  | cons a as ih => exact ih _

/-- The ratio a window of droplets is flushed with. -/
def windowRatio (window : List Arrival) : ℚ := (observeAll ⟨some 0, ∅⟩ window).lossRatio

theorem windowRatio_started (t : Nat) (window : List Arrival) :
    (observeAll ⟨some t, ∅⟩ window).lossRatio = windowRatio window := by
  have hc : (observeAll ⟨some t, ∅⟩ window).countPackets =
      (observeAll ⟨some 0, ∅⟩ window).countPackets := by
    unfold LossFeedbackWindow.countPackets
    rw [observeAll_frames ∅ t 0 window]
  simp only [windowRatio, LossFeedbackWindow.lossRatio, hc]

/-- The ratios flushed are those of the windows the clock cuts. -/
theorem flushedRatios_windows (started : Nat) (taken as : List Arrival) :
    flushedRatios (observeAll ⟨some started, ∅⟩ taken) as =
      (windowsFrom started taken as).map windowRatio := by
  induction as generalizing started taken with
  | nil => rfl
  | cons a as ih =>
    have hobs : (observeAll ⟨some started, ∅⟩ taken).observePacket a.instant a.frameIndex a.seqId =
        observeAll ⟨some started, ∅⟩ (taken ++ [a]) := by rw [observeAll_append]; rfl
    have hstart := observeAll_started ∅ started (taken ++ [a])
    rw [flushedRatios, windowsFrom, hobs]
    by_cases ht : a.instant - started < feedbackWindow
    · rw [if_pos ht, maybeFlush_open hstart ht]
      exact ih started (taken ++ [a])
    · rw [if_neg ht, maybeFlush_due hstart ht, List.map_cons, windowRatio_started]
      exact congrArg _ (ih a.instant [])

/-- The very first droplet starts the clock. -/
theorem flushedRatios_default (arrivals : List Arrival) :
    flushedRatios .default arrivals = (flushedWindows arrivals).map windowRatio := by
  cases arrivals with
  | nil => rfl
  | cons a as => exact flushedRatios_windows a.instant [] (a :: as)

/-- Every window is a stretch of the arrivals, and not an empty one. -/
theorem windowsFrom_infix (started : Nat) (taken as : List Arrival) :
    ∀ window ∈ windowsFrom started taken as, window <:+: taken ++ as ∧ window ≠ [] := by
  induction as generalizing started taken with
  | nil => simp [windowsFrom]
  | cons a as ih =>
    rw [windowsFrom]
    split
    · simpa using ih started (taken ++ [a])
    · intro window hw
      rcases List.mem_cons.mp hw with rfl | hw
      · exact ⟨⟨[], as, by simp⟩, by simp⟩
      · obtain ⟨hi, hne⟩ := ih a.instant [] window hw
        exact ⟨(hi.trans (by simpa using (List.suffix_append (taken ++ [a]) as).isInfix)), hne⟩

theorem flushedWindows_infix (arrivals : List Arrival) :
    ∀ window ∈ flushedWindows arrivals, window <:+: arrivals ∧ window ≠ [] := by
  cases arrivals with
  | nil => simp [flushedWindows]
  | cons a as => exact windowsFrom_infix a.instant [] (a :: as)

/-- The window begins with the first droplet of a frame. -/
def StartsFrame (window : List Arrival) : Prop := ∀ a ∈ window.head?, a.seqId = 0

theorem windowRatio_eq_zero_iff (hc : window.IsChain Arrival.Follows) (hne : window ≠ []) :
    windowRatio window = 0 ↔ StartsFrame window ∨ 2 ^ 64 - 1 ≤ window.length := by
  obtain ⟨a, as, rfl⟩ := List.exists_cons_of_ne_nil hne
  obtain ⟨hr, he⟩ := observeAll_gap (some 0) a as hc
  have hzero : a.seqId = 0 ↔ a.seqId.toNat = 0 := by
    rw [← UInt32.toNat_inj]; rfl
  rw [windowRatio, lossRatio_eq_zero_iff, hr, he]
  simp only [StartsFrame, List.head?_cons, Option.mem_some_iff, forall_eq', hzero, List.length_cons]
  omega

/-- The first droplet of consecutive frames opens one of them. -/
theorem dropletsFrom_head (k : Nat) (counts : List Nat) (frames : k + counts.length ≤ 2 ^ 64) :
    ∀ d ∈ (dropletsFrom k counts).head?, k ≤ d.1.toNat ∧ d.2 = 0 := by
  induction counts generalizing k with
  | nil => simp [dropletsFrom]
  | cons n ns ih =>
    rw [List.length_cons] at frames
    cases n with
    | zero =>
      intro d hd
      obtain ⟨hk, hz⟩ := ih (k + 1) (by omega) d (by simpa [dropletsFrom] using hd)
      exact ⟨by omega, hz⟩
    | succ n =>
      intro d hd
      simp only [dropletsFrom, List.range_succ_eq_map, List.map_cons, List.cons_append,
        List.head?_cons, Option.mem_some_iff] at hd
      rw [← hd]
      refine ⟨?_, rfl⟩
      rw [UInt64.toNat_ofNat', Nat.mod_eq_of_lt (by omega)]

theorem dropletsFrom_chain (k : Nat) (counts : List Nat) (frames : k + counts.length ≤ 2 ^ 64)
    (ids : ∀ n ∈ counts, n ≤ 2 ^ 32) : (dropletsFrom k counts).IsChain Follows := by
  induction counts generalizing k with
  | nil => exact .nil
  | cons n ns ih =>
    rw [List.length_cons] at frames
    have hn := ids n List.mem_cons_self
    rw [dropletsFrom, List.isChain_append]
    refine ⟨?_, ih (k + 1) (by omega) (fun m hm => ids m (List.mem_cons_of_mem _ hm)), ?_⟩
    · rw [List.isChain_map]
      refine (List.isChain_range _ n).mpr (fun j hj => .inl ⟨rfl, ?_⟩)
      rw [UInt32.toNat_ofNat', UInt32.toNat_ofNat', Nat.mod_eq_of_lt (by omega),
        Nat.mod_eq_of_lt (by omega)]
    · intro x hx y hy
      obtain ⟨hk, hz⟩ := dropletsFrom_head (k + 1) ns (by omega) y hy
      obtain ⟨j, _, rfl⟩ := List.mem_map.mp (List.mem_of_getLast? hx)
      refine .inr ⟨?_, hz⟩
      rw [UInt64.toNat_ofNat', Nat.mod_eq_of_lt (by omega)]
      omega

theorem clampVideoBitrate_toNat (b : UInt32) :
    (clampVideoBitrate b).toNat = min (max b.toNat 500000) 8000000 := by
  rw [clampVideoBitrate, UInt32.toNat_min, UInt32.toNat_max]
  rfl

/-- A report of no loss never lowers a bitrate within the limits. -/
theorem applyAimdBitrate_zero (b : UInt32) (hb : b ≤ maxVideoBitrateBps) :
    b ≤ applyAimdBitrate b (.finite 0) := by
  have hgt : (F32.finite 0).gt (2 / 100) = false := by decide +kernel
  have hle : (F32.finite 0).le f32Epsilon = true := by decide +kernel
  have hcap : b.toNat ≤ 8000000 := UInt32.le_iff_toNat_le.mp hb
  have hstep : aimdIncreaseStepBps.toNat = 50000 := rfl
  rw [UInt32.le_iff_toNat_le]
  simp only [applyAimdBitrate, hgt, hle, Bool.false_eq_true, ↓reduceIte, clampVideoBitrate_toNat,
    saturatingAdd32_toNat, hstep]
  omega

/-- One frame of three droplets, half a second apart: the first flush leaves its
last droplet to a window of its own, which counts two droplets as lost. -/
theorem lossless_reports_loss :
    let arrivals : List Arrival :=
      [⟨0, 0, 0⟩, ⟨feedbackWindow, 0, 1⟩, ⟨2 * feedbackWindow, 0, 2⟩]
    arrivals.map Arrival.droplet = dropletsFrom 0 [3] ∧
    (arrivals.map Arrival.instant).Pairwise (· ≤ ·) ∧
    flushedRatios .default arrivals = [0, 2 / 3] ∧
    (¬ ∀ r ∈ flushedRatios .default arrivals, r = 0) ∧
    applyAimdBitrate defaultVideoBitrateBps (.finite (2 / 3)) < defaultVideoBitrateBps := by
  decide +kernel

/-- Droplets of consecutive frames, nothing missing and nothing reordered, at any
instants: every flushed ratio is 0 and lowers no bitrate, if and only if every
flushed window begins with the first droplet of a frame (or is so long that the
counters stand at their cap). -/
theorem lossless_reports_no_loss_iff (k : Nat) (counts : List Nat) (arrivals : List Arrival)
    (frames : k + counts.length ≤ 2 ^ 64) (ids : ∀ n ∈ counts, n ≤ 2 ^ 32)
    (lossless : arrivals.map Arrival.droplet = dropletsFrom k counts) :
    (∀ r ∈ flushedRatios .default arrivals,
      r = 0 ∧ ∀ b ≤ maxVideoBitrateBps, b ≤ applyAimdBitrate b (.finite r)) ↔
    ∀ window ∈ flushedWindows arrivals, StartsFrame window ∨ 2 ^ 64 - 1 ≤ window.length := by
  have hchain : arrivals.IsChain Arrival.Follows := by
    have h := dropletsFrom_chain k counts frames ids
    rw [← lossless, List.isChain_map] at h
    exact h
  have hwindow : ∀ window ∈ flushedWindows arrivals,
      windowRatio window = 0 ↔ StartsFrame window ∨ 2 ^ 64 - 1 ≤ window.length := by
    intro window hw
    obtain ⟨hsub, hne⟩ := flushedWindows_infix arrivals window hw
    have hpart := List.IsChain.infix hchain hsub
    exact windowRatio_eq_zero_iff hpart hne
  rw [flushedRatios_default]
  constructor
  · intro h window hw
    exact (hwindow window hw).mp (h _ (List.mem_map_of_mem hw)).1
  · intro h r hr
    obtain ⟨window, hw, rfl⟩ := List.mem_map.mp hr
    have hzero := (hwindow window hw).mpr (h window hw)
    exact ⟨hzero, fun b hb => hzero ▸ applyAimdBitrate_zero b hb⟩

/-- Two frames of two droplets, each flushed whole. -/
theorem lossless_reports_no_loss_twoFrames :
    let arrivals : List Arrival := [⟨0, 0, 0⟩, ⟨feedbackWindow, 0, 1⟩, ⟨feedbackWindow + 1, 1, 0⟩,
      ⟨2 * feedbackWindow, 1, 1⟩]
    (flushedWindows arrivals).length = 2 ∧ ∀ r ∈ flushedRatios .default arrivals,
      r = 0 ∧ ∀ b ≤ maxVideoBitrateBps, b ≤ applyAimdBitrate b (.finite r) :=
  ⟨by decide, (lossless_reports_no_loss_iff 0 [2, 2] _ (by decide) (by decide) (by decide)).mpr
    (by simp [flushedWindows, windowsFrom, feedbackWindow, StartsFrame])⟩

end Sankaku
