import Sankaku.Model.Fec

namespace Sankaku
open Erasure

def Geometry.shape (g : Geometry) : Shape := ⟨g.messageBytes.toNat, g.blockBytes.toNat⟩

def resultOf : Verdict → WirehairResult
  | .success => .success
  | .needMore => .needMore
  | .refused => .invalidInput

@[simp] theorem verdict_resultOf (v : Verdict) : (resultOf v).verdict = v := by
  cases v <;> rfl

def Wirehair.repetition : Wirehair where
  Encoder := Shape × Bytes
  Decoder := Holder UInt8
  encoderCreate message blockBytes :=
    let g : Shape := ⟨message.length, blockBytes.toNat⟩
    if 0 < g.width ∧ 2 ≤ g.count ∧ g.count ≤ 64000 then some (g, message) else none
  encode e blockId _ := repeated 0 e.1 e.2 blockId.toNat
  decoderCreate messageBytes blockBytes :=
    (Erasure.repetition 2 64000).create (Geometry.shape ⟨messageBytes, blockBytes⟩)
  decode d blockId data :=
    let taken := (Erasure.repetition 2 64000).decode d blockId.toNat data
    (resultOf taken.1, taken.2)
  recover d _ :=
    match (Erasure.repetition 2 64000).recover d.shape d with
    | some block => (.success, block)
    | none => (.error, [])

namespace Wirehair

theorem repetition_code :
    repetition.code = (Erasure.repetition 2 64000).pull Geometry.shape UInt32.toNat := by
  have hdecode : repetition.code.decode =
      ((Erasure.repetition 2 64000).pull Geometry.shape UInt32.toNat).decode := by
    funext d i s
    exact Prod.ext (verdict_resultOf _) rfl
  have hrecover : repetition.code.recover =
      ((Erasure.repetition 2 64000).pull Geometry.shape UInt32.toNat).recover := by
    funext g (d : Holder UInt8)
    simp only [repetition]
    cases d.full <;> rfl
  unfold code at hdecode hrecover ⊢
  unfold Code.pull at hdecode hrecover ⊢
  simp only at hdecode hrecover
  rw [hdecode, hrecover]
  rfl

/-- A droplet of the codec is a padded symbol of the repetition code. -/
theorem repetition_padded (h : repetition.IsDroplet g b i s) :
    Padded 0 g.shape b i.toNat s ∧ 2 ≤ g.shape.count ∧ g.shape.count ≤ 64000 := by
  obtain ⟨hb, _, e, k, he, _, hs⟩ := h
  simp only [repetition] at he
  split at he
  · rename_i hlim
    cases he
    rw [hb] at hlim hs
    exact ⟨⟨hb, hlim.1, Nat.lt_of_lt_of_le Nat.zero_lt_two hlim.2.1, k, hs⟩, hlim.2⟩
  · cases he

theorem repetition_isSound : repetition.Sound := by
  unfold Sound
  rw [repetition_code]
  exact (repetition_sound 0 2 64000).pull (fun g b i s h => (repetition_padded h).1)

theorem repetition_isThrifty : repetition.Thrifty := by
  unfold Thrifty
  rw [repetition_code]
  exact (repetition_thrifty 2 64000).pull

theorem repetition_isComplete : repetition.Completes := by
  unfold Completes
  rw [repetition_code]
  refine (repetition_completes 0 2 64000).pull (fun g b i s h => repetition_padded h) ?_
  intro g b i s h
  have hmax := (repetition_padded h).2.2
  change (List.map UInt32.ofNat (List.range g.shape.count)).map UInt32.toNat = _
  rw [List.map_map]
  conv_rhs => rw [← List.map_id (List.range g.shape.count)]
  apply List.map_congr_left
  intro j hj
  have := List.mem_range.mp hj
  simp only [Function.comp_apply, UInt32.toNat_ofNat', id_eq]
  omega

theorem repetition_createsWithinLimits : repetition.CreatesWithinLimits := by
  intro g hm hb
  have hw : 0 < g.blockBytes.toNat := by
    rcases Nat.eq_zero_or_pos g.blockBytes.toNat with h | h
    · exact absurd (UInt32.toNat_inj.mp h) hb
    · exact h
  have hc : g.shape.count = g.count := rfl
  simp only [repetition, Geometry.shape]
  split
  · rename_i h
    change 0 < _ ∧ 2 ≤ g.count ∧ g.count ≤ 64000 at h
    simp only [reduceCtorEq, false_iff]
    omega
  · rename_i h
    change ¬ (0 < g.blockBytes.toNat ∧ 2 ≤ g.count ∧ g.count ≤ 64000) at h
    simp only [true_iff]
    omega

theorem repetition_encodesAll : repetition.EncodesAll := by
  intro message blockBytes e he i
  simp only [repetition] at he ⊢
  split at he
  · rename_i h
    cases he
    exact repeated_length 0 ⟨message.length, blockBytes.toNat⟩ message rfl h.1
      (Nat.lt_of_lt_of_le Nat.zero_lt_two h.2.1) i.toNat
  · cases he

end Wirehair

end Sankaku
