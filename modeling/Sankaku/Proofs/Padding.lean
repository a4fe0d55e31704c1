import Sankaku.Proofs.SenderSpec

namespace Sankaku
open SankakuSender

/-- The lengths a mode can pad. Both bounds of the clamp are raised, the upper one
to the lower bound but not to the packet. -/
def PaddingMode.Allows : PaddingMode → Nat → Prop
  | .disabled, _ => True
  | .fixed _, _ => True
  | .adaptive lo hi, rawLen => rawLen ≤ max hi lo

instance (mode : PaddingMode) (rawLen : Nat) : Decidable (mode.Allows rawLen) :=
  match mode with
  | .disabled => .isTrue trivial
  | .fixed _ => .isTrue trivial
  | .adaptive lo hi => inferInstanceAs (Decidable (rawLen ≤ max hi lo))

theorem clampUsize_isSome_iff (x lo hi : Nat) : (clampUsize x lo hi).isSome ↔ lo ≤ hi := by
  unfold clampUsize
  split
  · exact iff_of_true rfl ‹lo ≤ hi›
  · exact iff_of_false Bool.false_ne_true ‹¬lo ≤ hi›

theorem targetPacketLen_isSome_iff (mode : PaddingMode) (rawLen : Nat) :
    (targetPacketLen mode rawLen).isSome ↔ mode.Allows rawLen := by
  cases mode with
  | disabled => exact iff_of_true rfl trivial
  | fixed target => exact iff_of_true rfl trivial
  | adaptive lo hi =>
    have hcross : max lo rawLen ≤ max hi lo ↔ rawLen ≤ max hi lo := by omega
    simp only [targetPacketLen, Option.isSome_map]
    rw [clampUsize_isSome_iff]
    exact hcross

/-- The packet with zeros behind it, within the limit. -/
structure PaddedTo (packet : Bytes) (limit : Nat) (padded : Bytes) : Prop where
  isPrefix : packet <+: padded
  zeros : ∀ b ∈ padded.drop packet.length, b = 0
  atLeast : packet.length ≤ padded.length
  atMost : padded.length ≤ limit

/-- Whatever target the mode asks for, the limit comes last. -/
theorem padPacket_paddedTo (h : padPacket mode limit packet = some padded)
    (fits : packet.length ≤ limit.getD quicDatagramFallbackMax) :
    PaddedTo packet (limit.getD quicDatagramFallbackMax) padded := by
  unfold padPacket at h
  obtain ⟨target, _, rfl⟩ := Option.map_eq_some_iff.mp h
  constructor
  · exact List.prefix_append _ _
  · intro b hb
    rw [List.drop_left] at hb
    exact List.eq_of_mem_replicate hb
  · rw [List.length_append]
    exact Nat.le_add_right _ _
  · rw [List.length_append, List.length_replicate]
    omega

/-- The padding step succeeds on a packet that fits the datagram, and pads it
harmlessly, exactly when the mode allows its length. -/
theorem padding_harmless_iff (mode : PaddingMode) (limit : Option Nat) (packet : Bytes)
    (fits : packet.length ≤ limit.getD quicDatagramFallbackMax) :
    (∃ padded, padPacket mode limit packet = some padded ∧
      PaddedTo packet (limit.getD quicDatagramFallbackMax) padded) ↔
    mode.Allows packet.length := by
  rw [← targetPacketLen_isSome_iff]
  constructor
  · rintro ⟨padded, h, _⟩
    obtain ⟨target, htarget, _⟩ := Option.map_eq_some_iff.mp h
    rw [htarget]
    rfl
  · intro h
    obtain ⟨target, htarget⟩ := Option.isSome_iff_exists.mp h
    have hpad : padPacket mode limit packet = some (packet ++ List.replicate
        (min target (limit.getD quicDatagramFallbackMax) - packet.length) 0) := by
      rw [padPacket, htarget, Option.map_some]
    exact ⟨_, hpad, padPacket_paddedTo hpad fits⟩

/-- The first of two droplets of a block of 28 bytes, under its header. -/
def shortPacket : Bytes := dataDatagram 7 ⟨1, 0, 0, 28, 14, 0, 1⟩ (List.replicate 14 9)

theorem padding_harmless_short :
    ∃ padded, padPacket (.adaptive 40 60) none shortPacket = some padded ∧
      PaddedTo shortPacket 1200 padded :=
  (padding_harmless_iff (.adaptive 40 60) none shortPacket (by decide)).mpr (by decide)

/-- Forty-seven bytes are more than an upper bound of ten. -/
theorem adaptive_padding_panics :
    ¬ ∃ padded, padPacket (.adaptive 0 10) none shortPacket = some padded ∧
      PaddedTo shortPacket 1200 padded := by
  rintro ⟨padded, h, _⟩
  have hnone : padPacket (.adaptive 0 10) none shortPacket = none := by decide
  rw [hnone] at h
  cases h

end Sankaku
