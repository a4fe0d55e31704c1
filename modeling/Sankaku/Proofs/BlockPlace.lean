import Sankaku.Model.Pipeline

namespace Sankaku
namespace SankakuPipeline

/-- A pipeline restores what some pipeline protected, under whatever settings and at
whatever place, and nothing else. -/
theorem restoreFrame_iff (q : SankakuPipeline) (block : Bytes) (s : UInt32) (f : UInt64)
    (kind : VideoPayloadKind) (raw : Bytes) : q.restoreFrame block s f = .ok (kind, raw) ↔
      ∃ (p : SankakuPipeline) (s' : UInt32) (f' : UInt64), p.protectFrame raw kind s' f' = .ok block := by
  constructor
  · intro h
    unfold restoreFrame at h
    cases block with
    | nil => cases h
    | cons mode body =>
      simp only at h
      split at h
      · rename_i nal
        cases h
        exact ⟨newWithConfig .disabled, s, f, by rw [nal]; rfl⟩
      split at h
      · rename_i sao
        cases h
        exact ⟨newWithConfig .disabled, s, f, by rw [sao]; rfl⟩
      split at h
      · rename_i openzl
        rw [process_ok] at h
        cases h
        refine ⟨newWithConfig .openZlForSao, s, f, ?_⟩
        rw [openzl]
        simp [protectFrame, newWithConfig]
      · cases h
  · rintro ⟨p, s', f', hp⟩
    obtain ⟨mode, hmode, hrestore⟩ := p.protectFrame_ok raw kind s' f'
    rw [hmode] at hp
    cases hp
    exact hrestore q s f

/-- A block protected at one place and opened at another. -/
structure Move where
  raw : Bytes
  kind : VideoPayloadKind
  sentStream : UInt32
  sentIndex : UInt64
  readStream : UInt32
  readIndex : UInt64

def Move.stays (m : Move) : Prop := m.sentStream = m.readStream ∧ m.sentIndex = m.readIndex

/-- Protected by `p`, the payload is restored by `q` at its own place, and is an error
anywhere else. -/
structure Bound (p q : SankakuPipeline) (m : Move) : Prop where
  home : m.stays → ∃ block, p.protectFrame m.raw m.kind m.sentStream m.sentIndex = .ok block ∧
    q.restoreFrame block m.readStream m.readIndex = .ok (m.kind, m.raw)
  away : ¬ m.stays → ∃ block, p.protectFrame m.raw m.kind m.sentStream m.sentIndex = .ok block ∧
    ∃ why, q.restoreFrame block m.readStream m.readIndex = .error why

/-- Whatever the modes and the graphs, a block opens at its own place, and at every
other place as well. -/
theorem block_bound_iff (p q : SankakuPipeline) (m : Move) : Bound p q m ↔ m.stays := by
  obtain ⟨mode, protects, _⟩ := p.protectFrame_ok m.raw m.kind m.sentStream m.sentIndex
  have opens := (q.restoreFrame_iff _ m.readStream m.readIndex m.kind m.raw).mpr ⟨p, _, _, protects⟩
  constructor
  · intro bound
    by_contra moved
    obtain ⟨block, hblock, why, refused⟩ := bound.away moved
    rw [protects] at hblock
    cases hblock
    rw [opens] at refused
    cases refused
  · intro stays
    exact ⟨fun _ => ⟨_, protects, opens⟩, fun moved => absurd stays moved⟩

/-- Streams 10 and 11 get the same block, and what stream 10 protected opens on 11. -/
theorem block_not_bound :
    let p := newWithConfig .openZlForSao
    p.protectFrame [104, 105] .nalUnit 10 1 = .ok [0, 104, 105] ∧
    p.protectFrame [104, 105] .nalUnit 11 1 = .ok [0, 104, 105] ∧
    p.restoreFrame [0, 104, 105] 11 1 = .ok (.nalUnit, [104, 105]) ∧
    ¬ Bound p p ⟨[104, 105], .nalUnit, 10, 1, 11, 1⟩ := by
  refine ⟨rfl, rfl, rfl, fun bound => ?_⟩
  obtain ⟨block, protects, why, refused⟩ := bound.away (by unfold Move.stays; decide)
  cases protects
  cases refused

end SankakuPipeline
end Sankaku
