import Sankaku.Proofs.DecoderRun

namespace Sankaku
namespace Codec
open PeelState

variable {P : Platform} {E : Elimination} {c : Codec E} {message : Bytes} {w : UInt32}

/-- The ids of the original blocks. -/
def originals (n : Nat) : List UInt32 := (List.range n).map UInt32.ofNat

theorem mem_originals (hn : n ≤ 64000) {blockId : UInt32} :
    blockId ∈ originals n ↔ blockId.toNat < n := by
  rw [originals, List.mem_map]
  constructor
  · rintro ⟨k, hk, rfl⟩
    rw [List.mem_range] at hk
    rwa [UInt32.toNat_ofNat', Nat.mod_eq_of_lt (by omega)]
  · intro h
    exact ⟨blockId.toNat, List.mem_range.mpr h, UInt32.ofNat_toNat⟩

theorem originals_nodup (hn : n ≤ 64000) : (originals n).Nodup := by
  refine List.nodup_range.map_on fun i hi j hj heq => ?_
  rw [List.mem_range] at hi hj
  have := congrArg UInt32.toNat heq
  rwa [UInt32.toNat_ofNat', UInt32.toNat_ofNat', Nat.mod_eq_of_lt (by omega),
    Nat.mod_eq_of_lt (by omega)] at this

/-- As many original ids as there are blocks are all of them just if they differ. -/
theorem perm_originals_iff (hn : n ≤ 64000) {ids : List UInt32} (known : ∀ i ∈ ids, i.toNat < n)
    (hlength : ids.length = n) : ids.Perm (originals n) ↔ ids.Nodup := by
  refine ⟨fun hall => hall.nodup_iff.mpr (originals_nodup hn), fun hnodup => ?_⟩
  have hsub : List.Subperm ids (originals n) :=
    List.subperm_of_subset hnodup fun i hi => (mem_originals hn).mpr (known i hi)
  refine hsub.perm_of_length_le ?_
  rw [originals, List.length_map, List.length_range, hlength]

/-- A message that is all in the blocks that are kept, and short enough for the
product of 32 bits. -/
structure Fits (message : Bytes) (w : UInt32) (n : Nat) : Prop extends Sizes message w n where
  length_lt : message.length < 2 ^ 32
  all : message.length ≤ w.toNat * n

namespace Fits
variable {n : Nat} (h : Fits message w n)
include h

theorem toNat_length : (UInt64.ofNat message.length).toNat = message.length := by
  have := h.length_lt
  rw [UInt64.toNat_ofNat', Nat.mod_eq_of_lt (by omega)]

theorem final_eq : w.toNat * (n - 1) + partialFinalBytes (UInt64.ofNat message.length) w =
    message.length := by
  have hinside := h.inside
  have htwo := h.two_le
  have hall := h.all
  rw [final_eq_rest h.block_pos hinside, h.toNat_length]
  rw [h.toNat_length, Nat.sub_add_cancel (by omega)]
  exact hall

theorem chunk_last :
    (chunk message w.toNat (n - 1)).length =
      partialFinalBytes (UInt64.ofNat message.length) w := by
  have := h.final_eq
  have := (partialFinalBytes_bounds (UInt64.ofNat message.length) h.block_pos).2
  rw [chunk_length]
  omega

theorem chunk_before {k : Nat} (hk : k + 1 < n) : (chunk message w.toNat k).length = w.toNat := by
  have hmono := Nat.mul_le_mul_left w.toNat (show k + 1 ≤ n - 1 by omega)
  have := h.final_eq
  rw [Nat.mul_succ] at hmono
  rw [chunk_length]
  omega

theorem chunk_length_eq {k : Nat} (hk : k < n) : (chunk message w.toNat k).length =
    if k + 1 = n then partialFinalBytes (UInt64.ofNat message.length) w else w.toNat := by
  split
  · rename_i hlast
    rw [← h.chunk_last, ← hlast, Nat.add_sub_cancel]
  · exact h.chunk_before (by omega)

theorem chunk_pos {k : Nat} (hk : k < n) : 1 ≤ (chunk message w.toNat k).length := by
  rw [h.chunk_length_eq hk]
  split
  · exact (partialFinalBytes_bounds (UInt64.ofNat message.length) h.block_pos).1
  · exact h.block_pos

theorem chunks : (List.range n).flatMap (chunk message w.toNat) = message := by
  rw [chunks_eq, List.take_of_length_le h.all]

end Fits

/-- A decoder that was fed original blocks only, and the ids of those it took. -/
structure Originals (P : Platform) (message : Bytes) (w : UInt32) (ids : List UInt32)
    (c : Codec E) : Prop extends Collecting P (UInt64.ofNat message.length) w c where
  count : c.rowCount = ids.length
  seeds : seeds c.rowCount c.peel = ids
  known : ∀ blockId ∈ ids, blockId.toNat < c.blockCount
  blocks : ∀ r < c.rowCount, ∀ bytes,
    bytes = (chunk message w.toNat (c.peel.peelRows r).recoveryId.toNat).length →
    (c.inputBlocks r).take bytes = chunk message w.toNat (c.peel.peelRows r).recoveryId.toNat
  original : c.allOriginal = true

/-- What arrives of an original block: the block, and maybe zeros behind it. -/
def Carries (message : Bytes) (w : UInt32) (blockId : UInt32) (s : Bytes) : Prop :=
  s.length ≤ w.toNat ∧ ∃ k, s = chunk message w.toNat blockId.toNat ++ List.replicate k 0

theorem Carries.take {blockId : UInt32} (h : Carries message w blockId s) :
    s.take (chunk message w.toNat blockId.toNat).length = chunk message w.toNat blockId.toNat := by
  obtain ⟨_, k, rfl⟩ := h
  rw [List.take_left']
  rfl

theorem Carries.length_ge {blockId : UInt32} (h : Carries message w blockId s) :
    (chunk message w.toNat blockId.toNat).length ≤ s.length := by
  obtain ⟨_, k, rfl⟩ := h
  rw [List.length_append]
  exact Nat.le_add_right _ _

/-- There is room for another original block. -/
theorem Originals.room (h : c.Originals P message w ids) (hmax : c.blockCount ≤ 64000)
    (huses : ∀ col, uses c.matrix (originals c.blockCount) col ≤ refListMax)
    {blockId : UInt32} (hid : blockId.toNat < c.blockCount) (hnew : (blockId :: ids).Nodup) :
    c.rowCount < c.blockCount ∧
      ∀ col ∈ c.matrix.columns blockId, (c.peel.peelColRefs col).length < refListMax := by
  have hsub : List.Subperm (blockId :: ids) (originals c.blockCount) := by
    refine List.subperm_of_subset hnew fun i hi => (mem_originals hmax).mpr ?_
    rcases List.mem_cons.mp hi with rfl | hi
    · exact hid
    · exact h.known i hi
  have hlength := hsub.length_le
  rw [originals, List.length_map, List.length_range, List.length_cons, ← h.count] at hlength
  refine ⟨hlength, room_of_uses h.inv huses ?_⟩
  rw [h.seeds]
  exact hsub

/-- A row for which there is no room leaves nothing behind. -/
theorem Originals.refused (h : c.Originals P message w ids) {peel : PeelState}
    {blockId : UInt32} (hoffered : Offered c.matrix c.rowCount blockId c.peel false peel) :
    (c.withPeel peel).Originals P message w ids := by
  have hsame : ∀ r < c.rowCount, (peel.peelRows r).recoveryId = (c.peel.peelRows r).recoveryId :=
    fun r hr => hoffered.ids r (Nat.ne_of_lt hr)
  refine ⟨⟨h.chosen, h.final, h.whole, hoffered.inv, hoffered.deferColumns.trans h.deferColumns⟩,
    h.count, ?_, h.known, fun r hr bytes => ?_, h.original⟩
  · exact (List.map_congr_left fun r hr => hsame r (List.mem_range.mp hr)).trans h.seeds
  · have hpeelRows : (c.withPeel peel).peel = peel := rfl
    rw [hpeelRows, hsame r hr]
    exact h.blocks r hr bytes

theorem Originals.taken (h : c.Originals P message w ids) {peel : PeelState} {blockId : UInt32}
    (hoffered : Offered c.matrix c.rowCount blockId c.peel true peel)
    (hfits : Fits message w c.blockCount) (hid : blockId.toNat < c.blockCount)
    (hs : Carries message w blockId s) :
    ((c.withPeel peel).takeRow (decide (blockId.toNat + 1 = c.blockCount)) s).Originals P message w
      (ids ++ [blockId]) := by
  have hbytes : c.blockBytes = w.toNat := by rw [blockBytes, h.wellformed.2.1]
  refine ⟨h.toCollecting.row hoffered _ s, ?_, ?_, ?_, ?_, h.original⟩
  · show c.rowCount + 1 = _
    rw [h.count, List.length_append, List.length_singleton]
  · exact (seeds_offered hoffered).trans (by rw [h.seeds]; rfl)
  · intro i hi
    rcases List.mem_append.mp hi with hi | hi
    · exact h.known i hi
    · rw [List.mem_singleton.mp hi]
      exact hid
  · intro r hr bytes
    have hr : r < c.rowCount + 1 := hr
    have hpeelRows : ((c.withPeel peel).takeRow (decide (blockId.toNat + 1 = c.blockCount)) s).peel =
        peel := rfl
    rw [hpeelRows]
    rcases Nat.lt_or_eq_of_le (Nat.le_of_lt_succ hr) with hold | rfl
    · rw [hoffered.ids r (Nat.ne_of_lt hold)]
      rintro rfl
      have hblock : ((c.withPeel peel).takeRow (decide (blockId.toNat + 1 = c.blockCount))
          s).inputBlocks r = c.inputBlocks r := Function.update_of_ne (Nat.ne_of_lt hold) _ _
      rw [hblock]
      exact h.blocks r hold _ rfl
    · rw [hoffered.seed rfl]
      rintro rfl
      have hblock : ((c.withPeel peel).takeRow (decide (blockId.toNat + 1 = c.blockCount))
          s).inputBlocks c.rowCount =
          if blockId.toNat + 1 = c.blockCount then
            s.take c.outputFinalBytes ++ List.replicate (c.blockBytes - c.outputFinalBytes) 0
          else s.take c.blockBytes := by
        refine (Function.update_self _ _ _).trans ?_
        show (if decide (blockId.toNat + 1 = c.blockCount) = true then
          s.take c.outputFinalBytes ++ List.replicate (c.blockBytes - c.outputFinalBytes) 0
          else s.take c.blockBytes) = _
        simp only [decide_eq_true_eq]
      rw [hblock]
      have hchunk := hfits.chunk_length_eq hid
      rw [← h.final] at hchunk
      by_cases hlast : blockId.toNat + 1 = c.blockCount
      · rw [if_pos hlast] at hchunk ⊢
        rw [← hchunk, hs.take, List.take_left']
        rfl
      · rw [if_neg hlast] at hchunk ⊢
        rw [List.take_take, Nat.min_eq_left (by rw [hbytes, hchunk]), hs.take]

/-- The codec passes its checks, and takes the row if there is room for it. -/
theorem Originals.row (h : c.Originals P message w ids) (hfits : Fits message w c.blockCount)
    (hlt : c.rowCount < c.blockCount) {blockId : UInt32} (hid : blockId.toNat < c.blockCount)
    (hs : Carries message w blockId s) :
    ∃ c' : Codec E, c'.matrix = c.matrix ∧
      (c.decodeFeed P blockId s = c'.onRow P ∧ c'.Originals P message w (ids ++ [blockId]) ∨
        c.decodeFeed P blockId s = some (.needMore, c') ∧ c'.Originals P message w ids ∧
          ¬ ∀ col ∈ c.matrix.columns blockId, (c.peel.peelColRefs col).length < refListMax) := by
  obtain ⟨wf, hw, _⟩ := h.wellformed
  have hmax := hfits.le_max
  have hnext : (blockId + 1).toNat = blockId.toNat + 1 := by
    rw [UInt32.toNat_add, UInt32.toNat_one, Nat.mod_eq_of_lt (by omega)]
  have hbytes : c.blockBytes = w.toNat := by rw [blockBytes, hw]
  have hchunk := hfits.chunk_length_eq hid
  rw [← h.final] at hchunk
  have hge := hs.length_ge
  have hle := hs.1
  obtain ⟨taken, peel, hpeel, hoffered⟩ := opportunisticPeeling_spec wf h.inv blockId
  have hfeed : c.decodeFeed P blockId s =
      if !taken then some (.needMore, c.withPeel peel)
      else ((c.withPeel peel).takeRow (decide (blockId.toNat + 1 = c.blockCount)) s).onRow P := by
    rw [decodeFeed, noteOriginal, if_neg (Nat.not_le.mpr hid)]
    simp only [hnext]
    rw [if_neg, if_neg, if_neg (Nat.not_le.mpr hlt)]
    · simp only [hpeel, Option.bind_eq_bind, Option.bind_some]
    · rintro ⟨hfinal, hwrong⟩
      rw [if_neg hfinal] at hchunk
      omega
    · rintro ⟨hfinal, hwrong⟩
      rw [if_pos hfinal] at hchunk
      omega
  cases taken with
  | false =>
    refine ⟨c.withPeel peel, rfl, Or.inr ⟨hfeed, h.refused hoffered, fun hroom => ?_⟩⟩
    cases hoffered.room.mpr hroom
  | true =>
    exact ⟨(c.withPeel peel).takeRow (decide (blockId.toNat + 1 = c.blockCount)) s, rfl,
      Or.inl ⟨hfeed, h.taken hoffered hfits hid hs⟩⟩

/-- Where every row of an id has the same to say, the last word is that. -/
theorem foldl_last {n : Nat} {key : Nat → Nat} {value : Nat → Bytes} {block : Bytes}
    (rows : List Nat) (copied : Nat → Option Bytes) (hb : b < n)
    (hsame : ∀ r ∈ rows, key r = b → value r = block)
    (hthere : copied b = some block ∨ ∃ r ∈ rows, key r = b) :
    rows.foldl (fun copied r =>
      if key r < n then Function.update copied (key r) (some (value r)) else copied) copied b =
      some block := by
  induction rows generalizing copied with
  | nil => exact hthere.resolve_right (fun ⟨_, hr, _⟩ => nomatch hr)
  | cons r rows ih =>
    refine ih _ (fun q hq => hsame q (List.mem_cons_of_mem r hq)) ?_
    dsimp only
    by_cases hkey : key r = b
    · rw [if_pos (by rw [hkey]; exact hb), hkey, Function.update_self,
        hsame r List.mem_cons_self hkey]
      exact Or.inl rfl
    · rcases hthere with hold | ⟨q, hq, hqb⟩
      · refine Or.inl ?_
        split
        · rw [Function.update_of_ne (Ne.symm hkey), hold]
        · exact hold
      · rcases List.mem_cons.mp hq with rfl | hq
        · exact absurd hqb hkey
        · exact Or.inr ⟨q, hq, hqb⟩

/-- A block of which there is no row is not copied. -/
theorem foldl_never {n : Nat} {key : Nat → Nat} {value : Nat → Bytes} (rows : List Nat)
    (copied : Nat → Option Bytes) (hnever : ∀ r ∈ rows, key r ≠ b) (hb : copied b = none) :
    rows.foldl (fun copied r =>
      if key r < n then Function.update copied (key r) (some (value r)) else copied) copied b =
      none := by
  induction rows generalizing copied with
  | nil => exact hb
  | cons r rows ih =>
    refine ih _ (fun q hq => hnever q (List.mem_cons_of_mem r hq)) ?_
    dsimp only
    split
    · rw [Function.update_of_ne (Ne.symm (hnever r List.mem_cons_self)), hb]
    · exact hb

theorem copiedOriginals_present {block : Bytes} (hb : b < c.blockCount)
    (hrows : ∀ r < c.rowCount, (c.peel.peelRows r).recoveryId.toNat = b →
      (c.inputBlocks r).take (if b + 1 = c.blockCount then c.outputFinalBytes else c.blockBytes) =
        block)
    (hthere : ∃ r < c.rowCount, (c.peel.peelRows r).recoveryId.toNat = b) :
    c.copiedOriginals b = some block := by
  obtain ⟨r, hr, hid⟩ := hthere
  refine foldl_last (List.range c.rowCount) _ hb (fun q hq hkey => ?_)
    (Or.inr ⟨r, List.mem_range.mpr hr, hid⟩)
  refine Eq.trans ?_ (hrows q (List.mem_range.mp hq) hkey)
  rw [hkey]
  refine congrArg (List.take · _) ?_
  split <;> split <;> omega

theorem copiedOriginals_missing
    (hmissing : ¬ ∃ r < c.rowCount, (c.peel.peelRows r).recoveryId.toNat = b) :
    c.copiedOriginals b = none :=
  foldl_never (List.range c.rowCount) _
    (fun r hr hkey => hmissing ⟨r, List.mem_range.mp hr, hkey⟩) rfl

/-- Where each block is copied or put together, it is the message. -/
theorem reconstructOutput_eq (hfits : Fits message w c.blockCount) (hbytes : c.blockBytes = w.toNat)
    (hfinal : c.outputFinalBytes = partialFinalBytes (UInt64.ofNat message.length) w)
    (hblocks : ∀ b < c.blockCount, c.copiedOriginals b = some (chunk message w.toNat b) ∨
      c.copiedOriginals b = none ∧
        regenerate P.cpu c.matrix c.recoveryBlocks.block (UInt32.ofNat b)
          (if b + 1 = c.blockCount then c.outputFinalBytes else c.blockBytes) =
            chunk message w.toNat b) :
    c.reconstructOutput P (UInt64.ofNat message.length) = (.success, message) := by
  have hlength : c.blockBytes * (c.blockCount - 1) + c.outputFinalBytes = message.length := by
    rw [hbytes, hfinal, hfits.final_eq]
  rw [reconstructOutput, if_neg]
  · refine Prod.ext rfl (Eq.trans ?_ hfits.chunks)
    refine List.flatMap_congr fun b hb => ?_
    rcases hblocks b (List.mem_range.mp hb) with hcopied | ⟨hcopied, hput⟩
    · rw [hcopied]
    · rw [hcopied]
      exact hput
  · rw [hlength, hfits.toNat_length, Nat.mod_eq_of_lt hfits.length_lt]
    exact not_not.mpr rfl

theorem Originals.ids_eq (h : c.Originals P message w ids) :
    (List.range c.rowCount).map (fun r => (c.peel.peelRows r).recoveryId) = ids := h.seeds

/-- The check that every original block is there finds out whether each is there
once. -/
theorem Originals.isAllOriginalData_iff (h : c.Originals P message w ids)
    (hmax : c.blockCount ≤ 64000) (hcount : c.rowCount = c.blockCount) :
    c.isAllOriginalData = true ↔ ids.Perm (originals c.blockCount) := by
  have hrows : (List.range c.rowCount).map (fun r => (c.peel.peelRows r).recoveryId.toNat) =
      ids.map UInt32.toNat := by
    rw [← h.ids_eq, List.map_map]
    rfl
  have hfilter : (ids.map UInt32.toNat).filter (fun id => id < c.blockCount) =
      ids.map UInt32.toNat := by
    refine List.filter_eq_self.mpr fun k hk => decide_eq_true ?_
    obtain ⟨blockId, hmem, rfl⟩ := List.mem_map.mp hk
    exact h.known blockId hmem
  have hlength : ids.length = c.blockCount := by rw [← h.count, hcount]
  simp only [isAllOriginalData, hrows, hfilter, ge_iff_le, decide_eq_true_eq]
  rw [perm_originals_iff hmax h.known hlength]
  constructor
  · intro hseen
    -- as many different ids as there are ids
    have hnodup : (ids.map UInt32.toNat).Nodup := List.dedup_eq_self.mp
      ((List.dedup_sublist _).eq_of_length_le (by rw [List.length_map, hlength]; exact hseen))
    exact hnodup.of_map
  · intro hnodup
    rw [List.dedup_eq_self.mpr (hnodup.map fun _ _ => UInt32.toNat_inj.mp), List.length_map, hlength]

theorem Originals.recovers (h : c.Originals P message w ids) (hfits : Fits message w c.blockCount)
    (hall : ids.Perm (originals c.blockCount)) :
    c.reconstructOutput P (UInt64.ofNat message.length) = (.success, message) := by
  have hbytes : c.blockBytes = w.toNat := by rw [blockBytes, h.wellformed.2.1]
  refine reconstructOutput_eq hfits hbytes h.final fun b hb => Or.inl ?_
  have hb32 : (UInt32.ofNat b).toNat = b := by
    have := hfits.le_max
    rw [UInt32.toNat_ofNat', Nat.mod_eq_of_lt (by omega)]
  refine copiedOriginals_present hb (fun r hr hkey => ?_) ?_
  · refine (h.blocks r hr _ ?_).trans (by rw [hkey])
    rw [hkey, hfits.chunk_length_eq hb, hbytes, h.final]
  · have hmem : UInt32.ofNat b ∈ ids :=
      hall.symm.subset ((mem_originals hfits.le_max).mpr (by rw [hb32]; exact hb))
    rw [← h.ids_eq] at hmem
    obtain ⟨r, hr, hseed⟩ := List.mem_map.mp hmem
    exact ⟨r, List.mem_range.mp hr, by rw [hseed, hb32]⟩

/-- After a row: more are wanted, or each original block is there once, or one is
there twice. -/
theorem Originals.onRow (h : c.Originals P message w ids) (hmax : c.blockCount ≤ 64000) :
    c.rowCount ≠ c.blockCount ∧ c.onRow P = some (.needMore, c) ∨
      ids.Perm (originals c.blockCount) ∧ c.onRow P = some (.success, c) ∨
      c.rowCount = c.blockCount ∧ ¬ ids.Perm (originals c.blockCount) ∧
        c.onRow P = some (.invalidInput, { c with allOriginal := false }) := by
  rw [Codec.onRow]
  by_cases hcount : c.rowCount = c.blockCount
  · rw [if_neg (not_not.mpr hcount), if_pos h.original]
    by_cases hall : ids.Perm (originals c.blockCount)
    · rw [if_pos ((h.isAllOriginalData_iff hmax hcount).mpr hall)]
      exact Or.inr (Or.inl ⟨hall, rfl⟩)
    · rw [if_neg (mt (h.isAllOriginalData_iff hmax hcount).mp hall)]
      exact Or.inr (Or.inr ⟨hcount, hall, rfl⟩)
  · rw [if_pos hcount]
    exact Or.inl ⟨hcount, rfl⟩

end Codec
end Sankaku
