import Sankaku.Proofs.OriginalBlocks

namespace Sankaku
open Codec PeelState

variable {P : Platform} {E : Elimination}

/-- The number of blocks is not cut off, nor is the length of the message. -/
def Geometry.Kept (g : Geometry) : Prop := g.count < 2 ^ 16 ∧ g.messageBytes.toNat < 2 ^ 32

abbrev KeptGeometry := { g : Geometry // g.Kept }

/-- The codec, for those geometries only. -/
abbrev keptCode (P : Platform) (E : Elimination) : Erasure.Code KeptGeometry Bytes UInt32 Bytes :=
  (wirehairCodec P E).code.pull Subtype.val id

/-- A call from outside. -/
theorem decode_spec {c : Codec E} (h : c.Usable P messageBytes w) (blockId : UInt32)
    (blockData : Bytes) :
    ∃ result c', (wirehairCodec P E).decode (some c) blockId blockData = (result, some c') ∧
      SameMessage c c' ∧ c'.rowCount ≤ c.rowCount + 1 ∧
      (result = .needMore → c'.Usable P messageBytes w) ∧
      (result = .success → c.blockCount ≤ c.rowCount + 1) := by
  obtain ⟨result, c', hfeed, hspec⟩ := decodeFeed_spec h blockId blockData
  simp only [wirehairCodec]
  split
  · refine ⟨_, _, rfl, ⟨rfl, rfl⟩, Nat.le_succ _, fun hmore => ?_, fun hsuccess => ?_⟩
    · cases hmore
    · cases hsuccess
  · rw [hfeed]
    exact ⟨result, c', rfl, hspec⟩

theorem verdict_needMore {result : WirehairResult} (h : result.verdict = .needMore) :
    result = .needMore := by
  cases result <;> first | rfl | cases h

theorem verdict_success {result : WirehairResult} (h : result.verdict = .success) :
    result = .success := by
  cases result <;> first | rfl | cases h

/-- A call leaves a codec, or it or one before it was undefined. -/
theorem decode_cases {d : Option (Codec E)}
    (h : (wirehairCodec P E).code.decode d blockId blockData = (verdict, d')) :
    d' = none ∧ verdict = .needMore ∨
    ∃ c c' : Codec E, d = some c ∧ d' = some c' ∧ SameMessage c c' ∧
      c'.rowCount ≤ c.rowCount + 1 ∧ (verdict = .success → c.blockCount ≤ c.rowCount + 1) := by
  cases d with
  | none =>
    cases h
    exact Or.inl ⟨rfl, rfl⟩
  | some c =>
    simp only [Wirehair.code, wirehairCodec] at h
    split at h
    · cases h
      exact Or.inr ⟨c, c, rfl, rfl, ⟨rfl, rfl⟩, Nat.le_succ _, fun h => by cases h⟩
    · cases hfeed : c.decodeFeed P blockId blockData with
      | none =>
        rw [hfeed] at h
        cases h
        exact Or.inl ⟨rfl, rfl⟩
      | some answer =>
        rw [hfeed] at h
        cases h
        obtain ⟨hsame, hrows, hsuccess⟩ := decodeFeed_answered hfeed
        exact Or.inr ⟨c, answer.2, rfl, rfl, hsame, hrows, fun h => hsuccess (verdict_success h)⟩

/-- A codec that is left after any calls. -/
theorem takeAll_answered {c c' : Codec E}
    (h : (wirehairCodec P E).code.takeAll (some c) xs = some c') :
    SameMessage c c' ∧ c'.rowCount ≤ c.rowCount + xs.length := by
  induction xs using List.reverseRecOn generalizing c' with
  | nil =>
    cases h
    exact ⟨⟨rfl, rfl⟩, Nat.le_refl _⟩
  | append_singleton xs x ih =>
    have hlast := (Erasure.Code.takeAll_append (wirehairCodec P E).code _ xs [x]).symm.trans h
    generalize hd : (wirehairCodec P E).code.takeAll (some c) xs = d at hlast
    have hstep : (wirehairCodec P E).code.decode d x.1 x.2 =
        (((wirehairCodec P E).code.decode d x.1 x.2).1, some c') := Prod.ext rfl hlast
    obtain ⟨hnone, _⟩ | ⟨c1, _, rfl, heq, hsame, hrows, _⟩ := decode_cases hstep
    · cases hnone
    cases heq
    obtain ⟨hsame1, hrows1⟩ := ih hd
    rw [List.length_append, List.length_singleton]
    exact ⟨hsame1.trans hsame, by omega⟩

theorem feed_spec {c : Codec E} (h : c.Usable P messageBytes w)
    (hfeed : (wirehairCodec P E).code.feed (some c) xs = some d) :
    ∃ c' : Codec E, d = some c' ∧ c'.Usable P messageBytes w ∧ SameMessage c c' ∧
      c'.rowCount ≤ c.rowCount + xs.length := by
  induction xs generalizing c with
  | nil =>
    cases hfeed
    exact ⟨c, rfl, h, ⟨rfl, rfl⟩, Nat.le_refl _⟩
  | cons x xs ih =>
    obtain ⟨d', hstep, hrest⟩ := Erasure.Code.feed_cons_some _ hfeed
    obtain ⟨result, c1, hdecode, hsame, hrows, hmore, _⟩ := decode_spec h x.1 x.2
    have hd' : (result.verdict, some c1) = (.needMore, d') :=
      (congrArg (fun r => (WirehairResult.verdict r.1, r.2)) hdecode).symm.trans hstep
    obtain ⟨hverdict, rfl⟩ := Prod.mk.inj hd'
    obtain ⟨c', hd, husable, hsame', hrows'⟩ := ih (hmore (verdict_needMore hverdict)) hrest
    refine ⟨c', hd, husable, hsame.trans hsame', ?_⟩
    rw [List.length_cons]
    omega

theorem decoderCreate_usable (h : (wirehairCodec P E).decoderCreate messageBytes w = some d) :
    ∃ c : Codec E, d = some c ∧ c.Usable P messageBytes w ∧
      c.blockCount = keptBlocks messageBytes w ∧ c.rowCount = 0 := by
  obtain ⟨m, hm, rfl⟩ := Option.map_eq_some_iff.mp h
  have hinitial := Collecting.initial (E := E) hm
  exact ⟨_, rfl, Or.inl hinitial, hinitial.1.wellformed.2.2, rfl⟩

theorem chosen_positive (h : chooseMatrix getPeelSeed fuel messageBytes w = some (.ok m)) :
    1 ≤ messageBytes.toNat ∧ 1 ≤ w.toNat := by
  rw [chooseMatrix] at h
  split at h
  · cases h
  rename_i hinput
  obtain ⟨hmessage, hblock⟩ := not_or.mp hinput
  exact ⟨UInt64.le_iff_toNat_le.mp (UInt64.not_lt.mp hmessage),
    UInt32.le_iff_toNat_le.mp (UInt32.not_lt.mp hblock)⟩

theorem count_eq_kept {g : Geometry} (hg : g.Kept)
    (h : chooseMatrix getPeelSeed fuel g.messageBytes g.blockBytes = some (.ok m)) :
    keptBlocks g.messageBytes g.blockBytes = g.count := by
  obtain ⟨hmessage, hblock⟩ := chosen_positive h
  exact (keptBlocks_spec hmessage hblock).2 hg.1

/-- No success on fewer rows than blocks. -/
theorem keptCode_alwaysThrifty (P : Platform) (E : Elimination) :
    (keptCode P E).AlwaysThrifty (fun g => g.1.count) := by
  intro g xs d₀ i s d' hcreate hdecode
  obtain ⟨m, hm, _⟩ := Option.map_eq_some_iff.mp hcreate
  obtain ⟨c₀, rfl, _, hcount, hzero⟩ := decoderCreate_usable hcreate
  obtain ⟨_, hmore⟩ | ⟨c, _, htaken, _, _, _, hsuccess⟩ := decode_cases hdecode
  · cases hmore
  obtain ⟨hsame, hrows⟩ := takeAll_answered htaken
  have hle := hsuccess rfl
  have hkept : keptBlocks g.1.messageBytes g.1.blockBytes = g.1.count := by
    rw [chosenMatrix] at hm
    split at hm
    · rename_i hchoose
      exact count_eq_kept g.2 hchoose
    · cases hm
  rw [hsame.blockCount, hcount, hkept] at hle
  rw [hzero] at hrows
  show g.1.count ≤ xs.length + 1
  omega

/-- The sizes of a message an encoder was made for. -/
theorem Codec.Encodes.fits {e : Codec E} (h : e.Encodes P message w)
    (hcount : divCeil message.length w.toNat < 2 ^ 16) (hlength : message.length < 2 ^ 32) :
    e.blockCount = divCeil message.length w.toNat ∧ Fits message w e.blockCount := by
  obtain ⟨_, hsizes⟩ := h.sizes
  have htoNat : (UInt64.ofNat message.length).toNat = message.length := by
    rw [UInt64.toNat_ofNat', Nat.mod_eq_of_lt (by omega)]
  obtain ⟨_, _, hkept, _⟩ := sizes_of_chosen h.chosen
  obtain ⟨hmessage, hblock⟩ := chosen_positive h.chosen
  have hall := (keptBlocks_spec hmessage hblock).2 (by rw [htoNat]; exact hcount)
  have hblocks : e.blockCount = divCeil message.length w.toNat := by
    rw [blockCount, hkept, hall, htoNat]
  refine ⟨hblocks, { toSizes := hsizes, length_lt := hlength, all := ?_ }⟩
  rw [hblocks, divCeil]
  have := Nat.div_add_mod (message.length + w.toNat - 1) w.toNat
  have := Nat.mod_lt (message.length + w.toNat - 1) hblock
  omega

theorem Codec.Encodes.chunk_eq {e : Codec E} (h : e.Encodes P message w)
    (hfits : Fits message w e.blockCount) {blockId : UInt32} (hid : blockId.toNat < e.blockCount) :
    e.encode P blockId w = chunk message w.toNat blockId.toNat := by
  rw [h.encode_original hid, inputRow, h.inputs, h.final]
  split
  · rename_i hlast
    rw [hlast, ← hfits.chunk_last]
    exact List.take_length
  · rfl

/-- An original block is taken, or there is no room for it. -/
theorem Codec.Originals.decode {c : Codec E} (h : c.Originals P message w ids)
    (hfits : Fits message w c.blockCount) (hlt : c.rowCount < c.blockCount) {blockId : UInt32}
    (hid : blockId.toNat < c.blockCount) (hs : Carries message w blockId s) :
    ∃ c' : Codec E, ∃ ids', c'.matrix = c.matrix ∧ c'.Originals P message w ids' ∧
      (ids' = ids ++ [blockId] ∨ ids' = ids ∧
        ¬ ∀ col ∈ c.matrix.columns blockId, (c.peel.peelColRefs col).length < refListMax) ∧
      (c'.rowCount < c'.blockCount ∧
          (wirehairCodec P E).code.decode (some c) blockId s = (.needMore, some c') ∨
        ids'.Perm (originals c.blockCount) ∧
          (wirehairCodec P E).code.decode (some c) blockId s = (.success, some c') ∨
        ids'.length = c.blockCount ∧ ¬ ids'.Perm (originals c.blockCount) ∧
          (wirehairCodec P E).code.decode (some c) blockId s =
            (.refused, some { c' with allOriginal := false })) := by
  have hsome : ¬ s.length < 1 := Nat.not_lt.mpr (Nat.le_trans (hfits.chunk_pos hid) hs.length_ge)
  have hdecode : ∀ result (c' : Codec E), c.decodeFeed P blockId s = some (result, c') →
      (wirehairCodec P E).code.decode (some c) blockId s = (result.verdict, some c') := by
    intro result c' hfeed
    simp only [wirehairCodec]
    rw [if_neg hsome, hfeed]
  obtain ⟨c', hmatrix, ⟨hfeed, h'⟩ | ⟨hfeed, h', hroom⟩⟩ := h.row hfits hlt hid hs
  · have hcount : c'.blockCount = c.blockCount := by rw [blockCount, hmatrix, blockCount]
    refine ⟨c', _, hmatrix, h', Or.inl rfl, ?_⟩
    have hle : c'.rowCount ≤ c'.blockCount := by
      rw [h'.count, List.length_append, List.length_singleton, ← h.count, hcount]
      exact hlt
    rw [← hcount]
    rcases h'.onRow (hcount ▸ hfits.le_max) with ⟨hne, hrow⟩ | ⟨hall, hrow⟩ |
      ⟨hfull, hall, hrow⟩
    · exact Or.inl ⟨Nat.lt_of_le_of_ne hle hne, hdecode _ _ (hfeed.trans hrow)⟩
    · exact Or.inr (Or.inl ⟨hall, hdecode _ _ (hfeed.trans hrow)⟩)
    · exact Or.inr (Or.inr ⟨by rw [← h'.count, hfull], hall, hdecode _ _ (hfeed.trans hrow)⟩)
  · refine ⟨c', ids, hmatrix, h', Or.inr ⟨rfl, hroom⟩, Or.inl ⟨?_, hdecode _ _ hfeed⟩⟩
    rw [h'.count, ← h.count, blockCount, hmatrix]
    exact hlt

theorem taken_sublist {ids ids' : List UInt32} (h : ids' = ids ++ [i] ∨ ids' = ids ∧ full) :
    ids'.Sublist (ids ++ [i]) := by
  rcases h with rfl | ⟨rfl, _⟩
  · exact List.Sublist.refl _
  · exact List.sublist_append_left _ _

/-- As long as more is asked for, only original blocks are among the rows. -/
theorem feed_originals {c : Codec E} (h : c.Originals P message w ids)
    (hfits : Fits message w c.blockCount) (hlt : c.rowCount < c.blockCount)
    (hx : ∀ x ∈ xs, x.1.toNat < c.blockCount ∧ Carries message w x.1 x.2)
    (hfeed : (wirehairCodec P E).code.feed (some c) xs = some d) :
    ∃ c' : Codec E, ∃ ids', d = some c' ∧ c'.matrix = c.matrix ∧
      c'.Originals P message w ids' ∧ c'.rowCount < c'.blockCount ∧
      ids'.Sublist (ids ++ xs.map Prod.fst) := by
  induction xs generalizing c ids with
  | nil =>
    cases hfeed
    exact ⟨c, ids, rfl, rfl, h, hlt, by rw [List.map_nil, List.append_nil]⟩
  | cons x xs ih =>
    obtain ⟨hid, hcarries⟩ := hx x List.mem_cons_self
    obtain ⟨d', hd', hrest⟩ := Erasure.Code.feed_cons_some _ hfeed
    obtain ⟨c1, ids1, hmatrix, h1, htaken, ⟨hlt1, hdecode⟩ | ⟨_, hdecode⟩ | ⟨_, _, hdecode⟩⟩ :=
      h.decode hfits hlt hid hcarries
    · cases hd'.symm.trans hdecode
      have hcount : c1.blockCount = c.blockCount := by rw [blockCount, hmatrix, blockCount]
      obtain ⟨c', ids', hd, hmatrix', h', hlt', hsub⟩ := ih h1 (hcount ▸ hfits) hlt1
        (fun y hy => hcount ▸ hx y (List.mem_cons_of_mem x hy)) hrest
      refine ⟨c', ids', hd, hmatrix'.trans hmatrix, h', hlt', hsub.trans ?_⟩
      rw [List.map_cons, List.append_cons]
      exact (taken_sublist htaken).append_right _
    · cases hd'.symm.trans hdecode
    · cases hd'.symm.trans hdecode

/-- Different original blocks are taken one by one, as long as they are not all
there. -/
theorem feed_different {c : Codec E} (h : c.Originals P message w ids)
    (hfits : Fits message w c.blockCount)
    (huses : ∀ col, uses c.matrix (originals c.blockCount) col ≤ refListMax)
    (hx : ∀ x ∈ xs, x.1.toNat < c.blockCount ∧ Carries message w x.1 x.2)
    (hnodup : (ids ++ xs.map Prod.fst).Nodup)
    (hfew : ids.length + xs.length < c.blockCount) :
    ∃ c' : Codec E, (wirehairCodec P E).code.feed (some c) xs = some (some c') ∧
      c'.matrix = c.matrix ∧ c'.Originals P message w (ids ++ xs.map Prod.fst) := by
  induction xs generalizing c ids with
  | nil =>
    refine ⟨c, rfl, rfl, ?_⟩
    rw [List.map_nil, List.append_nil]
    exact h
  | cons x xs ih =>
    obtain ⟨hid, hcarries⟩ := hx x List.mem_cons_self
    rw [List.map_cons, List.append_cons] at hnodup
    rw [List.length_cons] at hfew
    have hnew : (x.1 :: ids).Nodup :=
      (List.perm_append_singleton x.1 ids).nodup_iff.mp (List.nodup_append.mp hnodup).1
    obtain ⟨hlt, hroom⟩ := h.room hfits.le_max huses hid hnew
    obtain ⟨c1, ids1, hmatrix, h1, htaken, hanswer⟩ := h.decode hfits hlt hid hcarries
    have hids : ids1 = ids ++ [x.1] := htaken.resolve_right fun hno => hno.2 hroom
    subst hids
    have hcount : c1.blockCount = c.blockCount := by rw [blockCount, hmatrix, blockCount]
    have hnotall : (ids ++ [x.1]).length ≠ c.blockCount := by
      rw [List.length_append, List.length_singleton]
      omega
    have hdecode : (wirehairCodec P E).code.decode (some c) x.1 x.2 = (.needMore, some c1) := by
      rcases hanswer with ⟨_, hdecode⟩ | ⟨hall, _⟩ | ⟨hall, _⟩
      · exact hdecode
      · have := hall.length_eq
        rw [originals, List.length_map, List.length_range] at this
        exact absurd this hnotall
      · exact absurd hall hnotall
    obtain ⟨c', hrest, hmatrix', h'⟩ := ih h1 (hcount ▸ hfits)
      (by rw [hmatrix, hcount]; exact huses)
      (fun y hy => hcount ▸ hx y (List.mem_cons_of_mem x hy)) hnodup
      (by rw [List.length_append, List.length_singleton, hcount]; omega)
    refine ⟨c', ?_, hmatrix'.trans hmatrix, ?_⟩
    · rw [Erasure.Code.feed_cons _ hdecode]
      exact hrest
    · rw [List.map_cons, List.append_cons]
      exact h'

/-- A droplet of an original block carries the block. -/
theorem carries_of_droplet {g : Geometry} {e : Codec E}
    (hcreate : (wirehairCodec P E).encoderCreate b g.blockBytes = some (some e))
    (he : e.Encodes P b g.blockBytes) (hfits : Fits b g.blockBytes e.blockCount)
    {blockId : UInt32} (hid : blockId.toNat < e.blockCount)
    (hs : (wirehairCodec P E).IsDroplet g b blockId s) : Carries b g.blockBytes blockId s := by
  obtain ⟨_, hle, e', k, he', _, rfl⟩ := hs
  cases hcreate.symm.trans he'
  refine ⟨hle, k, ?_⟩
  rw [← he.chunk_eq hfits hid]
  rfl

/-- What a droplet tells of its message and of a decoder for it. -/
theorem droplet_spec {g : Geometry} (hg : g.Kept) (hi : (wirehairCodec P E).IsDroplet g b i s) :
    ∃ e c : Codec E, (wirehairCodec P E).encoderCreate b g.blockBytes = some (some e) ∧
      e.Encodes P b g.blockBytes ∧ (wirehairCodec P E).code.create g = some (some c) ∧
      c.matrix = e.matrix ∧ c.Originals P b g.blockBytes [] ∧
      UInt64.ofNat b.length = g.messageBytes ∧ e.blockCount = g.count ∧
      Fits b g.blockBytes e.blockCount := by
  obtain ⟨hlength, _, e?, _, hcreate, _⟩ := hi
  obtain ⟨e, rfl, he⟩ := encoderCreate_encodes hcreate
  have hmessage : UInt64.ofNat b.length = g.messageBytes := by
    rw [hlength, UInt64.ofNat_toNat]
  have hcount : g.count = divCeil b.length g.blockBytes.toNat := by rw [Geometry.count, hlength]
  obtain ⟨hblocks, hfits⟩ := he.fits (by rw [← hcount]; exact hg.1) (by rw [hlength]; exact hg.2)
  have hm : chosenMatrix P g.messageBytes g.blockBytes = some e.matrix := by
    rw [chosenMatrix, ← hmessage, he.chosen]
  obtain ⟨hcollecting, _⟩ := Collecting.initial (E := E) hm
  rw [← hmessage] at hcollecting
  refine ⟨e, initializeDecoder P (UInt64.ofNat b.length) e.matrix, hcreate, he, ?_, rfl,
    ?_, hmessage, hblocks.trans hcount.symm, hfits⟩
  · simp only [Wirehair.code, wirehairCodec, hm, Option.map_some, hmessage]
  · exact { toCollecting := hcollecting, count := rfl, seeds := rfl, known := fun _ h => by cases h
            blocks := fun r hr => absurd hr (Nat.not_lt_zero r), original := rfl }

/-- The original blocks of a message, in any order: the decoder asks for more up
to the last of them and then yields the message, without the elimination. -/
theorem recovers_originals {g : Geometry} (hg : g.Kept)
    (hids : (xs.map Prod.fst ++ [i]).Perm ((List.range g.count).map UInt32.ofNat))
    (hx : ∀ x ∈ xs, (wirehairCodec P E).IsDroplet g b x.1 x.2)
    (hi : (wirehairCodec P E).IsDroplet g b i s) :
    ∃ d₀ d d', (wirehairCodec P E).code.create g = some d₀ ∧
      (wirehairCodec P E).code.feed d₀ xs = some d ∧
      (wirehairCodec P E).code.decode d i s = (.success, d') ∧
      (wirehairCodec P E).code.recover g d' = some b := by
  obtain ⟨e, c₀, hcreate, he, hmade, hmatrix, hstart, hmessage, hblocks, hfits⟩ :=
    droplet_spec hg hi
  have hsame : c₀.blockCount = e.blockCount := by rw [blockCount, hmatrix, blockCount]
  have hids : (xs.map Prod.fst ++ [i]).Perm (originals e.blockCount) := by
    rw [hblocks]
    exact hids
  have hmax := hfits.le_max
  have hnodup := hids.nodup_iff.mpr (originals_nodup hmax)
  have hknown : ∀ j ∈ xs.map Prod.fst ++ [i], j.toNat < e.blockCount := fun j hj =>
    (mem_originals hmax).mp (hids.subset hj)
  have hlen := hids.length_eq
  rw [originals, List.length_map, List.length_range, List.length_append, List.length_map,
    List.length_singleton] at hlen
  obtain ⟨c, hfeed, hmatrix1, hc⟩ := feed_different hstart (hsame ▸ hfits)
    (by rw [hmatrix, hsame]; exact he.uses_le)
    (fun x hxm => by
      have hid := hknown x.1 (List.mem_append_left _ (List.mem_map_of_mem hxm))
      exact ⟨hsame ▸ hid, carries_of_droplet hcreate he hfits hid (hx x hxm)⟩)
    (List.nodup_append.mp hnodup).1
    (by rw [List.length_nil, hsame]; omega)
  rw [List.nil_append] at hc
  have hsame1 : c.blockCount = e.blockCount := by rw [blockCount, hmatrix1, ← hsame, blockCount]
  have hid := hknown i (List.mem_append_right _ (List.mem_singleton_self i))
  obtain ⟨hlt, hroom⟩ := hc.room (hsame1 ▸ hmax)
    (by rw [hmatrix1, hmatrix, hsame1]; exact he.uses_le) (hsame1 ▸ hid)
    ((List.perm_append_singleton i _).nodup_iff.mp hnodup)
  obtain ⟨c', ids', hmatrix', hc', htaken, hanswer⟩ := hc.decode (hsame1 ▸ hfits) hlt (hsame1 ▸ hid)
    (carries_of_droplet hcreate he hfits hid hi)
  cases htaken.resolve_right fun hno => hno.2 hroom
  have hsame' : c'.blockCount = e.blockCount := by rw [blockCount, hmatrix', ← hsame1, blockCount]
  refine ⟨some c₀, some c, some c', hmade, hfeed, ?_, ?_⟩
  · rcases hanswer with ⟨hfew, _⟩ | ⟨_, hdecode⟩ | ⟨_, hnot, _⟩
    · rw [hc'.count, List.length_append, List.length_map, List.length_singleton] at hfew
      omega
    · exact hdecode
    · exact absurd (hsame1 ▸ hids) hnot
  · simp only [wirehairCodec, ← hmessage, hc'.recovers (hsame' ▸ hfits) (hsame' ▸ hids)]

/-- A decoder of a message that was fed original blocks only and still asks for more,
and what it makes of another. -/
theorem originals_call {g : KeptGeometry} {d : Option (Codec E)}
    (hfed : Erasure.Fed (keptCode P E)
      (fun g b i s => (wirehairCodec P E).IsDroplet g.1 b i s ∧ i.toNat < g.1.count) g b xs d)
    (hi : (wirehairCodec P E).IsDroplet g.1 b i s) (hid : i.toNat < g.1.count) :
    ∃ c c' : Codec E, ∃ ids', d = some c ∧ c'.blockCount = g.1.count ∧
      Fits b g.1.blockBytes c'.blockCount ∧ UInt64.ofNat b.length = g.1.messageBytes ∧
      c'.Originals P b g.1.blockBytes ids' ∧ ids'.Sublist (xs.map Prod.fst ++ [i]) ∧
      (ids' = seeds c.rowCount c.peel ++ [i] ∨ ids' = seeds c.rowCount c.peel ∧
        ¬ ∀ col ∈ c.matrix.columns i, (c.peel.peelColRefs col).length < refListMax) ∧
      (c'.rowCount < c'.blockCount ∧
          (wirehairCodec P E).code.decode d i s = (.needMore, some c') ∨
        ids'.Perm (originals c'.blockCount) ∧
          (wirehairCodec P E).code.decode d i s = (.success, some c') ∨
        ids'.length = c'.blockCount ∧ ¬ ids'.Perm (originals c'.blockCount) ∧
          (wirehairCodec P E).code.decode d i s =
            (.refused, some { c' with allOriginal := false })) := by
  obtain ⟨⟨d₀, hcreate, hfeed⟩, hdroplets⟩ := hfed
  rw [Erasure.Code.feed_pull] at hfeed
  obtain ⟨e, c₀, he?, he, hmade, hmatrix, hstart, hmessage, hblocks, hfits⟩ :=
    droplet_spec g.2 hi
  cases hcreate.symm.trans hmade
  have hsame : c₀.blockCount = e.blockCount := by rw [blockCount, hmatrix, blockCount]
  have hcarries : ∀ j t, (wirehairCodec P E).IsDroplet g.1 b j t ∧ j.toNat < g.1.count →
      j.toNat < e.blockCount ∧ Carries b g.1.blockBytes j t := fun j t hj => by
    rw [← hblocks] at hj
    exact ⟨hj.2, carries_of_droplet he? he hfits hj.2 hj.1⟩
  obtain ⟨c, ids, rfl, hmatrix1, hc, hlt, hsub⟩ := feed_originals hstart (hsame ▸ hfits)
    (by rw [hstart.count, List.length_nil, hsame]; have := hfits.two_le; omega)
    (fun x hx => by
      obtain ⟨y, hy, rfl⟩ := List.mem_map.mp hx
      exact hsame ▸ hcarries y.1 y.2 (hdroplets y hy))
    hfeed
  have hsame1 : c.blockCount = e.blockCount := by rw [blockCount, hmatrix1, ← hsame, blockCount]
  obtain ⟨hknown, hcarry⟩ := hcarries i s ⟨hi, hid⟩
  obtain ⟨c', ids', hmatrix', hc', htaken, hanswer⟩ :=
    hc.decode (hsame1 ▸ hfits) hlt (hsame1 ▸ hknown) hcarry
  have hcount : c'.blockCount = c.blockCount := by rw [blockCount, hmatrix', blockCount]
  have hcount' : c'.blockCount = e.blockCount := hcount.trans hsame1
  rw [List.nil_append, List.map_map] at hsub
  have hsub : ids.Sublist (xs.map Prod.fst) := hsub
  refine ⟨c, c', ids', rfl, hcount'.trans hblocks, hcount' ▸ hfits, hmessage, hc',
    (taken_sublist htaken).trans (hsub.append_right _), ?_, hcount ▸ hanswer⟩
  rw [hc.seeds]
  exact htaken

/-- Fed original blocks only, in any order and with any repeats, the codec never
yields anything but the message. A decoder that asked for more so far takes a row
unless some column of it has no room for another, and with it asks for more while it
has fewer rows than blocks; then it succeeds if no row is repeated, so that each
original block is there, and refuses otherwise. -/
theorem originals_sound (P : Platform) (E : Elimination) :
    let original := fun (g : KeptGeometry) b i s =>
      (wirehairCodec P E).IsDroplet g.1 b i s ∧ i.toNat < g.1.count
    (keptCode P E).Sound original ∧
    ∀ g b xs d i s, Erasure.Fed (keptCode P E) original g b xs d → original g b i s →
      let o := (keptCode P E).decode d i s
      ∃ c c' : Codec E, d = some c ∧ o.2 = some c' ∧
        (seeds c'.rowCount c'.peel = seeds c.rowCount c.peel ++ [i] ∨
          seeds c'.rowCount c'.peel = seeds c.rowCount c.peel ∧
            ¬ ∀ col ∈ c.matrix.columns i, (c.peel.peelColRefs col).length < refListMax) ∧
        o.1 = (if c'.rowCount < g.1.count then .needMore
          else if (seeds c'.rowCount c'.peel).Nodup then .success else .refused) ∧
        (o.1 = .success → ∀ id : UInt32, id.toNat < g.1.count → id ∈ xs.map Prod.fst ++ [i]) := by
  intro original
  refine ⟨fun g b xs d i s d' hfed hi hdecode => ?_, fun g b xs d i s hfed hi => ?_⟩
  · obtain ⟨c, c', ids', rfl, hcount, hfits, hmessage, hc', _, _,
      ⟨_, hd⟩ | ⟨hall, hd⟩ | ⟨_, _, hd⟩⟩ := originals_call hfed hi.1 hi.2
    · cases hd.symm.trans hdecode
    · cases hd.symm.trans hdecode
      show (wirehairCodec P E).code.recover g.1 (some c') = some b
      simp only [wirehairCodec, ← hmessage, hc'.recovers hfits hall]
    · cases hd.symm.trans hdecode
  · obtain ⟨c, c', ids', rfl, hcount, hfits, _, hc', hsub, htaken, hanswer⟩ :=
      originals_call hfed hi.1 hi.2
    have hrows := hc'.count
    have hall_iff := perm_originals_iff hfits.le_max hc'.known
    rw [← hc'.seeds] at htaken
    rcases hanswer with ⟨hfew, hd⟩ | ⟨hall, hd⟩ | ⟨hfull, hnot, hd⟩
    · refine ⟨c, c', rfl, congrArg Prod.snd hd, htaken, ?_, fun hsuccess => ?_⟩
      · rw [if_pos (hcount ▸ hfew)]
        exact congrArg Prod.fst hd
      · cases (congrArg Prod.fst hd).symm.trans hsuccess
    · have hlength : ids'.length = c'.blockCount := by
        rw [hall.length_eq, originals, List.length_map, List.length_range]
      refine ⟨c, c', rfl, congrArg Prod.snd hd, htaken, ?_, fun _ id hid => hsub.subset ?_⟩
      · rw [if_neg (by omega), hc'.seeds, if_pos ((hall_iff hlength).mp hall)]
        exact congrArg Prod.fst hd
      · exact hall.symm.subset ((mem_originals hfits.le_max).mpr (hcount ▸ hid))
    · refine ⟨c, { c' with allOriginal := false }, rfl, congrArg Prod.snd hd, htaken, ?_,
        fun hsuccess => ?_⟩
      · have hrepeats : ¬ (seeds c'.rowCount c'.peel).Nodup := by
          rw [hc'.seeds, ← hall_iff hfull]
          exact hnot
        rw [if_neg (by dsimp only; omega), if_neg hrepeats]
        exact congrArg Prod.fst hd
      · cases (congrArg Prod.fst hd).symm.trans hsuccess

theorem chosenMatrix_none {g : Geometry} (hmessage : g.messageBytes ≠ 0) (hblock : g.blockBytes ≠ 0) :
    chosenMatrix P g.messageBytes g.blockBytes = none ↔
      keptBlocks g.messageBytes g.blockBytes < 2 ∨
        64000 < keptBlocks g.messageBytes g.blockBytes := by
  have hlimits : wirehairMinN = 2 ∧ wirehairMaxN = 64000 := ⟨rfl, rfl⟩
  have hnot : ¬ g.messageBytes < 1 ∧ ¬ g.blockBytes < 1 := by
    constructor
    · rw [UInt64.lt_iff_toNat_lt, UInt64.toNat_one]
      have := mt UInt64.toNat_inj.mp hmessage
      rw [UInt64.toNat_zero] at this
      omega
    · rw [UInt32.lt_iff_toNat_lt, UInt32.toNat_one]
      have := mt UInt32.toNat_inj.mp hblock
      rw [UInt32.toNat_zero] at this
      omega
  rw [chosenMatrix]
  rcases chooseMatrix_answers P.getPeelSeed (Nat.le_refl _) g.messageBytes g.blockBytes with
    ⟨_, herror, hwhy⟩ | ⟨m, hm, _, _, _, _, hcount, hmin, hmax⟩
  · rw [herror]
    refine iff_of_true rfl ?_
    rw [← hlimits.1, ← hlimits.2]
    exact (hwhy.resolve_left hnot.1).resolve_left hnot.2
  · rw [hm, ← hcount]
    exact iff_of_false (fun h => by cases h) (by omega)

/-- Whatever the elimination does: no success before as many rows as blocks, the
original blocks in their order suffice, every id is encoded, a decoder is made
exactly within the limits, and no encoder is undefined. -/
theorem wirehairCodec_meets (P : Platform) (E : Elimination) :
    (keptCode P E).Thrifty (fun g => g.1.count) ∧
    (keptCode P E).AlwaysThrifty (fun g => g.1.count) ∧
    (keptCode P E).Completes (fun g => (wirehairCodec P E).IsDroplet g.1)
      (fun g => (List.range g.1.count).map UInt32.ofNat) ∧
    (wirehairCodec P E).EncodesAll ∧
    (∀ g : Geometry, g.messageBytes ≠ 0 → g.blockBytes ≠ 0 → g.count < 2 ^ 16 →
      ((wirehairCodec P E).decoderCreate g.messageBytes g.blockBytes = none ↔
        g.count < 2 ∨ 64000 < g.count)) ∧
    ∀ message w, (wirehairCodec P E).encoderCreate message w ≠ some none := by
  refine ⟨(keptCode_alwaysThrifty P E).thrifty, keptCode_alwaysThrifty P E, ?_, ?_, ?_, ?_⟩
  · intro g b xs i s hids hx hi
    obtain ⟨d₀, d, d', hcreate, hfeed, hdecode, hrecover⟩ :=
      recovers_originals g.2 (List.Perm.of_eq hids) hx hi
    refine ⟨d₀, d, d', hcreate, ?_, hdecode, hrecover⟩
    rw [Erasure.Code.feed_pull]
    simpa using hfeed
  · intro message w e? hcreate blockId
    obtain ⟨e, rfl, he⟩ := encoderCreate_encodes hcreate
    have hlength := he.encode_length blockId
    have hbounds := he.final_bounds
    show 0 < (e.encode P blockId w).length ∧ (e.encode P blockId w).length ≤ w.toNat
    rw [hlength]
    split <;> omega
  · intro g hmessage hblock hcount
    have hkept : keptBlocks g.messageBytes g.blockBytes = g.count := by
      refine (keptBlocks_spec (Nat.pos_of_ne_zero fun hzero => hmessage ?_)
        (Nat.pos_of_ne_zero fun hzero => hblock ?_)).2 hcount
      · exact UInt64.toNat_inj.mp hzero
      · exact UInt32.toNat_inj.mp hzero
    rw [← hkept, ← chosenMatrix_none (P := P) hmessage hblock]
    exact Option.map_eq_none_iff
  · intro message w hnone
    obtain ⟨_, hsome, _⟩ := encoderCreate_encodes hnone
    cases hsome

theorem reconstructOutput_refused {c : Codec E}
    (h : c.blockBytes * (c.blockCount - 1) + c.outputFinalBytes < messageBytes.toNat) :
    c.reconstructOutput P messageBytes = (.invalidInput, []) := by
  have := Nat.mod_le (c.blockBytes * (c.blockCount - 1) + c.outputFinalBytes) (2 ^ 32)
  rw [reconstructOutput, if_pos (by omega)]

theorem kept_of_no_overflow {g : Geometry} (hcount : 0 < g.count)
    (hsum : g.messageBytes.toNat + g.blockBytes.toNat ≤ 2 ^ 64) :
    g.messageBytes ≠ 0 ∧ g.blockBytes ≠ 0 ∧
      keptBlocks g.messageBytes g.blockBytes = g.count % 2 ^ 16 := by
  rw [Geometry.count, divCeil] at hcount
  have hblock : 0 < g.blockBytes.toNat := by
    by_contra hzero
    rw [Nat.eq_zero_of_not_pos hzero, Nat.div_zero] at hcount
    omega
  have hsmall : g.messageBytes.toNat + g.blockBytes.toNat - 1 < 2 ^ 64 := by omega
  refine ⟨fun hzero => ?_, fun hzero => ?_, ?_⟩
  · rw [hzero, UInt64.toNat_zero, Nat.zero_add, Nat.div_eq_of_lt (by omega)] at hcount
    omega
  · rw [hzero, UInt32.toNat_zero] at hblock
    omega
  · rw [keptBlocks, UInt64.toNat_div, UInt64.toNat_sub, UInt64.toNat_add, UInt32.toNat_toUInt64,
      UInt64.toNat_one, Geometry.count, divCeil]
    congr 2
    omega

/-- Where 16 bits cannot hold the number of blocks, decoders are made for the
blocks that are kept, and whatever they are fed and answer, none of them ever yields
a message. -/
theorem wrapped_never_recovers (P : Platform) (E : Elimination) {g : Geometry}
    (hcount : 2 ^ 16 ≤ g.count) (hsum : g.messageBytes.toNat + g.blockBytes.toNat ≤ 2 ^ 64) :
    ((wirehairCodec P E).decoderCreate g.messageBytes g.blockBytes = none ↔
      g.count % 2 ^ 16 < 2 ∨ 64000 < g.count % 2 ^ 16) ∧
    ∀ d, (wirehairCodec P E).decoderCreate g.messageBytes g.blockBytes = some d →
      ∀ xs, (wirehairCodec P E).code.recover g ((wirehairCodec P E).code.takeAll d xs) = none := by
  obtain ⟨hmessage, hblock, hkept⟩ := kept_of_no_overflow (by omega) hsum
  have hnone := chosenMatrix_none (P := P) hmessage hblock
  rw [hkept] at hnone
  refine ⟨?_, fun d hcreate xs => ?_⟩
  · rw [← hnone]
    exact Option.map_eq_none_iff
  obtain ⟨m, hm, hd⟩ := Option.map_eq_some_iff.mp hcreate
  obtain ⟨hcollecting, _⟩ := Collecting.initial (E := E) hm
  -- what is compared with the length of the message stays what it is
  have hshort : ∀ c : Codec E, SameMessage (initializeDecoder P g.messageBytes m) c →
      c.reconstructOutput P g.messageBytes = (.invalidInput, []) := by
    intro c hsame
    obtain ⟨_, hw, hblocks⟩ := hcollecting.wellformed
    have hmany : ¬ (keptBlocks g.messageBytes g.blockBytes < 2 ∨
        64000 < keptBlocks g.messageBytes g.blockBytes) := by
      rw [hkept, ← hnone, hm]
      nofun
    have hpos : 1 ≤ g.blockBytes.toNat :=
      Nat.pos_of_ne_zero fun hzero => hblock (UInt32.toNat_inj.mp hzero)
    have hfinal := partialFinalBytes_bounds g.messageBytes hpos
    refine reconstructOutput_refused ?_
    rw [hsame.blockCount, hblocks, hsame.outputFinalBytes, hcollecting.final, Codec.blockBytes,
      hsame.matrix, hw]
    have hle : g.blockBytes.toNat * 2 ^ 16 ≤ g.messageBytes.toNat + g.blockBytes.toNat - 1 := by
      rw [Nat.mul_comm]
      exact (Nat.le_div_iff_mul_le hpos).mp hcount
    have hfew := Nat.mul_le_mul_left g.blockBytes.toNat
      (show keptBlocks g.messageBytes g.blockBytes - 1 ≤ 64000 by omega)
    omega
  cases htaken : (wirehairCodec P E).code.takeAll d xs with
  | none => rfl
  | some c =>
    rw [← hd] at htaken
    simp only [wirehairCodec, hshort c (takeAll_answered htaken).1]

/-- An elimination that succeeds and finds zeros. -/
def Elimination.blind : Elimination where
  State := Unit
  solve _ := (.success, ())
  values _ _ _ _ := 0
  append _ _ rowI := (rowI, ())
  reuse _ _ := none
  resume _ _ _ _ _ := (.success, ())

def Platform.plain : Platform where
  cpu := .desktop false false
  getPeelSeed _ := 7
  memory _ := ⟨0, 0, .result 0⟩

/-- 65538 blocks of a byte are taken for two. -/
theorem wrapped_never_recovers_two :
    ((wirehairCodec .plain .blind).decoderCreate 65538 1 = none ↔
      Geometry.count ⟨65538, 1⟩ % 2 ^ 16 < 2 ∨ 64000 < Geometry.count ⟨65538, 1⟩ % 2 ^ 16) ∧
    ∀ d, (wirehairCodec .plain .blind).decoderCreate 65538 1 = some d →
      ∀ xs, (wirehairCodec .plain .blind).code.recover ⟨65538, 1⟩
        ((wirehairCodec .plain .blind).code.takeAll d xs) = none :=
  wrapped_never_recovers .plain .blind (g := ⟨65538, 1⟩) (by decide) (by decide)

end Sankaku
