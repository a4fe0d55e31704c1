import Sankaku.Proofs.BitReader

namespace Sankaku
open Readers

/-- The magnitude of an offset, and a sign bit unless it is zero. -/
def offsetBits (z : Int) : List Bool :=
  Bits.ue z.natAbs ++ if z = 0 then [] else [decide (z < 0)]

def bandBits (saoTypeIdx : Nat) : Nat := if saoTypeIdx = 1 then 5 else 2

theorem bandBits_le (saoTypeIdx : Nat) : bandBits saoTypeIdx ≤ 5 := by
  rw [bandBits]
  split
  · exact le_refl 5
  · decide

/-- The values of one candidate, within the limits the parser sets. -/
structure SaoSyntax (preludeUeCount : Nat) where
  prelude : List Nat
  saoTypeIdx : Nat
  offsets : List.Vector Int 4
  bandPosition : Nat
  prelude_length : prelude.length = preludeUeCount
  prelude_le : ∀ v ∈ prelude, v ≤ 2 ^ 20
  type : saoTypeIdx = 1 ∨ saoTypeIdx = 2
  offset_le : ∀ z ∈ offsets.toList, z.natAbs ≤ 7
  nonzero : ∃ z ∈ offsets.toList, z ≠ 0
  band_lt : bandPosition < 2 ^ bandBits saoTypeIdx

namespace SaoSyntax

/-- How a candidate is written. -/
def bits (x : SaoSyntax n) (expectSaoFlag : Bool) : List Bool :=
  x.prelude.flatMap Bits.ue ++ (if expectSaoFlag then [true] else []) ++ Bits.ue x.saoTypeIdx ++
    x.offsets.toList.flatMap offsetBits ++ Bits.fixed (bandBits x.saoTypeIdx) x.bandPosition

/-- The last value before the flag. -/
def address (x : SaoSyntax n) : Nat := x.prelude.getLast?.getD 0

def parameters (x : SaoSyntax n) : SaoParameters where
  ctuX := UInt16.ofNat (x.address % 2 ^ 16)
  ctuY := UInt16.ofNat (x.address / 2 ^ 16)
  saoTypeIdx := UInt8.ofNat x.saoTypeIdx
  bandPosition := UInt8.ofNat x.bandPosition
  offset := x.offsets.map Int8.ofInt

theorem address_le (x : SaoSyntax n) : x.address ≤ 2 ^ 20 := by
  rw [address]
  cases hl : x.prelude.getLast? with
  | none => exact Nat.zero_le _
  | some v => exact x.prelude_le v (List.mem_of_getLast? hl)

theorem saoTypeIdx_toNat (x : SaoSyntax n) : (UInt8.ofNat x.saoTypeIdx).toNat = x.saoTypeIdx := by
  have := x.type
  rw [UInt8.toNat_ofNat', Nat.mod_eq_of_lt (by omega)]

theorem bandPosition_toNat (x : SaoSyntax n) : (UInt8.ofNat x.bandPosition).toNat = x.bandPosition := by
  have hlt := x.band_lt
  have hpow : 2 ^ bandBits x.saoTypeIdx ≤ 2 ^ 5 := Nat.pow_le_pow_right (by decide) (bandBits_le _)
  rw [UInt8.toNat_ofNat', Nat.mod_eq_of_lt (by omega)]

end SaoSyntax

theorem readPrelude_exact (hint : UInt32) (n : Nat) : Exact bitTape (readPrelude hint n)
    (fun h w => ∃ vs : List Nat, vs.length = n ∧ (∀ v ∈ vs, v ≤ 2 ^ 20) ∧ w = vs.flatMap Bits.ue ∧
      h.toNat = vs.getLast?.getD hint.toNat) := by
  induction n generalizing hint with
  | zero =>
    apply (Exact.pure hint).congr
    intro h w
    constructor
    · rintro ⟨rfl, rfl⟩
      exact ⟨[], rfl, by simp, rfl, rfl⟩
    · rintro ⟨vs, hlen, _, rfl, hlast⟩
      rw [List.length_eq_zero_iff] at hlen
      subst hlen
      exact ⟨UInt32.toNat_inj.mp hlast, rfl⟩
  | succ n ih =>
    have later : ∀ (next : UInt32) u, (u = Bits.ue next.toNat ∧ next.toNat + 1 < 2 ^ 32) →
        Exact bitTape (if next > (1 : UInt32) <<< 20 then throw Stop.none else readPrelude next n)
          (fun h w => ¬ next > (1 : UInt32) <<< 20 ∧ ∃ vs : List Nat, vs.length = n ∧
            (∀ v ∈ vs, v ≤ 2 ^ 20) ∧ w = vs.flatMap Bits.ue ∧
            h.toNat = vs.getLast?.getD next.toNat) :=
      fun next _ _ => Exact.refuse Stop.none (fun _ => ih next)
    have limit : ∀ next : UInt32, ¬ next > (1 : UInt32) <<< 20 ↔ next.toNat ≤ 2 ^ 20 := by
      intro next
      rw [gt_iff_lt, UInt32.lt_iff_toNat_lt, not_lt]
      rfl
    rw [readPrelude]
    apply (BitReader.readUe_exact.bind later).congr
    intro h w
    constructor
    · rintro ⟨next, _, v, ⟨rfl, _⟩, ⟨hle, vs, hlen, hvs, rfl, hlast⟩, rfl⟩
      rw [limit] at hle
      refine ⟨next.toNat :: vs, congrArg Nat.succ hlen, ?_, rfl, ?_⟩
      · intro v hv
        rcases List.mem_cons.mp hv with rfl | hv
        · exact hle
        · exact hvs v hv
      · rw [hlast, List.getLast?_cons, Option.getD_some]
    · rintro ⟨vs, hlen, hvs, rfl, hlast⟩
      cases vs with
      | nil => cases hlen
      | cons v vs =>
        have hv := hvs v List.mem_cons_self
        have hnat : (UInt32.ofNat v).toNat = v := by
          rw [UInt32.toNat_ofNat', Nat.mod_eq_of_lt (by omega)]
        rw [List.getLast?_cons, Option.getD_some] at hlast
        refine ⟨UInt32.ofNat v, Bits.ue v, vs.flatMap Bits.ue, ?_, ?_, rfl⟩
        · rw [hnat]
          exact ⟨rfl, by omega⟩
        · rw [limit, hnat]
          exact ⟨hv, vs, Nat.succ.inj hlen, fun u hu => hvs u (List.mem_cons_of_mem v hu), rfl,
            hlast⟩

theorem readSaoFlag_exact (expectSaoFlag : Bool) : Exact bitTape (readSaoFlag expectSaoFlag)
    (fun _ w => w = if expectSaoFlag then [true] else []) := by
  cases expectSaoFlag with
  | false =>
    apply (Exact.pure ()).congr
    intro _ w
    exact and_iff_right rfl
  | true =>
    have later : ∀ (bit : UInt8) u, (∃ x : Bool, u = [x] ∧ bit = x.toUInt8) →
        Exact bitTape (if bit = 0 then throw Stop.none else pure () : Scan Unit)
          (fun a w => ¬ bit = 0 ∧ a = () ∧ w = []) :=
      fun bit _ _ => Exact.refuse Stop.none (fun _ => Exact.pure ())
    apply (BitReader.readBit_exact.bind later).congr
    intro _ w
    constructor
    · rintro ⟨_, _, _, ⟨x, rfl, rfl⟩, ⟨hne, _, rfl⟩, rfl⟩
      cases x with
      | false => exact absurd rfl hne
      | true => rfl
    · rintro rfl
      exact ⟨_, [true], [], ⟨true, rfl, rfl⟩, ⟨by decide, rfl, rfl⟩, rfl⟩

theorem u8TryFrom_exact (value : UInt32) : Exact bitTape (u8TryFrom value)
    (fun b w => (value.toNat < 2 ^ 8 ∧ b = UInt8.ofNat value.toNat) ∧ w = []) :=
  (Exact.guard Stop.none (fun _ => Exact.pure _)).congr (fun _ _ => and_assoc.symm)

theorem i8TryFrom_exact (value : UInt32) : Exact bitTape (i8TryFrom value)
    (fun b w => (value.toNat < 2 ^ 7 ∧ b = Int8.ofNat value.toNat) ∧ w = []) :=
  (Exact.guard Stop.none (fun _ => Exact.pure _)).congr (fun _ _ => and_assoc.symm)

/-- A `u32` that turns out to be 1 or 2 as a `u8`. -/
theorem saoTypeIdx_exact (value : UInt32) : Exact bitTape
    (do
      let saoTypeIdx ← u8TryFrom value
      if 1 ≤ saoTypeIdx ∧ saoTypeIdx ≤ 2 then pure saoTypeIdx else throw .none : Scan UInt8)
    (fun t w => ((t.toNat = 1 ∨ t.toNat = 2) ∧ value.toNat = t.toNat) ∧ w = []) := by
  have range : ∀ t : UInt8, 1 ≤ t ∧ t ≤ 2 ↔ t.toNat = 1 ∨ t.toNat = 2 := by
    intro t
    rw [UInt8.le_iff_toNat_le, UInt8.le_iff_toNat_le]
    change 1 ≤ t.toNat ∧ t.toNat ≤ 2 ↔ _
    omega
  have hrange : ∀ t : UInt8, Exact bitTape
      (if 1 ≤ t ∧ t ≤ 2 then pure t else throw Stop.none : Scan UInt8)
      (fun t' w => ((1 ≤ t ∧ t ≤ 2) ∧ t' = t) ∧ w = []) := fun t =>
    (Exact.guard Stop.none (fun _ => Exact.pure t)).congr (fun _ _ => and_assoc.symm)
  apply ((u8TryFrom_exact value).settle (fun t _ _ => hrange t)).congr
  intro t w
  simp only [range]
  constructor
  · rintro ⟨_, ⟨⟨hvalue, rfl⟩, rfl⟩, ht, rfl⟩
    refine ⟨⟨ht, ?_⟩, rfl⟩
    rw [UInt8.toNat_ofNat', Nat.mod_eq_of_lt hvalue]
  · rintro ⟨⟨ht, hvalue⟩, rfl⟩
    refine ⟨t, ⟨⟨?_, ?_⟩, rfl⟩, ht, rfl⟩
    · rw [hvalue]
      exact t.toNat_lt
    · rw [hvalue, UInt8.ofNat_toNat]

theorem readSaoTypeIdx_exact : Exact bitTape readSaoTypeIdx
    (fun t w => (t.toNat = 1 ∨ t.toNat = 2) ∧ w = Bits.ue t.toNat) := by
  rw [readSaoTypeIdx]
  apply (BitReader.readUe_exact.settle (fun value _ _ => saoTypeIdx_exact value)).congr
  intro t w
  constructor
  · rintro ⟨value, ⟨rfl, _⟩, ht, hvalue⟩
    exact ⟨ht, by rw [hvalue]⟩
  · rintro ⟨ht, rfl⟩
    have hnat : t.toUInt32.toNat = t.toNat := UInt8.toNat_toUInt32 t
    refine ⟨t.toUInt32, ⟨by rw [hnat], ?_⟩, ht, hnat⟩
    rw [hnat]
    omega

/-- The sign bit and the value, once the magnitude is known to be small. -/
theorem offsetSign_exact (k : Nat) {magnitude : UInt32} (small : magnitude.toNat ≤ 7)
    (hne : magnitude.toNat ≠ 0) : Exact bitTape
    (do
      let sign ← BitReader.readBit
      let value ← i8TryFrom magnitude
      pure (if sign = 1 then -value else value, k + 1) : Scan (Int8 × Nat))
    (fun r w => ∃ z : Int, z.natAbs = magnitude.toNat ∧ w = [decide (z < 0)] ∧
      r = (Int8.ofInt z, k + 1)) := by
  have hvalue : ∀ sign : UInt8, Exact bitTape
      (do
        let value ← i8TryFrom magnitude
        pure (if sign = 1 then -value else value, k + 1) : Scan (Int8 × Nat))
      (fun r w => r = (if sign = 1 then -Int8.ofNat magnitude.toNat
        else Int8.ofNat magnitude.toNat, k + 1) ∧ w = []) := by
    intro sign
    apply ((i8TryFrom_exact magnitude).settle (fun value _ _ => Exact.pure _)).congr
    intro r w
    constructor
    · rintro ⟨_, ⟨⟨_, rfl⟩, rfl⟩, rfl⟩
      exact ⟨rfl, rfl⟩
    · rintro ⟨rfl, rfl⟩
      exact ⟨_, ⟨⟨by omega, rfl⟩, rfl⟩, rfl⟩
  apply (BitReader.readBit_exact.settle (fun sign _ _ => hvalue sign)).congr
  intro r w
  constructor
  · rintro ⟨_, ⟨x, rfl, rfl⟩, rfl⟩
    cases x with
    | false =>
      refine ⟨magnitude.toNat, rfl, ?_, ?_⟩
      · rw [decide_eq_false (by omega)]
      · rw [Int8.ofInt_eq_ofNat]
        rfl
    | true =>
      refine ⟨-magnitude.toNat, Int.natAbs_neg _, ?_, ?_⟩
      · rw [decide_eq_true (by omega)]
      · rw [Int8.ofInt_neg, Int8.ofInt_eq_ofNat]
        rfl
  · rintro ⟨z, hz, rfl, rfl⟩
    refine ⟨_, ⟨decide (z < 0), rfl, rfl⟩, ?_⟩
    rw [← hz, ← Int8.ofInt_eq_ofNat]
    by_cases hneg : z < 0
    · rw [decide_eq_true hneg, if_pos (by decide), ← Int8.ofInt_neg]
      congr 2
      omega
    · rw [decide_eq_false hneg, if_neg (by decide)]
      congr 2
      omega

/-- What follows the magnitude: nothing after zero, else a sign bit. -/
theorem offsetRest_exact (k : Nat) {magnitude : UInt32} (small : magnitude.toNat ≤ 7) : Exact bitTape
    (if magnitude = 0 then pure (0, k)
    else do
      let sign ← BitReader.readBit
      let value ← i8TryFrom magnitude
      pure (if sign = 1 then -value else value, k + 1) : Scan (Int8 × Nat))
    (fun r w => ∃ z : Int, z.natAbs = magnitude.toNat ∧
      w = (if z = 0 then [] else [decide (z < 0)]) ∧
      r = (Int8.ofInt z, if z = 0 then k else k + 1)) := by
  have zero : magnitude = 0 ↔ magnitude.toNat = 0 := UInt32.toNat_inj.symm
  by_cases hzero : magnitude = 0
  · rw [if_pos hzero]
    rw [zero] at hzero
    apply (Exact.pure _).congr
    intro r w
    constructor
    · rintro ⟨rfl, rfl⟩
      exact ⟨0, hzero.symm, rfl, rfl⟩
    · rintro ⟨z, hz, rfl, rfl⟩
      rw [hzero, Int.natAbs_eq_zero] at hz
      subst hz
      exact ⟨rfl, rfl⟩
  · rw [if_neg hzero]
    rw [zero] at hzero
    apply (offsetSign_exact k small hzero).congr
    intro r w
    have nonzero : ∀ z : Int, z.natAbs = magnitude.toNat → z ≠ 0 := by
      intro z hz h
      rw [h] at hz
      exact hzero hz.symm
    constructor
    · rintro ⟨z, hz, rfl, rfl⟩
      exact ⟨z, hz, (if_neg (nonzero z hz)).symm, by rw [if_neg (nonzero z hz)]⟩
    · rintro ⟨z, hz, rfl, rfl⟩
      exact ⟨z, hz, if_neg (nonzero z hz), by rw [if_neg (nonzero z hz)]⟩

theorem readOffset_exact (k : Nat) : Exact bitTape (readOffset k)
    (fun r w => ∃ z : Int, z.natAbs ≤ 7 ∧ w = offsetBits z ∧
      r = (Int8.ofInt z, if z = 0 then k else k + 1)) := by
  have seven : ∀ magnitude : UInt32, ¬ magnitude > 7 ↔ magnitude.toNat ≤ 7 := by
    intro magnitude
    rw [gt_iff_lt, UInt32.lt_iff_toNat_lt, not_lt]
    rfl
  have hread := BitReader.readUe_exact.bind (fun magnitude _ _ =>
    Exact.refuse Stop.none (fun small : ¬ magnitude > 7 =>
      offsetRest_exact k ((seven magnitude).mp small)))
  rw [readOffset]
  apply hread.congr
  intro r w
  simp only [seven]
  constructor
  · rintro ⟨magnitude, _, _, ⟨rfl, _⟩, ⟨small, z, hz, rfl, rfl⟩, rfl⟩
    exact ⟨z, by omega, by rw [offsetBits, hz], rfl⟩
  · rintro ⟨z, hz, rfl, rfl⟩
    have hnat : (UInt32.ofNat z.natAbs).toNat = z.natAbs := by
      rw [UInt32.toNat_ofNat', Nat.mod_eq_of_lt (by omega)]
    refine ⟨UInt32.ofNat z.natAbs, Bits.ue z.natAbs, _, ?_, ⟨?_, z, hnat.symm, rfl, rfl⟩, rfl⟩
    · rw [hnat]
      exact ⟨rfl, by omega⟩
    · rw [hnat]
      exact hz

theorem readOffsets_exact (k n : Nat) : Exact bitTape (readOffsets k n)
    (fun r w => ∃ zs : List.Vector Int n, (∀ z ∈ zs.toList, z.natAbs ≤ 7) ∧
      w = zs.toList.flatMap offsetBits ∧
      r = (zs.map Int8.ofInt, k + zs.toList.countP (· ≠ 0))) := by
  induction n generalizing k with
  | zero =>
    apply (Exact.pure _).congr
    intro r w
    constructor
    · rintro ⟨rfl, rfl⟩
      exact ⟨.nil, by simp, rfl, rfl⟩
    · rintro ⟨zs, _, rfl, rfl⟩
      rw [List.Vector.eq_nil zs]
      exact ⟨rfl, rfl⟩
  | succ n ih =>
    have hread := (readOffset_exact k).bind (fun first _ _ =>
      (ih first.2).settle (fun rest _ _ => Exact.pure (first.1 ::ᵥ rest.1, rest.2)))
    rw [readOffsets]
    apply hread.congr
    intro r w
    have count : ∀ (z : Int) (zs : List.Vector Int n),
        (if z = 0 then k else k + 1) + zs.toList.countP (· ≠ 0) =
          k + (z ::ᵥ zs).toList.countP (· ≠ 0) := by
      intro z zs
      rw [List.Vector.toList_cons, List.countP_cons]
      by_cases hz : z = 0
      · rw [if_pos hz, if_neg (by simp [hz]), Nat.add_zero]
      · rw [if_neg hz, if_pos (by simp [hz])]
        omega
    constructor
    · rintro ⟨_, _, _, ⟨z, hz, rfl, rfl⟩, ⟨_, ⟨zs, hzs, rfl, rfl⟩, rfl⟩, rfl⟩
      refine ⟨z ::ᵥ zs, ?_, ?_, ?_⟩
      · intro y hy
        rw [List.Vector.toList_cons] at hy
        rcases List.mem_cons.mp hy with rfl | hy
        · exact hz
        · exact hzs y hy
      · rw [List.Vector.toList_cons, List.flatMap_cons]
      · rw [List.Vector.map_cons, ← count]
    · rintro ⟨all, hall, rfl, rfl⟩
      obtain ⟨z, zs, rfl⟩ := List.Vector.exists_eq_cons all
      rw [List.Vector.toList_cons] at hall
      refine ⟨_, offsetBits z, _, ⟨z, hall z List.mem_cons_self, rfl, rfl⟩,
        ⟨_, ⟨zs, fun y hy => hall y (List.mem_cons_of_mem z hy), rfl, rfl⟩, ?_⟩, ?_⟩
      · rw [List.Vector.map_cons, ← count]
      · rw [List.Vector.toList_cons, List.flatMap_cons]

theorem readBandPosition_exact (t : UInt8) :
    Exact bitTape (readBandPosition t) (fun b w =>
      w = Bits.fixed (bandBits t.toNat) b.toNat ∧ b.toNat < 2 ^ bandBits t.toNat) := by
  have hread : readBandPosition t = BitReader.readBits (bandBits t.toNat) >>= u8TryFrom := by
    have hone : t = 1 ↔ t.toNat = 1 := UInt8.toNat_inj.symm
    rw [readBandPosition, bandBits]
    simp only [hone]
    split
    · rfl
    · rfl
  have hwidth := bandBits_le t.toNat
  have hpow : 2 ^ bandBits t.toNat ≤ 2 ^ 5 := Nat.pow_le_pow_right (by decide) hwidth
  rw [hread]
  apply ((BitReader.readBits_exact (by omega)).settle (fun value _ _ => u8TryFrom_exact value)).congr
  intro b w
  constructor
  · rintro ⟨value, ⟨hlen, hnum⟩, hsmall, rfl⟩
    have hlt := Bits.num_lt w
    have hnat : (UInt8.ofNat value.toNat).toNat = Bits.num w := by
      rw [UInt8.toNat_ofNat', Nat.mod_eq_of_lt hsmall, hnum]
    rw [hlen] at hlt
    rw [hnat, Bits.eq_fixed_iff hlt]
    exact ⟨⟨hlen, rfl⟩, hlt⟩
  · rintro ⟨hw, hlt⟩
    obtain ⟨hlen, hnum⟩ := (Bits.eq_fixed_iff hlt).mp hw
    have hnat : b.toUInt32.toNat = b.toNat := UInt8.toNat_toUInt32 b
    refine ⟨b.toUInt32, ⟨hlen, by rw [hnat, hnum]⟩, ?_, ?_⟩
    · rw [hnat]
      exact b.toNat_lt
    · rw [hnat, UInt8.ofNat_toNat]

theorem ctuAddress_eq (hint : UInt32) :
    (hint &&& 0xFFFF).toUInt16 = UInt16.ofNat (hint.toNat % 2 ^ 16) ∧
      ((hint >>> 16) &&& 0xFFFF).toUInt16 = UInt16.ofNat (hint.toNat / 2 ^ 16) := by
  have low : ∀ n : Nat, n &&& 0xFFFF = n % 2 ^ 16 := fun n => Nat.and_two_pow_sub_one_eq_mod n 16
  constructor
  · apply UInt16.toNat_inj.mp
    rw [UInt32.toNat_toUInt16, UInt32.toNat_and, UInt16.toNat_ofNat']
    change (hint.toNat &&& 0xFFFF) % 2 ^ 16 = _
    rw [low]
  · have hlt := hint.toNat_lt
    apply UInt16.toNat_inj.mp
    rw [UInt32.toNat_toUInt16, UInt32.toNat_and, UInt32.toNat_shiftRight, UInt16.toNat_ofNat']
    change (hint.toNat >>> 16 &&& 0xFFFF) % 2 ^ 16 = _
    rw [low, Nat.shiftRight_eq_div_pow]
    omega

/-- The tail of a candidate, once its type and offsets are known. -/
theorem bandTail_exact (t : UInt8) (make : UInt8 → SaoParameters) :
    Exact bitTape (readBandPosition t >>= fun band => pure (make band))
      (fun p w => ∃ band : UInt8, (w = Bits.fixed (bandBits t.toNat) band.toNat ∧
        band.toNat < 2 ^ bandBits t.toNat) ∧ p = make band) :=
  (readBandPosition_exact t).settle (fun band _ _ => Exact.pure (make band))

/-- The words of a candidate are the syntax, and its value is what the syntax says. -/
theorem saoCandidate_exact (preludeUeCount : Nat) (expectSaoFlag : Bool) :
    Exact bitTape (saoCandidate preludeUeCount expectSaoFlag)
      (fun p w => ∃ x : SaoSyntax preludeUeCount, w = x.bits expectSaoFlag ∧ p = x.parameters) := by
  have hread := (readPrelude_exact 0 preludeUeCount).bind (fun hint _ _ =>
    (readSaoFlag_exact expectSaoFlag).bind (fun _ _ _ =>
      readSaoTypeIdx_exact.bind (fun t _ _ =>
        (readOffsets_exact 0 4).bind (fun offsets _ _ =>
          Exact.refuse Stop.none (fun _ : ¬ offsets.2 = 0 => bandTail_exact t (fun band =>
            (⟨(hint &&& 0xFFFF).toUInt16, ((hint >>> 16) &&& 0xFFFF).toUInt16, t, band, offsets.1⟩ :
              SaoParameters)))))))
  apply hread.congr
  intro p w
  constructor
  · rintro ⟨hint, _, _, ⟨vs, hlen, hvs, rfl, hlast⟩, ⟨_, _, _, rfl, ⟨t, _, _, ⟨ht, rfl⟩,
      ⟨_, _, _, ⟨zs, hzs, rfl, rfl⟩, ⟨hsome, band, ⟨rfl, hband⟩, rfl⟩, rfl⟩, rfl⟩, rfl⟩, rfl⟩
    have nonzero : ∃ z ∈ zs.toList, z ≠ 0 := by
      have hcount : 0 < zs.toList.countP (· ≠ 0) := by
        change ¬ 0 + zs.toList.countP (· ≠ 0) = 0 at hsome
        omega
      obtain ⟨z, hz, hne⟩ := List.countP_pos_iff.mp hcount
      exact ⟨z, hz, of_decide_eq_true hne⟩
    refine ⟨⟨vs, t.toNat, zs, band.toNat, hlen, hvs, ht, hzs, nonzero, hband⟩, ?_, ?_⟩
    · simp only [SaoSyntax.bits, List.append_assoc]
    · have haddress : vs.getLast?.getD 0 = hint.toNat := hlast.symm
      rw [(ctuAddress_eq hint).1, (ctuAddress_eq hint).2]
      simp only [SaoSyntax.parameters, SaoSyntax.address, haddress, UInt8.ofNat_toNat]
  · rintro ⟨x, rfl, rfl⟩
    have hhint : (UInt32.ofNat x.address).toNat = x.address := by
      have hle := x.address_le
      rw [UInt32.toNat_ofNat', Nat.mod_eq_of_lt (by omega)]
    have hsome : ¬ 0 + x.offsets.toList.countP (· ≠ 0) = 0 := by
      obtain ⟨z, hz, hne⟩ := x.nonzero
      have hpos : 0 < x.offsets.toList.countP (· ≠ 0) :=
        List.countP_pos_iff.mpr ⟨z, hz, decide_eq_true hne⟩
      omega
    refine ⟨UInt32.ofNat x.address, x.prelude.flatMap Bits.ue, _,
      ⟨x.prelude, x.prelude_length, x.prelude_le, rfl, hhint⟩,
      ⟨(), _, _, rfl, ⟨UInt8.ofNat x.saoTypeIdx, Bits.ue x.saoTypeIdx, _, ?_,
        ⟨_, x.offsets.toList.flatMap offsetBits, _, ⟨x.offsets, x.offset_le, rfl, rfl⟩,
          ⟨hsome, UInt8.ofNat x.bandPosition, ⟨rfl, ?_⟩, ?_⟩, rfl⟩, rfl⟩, rfl⟩, ?_⟩
    · rw [x.saoTypeIdx_toNat]
      exact ⟨x.type, rfl⟩
    · rw [x.saoTypeIdx_toNat, x.bandPosition_toNat]
      exact x.band_lt
    · rw [(ctuAddress_eq _).1, (ctuAddress_eq _).2, hhint]
      rfl
    · rw [x.saoTypeIdx_toNat, x.bandPosition_toNat]
      simp only [SaoSyntax.bits, List.append_assoc]

theorem tryParseSaoCandidate_ok_iff :
    tryParseSaoCandidate rbsp startByte preludeUeCount expectSaoFlag = .ok p ↔
    ∃ x : SaoSyntax preludeUeCount,
      x.bits expectSaoFlag <+: (Bits.ofBytes rbsp).drop (startByte * 8) ∧ p = x.parameters := by
  have hread := saoCandidate_exact preludeUeCount expectSaoFlag ⟨rbsp, startByte * 8⟩ p
  rw [tryParseSaoCandidate]
  constructor
  · intro h
    cases hs : saoCandidate preludeUeCount expectSaoFlag ⟨rbsp, startByte * 8⟩ with
    | error e =>
      rw [hs] at h
      cases h
    | ok r =>
      rw [hs] at h
      cases h
      obtain ⟨w, ⟨x, rfl, hp⟩, hpre, _⟩ := (hread r.2).mp hs
      exact ⟨x, hpre, hp⟩
  · rintro ⟨x, hpre, hp⟩
    rw [(hread _).mpr ⟨_, ⟨x, rfl, hp⟩, hpre, rfl⟩]
    rfl

theorem readPrelude_never (hint : UInt32) (n : Nat) : Never .panicked (readPrelude hint n) := by
  induction n generalizing hint with
  | zero => exact Never.pure hint
  | succ n ih =>
    rw [readPrelude]
    apply BitReader.readUe_never.seq
    intro next
    exact Never.ite (fun _ => Never.throw (by decide)) (fun _ => ih next)

theorem readSaoFlag_never (expectSaoFlag : Bool) : Never .panicked (readSaoFlag expectSaoFlag) := by
  cases expectSaoFlag with
  | false => exact Never.pure ()
  | true =>
    apply BitReader.readBit_never.seq
    intro bit
    exact Never.ite (fun _ => Never.throw (by decide)) (fun _ => Never.pure ())

theorem u8TryFrom_never (value : UInt32) : Never .panicked (u8TryFrom value) :=
  Never.ite (fun _ => Never.pure _) (fun _ => Never.throw (by decide))

theorem i8TryFrom_never (value : UInt32) : Never .panicked (i8TryFrom value) :=
  Never.ite (fun _ => Never.pure _) (fun _ => Never.throw (by decide))

theorem readSaoTypeIdx_never : Never .panicked readSaoTypeIdx := by
  rw [readSaoTypeIdx]
  apply BitReader.readUe_never.seq
  intro value
  apply (u8TryFrom_never value).seq
  intro saoTypeIdx
  exact Never.ite (fun _ => Never.pure saoTypeIdx) (fun _ => Never.throw (by decide))

theorem readOffset_never (k : Nat) : Never .panicked (readOffset k) := by
  rw [readOffset]
  apply BitReader.readUe_never.seq
  intro magnitude
  apply Never.ite (fun _ => Never.throw (by decide))
  intro _
  apply Never.ite (fun _ => Never.pure _)
  intro _
  apply BitReader.readBit_never.seq
  intro sign
  exact (i8TryFrom_never magnitude).seq (fun _ => Never.pure _)

theorem readOffsets_never (k n : Nat) : Never .panicked (readOffsets k n) := by
  induction n generalizing k with
  | zero => exact Never.pure _
  | succ n ih =>
    rw [readOffsets]
    apply (readOffset_never k).seq
    intro first
    exact (ih first.2).seq (fun _ => Never.pure _)

theorem readBandPosition_never (t : UInt8) : Never .panicked (readBandPosition t) :=
  Never.ite (fun _ => (BitReader.readBits_never 5).seq u8TryFrom_never)
    (fun _ => (BitReader.readBits_never 2).seq u8TryFrom_never)

theorem saoCandidate_never (preludeUeCount : Nat) (expectSaoFlag : Bool) :
    Never .panicked (saoCandidate preludeUeCount expectSaoFlag) := by
  rw [saoCandidate]
  apply (readPrelude_never 0 preludeUeCount).seq
  intro hint
  apply (readSaoFlag_never expectSaoFlag).seq
  intro _
  apply readSaoTypeIdx_never.seq
  intro t
  apply (readOffsets_never 0 4).seq
  intro offsets
  apply Never.ite (fun _ => Never.throw (by decide))
  intro _
  exact (readBandPosition_never t).seq (fun _ => Never.pure _)

theorem tryParseSaoCandidate_never :
    tryParseSaoCandidate rbsp startByte preludeUeCount expectSaoFlag ≠ .error .panicked := by
  intro h
  rw [tryParseSaoCandidate] at h
  cases hs : saoCandidate preludeUeCount expectSaoFlag ⟨rbsp, startByte * 8⟩ with
  | error e =>
    rw [hs] at h
    cases h
    exact saoCandidate_never _ _ _ hs
  | ok r =>
    rw [hs] at h
    cases h

/-- A scan gives up, or it ends as one of its candidates does. -/
theorem firstSaoCandidate_cases (candidates : List (Nat × Nat × Bool)) :
    firstSaoCandidate rbsp candidates = .error .none ∨
      ∃ c ∈ candidates,
        firstSaoCandidate rbsp candidates = tryParseSaoCandidate rbsp c.1 c.2.1 c.2.2 := by
  induction candidates with
  | nil => exact .inl rfl
  | cons c rest ih =>
    unfold firstSaoCandidate
    split
    · rcases ih with hnone | ⟨d, hd, heq⟩
      · exact .inl hnone
      · exact .inr ⟨d, List.mem_cons_of_mem c hd, heq⟩
    · exact .inr ⟨c, List.mem_cons_self, rfl⟩

theorem extractSaoParameters_cases (nalUnit : Bytes) : extractSaoParameters nalUnit = .error .none ∨
    ∃ rbsp startByte preludeUeCount expectSaoFlag, extractSaoParameters nalUnit =
      tryParseSaoCandidate rbsp startByte preludeUeCount expectSaoFlag := by
  rw [extractSaoParameters]
  split
  · exact .inl rfl
  · split
    · exact .inl rfl
    · split
      · exact .inl rfl
      · dsimp only
        split
        · exact .inl rfl
        · rcases firstSaoCandidate_cases (saoCandidates _) with hnone | ⟨c, _, heq⟩
          · exact .inl hnone
          · exact .inr ⟨_, c.1, c.2.1, c.2.2, heq⟩

/-- What may be relied on in the parameters. -/
structure SaoParameters.InRange (p : SaoParameters) : Prop where
  type : p.saoTypeIdx = 1 ∨ p.saoTypeIdx = 2
  offset : ∀ o ∈ p.offset.toList, -7 ≤ o.toInt ∧ o.toInt ≤ 7
  nonzero : ∃ o ∈ p.offset.toList, o ≠ 0
  band_one : p.saoTypeIdx = 1 → p.bandPosition < 32
  band_two : p.saoTypeIdx = 2 → p.bandPosition < 4
  ctuY : p.ctuY ≤ 16

theorem SaoSyntax.parameters_inRange (x : SaoSyntax n) : x.parameters.InRange := by
  have htype : ∀ t : UInt8, x.saoTypeIdx = t.toNat ↔ x.parameters.saoTypeIdx = t := by
    intro t
    rw [← UInt8.toNat_inj, parameters, x.saoTypeIdx_toNat]
  have hoffset : ∀ z ∈ x.offsets.toList, (Int8.ofInt z).toInt = z := by
    intro z hz
    have hle := x.offset_le z hz
    exact Int8.toInt_ofInt_of_le (by omega) (by omega)
  constructor
  · exact x.type.imp (htype 1).mp (htype 2).mp
  · intro o ho
    rw [parameters, List.Vector.toList_map] at ho
    obtain ⟨z, hz, rfl⟩ := List.mem_map.mp ho
    have hle := x.offset_le z hz
    rw [hoffset z hz]
    omega
  · obtain ⟨z, hz, hne⟩ := x.nonzero
    refine ⟨Int8.ofInt z, ?_, ?_⟩
    · rw [parameters, List.Vector.toList_map]
      exact List.mem_map_of_mem hz
    · intro hzero
      apply hne
      rw [← hoffset z hz, hzero]
      rfl
  · intro h
    have hlt := x.band_lt
    rw [(htype 1).mpr h] at hlt
    rw [UInt8.lt_iff_toNat_lt, parameters, x.bandPosition_toNat]
    exact hlt
  · intro h
    have hlt := x.band_lt
    rw [(htype 2).mpr h] at hlt
    rw [UInt8.lt_iff_toNat_lt, parameters, x.bandPosition_toNat]
    exact hlt
  · have hle := x.address_le
    rw [UInt16.le_iff_toNat_le, parameters, UInt16.toNat_ofNat']
    change x.address / 2 ^ 16 % 2 ^ 16 ≤ 16
    omega

/-- The candidates the parser accepts are those of the syntax, with the values written there.
No NAL unit makes the scanner panic, and what it returns is in range. -/
theorem sao_parser_exact :
    (∀ (rbsp : Bytes) (startByte preludeUeCount : Nat) (expectSaoFlag : Bool),
      tryParseSaoCandidate rbsp startByte preludeUeCount expectSaoFlag ≠ .error .panicked ∧
      ∀ p, tryParseSaoCandidate rbsp startByte preludeUeCount expectSaoFlag = .ok p ↔
        ∃ x : SaoSyntax preludeUeCount,
          x.bits expectSaoFlag <+: (Bits.ofBytes rbsp).drop (startByte * 8) ∧ p = x.parameters) ∧
    ∀ nalUnit : Bytes, extractSaoParameters nalUnit ≠ .error .panicked ∧
      ∀ p, extractSaoParameters nalUnit = .ok p → p.InRange := by
  constructor
  · intro rbsp startByte preludeUeCount expectSaoFlag
    exact ⟨tryParseSaoCandidate_never, fun _ => tryParseSaoCandidate_ok_iff⟩
  · intro nalUnit
    rcases extractSaoParameters_cases nalUnit with hnone | ⟨rbsp, startByte, n, expectSaoFlag, heq⟩
    · rw [hnone]
      constructor
      · decide
      · intro p h
        cases h
    · rw [heq]
      refine ⟨tryParseSaoCandidate_never, fun p h => ?_⟩
      obtain ⟨x, _, rfl⟩ := tryParseSaoCandidate_ok_iff.mp h
      exact x.parameters_inRange

/-- A candidate as in the tests: band offset, band 5, offsets 1, -1, 0, 0. -/
theorem sao_parser_exact_test :
    (extractSaoParameters [0x02, 0x01, 0x48, 0xB9, 0x40] =
      .ok ⟨0, 0, 1, 5, ⟨[1, -1, 0, 0], rfl⟩⟩) ∧
    SaoParameters.InRange ⟨0, 0, 1, 5, ⟨[1, -1, 0, 0], rfl⟩⟩ := by
  have hok : extractSaoParameters [0x02, 0x01, 0x48, 0xB9, 0x40] =
      .ok ⟨0, 0, 1, 5, ⟨[1, -1, 0, 0], rfl⟩⟩ := by decide +kernel
  exact ⟨hok, (sao_parser_exact.2 _).2 _ hok⟩

end Sankaku
