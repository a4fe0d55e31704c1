import Sankaku.Lib.Bits
import Sankaku.Lib.Readers
import Sankaku.Model.Hevc

namespace Sankaku
open Readers

/-- The bits from the position on, most significant first in each byte. -/
def bitTape : Tape BitReader Bool where
  left r := (Bits.ofBytes r.data).drop r.bitPos
  advance r n := { r with bitPos := r.bitPos + n }
  left_advance r n := by rw [List.drop_drop]
  advance_zero r := rfl
  advance_add r m n := by rw [Nat.add_assoc]

theorem shifted_bit (byte : UInt8) (hk : k < 8) :
    (byte >>> UInt8.ofNat k) &&& 0x01 = (byte.toNat.testBit k).toUInt8 := by
  apply UInt8.toNat_inj.mp
  have hshift : (UInt8.ofNat k).toNat % 8 = k := by
    rw [UInt8.toNat_ofNat']
    omega
  rw [UInt8.toNat_and, UInt8.toNat_shiftRight, hshift]
  change byte.toNat >>> k &&& 1 = _
  rw [Nat.and_one_is_mod, Nat.shiftRight_eq_div_pow, ← Nat.toNat_testBit]
  cases byte.toNat.testBit k <;> rfl

namespace BitReader

theorem readBit_ok {r : BitReader} (h : r.bitPos < r.data.length * 8) :
    ∃ b rest, bitTape.left r = b :: rest ∧ r.readBit = .ok (b.toUInt8, bitTape.advance r 1) := by
  have hindex : r.bitPos / 8 < r.data.length := by omega
  have hbyte : r.data[r.bitPos / 8]? = some r.data[r.bitPos / 8] := List.getElem?_eq_getElem hindex
  refine ⟨_, _, Bits.drop_ofBytes hbyte, ?_⟩
  unfold readBit
  rw [if_neg (not_le.mpr h), hbyte]
  simp only
  rw [shifted_bit _ (by omega)]
  rfl

theorem readBit_past {r : BitReader} (h : ¬ r.bitPos < r.data.length * 8) :
    bitTape.left r = [] ∧ r.readBit = .error .none := by
  constructor
  · change (Bits.ofBytes r.data).drop r.bitPos = []
    rw [List.drop_of_length_le]
    rw [Bits.ofBytes_length]
    exact not_lt.mp h
  · unfold readBit
    rw [if_pos (not_lt.mp h)]

theorem readBit_exact : Exact bitTape readBit (fun b w => ∃ x : Bool, w = [x] ∧ b = x.toUInt8) := by
  intro r a r'
  by_cases h : r.bitPos < r.data.length * 8
  · obtain ⟨b, rest, hleft, hread⟩ := readBit_ok h
    rw [hread, hleft]
    constructor
    · intro heq
      cases heq
      exact ⟨[b], ⟨b, rfl, rfl⟩, List.prefix_append [b] rest, rfl⟩
    · rintro ⟨w, ⟨x, rfl, rfl⟩, hpre, rfl⟩
      rw [List.cons_prefix_cons] at hpre
      rw [hpre.1]
      rfl
  · obtain ⟨hleft, hread⟩ := readBit_past h
    rw [hread, hleft]
    constructor
    · intro heq
      cases heq
    · rintro ⟨w, ⟨x, rfl, _⟩, hpre, _⟩
      cases List.prefix_nil.mp hpre

theorem readBit_never : Never .panicked readBit := by
  intro r hr
  by_cases h : r.bitPos < r.data.length * 8
  · obtain ⟨b, rest, _, hread⟩ := readBit_ok h
    rw [hread] at hr
    cases hr
  · rw [(readBit_past h).2] at hr
    cases hr

/-- `(value << 1) | bit`, the top bit lost. -/
theorem shiftIn_toNat (value : UInt32) (x : Bool) :
    ((value <<< 1) ||| x.toUInt8.toUInt32).toNat = (value.toNat * 2 + x.toNat) % 2 ^ 32 := by
  have hbit : x.toUInt8.toUInt32.toNat = x.toNat := by cases x <;> rfl
  have hx : x.toNat < 2 ^ 1 := Nat.lt_succ_of_le (Bool.toNat_le x)
  have hshift : (value <<< 1).toNat = (value.toNat % 2 ^ 31) <<< 1 := by
    rw [UInt32.toNat_shiftLeft]
    change value.toNat <<< 1 % 2 ^ 32 = _
    rw [Nat.shiftLeft_eq, Nat.shiftLeft_eq]
    omega
  rw [UInt32.toNat_or, hbit, hshift, ← Nat.shiftLeft_add_eq_or_of_lt hx, Nat.shiftLeft_eq]
  omega

theorem readBitsLoop_exact (value : UInt32) (n : Nat) : Exact bitTape (readBitsLoop value n)
    (fun v w => w.length = n ∧ v.toNat = (value.toNat * 2 ^ n + Bits.num w) % 2 ^ 32) := by
  induction n generalizing value with
  | zero =>
    apply (Exact.pure value).congr
    intro v w
    rw [List.length_eq_zero_iff]
    constructor
    · rintro ⟨rfl, rfl⟩
      refine ⟨rfl, ?_⟩
      rw [Bits.num, Nat.pow_zero, Nat.mul_one, Nat.add_zero, Nat.mod_eq_of_lt v.toNat_lt]
    · rintro ⟨rfl, hv⟩
      rw [Bits.num, Nat.pow_zero, Nat.mul_one, Nat.add_zero, Nat.mod_eq_of_lt value.toNat_lt] at hv
      exact ⟨UInt32.toNat_inj.mp hv, rfl⟩
  | succ n ih =>
    have hloop := readBit_exact.bind (fun bit _ _ => ih ((value <<< 1) ||| bit.toUInt32))
    apply hloop.congr
    intro v w
    have step : ∀ (x : Bool) (u : List Bool), u.length = n →
        (((value <<< 1) ||| x.toUInt8.toUInt32).toNat * 2 ^ n + Bits.num u) % 2 ^ 32 =
          (value.toNat * 2 ^ (n + 1) + Bits.num (x :: u)) % 2 ^ 32 := by
      intro x u hu
      have hpow : 2 ^ (n + 1) = 2 * 2 ^ n := Nat.pow_succ'
      rw [shiftIn_toNat, Bits.num, hu, Nat.add_mod, Nat.mod_mul_mod, ← Nat.add_mod, Nat.add_mul,
        hpow, Nat.mul_assoc, Nat.add_assoc]
    constructor
    · rintro ⟨_, _, u, ⟨x, rfl, rfl⟩, ⟨hu, hv⟩, rfl⟩
      rw [step x u hu] at hv
      exact ⟨congrArg Nat.succ hu, hv⟩
    · rintro ⟨hw, hv⟩
      cases w with
      | nil => cases hw
      | cons x u =>
        have hu : u.length = n := Nat.succ.inj hw
        exact ⟨_, [x], u, ⟨x, rfl, rfl⟩, ⟨hu, by rw [step x u hu, hv]⟩, rfl⟩

/-- `n` bits are read as the number they denote, if there are as many. -/
theorem readBits_exact (hn : n ≤ 32) :
    Exact bitTape (readBits n) (fun v w => w.length = n ∧ v.toNat = Bits.num w) := by
  have hloop := (readBitsLoop_exact 0 n).congr (fun v w => by
    show _ ↔ w.length = n ∧ v.toNat = Bits.num w
    apply and_congr_right
    rintro rfl
    have hnum := Bits.num_lt w
    have hpow := Nat.pow_le_pow_right (n := 2) (by decide) hn
    rw [UInt32.toNat_zero, Nat.zero_mul, Nat.zero_add, Nat.mod_eq_of_lt (by omega)])
  intro r a r'
  by_cases hlen : r.bitsRemaining < n
  · have hread : readBits n r = .error .none := by
      unfold readBits
      rw [if_pos (.inr hlen)]
    rw [hread]
    constructor
    · intro h
      cases h
    · rintro ⟨w, ⟨rfl, _⟩, hpre, _⟩
      have hle := hpre.length_le
      change w.length ≤ ((Bits.ofBytes r.data).drop r.bitPos).length at hle
      rw [List.length_drop, Bits.ofBytes_length] at hle
      exact absurd hlen (not_lt.mpr hle)
  · have hread : readBits n r = readBitsLoop 0 n r := by
      unfold readBits
      rw [if_neg (not_or.mpr ⟨not_lt.mpr hn, hlen⟩)]
    rw [hread]
    exact hloop r a r'

theorem readBitsLoop_never (value : UInt32) (n : Nat) : Never .panicked (readBitsLoop value n) := by
  induction n generalizing value with
  | zero => exact Never.pure value
  | succ n ih => exact readBit_never.seq (fun _ => ih _)

theorem readBits_never (n : Nat) : Never .panicked (readBits n) := by
  intro r hr
  unfold readBits at hr
  split at hr
  · cases hr
  · exact readBitsLoop_never 0 n r hr

/-- From a count of at most 31 the loop goes on to the next one bit, past 31 zeros
it gives up. -/
theorem readUeZeros_exact (k : Nat) (hk : k ≤ 31) : Exact bitTape (readUeZeros k)
    (fun n w => ∃ j, w = List.replicate j false ++ [true] ∧ n = k + j ∧ n ≤ 31) := by
  induction hm : 31 - k using Nat.strong_induction_on generalizing k with
  | _ m ih =>
  have later : ∀ bit u, (∃ x : Bool, u = [x] ∧ bit = x.toUInt8) → Exact bitTape
      (if bit = 0 then
        if _h : k + 1 > 31 then throw Stop.none else readUeZeros (k + 1)
      else pure k : Scan Nat)
      (fun n w => if bit = 0 then ∃ j, w = List.replicate j false ++ [true] ∧ n = k + 1 + j ∧ n ≤ 31
        else n = k ∧ w = []) := by
    intro bit u _
    by_cases hbit : bit = 0
    · simp only [if_pos hbit]
      split
      · apply (Exact.throw Stop.none).congr
        intro n w
        constructor
        · exact False.elim
        · rintro ⟨j, _, _, _⟩
          omega
      · exact ih (31 - (k + 1)) (by omega) (k + 1) (by omega) rfl
    · simp only [if_neg hbit]
      exact Exact.pure k
  rw [readUeZeros]
  apply (readBit_exact.bind later).congr
  intro n w
  constructor
  · rintro ⟨_, _, v, ⟨x, rfl, rfl⟩, hv, rfl⟩
    cases x with
    | false =>
      obtain ⟨j, rfl, hn, hle⟩ := hv
      exact ⟨j + 1, rfl, by omega, hle⟩
    | true =>
      obtain ⟨rfl, rfl⟩ := hv
      exact ⟨0, rfl, rfl, hk⟩
  · rintro ⟨j, rfl, hn, hle⟩
    cases j with
    | zero => exact ⟨_, [true], [], ⟨true, rfl, rfl⟩, ⟨hn, rfl⟩, rfl⟩
    | succ j =>
      exact ⟨_, [false], List.replicate j false ++ [true], ⟨false, rfl, rfl⟩,
        ⟨j, rfl, by omega, hle⟩, rfl⟩

theorem readUeZeros_never (k : Nat) : Never .panicked (readUeZeros k) := by
  induction hm : 32 - k using Nat.strong_induction_on generalizing k with
  | _ m ih =>
  rw [readUeZeros]
  apply readBit_never.bind
  intro bit s s' _ h
  split at h
  · split at h
    · cases h
    · exact ih (32 - (k + 1)) (by omega) (k + 1) rfl s' h
  · cases h

/-- `((1u32 << n) - 1) + suffix` stays within 32 bits. -/
theorem ueValue_eq (hn : n ≤ 31) (hs : suffix.toNat < 2 ^ n) :
    ∃ v, (checkedShlOne n).bind (fun one => (checkedSub32 one 1).bind
      (fun base => checkedAdd32 base suffix)) = some v ∧ v.toNat + 1 = 2 ^ n + suffix.toNat := by
  have hpow : 2 ^ n ≤ 2 ^ 31 := Nat.pow_le_pow_right (by decide) hn
  have hpos : 1 ≤ 2 ^ n := Nat.one_le_two_pow
  have hone : (UInt32.ofNat (2 ^ n)).toNat = 2 ^ n := by
    rw [UInt32.toNat_ofNat', Nat.mod_eq_of_lt (by omega)]
  have hle : (1 : UInt32) ≤ UInt32.ofNat (2 ^ n) := by
    rw [UInt32.le_iff_toNat_le, hone]
    exact hpos
  have hbase : (UInt32.ofNat (2 ^ n) - 1).toNat = 2 ^ n - 1 := by
    rw [UInt32.toNat_sub_of_le _ _ hle, hone]
    rfl
  have hsum : (UInt32.ofNat (2 ^ n) - 1).toNat + suffix.toNat < 2 ^ 32 := by
    rw [hbase]
    omega
  refine ⟨UInt32.ofNat (2 ^ n) - 1 + suffix, ?_, ?_⟩
  · rw [checkedShlOne, if_pos (by omega), Option.bind_some, checkedSub32, if_pos hle,
      Option.bind_some, checkedAdd32, if_pos hsum]
  · rw [UInt32.toNat_add, Nat.mod_eq_of_lt hsum, hbase]
    omega

theorem ueSuffix_exact (hn : n ≤ 31) : Exact bitTape
    (do
      let suffix ← readBits n
      orPanic ((checkedShlOne n).bind (fun one =>
        (checkedSub32 one 1).bind (fun base => checkedAdd32 base suffix))) : Scan UInt32)
    (fun v s => s.length = n ∧ v.toNat + 1 = 2 ^ n + Bits.num s) := by
  have later : ∀ (suffix : UInt32) s, (s.length = n ∧ suffix.toNat = Bits.num s) → Exact bitTape
      (orPanic ((checkedShlOne n).bind (fun one =>
        (checkedSub32 one 1).bind (fun base => checkedAdd32 base suffix))))
      (fun v t => v.toNat + 1 = 2 ^ n + suffix.toNat ∧ t = []) := by
    rintro suffix s ⟨hlen, hnum⟩
    have hlt : suffix.toNat < 2 ^ n := by
      rw [hnum, ← hlen]
      exact Bits.num_lt s
    obtain ⟨v₀, hv₀, hvalue⟩ := ueValue_eq hn hlt
    rw [hv₀]
    apply (Exact.pure v₀).congr
    intro v t
    apply and_congr_left
    intro _
    constructor
    · rintro rfl
      exact hvalue
    · intro hv
      apply UInt32.toNat_inj.mp
      omega
  apply ((readBits_exact (by omega)).settle later).congr
  intro v w
  constructor
  · rintro ⟨suffix, ⟨hlen, hnum⟩, hv⟩
    rw [← hnum]
    exact ⟨hlen, hv⟩
  · rintro ⟨hlen, hv⟩
    have hnum := Bits.num_lt w
    have hpow : 2 ^ n ≤ 2 ^ 31 := Nat.pow_le_pow_right (by decide) hn
    have hsuffix : (UInt32.ofNat (Bits.num w)).toNat = Bits.num w := by
      rw [hlen] at hnum
      rw [UInt32.toNat_ofNat', Nat.mod_eq_of_lt (by omega)]
    exact ⟨_, ⟨hlen, hsuffix⟩, by rw [hsuffix, hv]⟩

/-- The codewords of the numbers below `2^32 - 1`, spelled out. -/
theorem readUe_word {v : UInt32} {w : List Bool} : (w = Bits.ue v.toNat ∧ v.toNat + 1 < 2 ^ 32) ↔
    ∃ s : List Bool, s.length ≤ 31 ∧ w = List.replicate s.length false ++ true :: s ∧
      v.toNat = 2 ^ s.length - 1 + Bits.num s := by
  rw [Bits.eq_ue_iff]
  constructor
  · rintro ⟨⟨s, rfl, hv⟩, hlt⟩
    have hpos : 1 ≤ 2 ^ s.length := Nat.one_le_two_pow
    refine ⟨s, ?_, rfl, by omega⟩
    by_contra hlong
    have hpow := Nat.pow_le_pow_right (n := 2) (by decide) (Nat.lt_of_not_le hlong)
    change 2 ^ 32 ≤ _ at hpow
    omega
  · rintro ⟨s, hlen, rfl, hv⟩
    have hnum := Bits.num_lt s
    have hpos : 1 ≤ 2 ^ s.length := Nat.one_le_two_pow
    have hpow : 2 ^ s.length ≤ 2 ^ 31 := Nat.pow_le_pow_right (by decide) hlen
    exact ⟨⟨s, rfl, by omega⟩, by omega⟩

/-- The words of `read_ue` are the codewords of the numbers below `2^32 - 1`. -/
theorem readUe_exact :
    Exact bitTape readUe (fun v w => w = Bits.ue v.toNat ∧ v.toNat + 1 < 2 ^ 32) := by
  have later : ∀ n u, (∃ j, u = List.replicate j false ++ [true] ∧ n = 0 + j ∧ n ≤ 31) →
      Exact bitTape
        (if n = 0 then pure 0
        else do
          let suffix ← readBits n
          orPanic ((checkedShlOne n).bind (fun one =>
            (checkedSub32 one 1).bind (fun base => checkedAdd32 base suffix))) : Scan UInt32)
        (fun v s => s.length = n ∧ v.toNat + 1 = 2 ^ n + Bits.num s) := by
    rintro n u ⟨_, _, _, hn⟩
    split
    · rename_i hzero
      subst hzero
      apply (Exact.pure 0).congr
      intro v s
      rw [List.length_eq_zero_iff]
      constructor
      · rintro ⟨rfl, rfl⟩
        exact ⟨rfl, rfl⟩
      · rintro ⟨rfl, hv⟩
        refine ⟨UInt32.toNat_inj.mp ?_, rfl⟩
        rw [Bits.num, Nat.pow_zero] at hv
        exact Nat.succ.inj hv
    · exact ueSuffix_exact hn
  rw [readUe]
  apply ((readUeZeros_exact 0 (by decide)).bind later).congr
  intro v w
  rw [readUe_word]
  constructor
  · rintro ⟨n, _, s, ⟨j, rfl, hj, hn⟩, ⟨rfl, hv⟩, rfl⟩
    have hlen : j = s.length := by omega
    have hpos : 1 ≤ 2 ^ s.length := Nat.one_le_two_pow
    refine ⟨s, hn, ?_, by omega⟩
    rw [hlen, List.append_assoc]
    rfl
  · rintro ⟨s, hn, rfl, hv⟩
    have hpos : 1 ≤ 2 ^ s.length := Nat.one_le_two_pow
    exact ⟨s.length, List.replicate s.length false ++ [true], s,
      ⟨s.length, rfl, (Nat.zero_add _).symm, hn⟩, ⟨rfl, by omega⟩, by rw [List.append_assoc]; rfl⟩

/-- Every computation on the way stays within its width. -/
theorem readUe_never : Never .panicked readUe := by
  rw [readUe]
  apply (readUeZeros_never 0).bind
  intro n r r' hzeros h
  obtain ⟨_, ⟨_, _, _, hn⟩, _⟩ := (readUeZeros_exact 0 (by decide) r n r').mp hzeros
  split at h
  · cases h
  · refine (readBits_never n).bind (fun suffix s s' hs => ?_) r' h
    obtain ⟨w, ⟨hlen, hnum⟩, _⟩ := (readBits_exact (by omega) s suffix s').mp hs
    have hlt : suffix.toNat < 2 ^ n := by
      rw [hnum, ← hlen]
      exact Bits.num_lt w
    obtain ⟨v, hv, _⟩ := ueValue_eq hn hlt
    rw [hv]
    exact Never.pure v s'

/-- Several values, one after another. -/
def readUes : Nat → Scan (List UInt32)
  | 0 => pure []
  | n + 1 => do
    let v ← readUe
    let vs ← readUes n
    pure (v :: vs)

theorem readUes_exact (n : Nat) : Exact bitTape (readUes n)
    (fun vs w => vs.length = n ∧ (∀ v ∈ vs, v.toNat + 1 < 2 ^ 32) ∧
      w = vs.flatMap (fun v => Bits.ue v.toNat)) := by
  induction n with
  | zero =>
    apply (Exact.pure []).congr
    intro vs w
    constructor
    · rintro ⟨rfl, rfl⟩
      exact ⟨rfl, by simp, rfl⟩
    · rintro ⟨hlen, _, rfl⟩
      rw [List.length_eq_zero_iff] at hlen
      subst hlen
      exact ⟨rfl, rfl⟩
  | succ n ih =>
    rw [readUes]
    apply (readUe_exact.bind (fun v _ _ => ih.settle (fun vs _ _ => Exact.pure (v :: vs)))).congr
    intro all w
    constructor
    · rintro ⟨v, _, _, ⟨rfl, hv⟩, ⟨vs, ⟨hlen, hvs, rfl⟩, rfl⟩, rfl⟩
      exact ⟨congrArg Nat.succ hlen, List.forall_mem_cons.mpr ⟨hv, hvs⟩, rfl⟩
    · rintro ⟨hlen, hall, rfl⟩
      cases all with
      | nil => cases hlen
      | cons v vs =>
        obtain ⟨hv, hvs⟩ := List.forall_mem_cons.mp hall
        exact ⟨v, _, _, ⟨rfl, hv⟩, ⟨vs, ⟨Nat.succ.inj hlen, hvs, rfl⟩, rfl⟩, rfl⟩

/-- `read_ue` takes at most 31 zeros, a one, and as many bits as there were zeros, and
moves past them. It overflows nowhere. What was written as codewords reads back, at any
offset and before any bits. -/
theorem exp_golomb_exact :
    (∀ (data : Bytes) (bitPos : Nat), readUe ⟨data, bitPos⟩ ≠ .error .panicked ∧
      ∀ v r, readUe ⟨data, bitPos⟩ = .ok (v, r) ↔ ∃ s : List Bool, s.length ≤ 31 ∧
        List.replicate s.length false ++ true :: s <+: (Bits.ofBytes data).drop bitPos ∧
        v.toNat = 2 ^ s.length - 1 + Bits.num s ∧ r = ⟨data, bitPos + (2 * s.length + 1)⟩) ∧
    ∀ (data : Bytes) (before after : List Bool) (vs : List UInt32),
      (∀ v ∈ vs, v.toNat ≤ 2 ^ 32 - 2) →
      Bits.ofBytes data = before ++ vs.flatMap (fun v => Bits.ue v.toNat) ++ after →
      readUes vs.length ⟨data, before.length⟩ = .ok (vs,
        ⟨data, before.length + (vs.flatMap (fun v => Bits.ue v.toNat)).length⟩) := by
  constructor
  · intro data bitPos
    refine ⟨readUe_never _, fun v r => (readUe_exact _ v r).trans ?_⟩
    have hlen : ∀ s : List Bool, (List.replicate s.length false ++ true :: s).length =
        2 * s.length + 1 := by
      intro s
      rw [List.length_append, List.length_replicate, List.length_cons]
      omega
    constructor
    · rintro ⟨w, hw, hpre, rfl⟩
      obtain ⟨s, hs, rfl, hv⟩ := readUe_word.mp hw
      exact ⟨s, hs, hpre, hv, by rw [← hlen]; rfl⟩
    · rintro ⟨s, hs, hpre, hv, rfl⟩
      exact ⟨_, readUe_word.mpr ⟨s, hs, rfl, hv⟩, hpre, by rw [hlen]; rfl⟩
  · intro data before after vs hvs hdata
    refine (readUes_exact vs.length _ vs _).mpr ⟨_, ⟨rfl, ?_, rfl⟩, ?_, rfl⟩
    · intro v hv
      have hle := hvs v hv
      omega
    · change _ <+: (Bits.ofBytes data).drop before.length
      rw [hdata, List.append_assoc, List.drop_left]
      exact List.prefix_append _ after

/-- The values of the tests, after a one bit. -/
theorem exp_golomb_exact_tests :
    readUes 3 ⟨[0xD3, 0x00], 1⟩ = .ok ([0, 1, 2], ⟨[0xD3, 0x00], 8⟩) :=
  exp_golomb_exact.2 [0xD3, 0x00] [true] (List.replicate 8 false) [0, 1, 2] (by simp)
    (by decide +kernel)

end BitReader

end Sankaku
