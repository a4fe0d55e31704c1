import Sankaku.Lib.LogTable
import Sankaku.Lib.Bits
import Sankaku.Model.Gf256
import Mathlib.Data.LawfulXor.Basic
import Mathlib.Data.Nat.Bitwise
import Mathlib.Tactic.NormNum.Prime

namespace Sankaku
open LogTable

theorem gf256PolyInit_mem (polynomialIndex : Int) :
    gf256PolyInit polynomialIndex ∈ gf256GenPoly.map (fun g => g.toNat <<< 1 ||| 1) := by
  simp only [gf256PolyInit]
  split
  · decide
  · rename_i h
    have hlt : polynomialIndex.toNat < gf256GenPoly.length := by omega
    rw [List.getD_eq_getElem _ _ hlt]
    exact List.mem_map.mpr ⟨_, List.getElem_mem hlt, rfl⟩

theorem toNat_ge_128_iff (a : UInt8) : 128 ≤ a.toNat ↔ a.toNat.testBit 7 = true := by
  have := a.toNat_lt
  rw [Nat.testBit_eq_decide_div_mod_eq, decide_eq_true_eq]
  omega

/-- One step is a shift, and the polynomial's low byte where a bit fell out. -/
theorem nextExp_eq (poly : Nat) (a : UInt8) :
    nextExp poly a = UInt8.ofNat (a.toNat <<< 1) ^^^
      (if a.toNat.testBit 7 then UInt8.ofNat poly else 0) := by
  have hshift : a.toNat * 2 = a.toNat <<< 1 := by rw [Nat.shiftLeft_eq, Nat.pow_one]
  have hiff := toNat_ge_128_iff a
  simp only [nextExp, hshift]
  cases hbit : a.toNat.testBit 7 with
  | false =>
    rw [if_neg (by rw [← hshift]; simp [hbit] at hiff; omega)]
    simp
  | true =>
    rw [if_pos (by rw [← hshift]; simp [hbit] at hiff; omega)]
    simp

theorem nextExp_xor (poly : Nat) (a b : UInt8) :
    nextExp poly (a ^^^ b) = nextExp poly a ^^^ nextExp poly b := by
  simp only [nextExp_eq, UInt8.toNat_xor, Nat.shiftLeft_xor_distrib, UInt8.ofNat_xor,
    Nat.testBit_xor]
  cases a.toNat.testBit 7 <;> cases b.toNat.testBit 7 <;>
    simp only [bne_self_eq_false, Bool.true_bne, Bool.bne_true, Bool.not_false, if_true, if_false,
      Bool.false_eq_true, xor_zero]
  · ac_rfl
  · ac_rfl
  · rw [show ∀ u v p : UInt8, (u ^^^ p) ^^^ (v ^^^ p) = (u ^^^ v) ^^^ (p ^^^ p) by intros; ac_rfl,
      UInt8.xor_self, xor_zero]

theorem nextExp_zero (poly : Nat) : nextExp poly 0 = 0 := rfl

theorem nextExp_of_lt (h : a.toNat < 128) : nextExp poly a = UInt8.ofNat (a.toNat * 2) := by
  rw [nextExp, if_neg (by omega)]

/-- 255 is the length of the cycle and none of its largest divisors is. -/
def Primitive (poly : Nat) : Prop :=
  (nextExp poly)^[255] 1 = 1 ∧ (nextExp poly)^[85] 1 ≠ 1 ∧ (nextExp poly)^[51] 1 ≠ 1 ∧
    (nextExp poly)^[15] 1 ≠ 1

instance (poly : Nat) : Decidable (Primitive poly) :=
  inferInstanceAs (Decidable (_ ∧ _ ∧ _ ∧ _))

/-- Every polynomial of the table is primitive. -/
theorem genPoly_primitive :
    ∀ poly ∈ gf256GenPoly.map (fun g => g.toNat <<< 1 ||| 1), Primitive poly := by
  decide +kernel

def expPowers (poly : Nat) (h : Primitive poly) : Powers UInt8 where
  add := (· ^^^ ·)
  zero := 0
  one := 1
  step := nextExp poly
  order := 255
  add_zero := rfl
  step_add := nextExp_xor poly
  step_zero := nextExp_zero poly
  one_ne := by decide
  order_pos := by decide
  period := h.1

theorem expPowers_faithful (h : Primitive poly) : (expPowers poly h).Faithful := by
  obtain ⟨_, h85, h51, h15⟩ := id h
  apply Powers.faithful_of_prime
  intro p hp hdvd
  have hfactors : p ∣ 3 * 5 * 17 := hdvd
  rw [hp.dvd_mul, hp.dvd_mul] at hfactors
  rcases hfactors with (h3 | h5) | h17
  · rw [(Nat.prime_dvd_prime_iff_eq hp (by decide)).mp h3]
    simpa only [Powers.pow, expPowers, Nat.reduceDiv] using h85
  · rw [(Nat.prime_dvd_prime_iff_eq hp (by decide)).mp h5]
    simpa only [Powers.pow, expPowers, Nat.reduceDiv] using h51
  · rw [(Nat.prime_dvd_prime_iff_eq hp (by norm_num)).mp h17]
    simpa only [Powers.pow, expPowers, Nat.reduceDiv] using h15

/-- After `jj` turns the exponents up to `jj` are entered. -/
theorem explogLoop_exptab (poly : Nat) (hj : j ≤ jj) :
    (explogLoop poly jj).exptab j = (nextExp poly)^[j] 1 := by
  induction jj generalizing j with
  | zero =>
    rw [Nat.le_zero.mp hj]
    rfl
  | succ jj ih =>
    simp only [explogLoop]
    rcases Nat.lt_or_eq_of_le hj with hlt | rfl
    · rw [Function.update_of_ne (by omega), ih (by omega)]
    · rw [Function.update_self, ih (Nat.le_refl jj), Function.iterate_succ_apply']

/-- A logarithm entered is not written again as long as the powers are distinct. -/
theorem explogLoop_logtab (h : Primitive poly) (hjj : jj < 255) (hpos : 0 < j) (hj : j ≤ jj) :
    (explogLoop poly jj).logtab ((nextExp poly)^[j] 1) = j := by
  induction jj with
  | zero => omega
  | succ jj ih =>
    simp only [explogLoop, explogLoop_exptab poly (Nat.le_refl jj),
      ← Function.iterate_succ_apply' (nextExp poly)]
    rcases Nat.lt_or_eq_of_le hj with hlt | rfl
    · rw [Function.update_of_ne, ih (by omega) (by omega)]
      intro heq
      have := (expPowers_faithful h).pow_inj (m := j) (n := jj + 1) (show j < 255 by omega) hjj heq
      omega
    · rw [Function.update_self]

theorem explogInit_exptab (h : Primitive poly) (hn : n ≤ 2 * 255) :
    (gf256ExplogInit poly).exptab n = (nextExp poly)^[n] 1 := by
  have hmod : (nextExp poly)^[n % 255] 1 = (nextExp poly)^[n] 1 := (expPowers poly h).pow_mod n
  simp only [gf256ExplogInit]
  split
  · have := Nat.mod_lt n (show 0 < 255 by decide)
    rw [explogLoop_exptab poly (by omega), hmod]
  · rw [if_pos (by omega), show n = 2 * 255 by omega]
    exact ((expPowers poly h).pow_mul_order 2).symm

def byteFin : UInt8 ≃ Fin 256 where
  toFun := UInt8.toFin
  invFun := UInt8.ofFin
  left_inv _ := rfl
  right_inv _ := rfl

/-- Every nonzero byte is a power with an exponent from 1 to 255, and that is
its logarithm. -/
theorem explogInit_logtab (h : Primitive poly) (ha : a ≠ 0) :
    0 < (gf256ExplogInit poly).logtab a ∧ (gf256ExplogInit poly).logtab a ≤ 255 ∧
      (nextExp poly)^[(gf256ExplogInit poly).logtab a] 1 = a := by
  obtain ⟨n, hn, rfl⟩ := (expPowers_faithful h).reaches byteFin ha
  simp only [gf256ExplogInit, explogLoop_exptab poly (Nat.zero_le 254), Function.iterate_zero_apply]
  rcases Nat.eq_zero_or_pos n with rfl | hpos
  · have hone : (expPowers poly h).pow 0 = 1 := rfl
    rw [hone, Function.update_self]
    exact ⟨by decide, by decide, h.1⟩
  · rw [Function.update_of_ne]
    · have hlog : (explogLoop poly 254).logtab ((expPowers poly h).pow n) = n :=
        explogLoop_logtab h (by decide) hpos (Nat.le_of_lt_succ hn)
      rw [hlog]
      exact ⟨hpos, Nat.le_of_lt hn, rfl⟩
    · intro heq
      have := (expPowers_faithful h).pow_inj (m := n) (n := 0) hn (show 0 < 255 by decide) heq
      omega

def expGenerator (poly : Nat) (h : Primitive poly) : Generator UInt8 where
  toPowers := expPowers poly h
  log := (gf256ExplogInit poly).logtab
  log_le := fun _ ha => (explogInit_logtab h ha).2.1
  pow_log := fun _ ha => (explogInit_logtab h ha).2.2

theorem mulEntry_eq (h : Primitive poly) (x y : UInt8) :
    mulEntry (gf256ExplogInit poly) y x = (expGenerator poly h).mul x y := by
  simp only [mulEntry]
  split
  · rename_i hz
    rcases hz with rfl | rfl
    · exact ((expGenerator poly h).mul_zero x).symm
    · exact ((expGenerator poly h).zero_mul y).symm
  · rename_i hz
    obtain ⟨hy, hx⟩ := not_or.mp hz
    have hlx := explogInit_logtab h hx
    have hly := explogInit_logtab h hy
    rw [(expGenerator poly h).mul_of_ne hx hy, Nat.mod_eq_of_lt (by omega),
      explogInit_exptab h (by omega)]
    simp only [Powers.pow, expGenerator, expPowers]

theorem divEntry_eq (h : Primitive poly) (x y : UInt8) :
    divEntry (gf256ExplogInit poly) y x = (expGenerator poly h).div x y := by
  simp only [divEntry]
  split
  · rename_i hz
    rcases hz with rfl | rfl
    · exact ((expGenerator poly h).div_zero x).symm
    · exact ((expGenerator poly h).zero_div y).symm
  · rename_i hz
    obtain ⟨hy, hx⟩ := not_or.mp hz
    have hlx := explogInit_logtab h hx
    have hly := explogInit_logtab h hy
    rw [(expGenerator poly h).div_of_ne hx hy, Nat.mod_eq_of_lt (by omega),
      explogInit_exptab h (by omega)]
    simp only [Powers.pow, expGenerator, expPowers]

/-- `x * y` as polynomials over GF(2) modulo `poly`, bit by bit from the top of
`y`. -/
def polyMulMod (poly : Nat) (x y : UInt8) : UInt8 :=
  (Bits.fixed 8 y.toNat).foldl (fun acc bit => nextExp poly acc ^^^ (if bit then x else 0)) 0

/-- The tables compute the product of polynomials modulo `c.polynomial`, and
all of them agree with it. -/
structure Gf256Ctx.IsField (c : Gf256Ctx) : Prop where
  product : ∀ x y, c.mul x y = polyMulMod c.polynomial x y
  comm : ∀ x y, c.mul x y = c.mul y x
  assoc : ∀ x y z, c.mul (c.mul x y) z = c.mul x (c.mul y z)
  one : ∀ x, c.mul x 1 = x
  distrib : ∀ x y z, c.mul (x ^^^ y) z = c.mul x z ^^^ c.mul y z
  quotient : ∀ x y z, y ≠ 0 → (z = c.div x y ↔ c.mul z y = x)
  inverse : ∀ x, x ≠ 0 → c.mul x (c.inv x) = 1
  square : ∀ x, c.sqr x = c.mul x x

/-- Doubling and adding the next bit appends it to a number of few bits. -/
theorem nextExp_append (poly : Nat) (bit : Bool) (hn : n < 128) :
    nextExp poly (UInt8.ofNat n) ^^^ (if bit then 1 else 0) = UInt8.ofNat (2 * n + bit.toNat) := by
  have hto : (UInt8.ofNat n).toNat = n := by
    rw [UInt8.toNat_ofNat', Nat.mod_eq_of_lt (by omega)]
  rw [nextExp_of_lt (by omega), hto]
  cases bit with
  | false =>
    rw [Nat.mul_comm]
    exact UInt8.xor_zero
  | true =>
    have hor : 2 * n ^^^ 1 = 2 * n + 1 := Nat.xor_one_of_even (even_two_mul n)
    rw [Bool.toNat_true, ← hor, UInt8.ofNat_xor, Nat.mul_comm]
    rfl

/-- What is accumulated is `x` times the bits taken so far. -/
theorem polyMulMod_run (h : Primitive poly) (x : UInt8) {w : List Bool} (hw : w.length ≤ 8) :
    w.foldl (fun acc bit => nextExp poly acc ^^^ (if bit then x else 0)) 0 =
      (expGenerator poly h).mul x (UInt8.ofNat (Bits.num w)) := by
  induction w using List.reverseRecOn with
  | nil => exact ((expGenerator poly h).mul_zero x).symm
  | append_singleton w bit ih =>
    rw [List.length_append, List.length_singleton] at hw
    have hlt : Bits.num w < 128 :=
      Nat.lt_of_lt_of_le (Bits.num_lt w) (Nat.pow_le_pow_right (n := 2) (by decide) (by omega : _ ≤ 7))
    have hstep : (expGenerator poly h).step = nextExp poly := rfl
    have hadd : (expGenerator poly h).add = (· ^^^ ·) := rfl
    have hone : (expGenerator poly h).one = 1 := rfl
    have hzero : (expGenerator poly h).zero = 0 := rfl
    have hbit : (if bit then x else 0) = (expGenerator poly h).mul x (if bit then 1 else 0) := by
      cases bit
      · exact ((expGenerator poly h).mul_zero x).symm
      · exact ((expGenerator poly h).mul_one x).symm
    have hdistrib := (expGenerator poly h).mul_add x (nextExp poly (UInt8.ofNat (Bits.num w)))
      (if bit then 1 else 0)
    rw [hadd] at hdistrib
    rw [List.foldl_append, List.foldl_cons, List.foldl_nil, ih (by omega), Bits.num_concat,
      ← nextExp_append poly bit hlt, hbit, ← hstep, ← Generator.mul_step]
    exact hdistrib.symm

theorem polyMulMod_eq (h : Primitive poly) (x y : UInt8) :
    polyMulMod poly x y = (expGenerator poly h).mul x y := by
  rw [polyMulMod, polyMulMod_run h x (by rw [Bits.fixed_length]), Bits.num_fixed,
    Nat.mod_eq_of_lt y.toNat_lt, UInt8.ofNat_toNat]

/-- Whichever polynomial is asked for, the tables are those of a field of 256
elements. -/
theorem gf256Init_isField (polynomialIndex : Int) : (gf256Init polynomialIndex).IsField := by
  have h := genPoly_primitive _ (gf256PolyInit_mem polynomialIndex)
  let G := expGenerator (gf256PolyInit polynomialIndex) h
  have hmul : ∀ x y, (gf256Init polynomialIndex).mul x y = G.mul x y := fun x y => mulEntry_eq h x y
  have hdiv : ∀ x y, (gf256Init polynomialIndex).div x y = G.div x y := fun x y => divEntry_eq h x y
  refine ⟨fun x y => ?_, fun x y => ?_, fun x y z => ?_, fun x => ?_, fun x y z => ?_,
    fun x y z hy => ?_, fun x hx => ?_, fun _ => rfl⟩
  · rw [hmul]
    exact (polyMulMod_eq h x y).symm
  · rw [hmul, hmul, G.mul_comm]
  · simp only [hmul, G.mul_assoc]
  · rw [hmul]
    exact G.mul_one x
  · simp only [hmul]
    exact G.add_mul x y z
  · rw [hmul, hdiv]
    exact G.eq_div_iff hy x z
  · have hinv : (gf256Init polynomialIndex).inv x = G.div 1 x := divEntry_eq h 1 x
    rw [hmul, hinv, G.mul_comm]
    exact G.div_mul_cancel hx 1

end Sankaku
