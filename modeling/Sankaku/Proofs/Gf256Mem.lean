import Sankaku.Proofs.Gf256

namespace Sankaku
open LittleEndian Strides

/-- Words are xored byte by byte. -/
theorem toLE_xor {xs ys : Bytes} (h : xs.length = ys.length) :
    toLE xs.length (ofLE xs ^^^ ofLE ys) = List.zipWith (· ^^^ ·) xs ys := by
  induction xs generalizing ys with
  | nil =>
    cases ys
    · rfl
    · cases h
  | cons x xs ih =>
    cases ys with
    | nil => cases h
    | cons y ys =>
      have hx := x.toNat_lt
      have hy := y.toNat_lt
      have hlow : (x.toNat + 256 * ofLE xs ^^^ y.toNat + 256 * ofLE ys) % 2 ^ 8 =
          (x ^^^ y).toNat := by
        rw [Nat.xor_mod_two_pow, UInt8.toNat_xor, Nat.add_mul_mod_self_left,
          Nat.add_mul_mod_self_left, Nat.mod_eq_of_lt hx, Nat.mod_eq_of_lt hy]
      have hrest : (x.toNat + 256 * ofLE xs ^^^ y.toNat + 256 * ofLE ys) / 2 ^ 8 =
          ofLE xs ^^^ ofLE ys := by
        rw [Nat.xor_div_two_pow]
        congr 1 <;> omega
      rw [List.length_cons, ofLE, ofLE, toLE, List.zipWith_cons_cons, ← ih (Nat.succ.inj h)]
      refine List.cons_eq_cons.mpr ⟨?_, congrArg (toLE xs.length) hrest⟩
      exact (congrArg UInt8.ofNat hlow).trans (UInt8.ofNat_toNat)

/-- Of the bits that a lane shift moves across bytes, the mask keeps none. -/
theorem toLE_shift_masked (x : Bytes) :
    andMask 0x0f (toLE x.length (ofLE x >>> 4)) = vshrqU8 x := by
  induction x with
  | nil => rfl
  | cons b bs ih =>
    have hb := b.toNat_lt
    have hhead : UInt8.ofNat ((b.toNat + 256 * ofLE bs) >>> 4 % 256) &&& (0x0f : UInt8) = b >>> 4 := by
      rw [← UInt8.toNat_inj, UInt8.toNat_and, UInt8.toNat_shiftRight, UInt8.toNat_ofNat',
        show (0x0f : UInt8).toNat = 2 ^ 4 - 1 from rfl, Nat.and_two_pow_sub_one_eq_mod,
        Nat.shiftRight_eq_div_pow, show (4 : UInt8).toNat % 8 = 4 from rfl,
        Nat.shiftRight_eq_div_pow]
      omega
    have hrest : (b.toNat + 256 * ofLE bs) >>> 4 / 256 = ofLE bs >>> 4 := by
      rw [Nat.shiftRight_eq_div_pow, Nat.shiftRight_eq_div_pow]
      omega
    rw [List.length_cons, ofLE, toLE, hrest]
    exact List.cons_eq_cons.mpr ⟨hhead, ih⟩

theorem packWord_eq (bs : Bytes) : packWord bs = ofLE bs := by
  induction bs with
  | nil => rfl
  | cons b bs ih =>
    rw [packWord, ofLE, ih, Nat.or_comm, ← Nat.shiftLeft_add_eq_or_of_lt b.toNat_lt,
      Nat.shiftLeft_eq]
    omega

theorem toLE_ofLE (bs : Bytes) : toLE bs.length (ofLE bs) = bs := by
  induction bs with
  | nil => rfl
  | cons b bs ih =>
    have hb := b.toNat_lt
    rw [List.length_cons, ofLE, toLE, Nat.add_mul_mod_self_left, Nat.mod_eq_of_lt hb,
      show (b.toNat + 256 * ofLE bs) / 256 = ofLE bs by omega, ih, UInt8.ofNat_toNat]

theorem addReg_pointwise (w : Nat) : Pointwise w addReg (fun c => c.1 ^^^ c.2) := by
  intro cells _
  rw [addReg, xorReg, List.zipWith_map, List.zipWith_self]

theorem addWord_pointwise (w : Nat) : Pointwise w (addWord w) (fun c => c.1 ^^^ c.2) := by
  rintro cells rfl
  rw [← addReg_pointwise _ cells rfl, addReg, xorReg, ← toLE_xor (by simp), addWord, xorWord,
    List.length_map]

theorem add2Reg_pointwise (w : Nat) :
    Pointwise w add2Reg (fun c => c.1 ^^^ (c.2.1 ^^^ c.2.2)) := by
  intro cells _
  rw [add2Reg, xorReg, addReg_pointwise _ _ rfl, List.map_map, List.zipWith_map,
    List.zipWith_self]
  rfl

theorem add2Word_pointwise (w : Nat) :
    Pointwise w (add2Word w) (fun c => c.1 ^^^ (c.2.1 ^^^ c.2.2)) := by
  rintro cells rfl
  have hsum : addWord cells.length (cells.map Prod.snd) = addReg (cells.map Prod.snd) := by
    rw [addWord_pointwise _ _ (List.length_map _), addReg_pointwise _ _ rfl]
  have hlen : (addReg (cells.map Prod.snd)).length = cells.length := by
    rw [addReg_pointwise _ _ rfl, List.length_map, List.length_map]
  rw [← add2Reg_pointwise _ cells rfl, add2Reg, xorReg, ← toLE_xor (by rw [hlen, List.length_map]),
    add2Word, xorWord, hsum, List.length_map]

/-- The tail of an operation in blocks of 8, of 4 and single bytes. -/
theorem tail_below {α : Type} {f : Nat → List α → Bytes} {g : α → UInt8}
    (hf : ∀ w, Pointwise w (f w) g) : Below 16 (once 8 (f 8) (once 4 (f 4) (singly g))) g :=
  Below.once (j := 3) (hf 8) (Below.once (j := 2) (hf 4) (Below.singly g))

theorem srliEpi64_eq (hlen : x.length = n * 8) : andMask 0x0f (srliEpi64 x) = vshrqU8 x := by
  induction n generalizing x with
  | zero =>
    rw [Nat.zero_mul, List.length_eq_zero_iff] at hlen
    rw [hlen, srliEpi64, loop, dif_neg (by simp)]
    rfl
  | succ n ih =>
    have hlane : (x.take 8).length = 8 := List.length_take_of_le (by omega)
    have hmask := toLE_shift_masked (x.take 8)
    have hrest : andMask 0x0f (srliEpi64 (x.drop 8)) = vshrqU8 (x.drop 8) :=
      ih (by rw [List.length_drop]; omega)
    rw [hlane] at hmask
    simp only [andMask, srliEpi64, vshrqU8] at hmask hrest ⊢
    rw [loop, dif_pos ⟨by decide, by omega⟩, List.map_append, hmask, hrest, ← List.map_append,
      List.take_append_drop]

/-- A byte is put together from its halves. -/
theorem halves (b : UInt8) : (b &&& (0x0f : UInt8)) ^^^ ((b >>> 4) <<< 4) = b := by
  have hall : ∀ n < 256, (UInt8.ofNat n &&& (0x0f : UInt8)) ^^^ ((UInt8.ofNat n >>> 4) <<< 4) = UInt8.ofNat n := by
    decide +kernel
  have := hall b.toNat b.toNat_lt
  rwa [UInt8.ofNat_toNat] at this

theorem getD_sixteen (f : UInt8 → UInt8) (hb : b.toNat < 16) :
    ((List.range 16).map (fun x => f (UInt8.ofNat x))).getD b.toNat 0 = f b := by
  rw [List.getD_eq_getElem _ _ (by simpa using hb), List.getElem_map, List.getElem_range,
    UInt8.ofNat_toNat]

/-- The lookup is given indices below 16 and answers with the table's entries. -/
def Looks (lookup : Bytes → Bytes → Bytes) : Prop :=
  ∀ table x : Bytes, (∀ i ∈ x, i.toNat < 16) → lookup table x = x.map (fun i => table.getD i.toNat 0)

theorem vqtbl1qU8_looks : Looks vqtbl1qU8 := fun _ _ _ => rfl

theorem shuffleEpi8_looks : Looks shuffleEpi8 := by
  intro table x hx
  refine List.map_congr_left fun i hi => ?_
  have hall : ∀ n < 16, UInt8.ofNat n &&& (0x80 : UInt8) = 0 ∧
      UInt8.ofNat n &&& (0x0f : UInt8) = UInt8.ofNat n := by
    decide
  have hi' := hall i.toNat (hx i hi)
  rw [UInt8.ofNat_toNat] at hi'
  rw [hi'.1, hi'.2, if_neg (not_not_intro rfl)]

theorem low_half_lt (b : UInt8) : (b &&& 0x0f).toNat < 16 :=
  Nat.lt_of_le_of_lt Nat.and_le_right (by decide)

theorem high_half_lt (b : UInt8) : (b >>> 4).toNat < 16 := by
  have := b.toNat_lt
  rw [UInt8.toNat_shiftRight, show (4 : UInt8).toNat % 8 = 4 from rfl, Nat.shiftRight_eq_div_pow]
  omega

theorem vshrqU8_masked (x : Bytes) : andMask 0x0f (vshrqU8 x) = vshrqU8 x := by
  rw [andMask, vshrqU8, List.map_map]
  refine List.map_congr_left fun b _ => ?_
  have hand : (b >>> 4 &&& (0x0f : UInt8)).toNat = (b >>> 4).toNat := by
    rw [UInt8.toNat_and, show (0x0f : UInt8).toNat = 2 ^ 4 - 1 from rfl,
      Nat.and_two_pow_sub_one_eq_mod, Nat.mod_eq_of_lt (high_half_lt b)]
  exact UInt8.toNat_inj.mp hand

variable (polynomialIndex : Int)

/-- The two partial products of a byte sum to its product. -/
theorem productReg_pointwise {shift : Bytes → Bytes} (hlooks : Looks lookup)
    (hshift : ∀ x : Bytes, x.length = w → andMask 0x0f (shift x) = vshrqU8 x) (y : UInt8) :
    Pointwise w (productReg shift lookup (gf256Init polynomialIndex) y)
      ((gf256Init polynomialIndex).mulTable y) := by
  intro x hx
  have hlo : ∀ i ∈ andMask 0x0f x, i.toNat < 16 := by
    intro i hi
    obtain ⟨b, _, rfl⟩ := List.mem_map.mp hi
    exact low_half_lt b
  have hhi : ∀ i ∈ vshrqU8 x, i.toNat < 16 := by
    intro i hi
    obtain ⟨b, _, rfl⟩ := List.mem_map.mp hi
    exact high_half_lt b
  rw [productReg, hshift x hx, hlooks _ _ hlo, hlooks _ _ hhi, xorReg, andMask, vshrqU8,
    List.map_map, List.map_map, List.zipWith_map, List.zipWith_self]
  refine List.map_congr_left fun b _ => ?_
  have hsum := (gf256Init_isField polynomialIndex).distrib (b &&& 0x0f) ((b >>> 4) <<< 4) y
  rw [halves] at hsum
  refine Eq.trans ?_ hsum.symm
  exact congrArg₂ (· ^^^ ·) (getD_sixteen (fun i => (gf256Init polynomialIndex).mul i y) (low_half_lt b))
    (getD_sixteen (fun i => (gf256Init polynomialIndex).mul (i <<< 4) y) (high_half_lt b))

theorem productWord_pointwise (c : Gf256Ctx) (y : UInt8) (w : Nat) :
    Pointwise w (productWord w c y) (c.mulTable y) := by
  rintro x rfl
  have := toLE_ofLE (x.map (c.mulTable y))
  rwa [List.length_map, ← packWord_eq] at this

theorem productTail_eq (c : Gf256Ctx) (y : UInt8) (x : Bytes) :
    productTail c y x = x.map (c.mulTable y) :=
  loop_eq_map (by decide) (productWord_pointwise c y 8)
    (Below.once (j := 2) (productWord_pointwise c y 4) (Below.singly _)) x

theorem productAddReg_pointwise (hlooks : Looks lookup) (y : UInt8) (n : Nat) :
    Pointwise (n * 8) (productAddReg lookup (gf256Init polynomialIndex) y)
      (fun p => p.1 ^^^ (gf256Init polynomialIndex).mulTable y p.2) := by
  intro cells hcells
  have hproduct := productReg_pointwise polynomialIndex hlooks
    (fun x (hx : x.length = n * 8) => srliEpi64_eq hx) y (cells.map Prod.snd)
    (by rw [List.length_map, hcells])
  rw [productAddReg, hproduct, xorReg, List.map_map, List.zipWith_map, List.zipWith_self]
  exact List.map_congr_left fun p _ => UInt8.xor_comm _ _

theorem productAddWord_pointwise (c : Gf256Ctx) (y : UInt8) (w : Nat) :
    Pointwise w (productAddWord w c y) (fun p => p.1 ^^^ c.mulTable y p.2) := by
  rintro cells rfl
  have hproduct := productWord_pointwise c y _ (cells.map Prod.snd) (List.length_map _)
  have hlengths : (cells.map Prod.fst).length = ((cells.map Prod.snd).map (c.mulTable y)).length := by
    simp
  have hxor := toLE_xor hlengths
  rw [List.length_map] at hxor
  rw [productAddWord, hproduct, xorWord, hxor, List.map_map, List.zipWith_map, List.zipWith_self]
  rfl

theorem productAddTail_eq (c : Gf256Ctx) (y : UInt8) (cells : List (UInt8 × UInt8)) :
    productAddTail c y cells = cells.map (fun p => p.1 ^^^ c.mulTable y p.2) :=
  loop_eq_map (by decide) (productAddWord_pointwise c y 8)
    (Below.once (j := 2) (productAddWord_pointwise c y 4) (Below.singly _)) cells

theorem gf256AddMem_eq (cpu : Cpu) (cells : List (UInt8 × UInt8)) :
    gf256AddMem cpu cells = cells.map (fun c => c.1 ^^^ c.2) := by
  have htail := tail_below addWord_pointwise
  have hsixteens := Below.loop (by decide) (addReg_pointwise 16) htail
  have hfour : ∀ w, Pointwise (4 * w) (unroll w addReg 4) _ := fun w => (addReg_pointwise w).unroll 4
  rcases cpu with (_ | _) | ⟨_ | _, _⟩
  · exact loop_eq_map (by decide) (addWord_pointwise 8) (fun xs h => htail xs (by omega)) cells
  · exact loop_eq_map (by decide) (hfour 16) (hsixteens 64) cells
  · exact loop_eq_map (by decide) (hfour 16) (hsixteens 64) cells
  · exact loop_eq_map (by decide) (hfour 32)
      (Below.loop (by decide) (addReg_pointwise 32) (hsixteens 32) 128) cells

theorem gf256AddsetMem_eq (cpu : Cpu) (cells : List (UInt8 × UInt8)) :
    gf256AddsetMem cpu cells = cells.map (fun c => c.1 ^^^ c.2) := by
  have htail := tail_below addWord_pointwise
  have hsixteens := Below.loop (by decide) (addReg_pointwise 16) htail
  rcases cpu with (_ | _) | ⟨_ | _, _⟩
  · exact loop_eq_map (by decide) (addWord_pointwise 8) (fun xs h => htail xs (by omega)) cells
  · exact loop_eq_map (by decide) ((addReg_pointwise 16).unroll 4) (hsixteens 64) cells
  · exact loop_eq_map (by decide) ((addReg_pointwise 16).unroll 4) (hsixteens 64) cells
  · exact loop_eq_map (by decide) (addReg_pointwise 32) (hsixteens 32) cells

theorem gf256Add2Mem_eq (cpu : Cpu) (cells : List (UInt8 × UInt8 × UInt8)) :
    gf256Add2Mem cpu cells = cells.map (fun c => c.1 ^^^ (c.2.1 ^^^ c.2.2)) := by
  have htail := tail_below add2Word_pointwise
  rcases cpu with (_ | _) | ⟨_ | _, _⟩
  · exact loop_eq_map (by decide) (add2Word_pointwise 8) (fun xs h => htail xs (by omega)) cells
  · exact loop_eq_map (by decide) (add2Reg_pointwise 16) htail cells
  · exact loop_eq_map (by decide) (add2Reg_pointwise 16) htail cells
  · exact loop_eq_map (by decide) (add2Reg_pointwise 32)
      (Below.loop (by decide) (add2Reg_pointwise 16) htail 32) cells

theorem mul_zero_right (x : UInt8) : (gf256Init polynomialIndex).mulTable 0 x = 0 := by
  simp only [gf256Init, mulEntry, true_or, if_true]

theorem gf256MulMem_eq (cpu : Cpu) (y : UInt8) (x : Bytes) :
    gf256MulMem (gf256Init polynomialIndex) cpu y x =
      x.map ((gf256Init polynomialIndex).mulTable y) := by
  have htail := productTail_eq (gf256Init polynomialIndex) y
  have hneon := productReg_pointwise polynomialIndex (w := 16) vqtbl1qU8_looks
    (fun x _ => vshrqU8_masked x) y
  have hreg : ∀ n, Pointwise (n * 8) (productReg srliEpi64 shuffleEpi8 _ y) _ := fun n =>
    productReg_pointwise polynomialIndex shuffleEpi8_looks
      (fun x (hx : x.length = n * 8) => srliEpi64_eq hx) y
  have hsixteens := loop_eq_map (by decide) (hreg 2) (fun xs _ => htail xs)
  simp only [gf256MulMem]
  split
  · rename_i hy
    subst hy
    rw [← List.map_const']
    exact List.map_congr_left fun x _ => (mul_zero_right polynomialIndex x).symm
  split
  · rename_i hy
    subst hy
    exact (List.map_id' x).symm.trans
      (List.map_congr_left fun x _ => ((gf256Init_isField polynomialIndex).one x).symm)
  rcases cpu with (_ | _) | ⟨_ | _, _ | _⟩
  · exact htail x
  · exact loop_eq_map (by decide) hneon (fun xs _ => htail xs) x
  · exact htail x
  · exact hsixteens x
  · exact loop_eq_map (by decide) (hreg 4) (fun xs _ => htail xs) x
  · exact loop_eq_map (by decide) (hreg 4) (fun xs _ => hsixteens xs) x

theorem gf256MuladdMem_eq (cpu : Cpu) (y : UInt8) (cells : List (UInt8 × UInt8)) :
    gf256MuladdMem (gf256Init polynomialIndex) cpu y cells =
      cells.map (fun p => p.1 ^^^ (gf256Init polynomialIndex).mulTable y p.2) := by
  have htail := productAddTail_eq (gf256Init polynomialIndex) y
  have hreg := productAddReg_pointwise polynomialIndex shuffleEpi8_looks y
  have hneon := productAddReg_pointwise polynomialIndex vqtbl1qU8_looks y 2
  have hsixteens := loop_eq_map (by decide) ((hreg 2).unroll 2)
    (Below.loop (by decide) (hreg 2) (fun xs _ => htail xs) 32)
  simp only [gf256MuladdMem]
  split
  · rename_i hy
    subst hy
    refine List.map_congr_left fun p _ => ?_
    rw [mul_zero_right, UInt8.xor_zero]
  split
  · rename_i hy
    subst hy
    rw [gf256AddMem_eq]
    refine List.map_congr_left fun p _ => ?_
    exact congrArg (p.1 ^^^ ·) ((gf256Init_isField polynomialIndex).one p.2).symm
  rcases cpu with (_ | _) | ⟨_ | _, _ | _⟩
  · exact htail cells
  · exact loop_eq_map (by decide) hneon (fun xs _ => htail xs) cells
  · exact htail cells
  · exact hsixteens cells
  · exact loop_eq_map (by decide) ((hreg 4).unroll 2)
      (Below.head (hreg 4) (fun xs _ => htail xs)) cells
  · exact loop_eq_map (by decide) ((hreg 4).unroll 2)
      (Below.head (hreg 4) (fun xs _ => hsixteens xs)) cells

theorem mul_inv_eq_div (x y : UInt8) :
    (gf256Init polynomialIndex).mul x ((gf256Init polynomialIndex).inv y) =
      (gf256Init polynomialIndex).div x y := by
  have h := gf256Init_isField polynomialIndex
  by_cases hy : y = 0
  · subst hy
    have hinv : (gf256Init polynomialIndex).inv 0 = 0 := by
      simp only [Gf256Ctx.inv, gf256Init, divEntry, true_or, if_true]
    have hdiv : (gf256Init polynomialIndex).div x 0 = 0 := by
      simp only [Gf256Ctx.div, gf256Init, divEntry, true_or, if_true]
    rw [hinv, hdiv]
    exact mul_zero_right polynomialIndex x
  · refine (h.quotient x y _ hy).mpr ?_
    rw [h.assoc, h.comm _ y, h.inverse y hy, h.one]

theorem gf256DivMem_eq (cpu : Cpu) (y : UInt8) (x : Bytes) :
    gf256DivMem (gf256Init polynomialIndex) cpu y x =
      x.map (fun b => (gf256Init polynomialIndex).div b y) := by
  rw [gf256DivMem, gf256MulMem_eq]
  refine List.map_congr_left fun b _ => ?_
  rw [← mul_inv_eq_div]
  split
  · rename_i hy
    subst hy
    have h := gf256Init_isField polynomialIndex
    have hinv : (gf256Init polynomialIndex).inv 1 = 1 := by
      rw [← h.one ((gf256Init polynomialIndex).inv 1), h.comm, h.inverse 1 (by decide)]
    rw [hinv]
    rfl
  · rfl

/-- Every processor computes the same bytes, those of the single-byte operations. -/
theorem gf256_mem_bytewise (cpu : Cpu) (y : UInt8) :
    (∀ cells, gf256AddMem cpu cells = cells.map (fun c => c.1 ^^^ c.2)) ∧
    (∀ cells, gf256AddsetMem cpu cells = cells.map (fun c => c.1 ^^^ c.2)) ∧
    (∀ cells, gf256Add2Mem cpu cells = cells.map (fun c => c.1 ^^^ (c.2.1 ^^^ c.2.2))) ∧
    (∀ x, gf256MulMem (gf256Init polynomialIndex) cpu y x =
      x.map (fun b => (gf256Init polynomialIndex).mul b y)) ∧
    (∀ cells, gf256MuladdMem (gf256Init polynomialIndex) cpu y cells =
      cells.map (fun c => c.1 ^^^ (gf256Init polynomialIndex).mul c.2 y)) ∧
    (∀ x, gf256DivMem (gf256Init polynomialIndex) cpu y x =
      x.map (fun b => (gf256Init polynomialIndex).div b y)) :=
  ⟨gf256AddMem_eq cpu, gf256AddsetMem_eq cpu, gf256Add2Mem_eq cpu,
    gf256MulMem_eq polynomialIndex cpu y, gf256MuladdMem_eq polynomialIndex cpu y,
    gf256DivMem_eq polynomialIndex cpu y⟩

end Sankaku
