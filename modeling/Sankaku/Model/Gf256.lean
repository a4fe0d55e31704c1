import Sankaku.Lib.Strides
import Sankaku.Model.Types
import Mathlib.Logic.Function.Basic

namespace Sankaku
open LittleEndian

def gf256GenPoly : List UInt8 :=
  [0x8e, 0x95, 0x96, 0xa6, 0xaf, 0xb1, 0xb2, 0xb4,
   0xb8, 0xc3, 0xc6, 0xd4, 0xe1, 0xe7, 0xf3, 0xfa]

def defaultPolynomialIndex : Int := 3

/-- The table leaves the low bit out of every polynomial. -/
def gf256PolyInit (polynomialIndex : Int) : Nat :=
  let index :=
    if polynomialIndex < 0 ∨ polynomialIndex ≥ gf256GenPoly.length then defaultPolynomialIndex
    else polynomialIndex
  (gf256GenPoly.getD index.toNat 0).toNat <<< 1 ||| 1

/-- The entry of `exptab` after `exp`. -/
def nextExp (poly : Nat) (exp : UInt8) : UInt8 :=
  let next := exp.toNat * 2
  UInt8.ofNat (if next ≥ 256 then next ^^^ poly else next)

structure ExpLog where
  exptab : Nat → UInt8
  logtab : UInt8 → Nat

/-- The first `jj` turns of the loop of `gf256_explog_init`. -/
def explogLoop (poly : Nat) : Nat → ExpLog
  | 0 => ⟨Function.update (fun _ => 0) 0 1, Function.update (fun _ => 0) 0 512⟩
  | jj + 1 =>
    let t := explogLoop poly jj
    let next := nextExp poly (t.exptab jj)
    ⟨Function.update t.exptab (jj + 1) next, Function.update t.logtab next (jj + 1)⟩

/-- The second period of `exptab` is a copy of the first, and what follows its
end is zero. -/
def gf256ExplogInit (poly : Nat) : ExpLog :=
  let t := explogLoop poly 254
  let logtab := Function.update t.logtab (t.exptab 0) 255
  ⟨fun jj =>
    if jj < 2 * 255 then t.exptab (jj % 255) else if jj = 2 * 255 then 1 else 0, logtab⟩

structure Gf256Ctx where
  polynomial : Nat
  mulTable : UInt8 → UInt8 → UInt8
  divTable : UInt8 → UInt8 → UInt8
  invTable : UInt8 → UInt8
  sqrTable : UInt8 → UInt8
  tableLoY : UInt8 → Bytes
  tableHiY : UInt8 → Bytes

def mulEntry (t : ExpLog) (y x : UInt8) : UInt8 :=
  let logY := t.logtab y % 256
  if y = 0 ∨ x = 0 then 0 else t.exptab (t.logtab x + logY)

def divEntry (t : ExpLog) (y x : UInt8) : UInt8 :=
  let logY := t.logtab y % 256
  let logYn := 255 - logY
  if y = 0 ∨ x = 0 then 0 else t.exptab (t.logtab x + logYn)

/-- The tables `gf256_init_` makes, whatever index it hands to `gf256_poly_init`: that is
`kDefaultPolynomialIndex` in it. -/
def gf256Init (polynomialIndex : Int) : Gf256Ctx :=
  let polynomial := gf256PolyInit polynomialIndex
  let t := gf256ExplogInit polynomial
  { polynomial
    mulTable := mulEntry t
    divTable := divEntry t
    invTable := fun x => divEntry t x 1
    sqrTable := fun x => mulEntry t x x
    tableLoY := fun y => (List.range 16).map (fun x => mulEntry t y (UInt8.ofNat x))
    tableHiY := fun y => (List.range 16).map (fun x => mulEntry t y (UInt8.ofNat x <<< 4)) }

namespace Gf256Ctx

def mul (c : Gf256Ctx) (x y : UInt8) : UInt8 := c.mulTable y x
def div (c : Gf256Ctx) (x y : UInt8) : UInt8 := c.divTable y x
def inv (c : Gf256Ctx) (x : UInt8) : UInt8 := c.invTable x
def sqr (c : Gf256Ctx) (x : UInt8) : UInt8 := c.sqrTable x

end Gf256Ctx

/-- The build target and what `gf256_architecture_init` found. -/
inductive Cpu
  | mobile (hasNeon : Bool)
  | desktop (hasAvx2 hasSsse3 : Bool)
  deriving DecidableEq, Repr

/-- Two vector registers, xored. -/
def xorReg (x y : Bytes) : Bytes := List.zipWith (· ^^^ ·) x y

/-- Two words in memory, xored as integers. -/
def xorWord (w : Nat) (x y : Bytes) : Bytes := toLE w (ofLE x ^^^ ofLE y)

def addReg (cells : List (UInt8 × UInt8)) : Bytes :=
  xorReg (cells.map Prod.fst) (cells.map Prod.snd)

def addWord (w : Nat) (cells : List (UInt8 × UInt8)) : Bytes :=
  xorWord w (cells.map Prod.fst) (cells.map Prod.snd)

/-- The last fifteen bytes of a xor: a block of 8, a block of 4, single bytes. -/
def addTail : List (UInt8 × UInt8) → Bytes :=
  Strides.once 8 (addWord 8) (Strides.once 4 (addWord 4) (Strides.singly (fun c => c.1 ^^^ c.2)))

/-- `x[] += y[]`. -/
def gf256AddMem : Cpu → List (UInt8 × UInt8) → Bytes
  | .mobile true => Strides.loop 64 (Strides.unroll 16 addReg 4) (Strides.loop 16 addReg addTail)
  | .mobile false => Strides.loop 8 (addWord 8) addTail
  | .desktop true _ =>
    Strides.loop 128 (Strides.unroll 32 addReg 4)
      (Strides.loop 32 addReg (Strides.loop 16 addReg addTail))
  | .desktop false _ =>
    Strides.loop 64 (Strides.unroll 16 addReg 4) (Strides.loop 16 addReg addTail)

/-- `z[] = x[] + y[]`. -/
def gf256AddsetMem : Cpu → List (UInt8 × UInt8) → Bytes
  | .mobile true => Strides.loop 64 (Strides.unroll 16 addReg 4) (Strides.loop 16 addReg addTail)
  | .mobile false => Strides.loop 8 (addWord 8) addTail
  | .desktop true _ => Strides.loop 32 addReg (Strides.loop 16 addReg addTail)
  | .desktop false _ =>
    Strides.loop 64 (Strides.unroll 16 addReg 4) (Strides.loop 16 addReg addTail)

def add2Reg (cells : List (UInt8 × UInt8 × UInt8)) : Bytes :=
  xorReg (cells.map Prod.fst) (addReg (cells.map Prod.snd))

def add2Word (w : Nat) (cells : List (UInt8 × UInt8 × UInt8)) : Bytes :=
  xorWord w (cells.map Prod.fst) (addWord w (cells.map Prod.snd))

def add2Tail : List (UInt8 × UInt8 × UInt8) → Bytes :=
  Strides.once 8 (add2Word 8)
    (Strides.once 4 (add2Word 4) (Strides.singly (fun c => c.1 ^^^ (c.2.1 ^^^ c.2.2))))

/-- `z[] += x[] + y[]`. -/
def gf256Add2Mem : Cpu → List (UInt8 × UInt8 × UInt8) → Bytes
  | .mobile true => Strides.loop 16 add2Reg add2Tail
  | .mobile false => Strides.loop 8 (add2Word 8) add2Tail
  | .desktop true _ => Strides.loop 32 add2Reg (Strides.loop 16 add2Reg add2Tail)
  | .desktop false _ => Strides.loop 16 add2Reg add2Tail

/-- A register masked with one byte everywhere. -/
def andMask (mask : UInt8) (x : Bytes) : Bytes := x.map (· &&& mask)

/-- `_mm_srli_epi64(x, 4)`: the bits of a 64-bit lane move across its bytes. -/
def srliEpi64 (x : Bytes) : Bytes :=
  Strides.loop 8 (fun lane => toLE 8 (ofLE lane >>> 4)) (fun _ => []) x

/-- `_mm_shuffle_epi8`: a set high bit clears the byte. -/
def shuffleEpi8 (table mask : Bytes) : Bytes :=
  mask.map (fun i => if i &&& 0x80 ≠ 0 then 0 else table.getD (i &&& 0x0f).toNat 0)

/-- `vqtbl1q_u8`: an index past the table clears the byte. -/
def vqtbl1qU8 (table mask : Bytes) : Bytes := mask.map (fun i => table.getD i.toNat 0)

/-- The partial products of the low and the high half of each byte, with the
shift and the table lookup of the target. -/
def productReg (shift : Bytes → Bytes) (lookup : Bytes → Bytes → Bytes) (c : Gf256Ctx) (y : UInt8)
    (x : Bytes) : Bytes :=
  xorReg (lookup (c.tableLoY y) (andMask 0x0f x)) (lookup (c.tableHiY y) (andMask 0x0f (shift x)))

/-- `vshrq_n_u8(x, 4)`. -/
def vshrqU8 (x : Bytes) : Bytes := List.map (fun b : UInt8 => b >>> 4) x

/-- The bytes of a word put together by shifts. -/
def packWord : Bytes → Nat
  | [] => 0
  | b :: bs => b.toNat ||| packWord bs <<< 8

def productWord (w : Nat) (c : Gf256Ctx) (y : UInt8) (x : Bytes) : Bytes :=
  toLE w (packWord (x.map (c.mulTable y)))

def productTail (c : Gf256Ctx) (y : UInt8) : Bytes → Bytes :=
  Strides.loop 8 (productWord 8 c y)
    (Strides.once 4 (productWord 4 c y) (Strides.singly (c.mulTable y)))

/-- `z[] = x[] * y`. -/
def gf256MulMem (c : Gf256Ctx) (cpu : Cpu) (y : UInt8) (x : Bytes) : Bytes :=
  if y = 0 then List.replicate x.length 0
  else if y = 1 then x
  else
    match cpu with
    | .mobile hasNeon =>
      if hasNeon then Strides.loop 16 (productReg vshrqU8 vqtbl1qU8 c y) (productTail c y) x
      else productTail c y x
    | .desktop hasAvx2 hasSsse3 =>
      let sixteens := fun x =>
        if hasSsse3 then Strides.loop 16 (productReg srliEpi64 shuffleEpi8 c y) (productTail c y) x
        else productTail c y x
      if hasAvx2 then Strides.loop 32 (productReg srliEpi64 shuffleEpi8 c y) sixteens x
      else sixteens x

def productAddReg (lookup : Bytes → Bytes → Bytes) (c : Gf256Ctx) (y : UInt8)
    (cells : List (UInt8 × UInt8)) : Bytes :=
  xorReg (productReg srliEpi64 lookup c y (cells.map Prod.snd)) (cells.map Prod.fst)

def productAddWord (w : Nat) (c : Gf256Ctx) (y : UInt8) (cells : List (UInt8 × UInt8)) : Bytes :=
  xorWord w (cells.map Prod.fst) (productWord w c y (cells.map Prod.snd))

def productAddTail (c : Gf256Ctx) (y : UInt8) : List (UInt8 × UInt8) → Bytes :=
  Strides.loop 8 (productAddWord 8 c y)
    (Strides.once 4 (productAddWord 4 c y) (Strides.singly (fun p => p.1 ^^^ c.mulTable y p.2)))

/-- `z[] += x[] * y`. -/
def gf256MuladdMem (c : Gf256Ctx) (cpu : Cpu) (y : UInt8) (cells : List (UInt8 × UInt8)) : Bytes :=
  if y = 0 then cells.map Prod.fst
  else if y = 1 then gf256AddMem cpu cells
  else
    match cpu with
    | .mobile hasNeon =>
      if hasNeon then Strides.loop 16 (productAddReg vqtbl1qU8 c y) (productAddTail c y) cells
      else productAddTail c y cells
    | .desktop hasAvx2 hasSsse3 =>
      let sixteens := fun cells =>
        if hasSsse3 then
          Strides.loop 32 (Strides.unroll 16 (productAddReg shuffleEpi8 c y) 2)
            (Strides.loop 16 (productAddReg shuffleEpi8 c y) (productAddTail c y)) cells
        else productAddTail c y cells
      if hasAvx2 then
        Strides.loop 64 (Strides.unroll 32 (productAddReg shuffleEpi8 c y) 2)
          (Strides.head 32 (productAddReg shuffleEpi8 c y) sixteens) cells
      else sixteens cells

/-- `x[] / y`, through the inverse of `y`. -/
def gf256DivMem (c : Gf256Ctx) (cpu : Cpu) (y : UInt8) (x : Bytes) : Bytes :=
  gf256MulMem c cpu (if y = 1 then 1 else c.invTable y) x

end Sankaku
