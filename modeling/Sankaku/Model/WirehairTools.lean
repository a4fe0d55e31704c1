import Mathlib.Algebra.Ring.Int.Defs
import Mathlib.Algebra.Ring.Nat
import Mathlib.Data.Nat.Log

namespace Sankaku

def kSquareRootTable : List Nat :=
  [0, 16, 16, 16, 32, 32, 32, 32, 32, 48, 48, 48, 48, 48, 48, 48,
   64, 64, 64, 64, 64, 64, 64, 64, 64, 80, 80, 80, 80, 80, 80, 80,
   80, 80, 80, 80, 96, 96, 96, 96, 96, 96, 96, 96, 96, 96, 96, 96,
   96, 112, 112, 112, 112, 112, 112, 112, 112, 112, 112, 112, 112, 112, 112, 112,
   128, 129, 130, 131, 132, 133, 134, 135, 136, 137, 138, 139, 140, 141, 142, 143,
   143, 144, 145, 146, 147, 148, 149, 150, 150, 151, 152, 153, 154, 155, 155, 156,
   157, 158, 159, 159, 160, 161, 162, 163, 163, 164, 165, 166, 167, 167, 168, 169,
   170, 170, 171, 172, 173, 173, 174, 175, 175, 176, 177, 178, 178, 179, 180, 181,
   181, 182, 183, 183, 184, 185, 185, 186, 187, 187, 188, 189, 189, 190, 191, 191,
   192, 193, 193, 194, 195, 195, 196, 197, 197, 198, 199, 199, 200, 201, 201, 202,
   203, 203, 204, 204, 205, 206, 206, 207, 207, 208, 209, 209, 210, 211, 211, 212,
   212, 213, 214, 214, 215, 215, 216, 217, 217, 218, 218, 219, 219, 220, 221, 221,
   222, 222, 223, 223, 224, 225, 225, 226, 226, 227, 227, 228, 229, 229, 230, 230,
   231, 231, 232, 232, 233, 234, 234, 235, 235, 236, 236, 237, 237, 238, 238, 239,
   239, 240, 241, 241, 242, 242, 243, 243, 244, 244, 245, 245, 246, 246, 247, 247,
   248, 248, 249, 249, 250, 250, 251, 251, 252, 252, 253, 253, 254, 254, 255, 255]

def log32 (x : Nat) : Nat := Nat.log2 x

def floorSquareRoot16 (x : Nat) : Nat :=
  let nonzeroBits := if x < 0x100 then 6 else log32 x
  let tableShift := (nonzeroBits - 6) &&& 0xfe
  let resultShift := (15 - nonzeroBits) / 2
  let r := kSquareRootTable.getD (x >>> tableShift) 0 >>> resultShift
  if r * r > x then r - 1 else r

def kSieveTableSize : Nat := 2 * 3 * 5 * 7

/-- How far it is from each residue to the next one that 2, 3, 5 and 7 do not
divide. -/
def kSieveTable : List Nat :=
  [1, 0, 9, 8, 7, 6, 5, 4, 3, 2, 1, 0, 1, 0, 3, 2, 1, 0, 1, 0, 3, 2, 1, 0, 5, 4, 3, 2, 1, 0,
   1, 0, 5, 4, 3, 2, 1, 0, 3, 2, 1, 0, 1, 0, 3, 2, 1, 0, 5, 4, 3, 2, 1, 0, 5, 4, 3, 2, 1, 0,
   1, 0, 5, 4, 3, 2, 1, 0, 3, 2, 1, 0, 1, 0, 5, 4, 3, 2, 1, 0, 3, 2, 1, 0, 5, 4, 3, 2, 1, 0,
   7, 6, 5, 4, 3, 2, 1, 0, 3, 2, 1, 0, 1, 0, 3, 2, 1, 0, 1, 0, 3, 2, 1, 0, 7, 6, 5, 4, 3, 2,
   1, 0, 5, 4, 3, 2, 1, 0, 3, 2, 1, 0, 5, 4, 3, 2, 1, 0, 1, 0, 3, 2, 1, 0, 5, 4, 3, 2, 1, 0,
   1, 0, 5, 4, 3, 2, 1, 0, 5, 4, 3, 2, 1, 0, 3, 2, 1, 0, 1, 0, 3, 2, 1, 0, 5, 4, 3, 2, 1, 0,
   1, 0, 5, 4, 3, 2, 1, 0, 3, 2, 1, 0, 1, 0, 3, 2, 1, 0, 1, 0, 9, 8, 7, 6, 5, 4, 3, 2, 1, 0]

def kPrimesUnder256From11 : List Nat :=
  [11, 13, 17, 19, 23, 29, 31, 37, 41, 43,
   47, 53, 59, 61, 67, 71, 73, 79, 83, 89,
   97, 101, 103, 107, 109, 113, 127, 131, 137, 139,
   149, 151, 157, 163, 167, 173, 179, 181, 191, 193,
   197, 199, 211, 223, 227, 229, 233, 239, 241, 251]

/-- The loop over the primes: whether it returns `n`. -/
def trialDivision (n pMax : Nat) : List Nat → Bool
  | [] => true
  | p :: primes =>
    if p > pMax then true else if n % p = 0 then false else trialDivision n pMax primes

/-- From the label `TryNext` on. -/
def tryNext : Nat → Nat → Nat → Nat → Nat → Option Nat
  | 0, _, _, _, _ => none
  | fuel + 1, n, offset, pMax, pMax2 =>
    if trialDivision n pMax kPrimesUnder256From11 then some n
    else
      let offset := if offset ≥ kSieveTableSize then offset - kSieveTableSize else offset
      let next := kSieveTable.getD offset 0
      let n := (n + next + 1) % 2 ^ 16
      -- The derivative square root iteration.
      if pMax2 < n then tryNext fuel n (offset + next + 1) (pMax + 1) ((pMax + 1) * (pMax + 1))
      else tryNext fuel n (offset + next + 1) pMax pMax2

/-- `none` where the loop takes more than `fuel` turns. -/
def nextPrime16 (fuel n : Nat) : Option Nat :=
  if n = 0 ∨ n = 1 then some 1
  else if n = 2 then some 2
  else if n = 3 then some 3
  else if n = 4 ∨ n = 5 then some 5
  else if n = 6 ∨ n = 7 then some 7
  else if n > 65521 then some 0
  else
    let offset := n % kSieveTableSize
    let next := kSieveTable.getD offset 0
    let n := (n + next) % 2 ^ 16
    let pMax := floorSquareRoot16 n
    tryNext fuel n (offset + next + 1) pMax (pMax * pMax)

structure PCGRandom where
  state : UInt64
  inc : UInt64
  deriving DecidableEq, Repr

namespace PCGRandom

def next (g : PCGRandom) : UInt32 × PCGRandom :=
  let oldstate := g.state
  let state := oldstate * 6364136223846793005 + g.inc
  let xorshifted := (((oldstate >>> 18) ^^^ oldstate) >>> 27).toUInt32
  let rot := (oldstate >>> 59).toUInt32
  ((xorshifted >>> rot) ||| (xorshifted <<< ((0 - rot) &&& 31)), { g with state })

def seed (y x : UInt64) : PCGRandom :=
  let g := (PCGRandom.next { state := 0, inc := (y <<< 1) ||| 1 }).2
  (PCGRandom.next { g with state := g.state + x }).2

end PCGRandom

/-- `deck[ii] = deck[jj]; deck[jj] = (uint16_t)ii`. -/
def place (deck : List Nat) (jj ii : Nat) : List Nat :=
  (deck.set ii (deck.getD jj 0)).set jj (ii % 2 ^ 16)

/-- `jj = (uint8_t)(rv >> shift) % ii`. -/
def draw8 (rv : UInt32) (shift ii : Nat) : Nat := (rv.toNat >>> shift) % 2 ^ 8 % ii

/-- `jj = (uint16_t)(rv >> shift) % ii`. -/
def draw16 (rv : UInt32) (shift ii : Nat) : Nat := (rv.toNat >>> shift) % 2 ^ 16 % ii

/-- The loop for 256 cards and less, with `rest` cards to come at `ii`. The
cases of the switch fall through. -/
def shuffle8 (prng : PCGRandom) (deck : List Nat) (ii : Nat) : Nat → List Nat × PCGRandom
  | 0 => (deck, prng.next.2)
  | 1 =>
    let (rv, prng) := prng.next
    (place deck (draw8 rv 16 ii) ii, prng)
  | 2 =>
    let (rv, prng) := prng.next
    let deck := place deck (draw8 rv 8 ii) ii
    (place deck (draw8 rv 16 (ii + 1)) (ii + 1), prng)
  | 3 =>
    let (rv, prng) := prng.next
    let deck := place deck (draw8 rv 0 ii) ii
    let deck := place deck (draw8 rv 8 (ii + 1)) (ii + 1)
    (place deck (draw8 rv 16 (ii + 2)) (ii + 2), prng)
  | rest + 4 =>
    let (rv, prng) := prng.next
    let deck := place deck (draw8 rv 0 ii) ii
    let deck := place deck (draw8 rv 8 (ii + 1)) (ii + 1)
    let deck := place deck (draw8 rv 16 (ii + 2)) (ii + 2)
    shuffle8 prng (place deck (draw8 rv 24 (ii + 3)) (ii + 3)) (ii + 4) rest

/-- The loop for more cards. -/
def shuffle16 (prng : PCGRandom) (deck : List Nat) (ii : Nat) : Nat → List Nat × PCGRandom
  | 0 => (deck, prng.next.2)
  | 1 =>
    let (rv, prng) := prng.next
    (place deck (draw16 rv 0 ii) ii, prng)
  | rest + 2 =>
    let (rv, prng) := prng.next
    let deck := place deck (draw16 rv 0 ii) ii
    shuffle16 prng (place deck (draw16 rv 16 (ii + 1)) (ii + 1)) (ii + 2) rest

/-- The deck is whatever was in memory; `count` is not zero. -/
def shuffleDeck16 (prng : PCGRandom) (deck : List Nat) (count : Nat) : List Nat × PCGRandom :=
  let deck := deck.set 0 0
  if count ≤ 256 then shuffle8 prng deck 1 (count - 1) else shuffle16 prng deck 1 (count - 1)

def iterateNextColumn (x b p a : Nat) : Nat :=
  let x := (x + a) % p
  if x ≥ b then
    let distanceToP := p - x
    if a ≥ distanceToP then a - distanceToP
    else ((a <<< 16) - distanceToP) % a
  else x

def kMaxNForWeight1 : Nat := 2048
def kMaxPeelCount : Nat := 64

def kPeelCountDistribution : List UInt32 :=
  [0x00000000, 0x7fffffff, 0xaaaaaaa9, 0xbfffffff, 0xcccccccb, 0xd5555554, 0xdb6db6da, 0xdfffffff,
   0xe38e38e2, 0xe6666665, 0xe8ba2e8a, 0xeaaaaaa9, 0xec4ec4eb, 0xedb6db6c, 0xeeeeeeed, 0xefffffff,
   0xf0f0f0ef, 0xf1c71c70, 0xf286bca0, 0xf3333332, 0xf3cf3cf2, 0xf45d1744, 0xf4de9bd2, 0xf5555554,
   0xf5c28f5b, 0xf6276275, 0xf684bda0, 0xf6db6db5, 0xf72c234e, 0xf7777776, 0xf7bdef7a, 0xf7ffffff,
   0xf83e0f82, 0xf8787877, 0xf8af8af7, 0xf8e38e37, 0xf914c1b9, 0xf9435e4f, 0xf96f96f8, 0xf9999998,
   0xf9c18f9b, 0xf9e79e78, 0xfa0be82e, 0xfa2e8ba1, 0xfa4fa4f9, 0xfa6f4de8, 0xfa8d9df4, 0xfaaaaaa9,
   0xfac687d5, 0xfae147ad, 0xfafafaf9, 0xfb13b13a, 0xfb2b78c0, 0xfb425ecf, 0xfb586fb4, 0xfb6db6da,
   0xfb823edf, 0xfb9611a6, 0xfba93867, 0xfbbbbbba, 0xfbcda3ab, 0xfbdef7bc, 0xfbefbefa, 0xffffffff]

/-- `(uint32_t)((1. / 128) * 0xffffffff)`. -/
def p1 : UInt32 := 33554431

/-- `while (rv > kPeelCountDistribution[weight++])` over what is left of the
table. -/
def weightLoop (rv : UInt32) (weight : Nat) : List UInt32 → Nat
  | [] => weight
  | entry :: entries => if rv > entry then weightLoop rv (weight + 1) entries else weight + 1

def generatePeelRowWeight (rv : UInt32) (blockCount : Nat) : Nat :=
  if blockCount ≤ kMaxNForWeight1 ∧ rv < p1 then 1
  else
    let rv := if blockCount ≤ kMaxNForWeight1 then rv - p1 else rv
    if rv ≤ kPeelCountDistribution.getD 1 0 then 2
    else if rv ≤ kPeelCountDistribution.getD 2 0 then 3
    else weightLoop rv 3 (kPeelCountDistribution.drop 3)

structure PeelRowParameters where
  peelCount : Nat
  peelFirst : Nat
  peelAdd : Nat
  mixFirst : Nat
  mixAdd : Nat
  deriving DecidableEq, Repr

def PeelRowParameters.initialize (rowSeed pSeed : UInt32) (peelColumnCount mixColumnCount : Nat) :
    PeelRowParameters :=
  let prng := PCGRandom.seed rowSeed.toUInt64 pSeed.toUInt64
  let (rv, prng) := prng.next
  let weight := generatePeelRowWeight rv peelColumnCount
  let maxWeight := peelColumnCount / 2
  let (rvPeel, prng) := prng.next
  let (rvMix, _) := prng.next
  { peelCount := if weight > maxWeight then maxWeight else weight
    peelFirst := (rvPeel.toNat >>> 16) % peelColumnCount
    peelAdd := rvPeel.toNat % 2 ^ 16 % (peelColumnCount - 1) + 1
    mixFirst := (rvMix.toNat >>> 16) % mixColumnCount
    mixAdd := rvMix.toNat % 2 ^ 16 % (mixColumnCount - 1) + 1 }

/-- What an iterator at column `x` returns over its last calls. -/
def columnsFrom (b p a : Nat) : Nat → Nat → List Nat
  | 0, x => [x]
  | remaining + 1, x => x :: columnsFrom b p a remaining (iterateNextColumn x b p a)

/-- All columns a `PeelRowIterator` goes through. -/
def peelColumns (params : PeelRowParameters) (columnCount columnCountNextPrime : Nat) : List Nat :=
  columnsFrom columnCount columnCountNextPrime params.peelAdd (params.peelCount - 1) params.peelFirst

/-- `RowMixIterator::Columns`. -/
def mixColumns (params : PeelRowParameters) (columnCount columnCountNextPrime : Nat) : List Nat :=
  columnsFrom columnCount columnCountNextPrime params.mixAdd 2 params.mixFirst

def kTinyDenseCounts : List Nat :=
  [0, 0, 2, 3, 3, 5, 6, 6, 6, 7, 9, 10, 10, 10, 12, 14, 13, 14, 12, 12,
   15, 16, 21, 14, 14, 13, 18, 21, 22, 21, 13, 22, 13, 24, 14, 17, 16, 24, 30, 26,
   24, 18, 15, 15, 24, 18, 21, 17, 14, 16, 21, 18, 17, 22, 25, 20, 17, 18, 21, 18,
   23, 20, 19, 23, 19]

def kTinyTableCount : Nat := 65
def kSmallTableCount : Nat := 2048 - kTinyTableCount

/-- Pairs of a block count and the dense count for it. -/
def kDensePoints : List (Nat × Nat) :=
  [(2048, 52), (2618, 54), (2826, 60), (3725, 62), (3962, 67), (4277, 65),
   (4547, 60), (5065, 64), (5224, 76), (5642, 66), (5909, 71), (6285, 76),
   (6583, 66), (6895, 72), (7448, 69), (7682, 76), (8046, 78), (8558, 76),
   (8963, 73), (9389, 81), (10143, 86), (11129, 94), (12593, 99), (12988, 105),
   (14032, 108), (14473, 114), (15397, 110), (16636, 113), (17698, 118), (18828, 123),
   (19420, 127), (20343, 136), (21979, 139), (23024, 150), (24119, 156), (25659, 162),
   (27298, 173), (29042, 176), (30898, 183), (31870, 190), (33906, 200), (35519, 211),
   (37208, 220), (38978, 234), (40205, 253), (42776, 297), (44122, 320), (45511, 336),
   (46944, 357), (48421, 373), (49177, 376), (50725, 380), (52321, 391), (53968, 388),
   (54811, 382), (54811, 382), (55667, 372), (57419, 362), (58316, 356), (60152, 347),
   (61091, 337), (62045, 334), (63014, 340), (64000, 345)]

/-- `none` for a division by zero; C truncates quotients toward zero. -/
def linearInterpolate (n0 n1 count0 count1 n : Nat) : Option Nat :=
  let numerator : Int := (n - n0) * (count1 - count0)
  let denominator : Int := n1 - n0
  if denominator = 0 then none
  else some ((count0 + numerator.tdiv denominator) % 2 ^ 16).toNat

/-- The binary search over the points, `none` when `fuel` runs out. -/
def densePointSearch (n : Nat) : Nat → Nat → Nat → Option Nat
  | 0, _, _ => none
  | fuel + 1, low, high =>
    let mid := (high + low) / 2
    if mid = low then some low
    else if n > (kDensePoints.getD mid (0, 0)).1 then densePointSearch n fuel mid high
    else densePointSearch n fuel low mid

def kDenseSeedCount : Nat := 100
def kMaxDenseCount : Nat := 400

def roundDenseCount (denseCount : Nat) : Nat :=
  match denseCount % 4 with
  | 0 => denseCount + 2
  | 1 => denseCount + 1
  | 2 => denseCount
  | _ => denseCount + 3

def getDenseCount (fuel n : Nat) : Option Nat :=
  if n < kTinyTableCount + kSmallTableCount then
    if n < kTinyTableCount then some (kTinyDenseCounts.getD n 0)
    else if n ≤ 500 then (linearInterpolate 64 500 26 35 n).map roundDenseCount
    else if n ≤ 1000 then (linearInterpolate 500 1000 35 48 n).map roundDenseCount
    else (linearInterpolate 1000 2048 48 62 n).map roundDenseCount
  else do
    let low ← densePointSearch n fuel 0 (kDensePoints.length - 1)
    let lowPoint := kDensePoints.getD low (0, 0)
    let highPoint := kDensePoints.getD (low + 1) (0, 0)
    (linearInterpolate lowPoint.1 highPoint.1 lowPoint.2 highPoint.2 n).map roundDenseCount

end Sankaku
