import Mathlib.Data.Nat.Basic
import Mathlib.Tactic.Ring

namespace LittleEndian

/-- The low `w` bytes of a number, least significant first. -/
def toLE : Nat → Nat → List UInt8
  | 0, _ => []
  | w + 1, n => UInt8.ofNat (n % 256) :: toLE w (n / 256)

/-- The number a little-endian byte string denotes. -/
def ofLE : List UInt8 → Nat
  | [] => 0
  | b :: bs => b.toNat + 256 * ofLE bs

@[simp] theorem toLE_length (w n : Nat) : (toLE w n).length = w := by
  induction w generalizing n with
  | zero => rfl
  | succ w ih => simp [toLE, ih]

theorem ofLE_toLE (w n : Nat) : ofLE (toLE w n) = n % 256 ^ w := by
  induction w generalizing n with
  | zero => simp [toLE, ofLE, Nat.mod_one]
  | succ w ih =>
    have hb : (UInt8.ofNat (n % 256)).toNat = n % 256 := by
      rw [UInt8.toNat_ofNat']
      exact Nat.mod_eq_of_lt (Nat.mod_lt n (by decide))
    rw [toLE, ofLE, hb, ih, Nat.pow_succ', Nat.mod_mul]

theorem ofLE_lt (bs : List UInt8) : ofLE bs < 256 ^ bs.length := by
  induction bs with
  | nil => decide
  | cons b bs ih =>
    have := b.toNat_lt
    rw [ofLE, List.length_cons, Nat.pow_succ']
    omega

/-- A number that fits survives the trip through its bytes. -/
theorem ofLE_toLE_of_lt (h : n < 256 ^ w) : ofLE (toLE w n) = n := by
  rw [ofLE_toLE, Nat.mod_eq_of_lt h]

@[simp] theorem ofLE_toLE_u64 (n : UInt64) : UInt64.ofNat (ofLE (toLE 8 n.toNat)) = n := by
  rw [ofLE_toLE_of_lt (Nat.lt_of_lt_of_eq n.toNat_lt (by norm_num)), UInt64.ofNat_toNat]

@[simp] theorem ofLE_toLE_u32 (n : UInt32) : UInt32.ofNat (ofLE (toLE 4 n.toNat)) = n := by
  rw [ofLE_toLE_of_lt (Nat.lt_of_lt_of_eq n.toNat_lt (by norm_num)), UInt32.ofNat_toNat]

@[simp] theorem ofLE_toLE_u16 (n : UInt16) : UInt16.ofNat (ofLE (toLE 2 n.toNat)) = n := by
  rw [ofLE_toLE_of_lt (Nat.lt_of_lt_of_eq n.toNat_lt (by norm_num)), UInt16.ofNat_toNat]

/-- The stretch of a list between two offsets, if the list reaches that far. -/
def slice? (xs : List α) (a b : Nat) : Option (List α) :=
  if a ≤ b ∧ b ≤ xs.length then some ((xs.drop a).take (b - a)) else none

theorem slice?_isSome (xs : List α) (hab : a ≤ b) (hb : b ≤ xs.length) :
    slice? xs a b = some ((xs.drop a).take (b - a)) := by
  simp [slice?, hab, hb]

/-- The stretch between a prefix and a suffix is what was put there. -/
theorem slice?_append (pre mid post : List α) (ha : pre.length = a)
    (hb : a + mid.length = b) : slice? (pre ++ mid ++ post) a b = some mid := by
  subst ha hb
  rw [slice?_isSome _ (Nat.le_add_right _ _) (by simp)]
  simp [List.append_assoc]

end LittleEndian
