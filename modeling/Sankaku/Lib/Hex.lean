import Mathlib.Data.List.Basic

namespace Hex

def value (c : Char) : Option Nat :=
  if '0' ≤ c ∧ c ≤ '9' then some (c.toNat - '0'.toNat)
  else if 'a' ≤ c ∧ c ≤ 'f' then some (c.toNat - 'a'.toNat + 10)
  else if 'A' ≤ c ∧ c ≤ 'F' then some (c.toNat - 'A'.toNat + 10)
  else none

def IsDigit (c : Char) : Prop := ('0' ≤ c ∧ c ≤ '9') ∨ ('a' ≤ c ∧ c ≤ 'f') ∨ ('A' ≤ c ∧ c ≤ 'F')

/-- The bytes of a text of digits, high digit first. -/
def decode : List Char → Option (List UInt8)
  | [] => some []
  | [_] => none
  | high :: low :: text =>
    (value high).bind (fun h => (value low).bind (fun l =>
      (decode text).map (UInt8.ofNat (16 * h + l) :: ·)))

theorem value_isDigit (h : value c = some n) : IsDigit c := by
  unfold value at h
  split at h
  · exact .inl ‹_›
  · split at h
    · exact .inr (.inl ‹_›)
    · split at h
      · exact .inr (.inr ‹_›)
      · cases h

theorem IsDigit.ascii (h : IsDigit c) : c.toNat < 128 := by
  rcases h with h | h | h
  · exact Nat.lt_of_le_of_lt h.2 (by decide)
  · exact Nat.lt_of_le_of_lt h.2 (by decide)
  · exact Nat.lt_of_le_of_lt h.2 (by decide)

def lowerDigits : List Char :=
  ['0', '1', '2', '3', '4', '5', '6', '7', '8', '9', 'a', 'b', 'c', 'd', 'e', 'f']

theorem ascii_values : ∀ k < 128, ∀ n ∈ value (Char.ofNat k),
    n < 16 ∧ (Char.ofNat k).toLower = lowerDigits.getD n ' ' := by decide +kernel

theorem value_some (h : value c = some n) : n < 16 ∧ c.toLower = lowerDigits.getD n ' ' := by
  have hvalues := ascii_values c.toNat (value_isDigit h).ascii n
  rw [Char.ofNat_toNat] at hvalues
  exact hvalues h

theorem decode_cons_cons : decode (high :: low :: text) = some bytes ↔
    ∃ h l rest, value high = some h ∧ value low = some l ∧ decode text = some rest ∧
      bytes = UInt8.ofNat (16 * h + l) :: rest := by
  rw [decode]
  simp only [Option.bind_eq_some_iff, Option.map_eq_some_iff]
  constructor
  · rintro ⟨h, hh, l, hl, rest, hrest, rfl⟩
    exact ⟨h, l, rest, hh, hl, hrest, rfl⟩
  · rintro ⟨h, l, rest, hh, hl, hrest, rfl⟩
    exact ⟨h, hh, l, hl, rest, hrest, rfl⟩

theorem decode_digits (h : decode text = some bytes) : ∀ c ∈ text, IsDigit c := by
  fun_induction decode text generalizing bytes with
  | case1 => simp
  | case2 c => cases h
  | case3 high low text ih =>
    obtain ⟨_, _, rest, hh, hl, hrest, _⟩ := decode_cons_cons.mp h
    intro c hc
    rcases List.mem_cons.mp hc with rfl | hc
    · exact value_isDigit hh
    · rcases List.mem_cons.mp hc with rfl | hc
      · exact value_isDigit hl
      · exact ih hrest c hc

theorem decode_length (h : decode text = some bytes) : text.length = 2 * bytes.length := by
  fun_induction decode text generalizing bytes with
  | case1 =>
    cases h
    rfl
  | case2 c => cases h
  | case3 high low text ih =>
    obtain ⟨_, _, rest, _, _, hrest, rfl⟩ := decode_cons_cons.mp h
    rw [List.length_cons, List.length_cons, List.length_cons, ih hrest]
    omega

/-- Only the letter case is lost. -/
theorem decode_injective (hs : decode s = some bytes) (ht : decode t = some bytes) :
    s.map Char.toLower = t.map Char.toLower := by
  fun_induction decode s generalizing t bytes with
  | case1 =>
    cases hs
    have hlen := decode_length ht
    rw [List.length_nil, Nat.mul_zero, List.length_eq_zero_iff] at hlen
    rw [hlen]
  | case2 c => cases hs
  | case3 high low s ih =>
    obtain ⟨h, l, rest, hh, hl, hrest, rfl⟩ := decode_cons_cons.mp hs
    match t with
    | [] => cases ht
    | [_] => cases ht
    | high' :: low' :: t =>
      obtain ⟨h', l', rest', hh', hl', hrest', heq⟩ := decode_cons_cons.mp ht
      obtain ⟨hbyte, rfl⟩ := List.cons.inj heq
      obtain ⟨hlt, hlower⟩ := value_some hh
      obtain ⟨llt, llower⟩ := value_some hl
      obtain ⟨hlt', hlower'⟩ := value_some hh'
      obtain ⟨llt', llower'⟩ := value_some hl'
      have hnat := congrArg UInt8.toNat hbyte
      rw [UInt8.toNat_ofNat', UInt8.toNat_ofNat', Nat.mod_eq_of_lt (by omega),
        Nat.mod_eq_of_lt (by omega)] at hnat
      obtain rfl : h = h' := by omega
      obtain rfl : l = l' := by omega
      rw [List.map_cons, List.map_cons, List.map_cons, List.map_cons, ih hrest hrest', hlower,
        hlower', llower, llower']

end Hex
