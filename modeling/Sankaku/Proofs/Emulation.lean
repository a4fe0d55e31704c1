import Sankaku.Lib.Stuffing
import Sankaku.Model.Hevc

namespace Sankaku

/-- Behind two zeros a 3 is written before any byte up to 3. -/
def emulationPrevention : Stuffing.Code UInt8 where
  mark := [0x00, 0x00]
  escape := 0x03
  guarded := fun b => decide (b ≤ 0x03)
  escape_guarded := rfl
  mark_ends := by
    intro out h
    change [0x00] ++ [0x00] <:+ out ++ [0x03] at h
    have hlen : [(0x00 : UInt8)].length = [(0x03 : UInt8)].length := rfl
    rw [List.suffix_append_inj_of_length_eq hlen] at h
    cases h.2

/-- The counter is the number of zeros at the end of what was read. -/
def EndsIn (zeroRun : Nat) (seen : Bytes) : Prop :=
  ∀ n, List.replicate n (0x00 : UInt8) <:+ seen ↔ n ≤ zeroRun

theorem EndsIn.start : EndsIn 0 [] := by
  intro n
  rw [List.suffix_nil, List.replicate_eq_nil_iff, Nat.le_zero]

theorem EndsIn.zero (h : EndsIn zeroRun seen) : EndsIn (zeroRun + 1) (seen ++ [0x00]) := by
  intro n
  cases n with
  | zero => exact iff_of_true List.nil_suffix (Nat.zero_le _)
  | succ n =>
    rw [List.replicate_succ', List.suffix_append_inj_of_length_eq rfl, h n, Nat.succ_le_succ_iff,
      and_iff_left rfl]

theorem EndsIn.other (seen : Bytes) (h : byte ≠ 0x00) : EndsIn 0 (seen ++ [byte]) := by
  intro n
  cases n with
  | zero => exact iff_of_true List.nil_suffix (Nat.le_refl 0)
  | succ n =>
    have hlen : [(0x00 : UInt8)].length = [byte].length := rfl
    apply iff_of_false _ (Nat.not_succ_le_zero n)
    rw [List.replicate_succ', List.suffix_append_inj_of_length_eq hlen]
    rintro ⟨_, heq⟩
    exact h (List.cons.inj heq).1.symm

/-- The counter after one more byte. -/
theorem EndsIn.step (h : EndsIn zeroRun seen) (byte : UInt8) :
    EndsIn (if byte = 0x00 then zeroRun + 1 else 0) (seen ++ [byte]) := by
  split
  · rename_i hzero
    subst hzero
    exact h.zero
  · rename_i hne
    exact .other seen hne

/-- The loop and the reader of the code stay in step. A dropped 3 ends the zeros for both. -/
theorem ebspToRbspLoop_unstuff (h : EndsIn zeroRun seen) (ebsp : Bytes) :
    ebspToRbspLoop zeroRun ebsp = emulationPrevention.unstuffAfter seen ebsp := by
  induction ebsp generalizing zeroRun seen with
  | nil => rfl
  | cons byte ebsp ih =>
    have same : emulationPrevention.mark <:+ seen ∧ byte = emulationPrevention.escape ↔
        zeroRun ≥ 2 ∧ byte = 0x03 := and_congr_left (fun _ => h 2)
    rw [ebspToRbspLoop, Stuffing.Code.unstuffAfter]
    by_cases hdrop : zeroRun ≥ 2 ∧ byte = 0x03
    · have hne : byte ≠ 0x00 := by
        rw [hdrop.2]
        decide
      rw [if_pos hdrop, if_pos (same.mpr hdrop), ih (.other seen hne)]
    · rw [if_neg hdrop, if_neg (mt same.mp hdrop), ih (h.step byte)]

theorem ebspToRbsp_unstuff (ebsp : Bytes) : ebspToRbsp ebsp = emulationPrevention.unstuff ebsp :=
  ebspToRbspLoop_unstuff .start ebsp

/-- What H.265 escapes reads back. The output is never longer than the input, and without
a `00 00 03` it is the input. -/
theorem emulation_prevention_undone :
    (∀ rbsp : Bytes, ebspToRbsp (emulationPrevention.stuff rbsp) = rbsp) ∧
    ∀ ebsp : Bytes, (ebspToRbsp ebsp).length ≤ ebsp.length ∧
      (¬ [0x00, 0x00, 0x03] <:+: ebsp → ebspToRbsp ebsp = ebsp) := by
  constructor
  · intro rbsp
    rw [ebspToRbsp_unstuff, Stuffing.Code.unstuff_stuff]
  · intro ebsp
    rw [ebspToRbsp_unstuff]
    exact ⟨emulationPrevention.unstuffAfter_length_le [] ebsp, emulationPrevention.unstuff_free⟩

example : emulationPrevention.stuff [0x00, 0x00, 0x01, 0x11, 0x00, 0x00, 0x00] =
    [0x00, 0x00, 0x03, 0x01, 0x11, 0x00, 0x00, 0x03, 0x00] := by decide

/-- A start code comes through as it is. -/
theorem emulation_prevention_undone_startCode :
    ebspToRbsp annexBStartCode = annexBStartCode :=
  (emulation_prevention_undone.2 annexBStartCode).2 (by decide)

end Sankaku
