import Sankaku.Lib.Decks
import Sankaku.Model.WirehairTools

namespace Sankaku
open Decks

theorem place_eq (deck : List Nat) (jj : Nat) (h : ii < 2 ^ 16) :
    Sankaku.place deck jj ii = Decks.place deck jj ii := by
  rw [Sankaku.place, Decks.place, Nat.mod_eq_of_lt h]

/-- What dealing the places up to `n` leaves of the memory before. -/
structure Dealt (memory deck : List Nat) (n : Nat) : Prop where
  cards : IsDeck deck n
  rest : deck.drop n = memory.drop n
  length_eq : deck.length = memory.length

theorem Dealt.place (h : Dealt memory deck ii) (hjj : jj < ii) (hroom : ii < memory.length)
    (hfit : ii < 2 ^ 16) : Dealt memory (Sankaku.place deck jj ii) (ii + 1) := by
  rw [place_eq deck jj hfit]
  refine ⟨h.cards.place (h.length_eq ▸ hroom) hjj, ?_, by rw [place_length, h.length_eq]⟩
  rw [Decks.place, List.drop_set_of_lt (by omega), List.drop_set_of_lt (by omega), ← List.drop_drop,
    h.rest, List.drop_drop]

theorem Dealt.draw8 (h : Dealt memory deck ii) (rv : UInt32) (shift : Nat) (hpos : 0 < ii)
    (hroom : ii < memory.length) (hfit : ii < 2 ^ 16) :
    Dealt memory (Sankaku.place deck (Sankaku.draw8 rv shift ii) ii) (ii + 1) :=
  h.place (Nat.mod_lt _ hpos) hroom hfit

theorem Dealt.draw16 (h : Dealt memory deck ii) (rv : UInt32) (shift : Nat) (hpos : 0 < ii)
    (hroom : ii < memory.length) (hfit : ii < 2 ^ 16) :
    Dealt memory (Sankaku.place deck (Sankaku.draw16 rv shift ii) ii) (ii + 1) :=
  h.place (Nat.mod_lt _ hpos) hroom hfit

/-- However many cards the last turn of the loop finds, all of them are dealt. -/
theorem shuffle8_dealt (prng : PCGRandom) (h : Dealt memory deck ii) (hpos : 0 < ii)
    (hroom : ii + rest ≤ memory.length) (hfit : ii + rest ≤ 2 ^ 16) :
    Dealt memory (shuffle8 prng deck ii rest).1 (ii + rest) := by
  induction prng, deck, ii, rest using shuffle8.induct with
  | case1 prng deck ii => exact h
  | case2 prng deck ii rv prng' hnext =>
    simp only [shuffle8, hnext]
    exact h.draw8 rv 16 hpos (by omega) (by omega)
  | case3 prng deck ii rv prng' hnext =>
    simp only [shuffle8, hnext]
    have h1 := h.draw8 rv 8 hpos (by omega) (by omega)
    exact h1.draw8 rv 16 (by omega) (by omega) (by omega)
  | case4 prng deck ii rv prng' hnext =>
    simp only [shuffle8, hnext]
    have h1 := h.draw8 rv 0 hpos (by omega) (by omega)
    have h2 := h1.draw8 rv 8 (by omega) (by omega) (by omega)
    exact h2.draw8 rv 16 (by omega) (by omega) (by omega)
  | case5 prng deck ii rest rv prng' hnext _ _ _ ih =>
    simp only [shuffle8, hnext]
    have h1 := h.draw8 rv 0 hpos (by omega) (by omega)
    have h2 := h1.draw8 rv 8 (by omega) (by omega) (by omega)
    have h3 := h2.draw8 rv 16 (by omega) (by omega) (by omega)
    have h4 := h3.draw8 rv 24 (by omega) (by omega) (by omega)
    rw [show ii + (rest + 4) = ii + 4 + rest by omega]
    exact ih h4 (by omega) (by omega) (by omega)

theorem shuffle16_dealt (prng : PCGRandom) (h : Dealt memory deck ii) (hpos : 0 < ii)
    (hroom : ii + rest ≤ memory.length) (hfit : ii + rest ≤ 2 ^ 16) :
    Dealt memory (shuffle16 prng deck ii rest).1 (ii + rest) := by
  induction prng, deck, ii, rest using shuffle16.induct with
  | case1 prng deck ii => exact h
  | case2 prng deck ii rv prng' hnext =>
    simp only [shuffle16, hnext]
    exact h.draw16 rv 0 hpos (by omega) (by omega)
  | case3 prng deck ii rest rv prng' hnext _ ih =>
    simp only [shuffle16, hnext]
    have h1 := h.draw16 rv 0 hpos (by omega) (by omega)
    have h2 := h1.draw16 rv 16 (by omega) (by omega) (by omega)
    rw [show ii + (rest + 2) = ii + 2 + rest by omega]
    exact ih h2 (by omega) (by omega) (by omega)

theorem shuffleDeck16_dealt (prng : PCGRandom) (memory : List Nat) (hcount : 0 < count)
    (hroom : count ≤ memory.length) (hfit : count ≤ 2 ^ 16) :
    Dealt memory (shuffleDeck16 prng memory count).1 count := by
  have hstart : Dealt memory (memory.set 0 0) 1 :=
    ⟨isDeck_one memory (by omega), List.drop_set_of_lt (by omega), List.length_set⟩
  have hall : 1 + (count - 1) = count := by omega
  have hroom : 1 + (count - 1) ≤ memory.length := by omega
  have hfit : 1 + (count - 1) ≤ 2 ^ 16 := by omega
  simp only [shuffleDeck16]
  split
  · have := shuffle8_dealt prng hstart (by omega) hroom hfit
    rwa [hall] at this
  · have := shuffle16_dealt prng hstart (by omega) hroom hfit
    rwa [hall] at this

/-- The deck holds every number below `count` once, and nothing beyond it is
written. -/
theorem shuffleDeck16_perm (prng : PCGRandom) (memory : List Nat) (hcount : 0 < count)
    (hroom : count ≤ memory.length) (hfit : count ≤ 2 ^ 16) :
    ∃ deck, (shuffleDeck16 prng memory count).1 = deck ++ memory.drop count ∧
      deck.Perm (List.range count) := by
  have h := shuffleDeck16_dealt prng memory hcount hroom hfit
  refine ⟨(shuffleDeck16 prng memory count).1.take count, ?_, h.cards⟩
  rw [← h.rest, List.take_append_drop]

theorem shuffleDeck16_perm_five :
    ∃ deck, (shuffleDeck16 (PCGRandom.seed 1 2) [9, 9, 9, 9, 9, 9] 5).1 = deck ++ [9] ∧
      deck.Perm (List.range 5) :=
  shuffleDeck16_perm (PCGRandom.seed 1 2) [9, 9, 9, 9, 9, 9] (by decide) (by decide) (by decide)

end Sankaku
