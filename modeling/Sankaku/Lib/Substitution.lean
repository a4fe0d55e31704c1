import Mathlib.Algebra.BigOperators.Group.List.Basic
import Mathlib.Data.List.Nodup

namespace Substitution

variable {G : Type*} [AddCommGroup G]

/-- The unknowns of `columns` add up to `rhs`. -/
structure Equation (G : Type*) where
  columns : List Nat
  pivot : Nat
  rhs : G

def Equation.Holds (e : Equation G) (x : Nat → G) : Prop := (e.columns.map x).sum = e.rhs

/-- The value that the other unknowns leave for the pivot. -/
def Equation.solution (e : Equation G) (x : Nat → G) : G :=
  e.rhs - ((e.columns.erase e.pivot).map x).sum

def Equation.solve (e : Equation G) (x : Nat → G) : Nat → G :=
  Function.update x e.pivot (e.solution x)

def substitute (equations : List (Equation G)) (x : Nat → G) : Nat → G :=
  equations.foldl (fun x e => e.solve x) x

structure Triangular (equations : List (Equation G)) : Prop where
  pivot_mem : ∀ e ∈ equations, e.pivot ∈ e.columns
  nodup : ∀ e ∈ equations, e.columns.Nodup
  order : equations.Pairwise (fun e f => f.pivot ∉ e.columns)

variable {e : Equation G} {equations : List (Equation G)} {x y : Nat → G}

theorem Equation.sum_split (hpivot : e.pivot ∈ e.columns) (x : Nat → G) :
    (e.columns.map x).sum = x e.pivot + ((e.columns.erase e.pivot).map x).sum :=
  (List.sum_map_erase x hpivot).symm

theorem Equation.rest_congr (hnodup : e.columns.Nodup)
    (h : ∀ c ∈ e.columns, c ≠ e.pivot → x c = y c) :
    ((e.columns.erase e.pivot).map x).sum = ((e.columns.erase e.pivot).map y).sum := by
  congr 1
  refine List.map_congr_left fun c hc => ?_
  obtain ⟨hne, hc⟩ := hnodup.mem_erase_iff.mp hc
  exact h c hc hne

theorem Equation.solve_holds (hpivot : e.pivot ∈ e.columns) (hnodup : e.columns.Nodup)
    (x : Nat → G) : e.Holds (e.solve x) := by
  have hrest : ((e.columns.erase e.pivot).map (e.solve x)).sum =
      ((e.columns.erase e.pivot).map x).sum :=
    Equation.rest_congr hnodup fun c _ hne => Function.update_of_ne hne ..
  rw [Equation.Holds, Equation.sum_split hpivot, hrest, solve, Function.update_self, solution,
    sub_add_cancel]

theorem Equation.Holds.congr (h : e.Holds x) (hxy : ∀ c ∈ e.columns, y c = x c) : e.Holds y := by
  rw [Equation.Holds, List.map_congr_left hxy]
  exact h

/-- A solution is what the equation leaves. -/
theorem Equation.Holds.pivot (h : e.Holds y) (hpivot : e.pivot ∈ e.columns)
    (hnodup : e.columns.Nodup) (hxy : ∀ c ∈ e.columns, c ≠ e.pivot → x c = y c) :
    e.solution x = y e.pivot := by
  rw [solution, Equation.rest_congr hnodup hxy, sub_eq_iff_eq_add, ← Equation.sum_split hpivot]
  exact h.symm

omit [AddCommGroup G] in
theorem Triangular.tail (h : Triangular (e :: equations)) : Triangular equations :=
  ⟨fun f hf => h.pivot_mem f (List.mem_cons_of_mem e hf),
    fun f hf => h.nodup f (List.mem_cons_of_mem e hf), (List.pairwise_cons.mp h.order).2⟩

theorem substitute_of_not_pivot (h : ∀ e ∈ equations, c ≠ e.pivot) :
    substitute equations x c = x c := by
  induction equations generalizing x with
  | nil => rfl
  | cons e equations ih =>
    have htail := ih (x := e.solve x) fun f hf => h f (List.mem_cons_of_mem e hf)
    rw [Equation.solve, Function.update_of_ne (h e List.mem_cons_self)] at htail
    exact htail

/-- Whatever the other unknowns are, substitution finds a solution. -/
theorem substitute_holds (h : Triangular equations) (x : Nat → G) :
    ∀ e ∈ equations, e.Holds (substitute equations x) := by
  induction equations generalizing x with
  | nil => nofun
  | cons e equations ih =>
    intro f hf
    rcases List.mem_cons.mp hf with rfl | hf
    · refine (Equation.solve_holds (h.pivot_mem f hf) (h.nodup f hf) x).congr fun c hc => ?_
      refine substitute_of_not_pivot (x := f.solve x) fun g hg heq => ?_
      exact (List.pairwise_cons.mp h.order).1 g hg (heq ▸ hc)
    · exact ih h.tail (e.solve x) f hf

/-- There is no other solution with those unknowns. -/
theorem substitute_unique (h : Triangular equations) (hy : ∀ e ∈ equations, e.Holds y)
    (hxy : ∀ c, (∀ e ∈ equations, c ≠ e.pivot) → x c = y c) : substitute equations x = y := by
  induction equations generalizing x with
  | nil => exact funext fun c => hxy c nofun
  | cons e equations ih =>
    have hlater := (List.pairwise_cons.mp h.order).1
    have hvalue : e.solution x = y e.pivot := by
      refine (hy e List.mem_cons_self).pivot (h.pivot_mem e List.mem_cons_self)
        (h.nodup e List.mem_cons_self) fun c hc hne => hxy c fun f hf heq => ?_
      rcases List.mem_cons.mp hf with rfl | hf
      · exact hne heq
      · exact hlater f hf (heq ▸ hc)
    refine ih (x := e.solve x) h.tail (fun f hf => hy f (List.mem_cons_of_mem e hf)) fun c hc => ?_
    rcases eq_or_ne c e.pivot with rfl | hne
    · rw [Equation.solve, Function.update_self, hvalue]
    · rw [Equation.solve, Function.update_of_ne hne]
      refine hxy c fun f hf => ?_
      rcases List.mem_cons.mp hf with rfl | hf
      · exact hne
      · exact hc f hf

end Substitution
