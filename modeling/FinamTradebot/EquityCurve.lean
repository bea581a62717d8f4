import Mathlib.Algebra.Order.Group.Basic
import Mathlib.Algebra.BigOperators.Group.List.Basic
import Mathlib.Data.List.Infix
import Mathlib.Order.Bounds.Basic

/-!
The curve of the running sums of a list, which starts at 0: the levels it has had, its
highest one, and its drops from the highest level so far. Each greatest element follows
the list one entry at a time.
-/
namespace EquityCurve
variable {G : Type} [AddCommGroup G] [LinearOrder G] {xs : List G} {x top drop : G}

/-- The values of the running sum, 0 included. -/
def Levels (xs : List G) : Set G := {level | ∃ first, first <+: xs ∧ level = first.sum}

/-- How far the running sum lies below its greatest value so far, at each of its points. -/
def Drops (xs : List G) : Set G :=
  {drop | ∃ first, first <+: xs ∧ ∃ top, IsGreatest (Levels first) top ∧ drop = top - first.sum}

theorem levels_nil : IsGreatest (Levels ([] : List G)) 0 := by
  refine ⟨⟨[], List.prefix_refl [], rfl⟩, ?_⟩
  rintro level ⟨first, inside, rfl⟩
  rw [List.prefix_nil.mp inside, List.sum_nil]

theorem levels_append (greatest : IsGreatest (Levels xs) top) :
    IsGreatest (Levels (xs ++ [x])) (max top (xs ++ [x]).sum) := by
  obtain ⟨⟨first, inside, rfl⟩, bound⟩ := greatest
  constructor
  · rcases max_choice first.sum (xs ++ [x]).sum with old | new
    · exact ⟨first, inside.trans (List.prefix_append xs [x]), old⟩
    · exact ⟨xs ++ [x], List.prefix_refl _, new⟩
  · rintro level ⟨other, within, rfl⟩
    rcases List.prefix_concat_iff.mp within with whole | part
    · rw [whole]
      exact le_max_right _ _
    · exact (bound ⟨other, part, rfl⟩).trans (le_max_left _ _)

theorem drops_nil : IsGreatest (Drops ([] : List G)) 0 := by
  refine ⟨⟨[], List.prefix_refl [], 0, levels_nil, by simp⟩, ?_⟩
  rintro drop ⟨first, inside, top, greatest, rfl⟩
  obtain rfl := List.prefix_nil.mp inside
  rw [greatest.unique levels_nil, List.sum_nil, sub_self]

theorem drops_append (greatest : IsGreatest (Levels xs) top) (largest : IsGreatest (Drops xs) drop) :
    IsGreatest (Drops (xs ++ [x]))
      (max drop (max top (xs ++ [x]).sum - (xs ++ [x]).sum)) := by
  have next := levels_append (x := x) greatest
  obtain ⟨⟨first, inside, level, highest, rfl⟩, bound⟩ := largest
  constructor
  · rcases max_choice (level - first.sum) (max top (xs ++ [x]).sum - (xs ++ [x]).sum) with old | new
    · exact ⟨first, inside.trans (List.prefix_append xs [x]), level, highest, old⟩
    · exact ⟨xs ++ [x], List.prefix_refl _, _, next, new⟩
  · rintro other ⟨part, within, peak, top', rfl⟩
    rcases List.prefix_concat_iff.mp within with rfl | shorter
    · rw [top'.unique next]
      exact le_max_right _ _
    · exact (bound ⟨part, shorter, peak, top', rfl⟩).trans (le_max_left _ _)

end EquityCurve
