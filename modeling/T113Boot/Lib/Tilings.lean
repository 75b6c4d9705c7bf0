/- Module: T113Boot/Lib/Tilings
   layer: library
   digest: Rows of pieces that lie one behind the other and leave no gap between them. -/

import Mathlib.Data.List.Pairwise

set_option autoImplicit false
set_option relaxedAutoImplicit false

namespace T113Boot.Lib.Tilings

variable {α : Type} {start stop : α → Nat} {lo mid hi : Nat} {a b : α} {l l' : List α}

/-- The pieces cover the numbers from `lo` up to before `hi`, in their order. -/
def Tiles (start stop : α → Nat) : Nat → List α → Nat → Prop
  | lo, [], hi => lo = hi
  | lo, a :: l, hi => start a = lo ∧ Tiles start stop (stop a) l hi

theorem tiles_append : Tiles start stop lo (l ++ l') hi ↔
    ∃ mid, Tiles start stop lo l mid ∧ Tiles start stop mid l' hi := by
  induction l generalizing lo with
  | nil =>
    constructor
    · exact fun tiles => ⟨lo, rfl, tiles⟩
    · rintro ⟨mid, rfl, tiles⟩
      exact tiles
  | cons a l ih =>
    constructor
    · rintro ⟨here, tiles⟩
      obtain ⟨mid, front, back⟩ := ih.mp tiles
      exact ⟨mid, ⟨here, front⟩, back⟩
    · rintro ⟨mid, ⟨here, front⟩, back⟩
      exact ⟨here, ih.mpr ⟨mid, front, back⟩⟩

/-- One piece among others. -/
theorem tiles_middle : Tiles start stop lo (l ++ a :: l') hi ↔
    Tiles start stop lo l (start a) ∧ Tiles start stop (stop a) l' hi := by
  rw [tiles_append]
  constructor
  · rintro ⟨mid, front, here, back⟩
    exact ⟨here ▸ front, back⟩
  · rintro ⟨front, back⟩
    exact ⟨start a, front, rfl, back⟩

section Forward

variable (forward : ∀ a, start a ≤ stop a)

include forward

theorem Tiles.le (tiles : Tiles start stop lo l hi) : lo ≤ hi := by
  induction l generalizing lo with
  | nil => exact Nat.le_of_eq tiles
  | cons a l ih =>
    have here := forward a
    have behind := ih tiles.2
    have first := tiles.1
    omega

/-- Every piece lies inside. -/
theorem Tiles.inside (tiles : Tiles start stop lo l hi) (member : a ∈ l) :
    lo ≤ start a ∧ stop a ≤ hi := by
  obtain ⟨front, back, rfl⟩ := List.append_of_mem member
  obtain ⟨before, after⟩ := tiles_middle.mp tiles
  exact ⟨before.le forward, after.le forward⟩

/-- The pieces are sorted and do not overlap. -/
theorem Tiles.sorted (tiles : Tiles start stop lo l hi) :
    l.Pairwise fun a b => stop a ≤ start b := by
  induction l generalizing lo with
  | nil => exact List.Pairwise.nil
  | cons a l ih =>
    refine List.pairwise_cons.mpr ⟨fun b member => ?_, ih tiles.2⟩
    exact (tiles.2.inside forward member).1

/-- Two different pieces do not overlap. -/
theorem Tiles.apart (tiles : Tiles start stop lo l hi) (first : a ∈ l) (second : b ∈ l)
    (other : a ≠ b) : stop a ≤ start b ∨ stop b ≤ start a := by
  have sorted := (tiles.sorted forward).imp (S := fun a b => stop a ≤ start b ∨ stop b ≤ start a)
    fun before => Or.inl before
  have : Std.Symm fun a b => stop a ≤ start b ∨ stop b ≤ start a := ⟨fun _ _ apart => apart.symm⟩
  exact sorted.forall first second other

end Forward

end T113Boot.Lib.Tilings
