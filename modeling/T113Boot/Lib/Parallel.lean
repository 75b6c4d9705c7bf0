/- Module: T113Boot/Lib/Parallel
   layer: library
   digest: Two partial computations side by side, with results that are alike. -/

import Mathlib.Logic.Basic

set_option autoImplicit false
set_option relaxedAutoImplicit false

namespace T113Boot.Lib.Parallel

variable {α β γ δ : Type} {r : α → β → Prop} {a : Option α} {b : Option β}

theorem rel_bind {q : γ → δ → Prop} {f : α → Option γ} {g : β → Option δ} (first : Option.Rel r a b)
    (rest : ∀ x y, b = some y → r x y → Option.Rel q (f x) (g y)) :
    Option.Rel q (a.bind f) (b.bind g) := by
  cases first with
  | none => exact .none
  | some alike => exact rest _ _ rfl alike

theorem rel_map {q : α → γ → Prop} {f : β → γ} (weaken : ∀ x y, r x y → q x (f y))
    (rel : Option.Rel r a b) : Option.Rel q a (b.map f) := by
  cases rel with
  | none => exact .none
  | some alike => exact .some (weaken _ _ alike)

theorem map_eq_of_rel {f : α → γ} {g : β → γ} (same : ∀ x y, r x y → f x = g y)
    (rel : Option.Rel r a b) : a.map f = b.map g := by
  cases rel with
  | none => rfl
  | some alike => exact congrArg some (same _ _ alike)

theorem rel_imp {q : α → β → Prop} (weaken : ∀ x y, r x y → q x y) (rel : Option.Rel r a b) :
    Option.Rel q a b := by
  cases rel with
  | none => exact .none
  | some alike => exact .some (weaken _ _ alike)

end T113Boot.Lib.Parallel
