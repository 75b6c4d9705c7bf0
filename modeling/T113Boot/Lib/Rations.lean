/- Module: T113Boot/Lib/Rations
   layer: library
   digest: Logs in which only so much is spent between two refills. -/

import Mathlib.Data.List.Infix

set_option autoImplicit false
set_option relaxedAutoImplicit false

namespace T113Boot.Lib.Rations

variable {α : Type} {refills spends : α → Bool} {limit left : Nat} {log : List α} {a : α}

/-- Nothing is refilled within the window. -/
def Unfilled (refills : α → Bool) (window : List α) : Prop := ∀ a ∈ window, refills a = false

/-- In no window without a refill more than the limit is spent, and since the last refill so little
that `left` more would not pass it. -/
structure Rationed (refills spends : α → Bool) (limit left : Nat) (log : List α) : Prop where
  windows : ∀ window, window <:+: log → Unfilled refills window → window.countP spends ≤ limit
  recent : ∀ window, window <:+ log → Unfilled refills window →
    window.countP spends + left ≤ limit

theorem rationed_nil (bound : left ≤ limit) : Rationed refills spends limit left [] := by
  refine ⟨fun window inside _ => ?_, fun window tail _ => ?_⟩
  · rw [List.infix_nil.mp inside, List.countP_nil]
    exact Nat.zero_le _
  · rw [List.suffix_nil.mp tail, List.countP_nil, Nat.zero_add]
    exact bound

theorem Rationed.mono (rationed : Rationed refills spends limit left log) {less : Nat}
    (bound : less ≤ left) : Rationed refills spends limit less log := by
  refine ⟨rationed.windows, fun window tail unfilled => ?_⟩
  have recent := rationed.recent window tail unfilled
  omega

theorem Rationed.concat (rationed : Rationed refills spends limit left log) {after : Nat}
    (bound : after ≤ limit) (paid : refills a = false → [a].countP spends + after ≤ left) :
    Rationed refills spends limit after (log ++ [a]) := by
  have recent : ∀ window, window <:+ log ++ [a] → Unfilled refills window →
      window.countP spends + after ≤ limit := by
    intro window tail unfilled
    rcases List.suffix_concat_iff.mp tail with rfl | ⟨front, rfl, before⟩
    · rw [List.countP_nil, Nat.zero_add]
      exact bound
    · have old := rationed.recent front before fun b member =>
        unfilled b (List.mem_append.mpr (.inl member))
      have new := paid (unfilled a (List.mem_append.mpr (.inr List.mem_cons_self)))
      rw [List.countP_append]
      omega
  refine ⟨fun window inside unfilled => ?_, recent⟩
  rcases List.infix_concat_iff.mp inside with tail | before
  · exact Nat.le_trans (Nat.le_add_right _ _) (recent window tail unfilled)
  · exact rationed.windows window before unfilled

end T113Boot.Lib.Rations
