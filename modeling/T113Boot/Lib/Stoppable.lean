/- Module: T113Boot/Lib/Stoppable
   layer: library
   digest: Programs over a state that may stop before they return, and their rules. -/

import Mathlib.Logic.Basic

set_option autoImplicit false
set_option relaxedAutoImplicit false

namespace T113Boot.Lib.Stoppable

/-- A program run from a state either returns a value or stops for good, and
both leave a state behind. Stopping models a lost supply or an input that never
comes: what the program did before it stopped stays done. -/
def Prog (σ α : Type) : Type := σ → Option α × σ

variable {σ α β : Type}

namespace Prog

instance : Monad (Prog σ) where
  pure a := fun s => (some a, s)
  bind x f := fun s => match x s with
    | (some a, s') => f a s'
    | (none, s') => (none, s')

/-- Read the state. -/
def read : Prog σ σ := fun s => (some s, s)

/-- Change the state. -/
def modify (f : σ → σ) : Prog σ Unit := fun s => (some (), f s)

@[simp] theorem pure_apply (a : α) (s : σ) : (pure a : Prog σ α) s = (some a, s) := rfl

theorem bind_apply (x : Prog σ α) (f : α → Prog σ β) (s : σ) :
    (x >>= f) s = match x s with
      | (some a, s') => f a s'
      | (none, s') => (none, s') := rfl

@[simp] theorem read_apply (s : σ) : (read : Prog σ σ) s = (some s, s) := rfl
@[simp] theorem modify_apply (f : σ → σ) (s : σ) : modify f s = (some (), f s) := rfl

/-- A first part that returns hands over to the second. -/
theorem bind_of_some {x : Prog σ α} {f : α → Prog σ β} {s s' : σ} {a : α}
    (h : x s = (some a, s')) : (x >>= f) s = f a s' := by
  rw [bind_apply, h]

/-- A first part that stops is the end of the run. -/
theorem bind_of_none {x : Prog σ α} {f : α → Prog σ β} {s s' : σ}
    (h : x s = (none, s')) : (x >>= f) s = (none, s') := by
  rw [bind_apply, h]

/-- A sequence that returns has returned from both parts. -/
theorem bind_returns {x : Prog σ α} {f : α → Prog σ β} {s s'' : σ} {b : β} :
    (x >>= f) s = (some b, s'') ↔ ∃ a s', x s = (some a, s') ∧ f a s' = (some b, s'') := by
  rw [bind_apply]
  rcases x s with ⟨_ | a, s'⟩
  · simp
  · constructor
    · exact fun h => ⟨a, s', rfl, h⟩
    · rintro ⟨a', t, same, h⟩
      cases same
      exact h

theorem bind_assoc {γ : Type} (x : Prog σ α) (f : α → Prog σ β) (g : β → Prog σ γ) :
    x >>= f >>= g = x >>= fun a => f a >>= g := by
  funext s
  simp only [bind_apply]
  rcases x s with ⟨_ | a, s'⟩ <;> rfl

end Prog

open Prog

/-! Weakest preconditions: `Q` is owed by a run that returns, `E` by one that stops. -/

def wp (x : Prog σ α) (Q : α → σ → Prop) (E : σ → Prop) (s : σ) : Prop :=
  match x s with
  | (some a, s') => Q a s'
  | (none, s') => E s'

theorem wp_of_some {x : Prog σ α} {Q : α → σ → Prop} {E : σ → Prop} {s s' : σ} {a : α}
    (h : x s = (some a, s')) : wp x Q E s ↔ Q a s' := by
  simp only [wp, h]

theorem wp_of_none {x : Prog σ α} {Q : α → σ → Prop} {E : σ → Prop} {s s' : σ}
    (h : x s = (none, s')) : wp x Q E s ↔ E s' := by
  simp only [wp, h]

@[simp] theorem wp_pure (a : α) (Q : α → σ → Prop) (E : σ → Prop) (s : σ) :
    wp (pure a) Q E s ↔ Q a s := Iff.rfl

@[simp] theorem wp_read (Q : σ → σ → Prop) (E : σ → Prop) (s : σ) :
    wp read Q E s ↔ Q s s := Iff.rfl

@[simp] theorem wp_modify (f : σ → σ) (Q : Unit → σ → Prop) (E : σ → Prop) (s : σ) :
    wp (modify f) Q E s ↔ Q () (f s) := Iff.rfl

/-- Sequencing: the postcondition of the first part is the precondition of the second. -/
theorem wp_bind (x : Prog σ α) (f : α → Prog σ β) (Q : β → σ → Prop) (E : σ → Prop) (s : σ) :
    wp (x >>= f) Q E s ↔ wp x (fun a => wp (f a) Q E) E s := by
  simp only [wp, bind_apply]
  rcases x s with ⟨_ | a, s'⟩ <;> rfl

theorem wp_mono {x : Prog σ α} {Q Q' : α → σ → Prop} {E E' : σ → Prop} {s : σ}
    (h : wp x Q E s) (hQ : ∀ a s', Q a s' → Q' a s') (hE : ∀ s', E s' → E' s') :
    wp x Q' E' s := by
  simp only [wp] at h ⊢
  rcases hx : x s with ⟨_ | a, s'⟩ <;> rw [hx] at h
  · exact hE s' h
  · exact hQ a s' h

theorem wp_ite (c : Prop) [Decidable c] (x y : Prog σ α) (Q : α → σ → Prop) (E : σ → Prop)
    (s : σ) : wp (if c then x else y) Q E s ↔ if c then wp x Q E s else wp y Q E s := by
  split <;> rfl

/-- A run that must not stop returns. -/
theorem wp_returns {x : Prog σ α} {Q : α → σ → Prop} {s : σ} (h : wp x Q (fun _ => False) s) :
    ∃ a s', x s = (some a, s') ∧ Q a s' := by
  simp only [wp] at h
  rcases hx : x s with ⟨_ | a, s'⟩ <;> rw [hx] at h
  · exact h.elim
  · exact ⟨a, s', rfl, h⟩

/-! A preorder kept by every step is kept by the whole program, stopped or not. -/

/-- Whether it returns or stops, the program leaves a state related to the first. -/
def Keeps (R : σ → σ → Prop) (x : Prog σ α) : Prop := ∀ s, R s (x s).2

section Keeps

variable {R : σ → σ → Prop}

theorem keeps_pure (refl : ∀ s, R s s) (a : α) : Keeps R (pure a : Prog σ α) := refl

theorem keeps_read (refl : ∀ s, R s s) : Keeps R (read : Prog σ σ) := refl

theorem keeps_bind (trans : ∀ s t u, R s t → R t u → R s u) {x : Prog σ α}
    {f : α → Prog σ β} (hx : Keeps R x) (hf : ∀ a, Keeps R (f a)) : Keeps R (x >>= f) := by
  intro s
  have first := hx s
  rw [bind_apply]
  rcases hs : x s with ⟨_ | a, s'⟩ <;> rw [hs] at first
  · exact first
  · exact trans _ _ _ first (hf a s')

theorem keeps_ite {c : Prop} [Decidable c] {x y : Prog σ α} (hx : Keeps R x)
    (hy : Keeps R y) : Keeps R (if c then x else y) := by
  split <;> assumption

end Keeps

end T113Boot.Lib.Stoppable
