/- Module: T113Boot/Lib/Runs
   layer: library
   digest: Runs of a step that may be undefined, and what holds throughout them. -/

import Mathlib.Data.List.Induction
import Mathlib.Data.List.ReduceOption

set_option autoImplicit false
set_option relaxedAutoImplicit false

namespace T113Boot.Lib.Runs

variable {σ α : Type} (step : σ → α → Option σ)

/-- Steps one after another, until one is undefined. -/
def run : σ → List α → Option σ
  | s, [] => some s
  | s, a :: as => (step s a).bind fun s' => run s' as

/-- Every step of a run meets a condition on the state before it. -/
def Along (C : σ → α → Prop) : σ → List α → Prop
  | _, [] => True
  | s, a :: as => C s a ∧ ∀ s', step s a = some s' → Along C s' as

/-- The run is defined at every moment, and what it has reached there has the property. -/
def Throughout (P : σ → Prop) (s : σ) (as : List α) : Prop :=
  ∀ n, ∃ s', run step s (as.take n) = some s' ∧ P s'

/-- Whatever a run has reached at a moment at which it is defined has the property. -/
def Always (P : σ → Prop) (s : σ) (as : List α) : Prop :=
  ∀ n s', run step s (as.take n) = some s' → P s'

variable {step} {s s' : σ} {a : α} {as : List α} {P : σ → Prop} {C : σ → α → Prop}

/-- It is checked by running. -/
instance decidableAlong [∀ s a, Decidable (C s a)] : ∀ s as, Decidable (Along step C s as)
  | _, [] => inferInstanceAs (Decidable True)
  | s, a :: as =>
    match first : step s a with
    | none => decidable_of_iff (C s a)
        ⟨fun here => ⟨here, fun _ next => by cases first.symm.trans next⟩, fun along => along.1⟩
    | some s' =>
      have := decidableAlong s' as
      decidable_of_iff (C s a ∧ Along step C s' as)
        ⟨fun both => ⟨both.1, fun _ next => by cases first.symm.trans next; exact both.2⟩,
          fun along => ⟨along.1, along.2 s' first⟩⟩

theorem run_cons (h : step s a = some s') : run step s (a :: as) = run step s' as := by
  rw [run, h, Option.bind_some]

theorem run_append (s : σ) (as as' : List α) :
    run step s (as ++ as') = (run step s as).bind fun s' => run step s' as' := by
  induction as generalizing s with
  | nil => rfl
  | cons a as ih =>
    rw [List.cons_append, run, run]
    rcases step s a with _ | s'
    · rfl
    · exact ih s'

/-- An invariant of the step is one of runs. -/
theorem run_invariant (Inv : σ → Prop)
    (keeps : ∀ {s s' : σ} {a : α}, Inv s → step s a = some s' → Inv s')
    (start : Inv s) (h : run step s as = some s') : Inv s' := by
  induction as generalizing s with
  | nil =>
    cases h
    exact start
  | cons a as ih =>
    obtain ⟨mid, first, rest⟩ := Option.bind_eq_some_iff.mp h
    exact ih (keeps start first) rest

/-- What the steps that meet a condition keep holds after a run of them. -/
theorem run_invariant_along (Inv : σ → Prop)
    (keeps : ∀ {s s' : σ} {a : α}, Inv s → C s a → step s a = some s' → Inv s')
    (start : Inv s) (meets : Along step C s as) (h : run step s as = some s') : Inv s' := by
  induction as generalizing s with
  | nil =>
    cases h
    exact start
  | cons a as ih =>
    obtain ⟨mid, first, rest⟩ := Option.bind_eq_some_iff.mp h
    exact ih (keeps start meets.1 first) (meets.2 mid first) rest

/-- A run of steps that each do what an abstract step does is defined and does what its run does. -/
theorem run_refines {τ : Type} {next : τ → α → τ} (R : σ → τ → Prop)
    (simulates : ∀ {s : σ} {t : τ}, R s t → ∀ a, ∃ s', step s a = some s' ∧ R s' (next t a))
    {t : τ} (start : R s t) (as : List α) :
    ∃ s', run step s as = some s' ∧ R s' (as.foldl next t) := by
  induction as generalizing s t with
  | nil => exact ⟨s, rfl, start⟩
  | cons a as ih =>
    obtain ⟨mid, first, related⟩ := simulates start a
    rw [run_cons first]
    exact ih related

theorem throughout_nil : Throughout step P s ([] : List α) ↔ P s := by
  constructor
  · intro h
    obtain ⟨s', reached, holds⟩ := h 0
    cases reached
    exact holds
  · intro h n
    exact ⟨s, by rw [List.take_nil]; rfl, h⟩

theorem throughout_cons : Throughout step P s (a :: as) ↔
    P s ∧ ∃ s', step s a = some s' ∧ Throughout step P s' as := by
  constructor
  · intro h
    refine ⟨?_, ?_⟩
    · obtain ⟨s', reached, holds⟩ := h 0
      cases reached
      exact holds
    · obtain ⟨_, reached, -⟩ := h 1
      obtain ⟨s', first, -⟩ := Option.bind_eq_some_iff.mp reached
      refine ⟨s', first, fun n => ?_⟩
      obtain ⟨s'', later, holds⟩ := h (n + 1)
      rw [List.take_succ_cons, run_cons first] at later
      exact ⟨s'', later, holds⟩
  · rintro ⟨here, s', first, rest⟩ n
    cases n with
    | zero => exact ⟨s, rfl, here⟩
    | succ n =>
      rw [List.take_succ_cons, run_cons first]
      exact rest n

/-- Where one step keeps a property exactly on a condition, a run has it throughout exactly if each
of its steps meets the condition. -/
theorem throughout_iff_along (Inv : σ → Prop)
    (keeps : ∀ {s s' : σ} {a : α}, Inv s → step s a = some s' → Inv s')
    (exact_ : ∀ {s : σ} {a : α}, Inv s → P s → ((∃ s', step s a = some s' ∧ P s') ↔ C s a))
    (start : Inv s) (here : P s) : Throughout step P s as ↔ Along step C s as := by
  induction as generalizing s with
  | nil => exact iff_of_true (throughout_nil.mpr here) trivial
  | cons a as ih =>
    rw [throughout_cons]
    constructor
    · rintro ⟨-, s', first, rest⟩
      obtain ⟨_, reached, next⟩ := rest 0
      cases reached
      refine ⟨(exact_ start here).mp ⟨s', first, next⟩, fun s'' again => ?_⟩
      rw [first] at again
      cases again
      exact (ih (keeps start first) next).mp rest
    · rintro ⟨meets, rest⟩
      obtain ⟨s', first, next⟩ := (exact_ start here).mpr meets
      exact ⟨here, s', first, (ih (keeps start first) next).mpr (rest s' first)⟩

theorem throughout_of_along
    (serves : ∀ {s : σ} {a : α}, P s → C s a → ∃ s', step s a = some s' ∧ P s')
    (start : P s) (meets : Along step C s as) : Throughout step P s as := by
  induction as generalizing s with
  | nil => exact throughout_nil.mpr start
  | cons a as ih =>
    obtain ⟨s', first, next⟩ := serves start meets.1
    exact throughout_cons.mpr ⟨start, s', first, ih next (meets.2 s' first)⟩

theorem Throughout.imp {Q : σ → Prop} (implies : ∀ s, P s → Q s)
    (throughout : Throughout step P s as) : Throughout step Q s as := by
  intro n
  obtain ⟨s', reached, holds⟩ := throughout n
  exact ⟨s', reached, implies s' holds⟩

theorem always_nil : Always step P s ([] : List α) ↔ P s := by
  constructor
  · exact fun h => h 0 s rfl
  · intro h n s' reached
    rw [List.take_nil] at reached
    cases reached
    exact h

theorem always_cons : Always step P s (a :: as) ↔
    P s ∧ ∀ s', step s a = some s' → Always step P s' as := by
  constructor
  · refine fun h => ⟨h 0 s rfl, fun s' first n s'' later => h (n + 1) s'' ?_⟩
    rw [List.take_succ_cons, run_cons first]
    exact later
  · rintro ⟨here, rest⟩ n s'' reached
    cases n with
    | zero =>
      cases reached
      exact here
    | succ n =>
      obtain ⟨s', first, later⟩ := Option.bind_eq_some_iff.mp reached
      exact rest s' first n s'' later

theorem always_iff_along (Inv : σ → Prop)
    (keeps : ∀ {s s' : σ} {a : α}, Inv s → step s a = some s' → Inv s')
    (exact_ : ∀ {s : σ} {a : α}, Inv s → P s → ((∀ s', step s a = some s' → P s') ↔ C s a))
    (start : Inv s) (here : P s) : Always step P s as ↔ Along step C s as := by
  induction as generalizing s with
  | nil => exact iff_of_true (always_nil.mpr here) trivial
  | cons a as ih =>
    rw [always_cons]
    constructor
    · rintro ⟨-, rest⟩
      have next : ∀ s', step s a = some s' → P s' := fun s' first => rest s' first 0 s' rfl
      refine ⟨(exact_ start here).mp next, fun s' first => ?_⟩
      exact (ih (keeps start first) (next s' first)).mp (rest s' first)
    · rintro ⟨meets, rest⟩
      refine ⟨here, fun s' first => ?_⟩
      have next := (exact_ start here).mpr meets s' first
      exact (ih (keeps start first) next).mpr (rest s' first)

theorem along_iff_moments : Along step C s as ↔
    ∀ n a, as[n]? = some a → ∀ s', run step s (as.take n) = some s' → C s' a := by
  induction as generalizing s with
  | nil => exact iff_of_true trivial fun n a there => by simp at there
  | cons b as ih =>
    constructor
    · rintro ⟨here, rest⟩ n a there s' reached
      cases n with
      | zero =>
        cases there
        cases reached
        exact here
      | succ n =>
        obtain ⟨mid, first, later⟩ := Option.bind_eq_some_iff.mp reached
        exact ih.mp (rest mid first) n a there s' later
    · intro moments
      refine ⟨moments 0 b rfl s rfl, fun mid first => ?_⟩
      refine ih.mpr fun n a there s' later => moments (n + 1) a there s' ?_
      rw [List.take_succ_cons, run_cons first]
      exact later

/-- Conditions that agree wherever the first has held so far hold along the same runs. -/
theorem along_iff {C' : σ → α → Prop} (Inv : σ → Prop)
    (keeps : ∀ {s s' : σ} {a : α}, Inv s → C s a → step s a = some s' → Inv s')
    (same : ∀ {s : σ} {a : α}, Inv s → (C s a ↔ C' s a)) (start : Inv s) :
    Along step C s as ↔ Along step C' s as := by
  induction as generalizing s with
  | nil => exact Iff.rfl
  | cons a as ih =>
    constructor
    · rintro ⟨here, rest⟩
      exact ⟨(same start).mp here, fun s' first => (ih (keeps start here first)).mp (rest s' first)⟩
    · rintro ⟨here, rest⟩
      have holds := (same start).mpr here
      exact ⟨holds, fun s' first => (ih (keeps start holds first)).mpr (rest s' first)⟩

theorem along_of_invariant (Inv : σ → Prop)
    (keeps : ∀ {s s' : σ} {a : α}, Inv s → step s a = some s' → Inv s')
    (holds : ∀ {s : σ} {a : α}, Inv s → C s a) (start : Inv s) : Along step C s as := by
  induction as generalizing s with
  | nil => exact trivial
  | cons a as ih => exact ⟨holds start, fun s' first => ih (keeps start first)⟩

theorem Along.take (along : Along step C s as) (n : Nat) : Along step C s (as.take n) := by
  induction as generalizing s n with
  | nil =>
    rw [List.take_nil]
    exact trivial
  | cons a as ih =>
    cases n with
    | zero => exact trivial
    | succ n =>
      rw [List.take_succ_cons]
      exact ⟨along.1, fun s' first => ih (along.2 s' first) n⟩

theorem Along.drop (along : Along step C s as) {n : Nat}
    (reached : run step s (as.take n) = some s') : Along step C s' (as.drop n) := by
  induction as generalizing s n with
  | nil =>
    rw [List.drop_nil]
    exact trivial
  | cons a as ih =>
    cases n with
    | zero =>
      cases reached
      exact along
    | succ n =>
      obtain ⟨mid, first, later⟩ := Option.bind_eq_some_iff.mp reached
      exact ih (along.2 mid first) later

theorem run_reduceOption {serve : σ → Option α → Option σ}
    (given : ∀ s a, serve s (some a) = step s a) {events : List (Option α)}
    (idle : Along serve (fun s event => event = none → serve s none = some s) s events) :
    run serve s events = run step s events.reduceOption := by
  induction events generalizing s with
  | nil => rfl
  | cons event events ih =>
    obtain ⟨here, rest⟩ := idle
    rcases event with _ | a
    · rw [List.reduceOption_cons_of_none, run_cons (here rfl)]
      exact ih (rest s (here rfl))
    · rw [List.reduceOption_cons_of_some, run, run, given]
      rcases first : step s a with _ | s'
      · rfl
      · exact ih (rest s' ((given s a).trans first))

/-! Steps that are always defined, seen through a view that only some actions change. -/

section Views

variable {β : Type} {next : σ → α → σ} (view : σ → β) {value : α → β} {acts : α → Bool}

theorem view_foldl_last {as : List α} (s : σ)
    (effect : ∀ s, ∀ a ∈ as, view (next s a) = if acts a then value a else view s) :
    view (as.foldl next s) = ((as.filter acts).getLast?.map value).getD (view s) := by
  induction as using List.reverseRecOn with
  | nil => rfl
  | append_singleton as a ih =>
    have earlier := ih fun s b here => effect s b (List.mem_append_left _ here)
    rw [List.foldl_append, List.foldl_cons, List.foldl_nil,
      effect _ a (List.mem_append_right _ (List.mem_singleton.mpr rfl)), List.filter_append]
    rcases does : acts a with _ | _
    · rw [List.filter_cons_of_neg (by simp [does]), List.filter_nil, List.append_nil, ← earlier]
      rfl
    · rw [List.filter_cons_of_pos does, List.filter_nil, List.getLast?_append_of_ne_nil _ (by simp)]
      rfl

theorem view_foldl_merge {as : List α} (s : σ) (merge : β → β → β)
    (effect : ∀ s, ∀ a ∈ as,
      view (next s a) = if acts a then merge (view s) (value a) else view s) :
    view (as.foldl next s) = ((as.filter acts).map value).foldl merge (view s) := by
  induction as generalizing s with
  | nil => rfl
  | cons a as ih =>
    have later := ih (next s a) fun s b here => effect s b (List.mem_cons_of_mem _ here)
    rw [List.foldl_cons, later, effect s a List.mem_cons_self]
    rcases does : acts a with _ | _
    · rw [List.filter_cons_of_neg (by simp [does])]
      rfl
    · rw [List.filter_cons_of_pos does]
      rfl

end Views

end T113Boot.Lib.Runs
