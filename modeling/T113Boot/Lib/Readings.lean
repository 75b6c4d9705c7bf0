/- Module: T113Boot/Lib/Readings
   layer: library
   digest: Functions that read a beginning of a list, and what they take of a source without end. -/

import Mathlib.Init

set_option autoImplicit false
set_option relaxedAutoImplicit false

namespace T113Boot.Lib.Readings

variable {ι α β : Type}

/-- The `m` answers of a source from the `q`-th on. -/
def answers (line : Nat → ι) (q m : Nat) : List ι := (List.range' q m).map line

section Answers

variable {line : Nat → ι} {q m : Nat}

theorem answers_succ (line : Nat → ι) (q m : Nat) :
    answers line q (m + 1) = line q :: answers line (q + 1) m := rfl

theorem length_answers (line : Nat → ι) (q m : Nat) : (answers line q m).length = m := by
  rw [answers, List.length_map, List.length_range']

theorem answers_add (line : Nat → ι) (q k m : Nat) :
    answers line q (k + m) = answers line q k ++ answers line (q + k) m := by
  rw [answers, answers, answers, ← List.map_append, List.range'_append_1]

theorem answers_concat (line : Nat → ι) (q m : Nat) :
    answers line q (m + 1) = answers line q m ++ [line (q + m)] := answers_add line q m 1

theorem answers_split {used rest : List ι} (split : answers line q m = used ++ rest) :
    ∃ k j, m = k + j ∧ used = answers line q k ∧ rest = answers line (q + k) j := by
  have lengths := congrArg List.length split
  rw [length_answers, List.length_append] at lengths
  have same := split
  rw [lengths, answers_add] at same
  obtain ⟨front, back⟩ := List.append_inj same (length_answers _ _ _)
  exact ⟨used.length, rest.length, lengths, front.symm, back.symm⟩

end Answers

/-- What a function reads of an input it reads of every input that begins the same. -/
def Reads (f : List ι → Option (α × List ι)) : Prop :=
  ∀ input a rest, f input = some (a, rest) → ∃ used, input = used ++ rest ∧
    ∀ more, f (used ++ more) = some (a, more)

/-- One answer first, and what is read then depends on it. -/
theorem Reads.cons {f : List ι → Option (α × List ι)} (next : ι → List ι → Option (α × List ι))
    (first : ∀ c rest, f (c :: rest) = next c rest) (nothing : f [] = none)
    (later : ∀ c, Reads (next c)) : Reads f := by
  intro input a rest read
  rcases input with _ | ⟨c, input⟩
  · rw [nothing] at read
    cases read
  · rw [first] at read
    obtain ⟨used, split, again⟩ := later c input a rest read
    refine ⟨c :: used, by rw [split, List.cons_append], fun more => ?_⟩
    rw [List.cons_append, first]
    exact again more

theorem reads_some (a : α) : Reads fun input : List ι => some (a, input) := by
  intro input a' rest read
  cases read
  exact ⟨[], rfl, fun more => rfl⟩

/-- One reading behind the other. -/
theorem Reads.bind {f : List ι → Option (α × List ι)} {g : α → List ι → Option (β × List ι)}
    (first : Reads f) (later : ∀ a, Reads (g a)) :
    Reads fun input => (f input).bind fun x => g x.1 x.2 := by
  intro input b rest read
  obtain ⟨⟨a, mid⟩, front, back⟩ := Option.bind_eq_some_iff.mp read
  obtain ⟨used, rfl, again⟩ := first input a mid front
  obtain ⟨used', rfl, again'⟩ := later a mid b rest back
  refine ⟨used ++ used', (List.append_assoc _ _ _).symm, fun more => ?_⟩
  dsimp only
  rw [List.append_assoc, again, Option.bind_some]
  exact again' more

/-- From the `q`-th answer on, exactly the next `k` are read as `a`. -/
def Takes (f : List ι → Option (α × List ι)) (line : Nat → ι) (q : Nat) (a : α) (k : Nat) : Prop :=
  f (answers line q k) = some (a, [])

section Takes

variable {f : List ι → Option (α × List ι)} {line : Nat → ι} {q m k : Nat} {a a' : α} {k' : Nat}

/-- Whatever is read of a first part of a source is taken from it. -/
theorem Reads.takes (reads : Reads f) {rest : List ι}
    (read : f (answers line q m) = some (a, rest)) :
    ∃ k j, m = k + j ∧ rest = answers line (q + k) j ∧ Takes f line q a k := by
  obtain ⟨used, split, again⟩ := reads _ a rest read
  obtain ⟨k, j, rfl, rfl, rfl⟩ := answers_split split
  have exactly := again []
  rw [List.append_nil] at exactly
  exact ⟨k, j, rfl, rfl, exactly⟩

theorem Takes.more (takes : Takes f line q a k) (reads : Reads f) (j : Nat) :
    f (answers line q (k + j)) = some (a, answers line (q + k) j) := by
  obtain ⟨used, split, again⟩ := reads _ a [] takes
  rw [List.append_nil] at split
  rw [answers_add, split]
  exact again _

theorem Takes.unique (takes : Takes f line q a k) (takes' : Takes f line q a' k')
    (reads : Reads f) : a = a' ∧ k = k' := by
  have shorter {a a' : α} {k k' : Nat} (takes : Takes f line q a k) (takes' : Takes f line q a' k')
      (le : k ≤ k') : a = a' ∧ k = k' := by
    obtain ⟨j, rfl⟩ := Nat.exists_eq_add_of_le le
    have more := takes.more reads j
    rw [takes'] at more
    have lengths := congrArg (fun x => x.map fun y => y.2.length) more
    simp only [Option.map_some, Option.some.injEq, length_answers, List.length_nil] at lengths
    exact ⟨(Prod.mk.inj (Option.some.inj more)).1.symm, by omega⟩
  rcases Nat.le_total k k' with le | le
  · exact shorter takes takes' le
  · obtain ⟨same, same'⟩ := shorter takes' takes le
    exact ⟨same.symm, same'.symm⟩

/-- Nothing is read of fewer answers than it takes. -/
theorem Takes.before (takes : Takes f line q a k) (reads : Reads f) {j : Nat} (fewer : j < k) :
    f (answers line q j) = none := by
  rcases read : f (answers line q j) with _ | ⟨a', rest⟩
  · rfl
  · obtain ⟨k', i, split, -, takes'⟩ := reads.takes read
    obtain ⟨-, same⟩ := takes.unique takes' reads
    omega

end Takes

/-- The first `m` answers of a source that looks at what it has answered. -/
def told (next : List ι → ι) : Nat → List ι
  | 0 => []
  | m + 1 => told next m ++ [next (told next m)]

section Told

variable {next : List ι → ι} {line : Nat → ι}

theorem told_eq_answers {m : Nat} (follows : ∀ j < m, next (answers line 0 j) = line j) :
    told next m = answers line 0 m := by
  induction m with
  | zero => rfl
  | succ m ih =>
    rw [told, ih fun j hj => follows j (Nat.lt_succ_of_lt hj), answers_concat,
      follows m (Nat.lt_succ_self m), Nat.zero_add]

theorem told_add (next : List ι → ι) (k m : Nat) :
    told next (k + m) = told next k ++ told (fun got => next (told next k ++ got)) m := by
  induction m with
  | zero => exact (List.append_nil _).symm
  | succ m ih => rw [← Nat.add_assoc, told, ih, told, List.append_assoc]

end Told

end T113Boot.Lib.Readings
