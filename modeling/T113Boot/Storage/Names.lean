/- Module: T113Boot/Storage/Names
   layer: specification
   digest: Which names the registry takes for one another. -/

import T113Boot.Storage.Table
import Mathlib.Data.List.Find
import Mathlib.Data.List.Infix

set_option autoImplicit false
set_option relaxedAutoImplicit false

namespace T113Boot.Storage.Names

open T113Boot.Lib.LittleEndian
open T113Boot.Storage.Table

/-- A string of C: no character before its terminator is NUL. -/
structure CName where
  chars : CStr
  noNul : 0 ∉ chars

theorem noNul_nand : 0 ∉ cstr "nand_flash" := by decide
theorem noNul_app1 : 0 ∉ cstr "APP1" := by decide

theorem partitionStrncmp_eq_zero {name : CStr} (noNul : 0 ∉ name) (mem : List UInt8) :
    partitionStrncmp name mem name.length = 0 ↔ name <+: mem := by
  induction name generalizing mem with
  | nil => simp [partitionStrncmp]
  | cons c name ih =>
    obtain ⟨nonzero, rest⟩ := not_or.mp (List.mem_cons.not.mp noNul)
    rw [List.length_cons, partitionStrncmp]
    rcases mem with _ | ⟨b, mem⟩
    · rw [List.headD_nil, UInt8.sub_zero, if_pos (.inl (Ne.symm nonzero))]
      exact iff_of_false (Ne.symm nonzero) (by simp)
    · rw [List.headD_cons, List.tail_cons, List.cons_prefix_cons]
      by_cases same : c = b
      · subst same
        rw [UInt8.sub_self, if_neg (by
          rintro (bad | bad)
          · exact bad rfl
          · exact nonzero bad.symm), ih rest]
        exact (and_iff_right rfl).symm
      · have differs : c - b ≠ 0 := by
          intro zero
          have back := UInt8.sub_add_cancel c b
          rw [zero, UInt8.zero_add] at back
          exact same back.symm
        rw [if_pos (.inl differs)]
        exact iff_of_false differs fun both => same both.1

theorem partitionStrncmp_append {name array : List UInt8} (fits : name.length ≤ array.length)
    (rest : List UInt8) : partitionStrncmp name (array ++ rest) name.length =
      partitionStrncmp name array name.length := by
  induction name generalizing array with
  | nil => rfl
  | cons c name ih =>
    rcases array with _ | ⟨b, array⟩
    · simp at fits
    · rw [List.length_cons, List.cons_append, partitionStrncmp, partitionStrncmp, List.headD_cons,
        List.headD_cons, List.tail_cons, List.tail_cons, ih (by simpa using fits)]

theorem partitionFind_moved {σ : Type} {reg : Registry σ} {name : CStr}
    (arrays : ∀ p ∈ reg.partitions, p.name.length = partitionNameMax)
    (short : name.length ≤ partitionNameMax) (devTable : UInt32) :
    partitionFind { reg with devTable := devTable } name = partitionFind reg name := by
  apply List.find?_congr
  intro p member
  have fits : name.length ≤ p.name.length := by rw [arrays p member]; exact short
  rw [Partition.bytes, Partition.bytes, partitionStrncmp_append fits, partitionStrncmp_append fits]

theorem storedName_eq (name : CStr) : storedName name =
    name.take partitionNameMax ++ List.replicate (partitionNameMax - name.length) 0 := by
  unfold storedName partitionMemmove blankName
  by_cases long : name.length ≥ partitionNameMax
  · rw [if_pos long, List.drop_replicate, Nat.sub_self, Nat.sub_eq_zero_of_le long]
  · rw [if_neg long, List.drop_replicate, List.take_length, List.take_of_length_le (by omega)]

theorem length_storedName (name : CStr) : (storedName name).length = partitionNameMax := by
  rw [storedName_eq, List.length_append, List.length_take, List.length_replicate]
  omega

private theorem prefix_of_padded {s name : CStr} (noNul : 0 ∉ s) {k : Nat} (positive : 0 < k)
    {rest : List UInt8} (h : s <+: name ++ (List.replicate k 0 ++ rest)) : s <+: name := by
  rcases List.prefix_or_prefix_of_prefix h (List.prefix_append name _) with done | ⟨more, rfl⟩
  · exact done
  · have inside := (List.prefix_append_right_inj name).mp h
    rcases more with _ | ⟨c, more⟩
    · rw [List.append_nil]
    · obtain ⟨n, rfl⟩ := Nat.exists_eq_add_of_lt positive
      rw [Nat.zero_add, List.replicate_succ, List.cons_append, List.cons_prefix_cons] at inside
      exact absurd (List.mem_append.mpr (.inr (inside.1 ▸ List.mem_cons_self))) noNul

theorem prefix_stored {s : CStr} (noNul : 0 ∉ s) (short : s.length ≤ partitionNameMax) (name : CStr)
    (rest : List UInt8) : s <+: storedName name ++ rest ↔ s <+: name := by
  rw [storedName_eq, List.append_assoc]
  constructor
  · intro h
    by_cases long : partitionNameMax ≤ name.length
    · rw [Nat.sub_eq_zero_of_le long, List.replicate_zero, List.nil_append] at h
      have cut := List.prefix_of_prefix_length_le h (List.prefix_append _ _)
        (by rw [List.length_take]; omega)
      exact cut.trans (List.take_prefix _ _)
    · rw [List.take_of_length_le (by omega)] at h
      exact prefix_of_padded noNul (by omega) h
  · rintro ⟨more, rfl⟩
    rw [List.take_append, List.take_of_length_le short, List.append_assoc]
    exact List.prefix_append _ _

theorem takeWhile_stored {name : CStr} (noNul : 0 ∉ name) (short : name.length < partitionNameMax)
    (rest : List UInt8) : (storedName name ++ rest).takeWhile (· ≠ 0) = name := by
  obtain ⟨n, hn⟩ := Nat.exists_eq_add_of_lt short
  rw [storedName_eq, List.take_of_length_le (by omega),
    show partitionNameMax - name.length = n + 1 by omega, List.append_assoc, List.replicate_succ,
    List.cons_append, List.takeWhile_append_of_pos fun c member => by
      have nonzero : c ≠ 0 := fun zero => noNul (zero ▸ member)
      simpa using nonzero]
  simp

end T113Boot.Storage.Names
