/- Module: T113Boot/Lib/Chains
   layer: library
   digest: Singly linked lists whose links lie in their nodes, and appending a node to one. -/

import Mathlib.Data.List.Nodup
import Mathlib.Data.List.TakeWhile
import Mathlib.Logic.Function.Basic

set_option autoImplicit false
set_option relaxedAutoImplicit false

namespace T113Boot.Lib.Chains

variable {Node : Type}

/-- The link that heads a list, and the link in every node. -/
structure Links (Node : Type) where
  first : Option Node
  next : Node → Option Node

/-- From one link on, the nodes met before the other are those of a list. -/
def Leads (next : Node → Option Node) : Option Node → List Node → Option Node → Prop
  | link, [], link' => link = link'
  | link, n :: l, link' => link = some n ∧ Leads next (next n) l link'

/-- The list ends, and these are its nodes. -/
def Links.Spells (links : Links Node) (l : List Node) : Prop := Leads links.next links.first l none

/-- The last node, from a node on. `none`: not reached in the turns allowed. -/
def lastFrom (next : Node → Option Node) : Nat → Node → Option Node
  | 0, _ => none
  | turns + 1, n =>
    match next n with
    | none => some n
    | some n' => lastFrom next turns n'

/-- The nodes from a link on. -/
def nodesFrom (next : Node → Option Node) : Nat → Option Node → Option (List Node)
  | _, none => some []
  | 0, some _ => none
  | turns + 1, some n => (nodesFrom next turns (next n)).map (n :: ·)

/-- The first node from a link on that passes a test. -/
def findFrom (next : Node → Option Node) (test : Node → Bool) :
    Nat → Option Node → Option (Option Node)
  | _, none => some none
  | 0, some _ => none
  | turns + 1, some n => if test n then some (some n) else findFrom next test turns (next n)

/-- A node put behind the last one, and its own link cleared. -/
def Links.append [DecidableEq Node] (turns : Nat) (links : Links Node) (n : Node) :
    Option (Links Node) :=
  match links.first with
  | none => some ⟨some n, Function.update links.next n none⟩
  | some m => (lastFrom links.next turns m).map fun last =>
      ⟨some m, Function.update (Function.update links.next last (some n)) n none⟩

section Reading

variable {next next' : Node → Option Node} {link link' : Option Node} {n : Node}
  {l l' : List Node} {turns : Nat}

theorem leads_append : Leads next link (l ++ l') link' ↔
    ∃ mid, Leads next link l mid ∧ Leads next mid l' link' := by
  induction l generalizing link with
  | nil =>
    constructor
    · exact fun leads => ⟨link, rfl, leads⟩
    · rintro ⟨mid, same, leads⟩
      rw [show link = mid from same]
      exact leads
  | cons n l ih =>
    constructor
    · rintro ⟨here, leads⟩
      obtain ⟨mid, front, back⟩ := ih.mp leads
      exact ⟨mid, ⟨here, front⟩, back⟩
    · rintro ⟨mid, ⟨here, front⟩, back⟩
      exact ⟨here, ih.mpr ⟨mid, front, back⟩⟩

/-- Only the links in the nodes met matter. -/
theorem Leads.congr (leads : Leads next link l link') (same : ∀ n ∈ l, next' n = next n) :
    Leads next' link l link' := by
  induction l generalizing link with
  | nil => exact leads
  | cons n l ih =>
    refine ⟨leads.1, ?_⟩
    rw [same n List.mem_cons_self]
    exact ih leads.2 fun m member => same m (List.mem_cons_of_mem n member)

theorem Leads.unique (leads : Leads next link l none) (leads' : Leads next link l' none) :
    l = l' := by
  induction l generalizing link l' with
  | nil =>
    cases l' with
    | nil => rfl
    | cons n' l' =>
      rw [show link = none from leads] at leads'
      exact absurd leads'.1.symm (Option.some_ne_none n')
  | cons n l ih =>
    cases l' with
    | nil =>
      rw [show link = none from leads'] at leads
      exact absurd leads.1.symm (Option.some_ne_none n)
    | cons n' l' =>
      have same : n = n' := Option.some.inj (leads.1.symm.trans leads'.1)
      subst same
      rw [ih leads.2 leads'.2]

/-- A list that ends meets no node twice. -/
theorem Leads.nodup (leads : Leads next link l none) : l.Nodup := by
  induction l generalizing link with
  | nil => exact List.nodup_nil
  | cons n l ih =>
    refine List.nodup_cons.mpr ⟨fun member => ?_, ih leads.2⟩
    -- met again, the node would be followed by a shorter list than before
    obtain ⟨front, back, split⟩ := List.append_of_mem member
    have whole := leads.2
    rw [split] at whole
    obtain ⟨mid, -, again⟩ := leads_append.mp whole
    have same : front ++ n :: back = back := whole.unique again.2
    have lengths := congrArg List.length same
    rw [List.length_append, List.length_cons] at lengths
    omega

theorem Leads.nodesFrom (leads : Leads next link l none) (enough : l.length ≤ turns) :
    nodesFrom next turns link = some l := by
  induction l generalizing link turns with
  | nil =>
    rw [show link = none from leads]
    cases turns <;> rfl
  | cons n l ih =>
    cases turns with
    | zero => exact absurd enough (by simp)
    | succ turns =>
      rw [leads.1, Chains.nodesFrom, ih leads.2 (Nat.le_of_succ_le_succ enough), Option.map_some]

theorem Leads.findFrom {test : Node → Bool} (leads : Leads next link l none)
    (enough : l.length ≤ turns) : findFrom next test turns link = some (l.find? test) := by
  induction l generalizing link turns with
  | nil =>
    rw [show link = none from leads]
    cases turns <;> rfl
  | cons n l ih =>
    cases turns with
    | zero => exact absurd enough (by simp)
    | succ turns =>
      rw [leads.1, Chains.findFrom, List.find?_cons]
      by_cases passes : test n = true
      · rw [if_pos passes, passes]
      · rw [if_neg passes, ih leads.2 (Nat.le_of_succ_le_succ enough)]
        rw [Bool.not_eq_true] at passes
        rw [passes]

theorem Leads.lastFrom (leads : Leads next (some n) l none) (enough : l.length ≤ turns) :
    ∃ front last, l = front ++ [last] ∧ lastFrom next turns n = some last := by
  induction l generalizing n turns with
  | nil => exact absurd leads (Option.some_ne_none n)
  | cons m l ih =>
    obtain rfl := Option.some.inj leads.1
    cases turns with
    | zero => exact absurd enough (by simp)
    | succ turns =>
      rw [Chains.lastFrom]
      rcases l with _ | ⟨n', l⟩
      · have done : next n = none := leads.2
        exact ⟨[], n, rfl, by rw [done]⟩
      · have more : next n = some n' := leads.2.1
        have behind : Leads next (some n') (n' :: l) none := more ▸ leads.2
        obtain ⟨front, last, split, found⟩ := ih behind (Nat.le_of_succ_le_succ enough)
        refine ⟨n :: front, last, ?_, ?_⟩
        · rw [split, List.cons_append]
        · rw [more]
          exact found

end Reading

section Appending

variable [DecidableEq Node] {links : Links Node} {l : List Node} {turns : Nat}

/-- The list behind an append of `n`: what comes before `n`, and `n`. -/
def cut (l : List Node) (n : Node) : List Node := l.takeWhile (· ≠ n) ++ [n]

theorem cut_of_notMem {n : Node} (new : n ∉ l) : cut l n = l ++ [n] := by
  unfold cut
  have whole : l.takeWhile (· ≠ n) = l := by
    refine List.takeWhile_eq_self_iff.mpr fun m member => ?_
    exact decide_eq_true fun same => new (same ▸ member)
  rw [whole]

theorem cut_append_cons {front : List Node} {n : Node} (new : n ∉ front) (back : List Node) :
    cut (front ++ n :: back) n = front ++ [n] := by
  unfold cut
  rw [List.takeWhile_append_of_pos]
  · rw [List.takeWhile_cons_of_neg (by simp), List.append_nil]
  · intro m member
    exact decide_eq_true fun same => new (same ▸ member)

theorem length_cut_le (l : List Node) (n : Node) : (cut l n).length ≤ l.length + 1 := by
  unfold cut
  rw [List.length_append]
  exact Nat.add_le_add_right (List.takeWhile_prefix _).length_le 1

theorem cut_subset (l : List Node) (n : Node) : cut l n ⊆ n :: l := by
  intro m member
  rcases List.mem_append.mp member with inside | last
  · exact List.mem_cons_of_mem n ((List.takeWhile_prefix _).subset inside)
  · rw [List.mem_singleton.mp last]
    exact List.mem_cons_self

theorem mem_cut (l : List Node) (n : Node) : n ∈ cut l n :=
  List.mem_append_right _ List.mem_cons_self

theorem mem_of_mem_cut {m n : Node} (member : m ∈ cut l n) (other : m ≠ n) : m ∈ l := by
  rcases List.mem_cons.mp (cut_subset l n member) with same | old
  · exact absurd same other
  · exact old

theorem notMem_cut {front back : List Node} {m n : Node} (early : n ∈ front) (late : m ∉ front)
    (other : m ≠ n) : m ∉ cut (front ++ back) n := by
  intro member
  rcases List.mem_append.mp member with kept | last
  · rw [List.takeWhile_append] at kept
    split at kept
    · rename_i whole
      have all := List.takeWhile_eq_self_iff.mp
        ((List.takeWhile_prefix (· ≠ n)).eq_of_length whole) n early
      simp at all
    · exact late ((List.takeWhile_prefix _).subset kept)
  · exact other (List.mem_singleton.mp last)

/-- Appending a node of the list cuts the list off behind it. -/
theorem Links.Spells.append (spells : links.Spells l) (enough : l.length ≤ turns) (n : Node) :
    ∃ links', links.append turns n = some links' ∧ links'.Spells (cut l n) := by
  unfold Links.append
  rcases head : links.first with _ | m
  · have nothing : l = [] := by
      refine Leads.unique spells ?_
      exact head
    subst nothing
    have own := Function.update_self n none links.next
    exact ⟨_, rfl, rfl, own⟩
  · have leads : Leads links.next (some m) l none := head ▸ spells
    obtain ⟨front, last, split, found⟩ := leads.lastFrom enough
    refine ⟨_, congrArg (Option.map _) found, ?_⟩
    change Leads (Function.update (Function.update links.next last (some n)) n none) (some m)
      (cut l n) none
    have distinct := leads.nodup
    have own := Function.update_self n none (Function.update links.next last (some n))
    by_cases member : n ∈ l
    · obtain ⟨before, behind, parted⟩ := List.append_of_mem member
      rw [parted] at leads distinct
      have new : n ∉ before := fun twice =>
        List.disjoint_of_nodup_append distinct twice List.mem_cons_self
      -- the last node is `n` or stands behind it
      have later : last ∉ before := by
        intro early
        have tail : last ∈ n :: behind := by
          have ends : (n :: behind).getLast? = some last := by
            have same := congrArg List.getLast? (parted.symm.trans split)
            rw [List.getLast?_append_of_ne_nil _ (List.cons_ne_nil n behind)] at same
            simpa using same
          exact List.mem_of_getLast? ends
        exact List.disjoint_of_nodup_append distinct early tail
      obtain ⟨mid, first, second⟩ := leads_append.mp leads
      rw [parted, cut_append_cons new]
      refine leads_append.mpr ⟨mid, first.congr fun k inside => ?_, second.1, own⟩
      rw [Function.update_of_ne fun same : k = n => new (same ▸ inside),
        Function.update_of_ne fun same : k = last => later (same ▸ inside)]
    · rw [cut_of_notMem member, split]
      rw [split] at leads distinct member
      have new : n ∉ front := fun inside => member (List.mem_append_left _ inside)
      have apart : last ≠ n := fun same =>
        member (List.mem_append_right _ (List.mem_singleton.mpr same.symm))
      have later : last ∉ front := fun inside =>
        List.disjoint_of_nodup_append distinct inside List.mem_cons_self
      obtain ⟨mid, first, second⟩ := leads_append.mp leads
      refine leads_append.mpr
        ⟨some n, leads_append.mpr ⟨mid, first.congr ?_, second.1, ?_⟩, rfl, own⟩
      · intro k inside
        rw [Function.update_of_ne fun same : k = n => new (same ▸ inside),
          Function.update_of_ne fun same : k = last => later (same ▸ inside)]
      · change Function.update (Function.update links.next last (some n)) n none last = some n
        rw [Function.update_of_ne apart, Function.update_self]

theorem subset_cut_iff {n : Node} (distinct : l.Nodup) :
    l ⊆ cut l n ↔ (n ∈ l → l.getLast? = some n) := by
  constructor
  · intro kept member
    obtain ⟨front, back, rfl⟩ := List.append_of_mem member
    have new : n ∉ front := fun twice =>
      List.disjoint_of_nodup_append distinct twice List.mem_cons_self
    rw [cut_append_cons new] at kept
    rcases back with _ | ⟨m, back⟩
    · exact List.getLast?_concat
    · -- a node behind `n` is neither `n` nor before it
      exfalso
      have behind : m ∈ n :: m :: back := List.mem_cons_of_mem n List.mem_cons_self
      rcases List.mem_append.mp (kept (List.mem_append_right front behind)) with early | same
      · exact List.disjoint_of_nodup_append distinct early behind
      · have again := (List.nodup_cons.mp (List.nodup_append.mp distinct).2.1).1
        rw [← List.mem_singleton.mp same] at again
        exact again List.mem_cons_self
  · intro last
    by_cases member : n ∈ l
    · obtain ⟨front, rfl⟩ := List.getLast?_eq_some_iff.mp (last member)
      have new : n ∉ front := fun twice =>
        List.disjoint_of_nodup_append distinct twice List.mem_cons_self
      rw [cut_append_cons new]
      exact List.Subset.refl _
    · rw [cut_of_notMem member]
      exact List.subset_append_left l [n]

end Appending

end T113Boot.Lib.Chains
