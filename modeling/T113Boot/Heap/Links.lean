/- Module: T113Boot/Heap/Links
   layer: specification
   digest: The pieces of code that link a header in or out, and the rings behind them. -/

import T113Boot.Heap.Headers

set_option autoImplicit false
set_option relaxedAutoImplicit false

namespace T113Boot.Heap.Links

open T113Boot.Lib.Cells
open T113Boot.Lib.Rings
open T113Boot.Heap.Memheap
open T113Boot.Heap.Headers

variable {P : Pool} {G : Grid P} {m m' : Mem} {f g : Member} {h x y : Nat} {l l' s t : List Nat}

/-- The ring that two members of the headers make. -/
def LinkRing (f g : Member) (m : Mem) (h : Nat) (l : List Nat) : Prop :=
  Ring (fun a => get m a f) (fun a => get m a g) h l

/-- The ring of all blocks, and the one of the free blocks. -/
abbrev BlockRing := LinkRing .next .prev

abbrev FreeRing := LinkRing .nextFree .prevFree

theorem LinkRing.frame {F : List Member} {E : List Entry} (ring : LinkRing f g m h l)
    (nodes : ∀ a ∈ h :: l, G.node a) (frame : Frame G F E m m') (first : f ∉ F) (second : g ∉ F) :
    LinkRing f g m' h l :=
  Ring.congr ring (fun a member => frame.members a (nodes a member) f first)
    fun a member => frame.members a (nodes a member) g second

/-- `y` has come behind `x`, as far as the two members go. -/
def Entered (G : Grid P) (f g : Member) (m m' : Mem) (x y : Nat) : Prop := ∀ b, G.node b →
  get m' b f = (if b = x then y else if b = y then get m x f else get m b f) ∧
    get m' b g = if b = get m x f then y else if b = y then x else get m b g

/-- `y` has gone from between its neighbours. -/
def Gone (G : Grid P) (f g : Member) (m m' : Mem) (y : Nat) : Prop := ∀ b, G.node b →
  get m' b f = (if b = get m y g then get m y f else get m b f) ∧
    get m' b g = if b = get m y f then get m y g else get m b g

theorem LinkRing.entered (ring : LinkRing f g m h l) (split : h :: l = s ++ x :: t)
    (split' : h :: l' = s ++ x :: y :: t) (nodes : ∀ a ∈ h :: l', G.node a)
    (new : y ∉ h :: l) (entered : Entered G f g m m' x y) : LinkRing f g m' h l' := by
  have node {a : Nat} (member : a ∈ h :: l) : G.node a := nodes a (by grind)
  have member : x ∈ h :: l := by grind
  have behind : get m x f ∈ h :: l := ring.next_mem member
  have other {a : Nat} (here : a ∈ h :: l) : a ≠ y := fun same => new (same ▸ here)
  have forY := entered y (nodes y (by grind))
  refine Ring.insert ring split split' new ?_ ?_ ?_ ?_ ?_ ?_
  · exact (entered x (node member)).1.trans (if_pos rfl)
  · exact forY.2.trans ((if_neg (other behind).symm).trans (if_pos rfl))
  · exact forY.1.trans ((if_neg (other member).symm).trans (if_pos rfl))
  · exact (entered _ (node behind)).2.trans (if_pos rfl)
  · intro a here away
    exact (entered a (node here)).1.trans ((if_neg away).trans (if_neg (other here)))
  · intro a here away
    exact (entered a (node here)).2.trans ((if_neg away).trans (if_neg (other here)))

theorem LinkRing.gone (ring : LinkRing f g m h l) (split : l = s ++ y :: t)
    (nodes : ∀ a ∈ h :: l, G.node a) (gone : Gone G f g m m' y) :
    LinkRing f g m' h (s ++ t) := by
  have member : y ∈ l := by grind
  have behind : get m y f ∈ h :: l := ring.next_mem (List.mem_cons_of_mem h member)
  have before : get m y g ∈ h :: l := ring.prev_mem member
  refine Ring.remove ring split ?_ ?_ ?_ ?_
  · exact (gone _ (nodes _ before)).1.trans (if_pos rfl)
  · exact (gone _ (nodes _ behind)).2.trans (if_pos rfl)
  · exact fun a here _ away => (gone a (nodes a here)).1.trans (if_neg away)
  · exact fun a here _ away => (gone a (nodes a here)).2.trans (if_neg away)

theorem frame_newItem (m : Mem) (node : G.node y) :
    Frame G [.magic, .poolPtr] [] m (newItem m P.heap y) := by
  have small : P.heap < 4294967296 := by have fits := P.heapFits; omega
  exact (Frame.set m node (by decide) (by decide)).trans (Frame.set _ node small (by decide))

theorem get_newItem (node : G.node y) (second : G.node x) :
    get (newItem m P.heap y) x .magic = (if x = y then magicFreed else get m x .magic) ∧
      get (newItem m P.heap y) x .poolPtr = if x = y then P.heap else get m x .poolPtr := by
  have small : P.heap < 4294967296 := by have fits := P.heapFits; omega
  constructor
  · rw [newItem, get_set node second small, if_neg (by simp), get_set node second (by decide)]
    simp
  · rw [newItem, get_set node second small, get_set node second (by decide)]
    simp

section Blocks

variable (nx : G.node x) (ny : G.node y)

include nx ny

theorem breakDown_eq (behind : G.node (get m x .next)) (other : x ≠ y) : breakDown m x y =
    set (set (set (set m y .prev x) y .next (get m x .next)) (get m x .next) .prev y) x .next y := by
  have first : get (set m y .prev x) x .next = get m x .next := by
    rw [get_set ny nx (G.lt nx), if_neg (by simp)]
  have second : get (set (set m y .prev x) y .next (get m x .next)) x .next = get m x .next := by
    rw [get_set ny nx (G.lt behind), if_neg (by omega), first]
  rw [breakDown, first, second]

theorem frame_breakDown (behind : G.node (get m x .next)) (other : x ≠ y) :
    Frame G [.next, .prev] [] m (breakDown m x y) := by
  rw [breakDown_eq nx ny behind other]
  exact (((Frame.set m ny (G.lt nx) (by decide)).trans
    (Frame.set _ ny (G.lt behind) (by decide))).trans
      (Frame.set _ behind (G.lt ny) (by decide))).trans (Frame.set _ nx (G.lt ny) (by decide))

theorem entered_breakDown (behind : G.node (get m x .next)) (other : x ≠ y) :
    Entered G .next .prev m (breakDown m x y) x y := by
  intro b nb
  rw [breakDown_eq nx ny behind other]
  simp only [get_set nx nb (G.lt ny), get_set behind nb (G.lt ny), get_set ny nb (G.lt behind),
    get_set ny nb (G.lt nx)]
  simp

end Blocks

section Leaving

variable (apart : f ≠ g) (behind : G.node (get m y f)) (before : G.node (get m y g))

include apart behind before

theorem gone_of_sets :
    Gone G f g m (set (set m (get m y f) g (get m y g)) (get m y g) f (get m y f)) y := by
  intro b nb
  simp only [get_set before nb (G.lt behind), get_set behind nb (G.lt before)]
  simp [apart, apart.symm]

theorem gone_of_sets' :
    Gone G f g m (set (set m (get m y g) f (get m y f)) (get m y f) g (get m y g)) y := by
  intro b nb
  simp only [get_set before nb (G.lt behind), get_set behind nb (G.lt before)]
  simp [apart, apart.symm]

end Leaving

section Removal

variable (ny : G.node y)

include ny

theorem removeFree_eq (behind : G.node (get m y .nextFree)) (before : G.node (get m y .prevFree)) :
    removeFree m y = set (set m (get m y .nextFree) .prevFree (get m y .prevFree))
      (get m y .prevFree) .nextFree (get m y .nextFree) := by
  simp only [removeFree, get_set behind ny (G.lt before)]
  simp

theorem removeBlock_eq (behind : G.node (get m y .next)) (before : G.node (get m y .prev)) :
    removeBlock m y = set (set m (get m y .next) .prev (get m y .prev))
      (get m y .prev) .next (get m y .next) := by
  simp only [removeBlock, get_set behind ny (G.lt before)]
  simp

theorem mergePrev_eq (behind : G.node (get m y .next)) (before : G.node (get m y .prev)) :
    mergePrev m y = set (set m (get m y .prev) .next (get m y .next))
      (get m y .next) .prev (get m y .prev) := by
  simp only [mergePrev, get_set before ny (G.lt behind)]
  simp

theorem mergeNext_eq (behind : G.node (get m y .next)) (before : G.node (get m y .prev)) :
    mergeNext m (get m y .prev) y = set (set m (get m y .next) .prev (get m y .prev))
      (get m y .prev) .next (get m y .next) := by
  simp only [mergeNext, get_set behind ny (G.lt before)]
  simp

theorem frame_removeFree (behind : G.node (get m y .nextFree))
    (before : G.node (get m y .prevFree)) : Frame G [.nextFree, .prevFree] [] m (removeFree m y) := by
  rw [removeFree_eq ny behind before]
  exact (Frame.set m behind (G.lt before) (by decide)).trans
    (Frame.set _ before (G.lt behind) (by decide))

theorem frame_removeBlock (behind : G.node (get m y .next)) (before : G.node (get m y .prev)) :
    Frame G [.next, .prev] [] m (removeBlock m y) := by
  rw [removeBlock_eq ny behind before]
  exact (Frame.set m behind (G.lt before) (by decide)).trans
    (Frame.set _ before (G.lt behind) (by decide))

theorem frame_mergePrev (behind : G.node (get m y .next)) (before : G.node (get m y .prev)) :
    Frame G [.next, .prev] [] m (mergePrev m y) := by
  rw [mergePrev_eq ny behind before]
  exact (Frame.set m before (G.lt behind) (by decide)).trans
    (Frame.set _ behind (G.lt before) (by decide))

theorem frame_mergeNext (behind : G.node (get m y .next)) (before : G.node (get m y .prev)) :
    Frame G [.next, .prev] [] m (mergeNext m (get m y .prev) y) := by
  rw [mergeNext_eq ny behind before]
  exact (Frame.set m behind (G.lt before) (by decide)).trans
    (Frame.set _ before (G.lt behind) (by decide))

end Removal

section Insertion

variable (list : field m P.heap .freeList = x) (nx : G.node x) (ny : G.node y)
  (behind : G.node (get m x .nextFree))

include list nx ny behind

theorem insertFree_eq (other : x ≠ y) : insertFree m P.heap y =
    set (set (set (set m y .nextFree (get m x .nextFree)) y .prevFree x)
      (get m x .nextFree) .prevFree y) x .nextFree y := by
  have first : get (set (set m y .nextFree (get m x .nextFree)) y .prevFree x) x .nextFree =
      get m x .nextFree := by
    rw [get_set ny nx (G.lt nx), if_neg (by simp), get_set ny nx (G.lt behind), if_neg (by omega)]
  rw [insertFree, list, first]

theorem putBack_eq (back : get m (get m x .nextFree) .prevFree = x) : putBack m P.heap y =
    set (set (set (set m y .nextFree (get m x .nextFree)) y .prevFree x) x .nextFree y)
      (get m x .nextFree) .prevFree y := by
  have first : get (set m y .nextFree (get m x .nextFree)) (get m x .nextFree) .prevFree = x := by
    rw [get_set ny behind (G.lt behind), if_neg (by simp), back]
  have second : get (set (set m y .nextFree (get m x .nextFree)) y .prevFree x)
      (get m x .nextFree) .prevFree = x := by
    rw [get_set ny behind (G.lt nx), first, ite_self]
  rw [putBack, list, first, second]

theorem frame_insertFree (other : x ≠ y) :
    Frame G [.nextFree, .prevFree] [] m (insertFree m P.heap y) := by
  rw [insertFree_eq list nx ny behind other]
  exact (((Frame.set m ny (G.lt behind) (by decide)).trans
    (Frame.set _ ny (G.lt nx) (by decide))).trans
      (Frame.set _ behind (G.lt ny) (by decide))).trans (Frame.set _ nx (G.lt ny) (by decide))

theorem frame_putBack (back : get m (get m x .nextFree) .prevFree = x) :
    Frame G [.nextFree, .prevFree] [] m (putBack m P.heap y) := by
  rw [putBack_eq list nx ny behind back]
  exact (((Frame.set m ny (G.lt behind) (by decide)).trans
    (Frame.set _ ny (G.lt nx) (by decide))).trans
      (Frame.set _ nx (G.lt ny) (by decide))).trans (Frame.set _ behind (G.lt ny) (by decide))

theorem entered_insertFree (other : x ≠ y) :
    Entered G .nextFree .prevFree m (insertFree m P.heap y) x y := by
  intro b nb
  rw [insertFree_eq list nx ny behind other]
  simp only [get_set nx nb (G.lt ny), get_set behind nb (G.lt ny), get_set ny nb (G.lt behind),
    get_set ny nb (G.lt nx)]
  simp

theorem entered_putBack (back : get m (get m x .nextFree) .prevFree = x) :
    Entered G .nextFree .prevFree m (putBack m P.heap y) x y := by
  intro b nb
  rw [putBack_eq list nx ny behind back]
  simp only [get_set nx nb (G.lt ny), get_set behind nb (G.lt ny), get_set ny nb (G.lt behind),
    get_set ny nb (G.lt nx)]
  simp

end Insertion

end T113Boot.Heap.Links
