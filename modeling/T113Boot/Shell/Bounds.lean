/- Module: T113Boot/Shell/Bounds
   layer: specification
   digest: What holds of the line and the history in every state, whatever is typed. -/

import T113Boot.Shell.Keys

set_option autoImplicit false
set_option relaxedAutoImplicit false

namespace T113Boot.Shell.Bounds

open T113Boot.Lib
open T113Boot.Lib.Cells
open T113Boot.Lib.Moves
open T113Boot.Shell.XString
open T113Boot.Shell.Console
open T113Boot.Shell.Keys
open T113Boot.Storage.Table (CStr)

variable {cmds : List ShellCommand} {s : Statics} {ch : UInt8} {turn : Turn}

/-- The cursor is in the line and the line in the buffer, whose last character is NUL. -/
structure LineBounds (input : ShellInput) : Prop where
  pos : input.pos ≤ input.length
  length : input.length ≤ cmdBufSize - 1
  last : input.buffer (cmdBufSize - 1) = 0

/-- A string that fits a slot with its terminator. -/
def Fits (line : CStr) : Prop := 0 ∉ line ∧ line.length ≤ cmdBufSize - 1

/-- Every slot holds a string, and no more slots are counted than there are. -/
structure HistoryBounds (history : ShellHistory) : Prop where
  slots : history.history.length = cmdHistoryDepth
  lines : ∀ line ∈ history.history, Fits line
  count : history.count ≤ cmdHistoryDepth
  current : history.current ≤ cmdHistoryDepth

structure InBounds (s : Statics) : Prop where
  line : LineBounds s.input
  history : HistoryBounds s.history

theorem inBounds_initial : InBounds .initial := by
  refine ⟨⟨Nat.le_refl 0, Nat.zero_le _, rfl⟩, rfl, ?_, Nat.zero_le _, Nat.zero_le _⟩
  intro line member
  rw [List.eq_of_mem_replicate member]
  exact ⟨List.not_mem_nil, Nat.zero_le _⟩

theorem fits_stringAt {m : Mem} (last : m (cmdBufSize - 1) = 0) : Fits (stringAt m cmdBufSize 0) := by
  refine ⟨zero_notMem_stringAt m cmdBufSize 0, ?_⟩
  have bound := length_stringAt_le m cmdBufSize 0
  rcases Nat.lt_or_ge (stringAt m cmdBufSize 0).length cmdBufSize with short | long
  · omega
  · -- a string of the whole array would have the last NUL in it
    have whole : stringAt m cmdBufSize 0 = slice m 0 cmdBufSize := by
      have cut := List.takeWhile_prefix (fun b : UInt8 => b ≠ 0) (l := slice m 0 (cmdBufSize - 0))
      exact cut.eq_of_length (by rw [length_slice]; exact Nat.le_antisymm bound long)
    have nul : 0 ∈ stringAt m cmdBufSize 0 := by
      rw [whole, slice, List.mem_map]
      exact ⟨cmdBufSize - 1, List.mem_range.mpr (by decide), by rw [Nat.zero_add]; exact last⟩
    exact absurd nul (zero_notMem_stringAt m cmdBufSize 0)

theorem stringAt_xstrcpy {m : Mem} {line : CStr} (fits : Fits line) :
    stringAt (xstrcpy m 0 line) cmdBufSize 0 = line := by
  obtain ⟨noNul, short⟩ := fits
  have stored : slice (xstrcpy m 0 line) 0 line.length = line := by
    unfold xstrcpy
    have whole := slice_store m 0 (line ++ [0])
    rw [← take_slice _ 0 (line ++ [0]).length line.length (by simp), whole]
    simp
  rw [stringAt_eq (n := line.length), stored]
  · simp only [cmdBufSize] at short ⊢
    omega
  · rw [Nat.zero_add, xstrcpy, store_inside (Nat.zero_le _) (by simp)]
    simp
  · intro i inside nul
    apply noNul
    rw [← stored, slice, List.mem_map]
    exact ⟨i, List.mem_range.mpr inside, nul⟩

/-- What `save_to_history` does with a line, where no more slots are counted than there are. -/
inductive Saved (history : ShellHistory) (line : CStr) : Option ShellHistory → Prop
  | known (listed : line ∈ history.history.take history.count) :
      Saved history line (some history)
  | full (fresh : line ∉ history.history.take history.count)
      (full : history.count = cmdHistoryDepth) : Saved history line (some { history with
        history := history.history.drop 1 ++ [line]
        current := cmdHistoryDepth })
  | room (fresh : line ∉ history.history.take history.count)
      (room : history.count < cmdHistoryDepth) : Saved history line (some { history with
        history := history.history.set history.count line
        count := history.count + 1
        current := history.count + 1 })

theorem saveToHistory_cases {history : ShellHistory} (bounds : HistoryBounds history) {line : CStr}
    (fits : Fits line) : Saved history line (saveToHistory history line) := by
  have listed : ((history.history.take history.count).any fun old => xstrcmp old line = 0) = true ↔
      line ∈ history.history.take history.count := by
    rw [List.any_eq_true]
    constructor
    · rintro ⟨old, member, same⟩
      have text := (bounds.lines old (List.mem_of_mem_take member)).1
      rw [decide_eq_true_eq, xstrcmp_eq_zero text fits.1] at same
      exact same ▸ member
    · intro member
      exact ⟨line, member, decide_eq_true ((xstrcmp_eq_zero fits.1 fits.1).mpr rfl)⟩
  unfold saveToHistory
  rw [if_neg (Nat.not_lt.mpr bounds.count)]
  by_cases known : line ∈ history.history.take history.count
  · rw [if_pos (listed.mpr known)]
    exact .known known
  · rw [if_neg (fun found => known (listed.mp found))]
    by_cases full : history.count = cmdHistoryDepth
    · rw [if_pos full]
      have shifted : (history.history.drop 1 ++ history.history.getLast?.toList).set
          (cmdHistoryDepth - 1) line = history.history.drop 1 ++ [line] := by
        have length : (history.history.drop 1).length = cmdHistoryDepth - 1 := by
          rw [List.length_drop, bounds.slots]
        obtain ⟨last, there⟩ : ∃ last, history.history.getLast? = some last :=
          ⟨_, List.getLast?_eq_some_getLast (by
            rw [← List.length_pos_iff, bounds.slots]
            decide)⟩
        rw [there, Option.toList_some, List.set_append_right _ _ (Nat.le_of_eq length), length,
          Nat.sub_self, List.set_cons_zero]
      rw [shifted]
      exact .full known full
    · rw [if_neg full]
      have count := bounds.count
      exact .room known (by omega)

theorem HistoryBounds.save {history history' : ShellHistory} (bounds : HistoryBounds history)
    {line : CStr} (fits : Fits line) (saved : saveToHistory history line = some history') :
    HistoryBounds history' ∧ history'.count ≤ cmdHistoryDepth := by
  have cases := saveToHistory_cases bounds fits
  rw [saved] at cases
  have count := bounds.count
  have old : ∀ old ∈ history.history.drop 1, Fits old := fun old member =>
    bounds.lines old (List.mem_of_mem_drop member)
  cases cases with
  | known listed => exact ⟨bounds, count⟩
  | full fresh full =>
    refine ⟨⟨?_, ?_, count, Nat.le_refl _⟩, count⟩
    · rw [List.length_append, List.length_drop, bounds.slots]
      rfl
    · intro line' member
      rcases List.mem_append.mp member with kept | new
      · exact old line' kept
      · rw [List.mem_singleton.mp new]
        exact fits
  | room fresh room =>
    refine ⟨⟨?_, ?_, room, room⟩, room⟩
    · rw [List.length_set, bounds.slots]
    · intro line' member
      rcases List.mem_or_eq_of_mem_set member with kept | rfl
      · exact bounds.lines line' kept
      · exact fits

theorem HistoryBounds.saves {history : ShellHistory} (bounds : HistoryBounds history) {line : CStr}
    (fits : Fits line) : ∃ history', saveToHistory history line = some history' := by
  have cases := saveToHistory_cases bounds fits
  generalize saveToHistory history line = saved at cases ⊢
  cases cases with
  | known listed => exact ⟨_, rfl⟩
  | full fresh full => exact ⟨_, rfl⟩
  | room fresh room => exact ⟨_, rfl⟩

theorem LineBounds.printable (bounds : LineBounds s.input) (room : s.input.length < cmdBufSize - 1) :
    LineBounds (onPrintable s ch).shell.input := by
  have pos := bounds.pos
  rw [onPrintable_input]
  refine ⟨by dsimp only; omega, by dsimp only; omega, ?_⟩
  dsimp only
  rw [store_outside (.inr (by rw [List.length_cons, length_slice]; omega))]
  exact bounds.last

theorem LineBounds.backspace (bounds : LineBounds s.input) :
    LineBounds (onBackspace s).shell.input := by
  by_cases positive : 0 < s.input.pos
  · have pos := bounds.pos
    have length := bounds.length
    rw [onBackspace_input positive]
    refine ⟨by dsimp only; omega, by dsimp only; omega, ?_⟩
    dsimp only
    rw [store_outside (.inr (by rw [length_slice]; omega))]
    exact bounds.last
  · unfold onBackspace
    dsimp only
    rw [if_neg positive]
    exact bounds

theorem LineBounds.tab (bounds : LineBounds s.input) : LineBounds (onTab cmds s).shell.input := by
  have pos := bounds.pos
  have length := bounds.length
  have cleared : (cut s.input).buffer (cmdBufSize - 1) = 0 := by
    simp only [cut]
    by_cases end_ : s.input.pos = cmdBufSize - 1
    · rw [end_, store_inside (Nat.le_refl _) (by simp)]
      simp
    · rw [store_outside (.inr (by rw [List.length_singleton]; omega))]
      exact bounds.last
  have kept : LineBounds (cut s.input) := ⟨pos, length, cleared⟩
  have tabbed : Tabbed cmds s.input (onTab cmds s).shell.input := onTab_input
  generalize (onTab cmds s).shell.input = input at tabbed ⊢
  cases tabbed with
  | start start => exact kept
  | unmatched inside none => exact kept
  | tooLong inside one long => exact kept
  | @completed inside cmd one fits =>
    refine ⟨Nat.le_refl _, by simp only [completed]; omega, ?_⟩
    simp only [completed]
    by_cases end_ : cmd.name.length = cmdBufSize - 1
    · rw [end_, store_inside (Nat.le_refl _) (by simp)]
      simp
    · rw [store_outside (.inr (by rw [List.length_singleton]; omega)),
        store_outside (.inr (by rw [List.length_drop]; omega))]
      exact cleared
  | ambiguous inside more => exact ⟨Nat.le_refl _, by dsimp only; omega, cleared⟩

theorem LineBounds.right (bounds : LineBounds s.input) : LineBounds (onRight s).shell.input := by
  unfold onRight
  split
  · rename_i more
    exact ⟨more, bounds.length, bounds.last⟩
  · exact bounds

theorem LineBounds.left (bounds : LineBounds s.input) : LineBounds (onLeft s).shell.input := by
  unfold onLeft
  split
  · exact ⟨Nat.le_trans (Nat.sub_le _ _) bounds.pos, bounds.length, bounds.last⟩
  · exact bounds

theorem HistoryBounds.same {history history' : ShellHistory} (bounds : HistoryBounds history)
    (same : SameLines history history') : HistoryBounds history' := by
  obtain ⟨lines, count, current⟩ := same
  refine ⟨?_, ?_, ?_, ?_⟩
  · rw [lines]
    exact bounds.slots
  · rw [lines]
    exact bounds.lines
  · rw [count]
    exact bounds.count
  · rw [current]
    exact bounds.current

/-- The line that Enter saves and hands on. -/
def entered (input : ShellInput) : CStr :=
  stringAt (store input.buffer input.length [0]) cmdBufSize 0

theorem LineBounds.entered (bounds : LineBounds s.input) : Fits (entered s.input) := by
  apply fits_stringAt
  have length := bounds.length
  by_cases end_ : s.input.length = cmdBufSize - 1
  · rw [end_, store_inside (Nat.le_refl _) (by simp)]
    simp
  · rw [store_outside (.inr (by rw [List.length_singleton]; omega))]
    exact bounds.last

/-- Enter empties the line and moves behind the last line of the history. -/
theorem onEnter_turn (cmds : List ShellCommand) (bounds : InBounds s) : ∃ history,
    (if s.input.length > 0 then saveToHistory s.history (entered s.input) else some s.history) =
      some history ∧ HistoryBounds history ∧
    ∃ turn, onEnter cmds s = some turn ∧ turn.shell.state = s.state ∧
      turn.shell.input = ⟨xmemset (store s.input.buffer s.input.length [0]) 0 0 cmdBufSize, 0, 0⟩ ∧
      turn.shell.history = { history with current := history.count } ∧
      turn.handled = if s.input.length > 0 then some (entered s.input) else none := by
  have saved : ∃ history, (if s.input.length > 0 then saveToHistory s.history (entered s.input)
      else some s.history) = some history ∧ HistoryBounds history := by
    by_cases some : s.input.length > 0
    · rw [if_pos some]
      obtain ⟨history, saved⟩ := bounds.history.saves bounds.line.entered
      exact ⟨history, saved, (bounds.history.save bounds.line.entered saved).1⟩
    · rw [if_neg some]
      exact ⟨s.history, rfl, bounds.history⟩
  obtain ⟨history, saved, within⟩ := saved
  refine ⟨history, saved, within, ?_⟩
  have same : onEnter cmds s = (if s.input.length > 0 then saveToHistory s.history (entered s.input)
      else some s.history).map _ := rfl
  rw [saved, Option.map_some] at same
  exact ⟨_, same, rfl, rfl, rfl, rfl⟩

theorem InBounds.enter (cmds : List ShellCommand) (bounds : InBounds s) :
    ∃ turn, onEnter cmds s = some turn ∧ InBounds turn.shell := by
  obtain ⟨history, -, within, turn, run, -, input, after, -⟩ := onEnter_turn cmds bounds
  refine ⟨turn, run, ?_, ?_⟩
  · rw [input]
    refine ⟨Nat.le_refl 0, Nat.zero_le _, ?_⟩
    dsimp only [xmemset]
    rw [store_inside (Nat.zero_le _) (by rw [List.length_replicate]; decide)]
    simp
  · rw [after]
    exact ⟨within.slots, within.lines, within.count, within.count⟩

theorem lineBounds_recalled {m : Mem} (last : m (cmdBufSize - 1) = 0) {line : CStr}
    (fits : Fits line) : LineBounds ⟨xstrcpy m 0 line, line.length, line.length⟩ := by
  have short := fits.2
  refine ⟨Nat.le_refl _, short, ?_⟩
  simp only [xstrcpy]
  by_cases end_ : line.length = cmdBufSize - 1
  · rw [store_inside (Nat.zero_le _) (by simp [end_]), ← end_]
    simp
  · rw [store_outside (.inr (by rw [List.length_append, List.length_singleton]; omega))]
    exact last

/-- What an arrow up or down does: nothing, or the current slot moves to one that there is, whose
line is recalled. -/
inductive Browsed (s : Statics) (idle : Prop) (current : Nat) : Option Turn → Prop
  | idle (stays : idle) : Browsed s idle current (some { shell := s })
  | missing (moves : ¬ idle) (slot : s.history.history[current]? = none) :
      Browsed s idle current none
  | recalled (moves : ¬ idle) {line : CStr} (slot : s.history.history[current]? = some line)
      {turn : Turn} (state : turn.shell.state = s.state)
      (input : turn.shell.input = ⟨xstrcpy s.input.buffer 0 line, line.length, line.length⟩)
      (history : turn.shell.history = { s.history with current := current })
      (handled : turn.handled = none) : Browsed s idle current (some turn)

theorem browse_cases (bounds : InBounds s) {idle : Prop} {current : Nat} (moves : ¬ idle) :
    Browsed s idle current ((recallLine { s.history with current := current } s.input).map fun r =>
      { shell := { s with input := r.1, history := { s.history with current := current } }
        out := List.replicate s.input.length 8 ++ r.2 }) := by
  have kept : ∀ line ∈ s.history.history, Fits line := bounds.history.lines
  rcases slot : s.history.history[current]? with _ | line
  · have none : recallLine { s.history with current := current } s.input = none := by
      unfold recallLine
      dsimp only
      rw [slot]
    rw [none]
    exact .missing moves slot
  · have fits := kept line (List.mem_of_getElem? slot)
    obtain ⟨r, recalled, input⟩ : ∃ r, recallLine { s.history with current := current } s.input = some r ∧
        r.1 = ⟨xstrcpy s.input.buffer 0 line, line.length, line.length⟩ := by
      unfold recallLine
      dsimp only
      rw [slot]
      refine ⟨_, rfl, ?_⟩
      dsimp only
      rw [stringAt_xstrcpy fits]
    rw [recalled]
    exact .recalled moves slot rfl input rfl rfl

theorem browseHistoryUp_cases (bounds : InBounds s) :
    Browsed s ((s.history.count = 0 ∨ s.history.current = 0) ∧ s.input.length ≠ 0)
      (s.history.current - 1) (browseHistoryUp s) := by
  unfold browseHistoryUp
  by_cases idle : (s.history.count = 0 ∨ s.history.current = 0) ∧ s.input.length ≠ 0
  · rw [if_pos idle]
    exact .idle idle
  · rw [if_neg idle]
    have moved : (if s.history.current ≠ 0 then { s.history with current := s.history.current - 1 }
        else s.history) = { s.history with current := s.history.current - 1 } := by
      by_cases first : s.history.current = 0
      · rw [if_neg (not_not_intro first), show s.history.current - 1 = s.history.current by omega]
      · rw [if_pos first]
    rw [moved]
    exact browse_cases bounds idle

/-- The slot that an arrow down leads to. -/
def next (history : ShellHistory) : Nat :=
  if history.current + 1 ≠ history.count then history.current + 1 else history.current

theorem browseHistoryDown_cases (bounds : InBounds s) :
    Browsed s ((s.history.count = 0 ∨ s.history.current + 1 = s.history.count) ∧
      s.input.length ≠ 0) (next s.history) (browseHistoryDown s) := by
  unfold browseHistoryDown
  by_cases idle : (s.history.count = 0 ∨ s.history.current + 1 = s.history.count) ∧
      s.input.length ≠ 0
  · rw [if_pos idle]
    exact .idle idle
  · rw [if_neg idle]
    have moved : (if s.history.current + 1 ≠ s.history.count
        then { s.history with current := s.history.current + 1 } else s.history) =
          { s.history with current := next s.history } := by
      unfold next
      split
      · rfl
      · rfl
    rw [moved]
    exact browse_cases bounds idle

theorem InBounds.browsed (bounds : InBounds s) {idle : Prop} {current : Nat}
    (browsed : Browsed s idle current (some turn)) : InBounds turn.shell := by
  cases browsed with
  | idle stays => exact bounds
  | recalled moves slot state input history handled =>
    obtain ⟨inside, -⟩ := List.getElem?_eq_some_iff.mp slot
    have fits := bounds.history.lines _ (List.mem_of_getElem? slot)
    rw [bounds.history.slots] at inside
    refine ⟨?_, ?_⟩
    · rw [input]
      exact lineBounds_recalled bounds.line.last fits
    · rw [history]
      exact ⟨bounds.history.slots, bounds.history.lines, bounds.history.count, by
        dsimp only
        omega⟩

theorem InBounds.quiet (bounds : InBounds s) (quiet : Quiet s turn)
    (line : LineBounds turn.shell.input) : InBounds turn.shell :=
  ⟨line, bounds.history.same quiet.history⟩

theorem InBounds.arrow (bounds : InBounds s) (acts : onArrow s ch = some turn) :
    InBounds turn.shell := by
  have cases := onArrow_cases s ch
  rw [acts] at cases
  generalize same : some turn = result at cases
  cases cases with
  | up key =>
    have browsed := browseHistoryUp_cases bounds
    rw [← same] at browsed
    exact bounds.browsed browsed
  | down key =>
    have browsed := browseHistoryDown_cases bounds
    rw [← same] at browsed
    exact bounds.browsed browsed
  | right key =>
    cases same
    exact bounds.quiet onRight_quiet bounds.line.right
  | left key =>
    cases same
    exact bounds.quiet onLeft_quiet bounds.line.left
  | other key =>
    cases same
    exact bounds

theorem InBounds.pressed (bounds : InBounds s) (press : consoleInputChar cmds s ch = some turn) :
    InBounds turn.shell := by
  have cases := consoleInputChar_cases cmds s ch
  rw [press] at cases
  generalize same : some turn = result at cases
  cases cases with
  | escape normal key =>
    cases same
    exact ⟨bounds.line, bounds.history⟩
  | enter normal key =>
    obtain ⟨turn', run, within⟩ := InBounds.enter cmds bounds
    rw [run] at same
    cases same
    exact within
  | tab normal key =>
    cases same
    exact bounds.quiet onTab_quiet bounds.line.tab
  | backspace normal key =>
    cases same
    exact bounds.quiet onBackspace_quiet bounds.line.backspace
  | printable normal key room =>
    cases same
    exact bounds.quiet onPrintable_quiet (bounds.line.printable room)
  | ignored normal key none =>
    cases same
    exact bounds
  | bracket escaped key =>
    cases same
    exact ⟨bounds.line, bounds.history⟩
  | dropped escaped key =>
    cases same
    exact ⟨bounds.line, bounds.history⟩
  | arrow sequence =>
    obtain ⟨turn', acts, rfl⟩ := Option.map_eq_some_iff.mp same.symm
    have within := bounds.arrow acts
    exact ⟨within.line, within.history⟩

theorem InBounds.press {session session' : Session} (bounds : InBounds session.shell)
    (press : session.press cmds ch = some session') : InBounds session'.shell := by
  obtain ⟨turn, pressed, rfl⟩ := Option.map_eq_some_iff.mp press
  exact bounds.pressed pressed

theorem InBounds.feed {session session' : Session} (bounds : InBounds session.shell)
    {chs : List UInt8} (fed : feed cmds session chs = some session') : InBounds session'.shell :=
  Runs.run_invariant (fun session => InBounds session.shell) InBounds.press bounds fed

end T113Boot.Shell.Bounds
