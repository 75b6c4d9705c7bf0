/- Module: T113Boot/Shell/Representation
   layer: results
   digest: When the buffer holds the line as a terminated string. -/

import T113Boot.Shell.Bounds

set_option autoImplicit false
set_option relaxedAutoImplicit false

namespace T113Boot.Shell.Representation

open T113Boot.Lib
open T113Boot.Lib.Cells
open T113Boot.Lib.Moves
open T113Boot.Lib.Runs
open T113Boot.Shell.XString
open T113Boot.Shell.Console
open T113Boot.Shell.Keys
open T113Boot.Shell.Bounds
open T113Boot.Storage.Table (CStr cstr)

variable {cmds : List ShellCommand} {s : Statics} {ch : UInt8} {turn : Turn}

/-- The cursor is in the line, the line is a string without NULs, and a NUL ends it. -/
structure Terminated (input : ShellInput) : Prop where
  pos : input.pos ≤ input.length
  length : input.length ≤ cmdBufSize - 1
  text : ∀ i, i < input.length → input.buffer i ≠ 0
  end_ : input.buffer input.length = 0

/-- What a key needs to leave the line terminated. A character typed into it needs a NUL behind the
terminator, which it overwrites. A tab inside the line must find a single command to complete, or
several. An arrow down must not lead behind the last slot of the history. -/
structure Keeps (cmds : List ShellCommand) (s : Statics) (ch : UInt8) : Prop where
  typed : s.state = .normal → Printable ch → s.input.length < cmdBufSize - 1 →
    s.input.buffer (s.input.length + 1) = 0
  tab : s.state = .normal → ch = chr '\t' → s.input.pos < s.input.length → s.input.pos ≠ 0 ∧
    (2 ≤ (matching cmds s.input.buffer s.input.pos).length ∨
      ∃ cmd, matching cmds s.input.buffer s.input.pos = [cmd] ∧ cmd.name.length < cmdBufSize)
  down : s.state = .bracketReceived → ch = chr 'B' →
    ¬ ((s.history.count = 0 ∨ s.history.current + 1 = s.history.count) ∧ s.input.length ≠ 0) →
    next s.history < cmdHistoryDepth

theorem terminated_empty (m : Mem) (first : m 0 = 0) : Terminated ⟨m, 0, 0⟩ :=
  ⟨Nat.le_refl 0, Nat.zero_le _, fun i inside => absurd inside (Nat.not_lt_zero i), first⟩

theorem Terminated.backspace (t : Terminated s.input) :
    Terminated (onBackspace s).shell.input := by
  have pos := t.pos
  have length := t.length
  by_cases positive : 0 < s.input.pos
  · rw [onBackspace_input positive]
    refine ⟨by dsimp only; omega, by dsimp only; omega, ?_, ?_⟩
    · intro i inside
      dsimp only at inside ⊢
      by_cases before : i < s.input.pos - 1
      · rw [store_outside (.inl before)]
        exact t.text i (by omega)
      · rw [store_inside (by omega) (by rw [length_slice]; omega), getD_slice _ _ _ _ (by omega)]
        exact t.text _ (by omega)
    · dsimp only
      rw [store_inside (by omega) (by rw [length_slice]; omega), getD_slice _ _ _ _ (by omega),
        show s.input.pos + (s.input.length - 1 - (s.input.pos - 1)) = s.input.length by omega]
      exact t.end_
  · unfold onBackspace
    dsimp only
    rw [if_neg positive]
    exact t

theorem Terminated.printable_iff (t : Terminated s.input) (key : Printable ch)
    (room : s.input.length < cmdBufSize - 1) :
    Terminated (onPrintable s ch).shell.input ↔ s.input.buffer (s.input.length + 1) = 0 := by
  have pos := t.pos
  have behind : (onPrintable s ch).shell.input.buffer (s.input.length + 1) =
      s.input.buffer (s.input.length + 1) := by
    rw [onPrintable_input]
    exact store_outside (.inr (by rw [List.length_cons, length_slice]; omega))
  have length : (onPrintable s ch).shell.input.length = s.input.length + 1 := by
    rw [onPrintable_input]
  constructor
  · intro after
    have end_ := after.end_
    rw [length, behind] at end_
    exact end_
  · intro nul
    refine ⟨?_, ?_, ?_, ?_⟩
    · rw [onPrintable_input]
      dsimp only
      omega
    · rw [length]
      omega
    · intro i inside
      rw [length] at inside
      rw [onPrintable_input]
      dsimp only
      by_cases before : i < s.input.pos
      · rw [store_outside (.inl before)]
        exact t.text i (by omega)
      · rw [store_inside (by omega) (by rw [List.length_cons, length_slice]; omega)]
        by_cases here : i = s.input.pos
        · rw [here, Nat.sub_self, List.getD_cons_zero]
          exact key.plain.1
        · rw [show i - s.input.pos = i - s.input.pos - 1 + 1 by omega, List.getD_cons_succ,
            getD_slice _ _ _ _ (by omega)]
          exact t.text _ (by omega)
    · rw [length, behind]
      exact nul

theorem Terminated.cut_iff (t : Terminated s.input) :
    Terminated (cut s.input) ↔ s.input.pos = s.input.length := by
  have pos := t.pos
  have nul : (cut s.input).buffer s.input.pos = 0 := by
    simp only [cut]
    rw [store_inside (Nat.le_refl _) (by simp)]
    simp
  constructor
  · intro after
    refine Nat.le_antisymm pos (Nat.not_lt.mp fun inside => ?_)
    exact after.text s.input.pos inside nul
  · intro end_
    refine ⟨pos, t.length, ?_, ?_⟩
    · intro i inside
      simp only [cut] at inside ⊢
      rw [store_outside (.inl (by omega))]
      exact t.text i inside
    · have length : (cut s.input).length = s.input.pos := end_.symm
      rw [length]
      exact nul

theorem matching_cut (cmds : List ShellCommand) (input : ShellInput) (pos : input.pos ≤ cmdBufSize) :
    matching cmds (cut input).buffer input.pos = matching cmds input.buffer input.pos := by
  unfold matching
  apply List.filter_congr
  intro cmd _
  rw [decide_eq_decide, ← xstrncmp_take cmd.name (slice (cut input).buffer 0 cmdBufSize),
    ← xstrncmp_take cmd.name (slice input.buffer 0 cmdBufSize), take_slice _ _ _ _ pos,
    take_slice _ _ _ _ pos]
  simp only [cut]
  rw [slice_store_apart _ (.inl (Nat.le_of_eq (Nat.zero_add _)))]

/-- A completed line is terminated behind the name. -/
theorem Terminated.completed (t : Terminated s.input) (cmd : ShellCommand)
    (fits : cmd.name.length < cmdBufSize) : Terminated (completed s.input cmd.name) := by
  refine ⟨Nat.le_refl _, by simp only [Keys.completed]; omega, ?_, ?_⟩
  · intro i inside
    simp only [Keys.completed, cut] at inside ⊢
    have pos := t.pos
    rw [store_outside (.inl inside)]
    by_cases before : i < s.input.pos
    · rw [store_outside (.inl before), store_outside (.inl before)]
      exact t.text i (by omega)
    · rw [store_inside (by omega) (by rw [List.length_drop]; omega),
        List.getD_eq_getElem _ _ (by rw [List.length_drop]; omega), List.getElem_drop]
      intro nul
      exact cmd.noNul (nul ▸ List.getElem_mem _)
  · simp only [Keys.completed]
    rw [store_inside (Nat.le_refl _) (by simp)]
    simp

theorem Terminated.tab_iff (t : Terminated s.input) :
    Terminated (onTab cmds s).shell.input ↔ (s.input.pos < s.input.length → s.input.pos ≠ 0 ∧
      (2 ≤ (matching cmds s.input.buffer s.input.pos).length ∨
        ∃ cmd, matching cmds s.input.buffer s.input.pos = [cmd] ∧
          cmd.name.length < cmdBufSize)) := by
  have pos := t.pos
  have length := t.length
  have same := matching_cut cmds s.input (by omega)
  -- where only the NUL is written, no tab inside the line is allowed
  have only {condition : Prop} (never : ¬ condition) :
      Terminated (cut s.input) ↔ (s.input.pos < s.input.length → condition) := by
    rw [t.cut_iff]
    constructor
    · exact fun end_ inside => absurd inside (by omega)
    · intro outside
      exact Nat.le_antisymm pos (Nat.not_lt.mp fun inside => never (outside inside))
  have tabbed : Tabbed cmds s.input (onTab cmds s).shell.input := onTab_input
  generalize (onTab cmds s).shell.input = input at tabbed ⊢
  rw [← same]
  cases tabbed with
  | start start => exact only fun both => both.1 start
  | unmatched inside none =>
    refine only fun both => ?_
    rw [none] at both
    rcases both.2 with more | ⟨cmd, one, -⟩
    · simp at more
    · cases one
  | tooLong inside one long =>
    refine only fun both => ?_
    rw [one] at both
    rcases both.2 with more | ⟨cmd, same, fits⟩
    · simp at more
    · cases same
      omega
  | @completed inside cmd one fits =>
    exact iff_of_true (t.completed cmd fits) fun _ => ⟨inside, .inr ⟨cmd, one, fits⟩⟩
  | ambiguous inside more =>
    refine iff_of_true ⟨Nat.le_refl _, by dsimp only; omega, ?_, ?_⟩ fun _ => ⟨inside, .inl more⟩
    · intro i before
      simp only [cut] at before ⊢
      rw [store_outside (.inl before)]
      exact t.text i (by omega)
    · simp only [cut]
      rw [store_inside (Nat.le_refl _) (by simp)]
      simp

theorem terminated_recalled (m : Mem) {line : CStr} (fits : Fits line) :
    Terminated ⟨xstrcpy m 0 line, line.length, line.length⟩ := by
  refine ⟨Nat.le_refl _, fits.2, ?_, ?_⟩
  · intro i inside
    simp only [xstrcpy] at inside ⊢
    rw [store_inside (Nat.zero_le _) (by rw [List.length_append]; omega), Nat.sub_zero,
      List.getD_append _ _ _ _ inside, List.getD_eq_getElem _ _ inside]
    intro nul
    exact fits.1 (nul ▸ List.getElem_mem _)
  · simp only [xstrcpy]
    rw [store_inside (Nat.zero_le _) (by simp)]
    simp

/-- An arrow up or down that meets a slot leaves the line terminated. -/
theorem Terminated.browsed (bounds : InBounds s) (t : Terminated s.input) {idle : Prop}
    {current : Nat} (there : ¬ idle → current < cmdHistoryDepth) {result : Option Turn}
    (browsed : Browsed s idle current result) :
    ∃ turn, result = some turn ∧ Terminated turn.shell.input := by
  cases browsed with
  | idle stays => exact ⟨_, rfl, t⟩
  | missing moves slot =>
    rw [List.getElem?_eq_none_iff, bounds.history.slots] at slot
    exact absurd (there moves) (by omega)
  | @recalled moves line slot turn state input history handled =>
    refine ⟨turn, rfl, ?_⟩
    rw [input]
    exact terminated_recalled _ (bounds.history.lines line (List.mem_of_getElem? slot))

theorem keeps_plain (normal : s.state = .normal) (plain : ¬ Printable ch) (tab : ch ≠ chr '\t') :
    Keeps cmds s ch :=
  ⟨fun _ typed => absurd typed plain, fun _ key => absurd key tab, fun sequence => by
    rw [normal] at sequence
    cases sequence⟩

theorem keeps_escaped (escaped : s.state = .escReceived) : Keeps cmds s ch := by
  refine ⟨fun normal => ?_, fun normal => ?_, fun sequence => ?_⟩
  · rw [escaped] at normal
    cases normal
  · rw [escaped] at normal
    cases normal
  · rw [escaped] at sequence
    cases sequence

theorem keeps_sequence (sequence : s.state = .bracketReceived) : Keeps cmds s ch ↔ (ch = chr 'B' →
    ¬ ((s.history.count = 0 ∨ s.history.current + 1 = s.history.count) ∧ s.input.length ≠ 0) →
      next s.history < cmdHistoryDepth) := by
  constructor
  · exact fun keeps => keeps.down sequence
  · intro down
    refine ⟨fun normal => ?_, fun normal => ?_, fun _ => down⟩
    · rw [sequence] at normal
      cases normal
    · rw [sequence] at normal
      cases normal

theorem Terminated.arrow_iff (bounds : InBounds s) (t : Terminated s.input)
    (sequence : s.state = .bracketReceived) :
    (∃ turn, onArrow s ch = some turn ∧ Terminated turn.shell.input) ↔ Keeps cmds s ch := by
  rw [keeps_sequence sequence]
  have cases := onArrow_cases s ch
  generalize onArrow s ch = result at cases ⊢
  cases cases with
  | up key =>
    subst key
    have current := bounds.history.current
    refine iff_of_true (t.browsed bounds (fun _ => ?_) (browseHistoryUp_cases bounds))
      fun key => absurd key (by decide)
    simp only [cmdHistoryDepth] at current ⊢
    omega
  | down key =>
    have browsed := browseHistoryDown_cases bounds
    constructor
    · rintro ⟨turn, moved, -⟩ _ moves
      rw [moved] at browsed
      cases browsed with
      | idle stays => exact absurd stays moves
      | recalled moves slot state input history handled =>
        obtain ⟨inside, -⟩ := List.getElem?_eq_some_iff.mp slot
        rw [bounds.history.slots] at inside
        exact inside
    · exact fun there => t.browsed bounds (there key) browsed
  | right key =>
    subst key
    refine iff_of_true ⟨_, rfl, ?_⟩ fun key => absurd key (by decide)
    unfold onRight
    split
    · exact ⟨by assumption, t.length, t.text, t.end_⟩
    · exact t
  | left key =>
    subst key
    refine iff_of_true ⟨_, rfl, ?_⟩ fun key => absurd key (by decide)
    unfold onLeft
    split
    · exact ⟨Nat.le_trans (Nat.sub_le _ _) t.pos, t.length, t.text, t.end_⟩
    · exact t
  | other key => exact iff_of_true ⟨_, rfl, t⟩ fun down => absurd down key

theorem Terminated.press_iff (bounds : InBounds s) (t : Terminated s.input) :
    (∃ turn, consoleInputChar cmds s ch = some turn ∧ Terminated turn.shell.input) ↔
      Keeps cmds s ch := by
  have cases := consoleInputChar_cases cmds s ch
  generalize consoleInputChar cmds s ch = result at cases ⊢
  cases cases with
  | escape normal key =>
    subst key
    exact iff_of_true ⟨_, rfl, t⟩ (keeps_plain normal (by decide) (by decide))
  | enter normal key =>
    obtain ⟨-, -, -, turn, run, -, input, -, -⟩ := onEnter_turn cmds bounds
    have after : Terminated turn.shell.input := by
      rw [input]
      refine terminated_empty _ ?_
      rw [xmemset, store_inside (Nat.le_refl 0) (by rw [List.length_replicate]; decide)]
      simp
    refine iff_of_true ⟨turn, run, after⟩ ?_
    rcases key with rfl | rfl
    · exact keeps_plain normal (by decide) (by decide)
    · exact keeps_plain normal (by decide) (by decide)
  | tab normal key =>
    subst key
    have one : (∃ turn, some (onTab cmds s) = some turn ∧ Terminated turn.shell.input) ↔
        Terminated (onTab cmds s).shell.input := by simp
    rw [one, t.tab_iff]
    constructor
    · exact fun tab => ⟨fun _ typed => absurd typed (by decide), fun _ _ => tab, fun sequence => by
        rw [normal] at sequence
        cases sequence⟩
    · exact fun keeps => keeps.tab normal rfl
  | backspace normal key =>
    refine iff_of_true ⟨_, rfl, t.backspace⟩ ?_
    rcases key with rfl | rfl
    · exact keeps_plain normal (by decide) (by decide)
    · exact keeps_plain normal (by decide) (by decide)
  | printable normal key room =>
    have one : (∃ turn, some (onPrintable s ch) = some turn ∧ Terminated turn.shell.input) ↔
        Terminated (onPrintable s ch).shell.input := by simp
    rw [one, t.printable_iff key room]
    constructor
    · exact fun nul => ⟨fun _ _ _ => nul, fun _ tab => absurd tab key.plain.2.2.2.1,
        fun sequence => by
          rw [normal] at sequence
          cases sequence⟩
    · exact fun keeps => keeps.typed normal key room
  | ignored normal key none =>
    refine iff_of_true ⟨_, rfl, t⟩ ⟨fun _ typed room => absurd ⟨typed, room⟩ none,
      fun _ tab => absurd tab key.2.2.1, fun sequence => ?_⟩
    rw [normal] at sequence
    cases sequence
  | bracket escaped key => exact iff_of_true ⟨_, rfl, t⟩ (keeps_escaped escaped)
  | dropped escaped key => exact iff_of_true ⟨_, rfl, t⟩ (keeps_escaped escaped)
  | arrow sequence =>
    rw [← t.arrow_iff bounds sequence]
    simp

/-- In a run the line is terminated at every moment if and only if every key finds what it needs. -/
theorem terminated_throughout_iff (cmds : List ShellCommand) (chs : List UInt8) :
    Throughout (Session.press cmds) (fun session => Terminated session.shell.input) .initial chs ↔
      Along (Session.press cmds) (fun session ch => Keeps cmds session.shell ch) .initial chs := by
  refine throughout_iff_along (fun session => InBounds session.shell) InBounds.press ?_
    inBounds_initial (terminated_empty _ rfl)
  intro session ch bounds t
  rw [← t.press_iff bounds]
  simp [Session.press, Session.add]

/-- `a`, an arrow left and a tab. -/
def tabBefore : List UInt8 := chr 'a' :: arrow 'D' ++ [chr '\t']

/-- The tab at the start of the line puts a NUL in the place of the `a`, which is still counted. -/
theorem tab_unterminated : ∃ session, feed [] .initial tabBefore = some session ∧
    session.shell.input.length = 1 ∧ session.shell.input.buffer 0 = 0 ∧
    ¬ Terminated session.shell.input := by
  refine ⟨_, rfl, rfl, rfl, ?_⟩
  intro t
  exact t.text 0 (by decide) rfl

end T113Boot.Shell.Representation
