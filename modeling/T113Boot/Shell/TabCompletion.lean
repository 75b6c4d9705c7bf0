/- Module: T113Boot/Shell/TabCompletion
   layer: results
   digest: What a tab makes of the line that was typed, and when it destroys some of it. -/

import T113Boot.Shell.Representation

set_option autoImplicit false
set_option relaxedAutoImplicit false

namespace T113Boot.Shell.TabCompletion

open T113Boot.Lib.Cells
open T113Boot.Lib.Moves
open T113Boot.Lib.Runs
open T113Boot.Shell.XString
open T113Boot.Shell.Console
open T113Boot.Shell.Keys
open T113Boot.Shell.Bounds
open T113Boot.Shell.Representation
open T113Boot.Storage.Table (CStr cstr)

variable {cmds : List ShellCommand} {s : Statics} {ch : UInt8} {turn : Turn}

/-- The line, as far as it is counted. -/
def text (input : ShellInput) : CStr := slice input.buffer 0 input.length

/-- The text before the cursor. -/
def typed (input : ShellInput) : CStr := slice input.buffer 0 input.pos

/-- The commands whose names start with it. -/
def candidates (cmds : List ShellCommand) (input : ShellInput) : List ShellCommand :=
  cmds.filter fun cmd => typed input <+: cmd.name

/-- What processing a tab has to make of a line. -/
structure TabKept (cmds : List ShellCommand) (input after : ShellInput) : Prop where
  before : (text after).take input.pos = typed input
  untouched : input.pos = 0 ∨ candidates cmds input = [] →
    text after = text input ∧ after.pos = input.pos
  completed : ∀ cmd, input.pos ≠ 0 → candidates cmds input = [cmd] →
    cmd.name.length < cmdBufSize →
    (text after).take after.pos = cmd.name ∧ after.pos = cmd.name.length
  full : ∀ cmd, input.pos ≠ 0 → candidates cmds input = [cmd] → cmdBufSize ≤ cmd.name.length →
    text after = text input ∧ after.pos = input.pos
  several : input.pos ≠ 0 → 2 ≤ (candidates cmds input).length → after.pos = input.pos

/-- The cursor is at the end, or the tab finds commands to list, or one to complete that fits. -/
def Harmless (cmds : List ShellCommand) (input : ShellInput) : Prop :=
  input.pos < input.length → input.pos ≠ 0 ∧ (2 ≤ (candidates cmds input).length ∨
    ∃ cmd, candidates cmds input = [cmd] ∧ cmd.name.length < cmdBufSize)

/-- A tab that the console takes for one. -/
def IsTab (s : Statics) (ch : UInt8) : Prop := s.state = .normal ∧ ch = chr '\t'

def TabKeeps (cmds : List ShellCommand) (s : Statics) (ch : UInt8) : Prop := IsTab s ch →
  ∃ turn, consoleInputChar cmds s ch = some turn ∧ TabKept cmds s.input turn.shell.input

/-- No character of the line is a NUL. -/
def Unbroken (input : ShellInput) : Prop := 0 ∉ text input

private theorem sign_nonzero (p : Prop) [Decidable p] : ¬ (if p then (-1 : Int) else 1) = 0 := by
  by_cases h : p
  · rw [if_pos h]
    decide
  · rw [if_neg h]
    decide

private theorem xstrncmp_prefix {before : CStr} (noNul : 0 ∉ before) (name : CStr) :
    xstrncmp name before before.length = 0 ↔ before <+: name := by
  induction before generalizing name with
  | nil => exact iff_of_true rfl List.nil_prefix
  | cons c before ih =>
    have nonzero : c ≠ 0 := fun zero => noNul (zero ▸ List.mem_cons_self)
    have rest : 0 ∉ before := fun member => noNul (List.mem_cons_of_mem c member)
    rw [List.length_cons, xstrncmp, List.headD_cons, List.tail_cons]
    rcases name with _ | ⟨d, name⟩
    · rw [List.headD_nil, if_pos (Ne.symm nonzero)]
      refine iff_of_false (sign_nonzero _) fun starts => ?_
      exact List.cons_ne_nil c before (List.prefix_nil.mp starts)
    · rw [List.headD_cons, List.tail_cons, List.cons_prefix_cons]
      by_cases same : d = c
      · rw [if_neg (not_not_intro same), if_neg (same ▸ nonzero), ih rest]
        exact ⟨fun starts => ⟨same.symm, starts⟩, fun both => both.2⟩
      · rw [if_pos same]
        exact iff_of_false (sign_nonzero _) fun both => same both.1.symm

private theorem take_text {input : ShellInput} (inside : input.pos ≤ input.length) :
    (text input).take input.pos = typed input := take_slice _ _ _ _ inside

private theorem zero_notMem_typed (unbroken : Unbroken s.input)
    (inside : s.input.pos ≤ s.input.length) : 0 ∉ typed s.input := by
  rw [← take_text inside]
  exact fun member => unbroken (List.mem_of_mem_take member)

private theorem matching_eq (unbroken : Unbroken s.input) (bounds : LineBounds s.input) :
    matching cmds (cut s.input).buffer s.input.pos = candidates cmds s.input := by
  have pos := bounds.pos
  have length := bounds.length
  have inside : s.input.pos ≤ cmdBufSize := by omega
  have noNul := zero_notMem_typed unbroken pos
  rw [matching_cut cmds s.input inside]
  apply List.filter_congr
  intro cmd _
  have size : (typed s.input).length = s.input.pos := length_slice _ _ _
  have compared := xstrncmp_prefix noNul cmd.name
  rw [size] at compared
  rw [decide_eq_decide, ← xstrncmp_take cmd.name (slice s.input.buffer 0 cmdBufSize),
    take_slice _ _ _ _ inside]
  exact compared

private theorem text_cut (input : ShellInput) :
    text (cut input) = slice (store input.buffer input.pos [0]) 0 input.length := rfl

private theorem text_cut_iff (unbroken : Unbroken s.input) (bounds : LineBounds s.input) :
    text (cut s.input) = text s.input ↔ s.input.pos = s.input.length := by
  have pos := bounds.pos
  rw [text_cut, text]
  constructor
  · intro same
    by_contra other
    have inside : s.input.pos < s.input.length := by omega
    have here := congrArg (fun line => line.getD s.input.pos 0) same
    rw [getD_slice _ _ _ _ inside, getD_slice _ _ _ _ inside, Nat.zero_add,
      store_inside (Nat.le_refl _) (by simp)] at here
    rw [Nat.sub_self, List.getD_cons_zero] at here
    refine unbroken (List.mem_map.mpr ⟨s.input.pos, List.mem_range.mpr inside, ?_⟩)
    rw [Nat.zero_add, here]
  · intro end_
    exact slice_congr (agreeOn_store (.inl (by omega)))

private theorem before_cut (bounds : LineBounds s.input) :
    (text (cut s.input)).take s.input.pos = typed s.input := by
  rw [text_cut, take_slice _ _ _ _ bounds.pos]
  exact slice_congr (agreeOn_store (.inl (Nat.le_of_eq (Nat.zero_add _))))

private theorem kept_cut_iff (unbroken : Unbroken s.input) (bounds : LineBounds s.input)
    (idle : (s.input.pos = 0 ∨ candidates cmds s.input = []) ∨ ∃ cmd, s.input.pos ≠ 0 ∧
      candidates cmds s.input = [cmd] ∧ cmdBufSize ≤ cmd.name.length) :
    TabKept cmds s.input (cut s.input) ↔ Harmless cmds s.input := by
  have pos := bounds.pos
  have nothing : ¬ (s.input.pos ≠ 0 ∧ (2 ≤ (candidates cmds s.input).length ∨
      ∃ cmd, candidates cmds s.input = [cmd] ∧ cmd.name.length < cmdBufSize)) := by
    rintro ⟨inside, several | ⟨cmd, one, fits⟩⟩
    · rcases idle with (start | none) | ⟨cmd, -, one, -⟩
      · exact inside start
      · rw [none] at several
        simp at several
      · rw [one] at several
        simp at several
    · rcases idle with (start | none) | ⟨cmd', -, one', long⟩
      · exact inside start
      · rw [none] at one
        cases one
      · rw [one] at one'
        cases one'
        omega
  have harmless : Harmless cmds s.input ↔ s.input.pos = s.input.length := by
    constructor
    · exact fun harmless => Nat.le_antisymm pos (Nat.not_lt.mp fun more => nothing (harmless more))
    · exact fun end_ more => absurd more (by omega)
  rw [harmless, ← text_cut_iff unbroken bounds]
  constructor
  · intro kept
    rcases idle with untouched | ⟨cmd, inside, one, long⟩
    · exact (kept.untouched untouched).1
    · exact (kept.full cmd inside one long).1
  · intro same
    exact {
      before := before_cut bounds
      untouched := fun _ => ⟨same, rfl⟩
      completed := fun cmd inside one fits => absurd ⟨inside, .inr ⟨cmd, one, fits⟩⟩ nothing
      full := fun _ _ _ _ => ⟨same, rfl⟩
      several := fun _ _ => rfl }

private theorem starts_of_one {cmd : ShellCommand} (one : candidates cmds s.input = [cmd]) :
    typed s.input <+: cmd.name := by
  have member : cmd ∈ candidates cmds s.input := one ▸ List.mem_singleton_self cmd
  exact of_decide_eq_true (List.mem_filter.mp member).2

private theorem text_completed {name : CStr} (starts : typed s.input <+: name) :
    text (completed s.input name) = name := by
  obtain ⟨rest, rfl⟩ := starts
  have size : (typed s.input).length = s.input.pos := length_slice _ _ _
  have behind : (typed s.input ++ rest).drop s.input.pos = rest := List.drop_left' size
  have length : (typed s.input ++ rest).length = s.input.pos + rest.length := by
    rw [List.length_append, size]
  have front : slice (store (cut s.input).buffer s.input.pos rest) 0 s.input.pos =
      typed s.input := by
    apply slice_congr
    refine AgreeOn.trans (agreeOn_store (.inl (Nat.le_of_eq (Nat.zero_add _)))) ?_
    exact agreeOn_store (.inl (Nat.le_of_eq (Nat.zero_add _)))
  have ended : text (completed s.input (typed s.input ++ rest)) =
      slice (store (cut s.input).buffer s.input.pos rest) 0 (typed s.input ++ rest).length := by
    rw [text, completed, behind]
    exact slice_congr (agreeOn_store (.inl (Nat.le_of_eq (Nat.zero_add _))))
  rw [ended, length, slice_add, front, Nat.zero_add, slice_store]

theorem tabKept_iff (unbroken : Unbroken s.input) (bounds : LineBounds s.input) :
    TabKept cmds s.input (onTab cmds s).shell.input ↔ Harmless cmds s.input := by
  have pos := bounds.pos
  have found : matching cmds (cut s.input).buffer s.input.pos = candidates cmds s.input :=
    matching_eq unbroken bounds
  have tabbed : Tabbed cmds s.input (onTab cmds s).shell.input := onTab_input
  generalize (onTab cmds s).shell.input = input at tabbed ⊢
  cases tabbed with
  | start start => exact kept_cut_iff unbroken bounds (.inl (.inl start))
  | unmatched inside none =>
    rw [found] at none
    exact kept_cut_iff unbroken bounds (.inl (.inr none))
  | @tooLong inside cmd one long =>
    rw [found] at one
    exact kept_cut_iff unbroken bounds (.inr ⟨cmd, inside, one, long⟩)
  | @completed inside cmd one fits =>
    rw [found] at one
    refine iff_of_true ?_ fun _ => ⟨inside, .inr ⟨cmd, one, fits⟩⟩
    have starts := starts_of_one one
    have line : text (completed s.input cmd.name) = cmd.name := text_completed starts
    refine ⟨?_, ?_, ?_, ?_, ?_⟩
    · rw [line, List.prefix_iff_eq_take.mp starts, typed, length_slice]
    · rintro (start | none)
      · exact absurd start inside
      · rw [one] at none
        cases none
    · intro cmd' _ one' _
      rw [one] at one'
      cases one'
      exact ⟨by rw [line]; exact List.take_length, rfl⟩
    · intro cmd' _ one' long
      rw [one] at one'
      cases one'
      omega
    · intro _ several
      rw [one] at several
      simp at several
  | ambiguous inside more =>
    rw [found] at more
    refine iff_of_true ?_ fun _ => ⟨inside, .inl more⟩
    have alone {cmd : ShellCommand} (one : candidates cmds s.input = [cmd]) : False := by
      rw [one] at more
      simp at more
    refine ⟨?_, ?_, ?_, ?_, fun _ _ => rfl⟩
    · rw [← before_cut bounds, text_cut, text, take_slice _ _ _ _ pos]
      exact take_slice _ _ _ _ (Nat.le_refl _)
    · rintro (start | none)
      · exact absurd start inside
      · rw [none] at more
        simp at more
    · exact fun cmd _ one _ => (alone one).elim
    · exact fun cmd _ one _ => (alone one).elim

private theorem unbroken_tab (unbroken : Unbroken s.input) (bounds : LineBounds s.input)
    (harmless : Harmless cmds s.input) : Unbroken (onTab cmds s).shell.input := by
  have pos := bounds.pos
  have found : matching cmds (cut s.input).buffer s.input.pos = candidates cmds s.input :=
    matching_eq unbroken bounds
  have kept : TabKept cmds s.input (onTab cmds s).shell.input :=
    (tabKept_iff unbroken bounds).mpr harmless
  have tabbed : Tabbed cmds s.input (onTab cmds s).shell.input := onTab_input
  generalize (onTab cmds s).shell.input = input at tabbed kept ⊢
  unfold Unbroken
  cases tabbed with
  | start start =>
    rw [(kept.untouched (.inl start)).1]
    exact unbroken
  | unmatched inside none =>
    rw [found] at none
    rw [(kept.untouched (.inr none)).1]
    exact unbroken
  | @tooLong inside cmd one long =>
    rw [found] at one
    rw [(kept.full cmd inside one long).1]
    exact unbroken
  | @completed inside cmd one fits =>
    rw [found] at one
    rw [text_completed (starts_of_one one)]
    exact cmd.noNul
  | ambiguous inside more =>
    have all : text { cut s.input with length := s.input.pos } = typed s.input := by
      rw [← kept.before, text, List.take_of_length_le (Nat.le_of_eq (length_slice _ _ _))]
    rw [all]
    exact zero_notMem_typed unbroken pos

private theorem unbroken_backspace (unbroken : Unbroken s.input) (bounds : LineBounds s.input) :
    Unbroken (onBackspace s).shell.input := by
  unfold Unbroken
  by_cases positive : 0 < s.input.pos
  · rw [onBackspace_input positive, text, slice_delete _ positive bounds.pos]
    intro member
    rcases List.mem_append.mp member with before | behind
    · exact unbroken (List.mem_of_mem_take before)
    · exact unbroken (List.mem_of_mem_drop behind)
  · unfold onBackspace
    dsimp only
    rw [if_neg positive]
    exact unbroken

private theorem unbroken_printable (unbroken : Unbroken s.input) (bounds : LineBounds s.input)
    (key : Printable ch) : Unbroken (onPrintable s ch).shell.input := by
  unfold Unbroken
  rw [onPrintable_input, text, slice_insert _ bounds.pos]
  intro member
  rcases List.mem_append.mp member with before | behind
  · exact unbroken (List.mem_of_mem_take before)
  · rcases List.mem_cons.mp behind with here | later
    · exact key.plain.1 here.symm
    · exact unbroken (List.mem_of_mem_drop later)

private theorem unbroken_browsed (unbroken : Unbroken s.input) (bounds : InBounds s) {idle : Prop}
    {current : Nat} (browsed : Browsed s idle current (some turn)) :
    Unbroken turn.shell.input := by
  cases browsed with
  | idle stays => exact unbroken
  | @recalled moves line slot _ state input history handled =>
    have fits := bounds.history.lines line (List.mem_of_getElem? slot)
    unfold Unbroken
    rw [input, text, xstrcpy, ← store_append,
      slice_store_apart _ (.inl (Nat.le_of_eq rfl)), slice_store]
    exact fits.1

private theorem unbroken_arrow (bounds : InBounds s) (unbroken : Unbroken s.input)
    (acts : onArrow s ch = some turn) : Unbroken turn.shell.input := by
  have cases := onArrow_cases s ch
  rw [acts] at cases
  generalize same : some turn = result at cases
  cases cases with
  | up key =>
    have browsed := browseHistoryUp_cases bounds
    rw [← same] at browsed
    exact unbroken_browsed unbroken bounds browsed
  | down key =>
    have browsed := browseHistoryDown_cases bounds
    rw [← same] at browsed
    exact unbroken_browsed unbroken bounds browsed
  | right key =>
    cases same
    unfold onRight
    split
    · exact unbroken
    · exact unbroken
  | left key =>
    cases same
    unfold onLeft
    split
    · exact unbroken
    · exact unbroken
  | other key =>
    cases same
    exact unbroken

/-- Every key leaves the line without NULs if every tab is harmless. -/
theorem unbroken_pressed (bounds : InBounds s) (unbroken : Unbroken s.input)
    (harmless : IsTab s ch → Harmless cmds s.input)
    (press : consoleInputChar cmds s ch = some turn) : Unbroken turn.shell.input := by
  have cases := consoleInputChar_cases cmds s ch
  rw [press] at cases
  generalize same : some turn = result at cases
  cases cases with
  | escape normal key =>
    cases same
    exact unbroken
  | enter normal key =>
    obtain ⟨-, -, -, turn', run, -, input, -⟩ := onEnter_turn cmds bounds
    rw [run] at same
    cases same
    rw [input]
    exact List.not_mem_nil
  | tab normal key =>
    cases same
    exact unbroken_tab unbroken bounds.line (harmless ⟨normal, key⟩)
  | backspace normal key =>
    cases same
    exact unbroken_backspace unbroken bounds.line
  | printable normal key room =>
    cases same
    exact unbroken_printable unbroken bounds.line key
  | ignored normal key none =>
    cases same
    exact unbroken
  | bracket escaped key =>
    cases same
    exact unbroken
  | dropped escaped key =>
    cases same
    exact unbroken
  | arrow sequence =>
    obtain ⟨turn', acts, rfl⟩ := Option.map_eq_some_iff.mp same.symm
    change Unbroken turn'.shell.input
    exact unbroken_arrow bounds unbroken acts

/-- A character that is a tab does what a tab has to exactly on a harmless line. -/
theorem tabKeeps_iff (unbroken : Unbroken s.input) (bounds : LineBounds s.input) :
    TabKeeps cmds s ch ↔ (IsTab s ch → Harmless cmds s.input) := by
  refine imp_congr_right ?_
  rintro ⟨normal, rfl⟩
  have pressed : consoleInputChar cmds s (chr '\t') = some (onTab cmds s) := by
    unfold consoleInputChar
    rw [normal]
    rfl
  rw [← tabKept_iff unbroken bounds, pressed]
  constructor
  · rintro ⟨turn, same, kept⟩
    cases same
    exact kept
  · exact fun kept => ⟨_, rfl, kept⟩

/-- In a run every tab does what it has to if and only if every tab is harmless. -/
theorem tab_keeps_iff (cmds : List ShellCommand) (chs : List UInt8) :
    Along (Session.press cmds) (fun session ch => TabKeeps cmds session.shell ch) .initial chs ↔
      Along (Session.press cmds)
        (fun session ch => IsTab session.shell ch → Harmless cmds session.shell.input)
        .initial chs := by
  refine along_iff (fun session => InBounds session.shell ∧ Unbroken session.shell.input) ?_ ?_
    ⟨inBounds_initial, List.not_mem_nil⟩
  · rintro session session' ch ⟨bounds, unbroken⟩ keeps press
    refine ⟨bounds.press press, ?_⟩
    obtain ⟨turn, pressed, rfl⟩ := Option.map_eq_some_iff.mp press
    have harmless := (tabKeeps_iff unbroken bounds.line).mp keeps
    exact unbroken_pressed bounds unbroken harmless pressed
  · rintro session ch ⟨bounds, unbroken⟩
    exact tabKeeps_iff unbroken bounds.line

def helpCommand : ShellCommand := ⟨cstr "help", cstr "Show all commands", by decide⟩

/-- `xy`, an arrow left and a tab: no command starts with `x`, and the `y` becomes a NUL. -/
theorem tab_destroys_text : ∃ session after,
    feed [helpCommand] .initial (cstr "xy" ++ arrow 'D') = some session ∧
    session.press [helpCommand] (chr '\t') = some after ∧
    text session.shell.input = cstr "xy" ∧ session.shell.input.pos = 1 ∧
    candidates [helpCommand] session.shell.input = [] ∧
    text after.shell.input = [chr 'x', 0] ∧
    ¬ TabKeeps [helpCommand] session.shell (chr '\t') := by
  refine ⟨_, _, rfl, rfl, by decide, rfl, by decide, by decide, ?_⟩
  intro keeps
  obtain ⟨turn, pressed, kept⟩ := keeps ⟨rfl, rfl⟩
  cases pressed
  have same := (kept.untouched (.inr (by decide))).1
  revert same
  decide

end T113Boot.Shell.TabCompletion
