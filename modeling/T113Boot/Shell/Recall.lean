/- Module: T113Boot/Shell/Recall
   layer: results
   digest: When the history stays in order and its functions stay within its slots. -/

import T113Boot.Shell.Bounds
import Mathlib.Data.List.Nodup

set_option autoImplicit false
set_option relaxedAutoImplicit false

namespace T113Boot.Shell.Recall

open T113Boot.Lib
open T113Boot.Lib.Cells
open T113Boot.Lib.Moves
open T113Boot.Lib.Runs
open T113Boot.Shell.XString
open T113Boot.Shell.Console
open T113Boot.Shell.Keys
open T113Boot.Shell.Bounds
open T113Boot.Storage.Table (CStr cstr)

variable {cmds : List ShellCommand} {s : Statics} {ch : UInt8}

/-- The lines of the history are distinct and not empty, and it stands at one of them or behind
the last. -/
structure Tidy (history : ShellHistory) : Prop where
  count : history.count ≤ cmdHistoryDepth
  current : history.current ≤ history.count
  distinct : (history.history.take history.count).Nodup
  nonempty : ∀ line ∈ history.history.take history.count, line ≠ []

/-- What a key needs to leave the history tidy and to stay within its slots. A line that is sent off
must not begin with a NUL, and an arrow down behind the last line must find no line at all and
something typed. -/
structure Stays (s : Statics) (ch : UInt8) : Prop where
  enter : s.state = .normal → ch = chr '\r' ∨ ch = chr '\n' → 0 < s.input.length →
    s.input.buffer 0 ≠ 0
  down : s.state = .bracketReceived → ch = chr 'B' → s.history.current = s.history.count →
    s.history.count = 0 ∧ s.input.length ≠ 0

theorem Tidy.same {history history' : ShellHistory} (tidy : Tidy history)
    (same : SameLines history history') : Tidy history' := by
  obtain ⟨lines, count, current⟩ := same
  refine ⟨?_, ?_, ?_, ?_⟩
  · rw [count]
    exact tidy.count
  · rw [current, count]
    exact tidy.current
  · rw [lines, count]
    exact tidy.distinct
  · rw [lines, count]
    exact tidy.nonempty

theorem entered_eq_nil (some : 0 < s.input.length) :
    entered s.input = [] ↔ s.input.buffer 0 = 0 := by
  have first : store s.input.buffer s.input.length [0] 0 = s.input.buffer 0 :=
    store_outside (.inl some)
  unfold entered stringAt
  rw [show cmdBufSize - 0 = 1 + (cmdBufSize - 1) by decide, slice_add]
  have head : slice (store s.input.buffer s.input.length [0]) 0 1 = [s.input.buffer 0] := by
    rw [← first]
    rfl
  rw [head, List.singleton_append, List.takeWhile_cons]
  by_cases nul : s.input.buffer 0 = 0
  · rw [if_neg (by simp [nul])]
    exact iff_of_true rfl nul
  · rw [if_pos (by simpa using nul)]
    exact iff_of_false (by simp) nul

theorem tidy_append {old : List CStr} (distinct : old.Nodup) (nonempty : ∀ line ∈ old, line ≠ [])
    {line : CStr} (fresh : line ∉ old) :
    ((old ++ [line]).Nodup ∧ ∀ l ∈ old ++ [line], l ≠ []) ↔ line ≠ [] := by
  constructor
  · exact fun both => both.2 line (List.mem_append.mpr (.inr List.mem_cons_self))
  · intro some
    refine ⟨?_, ?_⟩
    · rw [List.nodup_append]
      refine ⟨distinct, List.nodup_singleton line, fun a member b last same => ?_⟩
      rw [List.mem_singleton.mp last] at same
      exact fresh (same ▸ member)
    · intro l member
      rcases List.mem_append.mp member with before | last
      · exact nonempty l before
      · rw [List.mem_singleton.mp last]
        exact some

theorem take_set_succ {α : Type} {l : List α} {n : Nat} (inside : n < l.length) (a : α) :
    (l.set n a).take (n + 1) = l.take n ++ [a] := by
  rw [List.take_succ_eq_append_getElem (by rw [List.length_set]; exact inside),
    List.getElem_set_self, List.take_set_of_le (Nat.le_refl n)]

theorem tidy_iff_lines (history : ShellHistory) (count : history.count ≤ cmdHistoryDepth)
    {lines : List CStr} (taken : history.history.take history.count = lines) :
    Tidy { history with current := history.count } ↔ lines.Nodup ∧ ∀ l ∈ lines, l ≠ [] := by
  subst taken
  constructor
  · exact fun tidy => ⟨tidy.distinct, tidy.nonempty⟩
  · exact fun both => ⟨count, Nat.le_refl _, both.1, both.2⟩

theorem Tidy.save_iff {history history' : ShellHistory} (bounds : HistoryBounds history)
    (tidy : Tidy history) {line : CStr} (fits : Fits line)
    (saved : saveToHistory history line = some history') :
    Tidy { history' with current := history'.count } ↔ line ≠ [] := by
  have cases := saveToHistory_cases bounds fits
  rw [saved] at cases
  cases cases with
  | known listed =>
    exact iff_of_true ⟨tidy.count, Nat.le_refl _, tidy.distinct, tidy.nonempty⟩
      (tidy.nonempty line listed)
  | full fresh full =>
    have all : history.history.take history.count = history.history := by
      rw [full, ← bounds.slots, List.take_length]
    have taken : (history.history.drop 1 ++ [line]).take history.count =
        history.history.drop 1 ++ [line] := by
      apply List.take_of_length_le
      rw [List.length_append, List.length_drop, List.length_singleton, bounds.slots, full]
      decide
    rw [all] at fresh
    have old := tidy.distinct
    have some := tidy.nonempty
    rw [all] at old some
    refine (tidy_iff_lines { history with history := history.history.drop 1 ++ [line] } tidy.count
      taken).trans ?_
    exact tidy_append (old.sublist (List.drop_sublist 1 _))
      (fun l member => some l (List.mem_of_mem_drop member))
      fun member => fresh (List.mem_of_mem_drop member)
  | room fresh room =>
    have inside : history.count < history.history.length := by
      rw [bounds.slots]
      exact room
    refine (tidy_iff_lines { history with
      history := history.history.set history.count line
      count := history.count + 1 } room (take_set_succ inside line)).trans ?_
    exact tidy_append tidy.distinct tidy.nonempty fresh

/-- A tidy history stays tidy when it moves to one of its lines, and only then. -/
theorem Tidy.moved_iff {history : ShellHistory} (tidy : Tidy history) (current : Nat) :
    Tidy { history with current := current } ↔ current ≤ history.count :=
  ⟨fun after => after.current, fun bound => ⟨tidy.count, bound, tidy.distinct, tidy.nonempty⟩⟩

theorem Tidy.browsed_iff (bounds : InBounds s) (tidy : Tidy s.history) {idle : Prop} {current : Nat}
    {result : Option Turn} (browsed : Browsed s idle current result) :
    (∃ turn, result = some turn ∧ Tidy turn.shell.history) ↔
      (¬ idle → current ≤ s.history.count ∧ current < cmdHistoryDepth) := by
  cases browsed with
  | idle stays => exact iff_of_true ⟨_, rfl, tidy⟩ fun moves => absurd stays moves
  | missing moves slot =>
    rw [List.getElem?_eq_none_iff, bounds.history.slots] at slot
    refine iff_of_false ?_ fun there => absurd (there moves).2 (by omega)
    rintro ⟨turn, none, -⟩
    cases none
  | @recalled moves line slot turn state input history handled =>
    obtain ⟨inside, -⟩ := List.getElem?_eq_some_iff.mp slot
    rw [bounds.history.slots] at inside
    have one : (∃ turn', some turn = some turn' ∧ Tidy turn'.shell.history) ↔
        Tidy turn.shell.history := by simp
    rw [one, history, tidy.moved_iff]
    exact ⟨fun bound _ => ⟨bound, inside⟩, fun there => (there moves).1⟩

/-- An arrow up is always fine. -/
theorem Tidy.up (bounds : InBounds s) (tidy : Tidy s.history) :
    ∃ turn, browseHistoryUp s = some turn ∧ Tidy turn.shell.history := by
  rw [tidy.browsed_iff bounds (browseHistoryUp_cases bounds)]
  have count := tidy.count
  have current := tidy.current
  simp only [cmdHistoryDepth] at count ⊢
  omega

theorem Tidy.down_iff (bounds : InBounds s) (tidy : Tidy s.history) :
    (∃ turn, browseHistoryDown s = some turn ∧ Tidy turn.shell.history) ↔
      (s.history.current = s.history.count → s.history.count = 0 ∧ s.input.length ≠ 0) := by
  rw [tidy.browsed_iff bounds (browseHistoryDown_cases bounds)]
  have count := tidy.count
  have current := tidy.current
  simp only [cmdHistoryDepth] at count ⊢
  unfold next
  split <;> omega

theorem stays_other (enter : s.state = .normal → ¬ (ch = chr '\r' ∨ ch = chr '\n'))
    (down : s.state = .bracketReceived → ch ≠ chr 'B') : Stays s ch :=
  ⟨fun normal key => absurd key (enter normal), fun sequence key => absurd key (down sequence)⟩

theorem Tidy.arrow_iff (bounds : InBounds s) (tidy : Tidy s.history)
    (sequence : s.state = .bracketReceived) :
    (∃ turn, onArrow s ch = some turn ∧ Tidy turn.shell.history) ↔ Stays s ch := by
  have normal : ¬ s.state = .normal := by
    rw [sequence]
    decide
  -- only an arrow down asks for something
  have stays (key : ch ≠ chr 'B') : Stays s ch :=
    stays_other (fun start => absurd start normal) fun _ => key
  have cases := onArrow_cases s ch
  generalize onArrow s ch = result at cases ⊢
  cases cases with
  | up key =>
    refine iff_of_true (tidy.up bounds) (stays ?_)
    rw [key]
    decide
  | down key =>
    rw [tidy.down_iff bounds]
    constructor
    · exact fun fine => ⟨fun start => absurd start normal, fun _ _ => fine⟩
    · exact fun stays => stays.down sequence key
  | right key =>
    refine iff_of_true ⟨_, rfl, tidy.same onRight_quiet.history⟩ (stays ?_)
    rw [key]
    decide
  | left key =>
    refine iff_of_true ⟨_, rfl, tidy.same onLeft_quiet.history⟩ (stays ?_)
    rw [key]
    decide
  | other key => exact iff_of_true ⟨_, rfl, tidy⟩ (stays key)

theorem Tidy.enter_iff (cmds : List ShellCommand) (bounds : InBounds s) (tidy : Tidy s.history) :
    (∃ turn, onEnter cmds s = some turn ∧ Tidy turn.shell.history) ↔
      (0 < s.input.length → s.input.buffer 0 ≠ 0) := by
  obtain ⟨history, saved, -, turn, run, -, -, after, -⟩ := onEnter_turn cmds bounds
  have one : (∃ turn, onEnter cmds s = some turn ∧ Tidy turn.shell.history) ↔
      Tidy { history with current := history.count } := by
    rw [run]
    simp [after]
  rw [one]
  by_cases typed : 0 < s.input.length
  · rw [if_pos typed] at saved
    rw [tidy.save_iff bounds.history bounds.line.entered saved, ne_eq, entered_eq_nil typed]
    exact ⟨fun text _ => text, fun text => text typed⟩
  · rw [if_neg typed] at saved
    cases saved
    exact iff_of_true ((tidy.moved_iff _).mpr (Nat.le_refl _)) fun some => absurd some typed

theorem Tidy.press_iff (cmds : List ShellCommand) (bounds : InBounds s) (tidy : Tidy s.history) :
    (∃ turn, consoleInputChar cmds s ch = some turn ∧ Tidy turn.shell.history) ↔ Stays s ch := by
  have cases := consoleInputChar_cases cmds s ch
  generalize consoleInputChar cmds s ch = result at cases ⊢
  -- the keys that leave the lines of the history alone
  have other {turn : Turn} (same : SameLines s.history turn.shell.history)
      (normal : s.state = .normal) (enter : ¬ (ch = chr '\r' ∨ ch = chr '\n')) :
      (∃ turn', some turn = some turn' ∧ Tidy turn'.shell.history) ↔ Stays s ch := by
    refine iff_of_true ⟨turn, rfl, tidy.same same⟩ (stays_other (fun _ => enter) fun sequence => ?_)
    rw [normal] at sequence
    cases sequence
  have escaped {turn : Turn} (same : SameLines s.history turn.shell.history)
      (state : s.state = .escReceived) :
      (∃ turn', some turn = some turn' ∧ Tidy turn'.shell.history) ↔ Stays s ch := by
    refine iff_of_true ⟨turn, rfl, tidy.same same⟩ (stays_other (fun normal => ?_) fun sequence => ?_)
    · rw [state] at normal
      cases normal
    · rw [state] at sequence
      cases sequence
  cases cases with
  | escape normal key => exact other ⟨rfl, rfl, rfl⟩ normal (by subst key; decide)
  | enter normal key =>
    rw [tidy.enter_iff cmds bounds]
    constructor
    · refine fun text => ⟨fun _ _ => text, fun sequence => ?_⟩
      rw [normal] at sequence
      cases sequence
    · exact fun stays => stays.enter normal key
  | tab normal key => exact other onTab_quiet.history normal (by subst key; decide)
  | backspace normal key =>
    refine other onBackspace_quiet.history normal ?_
    rcases key with rfl | rfl
    · decide
    · decide
  | printable normal key room => exact other onPrintable_quiet.history normal key.plain.2.2.1
  | ignored normal key none => exact other ⟨rfl, rfl, rfl⟩ normal key.2.1
  | bracket state key => exact escaped ⟨rfl, rfl, rfl⟩ state
  | dropped state key => exact escaped ⟨rfl, rfl, rfl⟩ state
  | arrow sequence =>
    rw [← tidy.arrow_iff bounds sequence]
    simp

theorem tidy_initial : Tidy Statics.initial.history :=
  ⟨Nat.zero_le _, Nat.le_refl _, List.nodup_nil, fun _ member => absurd member List.not_mem_nil⟩

/-- In a run every slot that is read or written exists and the history is tidy at every moment if
and only if no empty line is sent off and no arrow down starts behind the last line. -/
theorem tidy_throughout_iff (cmds : List ShellCommand) (chs : List UInt8) :
    Throughout (Session.press cmds) (fun session => Tidy session.shell.history) .initial chs ↔
      Along (Session.press cmds) (fun session ch => Stays session.shell ch) .initial chs := by
  refine throughout_iff_along (fun session => InBounds session.shell) InBounds.press ?_
    inBounds_initial tidy_initial
  intro session ch bounds tidy
  rw [← tidy.press_iff cmds bounds]
  simp [Session.press, Session.add]

/-- A single arrow down before anything is typed leads behind the empty history. -/
theorem down_leaves_history : ∃ session, feed [] .initial (arrow 'B') = some session ∧
    session.shell.history.current = 1 ∧ session.shell.history.count = 0 ∧
    ¬ Tidy session.shell.history := by
  refine ⟨_, rfl, rfl, rfl, ?_⟩
  intro tidy
  exact absurd tidy.current (by decide)

end T113Boot.Shell.Recall
