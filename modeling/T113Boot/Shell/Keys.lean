/- Module: T113Boot/Shell/Keys
   layer: specification
   digest: What each character can do to the line, in each state of the decoder. -/

import T113Boot.Shell.Console

set_option autoImplicit false
set_option relaxedAutoImplicit false

namespace T113Boot.Shell.Keys

open T113Boot.Lib.Cells
open T113Boot.Lib.Moves
open T113Boot.Shell.XString
open T113Boot.Shell.Console
open T113Boot.Storage.Table (CStr)

variable {cmds : List ShellCommand} {s : Statics} {ch : UInt8}

/-- A character that can be typed into the line. -/
def Printable (ch : UInt8) : Prop := ch ≥ 0x20 ∧ ch ≤ 0x7E

instance (ch : UInt8) : Decidable (Printable ch) := inferInstanceAs (Decidable (_ ∧ _))

theorem Printable.plain (printable : Printable ch) : ch ≠ 0 ∧ ch ≠ esc ∧
    ¬ (ch = chr '\r' ∨ ch = chr '\n') ∧ ch ≠ chr '\t' ∧ ¬ (ch = 8 ∨ ch = del) := by
  obtain ⟨low, high⟩ := printable
  refine ⟨?_, ?_, ?_, ?_, ?_⟩
  · rintro rfl
    exact absurd low (by decide)
  · rintro rfl
    exact absurd low (by decide)
  · rintro (rfl | rfl)
    · exact absurd low (by decide)
    · exact absurd low (by decide)
  · rintro rfl
    exact absurd low (by decide)
  · rintro (rfl | rfl)
    · exact absurd low (by decide)
    · exact absurd high (by decide)

/-- The turns of `console_input_char`. -/
inductive Pressed (cmds : List ShellCommand) (s : Statics) (ch : UInt8) : Option Turn → Prop
  | escape (normal : s.state = .normal) (key : ch = esc) :
      Pressed cmds s ch (some { shell := { s with state := .escReceived } })
  | enter (normal : s.state = .normal) (key : ch = chr '\r' ∨ ch = chr '\n') :
      Pressed cmds s ch (onEnter cmds s)
  | tab (normal : s.state = .normal) (key : ch = chr '\t') :
      Pressed cmds s ch (some (onTab cmds s))
  | backspace (normal : s.state = .normal) (key : ch = 8 ∨ ch = del) :
      Pressed cmds s ch (some (onBackspace s))
  | printable (normal : s.state = .normal) (key : Printable ch)
      (room : s.input.length < cmdBufSize - 1) : Pressed cmds s ch (some (onPrintable s ch))
  | ignored (normal : s.state = .normal) (key : ch ≠ esc ∧ ¬ (ch = chr '\r' ∨ ch = chr '\n') ∧
      ch ≠ chr '\t' ∧ ¬ (ch = 8 ∨ ch = del))
      (none : ¬ (Printable ch ∧ s.input.length < cmdBufSize - 1)) :
      Pressed cmds s ch (some { shell := s })
  | bracket (escaped : s.state = .escReceived) (key : ch = chr '[') :
      Pressed cmds s ch (some { shell := { s with state := .bracketReceived } })
  | dropped (escaped : s.state = .escReceived) (key : ch ≠ chr '[') :
      Pressed cmds s ch (some { shell := { s with state := .normal } })
  | arrow (sequence : s.state = .bracketReceived) : Pressed cmds s ch
      ((onArrow s ch).map fun t => { t with shell := { t.shell with state := .normal } })

theorem consoleInputChar_cases (cmds : List ShellCommand) (s : Statics) (ch : UInt8) :
    Pressed cmds s ch (consoleInputChar cmds s ch) := by
  unfold consoleInputChar
  rcases state : s.state with _ | _ | _
  · dsimp only
    by_cases escape : ch = esc
    · rw [if_pos escape]
      exact .escape state escape
    rw [if_neg escape]
    by_cases enter : ch = chr '\r' ∨ ch = chr '\n'
    · rw [if_pos enter]
      exact .enter state enter
    rw [if_neg enter]
    by_cases tab : ch = chr '\t'
    · rw [if_pos tab]
      exact .tab state tab
    rw [if_neg tab]
    by_cases backspace : ch = 8 ∨ ch = del
    · rw [if_pos backspace]
      exact .backspace state backspace
    rw [if_neg backspace]
    by_cases typed : (ch ≥ 0x20 ∧ ch ≤ 0x7E) ∧ s.input.length < cmdBufSize - 1
    · rw [if_pos typed]
      exact .printable state typed.1 typed.2
    · rw [if_neg typed]
      exact .ignored state ⟨escape, enter, tab, backspace⟩ typed
  · dsimp only
    by_cases bracket : ch = chr '['
    · rw [if_pos bracket]
      exact .bracket state bracket
    · rw [if_neg bracket]
      exact .dropped state bracket
  · exact .arrow state

/-- The turns of the character behind `ESC [`. -/
inductive Arrowed (s : Statics) (ch : UInt8) : Option Turn → Prop
  | up (key : ch = chr 'A') : Arrowed s ch (browseHistoryUp s)
  | down (key : ch = chr 'B') : Arrowed s ch (browseHistoryDown s)
  | right (key : ch = chr 'C') : Arrowed s ch (some (onRight s))
  | left (key : ch = chr 'D') : Arrowed s ch (some (onLeft s))
  | other (key : ch ≠ chr 'B') : Arrowed s ch (some { shell := s })

theorem onArrow_cases (s : Statics) (ch : UInt8) : Arrowed s ch (onArrow s ch) := by
  unfold onArrow
  by_cases up : ch = chr 'A'
  · rw [if_pos up]
    exact .up up
  rw [if_neg up]
  by_cases down : ch = chr 'B'
  · rw [if_pos down]
    exact .down down
  rw [if_neg down]
  by_cases right : ch = chr 'C'
  · rw [if_pos right]
    exact .right right
  rw [if_neg right]
  by_cases left : ch = chr 'D'
  · rw [if_pos left]
    exact .left left
  · rw [if_neg left]
    exact .other down

theorem console_escape (normal : s.state = .normal) :
    consoleInputChar cmds s esc = some { shell := { s with state := .escReceived } } := by
  simp [consoleInputChar, normal]

theorem console_bracket (escaped : s.state = .escReceived) :
    consoleInputChar cmds s (chr '[') = some { shell := { s with state := .bracketReceived } } := by
  simp [consoleInputChar, escaped]

theorem console_arrow (sequence : s.state = .bracketReceived) : consoleInputChar cmds s ch =
    (onArrow s ch).map fun t => { t with shell := { t.shell with state := .normal } } := by
  simp [consoleInputChar, sequence]

theorem console_enter (normal : s.state = .normal) (key : ch = chr '\r' ∨ ch = chr '\n') :
    consoleInputChar cmds s ch = onEnter cmds s := by
  have other : ch ≠ esc := by rcases key with rfl | rfl <;> decide
  simp [consoleInputChar, normal, key, other]

theorem console_backspace (normal : s.state = .normal) (key : ch = 8 ∨ ch = del) :
    consoleInputChar cmds s ch = some (onBackspace s) := by
  have other : ch ≠ esc ∧ ¬ (ch = chr '\r' ∨ ch = chr '\n') ∧ ch ≠ chr '\t' := by
    rcases key with rfl | rfl <;> decide
  simp [consoleInputChar, normal, key, other]

theorem console_printable (normal : s.state = .normal) (key : Printable ch) :
    consoleInputChar cmds s ch = some
      (if s.input.length < cmdBufSize - 1 then onPrintable s ch else { shell := s }) := by
  obtain ⟨-, escape, enter, tab, backspace⟩ := key.plain
  obtain ⟨low, high⟩ := key
  simp only [consoleInputChar, normal, escape, enter, tab, backspace, low, high, if_false, true_and]
  split <;> rfl

theorem onPrintable_input : (onPrintable s ch).shell.input =
      { buffer := store s.input.buffer s.input.pos
          (ch :: slice s.input.buffer s.input.pos (s.input.length - s.input.pos))
        pos := s.input.pos + 1
        length := s.input.length + 1 } := by
  have join := store_append s.input.buffer s.input.pos [ch]
    (slice s.input.buffer s.input.pos (s.input.length - s.input.pos))
  rw [List.length_singleton, List.singleton_append] at join
  simp only [onPrintable, xmemmove_eq]
  rw [store_comm _ (.inr (by simp)), join]

theorem onBackspace_input (positive : 0 < s.input.pos) :
    (onBackspace s).shell.input =
      { buffer := store s.input.buffer (s.input.pos - 1)
          (slice s.input.buffer s.input.pos (s.input.length - s.input.pos + 1))
        pos := s.input.pos - 1
        length := s.input.length - 1 } := by
  unfold onBackspace
  dsimp only
  rw [if_pos positive, xmemmove_eq]

/-- The line with a NUL at the cursor, as a tab leaves it first. -/
def cut (input : ShellInput) : ShellInput :=
  { input with buffer := store input.buffer input.pos [0] }

/-- The line completed to the name of a command. -/
def completed (input : ShellInput) (name : CStr) : ShellInput :=
  { buffer := store (store (cut input).buffer input.pos (name.drop input.pos)) name.length [0]
    pos := name.length
    length := name.length }

/-- What a tab makes of the line. -/
inductive Tabbed (cmds : List ShellCommand) (input : ShellInput) : ShellInput → Prop
  | start (start : input.pos = 0) : Tabbed cmds input (cut input)
  | unmatched (inside : input.pos ≠ 0)
      (none : matching cmds (cut input).buffer input.pos = []) : Tabbed cmds input (cut input)
  | tooLong (inside : input.pos ≠ 0) {cmd : ShellCommand}
      (one : matching cmds (cut input).buffer input.pos = [cmd])
      (long : cmdBufSize ≤ cmd.name.length) : Tabbed cmds input (cut input)
  | completed (inside : input.pos ≠ 0) {cmd : ShellCommand}
      (one : matching cmds (cut input).buffer input.pos = [cmd])
      (fits : cmd.name.length < cmdBufSize) : Tabbed cmds input (completed input cmd.name)
  | ambiguous (inside : input.pos ≠ 0)
      (more : 2 ≤ (matching cmds (cut input).buffer input.pos).length) :
      Tabbed cmds input { cut input with length := input.pos }

theorem onTab_input : Tabbed cmds s.input (onTab cmds s).shell.input := by
  unfold onTab
  dsimp only
  by_cases start : s.input.pos = 0
  · rw [if_pos start]
    exact .start start
  · rw [if_neg start]
    have same : matching cmds (store s.input.buffer s.input.pos [0]) s.input.pos =
        matching cmds (cut s.input).buffer s.input.pos := rfl
    rcases found : matching cmds (store s.input.buffer s.input.pos [0]) s.input.pos with
      _ | ⟨cmd, _ | ⟨other, more⟩⟩
    · exact .unmatched start (same.symm.trans found)
    · dsimp only
      have sum : (s.input.pos : Int) + (cmd.name.length - s.input.pos) = cmd.name.length := by omega
      rw [sum]
      by_cases long : (cmd.name.length : Int) ≥ cmdBufSize
      · rw [if_pos long]
        exact .tooLong start (same.symm.trans found) (by omega)
      · rw [if_neg long]
        have number : (cmd.name.length : Int).toNat % 65536 = cmd.name.length := by
          simp only [cmdBufSize] at long
          omega
        rw [number]
        exact .completed start (same.symm.trans found) (by omega)
    · refine .ambiguous start ?_
      rw [← same, found]
      simp

/-- The lines of the history and where it stands. -/
def SameLines (h h' : ShellHistory) : Prop :=
  h'.history = h.history ∧ h'.count = h.count ∧ h'.current = h.current

/-- The turn hands nothing on and keeps the state of the decoder and the lines of the history. -/
structure Quiet (s : Statics) (turn : Turn) : Prop where
  state : turn.shell.state = s.state
  history : SameLines s.history turn.shell.history
  handled : turn.handled = none

theorem onPrintable_quiet : Quiet s (onPrintable s ch) := by
  refine ⟨rfl, ?_, rfl⟩
  unfold onPrintable
  dsimp only
  split
  · exact ⟨rfl, rfl, rfl⟩
  · exact ⟨rfl, rfl, rfl⟩

theorem onBackspace_quiet : Quiet s (onBackspace s) := by
  unfold onBackspace
  dsimp only
  split
  · exact ⟨rfl, ⟨rfl, rfl, rfl⟩, rfl⟩
  · exact ⟨rfl, ⟨rfl, rfl, rfl⟩, rfl⟩

theorem onTab_quiet : Quiet s (onTab cmds s) := by
  unfold onTab
  dsimp only
  split
  · exact ⟨rfl, ⟨rfl, rfl, rfl⟩, rfl⟩
  · split
    · exact ⟨rfl, ⟨rfl, rfl, rfl⟩, rfl⟩
    · split
      · exact ⟨rfl, ⟨rfl, rfl, rfl⟩, rfl⟩
      · refine ⟨rfl, ?_, rfl⟩
        dsimp only
        split
        · exact ⟨rfl, rfl, rfl⟩
        · exact ⟨rfl, rfl, rfl⟩
    · exact ⟨rfl, ⟨rfl, rfl, rfl⟩, rfl⟩

theorem onRight_quiet : Quiet s (onRight s) := by
  unfold onRight
  split
  · exact ⟨rfl, ⟨rfl, rfl, rfl⟩, rfl⟩
  · exact ⟨rfl, ⟨rfl, rfl, rfl⟩, rfl⟩

theorem onLeft_quiet : Quiet s (onLeft s) := by
  unfold onLeft
  split
  · exact ⟨rfl, ⟨rfl, rfl, rfl⟩, rfl⟩
  · exact ⟨rfl, ⟨rfl, rfl, rfl⟩, rfl⟩

end T113Boot.Shell.Keys
