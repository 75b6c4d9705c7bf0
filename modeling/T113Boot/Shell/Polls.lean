/- Module: T113Boot/Shell/Polls
   layer: results
   digest: When polls that receive nothing leave no trace. -/

import T113Boot.Shell.Keys

set_option autoImplicit false
set_option relaxedAutoImplicit false

namespace T113Boot.Shell.Polls

open T113Boot.Lib.Runs
open T113Boot.Shell.Console
open T113Boot.Shell.Keys
open T113Boot.Storage.Table (CStr)

variable {cmds : List ShellCommand} {s : Statics}

/-- Key bytes with empty polls placed between them. -/
def Placement (keys : List UInt8) : Type :=
  { events : List (Option UInt8) // events.reduceOption = keys }

/-- What a run of the service leaves: the line with its cursor, the history, the state of the
decoder, and the commands called with their arguments. -/
def traces (cmds : List ShellCommand) (events : List (Option UInt8)) :
    Option (Statics × List Handled) :=
  (run (Session.serve cmds) .initial events).map fun session =>
    (session.shell, session.handled.map (shellHandleCommand cmds))

/-- Whenever the two runs have received the same bytes, their ends included, they have left the
same. -/
def Agree (cmds : List ShellCommand) (p q : List (Option UInt8)) : Prop :=
  ∀ n m, (p.take n).reduceOption = (q.take m).reduceOption →
    traces cmds (p.take n) = traces cmds (q.take m)

/-- No poll is empty within an escape sequence. -/
def Undivided (cmds : List ShellCommand) (events : List (Option UInt8)) : Prop :=
  Along (Session.serve cmds) (fun session received => received = none →
    session.shell.state = .normal) .initial events

theorem shellServise_some (ch : UInt8) :
    shellServise cmds s (some ch) = consoleInputChar cmds s ch := by
  have same : shellUartGetc (uartGetc (some ch)) = ch := by
    unfold shellUartGetc uartGetc
    rw [if_neg (Int.not_lt.mpr (Int.natCast_nonneg _)), Int.toNat_natCast, UInt8.ofNat_toNat]
  unfold shellServise
  rw [same]
  exact if_pos (UInt8.zero_le)

theorem shellServise_none :
    shellServise cmds s none = some { shell := { s with state := .normal } } := by
  have poll : shellServise cmds s none = consoleInputChar cmds s 0xFF := rfl
  rw [poll]
  have cases := consoleInputChar_cases cmds s 0xFF
  generalize consoleInputChar cmds s 0xFF = result at cases ⊢
  cases cases with
  | escape normal key => exact absurd key (by decide)
  | enter normal key => exact absurd key (by decide)
  | tab normal key => exact absurd key (by decide)
  | backspace normal key => exact absurd key (by decide)
  | printable normal key room => exact absurd key (by decide)
  | ignored normal key none => rw [← normal]
  | bracket escaped key => exact absurd key (by decide)
  | dropped escaped key => rfl
  | arrow sequence => rfl

theorem serve_none (session : Session) : session.serve cmds none =
    some { session with shell := { session.shell with state := .normal } } := by
  rw [Session.serve, shellServise_none]
  simp [Session.add]

theorem serve_idle {session : Session} (normal : session.shell.state = .normal) :
    session.serve cmds none = some session := by
  rw [serve_none, ← normal]

/-- With no poll within a sequence a run of the service is that of its keys. -/
theorem Undivided.served {events : List (Option UInt8)} (undivided : Undivided cmds events) :
    run (Session.serve cmds) .initial events = feed cmds .initial events.reduceOption := by
  refine run_reduceOption (fun session ch => ?_) ?_
  · rw [Session.serve, shellServise_some, Session.press]
  · refine along_iff_moments.mpr fun n event there session reached empty => serve_idle ?_
    exact along_iff_moments.mp undivided n event there session reached empty

/-- Of two agreeing runs neither has an empty poll within a sequence. -/
theorem Agree.undivided {p q : List (Option UInt8)} (same : p.reduceOption = q.reduceOption)
    (agree : Agree cmds p q) : Undivided cmds p := by
  refine along_iff_moments.mpr fun n event there session reached empty => ?_
  subst empty
  have next : p.take (n + 1) = p.take n ++ [none] := by
    rw [List.take_add_one, there, Option.toList_some]
  have nothing : (p.take (n + 1)).reduceOption = (p.take n).reduceOption := by
    rw [next, List.reduceOption_append, List.reduceOption_cons_of_none, List.reduceOption_nil,
      List.append_nil]
  -- the other run has received the same bytes at some moment
  obtain ⟨m, moment⟩ : ∃ m, (q.take m).reduceOption = (p.take n).reduceOption := by
    have split : q.reduceOption = (p.take n).reduceOption ++ (p.drop n).reduceOption := by
      rw [← List.reduceOption_append, List.take_append_drop, same]
    obtain ⟨l, l', whole, first, -⟩ := (List.reduceOption_eq_append_iff _ _ _).mp split
    refine ⟨l.length, ?_⟩
    rw [whole, List.take_left, first]
  have before := agree n m moment.symm
  have after := agree (n + 1) m (nothing.trans moment.symm)
  have equal : traces cmds (p.take (n + 1)) = traces cmds (p.take n) := after.trans before.symm
  have polled : run (Session.serve cmds) .initial (p.take (n + 1)) =
      some { session with shell := { session.shell with state := .normal } } := by
    rw [next, run_append, reached, Option.bind_some, run_cons (serve_none session), run]
  unfold traces at equal
  rw [polled, reached] at equal
  have state := congrArg (fun left => left.map fun pair => pair.1.state) equal
  simpa using state.symm

theorem Agree.symm {p q : List (Option UInt8)} (agree : Agree cmds p q) : Agree cmds q p :=
  fun n m moment => (agree m n moment.symm).symm

/-- Two runs on the same keys agree if and only if neither has an empty poll within an escape
sequence. -/
theorem agree_iff_undivided (cmds : List ShellCommand) (keys : List UInt8)
    (p q : Placement keys) :
    Agree cmds p.1 q.1 ↔ Undivided cmds p.1 ∧ Undivided cmds q.1 := by
  have same : p.1.reduceOption = q.1.reduceOption := p.2.trans q.2.symm
  constructor
  · exact fun agree => ⟨agree.undivided same, agree.symm.undivided same.symm⟩
  · rintro ⟨first, second⟩ n m moment
    have left : Undivided cmds (p.1.take n) := Along.take first n
    have right : Undivided cmds (q.1.take m) := Along.take second m
    unfold traces
    rw [left.served, right.served, moment]

/-- `a` and an arrow left, with a poll between the bytes of the arrow. -/
def dividedArrow : List (Option UInt8) :=
  [some (chr 'a'), some esc, none, some (chr '['), some (chr 'D')]

/-- The same keys move the cursor to the left of the `a` or type `[D` behind it. -/
theorem divided_arrow_typed : dividedArrow.reduceOption = chr 'a' :: arrow 'D' ∧
    (∃ session, run (Session.serve []) .initial dividedArrow = some session ∧
      session.shell.input.length = 3 ∧ session.shell.input.pos = 3) ∧
    ∃ session, run (Session.serve []) .initial ((chr 'a' :: arrow 'D').map some) = some session ∧
      session.shell.input.length = 1 ∧ session.shell.input.pos = 0 :=
  ⟨rfl, ⟨_, rfl, rfl, rfl⟩, ⟨_, rfl, rfl, rfl⟩⟩

end T113Boot.Shell.Polls
