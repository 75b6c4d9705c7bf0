/- Module: T113Boot/Shell/Console
   layer: model
   digest: The line input, the history and the command calls of `shell.c`. -/

import T113Boot.Lib.Runs
import T113Boot.Shell.XString

set_option autoImplicit false
set_option relaxedAutoImplicit false

namespace T113Boot.Shell.Console

open T113Boot.Lib.Cells
open T113Boot.Lib.Runs
open T113Boot.Shell.XString
open T113Boot.Storage.Table (CStr cstr)

def shellPrompt : CStr := cstr "shell />"
def cmdHistoryDepth : Nat := 5
def cmdBufSize : Nat := 128
def cmdMaxArgv : Nat := 10

def esc : UInt8 := 0x1B
def del : UInt8 := 127

/-- A character of the source. -/
def chr (c : Char) : UInt8 := .ofNat c.toNat

/-- `\r\n`. -/
def newline : CStr := [chr '\r', chr '\n']

/-- `struct shell_input`. -/
structure ShellInput where
  buffer : Mem
  pos : Nat
  length : Nat

/-- `struct shell_history`; of each slot the string that begins it. -/
structure ShellHistory where
  history : List CStr
  count : Nat
  current : Nat
  maxLen : Nat

/-- `enum input_state`. -/
inductive InputState
  | normal
  | escReceived
  | bracketReceived
deriving DecidableEq

/-- `struct shell_command`, without its handler, which does not reach the shell's own state. -/
structure ShellCommand where
  name : CStr
  desc : CStr
  noNul : 0 ∉ name

/-- The static variables that the input changes. -/
structure Statics where
  input : ShellInput
  history : ShellHistory
  state : InputState

def Statics.initial : Statics where
  input := ⟨fun _ => 0, 0, 0⟩
  history := ⟨List.replicate cmdHistoryDepth [], 0, 0, 0⟩
  state := .normal

/-- What one character does: the variables behind it, the characters put out, and the string
handed to `shell_handle_command`. -/
structure Turn where
  shell : Statics
  out : List UInt8 := []
  handled : Option CStr := none

def showPrompt : List UInt8 := chr '\r' :: shellPrompt

def showUnknownCmd (arg : CStr) : List UInt8 := cstr "Unknown command: " ++ arg ++ newline

/-- One step to the left or right on the terminal. -/
def arrow (c : Char) : List UInt8 := [esc, chr '[', chr c]

def redrawInput (input : ShellInput) : List UInt8 :=
  showPrompt ++ slice input.buffer 0 input.length ++ [chr ' ', 8] ++
    (List.replicate (input.length - input.pos) (arrow 'D')).flatten

/-- `help`, the table of the commands. -/
def help (cmds : List ShellCommand) : List UInt8 :=
  if cmds = [] then cstr "no shell commads" ++ newline
  else cstr "shell commads:" ++ newline ++ cmds.flatMap fun cmd =>
    cmd.name ++ List.replicate (12 - cmd.name.length) (chr ' ') ++ cstr " : " ++ cmd.desc ++ newline

/-- `save_to_history`. `none` is a slot read behind the last one. -/
def saveToHistory (history : ShellHistory) (buffer : CStr) : Option ShellHistory :=
  if history.count > cmdHistoryDepth then none
  else if (history.history.take history.count).any fun line => xstrcmp line buffer = 0 then
    some history
  else if history.count = cmdHistoryDepth then
    some { history with
      history := (history.history.drop 1 ++ history.history.getLast?.toList).set
        (cmdHistoryDepth - 1) buffer
      current := cmdHistoryDepth }
  else
    some { history with
      history := history.history.set history.count buffer
      count := history.count + 1
      current := history.count + 1 }

/-- The end of both browse functions: the line of the current slot replaces the input. `none` is
again a slot read behind the last one. -/
def recallLine (history : ShellHistory) (input : ShellInput) : Option (ShellInput × List UInt8) :=
  match history.history[history.current]? with
  | none => none
  | some line =>
    let buffer := xstrcpy input.buffer 0 line
    let length := (stringAt buffer cmdBufSize 0).length
    let input : ShellInput := { buffer := buffer, pos := length, length := length }
    let width := history.maxLen + shellPrompt.length
    let blank := if length < history.maxLen
      then List.replicate width (chr ' ') ++ List.replicate width 8 else []
    some (input, blank ++ redrawInput input)

/-- `browse_history_up`. -/
def browseHistoryUp (s : Statics) : Option Turn :=
  if (s.history.count = 0 ∨ s.history.current = 0) ∧ s.input.length ≠ 0 then some { shell := s }
  else
    let history := if s.history.current ≠ 0
      then { s.history with current := s.history.current - 1 } else s.history
    (recallLine history s.input).map fun r =>
      { shell := { s with input := r.1, history := history }
        out := List.replicate s.input.length 8 ++ r.2 }

/-- `browse_history_down`. -/
def browseHistoryDown (s : Statics) : Option Turn :=
  if (s.history.count = 0 ∨ s.history.current + 1 = s.history.count) ∧ s.input.length ≠ 0
  then some { shell := s }
  else
    let history := if s.history.current + 1 ≠ s.history.count
      then { s.history with current := s.history.current + 1 } else s.history
    (recallLine history s.input).map fun r =>
      { shell := { s with input := r.1, history := history }
        out := List.replicate s.input.length 8 ++ r.2 }

/-- `shell_parse_args`: the arguments, at most `max_args` of them. -/
def shellParseArgs (cmdline : CStr) : Nat → List CStr
  | 0 => []
  | n + 1 =>
    match cmdline.dropWhile (· = chr ' ') with
    | [] => []
    | rest => rest.takeWhile (· ≠ chr ' ') ::
        shellParseArgs ((rest.dropWhile (· ≠ chr ' ')).drop 1) n

/-- A command called with its arguments, or a name that is none. -/
inductive Handled
  | nothing
  | called (cmd : ShellCommand) (argv : List CStr)
  | unknown (arg : CStr)

/-- `shell_handle_command`. -/
def shellHandleCommand (cmds : List ShellCommand) (inputBuffer : CStr) : Handled :=
  match shellParseArgs (inputBuffer.take (cmdBufSize - 1)) cmdMaxArgv with
  | [] => .nothing
  | arg :: args =>
    match cmds.find? fun cmd => xstrcmp arg cmd.name = 0 with
    | some cmd => .called cmd (arg :: args)
    | none => .unknown arg

def Handled.out : Handled → List UInt8
  | .unknown arg => showUnknownCmd arg
  | _ => []

section Keys

variable (cmds : List ShellCommand) (s : Statics)

def onEnter : Option Turn :=
  let input := { s.input with buffer := store s.input.buffer s.input.length [0] }
  let line := stringAt input.buffer cmdBufSize 0
  let saved := if s.input.length > 0 then saveToHistory s.history line else some s.history
  let out := if s.input.length > 0 then (shellHandleCommand cmds line).out else []
  saved.map fun history =>
    { shell := { s with
        input := { buffer := xmemset input.buffer 0 0 cmdBufSize, pos := 0, length := 0 }
        history := { history with current := history.count } }
      out := newline ++ out ++ showPrompt
      handled := if s.input.length > 0 then some line else none }

/-- The commands whose names agree with the characters before the cursor. -/
def matching (buffer : Mem) (prefixLen : Nat) : List ShellCommand :=
  cmds.filter fun cmd => xstrncmp cmd.name (slice buffer 0 cmdBufSize) prefixLen = 0

def onTab : Turn :=
  let prefixLen := s.input.pos
  let input := { s.input with buffer := store s.input.buffer s.input.pos [0] }
  if prefixLen = 0 then
    { shell := { s with input := input }
      out := newline ++ help cmds ++ showPrompt ++ redrawInput input }
  else
    match matching cmds input.buffer prefixLen with
    | [] => { shell := { s with input := input } }
    | [matchedCmd] =>
      let remaining : Int := matchedCmd.name.length - prefixLen
      if input.pos + remaining ≥ cmdBufSize then { shell := { s with input := input } }
      else
        let buffer := store input.buffer input.pos (matchedCmd.name.drop prefixLen)
        let pos := (input.pos + remaining).toNat % 65536
        let input : ShellInput := { buffer := store buffer pos [0], pos := pos, length := pos }
        let history := if input.length > s.history.maxLen
          then { s.history with maxLen := input.length } else s.history
        { shell := { s with input := input, history := history }
          out := redrawInput input }
    | matched =>
      let input := { input with length := input.pos }
      { shell := { s with input := input }
        out := newline ++ matched.flatMap (fun cmd => cmd.name ++ newline) ++ newline ++
          showPrompt ++ redrawInput input }

def onBackspace : Turn :=
  let input := s.input
  if input.pos > 0 then
    let buffer := xmemmove input.buffer (input.pos - 1) input.pos (input.length - input.pos + 1)
    { shell := { s with
        input := { buffer := buffer, pos := input.pos - 1, length := input.length - 1 } }
      out := 8 :: slice buffer (input.pos - 1) (input.length - (input.pos - 1)) ++ [chr ' ', 8] ++
        List.replicate (input.length - input.pos) 8 }
  else { shell := s }

def onPrintable (ch : UInt8) : Turn :=
  let moved := xmemmove s.input.buffer (s.input.pos + 1) s.input.pos (s.input.length - s.input.pos)
  let input : ShellInput :=
    { buffer := store moved s.input.pos [ch], pos := s.input.pos + 1, length := s.input.length + 1 }
  let history := if input.length > s.history.maxLen
    then { s.history with maxLen := input.length } else s.history
  { shell := { s with input := input, history := history }
    out := if input.pos < input.length
      then stringAt input.buffer cmdBufSize (input.pos - 1) ++
        List.replicate (input.length - input.pos) 8
      else [ch] }

def onRight : Turn :=
  if s.input.pos < s.input.length then
    { shell := { s with input := { s.input with pos := s.input.pos + 1 } }, out := arrow 'C' }
  else { shell := s }

def onLeft : Turn :=
  if s.input.pos > 0 then
    { shell := { s with input := { s.input with pos := s.input.pos - 1 } }, out := arrow 'D' }
  else { shell := s }

/-- The character behind `ESC [`. -/
def onArrow (ch : UInt8) : Option Turn :=
  if ch = chr 'A' then browseHistoryUp s
  else if ch = chr 'B' then browseHistoryDown s
  else if ch = chr 'C' then some (onRight s)
  else if ch = chr 'D' then some (onLeft s)
  else some { shell := s }

/-- `console_input_char`. -/
def consoleInputChar (ch : UInt8) : Option Turn :=
  match s.state with
  | .normal =>
    if ch = esc then some { shell := { s with state := .escReceived } }
    else if ch = chr '\r' ∨ ch = chr '\n' then onEnter cmds s
    else if ch = chr '\t' then some (onTab cmds s)
    else if ch = 8 ∨ ch = del then some (onBackspace s)
    else if (ch ≥ 0x20 ∧ ch ≤ 0x7E) ∧ s.input.length < cmdBufSize - 1 then some (onPrintable s ch)
    else some { shell := s }
  | .escReceived =>
    some { shell := { s with state := if ch = chr '[' then .bracketReceived else .normal } }
  | .bracketReceived =>
    (onArrow s ch).map fun t => { t with shell := { t.shell with state := .normal } }

end Keys

/-- `uart_getc`, of what the receive buffer holds. -/
def uartGetc : Option UInt8 → Int
  | none => -1
  | some ch => ch.toNat

/-- `shell_uart_getc`, with a plain `char` that is unsigned. -/
def shellUartGetc (ret : Int) : UInt8 := if ret < 0 then -1 else .ofNat ret.toNat

/-- `shell_servise`, with a port that has both functions. -/
def shellServise (cmds : List ShellCommand) (s : Statics) (received : Option UInt8) : Option Turn :=
  let ch := shellUartGetc (uartGetc received)
  if ch ≥ 0 then consoleInputChar cmds s ch else some { shell := s }

/-- The variables after a run, what was put out, and the strings handed on. -/
structure Session where
  shell : Statics
  out : List UInt8
  handled : List CStr

def Session.initial : Session := ⟨.initial, [], []⟩

def Session.add (session : Session) (turn : Turn) : Session :=
  ⟨turn.shell, session.out ++ turn.out, session.handled ++ turn.handled.toList⟩

/-- A character fed to `console_input_char`. -/
def Session.press (cmds : List ShellCommand) (session : Session) (ch : UInt8) : Option Session :=
  (consoleInputChar cmds session.shell ch).map session.add

/-- A call of `shell_servise`, with what there is to receive. -/
def Session.serve (cmds : List ShellCommand) (session : Session) (received : Option UInt8) :
    Option Session :=
  (shellServise cmds session.shell received).map session.add

/-- Characters fed one after another. -/
def feed (cmds : List ShellCommand) : Session → List UInt8 → Option Session :=
  run (Session.press cmds)

theorem feed_cons {cmds : List ShellCommand} {session : Session} {ch : UInt8} {turn : Turn}
    (pressed : consoleInputChar cmds session.shell ch = some turn) (chs : List UInt8) :
    feed cmds session (ch :: chs) = feed cmds (session.add turn) chs := by
  apply run_cons
  rw [Session.press, pressed, Option.map_some]

end T113Boot.Shell.Console
