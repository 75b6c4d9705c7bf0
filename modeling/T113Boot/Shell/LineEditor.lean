/- Module: T113Boot/Shell/LineEditor
   layer: results
   digest: The line input refines an editor of a text with a cursor. -/

import T113Boot.Shell.Bounds

set_option autoImplicit false
set_option relaxedAutoImplicit false

namespace T113Boot.Shell.LineEditor

open T113Boot.Lib.Cells
open T113Boot.Lib.Moves
open T113Boot.Lib.Runs
open T113Boot.Shell.XString
open T113Boot.Shell.Console
open T113Boot.Shell.Keys
open T113Boot.Shell.Bounds
open T113Boot.Storage.Table (CStr cstr)

/-- A line of text and a cursor in it. -/
structure Line where
  text : CStr
  cursor : Nat
  inside : cursor ≤ text.length

def Line.empty : Line := ⟨[], 0, Nat.le_refl 0⟩

/-- The keys of the editor. -/
inductive Key
  | char (ch : UInt8) (printable : Printable ch)
  | erase (code : UInt8) (key : code = 8 ∨ code = del)
  | left
  | right
  | enter (code : UInt8) (key : code = chr '\r' ∨ code = chr '\n')

/-- The characters that a key sends. -/
def Key.sent : Key → List UInt8
  | .char ch _ => [ch]
  | .erase code _ => [code]
  | .left => arrow 'D'
  | .right => arrow 'C'
  | .enter code _ => [code]

/-- A character goes in at the cursor as long as fewer than `CMD_BUF_SIZE - 1` are there. -/
def Line.insert (l : Line) (ch : UInt8) : Line :=
  if l.text.length < cmdBufSize - 1 then
    { text := l.text.take l.cursor ++ ch :: l.text.drop l.cursor
      cursor := l.cursor + 1
      inside := by
        have within := l.inside
        simp only [List.length_append, List.length_take, List.length_cons, List.length_drop]
        omega }
  else l

/-- The character before the cursor goes. -/
def Line.erase (l : Line) : Line where
  text := l.text.take (l.cursor - 1) ++ l.text.drop l.cursor
  cursor := l.cursor - 1
  inside := by
    have within := l.inside
    simp only [List.length_append, List.length_take, List.length_drop]
    omega

def Line.left (l : Line) : Line := { l with
  cursor := l.cursor - 1
  inside := Nat.le_trans (Nat.sub_le _ _) l.inside }

def Line.right (l : Line) : Line where
  text := l.text
  cursor := min (l.cursor + 1) l.text.length
  inside := Nat.min_le_right _ _

/-- The line behind a key, and the text it sends off. -/
def Line.press (l : Line) : Key → Line × Option CStr
  | .char ch _ => (l.insert ch, none)
  | .erase _ _ => (l.erase, none)
  | .left => (l.left, none)
  | .right => (l.right, none)
  | .enter _ _ => (.empty, if l.text = [] then none else some l.text)

/-- The line behind some keys, and the texts they send off. -/
def Line.type (l : Line) : List Key → Line × List CStr
  | [] => (l, [])
  | key :: keys =>
    let pressed := l.press key
    let typed := pressed.1.type keys
    (typed.1, pressed.2.toList ++ typed.2)

/-- The console waits for a key and holds this line. -/
structure Holds (s : Statics) (l : Line) : Prop where
  normal : s.state = .normal
  pos : s.input.pos = l.cursor
  length : s.input.length = l.text.length
  text : slice s.input.buffer 0 l.text.length = l.text
  noNul : 0 ∉ l.text
  bounds : InBounds s

theorem holds_initial : Holds .initial .empty :=
  ⟨rfl, rfl, rfl, rfl, List.not_mem_nil, inBounds_initial⟩

section Steps

variable (cmds : List ShellCommand) {s : Statics} {l : Line}

theorem Holds.insert (h : Holds s l) {ch : UInt8} (printable : Printable ch) :
    ∃ turn, consoleInputChar cmds s ch = some turn ∧ turn.handled = none ∧
      Holds turn.shell (l.insert ch) := by
  have within := l.inside
  have pressed : consoleInputChar cmds s ch = _ := console_printable h.normal printable
  have bounds := h.bounds.pressed pressed
  refine ⟨_, pressed, ?_⟩
  unfold Line.insert
  rw [h.length] at bounds ⊢
  by_cases room : l.text.length < cmdBufSize - 1
  · rw [if_pos room] at bounds ⊢
    rw [if_pos room]
    have line : (onPrintable s ch).shell.input = _ := onPrintable_input
    have length : (l.text.take l.cursor ++ ch :: l.text.drop l.cursor).length =
        l.text.length + 1 := by
      simp only [List.length_append, List.length_take, List.length_cons, List.length_drop]
      omega
    refine ⟨rfl, h.normal, ?_, ?_, ?_, ?_, bounds⟩
    · rw [line, h.pos]
    · rw [line, h.length]
      exact length.symm
    · rw [line, h.pos, h.length, length]
      have text := slice_insert s.input.buffer within ch
      rw [h.text] at text
      exact text
    · intro nul
      rcases List.mem_append.mp nul with before | later
      · exact h.noNul (List.mem_of_mem_take before)
      · rcases List.mem_cons.mp later with here | behind
        · exact printable.plain.1 here.symm
        · exact h.noNul (List.mem_of_mem_drop behind)
  · rw [if_neg room, if_neg room]
    exact ⟨rfl, h⟩

theorem Holds.erase (h : Holds s l) {ch : UInt8} (key : ch = 8 ∨ ch = del) :
    ∃ turn, consoleInputChar cmds s ch = some turn ∧ turn.handled = none ∧
      Holds turn.shell l.erase := by
  have within := l.inside
  have pressed : consoleInputChar cmds s ch = _ := console_backspace h.normal key
  have quiet := onBackspace_quiet (s := s)
  refine ⟨_, pressed, quiet.handled, ?_⟩
  by_cases positive : 0 < s.input.pos
  · have line := onBackspace_input positive
    rw [h.pos] at positive
    have length : (l.text.take (l.cursor - 1) ++ l.text.drop l.cursor).length =
        l.text.length - 1 := by
      simp only [List.length_append, List.length_take, List.length_drop]
      omega
    refine ⟨quiet.state.trans h.normal, ?_, ?_, ?_, ?_, h.bounds.pressed pressed⟩
    · rw [line, h.pos]
      rfl
    · rw [line, h.length]
      exact length.symm
    · rw [line, h.pos, h.length, Line.erase, length]
      have text := slice_delete s.input.buffer positive within
      rw [h.text] at text
      exact text
    · intro nul
      rcases List.mem_append.mp nul with before | behind
      · exact h.noNul (List.mem_of_mem_take before)
      · exact h.noNul (List.mem_of_mem_drop behind)
  · have same : l.erase = l := by
      rw [h.pos] at positive
      unfold Line.erase
      congr 1
      · rw [show l.cursor = 0 by omega]
        simp
      · omega
    have idle : onBackspace s = { shell := s } := by
      unfold onBackspace
      dsimp only
      rw [if_neg positive]
    rw [same, idle]
    exact h

/-- The string that Enter hands on is the text. -/
theorem Holds.entered (h : Holds s l) : entered s.input = l.text := by
  have fits := h.bounds.line.length
  rw [h.length] at fits
  have kept : slice (store s.input.buffer s.input.length [0]) 0 l.text.length = l.text := by
    rw [slice_store_apart _ (.inl (by rw [h.length]; omega)), h.text]
  rw [← kept]
  apply stringAt_eq
  · simp only [cmdBufSize] at fits ⊢
    omega
  · rw [Nat.zero_add, h.length, store_inside (Nat.le_refl _) (by simp)]
    simp
  · intro i inside nul
    apply h.noNul
    rw [← h.text, slice, List.mem_map]
    refine ⟨i, List.mem_range.mpr inside, ?_⟩
    rw [store_outside (.inl (by rw [h.length]; omega))] at nul
    exact nul

theorem Holds.enter (h : Holds s l) {ch : UInt8} (key : ch = chr '\r' ∨ ch = chr '\n') :
    ∃ turn, consoleInputChar cmds s ch = some turn ∧
      turn.handled = (if l.text = [] then none else some l.text) ∧ Holds turn.shell .empty := by
  obtain ⟨-, -, -, turn, run, state, input, -, handled⟩ := onEnter_turn cmds h.bounds
  have pressed : consoleInputChar cmds s ch = some turn := (console_enter h.normal key).trans run
  refine ⟨turn, pressed, ?_, state.trans h.normal, ?_, ?_, rfl, List.not_mem_nil,
    h.bounds.pressed pressed⟩
  · rw [handled, h.entered, h.length]
    by_cases none : l.text = []
    · rw [if_pos none, none]
      rfl
    · rw [if_neg none, if_pos (List.length_pos_iff.mpr none)]
  · rw [input]
    rfl
  · rw [input]
    rfl

theorem feed_arrow (session : Session) (normal : session.shell.state = .normal) (c : Char)
    {turn : Turn} (acts : onArrow { session.shell with state := .bracketReceived } (chr c) =
      some turn) : ∃ session', feed cmds session (arrow c) = some session' ∧
    session'.shell = { turn.shell with state := .normal } ∧
      session'.handled = session.handled ++ turn.handled.toList := by
  have last : consoleInputChar cmds { session.shell with state := .bracketReceived } (chr c) = _ :=
    console_arrow rfl
  rw [acts, Option.map_some] at last
  rw [arrow, feed_cons (console_escape normal), feed_cons (console_bracket rfl), feed_cons last]
  exact ⟨_, rfl, rfl, by simp [Session.add]⟩

/-- An arrow that moves the cursor and nothing else. -/
theorem Holds.moved (session : Session) (h : Holds session.shell l) (c : Char) {turn : Turn}
    {l' : Line}
    (acts : onArrow { session.shell with state := .bracketReceived } (chr c) = some turn)
    (handled : turn.handled = none) (buffer : turn.shell.input.buffer = session.shell.input.buffer)
    (length : turn.shell.input.length = session.shell.input.length)
    (pos : turn.shell.input.pos = l'.cursor) (text : l'.text = l.text) :
    ∃ session', feed cmds session (arrow c) = some session' ∧
      session'.handled = session.handled ∧ Holds session'.shell l' := by
  obtain ⟨session', run, shell, sent⟩ := feed_arrow cmds session h.normal c acts
  have bounds := h.bounds.feed run
  refine ⟨session', run, ?_, ?_⟩
  · rw [sent, handled]
    simp
  · rw [shell] at bounds ⊢
    refine ⟨rfl, pos, ?_, ?_, ?_, bounds⟩
    · exact length.trans (h.length.trans (by rw [text]))
    · rw [text]
      exact (congrArg (slice · 0 l.text.length) buffer).trans h.text
    · rw [text]
      exact h.noNul

theorem Holds.right (session : Session) (h : Holds session.shell l) :
    ∃ session', feed cmds session (arrow 'C') = some session' ∧
      session'.handled = session.handled ∧ Holds session'.shell l.right := by
  have within := l.inside
  have pos := h.pos
  have length := h.length
  refine h.moved cmds session 'C'
    (rfl : _ = some (onRight { session.shell with state := .bracketReceived }))
    onRight_quiet.handled ?_ ?_ ?_ rfl
  · unfold onRight
    split <;> rfl
  · unfold onRight
    split <;> rfl
  · simp only [onRight, Line.right]
    split
    · dsimp only
      omega
    · dsimp only
      omega

theorem Holds.left (session : Session) (h : Holds session.shell l) :
    ∃ session', feed cmds session (arrow 'D') = some session' ∧
      session'.handled = session.handled ∧ Holds session'.shell l.left := by
  have pos := h.pos
  refine h.moved cmds session 'D'
    (rfl : _ = some (onLeft { session.shell with state := .bracketReceived }))
    onLeft_quiet.handled ?_ ?_ ?_ rfl
  · unfold onLeft
    split <;> rfl
  · unfold onLeft
    split <;> rfl
  · simp only [onLeft, Line.left]
    split
    · dsimp only
      omega
    · dsimp only
      omega

theorem feed_key {session : Session} {ch : UInt8} {turn : Turn} {l' : Line} {sent : Option CStr}
    (pressed : consoleInputChar cmds session.shell ch = some turn) (handled : turn.handled = sent)
    (after : Holds turn.shell l') : ∃ session', feed cmds session [ch] = some session' ∧
      session'.handled = session.handled ++ sent.toList ∧ Holds session'.shell l' := by
  refine ⟨session.add turn, ?_, ?_, after⟩
  · rw [feed_cons pressed]
    rfl
  · rw [← handled]
    rfl

/-- The console does with a key what the editor does with it. -/
theorem Holds.press (session : Session) (h : Holds session.shell l) (key : Key) :
    ∃ session', feed cmds session key.sent = some session' ∧
      session'.handled = session.handled ++ (l.press key).2.toList ∧
        Holds session'.shell (l.press key).1 := by
  cases key with
  | char ch printable =>
    obtain ⟨turn, pressed, handled, after⟩ := h.insert cmds printable
    exact feed_key cmds pressed handled after
  | erase code key =>
    obtain ⟨turn, pressed, handled, after⟩ := h.erase cmds key
    exact feed_key cmds pressed handled after
  | left =>
    obtain ⟨session', run, handled, after⟩ := Holds.left cmds session h
    exact ⟨session', run, by simp [Line.press, handled], after⟩
  | right =>
    obtain ⟨session', run, handled, after⟩ := Holds.right cmds session h
    exact ⟨session', run, by simp [Line.press, handled], after⟩
  | enter code key =>
    obtain ⟨turn, pressed, handled, after⟩ := h.enter cmds key
    exact feed_key cmds pressed handled after

theorem Holds.type (session : Session) (h : Holds session.shell l) (keys : List Key) :
    ∃ session', feed cmds session (keys.flatMap Key.sent) = some session' ∧
      session'.handled = session.handled ++ (l.type keys).2 ∧
        Holds session'.shell (l.type keys).1 := by
  induction keys generalizing session l with
  | nil => exact ⟨session, rfl, by simp [Line.type], h⟩
  | cons key keys ih =>
    obtain ⟨mid, first, sent, held⟩ := Holds.press cmds session h key
    obtain ⟨session', rest, more, after⟩ := ih mid held
    refine ⟨session', ?_, ?_, after⟩
    · rw [feed, List.flatMap_cons, run_append, ← feed, first]
      exact rest
    · rw [more, sent, List.append_assoc]
      rfl

end Steps

theorem type_enter (l : Line) (keys : List Key) (code : UInt8)
    (key : code = chr '\r' ∨ code = chr '\n') :
    (l.type (keys ++ [.enter code key])).1 = .empty := by
  induction keys generalizing l with
  | nil => rfl
  | cons first keys ih => exact ih _

/-- For every sequence of keys the console hands on exactly the texts that the editor sends off,
and holds the editor's line; behind Enter this is the empty one. -/
theorem console_refines_editor (cmds : List ShellCommand) (keys : List Key) :
    ∃ session, feed cmds .initial (keys.flatMap Key.sent) = some session ∧
      session.handled = (Line.empty.type keys).2 ∧
      Holds session.shell (Line.empty.type keys).1 ∧
      (Line.empty.type (keys ++ [.enter (chr '\r') (.inl rfl)])).1 = .empty ∧
      (Line.empty.type (keys ++ [.enter (chr '\n') (.inr rfl)])).1 = .empty := by
  obtain ⟨session, run, handled, held⟩ :=
    Holds.type cmds .initial holds_initial keys
  exact ⟨session, run, handled, held, type_enter _ keys _ _, type_enter _ keys _ _⟩

end T113Boot.Shell.LineEditor
