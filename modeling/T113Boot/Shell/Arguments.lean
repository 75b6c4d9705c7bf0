/- Module: T113Boot/Shell/Arguments
   layer: model
   digest: Where `shell_parse_args` and the copy before it read and write, and what they leave. -/

import T113Boot.Lib.Words
import T113Boot.Shell.Console

set_option autoImplicit false
set_option relaxedAutoImplicit false

namespace T113Boot.Shell.Arguments

open T113Boot.Lib.Words
open T113Boot.Storage.Table (CStr cstr)
open T113Boot.Shell.Console (chr cmdBufSize cmdMaxArgv)

/-- The cells by address; a cell without a value is one that must not be touched. -/
abbrev Ram := List (Option UInt8)

def load (ram : Ram) (p : Nat) : Option UInt8 := ram[p]?.join

def put (ram : Ram) (p : Nat) (c : UInt8) : Option Ram :=
  (load ram p).map fun _ => ram.set p (some c)

theorem lt_of_load {ram : Ram} {p : Nat} {c : UInt8} (loaded : load ram p = some c) :
    p < ram.length := by
  by_contra outside
  rw [load, List.getElem?_eq_none (Nat.not_lt.mp outside)] at loaded
  cases loaded

theorem load_iff {ram : Ram} {p : Nat} {c : UInt8} :
    load ram p = some c ↔ ram[p]? = some (some c) := Option.join_eq_some_iff

theorem put_eq {ram : Ram} {p : Nat} (owned : (load ram p).isSome) (c : UInt8) : ∃ ram',
    put ram p c = some ram' ∧ ∀ x, ram'[x]? = if x = p then some (some c) else ram[x]? := by
  obtain ⟨old, loaded⟩ := Option.isSome_iff_exists.mp owned
  refine ⟨ram.set p (some c), by rw [put, loaded, Option.map_some], fun x => ?_⟩
  rw [List.getElem?_set]
  by_cases here : x = p
  · rw [if_pos here, if_pos here.symm, if_pos (lt_of_load loaded)]
  · rw [if_neg here, if_neg (Ne.symm here)]

/-- `while (more(*p)) p++;`. -/
def scanWhile (more : UInt8 → Bool) (ram : Ram) (p : Nat) : Option Nat :=
  match found : load ram p with
  | none => none
  | some c => if more c then scanWhile more ram (p + 1) else some p
termination_by ram.length - p
decreasing_by
  have inside := lt_of_load found
  omega

/-- The outer loop of `shell_parse_args`, while `left` more arguments are wanted. -/
def parseLoop : Nat → Ram → Nat → Option (List Nat × Ram)
  | 0, ram, cmdline => (load ram cmdline).map fun _ => ([], ram)
  | left + 1, ram, cmdline =>
    (load ram cmdline).bind fun c =>
    if c = 0 then some ([], ram)
    else
      (scanWhile (fun c => c = chr ' ') ram cmdline).bind fun arg =>
      (load ram arg).bind fun c =>
      if c = 0 then some ([], ram)
      else
        (scanWhile (fun c => c ≠ 0 && c ≠ chr ' ') ram arg).bind fun stop =>
        (load ram stop).bind fun c =>
        (if c ≠ 0 then (put ram stop 0).bind fun ram => parseLoop left ram (stop + 1)
          else parseLoop left ram stop).map fun (argv, ram) => (arg :: argv, ram)

/-- `shell_parse_args`: what it enters into `argv`, and the memory behind it. -/
def shellParseArgs (ram : Ram) (cmdline : Nat) (maxArgs : Int) : Option (List Nat × Ram) :=
  parseLoop maxArgs.toNat ram cmdline

/-- `n` zeros. -/
def fill : Nat → Ram → Nat → Option Ram
  | 0, ram, _ => some ram
  | n + 1, ram, d => (put ram d 0).bind fun ram => fill n ram (d + 1)

def xstrncpy : Nat → Ram → Nat → Nat → Option Ram
  | 0, ram, _, _ => some ram
  | n + 1, ram, d, s =>
    (load ram s).bind fun c =>
    (put ram d c).bind fun ram =>
    if c = 0 then fill n ram (d + 1) else xstrncpy n ram (d + 1) (s + 1)

/-- `shell_handle_command` with its `buf` at an address, up to where the arguments are known. -/
def shellHandleCommand (ram : Ram) (inputBuffer buf : Nat) : Option (List Nat × Ram) :=
  (fill cmdBufSize ram buf).bind fun ram =>
  (load ram inputBuffer).bind fun c =>
  if c = 0 then some ([], ram)
  else
    (xstrncpy cmdBufSize ram buf inputBuffer).bind fun ram =>
    (put ram (buf + (cmdBufSize - 1)) 0).bind fun ram =>
    shellParseArgs ram buf cmdMaxArgv

/-- A string with its NUL stands at an address. -/
def Stands (ram : Ram) (p : Nat) (str : CStr) : Prop :=
  ∀ i ≤ str.length, load ram (p + i) = some (str.getD i 0)

/-- `n` cells that may be touched. -/
def Owned (ram : Ram) (p n : Nat) : Prop := ∀ i < n, (load ram (p + i)).isSome

def isSpace (c : UInt8) : Bool := c = chr ' '

/-- The characters of a word. -/
def wordAt (line : CStr) (word : Nat × Nat) : CStr := (line.drop word.1).take (word.2 - word.1)

/-- The first `maxArgs` words, as the pointers of `argv` to strings that end where they do. -/
structure Splits (line : CStr) (words : List (Nat × Nat)) (cmdline : Nat) (maxArgs : Int)
    (argv : List Nat) (ram : Ram) : Prop where
  argc : argv.length = min maxArgs.toNat words.length
  points : ∀ i arg : Nat, argv[i]? = some arg → ∃ word, words[i]? = some word ∧
    arg = cmdline + word.1 ∧ Stands ram arg (wordAt line word)

theorem scanWhile_eq {more : UInt8 → Bool} {ram : Ram} {p q : Nat} {c : UInt8} (order : p ≤ q)
    (through : ∀ x, p ≤ x → x < q → ∃ c, load ram x = some c ∧ more c = true)
    (loaded : load ram q = some c) (ends : more c = false) : scanWhile more ram p = some q := by
  induction left : q - p generalizing p with
  | zero =>
    obtain rfl : p = q := by omega
    rw [scanWhile]
    split
    · rename_i missing
      rw [loaded] at missing
      cases missing
    · rename_i c' loaded'
      rw [loaded] at loaded'
      cases loaded'
      rw [ends, if_neg Bool.false_ne_true]
  | succ left ih =>
    have further : p + 1 ≤ q := by omega
    obtain ⟨here, loadedHere, goes⟩ := through p (Nat.le_refl _) further
    have rest := ih further (fun x low => through x (by omega)) (by omega)
    rw [scanWhile]
    split
    · rename_i missing
      rw [loadedHere] at missing
      cases missing
    · rename_i c' loaded'
      rw [loadedHere] at loaded'
      cases loaded'
      rw [goes, if_pos rfl, rest]

section Strings

variable {line : CStr} {ram : Ram} {cmdline : Nat}

/-- The string from its `p`-th character on. -/
private def Rest (ram : Ram) (cmdline : Nat) (line : CStr) (p : Nat) : Prop :=
  ∀ i, p ≤ i → i ≤ line.length → load ram (cmdline + i) = some (line.getD i 0)

private theorem separates_iff {i : Nat} (inside : i < line.length) :
    Separates isSpace line i ↔ line.getD i 0 = chr ' ' := by
  rw [Separates, List.getElem?_eq_getElem inside, Option.any_some, isSpace, decide_eq_true_eq,
    List.getD_eq_getElem _ _ inside]

private theorem getD_ne_zero (noNul : 0 ∉ line) {i : Nat} (inside : i < line.length) :
    line.getD i 0 ≠ 0 := by
  rw [List.getD_eq_getElem _ _ inside]
  intro zero
  exact noNul (zero ▸ List.getElem_mem inside)

private theorem getD_end : line.getD line.length 0 = 0 :=
  List.getD_eq_default _ _ (Nat.le_refl _)

private theorem scan_spaces {p q : Nat} (rest : Rest ram cmdline line p) (order : p ≤ q)
    (inside : q ≤ line.length) (spaces : ∀ i, p ≤ i → i < q → Separates isSpace line i)
    (ends : ¬ Separates isSpace line q) :
    scanWhile (fun c => c = chr ' ') ram (cmdline + p) = some (cmdline + q) := by
  apply scanWhile_eq (Nat.add_le_add_left order _) _ (rest q order inside)
  · rw [decide_eq_false_iff_not]
    rcases Nat.eq_or_lt_of_le inside with rfl | more
    · rw [getD_end]
      decide
    · exact mt (separates_iff more).mpr ends
  · intro x low high
    obtain ⟨i, rfl⟩ := Nat.exists_eq_add_of_le (Nat.le_trans (Nat.le_add_right _ _) low)
    refine ⟨_, rest i (by omega) (by omega), decide_eq_true ?_⟩
    exact (separates_iff (by omega)).mp (spaces i (by omega) (by omega))

private theorem scan_word (noNul : 0 ∉ line) {p q : Nat} (rest : Rest ram cmdline line p)
    (order : p ≤ q) (inside : q ≤ line.length)
    (free : ∀ i, p ≤ i → i < q → ¬ Separates isSpace line i)
    (ends : q = line.length ∨ Separates isSpace line q) :
    scanWhile (fun c => c ≠ 0 && c ≠ chr ' ') ram (cmdline + p) = some (cmdline + q) := by
  apply scanWhile_eq (Nat.add_le_add_left order _) _ (rest q order inside)
  · rw [Bool.and_eq_false_iff, decide_eq_false_iff_not, decide_eq_false_iff_not, not_not, not_not]
    rcases Nat.eq_or_lt_of_le inside with rfl | more
    · exact .inl getD_end
    · rcases ends with rfl | space
      · exact .inl getD_end
      · exact .inr ((separates_iff more).mp space)
  · intro x low high
    obtain ⟨i, rfl⟩ := Nat.exists_eq_add_of_le (Nat.le_trans (Nat.le_add_right _ _) low)
    have more : i < line.length := by omega
    refine ⟨_, rest i (by omega) (by omega), ?_⟩
    rw [Bool.and_eq_true, decide_eq_true_eq, decide_eq_true_eq]
    exact ⟨getD_ne_zero noNul more, mt (separates_iff more).mpr (free i (by omega) (by omega))⟩

/-- All that changed are zeros at some places. -/
private def Ended (ram ram' : Ram) (stops : List Nat) : Prop :=
  ∀ x, ram'[x]? = if x ∈ stops then some (some 0) else ram[x]?

private theorem ended_nil (ram : Ram) : Ended ram ram [] := by
  intro x
  rw [if_neg List.not_mem_nil]

private theorem ended_cons {ram ram₁ ram' : Ram} {stop : Nat} {stops : List Nat}
    (first : Ended ram ram₁ [stop]) (rest : Ended ram₁ ram' stops) :
    Ended ram ram' (stop :: stops) := by
  intro x
  rw [rest x, first x]
  by_cases here : x = stop
  · rw [if_pos (List.mem_singleton.mpr here), if_pos (List.mem_cons.mpr (.inl here)), ite_self]
  · rw [if_neg (mt List.mem_singleton.mp here)]
    simp only [List.mem_cons, here, false_or]

private theorem ended_same {ram : Ram} {stop : Nat} (zero : load ram stop = some 0) :
    Ended ram ram [stop] := by
  intro x
  by_cases here : x = stop
  · rw [if_pos (List.mem_singleton.mpr here), here]
    exact load_iff.mp zero
  · rw [if_neg (mt List.mem_singleton.mp here)]

private theorem ended_put {ram : Ram} {stop : Nat} {c : UInt8} (loaded : load ram stop = some c) :
    ∃ ram', put ram stop 0 = some ram' ∧ Ended ram ram' [stop] := by
  obtain ⟨ram', put, cells⟩ := put_eq (Option.isSome_of_eq_some loaded) 0
  refine ⟨ram', put, fun x => ?_⟩
  rw [cells x]
  simp only [List.mem_singleton]

private theorem next_word {p : Nat} (inside : p ≤ line.length)
    (boundary : p = 0 ∨ Separates isSpace line (p - 1) ∨ p = line.length) : ∃ q, p ≤ q ∧
    q ≤ line.length ∧ (∀ i, p ≤ i → i < q → Separates isSpace line i) ∧
    startsFrom isSpace line p = startsFrom isSpace line q ∧
    (q = line.length ∨ Begins isSpace line q) := by
  obtain ⟨q, order, bound, spaces, ends⟩ := exists_stop (fun c => !isSpace c) inside
  have other : ∀ i < line.length,
      (¬ Separates (fun c => !isSpace c) line i ↔ Separates isSpace line i) := by
    intro i more
    rw [Separates, Separates, List.getElem?_eq_getElem more, Option.any_some, Option.any_some,
      Bool.not_eq_true', Bool.not_eq_false]
  have through : ∀ i, p ≤ i → i < q → Separates isSpace line i := fun i low high =>
    (other i (by omega)).mp (spaces i low high)
  refine ⟨q, order, bound, through, ?_, ?_⟩
  · exact startsFrom_skip order bound fun i low high begins => begins.2.1 (through i low high)
  · rcases Nat.eq_or_lt_of_le bound with ended | more
    · exact .inl ended
    · refine .inr ⟨more, ?_, ?_⟩
      · intro space
        rcases ends with ended | ends
        · omega
        · exact (other q more).mpr space ends
      · rcases Nat.eq_or_lt_of_le order with rfl | later
        · rcases boundary with first | before | ended
          · exact .inl first
          · exact .inr before
          · omega
        · exact .inr (through (q - 1) (by omega) (by omega))

private theorem after_word {q : Nat} (begins : Begins isSpace line q) :
    startsFrom isSpace line q = q :: startsFrom isSpace line (stopOf isSpace line q) := by
  obtain ⟨nonempty, inside, free, -, -⟩ := (isWord_iff q _).mpr ⟨begins, rfl⟩
  rw [startsFrom_begins begins]
  congr 1
  apply startsFrom_skip nonempty inside
  rintro i low high ⟨-, -, first⟩
  rcases first with zero | before
  · omega
  · exact free (i - 1) (by omega) (by omega) before

private theorem after_space {q : Nat} (more : q < line.length)
    (space : Separates isSpace line q) :
    startsFrom isSpace line q = startsFrom isSpace line (q + 1) := by
  apply startsFrom_skip (Nat.le_succ q) more
  rintro i low high ⟨-, here, -⟩
  obtain rfl : i = q := by omega
  exact here space

/-- The words that begin from `p` on, at most `left` of them. -/
private def taken (line : CStr) (p left : Nat) : List Nat := (startsFrom isSpace line p).take left

private theorem parseLoop_eq (noNul : 0 ∉ line) (left : Nat) {ram : Ram} {p : Nat}
    (rest : Rest ram cmdline line p) (inside : p ≤ line.length)
    (boundary : p = 0 ∨ Separates isSpace line (p - 1) ∨ p = line.length) : ∃ ram',
    parseLoop left ram (cmdline + p) = some ((taken line p left).map (cmdline + ·), ram') ∧
    Ended ram ram' ((taken line p left).map fun arg => cmdline + stopOf isSpace line arg) := by
  induction left generalizing ram p with
  | zero =>
    refine ⟨ram, ?_, ended_nil ram⟩
    rw [parseLoop, rest p (Nat.le_refl _) inside]
    rfl
  | succ left ih =>
    obtain ⟨q, order, bound, spaces, same, ends⟩ := next_word inside boundary
    rw [parseLoop, rest p (Nat.le_refl _) inside, Option.bind_some, taken, same]
    by_cases ended : p = line.length
    · obtain rfl : q = line.length := by omega
      rw [ended, getD_end, if_pos rfl, startsFrom_end]
      exact ⟨ram, rfl, ended_nil ram⟩
    · have stopped : ¬ Separates isSpace line q := by
        rcases ends with rfl | begins
        · exact not_separates_end
        · exact begins.2.1
      rw [if_neg (getD_ne_zero noNul (by omega)), scan_spaces rest order bound spaces stopped,
        Option.bind_some, rest q order bound, Option.bind_some]
      rcases ends with rfl | begins
      · rw [getD_end, if_pos rfl, startsFrom_end]
        exact ⟨ram, rfl, ended_nil ram⟩
      · obtain ⟨nonempty, stopInside, free, -, last⟩ := (isWord_iff q _).mpr ⟨begins, rfl⟩
        have behind : Rest ram cmdline line q := fun i low => rest i (by omega)
        have stop := rest (stopOf isSpace line q) (by omega) stopInside
        rw [if_neg (getD_ne_zero noNul begins.1),
          scan_word noNul behind (Nat.le_of_lt nonempty) stopInside free last, Option.bind_some,
          stop, Option.bind_some, after_word begins, List.take_succ_cons, List.map_cons,
          List.map_cons]
        by_cases finished : stopOf isSpace line q = line.length
        · rw [finished, getD_end] at stop
          obtain ⟨ram', loop, cells⟩ := ih (fun i low => rest i (by omega)) (Nat.le_of_eq finished)
            (.inr (.inr finished))
          rw [finished, getD_end, if_neg (not_not_intro rfl), ← finished, loop, Option.map_some]
          exact ⟨ram', rfl, ended_cons (ended_same (finished ▸ stop)) cells⟩
        · have more : stopOf isSpace line q < line.length := by omega
          have space : Separates isSpace line (stopOf isSpace line q) :=
            last.resolve_left finished
          obtain ⟨ram₁, put, first⟩ := ended_put stop
          have later : Rest ram₁ cmdline line (stopOf isSpace line q + 1) := by
            intro i low high
            rw [load, first, if_neg (by rw [List.mem_singleton]; omega)]
            exact rest i (by omega) high
          obtain ⟨ram', loop, cells⟩ := ih later more (.inr (.inl space))
          rw [if_pos (getD_ne_zero noNul more), put, Option.bind_some, Nat.add_assoc, loop,
            Option.map_some, after_space more space]
          exact ⟨ram', rfl, ended_cons first cells⟩

private theorem getD_wordAt {start stop : Nat} (word : IsWord isSpace line start stop) :
    (wordAt line (start, stop)).length = stop - start ∧
    (∀ i < stop - start, (wordAt line (start, stop)).getD i 0 = line.getD (start + i) 0) ∧
    (wordAt line (start, stop)).getD (stop - start) 0 = 0 := by
  have inside := word.inside
  have length : (wordAt line (start, stop)).length = stop - start := by
    rw [wordAt, List.length_take, List.length_drop]
    omega
  refine ⟨length, fun i more => ?_, List.getD_eq_default _ _ (Nat.le_of_eq length)⟩
  rw [List.getD_eq_getElem?_getD, List.getD_eq_getElem?_getD, wordAt, List.getElem?_take,
    if_pos more, List.getElem?_drop]

private theorem word_stands {ram ram' : Ram} {starts : List Nat} {start : Nat}
    (stands : Stands ram cmdline line)
    (cells : Ended ram ram' (starts.map fun arg => cmdline + stopOf isSpace line arg))
    (words : ∀ arg ∈ starts, Begins isSpace line arg) (member : start ∈ starts) :
    Stands ram' (cmdline + start) (wordAt line (start, stopOf isSpace line start)) := by
  have word := (isWord_iff start _).mpr ⟨words start member, rfl⟩
  obtain ⟨length, inner, ended⟩ := getD_wordAt word
  intro i bound
  rw [length] at bound
  rw [load, cells, Nat.add_assoc]
  rcases Nat.eq_or_lt_of_le bound with rfl | more
  · have stop : start + (stopOf isSpace line start - start) = stopOf isSpace line start := by
      have nonempty := word.nonempty
      omega
    rw [stop, if_pos (List.mem_map_of_mem member), ended]
    rfl
  · have inside := word.inside
    have free := word.free (start + i) (Nat.le_add_right _ _) (by omega)
    have other : ¬ cmdline + (start + i) ∈
        starts.map fun arg => cmdline + stopOf isSpace line arg := by
      intro stop
      obtain ⟨arg, member', same⟩ := List.mem_map.mp stop
      have word' := (isWord_iff arg _).mpr ⟨words arg member', rfl⟩
      obtain same : stopOf isSpace line arg = start + i := by omega
      rcases word'.last with ended | space
      · omega
      · exact free (same ▸ space)
    rw [if_neg other, inner i more]
    exact stands (start + i) (by omega)

/-- `shell_parse_args` on a string: its first words, and nothing outside of it. -/
theorem parseArgs_splits (noNul : 0 ∉ line) {ram : Ram} (stands : Stands ram cmdline line)
    (maxArgs : Int) : ∃ argv ram', shellParseArgs ram cmdline maxArgs = some (argv, ram') ∧
    Splits line (words isSpace line) cmdline maxArgs argv ram' ∧
    ∀ x, x < cmdline ∨ cmdline + line.length < x → ram'[x]? = ram[x]? := by
  obtain ⟨ram', loop, cells⟩ := parseLoop_eq noNul maxArgs.toNat (p := 0)
    (fun i _ => stands i) (Nat.zero_le _) (.inl rfl)
  have begins : ∀ arg ∈ taken line 0 maxArgs.toNat, Begins isSpace line arg := fun arg member =>
    begins_of_mem (List.mem_of_mem_take member)
  refine ⟨_, ram', loop, ⟨?_, ?_⟩, ?_⟩
  · rw [List.length_map, taken, List.length_take, words, List.length_map]
  · intro i arg pointer
    rw [List.getElem?_map, Option.map_eq_some_iff] at pointer
    obtain ⟨start, entry, rfl⟩ := pointer
    have member := List.mem_of_getElem? entry
    refine ⟨(start, stopOf isSpace line start), ?_, rfl, word_stands stands cells begins member⟩
    rw [words, List.getElem?_map]
    rw [taken, List.getElem?_take] at entry
    split at entry
    · rw [entry, Option.map_some]
    · cases entry
  · intro x outside
    rw [cells, if_neg]
    intro stop
    obtain ⟨arg, member, same⟩ := List.mem_map.mp stop
    have inside := ((isWord_iff arg _).mpr ⟨begins arg member, rfl⟩).inside
    omega

end Strings

/-! The strings of `argv` are the arguments of the console's model. -/

section Console

variable {line : CStr}

private theorem dropWhile_drop {more : UInt8 → Bool} {p q : Nat} (order : p ≤ q)
    (inside : q ≤ line.length)
    (through : ∀ i, p ≤ i → i < q → more (line.getD i 0) = true)
    (ends : q = line.length ∨ more (line.getD q 0) = false) :
    (line.drop p).dropWhile more = line.drop q := by
  induction left : q - p generalizing p with
  | zero =>
    obtain rfl : p = q := by omega
    rcases Nat.eq_or_lt_of_le inside with rfl | further
    · rw [List.drop_length]
      rfl
    · have stops := ends.resolve_left (Nat.ne_of_lt further)
      rw [List.getD_eq_getElem _ _ further] at stops
      rw [List.drop_eq_getElem_cons further, List.dropWhile_cons, stops,
        if_neg Bool.false_ne_true]
  | succ left ih =>
    have further : p < line.length := by omega
    have goes := through p (Nat.le_refl _) (by omega)
    rw [List.getD_eq_getElem _ _ further] at goes
    rw [List.drop_eq_getElem_cons further, List.dropWhile_cons, goes, if_pos rfl]
    exact ih (by omega) (fun i low => through i (by omega)) (by omega)

private theorem takeWhile_take (more : UInt8 → Bool) (str : CStr) :
    str.takeWhile more = str.take (str.takeWhile more).length := by
  have split := List.takeWhile_append_dropWhile (p := more) (l := str)
  conv_rhs => rw [← split]
  rw [List.take_left' (by rw [split])]

private theorem parseArgs_from (n : Nat) {p : Nat} (inside : p ≤ line.length)
    (boundary : p = 0 ∨ Separates isSpace line (p - 1) ∨ p = line.length) :
    Console.shellParseArgs (line.drop p) n =
      (taken line p n).map fun start => wordAt line (start, stopOf isSpace line start) := by
  induction n generalizing p with
  | zero => rfl
  | succ n ih =>
    obtain ⟨q, order, bound, spaces, same, ends⟩ := next_word inside boundary
    have skipped : (line.drop p).dropWhile (fun c => c = chr ' ') = line.drop q := by
      apply dropWhile_drop order bound
      · intro i low high
        exact decide_eq_true ((separates_iff (by omega)).mp (spaces i low high))
      · rcases ends with ended | begins
        · exact .inl ended
        · exact .inr (decide_eq_false (mt (separates_iff begins.1).mpr begins.2.1))
    rw [Console.shellParseArgs, skipped, taken, same]
    rcases ends with rfl | begins
    · rw [List.drop_length, startsFrom_end]
      rfl
    · obtain ⟨nonempty, stopInside, free, -, last⟩ := (isWord_iff q _).mpr ⟨begins, rfl⟩
      have other : (fun c => decide (c ≠ chr ' ')) = fun c => !isSpace c := by
        funext c
        rw [decide_not, isSpace]
      have word : (line.drop q).takeWhile (fun c => c ≠ chr ' ') =
          wordAt line (q, stopOf isSpace line q) := by
        rw [other, takeWhile_take, wordAt, stopOf, Nat.add_sub_cancel_left]
      have behind : (line.drop q).dropWhile (fun c => c ≠ chr ' ') =
          line.drop (stopOf isSpace line q) := by
        apply dropWhile_drop (Nat.le_of_lt nonempty) stopInside
        · intro i low high
          exact decide_eq_true (mt (separates_iff (by omega)).mpr (free i low high))
        · rcases Nat.eq_or_lt_of_le stopInside with ended | more
          · exact .inl ended
          · have space := last.resolve_left (Nat.ne_of_lt more)
            exact .inr (decide_eq_false (not_not_intro ((separates_iff more).mp space)))
      have cons := List.drop_eq_getElem_cons begins.1
      rw [after_word begins, List.take_succ_cons, List.map_cons, ← word, cons]
      dsimp only
      rw [← cons, behind, List.drop_drop]
      congr 1
      by_cases finished : stopOf isSpace line q = line.length
      · rw [finished, List.drop_eq_nil_of_le (Nat.le_succ _), ← List.drop_length]
        exact ih (Nat.le_refl _) (.inr (.inr rfl))
      · have more : stopOf isSpace line q < line.length := by omega
        have space := last.resolve_left finished
        rw [after_space more space]
        exact ih more (.inr (.inl space))

/-- The strings that `argv` points to are those that the model of the console hands on. -/
theorem consoleParseArgs_eq (line : CStr) (n : Nat) :
    Console.shellParseArgs line n = ((words isSpace line).take n).map (wordAt line) := by
  have all := parseArgs_from n (Nat.zero_le line.length) (.inl rfl)
  rw [List.drop_zero] at all
  rw [all, words, ← List.map_take, List.map_map]
  rfl

end Console

private theorem put_first {n : Nat} {ram : Ram} {d : Nat} (owned : Owned ram d (n + 1))
    (c : UInt8) : ∃ ram₁, put ram d c = some ram₁ ∧
    (∀ x, ram₁[x]? = if x = d then some (some c) else ram[x]?) ∧ Owned ram₁ (d + 1) n := by
  obtain ⟨ram₁, first, cells⟩ := put_eq (owned 0 (Nat.zero_lt_succ n)) c
  refine ⟨ram₁, first, cells, fun i more => ?_⟩
  rw [load, cells, if_neg (by omega), Nat.add_right_comm]
  exact owned (i + 1) (by omega)

private theorem fill_eq (n : Nat) {ram : Ram} {d : Nat} (owned : Owned ram d n) : ∃ ram',
    fill n ram d = some ram' ∧
    ∀ x, ram'[x]? = if d ≤ x ∧ x < d + n then some (some 0) else ram[x]? := by
  induction n generalizing ram d with
  | zero => exact ⟨ram, rfl, fun x => (if_neg (by omega)).symm⟩
  | succ n ih =>
    obtain ⟨ram₁, first, cells₁, rest⟩ := put_first owned 0
    obtain ⟨ram', filled, cells⟩ := ih rest
    refine ⟨ram', by rw [fill, first, Option.bind_some, filled], fun x => ?_⟩
    rw [cells, cells₁]
    by_cases here : d ≤ x ∧ x < d + (n + 1)
    · rw [if_pos here]
      by_cases later : d + 1 ≤ x ∧ x < d + 1 + n
      · rw [if_pos later]
      · rw [if_neg later, if_pos (by omega)]
    · rw [if_neg here, if_neg (by omega), if_neg (by omega)]

private theorem xstrncpy_eq {str : CStr} (noNul : 0 ∉ str) {n : Nat} (short : str.length < n)
    {ram : Ram} {d s : Nat} (owned : Owned ram d n) (stands : Stands ram s str)
    (apart : d + n ≤ s ∨ s + str.length < d) : ∃ ram', xstrncpy n ram d s = some ram' ∧
    ∀ x, ram'[x]? = if d ≤ x ∧ x < d + n then some (some (str.getD (x - d) 0)) else ram[x]? := by
  induction str generalizing n ram d s with
  | nil =>
    obtain ⟨n, rfl⟩ := Nat.exists_eq_succ_of_ne_zero (Nat.ne_of_gt short)
    have loaded : load ram s = some 0 := stands 0 (Nat.le_refl _)
    obtain ⟨ram₁, first, cells₁, rest⟩ := put_first owned 0
    obtain ⟨ram', filled, cells⟩ := fill_eq n rest
    refine ⟨ram', ?_, fun x => ?_⟩
    · rw [xstrncpy, loaded, Option.bind_some, first, Option.bind_some, if_pos rfl, filled]
    · rw [cells, cells₁, List.getD_nil]
      by_cases here : d ≤ x ∧ x < d + (n + 1)
      · rw [if_pos here]
        by_cases later : d + 1 ≤ x ∧ x < d + 1 + n
        · rw [if_pos later]
        · rw [if_neg later, if_pos (by omega)]
      · rw [if_neg here, if_neg (by omega), if_neg (by omega)]
  | cons c str ih =>
    obtain ⟨n, rfl⟩ := Nat.exists_eq_succ_of_ne_zero (Nat.ne_of_gt (Nat.zero_lt_of_lt short))
    have nonzero : c ≠ 0 := fun zero => noNul (zero ▸ List.mem_cons_self)
    have loaded : load ram s = some c := stands 0 (Nat.zero_le _)
    rw [List.length_cons] at short apart
    obtain ⟨ram₁, first, cells₁, rest⟩ := put_first owned c
    have behind : Stands ram₁ (s + 1) str := by
      intro i bound
      rw [load, cells₁, if_neg (by omega), Nat.add_right_comm]
      exact stands (i + 1) (Nat.succ_le_succ bound)
    obtain ⟨ram', copied, cells⟩ := ih (fun member => noNul (List.mem_cons_of_mem c member))
      (Nat.lt_of_succ_lt_succ short) rest behind (by omega)
    refine ⟨ram', ?_, fun x => ?_⟩
    · rw [xstrncpy, loaded, Option.bind_some, first, Option.bind_some, if_neg nonzero, copied]
    · rw [cells, cells₁]
      by_cases here : d ≤ x ∧ x < d + (n + 1)
      · rw [if_pos here]
        by_cases later : d + 1 ≤ x ∧ x < d + 1 + n
        · have index : x - d = x - (d + 1) + 1 := by omega
          rw [if_pos later, index, List.getD_cons_succ]
        · obtain rfl : x = d := by omega
          rw [if_neg later, if_pos rfl, Nat.sub_self, List.getD_cons_zero]
      · rw [if_neg here, if_neg (by omega), if_neg (by omega)]

theorem handleCommand_splits {line : CStr} (noNul : 0 ∉ line) (short : line.length < cmdBufSize)
    {ram : Ram} {inputBuffer buf : Nat} (stands : Stands ram inputBuffer line)
    (owned : Owned ram buf cmdBufSize)
    (apart : buf + cmdBufSize ≤ inputBuffer ∨ inputBuffer + line.length < buf) : ∃ argv ram',
    shellHandleCommand ram inputBuffer buf = some (argv, ram') ∧
    Splits line (words isSpace line) buf cmdMaxArgv argv ram' ∧
    ∀ x, x < buf ∨ buf + cmdBufSize ≤ x → ram'[x]? = ram[x]? := by
  obtain ⟨ram₁, zeroed, cells₁⟩ := fill_eq cmdBufSize owned
  have standing : Stands ram₁ inputBuffer line := by
    intro i bound
    rw [load, cells₁, if_neg (by omega)]
    exact stands i bound
  have owned₁ : Owned ram₁ buf cmdBufSize := by
    intro i more
    rw [load, cells₁, if_pos (by omega)]
    rfl
  have first : load ram₁ inputBuffer = some (line.getD 0 0) := standing 0 (Nat.zero_le _)
  rw [shellHandleCommand, zeroed, Option.bind_some, first, Option.bind_some]
  rcases line with _ | ⟨c, line⟩
  · refine ⟨[], ram₁, rfl, ⟨rfl, ?_⟩, fun x outside => ?_⟩
    · intro i arg entry
      cases entry
    · rw [cells₁, if_neg (by omega)]
  · have nonzero : (c :: line).getD 0 0 ≠ 0 := fun zero => noNul (zero ▸ List.mem_cons_self)
    obtain ⟨ram₂, copied, cells₂⟩ := xstrncpy_eq noNul short owned₁ standing apart
    have last : (load ram₂ (buf + (cmdBufSize - 1))).isSome := by
      rw [load, cells₂, if_pos (by omega)]
      rfl
    obtain ⟨ram₃, ended, cells₃⟩ := put_eq last 0
    have copy : Stands ram₃ buf (c :: line) := by
      intro i bound
      rw [load, cells₃]
      by_cases atLast : buf + i = buf + (cmdBufSize - 1)
      · rw [if_pos atLast, List.getD_eq_default _ _ (by omega)]
        rfl
      · rw [if_neg atLast, cells₂, if_pos (by omega), Nat.add_sub_cancel_left]
        rfl
    obtain ⟨argv, ram', parsed, splits, frame⟩ := parseArgs_splits noNul copy cmdMaxArgv
    rw [if_neg nonzero, copied, Option.bind_some, ended, Option.bind_some, parsed]
    refine ⟨argv, ram', rfl, splits, fun x outside => ?_⟩
    rw [frame x (by omega), cells₃, if_neg (by omega), cells₂, if_neg (by omega), cells₁,
      if_neg (by omega)]

/-- The words of a line become its arguments, inside the line or inside its copy. -/
theorem arguments_split {line : CStr} (noNul : 0 ∉ line) (short : line.length < cmdBufSize) :
    ∃ ws, Enumerates isSpace line ws ∧
    (∀ (ram : Ram) (cmdline : Nat) (maxArgs : Int), Stands ram cmdline line → ∃ argv ram',
      shellParseArgs ram cmdline maxArgs = some (argv, ram') ∧
      Splits line ws cmdline maxArgs argv ram' ∧
      ∀ x, x < cmdline ∨ cmdline + line.length < x → ram'[x]? = ram[x]?) ∧
    ∀ (ram : Ram) (inputBuffer buf : Nat), Stands ram inputBuffer line →
      Owned ram buf cmdBufSize →
      buf + cmdBufSize ≤ inputBuffer ∨ inputBuffer + line.length < buf → ∃ argv ram',
      shellHandleCommand ram inputBuffer buf = some (argv, ram') ∧
      Splits line ws buf cmdMaxArgv argv ram' ∧ Stands ram' inputBuffer line ∧
      ∀ x, x < buf ∨ buf + cmdBufSize ≤ x → ram'[x]? = ram[x]? := by
  refine ⟨words isSpace line, words_enumerate, fun ram cmdline maxArgs stands => ?_, ?_⟩
  · exact parseArgs_splits noNul stands maxArgs
  · intro ram inputBuffer buf stands owned apart
    obtain ⟨argv, ram', handled, splits, frame⟩ :=
      handleCommand_splits noNul short stands owned apart
    refine ⟨argv, ram', handled, splits, fun i bound => ?_, frame⟩
    rw [load, frame (inputBuffer + i) (by omega)]
    exact stands i bound

/-- ` ab  c `, at 0, and behind it the buffer of `shell_handle_command`. -/
def spacedLine : CStr := [0x20, 0x61, 0x62, 0x20, 0x20, 0x63, 0x20]

def spacedRam : Ram := (spacedLine ++ [0] ++ List.replicate cmdBufSize 0xff).map some

/-- One argument is taken where there is room for one, and both from the copy. -/
theorem spacedLine_split : ∃ ws argv ram' argv' ram'', Enumerates isSpace spacedLine ws ∧
    shellParseArgs spacedRam 0 1 = some (argv, ram') ∧ Splits spacedLine ws 0 1 argv ram' ∧
    shellHandleCommand spacedRam 0 8 = some (argv', ram'') ∧
    Splits spacedLine ws 8 cmdMaxArgv argv' ram'' ∧ Stands ram'' 0 spacedLine := by
  have noNul : (0 : UInt8) ∉ spacedLine := by decide
  have stands : Stands spacedRam 0 spacedLine := by
    unfold Stands
    decide
  have owned : Owned spacedRam 8 cmdBufSize := by
    unfold Owned
    decide
  obtain ⟨ws, enumerates, splits, copies⟩ := arguments_split noNul (by decide)
  obtain ⟨argv, ram', parsed, holds, -⟩ := splits spacedRam 0 1 stands
  obtain ⟨argv', ram'', handled, holds', kept, -⟩ := copies spacedRam 0 8 stands owned (by decide)
  exact ⟨ws, argv, ram', argv', ram'', enumerates, parsed, holds, handled, holds', kept⟩

end T113Boot.Shell.Arguments
