/- Module: T113Boot/Shell/Commands
   layer: model
   digest: The command list of `shell.c`, and which calls lose no command of it. -/

import T113Boot.Lib.Chains
import T113Boot.Shell.Console

set_option autoImplicit false
set_option relaxedAutoImplicit false

namespace T113Boot.Shell.Commands

open T113Boot.Lib.Chains
open T113Boot.Lib.Runs
open T113Boot.Shell.XString
open T113Boot.Shell.Console (ShellCommand shellParseArgs Handled chr cmdBufSize cmdMaxArgv
  showPrompt)
open T113Boot.Storage.Table (CStr cstr)

/-- The nodes of the list: the commands of `shell.c` itself, and those of its users. -/
inductive Node (User : Type)
  | helpCmd
  | echoCmd
  | hexdumpCmd
  | user (u : User)
deriving DecidableEq

theorem noNul_help : 0 ∉ cstr "help" := by decide

theorem noNul_echo : 0 ∉ cstr "echo" := by decide

theorem noNul_hexdump : 0 ∉ cstr "hexdump" := by decide

variable {User : Type}

/-- The fields of a node other than its link. -/
def command (users : User → ShellCommand) : Node User → ShellCommand
  | .helpCmd => ⟨cstr "help", cstr "show help", noNul_help⟩
  | .echoCmd => ⟨cstr "echo", cstr "show parameters", noNul_echo⟩
  | .hexdumpCmd => ⟨cstr "hexdump", cstr "show mem info", noNul_hexdump⟩
  | .user u => users u

/-- The nodes that every `shell_init` registers. -/
def builtIn : List (Node User) := [.helpCmd, .echoCmd, .hexdumpCmd]

/-- What `shell_handle_command` comes to: nothing, the `func` of a node called, or a complaint. -/
inductive Outcome (User : Type)
  | nothing
  | called (cmd : Node User) (argv : List CStr)
  | unknown (arg : CStr)
deriving DecidableEq

/-- `shell_handle_command` on the list in memory. -/
def shellHandleCommand (users : User → ShellCommand) (turns : Nat) (cmdList : Links (Node User))
    (inputBuffer : CStr) : Option (Outcome User) :=
  match shellParseArgs (inputBuffer.take (cmdBufSize - 1)) cmdMaxArgv with
  | [] => some .nothing
  | arg :: args =>
    (findFrom cmdList.next (fun cmd => xstrcmp arg (command users cmd).name = 0) turns
      cmdList.first).map fun
        | some cmd => .called cmd (arg :: args)
        | none => .unknown arg

section Lines

variable {users : User → ShellCommand} {cmdList : Links (Node User)} {l : List (Node User)}
  {line word : CStr}

theorem handled_of_spells (spells : cmdList.Spells l) {turns : Nat} (enough : l.length ≤ turns)
    (line : CStr) : shellHandleCommand users turns cmdList line = some
      (match shellParseArgs (line.take (cmdBufSize - 1)) cmdMaxArgv with
        | [] => .nothing
        | arg :: args =>
          match l.find? fun cmd => xstrcmp arg (command users cmd).name = 0 with
          | some cmd => .called cmd (arg :: args)
          | none => .unknown arg) := by
  unfold shellHandleCommand
  rcases shellParseArgs (line.take (cmdBufSize - 1)) cmdMaxArgv with _ | ⟨arg, args⟩
  · rfl
  · dsimp only
    rw [spells.findFrom enough, Option.map_some]

/-- It calls what the same function calls where the commands are given in a row. -/
def Outcome.handled (users : User → ShellCommand) : Outcome User → Handled
  | .nothing => .nothing
  | .called cmd argv => .called (command users cmd) argv
  | .unknown arg => .unknown arg

theorem handled_eq_console (spells : cmdList.Spells l) {turns : Nat} (enough : l.length ≤ turns)
    (line : CStr) : (shellHandleCommand users turns cmdList line).map (Outcome.handled users) =
      some (Console.shellHandleCommand (l.map (command users)) line) := by
  rw [handled_of_spells spells enough, Option.map_some, Console.shellHandleCommand]
  rcases shellParseArgs (line.take (cmdBufSize - 1)) cmdMaxArgv with _ | ⟨arg, args⟩
  · rfl
  · have same : (fun cmd : ShellCommand => decide (xstrcmp arg cmd.name = 0)) ∘ command users =
        fun cmd => decide (xstrcmp arg (command users cmd).name = 0) := rfl
    dsimp only
    rw [List.find?_map, same]
    rcases l.find? fun cmd => xstrcmp arg (command users cmd).name = 0 with _ | cmd
    · rfl
    · rfl

/-- The first word of a line. -/
def FirstWord (line word : CStr) : Prop :=
  ∃ pad rest, line = pad ++ word ++ rest ∧ (∀ c ∈ pad, c = chr ' ') ∧ word ≠ [] ∧
    chr ' ' ∉ word ∧ (rest = [] ∨ ∃ tail, rest = chr ' ' :: tail)

theorem FirstWord.parsed (first : FirstWord line word) :
    ∃ args, shellParseArgs line cmdMaxArgv = word :: args := by
  obtain ⟨pad, rest, rfl, spaces, nonempty, solid, ends⟩ := first
  obtain ⟨c, word, rfl⟩ := List.exists_cons_of_ne_nil nonempty
  have letter : ∀ b ∈ c :: word, decide (b ≠ chr ' ') = true := by
    intro b member
    exact decide_eq_true fun same => solid (same ▸ member)
  have begins : (pad ++ (c :: word) ++ rest).dropWhile (· = chr ' ') = (c :: word) ++ rest := by
    rw [List.append_assoc, List.dropWhile_append_of_pos]
    · rw [List.cons_append, List.dropWhile_cons_of_neg]
      simpa using letter c List.mem_cons_self
    · exact fun b member => decide_eq_true (spaces b member)
  have stops : rest.takeWhile (· ≠ chr ' ') = [] := by
    rcases ends with rfl | ⟨tail, rfl⟩
    · rfl
    · exact List.takeWhile_cons_of_neg (by simp)
  have taken : ((c :: word) ++ rest).takeWhile (· ≠ chr ' ') = c :: word := by
    rw [List.takeWhile_append_of_pos letter, stops, List.append_nil]
  refine ⟨shellParseArgs ((((c :: word) ++ rest).dropWhile (· ≠ chr ' ')).drop 1) 9, ?_⟩
  rw [cmdMaxArgv, shellParseArgs, begins]
  exact congrArg (· :: _) taken

theorem dispatched_of_mem [DecidableEq User] (spells : cmdList.Spells l) {cmd : Node User}
    (member : cmd ∈ l) (short : line.length < cmdBufSize)
    (first : FirstWord line (command users cmd).name)
    (alone : ∀ earlier ∈ l.takeWhile (· ≠ cmd),
      (command users earlier).name ≠ (command users cmd).name) :
    ∃ args, ∀ turns ≥ l.length, shellHandleCommand users turns cmdList line =
      some (.called cmd ((command users cmd).name :: args)) := by
  obtain ⟨args, parsed⟩ := first.parsed
  refine ⟨args, fun turns enough => ?_⟩
  rw [handled_of_spells spells enough, List.take_of_length_le (Nat.le_sub_one_of_lt short), parsed]
  dsimp only
  have found : (l.find? fun other =>
      xstrcmp (command users cmd).name (command users other).name = 0) = some cmd := by
    have equal (other : Node User) :
        xstrcmp (command users cmd).name (command users other).name = 0 ↔
          (command users cmd).name = (command users other).name :=
      xstrcmp_eq_zero (command users cmd).noNul (command users other).noNul
    obtain ⟨before, behind, rfl⟩ := List.append_of_mem member
    have new : cmd ∉ before := fun twice =>
      List.disjoint_of_nodup_append spells.nodup twice List.mem_cons_self
    have front : ∀ other ∈ before, decide (other ≠ cmd) = true := fun other inside =>
      decide_eq_true fun same => new (same ▸ inside)
    rw [List.takeWhile_append_of_pos front, List.takeWhile_cons_of_neg (by simp),
      List.append_nil] at alone
    rw [List.find?_append, List.find?_eq_none.mpr, Option.none_or, List.find?_cons_of_pos]
    · exact decide_eq_true ((equal cmd).mpr rfl)
    · intro other inside same
      exact alone other inside ((equal other).mp (of_decide_eq_true same)).symm
  rw [found]

end Lines

/-- `shell_port_t`: which of its functions are there. -/
structure ShellPort where
  shellPutchar : Bool
  shellGetchar : Bool
deriving DecidableEq

/-- `shell_cmd_list` and the nodes, and `s_port`. -/
structure Registry (User : Type) where
  cmdList : Links (Node User)
  sPort : Option ShellPort

inductive Call (User : Type)
  | register (cmd : Node User)
  | init (port : Option ShellPort) (sheelHeadtag : Option CStr)
  | deinit

/-- The shell, and every node registered so far. -/
structure Ledger (User : Type) where
  shell : Registry User
  registered : List (Node User)

/-- Before the first call; the links in the nodes do not matter. -/
def Ledger.initial (next : Node User → Option (Node User)) : Ledger User where
  shell := ⟨⟨none, next⟩, none⟩
  registered := []

/-- More turns than there are nodes a list can have. -/
def Ledger.turns (s : Ledger User) : Nat := s.registered.length + 3

/-- The nodes in the list. -/
def Ledger.commands (s : Ledger User) : List (Node User) :=
  (nodesFrom s.shell.cmdList.next s.turns s.shell.cmdList.first).getD []

/-- The list ends, and only nodes registered are in it. -/
structure Sound (s : Ledger User) (l : List (Node User)) : Prop where
  spells : s.shell.cmdList.Spells l
  few : l.length ≤ s.registered.length
  known : l ⊆ s.registered

theorem Sound.commands_eq {s : Ledger User} {l : List (Node User)} (sound : Sound s l) :
    s.commands = l := by
  have enough : l.length ≤ s.turns := Nat.le_add_right_of_le sound.few
  rw [Ledger.commands, sound.spells.nodesFrom enough, Option.getD_some]

theorem sound_initial (next : Node User → Option (Node User)) : Sound (.initial next) [] :=
  ⟨rfl, Nat.le_refl _, List.nil_subset _⟩

section Registration

variable [DecidableEq User]

/-- `shell_register_command`. Here and below the walk along the list has a number of turns. -/
def shellRegisterCommand (turns : Nat) (cmd : Node User) (cmdList : Links (Node User)) :
    Option (Links (Node User)) :=
  cmdList.append turns cmd

/-- Whether `shell_init` goes on with a port. It looks into the port it had before, where there was
none at address 0. -/
def accepts (null : ShellPort) (sPort port : Option ShellPort) : Bool :=
  port.isSome && (sPort.getD null).shellPutchar && (sPort.getD null).shellGetchar

/-- `shell_init`: what it leaves, what it returns and what it puts out. -/
def shellInit (null : ShellPort) (turns : Nat) (port : Option ShellPort)
    (sheelHeadtag : Option CStr) (shell : Registry User) :
    Option (Registry User × Int × List UInt8) :=
  if accepts null shell.sPort port then do
    let out := if (port.getD null).shellPutchar then sheelHeadtag.getD [] ++ showPrompt else []
    let cmdList ← shellRegisterCommand turns .helpCmd shell.cmdList
    let cmdList ← shellRegisterCommand turns .echoCmd cmdList
    let cmdList ← shellRegisterCommand turns .hexdumpCmd cmdList
    some (⟨cmdList, port⟩, 0, out)
  else some ({ shell with sPort := none }, -1, [])

/-- `shell_deinit`, with the port it returns. -/
def shellDeinit (shell : Registry User) : Registry User × Option ShellPort :=
  ({ shell with sPort := none }, shell.sPort)

/-- A call. It is undefined where a walk along the list does not end. -/
def perform (null : ShellPort) (s : Ledger User) : Call User → Option (Ledger User)
  | .register cmd => (shellRegisterCommand s.turns cmd s.shell.cmdList).map fun cmdList =>
      ⟨{ s.shell with cmdList := cmdList }, s.registered ++ [cmd]⟩
  | .init port sheelHeadtag => (shellInit null s.turns port sheelHeadtag s.shell).map fun r =>
      ⟨r.1, s.registered ++ if r.2.1 = 0 then builtIn else []⟩
  | .deinit => some { s with shell := (shellDeinit s.shell).1 }

/-- No command is lost: the list ends, repeats no node and has every node ever registered; all
walks along it end, and a name that no earlier node carries calls its node. -/
structure Complete (users : User → ShellCommand) (s : Ledger User) (l : List (Node User)) :
    Prop where
  spells : s.shell.cmdList.Spells l
  distinct : l.Nodup
  all : s.registered ⊆ l
  walked : ∀ turns ≥ l.length, nodesFrom s.shell.cmdList.next turns s.shell.cmdList.first = some l
  handled : ∀ line, ∃ outcome, ∀ turns ≥ l.length,
    shellHandleCommand users turns s.shell.cmdList line = some outcome
  dispatched : ∀ cmd ∈ s.registered, ∀ line : CStr, line.length < cmdBufSize →
    FirstWord line (command users cmd).name →
    (∀ earlier ∈ l.takeWhile (· ≠ cmd), (command users earlier).name ≠ (command users cmd).name) →
    ∃ args, ∀ turns ≥ l.length, shellHandleCommand users turns s.shell.cmdList line =
      some (.called cmd ((command users cmd).name :: args))

/-- When a call loses no command: a node is registered that is new or the last one; `shell_init`
finds no node of the users behind `help`, and neither of its other nodes before it. -/
def Keeping (null : ShellPort) (s : Ledger User) : Call User → Prop
  | .register cmd => cmd ∈ s.commands → s.commands.getLast? = some cmd
  | .init port _ => accepts null s.shell.sPort port →
      .echoCmd ∉ s.commands.takeWhile (· ≠ .helpCmd) ∧
      .hexdumpCmd ∉ s.commands.takeWhile (· ≠ .helpCmd) ∧
      ∀ cmd ∈ s.commands.dropWhile (· ≠ .helpCmd), cmd ∈ builtIn
  | .deinit => True

section Keeping

variable {users : User → ShellCommand} {null : ShellPort} {s : Ledger User}
  {l : List (Node User)} {call : Call User}

theorem complete_iff (spells : s.shell.cmdList.Spells l) :
    Complete users s l ↔ s.registered ⊆ l := by
  refine ⟨Complete.all, fun all => ?_⟩
  refine ⟨spells, spells.nodup, all, fun turns enough => spells.nodesFrom enough, ?_, ?_⟩
  · exact fun line => ⟨_, fun turns enough => handled_of_spells spells enough line⟩
  · exact fun cmd member line short first alone =>
      dispatched_of_mem spells (all member) short first alone

theorem registered_subset_iff (sound : Sound s l) :
    (∃ l', Complete users s l') ↔ s.registered ⊆ l := by
  constructor
  · rintro ⟨l', complete⟩
    rw [sound.spells.unique complete.spells]
    exact complete.all
  · exact fun all => ⟨l, (complete_iff sound.spells).mpr all⟩

private theorem subset_cut_three {h e x : Node User} (distinct : l.Nodup) (he : h ≠ e) (hx : h ≠ x)
    (ex : e ≠ x) : l ++ [h, e, x] ⊆ cut (cut (cut l h) e) x ↔
      e ∉ l.takeWhile (· ≠ h) ∧ x ∉ l.takeWhile (· ≠ h) ∧
        ∀ n ∈ l.dropWhile (· ≠ h), n ∈ [h, e, x] := by
  generalize front_eq : l.takeWhile (· ≠ h) = front
  generalize back_eq : l.dropWhile (· ≠ h) = back
  have split : l = front ++ back := by rw [← front_eq, ← back_eq, List.takeWhile_append_dropWhile]
  have first : cut l h = front ++ [h] := by rw [cut, front_eq]
  have new : h ∉ front := by
    intro early
    rw [← front_eq] at early
    simpa using List.mem_takeWhile_imp early
  rw [first]
  constructor
  · intro kept
    have there : h ∈ cut (cut (front ++ [h]) e) x := kept (by simp)
    have second : h ∈ cut (front ++ [h]) e := mem_of_mem_cut there hx
    have eNew : e ∉ front := fun early => notMem_cut early new he second
    have next : cut (front ++ [h]) e = front ++ [h, e] := by
      rw [cut_of_notMem (by simp [eNew, he.symm]), List.append_assoc, List.singleton_append]
    rw [next] at there kept
    have xNew : x ∉ front := fun early => notMem_cut early new hx there
    refine ⟨eNew, xNew, fun n behind => ?_⟩
    rw [cut_of_notMem (by simp [xNew, hx.symm, ex.symm])] at kept
    have apart : n ∉ front := fun early =>
      List.disjoint_of_nodup_append (split ▸ distinct) early behind
    have found := kept (List.mem_append_left _ (split ▸ List.mem_append_right front behind))
    simpa [apart] using found
  · rintro ⟨eNew, xNew, rest⟩
    rw [cut_of_notMem (n := e) (by simp [eNew, he.symm]),
      cut_of_notMem (n := x) (by simp [xNew, hx.symm, ex.symm]), split]
    intro n member
    have cases : n ∈ front ∨ n ∈ [h, e, x] := by
      rcases List.mem_append.mp member with old | added
      · exact (List.mem_append.mp old).imp_right (rest n)
      · exact .inr added
    simpa [or_assoc] using cases

/-- A list that ends, of nodes that were registered. -/
private structure Lists (cmdList : Links (Node User)) (registered l : List (Node User)) : Prop where
  spells : cmdList.Spells l
  few : l.length ≤ registered.length
  known : l ⊆ registered

private theorem Lists.register {cmdList : Links (Node User)} {registered : List (Node User)}
    (lists : Lists cmdList registered l) {turns : Nat} (enough : registered.length ≤ turns)
    (cmd : Node User) : ∃ cmdList', shellRegisterCommand turns cmd cmdList = some cmdList' ∧
      Lists cmdList' (registered ++ [cmd]) (cut l cmd) := by
  obtain ⟨cmdList', done, spells⟩ := lists.spells.append (lists.few.trans enough) cmd
  refine ⟨cmdList', done, spells, ?_, fun n member => ?_⟩
  · rw [List.length_append]
    exact (length_cut_le l cmd).trans (Nat.succ_le_succ lists.few)
  · rcases List.mem_cons.mp (cut_subset l cmd member) with rfl | old
    · exact List.mem_append_right _ List.mem_cons_self
    · exact List.mem_append_left _ (lists.known old)

theorem perform_sound (null : ShellPort) (sound : Sound s l) (call : Call User) : ∃ s' l',
    perform null s call = some s' ∧ Sound s' l' ∧ match call with
      | .register cmd => l' = cut l cmd ∧ s'.registered = s.registered ++ [cmd]
      | .init port _ => if accepts null s.shell.sPort port then
          l' = cut (cut (cut l .helpCmd) .echoCmd) .hexdumpCmd ∧
            s'.registered = s.registered ++ builtIn
        else l' = l ∧ s'.registered = s.registered
      | .deinit => l' = l ∧ s'.registered = s.registered := by
  have lists : Lists s.shell.cmdList s.registered l := ⟨sound.spells, sound.few, sound.known⟩
  have enough : s.registered.length ≤ s.turns := Nat.le_add_right _ 3
  cases call with
  | register cmd =>
    obtain ⟨cmdList, done, after⟩ := lists.register enough cmd
    exact ⟨_, cut l cmd, congrArg (Option.map _) done, ⟨after.spells, after.few, after.known⟩, rfl,
      rfl⟩
  | deinit => exact ⟨_, l, rfl, ⟨sound.spells, sound.few, sound.known⟩, rfl, rfl⟩
  | init port sheelHeadtag =>
    by_cases accepted : accepts null s.shell.sPort port = true
    · have room (added : List (Node User)) (most : added.length ≤ 3) :
          (s.registered ++ added).length ≤ s.turns := by
        rw [List.length_append]
        exact Nat.add_le_add_left most _
      obtain ⟨list₁, done₁, lists₁⟩ := lists.register enough .helpCmd
      obtain ⟨list₂, done₂, lists₂⟩ := lists₁.register (room [_] (Nat.le_add_left 1 2)) .echoCmd
      rw [List.append_assoc] at lists₂
      obtain ⟨list₃, done₃, lists₃⟩ := lists₂.register (room [_, _] (Nat.le_succ 2)) .hexdumpCmd
      rw [List.append_assoc] at lists₃
      have done : perform null s (.init port sheelHeadtag) =
          some ⟨⟨list₃, port⟩, s.registered ++ builtIn⟩ := by
        rw [perform, shellInit, if_pos accepted, done₁]
        dsimp only [bind, Option.bind]
        rw [done₂]
        dsimp only
        rw [done₃]
        rfl
      refine ⟨_, _, done, ⟨lists₃.spells, lists₃.few, lists₃.known⟩, ?_⟩
      dsimp only
      rw [if_pos accepted]
      exact ⟨rfl, rfl⟩
    · have done : perform null s (.init port sheelHeadtag) =
          some ⟨{ s.shell with sPort := none }, s.registered ++ []⟩ := by
        rw [perform, shellInit, if_neg accepted]
        rfl
      rw [List.append_nil] at done
      refine ⟨_, l, done, ⟨sound.spells, sound.few, sound.known⟩, ?_⟩
      dsimp only
      rw [if_neg accepted]
      exact ⟨rfl, rfl⟩

/-- One call loses no command exactly if it is a keeping one. -/
theorem complete_perform_iff (sound : Sound s l) (all : s.registered ⊆ l) (call : Call User) :
    (∃ s', perform null s call = some s' ∧ ∃ l', Complete users s' l') ↔ Keeping null s call := by
  obtain ⟨s', l', done, sound', change⟩ := perform_sound null sound call
  have same (n : Node User) : n ∈ s.registered ↔ n ∈ l := ⟨fun h => all h, fun h => sound.known h⟩
  have subset (added : List (Node User)) (goal : List (Node User)) :
      s.registered ++ added ⊆ goal ↔ l ++ added ⊆ goal := by
    constructor
    · exact fun kept n member => kept (by simpa [same] using member)
    · exact fun kept n member => kept (by simpa [same] using member)
  have reduce : (∃ s', perform null s call = some s' ∧ ∃ l', Complete users s' l') ↔
      s'.registered ⊆ l' := by
    have known : (∃ l'', Complete users s' l'') ↔ s'.registered ⊆ l' := registered_subset_iff sound'
    rw [done, ← known]
    constructor
    · rintro ⟨s'', again, complete⟩
      rw [Option.some.inj again]
      exact complete
    · exact fun complete => ⟨s', rfl, complete⟩
  rw [reduce]
  cases call with
  | register cmd =>
    obtain ⟨rfl, registered⟩ := change
    rw [registered, subset, Keeping, sound.commands_eq, ← subset_cut_iff sound.spells.nodup]
    constructor
    · exact fun kept => (List.append_subset.mp kept).1
    · intro kept
      refine List.append_subset.mpr ⟨kept, fun n member => ?_⟩
      rw [List.mem_singleton.mp member]
      exact mem_cut l cmd
  | deinit =>
    obtain ⟨rfl, registered⟩ := change
    rw [registered]
    exact iff_of_true all trivial
  | init port sheelHeadtag =>
    by_cases accepted : accepts null s.shell.sPort port = true
    · dsimp only at change
      rw [if_pos accepted] at change
      obtain ⟨rfl, registered⟩ := change
      rw [registered, subset, Keeping, sound.commands_eq]
      rw [builtIn, subset_cut_three sound.spells.nodup (by simp) (by simp) (by simp)]
      exact ⟨fun kept _ => kept, fun kept => kept accepted⟩
    · dsimp only at change
      rw [if_neg accepted] at change
      obtain ⟨rfl, registered⟩ := change
      rw [registered, Keeping]
      exact iff_of_true all fun accepted' => absurd accepted' accepted

theorem Sound.perform {s' : Ledger User} (sound : ∃ l, Sound s l)
    (done : perform null s call = some s') : ∃ l, Sound s' l := by
  obtain ⟨l, sound⟩ := sound
  obtain ⟨s'', l', done', sound', -⟩ := perform_sound null sound call
  rw [done] at done'
  cases done'
  exact ⟨l', sound'⟩

/-- In every run of calls, the list is complete at every moment if and only if each call is a
keeping one. -/
theorem complete_throughout_iff (users : User → ShellCommand) (null : ShellPort)
    (next : Node User → Option (Node User)) (calls : List (Call User)) :
    Throughout (perform null) (fun s => ∃ l, Complete users s l) (.initial next) calls ↔
      Along (perform null) (Keeping null) (.initial next) calls := by
  refine throughout_iff_along (fun s => ∃ l, Sound s l) Sound.perform ?_ ⟨[], sound_initial next⟩ ?_
  · rintro s call ⟨l, sound⟩ complete
    exact complete_perform_iff sound ((registered_subset_iff sound).mp complete) call
  · exact ⟨[], (complete_iff (sound_initial next).spells).mpr (List.nil_subset _)⟩

end Keeping

end Registration

theorem noNul_memfree : 0 ∉ cstr "memfree" := by decide

theorem noNul_clkdump : 0 ∉ cstr "clkdump" := by decide

/-- Two commands that a user registers. -/
def memfreeClkdump : Bool → ShellCommand
  | false => ⟨cstr "memfree", cstr "show memheap info", noNul_memfree⟩
  | true => ⟨cstr "clkdump", cstr "show clk info", noNul_clkdump⟩

/-- `memfree`, `clkdump`, and `memfree` once more. -/
def memfreeTwice : List (Call Bool) :=
  [.register (.user false), .register (.user true), .register (.user false)]

/-- `shell_init`, `memfree`, and `shell_init` once more. -/
def initTwice : List (Call Bool) :=
  [.init (some ⟨true, true⟩) none, .register (.user false), .init (some ⟨true, true⟩) none]

/-- The repeated call takes the command registered last out of the list, and its name is unknown. -/
theorem repeated_call_loses_command :
    (¬ Throughout (perform ⟨true, true⟩) (fun s => ∃ l, Complete memfreeClkdump s l)
      (.initial fun _ => none) memfreeTwice) ∧
    (∃ s, run (perform ⟨true, true⟩) (.initial fun _ => none) memfreeTwice = some s ∧
      s.commands = [.user false] ∧
      shellHandleCommand memfreeClkdump s.turns s.shell.cmdList (cstr "clkdump") =
        some (.unknown (cstr "clkdump"))) ∧
    ∃ s, run (perform ⟨true, true⟩) (.initial fun _ => none) initTwice = some s ∧
      s.commands = [.helpCmd, .echoCmd, .hexdumpCmd] ∧
      shellHandleCommand memfreeClkdump s.turns s.shell.cmdList (cstr "memfree") =
        some (.unknown (cstr "memfree")) := by
  refine ⟨fun throughout => ?_, ⟨_, rfl, by decide, by decide⟩, ⟨_, rfl, by decide, by decide⟩⟩
  obtain ⟨s, reached, complete⟩ := throughout 3
  obtain ⟨l, sound⟩ := run_invariant (fun s => ∃ l, Sound s l) Sound.perform
    ⟨[], sound_initial fun _ => none⟩ reached
  have all := (registered_subset_iff sound).mp complete
  rw [← sound.commands_eq] at all
  cases reached
  exact absurd (all (show Node.user true ∈ _ by decide)) (by decide)

end T113Boot.Shell.Commands
