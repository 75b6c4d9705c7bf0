/- Module: T113Boot/Drivers/FalseSuccess
   layer: results
   digest: When an SD command that is completed without an error has succeeded. -/

import T113Boot.Drivers.Completion
import T113Boot.Drivers.SmhcInterrupts

set_option autoImplicit false
set_option relaxedAutoImplicit false

namespace T113Boot.Drivers.FalseSuccess

open T113Boot.Lib.Stoppable
open Prog
open T113Boot.Drivers.Smhc
open T113Boot.Drivers.Completion
open T113Boot.Drivers.SmhcInterrupts

def errorBitsMask : UInt32 := 0xbfc2

private theorem or_and_eq_zero (a b m : UInt32) :
    (a ||| b) &&& m = 0 ↔ a &&& m = 0 ∧ b &&& m = 0 := by
  have distrib : (a ||| b) &&& m = (a &&& m) ||| (b &&& m) :=
    UInt32.toBitVec_inj.mp BitVec.and_or_distrib_right
  rw [distrib, UInt32.or_eq_zero_iff]

theorem handled_risr (data : Option MmcsdData) (irqs : List Irq) (shared : Shared) (m : UInt32) :
    (irqs.foldl (smhcInterruptHandle data) shared).risr &&& m = 0 ↔
      shared.risr &&& m = 0 ∧ ∀ irq ∈ irqs, irq.risr &&& m = 0 := by
  induction irqs generalizing shared with
  | nil => exact ⟨fun clear => ⟨clear, fun _ none => absurd none List.not_mem_nil⟩, And.left⟩
  | cons irq irqs ih =>
    rw [List.foldl_cons, ih, smhcInterruptHandle, or_and_eq_zero, List.forall_mem_cons, and_assoc]

/-- The interrupt reads that the data has been transferred, or there is none. -/
def Done (data : Option MmcsdData) (irq : Irq) : Prop :=
  ∀ d ∈ data, (irq.risr ||| irq.again) &&& doneBit d ≠ 0

private theorem releases_iff (data : Option MmcsdData) (risr : UInt32) (irq : Irq) :
    releases data risr irq = true ↔ ∀ d ∈ data, ¬ (risr ||| irq.again) &&& doneBit d = 0 := by
  cases data with
  | none => exact iff_of_true rfl fun _ none => by cases none
  | some d => simp [releases]

theorem handled_sem (data : Option MmcsdData) (irqs : List Irq) (shared : Shared)
    (held : shared.sem = 0 → ∀ d ∈ data, shared.risr &&& doneBit d = 0) :
    0 < (irqs.foldl (smhcInterruptHandle data) shared).sem ↔
      0 < shared.sem ∨ ∃ irq ∈ irqs, Done data irq := by
  induction irqs generalizing shared with
  | nil => simp
  | cons irq irqs ih =>
    rw [List.foldl_cons]
    by_cases counted : 0 < shared.sem
    · have kept : 0 < (smhcInterruptHandle data shared irq).sem := by
        simp only [smhcInterruptHandle]
        split <;> omega
      rw [ih _ fun zero => absurd zero (Nat.ne_of_gt kept)]
      exact iff_of_true (.inl kept) (.inl counted)
    · have clear := held (by omega)
      have released : releases data (shared.risr ||| irq.risr) irq = true ↔ Done data irq := by
        rw [releases_iff]
        refine forall₂_congr fun d is => not_congr ?_
        rw [or_and_eq_zero, or_and_eq_zero, or_and_eq_zero, and_iff_right (clear d is)]
      by_cases done : Done data irq
      · have counts : 0 < (smhcInterruptHandle data shared irq).sem := by
          have room : shared.sem < rtSemValueMax := by
            unfold rtSemValueMax
            omega
          simp only [smhcInterruptHandle]
          rw [if_pos ⟨released.mpr done, room⟩]
          exact Nat.succ_pos _
        rw [ih _ fun zero => absurd zero (Nat.ne_of_gt counts)]
        exact iff_of_true (.inl counts) (.inr ⟨irq, List.mem_cons_self, done⟩)
      · have quiet : ¬ releases data (shared.risr ||| irq.risr) irq = true :=
          fun is => done (released.mp is)
        have same : (smhcInterruptHandle data shared irq).sem = shared.sem := by
          simp only [smhcInterruptHandle]
          exact if_neg fun is => quiet is.1
        rw [ih, same, List.exists_mem_cons_iff, or_iff_right done]
        intro _ d is
        rw [releases_iff] at quiet
        push Not at quiet
        obtain ⟨d', is', unset⟩ := quiet
        obtain rfl := Option.mem_unique is is'
        exact ((or_and_eq_zero _ _ _).mp unset).1

/-- The words that the driver put into the FIFO, and those that it took out. -/
def fifoWritten (acts : List Act) : List UInt32 :=
  acts.filterMap fun a => match a with
    | .writel .fifo v => some v
    | _ => none

def fifoRead (acts : List Act) : List UInt32 :=
  acts.filterMap fun a => match a with
    | .readl .fifo v => some v
    | _ => none

/-- The accesses to the FIFO, the readings of the raw status and the completion. -/
def isMark : Act → Bool
  | .readl .fifo _ => true
  | .writel .fifo _ => true
  | .readl .rintsts _ => true
  | .complete _ => true
  | _ => false

def marks (acts : List Act) : List Act := acts.filter isMark

theorem marks_append (acts acts' : List Act) : marks (acts ++ acts') = marks acts ++ marks acts' :=
  List.filter_append ..

private theorem filterMap_marks {p : Act → Option UInt32} (marked : ∀ a v, p a = some v → isMark a)
    (acts : List Act) : acts.filterMap p = (marks acts).filterMap p := by
  rw [marks, List.filterMap_filter]
  refine List.filterMap_congr fun a _ => ?_
  rcases found : p a with _ | v
  · simp
  · rw [if_pos (marked a v found)]

theorem fifoWritten_marks (acts : List Act) : fifoWritten acts = fifoWritten (marks acts) := by
  refine filterMap_marks (fun a v found => ?_) acts
  split at found
  · rfl
  · cases found

theorem fifoRead_marks (acts : List Act) : fifoRead acts = fifoRead (marks acts) := by
  refine filterMap_marks (fun a v found => ?_) acts
  split at found
  · rfl
  · cases found

/-- Nothing that counts was done in between. -/
structure Silent (s t : SmhcDev) : Prop where
  marks : marks t.acts = marks s.acts
  err : t.cmd.err = s.cmd.err
  xfe : t.xfe = s.xfe
  takes : t.takes = s.takes
  risrs : t.risrs = s.risrs

namespace Silent

theorem refl (s : SmhcDev) : Silent s s := ⟨rfl, rfl, rfl, rfl, rfl⟩

theorem trans {s t u : SmhcDev} (first : Silent s t) (later : Silent t u) : Silent s u :=
  ⟨later.marks.trans first.marks, later.err.trans first.err, later.xfe.trans first.xfe,
    later.takes.trans first.takes, later.risrs.trans first.risrs⟩

theorem of_returns {α : Type} {x : SmhcM α} (silent : Keeps Silent x) {s s' : SmhcDev} {a : α}
    (run : x s = (some a, s')) : Silent s s' := by
  have kept := silent s
  rw [run] at kept
  exact kept

end Silent

section Silent

variable {α β : Type}

theorem silent_bind {x : SmhcM α} {f : α → SmhcM β} (hx : Keeps Silent x)
    (hf : ∀ a, Keeps Silent (f a)) : Keeps Silent (x >>= f) :=
  keeps_bind (R := Silent) (fun _ _ _ first later => first.trans later) hx hf

private theorem marks_plain (acts : List Act) {a : Act} (plain : isMark a = false) :
    marks (acts ++ [a]) = marks acts := by
  rw [marks_append, marks, marks, List.filter_singleton, plain]
  exact List.append_nil _

theorem silent_readl {reg : Reg} (plain : ∀ v, isMark (.readl reg v) = false) :
    Keeps Silent (readl reg) := by
  intro s
  unfold readl
  split
  · exact Silent.refl s
  · rename_i v rest _
    exact ⟨marks_plain s.acts (plain v), rfl, rfl, rfl, rfl⟩

theorem silent_writel {value : UInt32} {reg : Reg} (plain : isMark (.writel reg value) = false) :
    Keeps Silent (writel value reg) :=
  fun s => ⟨marks_plain s.acts plain, rfl, rfl, rfl, rfl⟩

theorem silent_update {reg : Reg} (change : UInt32 → UInt32)
    (read : ∀ v, isMark (.readl reg v) = false) (written : ∀ v, isMark (.writel reg v) = false) :
    Keeps Silent (update reg change) :=
  keeps_update (R := Silent) (fun _ _ _ => Silent.trans) (silent_readl read)
    (fun _ => silent_writel (written _)) change

theorem silent_waitClear {reg : Reg} (plain : ∀ v, isMark (.readl reg v) = false) (mask : UInt32)
    (n : Nat) : Keeps Silent (waitClear reg mask n) :=
  keeps_waitClear Silent.refl (fun _ _ _ => Silent.trans) (silent_readl plain) mask n

theorem silent_checkBusy (timeout : Nat) (status : UInt32) :
    Keeps Silent (checkBusy timeout status) :=
  keeps_checkBusy Silent.refl (fun _ _ _ => Silent.trans) (silent_readl fun _ => rfl) timeout status

theorem silent_readResp (cmd : MmcsdCmd) : Keeps Silent (readResp cmd) := by
  refine keeps_readResp (R := Silent) (fun _ _ _ => Silent.trans) (fun reg resp => ?_)
    (fun _ _ _ => ⟨rfl, rfl, rfl, rfl, rfl⟩) cmd
  simp only [List.mem_cons, List.not_mem_nil, or_false] at resp
  rcases resp with rfl | rfl | rfl | rfl
  all_goals exact silent_readl fun _ => rfl

end Silent

/-- Reading number `j` is the first one in which the bits of the mask are clear. -/
def FirstClear (mask : UInt32) (reads : List UInt32) (j : Nat) : Prop :=
  (∀ v ∈ reads.take j, v &&& mask ≠ 0) ∧ ∃ v, reads[j]? = some v ∧ v &&& mask = 0

/-- Before each of `n` words one of 1999999 readings finds the bit of the FIFO clear. Behind each of
them come as many readings as the word itself takes. -/
def FifoReady (mask : UInt32) (extra : Nat) : Nat → List UInt32 → Prop
  | 0, _ => True
  | n + 1, reads => ∃ j < 1999999, FirstClear mask reads j ∧
      FifoReady mask extra n (reads.drop (j + 1 + extra))

theorem FirstClear.unique {mask : UInt32} {reads : List UInt32} {i j : Nat}
    (hi : FirstClear mask reads i) (hj : FirstClear mask reads j) : i = j := by
  have le {i j : Nat} (hi : FirstClear mask reads i) (hj : FirstClear mask reads j) : i ≤ j := by
    by_contra before
    obtain ⟨v, there, clear⟩ := hj.2
    refine hi.1 v (List.mem_of_getElem? (i := j) ?_) clear
    rw [List.getElem?_take_of_lt (by omega)]
    exact there
  exact Nat.le_antisymm (le hi hj) (le hj hi)

private theorem firstClear_zero {mask v : UInt32} (rest : List UInt32) (clear : v &&& mask = 0) :
    FirstClear mask (v :: rest) 0 :=
  ⟨fun _ none => absurd none List.not_mem_nil, v, rfl, clear⟩

private theorem firstClear_succ {mask v : UInt32} {rest : List UInt32} {j : Nat}
    (set : v &&& mask ≠ 0) : FirstClear mask (v :: rest) (j + 1) ↔ FirstClear mask rest j := by
  unfold FirstClear
  rw [List.take_succ_cons, List.forall_mem_cons, and_iff_right set, List.getElem?_cons_succ]

theorem waitClear_returns {reg : Reg} {mask : UInt32} {n : Nat} {s s' : SmhcDev} {ready : Bool}
    (run : waitClear reg mask n s = (some ready, s')) :
    ready = true ∧ (∃ j < n, FirstClear mask s.reads j ∧ s'.reads = s.reads.drop (j + 1)) ∨
      ready = false ∧ ∀ j < n, ¬ FirstClear mask s.reads j := by
  induction n generalizing s with
  | zero =>
    obtain ⟨same, -⟩ := Prod.mk.inj run
    exact .inr ⟨(Option.some.inj same).symm, fun j inside => absurd inside (Nat.not_lt_zero j)⟩
  | succ n ih =>
    rw [waitClear] at run
    obtain ⟨v, t, looked, run⟩ := bind_returns.mp run
    obtain ⟨rest, reads, rfl⟩ := readl_returns looked
    rw [reads]
    by_cases set : v &&& mask ≠ 0
    · rw [if_pos set] at run
      rcases ih run with ⟨found, j, inside, first, left⟩ | ⟨given, never⟩
      · refine .inl ⟨found, j + 1, Nat.succ_lt_succ inside, (firstClear_succ set).mpr first, ?_⟩
        rw [left, List.drop_succ_cons]
      · refine .inr ⟨given, fun j inside first => ?_⟩
        cases j with
        | zero =>
          obtain ⟨w, there, clear⟩ := first.2
          obtain rfl := Option.some.inj there
          exact set clear
        | succ j => exact never j (Nat.lt_of_succ_lt_succ inside) ((firstClear_succ set).mp first)
    · rw [if_neg set] at run
      obtain ⟨same, rfl⟩ := Prod.mk.inj run
      refine .inl ⟨(Option.some.inj same).symm, 0, Nat.succ_pos n, ?_, rfl⟩
      exact firstClear_zero rest (not_not.mp set)

/-- A step that moves word `i`: it leaves one mark, takes so many readings, and changes nothing that
other marks show. -/
structure MovesWord (word : Nat → SmhcM Unit) (extra : Nat) (mark : Nat → SdmmcXfeDes → Act) :
    Prop where
  marks {i : Nat} {s s' : SmhcDev} : word i s = (some (), s') →
    marks s'.acts = marks s.acts ++ [mark i s'.xfe]
  reads {i : Nat} {s s' : SmhcDev} : word i s = (some (), s') → s'.reads = s.reads.drop extra
  others {i : Nat} {s s' : SmhcDev} : word i s = (some (), s') →
    ∀ j ≠ i, mark j s'.xfe = mark j s.xfe
  rest {i : Nat} {s s' : SmhcDev} : word i s = (some (), s') →
    s'.cmd.err = s.cmd.err ∧ s'.takes = s.takes ∧ s'.risrs = s.risrs

theorem transWords_returns {word : Nat → SmhcM Unit} {extra : Nat}
    {mark : Nat → SdmmcXfeDes → Act} (moves : MovesWord word extra mark) {mask : UInt32} {i n : Nat}
    {s s' : SmhcDev} {ret : Int} (run : transWords word mask i n s = (some ret, s')) :
    (∃ m ≤ n, marks s'.acts = marks s.acts ++ (List.range' i m).map (mark · s'.xfe) ∧
        (m = n ↔ FifoReady mask extra n s.reads)) ∧
      (∀ j < i, mark j s'.xfe = mark j s.xfe) ∧
      s'.cmd.err = s.cmd.err ∧ s'.takes = s.takes ∧ s'.risrs = s.risrs := by
  induction n generalizing i s with
  | zero =>
    obtain ⟨-, rfl⟩ := Prod.mk.inj run
    exact ⟨⟨0, Nat.le_refl 0, by simp, iff_of_true rfl trivial⟩, fun _ _ => rfl, rfl, rfl, rfl⟩
  | succ n ih =>
    rw [transWords] at run
    obtain ⟨ready, t, waited, run⟩ := bind_returns.mp run
    have silent := Silent.of_returns (silent_waitClear (fun _ => rfl) mask 1999999) waited
    rcases waitClear_returns waited with ⟨rfl, j, inside, first, left⟩ | ⟨rfl, never⟩
    · rw [if_neg (by decide)] at run
      obtain ⟨_, u, moved, run⟩ := bind_returns.mp run
      obtain ⟨⟨m, short, later, all⟩, before, err, takes, risrs⟩ := ih run
      obtain ⟨err', takes', risrs'⟩ := moves.rest moved
      refine ⟨⟨m + 1, Nat.succ_le_succ short, ?_, ?_⟩, ?_, ?_, ?_, ?_⟩
      · rw [later, moves.marks moved, silent.marks, ← before i (Nat.lt_succ_self i),
          List.range'_succ, List.map_cons, List.append_assoc, List.singleton_append]
      · rw [moves.reads moved, left, List.drop_drop] at all
        rw [Nat.add_right_cancel_iff, all]
        constructor
        · exact fun rest => ⟨j, inside, first, rest⟩
        · rintro ⟨j', -, first', rest⟩
          obtain rfl := first.unique first'
          exact rest
      · intro k below
        rw [before k (Nat.lt_succ_of_lt below), moves.others moved k (Nat.ne_of_lt below),
          silent.xfe]
      · rw [err, err', silent.err]
      · rw [takes, takes', silent.takes]
      · rw [risrs, risrs', silent.risrs]
    · rw [if_pos rfl] at run
      obtain ⟨_, u, logged, run⟩ := bind_returns.mp run
      have silent := silent.trans (Silent.of_returns (silent_readl fun _ => rfl) logged)
      obtain ⟨-, rfl⟩ := Prod.mk.inj run
      refine ⟨⟨0, Nat.zero_le _, ?_, ?_⟩, ?_, silent.err, silent.takes, silent.risrs⟩
      · rw [silent.marks]
        simp
      · refine iff_of_false (Nat.succ_ne_zero n).symm ?_
        rintro ⟨j, inside, first, -⟩
        exact never j inside first
      · intro k _
        rw [silent.xfe]

theorem movesWord_write (buff : Nat → UInt32) :
    MovesWord (fun i => writel (buff i) .fifo) 0 fun i _ => .writel .fifo (buff i) where
  marks moved := by
    cases moved
    exact marks_append _ _
  reads moved := by
    cases moved
    rfl
  others _ _ _ := rfl
  rest moved := by
    cases moved
    exact ⟨rfl, rfl, rfl⟩

theorem movesWord_read :
    MovesWord (fun i => readl .fifo >>= fun v => modify fun s =>
        { s with xfe := { s.xfe with buff := fun j => if j = i then v else s.xfe.buff j } })
      1 fun i xfe => .readl .fifo (xfe.buff i) where
  marks moved := by
    obtain ⟨v, t, looked, stored⟩ := bind_returns.mp moved
    obtain ⟨rest, -, rfl⟩ := readl_returns looked
    cases stored
    simp only [if_true]
    exact marks_append _ _
  reads moved := by
    obtain ⟨v, t, looked, stored⟩ := bind_returns.mp moved
    obtain ⟨rest, reads, rfl⟩ := readl_returns looked
    cases stored
    rw [reads]
    rfl
  others moved j other := by
    obtain ⟨v, t, looked, stored⟩ := bind_returns.mp moved
    obtain ⟨rest, -, rfl⟩ := readl_returns looked
    cases stored
    simp only [if_neg other]
  rest moved := by
    obtain ⟨v, t, looked, stored⟩ := bind_returns.mp moved
    obtain ⟨rest, -, rfl⟩ := readl_returns looked
    cases stored
    exact ⟨rfl, rfl, rfl⟩

/-- What moving a word of the transfer `xfe` leaves, with its word as the device has it then. -/
def wordMark (xfe : SdmmcXfeDes) (i : Nat) (later : SdmmcXfeDes) : Act :=
  if xfe.flag = mmcDataWrite then .writel .fifo (xfe.buff i) else .readl .fifo (later.buff i)

/-- The readings that the words of a transfer wait for. -/
def WordsReady (xfe : SdmmcXfeDes) (n : Nat) (reads : List UInt32) : Prop :=
  if xfe.flag = mmcDataWrite then FifoReady (bit 3) 0 n reads else FifoReady (bit 2) 1 n reads

theorem sdmmcTransData_returns {xfe : SdmmcXfeDes} {s s' : SmhcDev} {ret : Int}
    (run : sdmmcTransData xfe s = (some ret, s')) :
    (∃ m ≤ (xfe.size * xfe.num).toNat >>> 2,
        marks s'.acts = marks s.acts ++ (List.range m).map (wordMark xfe · s'.xfe) ∧
        (m = (xfe.size * xfe.num).toNat >>> 2 ↔
          WordsReady xfe ((xfe.size * xfe.num).toNat >>> 2) s.reads)) ∧
      s'.cmd.err = s.cmd.err ∧ s'.takes = s.takes ∧ s'.risrs = s.risrs := by
  unfold sdmmcTransData at run
  unfold WordsReady wordMark
  simp only [List.range_eq_range']
  by_cases write : xfe.flag = mmcDataWrite
  · rw [if_pos write] at run
    obtain ⟨moved, -, rest⟩ := transWords_returns (movesWord_write xfe.buff) run
    simp only [if_pos write]
    exact ⟨moved, rest⟩
  · rw [if_neg write] at run
    obtain ⟨moved, -, rest⟩ := transWords_returns movesWord_read run
    simp only [if_neg write]
    exact ⟨moved, rest⟩

/-- What starting a command has done. -/
structure Started (cmd : MmcsdCmd) (s s' : SmhcDev) : Prop where
  bare : cmd.data = none → marks s'.acts = marks s.acts
  words (d : MmcsdData) : cmd.data = some d → ∃ m ≤ (s.xfe.size * s.xfe.num).toNat >>> 2,
    marks s'.acts = marks s.acts ++ (List.range m).map (wordMark s.xfe · s'.xfe) ∧
      (m = (s.xfe.size * s.xfe.num).toNat >>> 2 ↔
        WordsReady s.xfe ((s.xfe.size * s.xfe.num).toNat >>> 2) (s.reads.drop 1))
  err : s'.cmd.err = s.cmd.err
  takes : s'.takes = s.takes
  risrs : s'.risrs = s.risrs

theorem update_reads {reg : Reg} {change : UInt32 → UInt32} {s s' : SmhcDev}
    (run : update reg change s = (some (), s')) : s'.reads = s.reads.drop 1 := by
  obtain ⟨v, t, looked, run⟩ := bind_returns.mp run
  obtain ⟨rest, reads, rfl⟩ := readl_returns looked
  cases run
  rw [reads]
  rfl

theorem startCmd_returns {cmd : MmcsdCmd} {s s' : SmhcDev}
    (run : startCmd cmd s = (some (), s')) : Started cmd s s' := by
  unfold startCmd at run
  rcases data : cmd.data with _ | d
  · rw [data] at run
    have silent : Silent s s' := by
      refine Silent.of_returns ?_ run
      refine silent_bind (silent_writel rfl) fun _ => silent_bind (silent_writel rfl) fun _ => ?_
      exact silent_update _ (fun _ => rfl) fun _ => rfl
    exact ⟨fun _ => silent.marks, fun d is => (by rw [data] at is; cases is), silent.err,
      silent.takes, silent.risrs⟩
  · rw [data] at run
    obtain ⟨_, t₁, sized, run⟩ := bind_returns.mp run
    obtain ⟨_, t₂, counted, run⟩ := bind_returns.mp run
    obtain ⟨_, t₃, argued, run⟩ := bind_returns.mp run
    obtain ⟨_, t₄, reset, run⟩ := bind_returns.mp run
    obtain ⟨_, t₅, started, run⟩ := bind_returns.mp run
    obtain ⟨t, t₆, looked, run⟩ := bind_returns.mp run
    obtain ⟨ret, t₇, moved, masked⟩ := bind_returns.mp run
    have silent : Silent s t₅ := by
      have first := Silent.of_returns (silent_writel rfl) sized
      have second := Silent.of_returns (silent_writel rfl) counted
      have third := Silent.of_returns (silent_writel rfl) argued
      have fourth := Silent.of_returns (silent_update _ (fun _ => rfl) fun _ => rfl) reset
      have fifth := Silent.of_returns (silent_writel rfl) started
      exact (((first.trans second).trans third).trans fourth).trans fifth
    have reads : t₅.reads = s.reads.drop 1 := by
      have left := update_reads reset
      cases sized
      cases counted
      cases argued
      cases started
      exact left
    cases looked
    obtain ⟨⟨m, short, marked, all⟩, err, takes, risrs⟩ := sdmmcTransData_returns moved
    have last : Silent t₇ s' := by
      refine Silent.of_returns (keeps_ite ?_ ?_) masked
      · exact silent_update _ (fun _ => rfl) fun _ => rfl
      · exact silent_update _ (fun _ => rfl) fun _ => rfl
    rw [silent.xfe] at short marked all
    rw [reads] at all
    refine ⟨fun is => (by rw [data] at is; cases is), fun _ _ => ⟨m, short, ?_, all⟩, ?_, ?_, ?_⟩
    · rw [last.marks, last.xfe, marked, silent.marks]
    · rw [last.err, err, silent.err]
    · rw [last.takes, takes, silent.takes]
    · rw [last.risrs, risrs, silent.risrs]

/-! What is done stays done. -/

def Grows (s t : SmhcDev) : Prop := ∀ a ∈ s.acts, a ∈ t.acts

namespace Grows

theorem refl (s : SmhcDev) : Grows s s := fun _ is => is

theorem trans (s t u : SmhcDev) (first : Grows s t) (later : Grows t u) : Grows s u :=
  fun a is => later a (first a is)

end Grows

section Grows

variable {α β : Type}

theorem grows_pure (a : α) : Keeps Grows (pure a : SmhcM α) := keeps_pure Grows.refl a

theorem grows_bind {x : SmhcM α} {f : α → SmhcM β} (hx : Keeps Grows x)
    (hf : ∀ a, Keeps Grows (f a)) : Keeps Grows (x >>= f) := keeps_bind Grows.trans hx hf

theorem grows_readl (reg : Reg) : Keeps Grows (readl reg) := by
  intro s a is
  unfold readl
  split
  · exact is
  · exact List.mem_append_left _ is

theorem grows_writel (value : UInt32) (reg : Reg) : Keeps Grows (writel value reg) :=
  fun _ _ is => List.mem_append_left _ is

theorem grows_update (reg : Reg) (change : UInt32 → UInt32) : Keeps Grows (update reg change) :=
  keeps_update Grows.trans (grows_readl reg) (grows_writel · reg) change

theorem grows_waitForever (reg : Reg) (mask : UInt32) : Keeps Grows (waitForever reg mask) := by
  intro s a is
  unfold waitForever
  dsimp only
  split
  · exact List.mem_append_left _ is
  · exact List.mem_append_left _ is

theorem grows_recover (cmd : MmcsdCmd) : Keeps Grows (recover cmd) :=
  keeps_recover Grows.refl Grows.trans grows_readl grows_writel (grows_waitForever _ _)
    (fun _ _ _ is => is) cmd

theorem grows_complete (err : UInt32) : Keeps Grows (complete err) := by
  refine grows_bind (grows_update _ _) fun _ => grows_bind (grows_update _ _) fun _ => ?_
  refine grows_bind (grows_writel _ _) fun _ => grows_bind (grows_update _ _) fun _ => ?_
  refine grows_bind (fun s a is => ?_) fun _ => grows_bind (fun s a is => ?_) fun _ => grows_pure _
  · unfold drainSem
    split
    · exact is
    · exact is
  · exact List.mem_append_left _ is

theorem grows_out (cmd : MmcsdCmd) (err : UInt32) : Keeps Grows (out cmd err) :=
  keeps_ite (grows_bind (grows_recover cmd) fun _ => grows_complete err) (grows_complete err)

theorem grows_readResp (cmd : MmcsdCmd) : Keeps Grows (readResp cmd) :=
  keeps_readResp Grows.trans (fun reg _ => grows_readl reg) (fun _ _ _ _ is => is) cmd

end Grows

theorem complete_marks {err : UInt32} {s s' : SmhcDev} {ret : Int}
    (run : complete err s = (some ret, s')) :
    marks s'.acts = marks s.acts ++ [.complete s.cmd.err] ∧ s'.xfe = s.xfe := by
  unfold complete at run
  obtain ⟨_, t₁, cleared, run⟩ := bind_returns.mp run
  obtain ⟨_, t₂, masked, run⟩ := bind_returns.mp run
  obtain ⟨_, t₃, wiped, run⟩ := bind_returns.mp run
  obtain ⟨_, t₄, enabled, run⟩ := bind_returns.mp run
  obtain ⟨_, t₅, drained, run⟩ := bind_returns.mp run
  obtain ⟨_, t₆, completed, run⟩ := bind_returns.mp run
  have first := Silent.of_returns (silent_update _ (fun _ => rfl) fun _ => rfl) cleared
  have second := Silent.of_returns (silent_update _ (fun _ => rfl) fun _ => rfl) masked
  have third := Silent.of_returns (silent_writel rfl) wiped
  have fourth := Silent.of_returns (silent_update _ (fun _ => rfl) fun _ => rfl) enabled
  have silent := ((first.trans second).trans third).trans fourth
  have kept : t₅.acts = t₄.acts ∧ t₅.cmd = t₄.cmd ∧ t₅.xfe = t₄.xfe := by
    unfold drainSem at drained
    split at drained
    · cases drained
    · cases drained
      exact ⟨rfl, rfl, rfl⟩
  obtain ⟨-, rfl⟩ := Prod.mk.inj run
  obtain ⟨-, rfl⟩ := Prod.mk.inj completed
  refine ⟨?_, kept.2.2.trans silent.xfe⟩
  show marks (t₅.acts ++ [.complete t₅.cmd.err]) = _
  rw [marks_append, kept.1, kept.2.1, silent.marks, silent.err]
  rfl

theorem errorBits_returns {s s' : SmhcDev} {err : UInt32} (run : errorBits s = (some err, s')) :
    ∃ v risr rest, s.risrs = risr :: rest ∧ err = (v ||| risr) &&& errorBitsMask ∧
      s'.acts = s.acts ++ [.readl .rintsts v] ∧ s'.cmd = s.cmd ∧ s'.xfe = s.xfe := by
  unfold errorBits at run
  obtain ⟨v, t, looked, run⟩ := bind_returns.mp run
  obtain ⟨_, -, rfl⟩ := readl_returns looked
  obtain ⟨risr, u, found, run⟩ := bind_returns.mp run
  obtain ⟨same, rfl⟩ := Prod.mk.inj run
  unfold flagRisr at found
  split at found
  · cases found
  · rename_i w rest risrs
    cases found
    exact ⟨v, risr, rest, risrs, (Option.some.inj same).symm, rfl, rfl, rfl⟩

theorem sendStarted_course {cmd : MmcsdCmd} {s s' : SmhcDev} {ret : Int}
    (run : sendStarted cmd s = (some ret, s')) :
    ∃ t v risr rest e, Started cmd s t ∧ s.risrs = risr :: rest ∧
      Act.readl .rintsts v ∈ s'.acts ∧ completions s'.acts = completions s.acts ++ [e] ∧
      (e = 0 ↔ s.cmd.err = 0 ∧ (v ||| risr) &&& errorBitsMask = 0) ∧
      ((v ||| risr) &&& errorBitsMask = 0 →
        marks s'.acts = marks t.acts ++ [.readl .rintsts v, .complete e] ∧ s'.xfe = t.xfe) := by
  unfold sendStarted at run
  obtain ⟨_, t, starts, run⟩ := bind_returns.mp run
  obtain ⟨_, t₂, enabled, run⟩ := bind_returns.mp run
  obtain ⟨taken, t₃, took, run⟩ := bind_returns.mp run
  obtain ⟨err, t₄, looks, run⟩ := bind_returns.mp run
  have started := startCmd_returns starts
  have silent := Silent.of_returns (silent_update _ (fun _ => rfl) fun _ => rfl) enabled
  have kept : t₃.acts = t₂.acts ∧ t₃.cmd = t₂.cmd ∧ t₃.xfe = t₂.xfe ∧ t₃.risrs = t₂.risrs := by
    unfold rtSemTake at took
    split at took
    · cases took
    · cases took
      exact ⟨rfl, rfl, rfl, rfl⟩
  obtain ⟨v, risr, rest, risrs, bits, acts, cmd₄, xfe₄⟩ := errorBits_returns looks
  have same : completions t₄.acts = completions s.acts := by
    have calm₁ := Calm.of_returns (calm_startCmd cmd) starts
    have calm₂ := Calm.of_returns (calm_update _ _) enabled
    have calm₃ := Calm.of_returns calm_semTake took
    have calm₄ := Calm.of_returns calm_errorBits looks
    exact ((calm₁.trans calm₂).trans (calm₃.trans calm₄)).completions
  have errs : t₄.cmd.err = s.cmd.err := by
    rw [cmd₄, kept.2.1, silent.err, started.err]
  have seen : Act.readl .rintsts v ∈ t₄.acts := by
    rw [acts]
    exact List.mem_append_right _ (List.mem_singleton_self _)
  have marked : marks t₄.acts = marks t.acts ++ [.readl .rintsts v] := by
    rw [acts, marks_append, kept.1, silent.marks]
    rfl
  have xfe : t₄.xfe = t.xfe := by
    rw [xfe₄, kept.2.2.1, silent.xfe]
  have given : s.risrs = risr :: rest := by
    rw [← risrs, kept.2.2.2, silent.risrs, started.risrs]
  refine ⟨t, v, risr, rest, ?_⟩
  rw [← bits]
  -- With an error bit the command is completed with an error, from whichever state.
  have failing {u : SmhcDev} (bad : err ≠ 0) (acts : u.acts = t₄.acts)
      (run : out cmd err u = (some ret, s')) :
      Act.readl .rintsts v ∈ s'.acts ∧ ∃ e, completions s'.acts = completions s.acts ++ [e] ∧
        e ≠ 0 := by
    obtain ⟨e, completed, -, noted⟩ := out_returns run
    have grown := grows_out cmd err u
    rw [run] at grown
    exact ⟨grown _ (acts ▸ seen), e, by rw [completed, acts, same], noted bad⟩
  -- Without one it is completed with what the command has.
  have passing {u : SmhcDev} (quiet : Silent t₄ u) (calm : Calm t₄ u) (grown : Grows t₄ u)
      (run : out cmd 0 u = (some ret, s')) :
      Act.readl .rintsts v ∈ s'.acts ∧
        completions s'.acts = completions s.acts ++ [s.cmd.err] ∧
        marks s'.acts = marks t.acts ++ [.readl .rintsts v, .complete s.cmd.err] ∧
        s'.xfe = t.xfe := by
    have later := grows_out cmd 0 u
    rw [run] at later
    rw [out, if_neg (not_not.mpr rfl)] at run
    obtain ⟨completed, -⟩ := complete_returns run
    obtain ⟨left, kept⟩ := complete_marks run
    refine ⟨later _ (grown _ seen), ?_, ?_, by rw [kept, quiet.xfe, xfe]⟩
    · rw [completed, calm.completions, calm.err, same, errs]
    · rw [left, quiet.marks, quiet.err, errs, marked, List.append_assoc]
      rfl
  by_cases bad : err ≠ 0
  · have ends : Act.readl .rintsts v ∈ s'.acts ∧
        ∃ e, completions s'.acts = completions s.acts ++ [e] ∧ e ≠ 0 := by
      by_cases lost : taken = false
      · rw [if_pos lost] at run
        exact failing bad rfl run
      · rw [if_neg lost, if_pos bad] at run
        obtain ⟨_, t₅, noted, run⟩ := bind_returns.mp run
        refine failing bad ?_ run
        cases noted
        rfl
    obtain ⟨there, e, completed, nonzero⟩ := ends
    exact ⟨e, started, given, there, completed,
      iff_of_false nonzero fun is => bad is.2, fun clear => absurd clear bad⟩
  · have ends : Act.readl .rintsts v ∈ s'.acts ∧
        completions s'.acts = completions s.acts ++ [s.cmd.err] ∧
        marks s'.acts = marks t.acts ++ [.readl .rintsts v, .complete s.cmd.err] ∧
        s'.xfe = t.xfe := by
      by_cases lost : taken = false
      · rw [if_pos lost, not_not.mp bad] at run
        exact passing (Silent.refl _) (Calm.refl _) (fun _ is => is) run
      · rw [if_neg lost, if_neg bad] at run
        obtain ⟨_, t₅, answered, run⟩ := bind_returns.mp run
        have grown := grows_readResp cmd t₄
        rw [answered] at grown
        exact passing (Silent.of_returns (silent_readResp cmd) answered)
          (Calm.of_returns (calm_readResp cmd) answered) grown run
    obtain ⟨there, completed, left, kept⟩ := ends
    exact ⟨s.cmd.err, started, given, there, completed,
      (and_iff_left (not_not.mp bad)).symm, fun _ => ⟨left, kept⟩⟩

/-- The readings behind the one that finds the card free and the one of the control register. -/
def transferReads (reads : List UInt32) : List UInt32 :=
  (reads.dropWhile (· &&& bit 9 != 0)).drop 2

theorem checkBusy_reads {timeout : Nat} {status : UInt32} {s s' : SmhcDev}
    (run : checkBusy timeout status s = (some false, s')) :
    s'.reads = ((status :: s.reads).dropWhile (· &&& bit 9 != 0)).tail := by
  have stops {status : UInt32} {s : SmhcDev} (free : status &&& bit 9 = 0) :
      s.reads = ((status :: s.reads).dropWhile (· &&& bit 9 != 0)).tail := by
    rw [List.dropWhile_cons_of_neg (by simp [free]), List.tail_cons]
  induction timeout generalizing status s with
  | zero =>
    rw [checkBusy] at run
    by_cases free : status &&& bit 9 = 0
    · rw [if_pos free] at run
      cases run
      exact stops free
    · rw [if_neg free] at run
      obtain ⟨_, t₁, looked, run⟩ := bind_returns.mp run
      obtain ⟨_, t₂, logged, run⟩ := bind_returns.mp run
      cases run
  | succ timeout ih =>
    rw [checkBusy] at run
    by_cases free : status &&& bit 9 = 0
    · rw [if_pos free] at run
      cases run
      exact stops free
    · rw [if_neg free] at run
      obtain ⟨v, t, looked, run⟩ := bind_returns.mp run
      obtain ⟨rest, reads, rfl⟩ := readl_returns looked
      have skip : (status :: v :: rest).dropWhile (· &&& bit 9 != 0) =
          (v :: rest).dropWhile (· &&& bit 9 != 0) :=
        List.dropWhile_cons_of_pos (by simpa using free)
      rw [ih run, reads, skip]

theorem sdmmcSendCmd_course {cmd : MmcsdCmd} {s s' : SmhcDev} {ret : Int}
    (run : sdmmcSendCmd cmd s = (some ret, s')) :
    completions s'.acts = completions s.acts ∨
      ∃ t, Silent s t ∧ completions t.acts = completions s.acts ∧
        t.reads.drop 1 = transferReads s.reads ∧ sendStarted cmd t = (some ret, s') := by
  obtain ⟨status, t₁, looked, run⟩ := bind_returns.mp run
  obtain ⟨stuck, t₂, checked, run⟩ := bind_returns.mp run
  have first := Silent.of_returns (silent_readl fun _ => rfl) looked
  have second := Silent.of_returns (silent_checkBusy 5000000 status) checked
  have calm := (Calm.of_returns (calm_readl _) looked).trans (checkBusy_returns checked).1
  cases stuck with
  | true =>
    cases run
    exact .inl calm.completions
  | false =>
    refine .inr ⟨t₂, first.trans second, calm.completions, ?_, run⟩
    obtain ⟨rest, reads, rfl⟩ := readl_returns looked
    rw [checkBusy_reads checked, transferReads, reads, ← List.drop_one, List.drop_drop]

/-! A run that stops has completed nothing. -/

def Uncompleted (s t : SmhcDev) : Prop := completions t.acts = completions s.acts

section Uncompleted

variable {α β : Type}

theorem uncompleted_of_calm {x : SmhcM α} (calm : Keeps Calm x) : Keeps Uncompleted x :=
  fun s => (calm s).completions

theorem uncompleted_recover (cmd : MmcsdCmd) : Keeps Uncompleted (recover cmd) :=
  keeps_recover (R := Uncompleted) (fun _ => rfl) (fun _ _ _ first later => later.trans first)
    (fun reg => uncompleted_of_calm (calm_readl reg))
    (fun v reg => uncompleted_of_calm (calm_writel v reg))
    (uncompleted_of_calm (calm_waitForever _ _)) (fun _ _ => rfl) cmd

/-- Where a program stops, nothing has been completed. -/
def StopsUncompleted (x : SmhcM α) : Prop := ∀ s s', x s = (none, s') → Uncompleted s s'

theorem stops_bind {x : SmhcM α} {f : α → SmhcM β} (hx : Keeps Uncompleted x)
    (hf : ∀ a, StopsUncompleted (f a)) : StopsUncompleted (x >>= f) := by
  intro s s' run
  have first := hx s
  rw [bind_apply] at run
  rcases hs : x s with ⟨_ | a, t⟩ <;> rw [hs] at first run
  · cases run
    exact first
  · exact (hf a t s' run).trans first

theorem stops_complete (err : UInt32) : StopsUncompleted (complete err) := by
  refine stops_bind (uncompleted_of_calm (calm_update _ _)) fun _ => ?_
  refine stops_bind (uncompleted_of_calm (calm_update _ _)) fun _ => ?_
  refine stops_bind (uncompleted_of_calm (calm_writel _ _)) fun _ => ?_
  refine stops_bind (uncompleted_of_calm (calm_update _ _)) fun _ => ?_
  refine stops_bind (uncompleted_of_calm calm_drainSem) fun _ s s' run => ?_
  cases run

theorem stops_out (cmd : MmcsdCmd) (err : UInt32) : StopsUncompleted (out cmd err) := by
  unfold out
  split
  · exact stops_bind (uncompleted_recover cmd) fun _ => stops_complete err
  · exact stops_complete err

theorem stops_sendStarted (cmd : MmcsdCmd) : StopsUncompleted (sendStarted cmd) := by
  refine stops_bind (uncompleted_of_calm (calm_startCmd cmd)) fun _ => ?_
  refine stops_bind (uncompleted_of_calm (calm_update _ _)) fun _ => ?_
  refine stops_bind (uncompleted_of_calm calm_semTake) fun taken => ?_
  refine stops_bind (uncompleted_of_calm calm_errorBits) fun err => ?_
  split
  · exact stops_out cmd err
  · split
    · exact stops_bind (fun s => rfl) fun _ => stops_out cmd err
    · exact stops_bind (uncompleted_of_calm (calm_readResp cmd)) fun _ => stops_out cmd 0

theorem stops_sdmmcSendCmd (cmd : MmcsdCmd) : StopsUncompleted (sdmmcSendCmd cmd) := by
  have calm_checkBusy (timeout : Nat) (status : UInt32) : Keeps Calm (checkBusy timeout status) :=
    keeps_checkBusy Calm.refl (fun _ _ _ => Calm.trans) (calm_readl _) timeout status
  refine stops_bind (uncompleted_of_calm (calm_readl _)) fun status => ?_
  refine stops_bind (uncompleted_of_calm (calm_checkBusy _ _)) fun stuck => ?_
  split
  · intro s s' run
    cases run
  · exact stops_sendStarted cmd

end Uncompleted

/-- An error bit was seen in the raw status, by the thread or by an interrupt. -/
def ErrorSeen (cmd : MmcsdCmd) (c : Course) (acts : List Act) : Prop :=
  (∃ v, Act.readl .rintsts v ∈ acts ∧ v &&& errorBitsMask ≠ 0) ∨
    ∃ irq ∈ c.waited ++ c.between ++ c.late, irq.risr &&& errorBitsMask ≠ 0 ∨
      cmd.data ≠ none ∧ irq.again &&& errorBitsMask ≠ 0

/-- How many words a transfer has. -/
def wordCount (d : MmcsdData) : Nat := d.blksize.toNat * d.blks.toNat / 4

/-- All words went from the buffer into the FIFO, or from the FIFO into the buffer. -/
def Moved (cmd : MmcsdCmd) (s' : SmhcDev) : Prop :=
  ∀ d ∈ cmd.data,
    if d.flags &&& dataDirWrite ≠ 0 then
      fifoWritten s'.acts = (List.range (wordCount d)).map d.buf
    else fifoRead s'.acts = (List.range (wordCount d)).map s'.xfe.buff

/-- If `mmcsd_req_complete` finds no error in the command, then the semaphore was obtained in time,
no error bit was seen and all words were moved. -/
def NoFalseSuccess (cmd : MmcsdCmd) (c : Course) : Prop :=
  let s' := (t113SmhcRequest cmd (c.device cmd)).2
  Act.complete 0 ∈ s'.acts → c.taken cmd.data = true ∧ ¬ ErrorSeen cmd c s'.acts ∧ Moved cmd s'

/-- An error bit reached the thread: read by itself, or by an interrupt before it looked. -/
def ErrorGathered (c : Course) (acts : List Act) : Prop :=
  (∃ v, Act.readl .rintsts v ∈ acts ∧ v &&& errorBitsMask ≠ 0) ∨
    ∃ irq ∈ c.waited ++ c.between, irq.risr &&& errorBitsMask ≠ 0

/-- What a command needs that no error bit stops: the semaphore is released in time, no interrupt
shows an error bit in its second reading or behind the look, and no wait for the FIFO runs out. -/
structure GoesWell (cmd : MmcsdCmd) (c : Course) : Prop where
  released : 0 < c.sem ∨ ∃ irq ∈ c.waited, Done cmd.data irq
  again : cmd.data ≠ none → ∀ irq ∈ c.waited ++ c.between ++ c.late,
    irq.again &&& errorBitsMask = 0
  late : ∀ irq ∈ c.late, irq.risr &&& errorBitsMask = 0
  small : ∀ d ∈ cmd.data, d.blksize.toNat * d.blks.toNat < 4294967296
  inTime : ∀ d ∈ cmd.data,
    if d.flags &&& dataDirWrite ≠ 0 then
      FifoReady (bit 3) 0 (wordCount d) (transferReads c.reads)
    else FifoReady (bit 2) 1 (wordCount d) (transferReads c.reads)

theorem taken_iff (cmd : MmcsdCmd) (c : Course) :
    c.taken cmd.data = true ↔ 0 < c.sem ∨ ∃ irq ∈ c.waited, Done cmd.data irq := by
  rw [Course.taken, decide_eq_true_iff, Course.atTake]
  exact handled_sem cmd.data c.waited _ fun _ d _ => UInt32.zero_and

theorem looked_iff (cmd : MmcsdCmd) (c : Course) (m : UInt32) :
    c.looked cmd.data &&& m = 0 ↔ ∀ irq ∈ c.waited ++ c.between, irq.risr &&& m = 0 := by
  rw [Course.looked, handled_risr, Course.atTake, handled_risr, and_iff_right UInt32.zero_and,
    List.forall_mem_append]

theorem mem_completions {acts : List Act} {e : Int} :
    e ∈ completions acts ↔ Act.complete e ∈ acts := by
  rw [completions, List.mem_filterMap]
  constructor
  · rintro ⟨a, there, is⟩
    cases a with
    | readl => cases is
    | writel => cases is
    | complete err =>
      obtain rfl := Option.some.inj is
      exact there
  · exact fun there => ⟨_, there, rfl⟩

/-- A request that is completed: the state `s` in which its command starts, the state `t` behind its
transfer, and the value `v` of the raw status at the look. -/
theorem request_course {cmd : MmcsdCmd} {c : Course} {e : Int}
    (completed : Act.complete e ∈ (t113SmhcRequest cmd (c.device cmd)).2.acts) :
    ∃ s t v, Started cmd s t ∧ s.xfe = (prepare cmd (c.device cmd)).xfe ∧
      s.reads.drop 1 = transferReads c.reads ∧ marks s.acts = [] ∧
      Act.readl .rintsts v ∈ (t113SmhcRequest cmd (c.device cmd)).2.acts ∧
      completions (t113SmhcRequest cmd (c.device cmd)).2.acts = [e] ∧
      (e = 0 ↔ cmd.err = 0 ∧ (v ||| c.looked cmd.data) &&& errorBitsMask = 0) ∧
      (e = 0 → marks (t113SmhcRequest cmd (c.device cmd)).2.acts =
          marks t.acts ++ [.readl .rintsts v, .complete e] ∧
        (t113SmhcRequest cmd (c.device cmd)).2.xfe = t.xfe) := by
  have same : (t113SmhcRequest cmd (c.device cmd)).2 =
      (sdmmcSendCmd cmd (prepare cmd (c.device cmd))).2 := by
    rw [t113SmhcRequest, bind_of_some (modify_apply _ _), bind_apply]
    rcases sdmmcSendCmd cmd (prepare cmd (c.device cmd)) with ⟨_ | ret, s'⟩ <;> rfl
  rw [same] at completed ⊢
  rcases run : sdmmcSendCmd cmd (prepare cmd (c.device cmd)) with ⟨_ | ret, s'⟩ <;>
    rw [run] at completed
  · have nothing : completions s'.acts = [] := stops_sdmmcSendCmd cmd _ _ run
    rw [← mem_completions, nothing] at completed
    exact absurd completed List.not_mem_nil
  · rcases sdmmcSendCmd_course run with nothing | ⟨s, silent, uncompleted, reads, started⟩
    · rw [← mem_completions, nothing] at completed
      exact absurd completed List.not_mem_nil
    · obtain ⟨t, v, risr, rest, e', starts, risrs, seen, once, zero_iff, passes⟩ :=
        sendStarted_course started
      have nothing : completions s.acts = [] := uncompleted
      rw [nothing, List.nil_append] at once
      rw [← mem_completions, once, List.mem_singleton] at completed
      obtain rfl := completed
      have looked : risr = c.looked cmd.data := by
        rw [silent.risrs] at risrs
        exact (List.cons.inj risrs).1.symm
      rw [looked, silent.err] at zero_iff
      rw [looked] at passes
      exact ⟨s, t, v, starts, silent.xfe, reads, silent.marks, seen, once, zero_iff,
        fun zero => passes (zero_iff.mp zero).2⟩

private theorem fifo_of_words (xfe later : SdmmcXfeDes) (m : Nat) (v : UInt32) (e : Int) :
    let left := (List.range m).map (wordMark xfe · later) ++ [.readl .rintsts v, .complete e]
    if xfe.flag = mmcDataWrite then fifoWritten left = (List.range m).map xfe.buff
    else fifoRead left = (List.range m).map later.buff := by
  intro left
  by_cases write : xfe.flag = mmcDataWrite
  · rw [if_pos write]
    unfold left fifoWritten wordMark
    simp [write, List.filterMap_append, List.filterMap_map]
  · rw [if_neg write]
    unfold left fifoRead wordMark
    simp [write, List.filterMap_append, List.filterMap_map]

private theorem looked_once {acts : List Act} {xfe later : SdmmcXfeDes} {m : Nat} {v w : UInt32}
    {e : Int} (left : marks acts = (List.range m).map (wordMark xfe · later) ++
      [.readl .rintsts v, .complete e]) (there : Act.readl .rintsts w ∈ acts) : w = v := by
  have marked : Act.readl .rintsts w ∈ marks acts := List.mem_filter.mpr ⟨there, rfl⟩
  rw [left, List.mem_append] at marked
  rcases marked with word | last
  · obtain ⟨i, -, is⟩ := List.mem_map.mp word
    unfold wordMark at is
    split at is <;> cases is
  · rcases List.mem_cons.mp last with is | last
    · cases is
      rfl
    · cases List.mem_singleton.mp last

private theorem prepared_xfe {cmd : MmcsdCmd} {d : MmcsdData} (data : cmd.data = some d)
    (s : SmhcDev) :
    (prepare cmd s).xfe.size = d.blksize ∧ (prepare cmd s).xfe.num = d.blks ∧
      (prepare cmd s).xfe.buff = d.buf ∧
      ((prepare cmd s).xfe.flag = mmcDataWrite ↔ d.flags &&& dataDirWrite ≠ 0) := by
  unfold prepare
  rw [data]
  refine ⟨rfl, rfl, rfl, ?_⟩
  dsimp only
  split
  · rename_i write
    exact iff_of_true rfl write
  · rename_i read
    exact iff_of_false (by decide) read

private theorem map_range_inj {f : Nat → UInt32} {m n : Nat} :
    (List.range m).map f = (List.range n).map f ↔ m = n := by
  constructor
  · intro same
    have lengths := congrArg List.length same
    simpa using lengths
  · rintro rfl
    rfl

private theorem moved_iff {cmd : MmcsdCmd} {c : Course} {s t s' : SmhcDev} {v : UInt32} {e : Int}
    (started : Started cmd s t) (xfe : s.xfe = (prepare cmd (c.device cmd)).xfe)
    (reads : s.reads.drop 1 = transferReads c.reads) (fresh : marks s.acts = [])
    (left : marks s'.acts = marks t.acts ++ [.readl .rintsts v, .complete e])
    (kept : s'.xfe = t.xfe) :
    Moved cmd s' ↔ ∀ d ∈ cmd.data, d.blksize.toNat * d.blks.toNat < 4294967296 ∧
      if d.flags &&& dataDirWrite ≠ 0 then
        FifoReady (bit 3) 0 (wordCount d) (transferReads c.reads)
      else FifoReady (bit 2) 1 (wordCount d) (transferReads c.reads) := by
  refine forall₂_congr fun d data => ?_
  obtain ⟨m, short, marked, all⟩ := started.words d data
  obtain ⟨size, num, buff, write⟩ := prepared_xfe data (c.device cmd)
  rw [fresh, List.nil_append, ← kept] at marked
  rw [marked] at left
  rw [reads] at all
  rw [xfe, size, num] at short all
  have words := fifo_of_words s.xfe s'.xfe m v e
  dsimp only at words
  rw [← left, ← fifoWritten_marks, ← fifoRead_marks, xfe, buff] at words
  have product : (d.blksize * d.blks).toNat >>> 2 =
      d.blksize.toNat * d.blks.toNat % 4294967296 / 4 := by
    rw [Nat.shiftRight_eq_div_pow, UInt32.toNat_mul]
  have counts : m = wordCount d ↔ d.blksize.toNat * d.blks.toNat < 4294967296 ∧
      WordsReady (prepare cmd (c.device cmd)).xfe (wordCount d) (transferReads c.reads) := by
    rw [product] at short all
    unfold wordCount
    by_cases small : d.blksize.toNat * d.blks.toNat < 4294967296
    · rw [Nat.mod_eq_of_lt small] at all
      exact all.trans (and_iff_right small).symm
    · refine iff_of_false ?_ fun is => small is.1
      have below := Nat.mod_lt (d.blksize.toNat * d.blks.toNat) (by decide : 4294967296 > 0)
      omega
  unfold WordsReady at counts
  by_cases is : d.flags &&& dataDirWrite ≠ 0
  · rw [if_pos (write.mpr is)] at words counts
    rw [if_pos is, if_pos is, words, map_range_inj]
    exact counts
  · have isNot := fun flag => is (write.mp flag)
    rw [if_neg isNot] at words counts
    rw [if_neg is, if_neg is, words, map_range_inj]
    exact counts

/-- A command is completed without an error only where it was given none and no error bit reached
the thread; and then it has succeeded exactly if it went well. -/
theorem noFalseSuccess_iff (cmd : MmcsdCmd) (c : Course) (e : Int)
    (completed : Act.complete e ∈ (t113SmhcRequest cmd (c.device cmd)).2.acts) :
    NoFalseSuccess cmd c ↔
      (cmd.err = 0 → ¬ ErrorGathered c (t113SmhcRequest cmd (c.device cmd)).2.acts →
        GoesWell cmd c) := by
  obtain ⟨s, t, v, started, xfe, reads, fresh, seen, once, zero_iff, passes⟩ :=
    request_course completed
  unfold NoFalseSuccess
  generalize (t113SmhcRequest cmd (c.device cmd)).2 = s' at *
  rw [or_and_eq_zero, looked_iff] at zero_iff
  have words : ∃ m, marks t.acts = (List.range m).map (wordMark s.xfe · t.xfe) := by
    rcases data : cmd.data with _ | d
    · exact ⟨0, (started.bare data).trans fresh⟩
    · obtain ⟨m, -, marked, -⟩ := started.words d data
      rw [fresh, List.nil_append] at marked
      exact ⟨m, marked⟩
  obtain ⟨m, words⟩ := words
  have only (zero : e = 0) {w : UInt32} (there : Act.readl .rintsts w ∈ s'.acts) : w = v := by
    have left := (passes zero).1
    rw [words] at left
    exact looked_once left there
  by_cases zero : e = 0
  · obtain ⟨noErr, clear, irqs⟩ := zero_iff.mp zero
    have unseen : ¬ ∃ w, Act.readl .rintsts w ∈ s'.acts ∧ w &&& errorBitsMask ≠ 0 := by
      rintro ⟨w, there, bad⟩
      rw [only zero there] at bad
      exact bad clear
    have ungathered : ¬ ErrorGathered c s'.acts := by
      rintro (look | ⟨irq, is, bad⟩)
      · exact unseen look
      · exact bad (irqs irq is)
    have here : Act.complete 0 ∈ s'.acts := zero ▸ completed
    rw [forall_prop_of_true here, forall_prop_of_true noErr, forall_prop_of_true ungathered,
      taken_iff, moved_iff started xfe reads fresh (passes zero).1 (passes zero).2]
    have errors : ¬ ErrorSeen cmd c s'.acts ↔
        (cmd.data ≠ none → ∀ irq ∈ c.waited ++ c.between ++ c.late,
          irq.again &&& errorBitsMask = 0) ∧
        ∀ irq ∈ c.late, irq.risr &&& errorBitsMask = 0 := by
      constructor
      · intro none
        refine ⟨fun data irq is => ?_, fun irq is => ?_⟩
        · by_contra bad
          exact none (.inr ⟨irq, is, .inr ⟨data, bad⟩⟩)
        · by_contra bad
          exact none (.inr ⟨irq, List.mem_append_right _ is, .inl bad⟩)
      · rintro ⟨again, late⟩ (look | ⟨irq, is, bad | ⟨data, bad⟩⟩)
        · exact unseen look
        · rcases List.mem_append.mp is with before | behind
          · exact bad (irqs irq before)
          · exact bad (late irq behind)
        · exact bad (again data irq is)
    rw [errors]
    constructor
    · rintro ⟨released, ⟨again, late⟩, moved⟩
      exact ⟨released, again, late, fun d is => (moved d is).1, fun d is => (moved d is).2⟩
    · intro well
      refine ⟨well.released, ⟨well.again, well.late⟩, fun d is => ?_⟩
      exact ⟨well.small d is, well.inTime d is⟩
  · refine iff_of_true (fun here => ?_) fun noErr ungathered => ?_
    · rw [← mem_completions, once, List.mem_singleton] at here
      exact absurd here.symm zero
    · refine absurd (zero_iff.mpr ⟨noErr, ?_, fun irq is => ?_⟩) zero
      · by_contra bad
        exact ungathered (.inl ⟨v, seen, bad⟩)
      · by_contra bad
        exact ungathered (.inr ⟨irq, is, bad⟩)

/-- A course on which every register reads as zero, with the interrupts that come until the
semaphore is taken. -/
def quietCourse (waited : List Irq) : Course where
  reads := List.replicate 9 0
  sem := 0
  xfe := ⟨0, 0, fun _ => 0, 0⟩
  waited := waited
  between := []
  late := []
  drained := [false]

/-- The eight bytes of the card's configuration register. -/
def scrData : MmcsdData := ⟨8, 1, fun _ => 0, dataDirRead⟩

/-- ACMD51, with the response R1. -/
def sendScr : MmcsdCmd where
  cmdCode := 51
  arg := 0
  resp := fun _ => 0
  flags := 1
  err := 0
  data := some scrData

/-- The FIFO is empty once before the first word comes, and the response comes before the data. -/
def scrCourse : Course where
  reads := [0, 0, bit 2, 0, 0x00003502, 0, 0x00000001, 0, 0, 0, 0x920, 0, 0, 0]
  sem := 0
  xfe := ⟨0, 0, fun _ => 0, 0⟩
  waited := [⟨bit 2, 0, 0⟩, ⟨bit 3, 0, 0⟩]
  between := []
  late := []
  drained := [false]

/-- Both words have come, and the interrupt that ends the data. -/
theorem noFalseSuccess_scr : NoFalseSuccess sendScr scrCourse := by
  have completed : Act.complete 0 ∈ (t113SmhcRequest sendScr (scrCourse.device sendScr)).2.acts := by
    decide
  refine (noFalseSuccess_iff sendScr scrCourse 0 completed).mpr fun _ _ => ?_
  refine ⟨.inr ⟨_, List.mem_cons_of_mem _ List.mem_cons_self, ?_⟩, fun _ => by decide, by decide, ?_,
    ?_⟩
  · rintro _ ⟨⟩
    decide
  · rintro _ ⟨⟩
    decide
  · rintro _ ⟨⟩
    exact ⟨1, by decide, ⟨List.forall_mem_singleton.mpr (by decide), 0, rfl, by decide⟩,
      0, by decide, ⟨List.forall_mem_nil _, 0, rfl, by decide⟩, trivial⟩

/-- Without any interrupt the wait for it runs out, and the command is completed as a success. -/
theorem noAnswer_succeeds : ¬ NoFalseSuccess goIdle (quietCourse []) := by
  intro sound
  have completed : Act.complete 0 ∈
      (t113SmhcRequest goIdle ((quietCourse []).device goIdle)).2.acts := by decide
  exact absurd (sound completed).1 (by decide)

end T113Boot.Drivers.FalseSuccess
