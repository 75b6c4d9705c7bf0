/- Module: T113Boot/Drivers/Completion
   layer: results
   digest: When an SD request is completed: once, unless the card stays busy before it. -/

import Mathlib.Data.List.Basic
import T113Boot.Drivers.Smhc

set_option autoImplicit false
set_option relaxedAutoImplicit false

namespace T113Boot.Drivers.Completion

open T113Boot.Lib.Stoppable
open Prog
open T113Boot.Drivers.Smhc

/-- The completions among what the driver did, each with the error that was seen with it. -/
def completions (acts : List Act) : List Int :=
  acts.filterMap fun a => match a with
    | .complete err => some err
    | _ => none

/-- The request is completed once, and with an error if `sdmmc_send_cmd` returns one. -/
def CompletesOnce (cmd : MmcsdCmd) (s s' : SmhcDev) : Prop :=
  ∃ err, completions s'.acts = completions s.acts ++ [err] ∧
    ∀ ret, (sdmmcSendCmd cmd (prepare cmd s)).1 = some ret → ret ≠ 0 → err ≠ 0

section Keeps

variable {R : SmhcDev → SmhcDev → Prop} {reg : Reg}

theorem keeps_update (trans : ∀ s t u, R s t → R t u → R s u) (look : Keeps R (readl reg))
    (put : ∀ v, Keeps R (writel v reg)) (change : UInt32 → UInt32) :
    Keeps R (update reg change) :=
  keeps_bind trans look fun v => put (change v)

variable (refl : ∀ s, R s s) (trans : ∀ s t u, R s t → R t u → R s u)
include refl trans

theorem keeps_waitClear (look : Keeps R (readl reg)) (mask : UInt32) (n : Nat) :
    Keeps R (waitClear reg mask n) := by
  induction n with
  | zero => exact keeps_pure refl false
  | succ n ih => exact keeps_bind trans look fun v => keeps_ite ih (keeps_pure refl true)

theorem keeps_checkBusy (look : Keeps R (readl .status)) (timeout : Nat) (status : UInt32) :
    Keeps R (checkBusy timeout status) := by
  induction timeout generalizing status with
  | zero =>
    refine keeps_ite (keeps_pure refl false) ?_
    exact keeps_bind trans look fun _ => keeps_bind trans look fun _ => keeps_pure refl true
  | succ timeout ih =>
    exact keeps_ite (keeps_pure refl false) (keeps_bind trans look fun v => ih v)

theorem keeps_updateClk (command : ∀ v, Keeps R (writel v .cmd)) (poll : Keeps R (readl .cmd))
    (look : Keeps R (readl .rintsts)) (clear : ∀ v, Keeps R (writel v .rintsts)) :
    Keeps R sdmmcUpdateClk := by
  refine keeps_bind trans (command _) fun _ => ?_
  refine keeps_bind trans (keeps_waitClear refl trans poll _ _) fun done => ?_
  refine keeps_ite (keeps_pure refl _) (keeps_bind trans look fun status => ?_)
  exact keeps_bind trans (clear _) fun _ => keeps_pure refl _

omit refl in
theorem keeps_readResp (look : ∀ reg ∈ [Reg.resp0, .resp1, .resp2, .resp3], Keeps R (readl reg))
    (put : ∀ i v, Keeps R (setResp i v)) (cmd : MmcsdCmd) : Keeps R (readResp cmd) := by
  have one {reg : Reg} (resp : reg ∈ [Reg.resp0, .resp1, .resp2, .resp3]) (i : Fin 4) :
      Keeps R (readl reg >>= setResp i) := keeps_bind trans (look reg resp) fun v => put i v
  refine keeps_ite ?_ (one (by decide) _)
  refine keeps_bind trans (one (by decide) _) fun _ => ?_
  refine keeps_bind trans (one (by decide) _) fun _ => ?_
  exact keeps_bind trans (one (by decide) _) fun _ => one (by decide) _

theorem keeps_readRemain (count : Keeps R (readl .tbbcn)) (take : Keeps R (readl .fifo))
    (timeout : Nat) : Keeps R (readRemain timeout) := by
  induction timeout with
  | zero =>
    refine keeps_bind trans count fun v => keeps_ite ?_ (keeps_pure refl ())
    exact keeps_bind trans take fun _ => keeps_pure refl ()
  | succ timeout ih =>
    refine keeps_bind trans count fun v => keeps_ite ?_ (keeps_pure refl ())
    exact keeps_bind trans take fun _ => ih

theorem keeps_recover (look : ∀ reg, Keeps R (readl reg)) (put : ∀ v reg, Keeps R (writel v reg))
    (wait : Keeps R (waitForever .ctrl 0x7)) (note : ∀ err, Keeps R (setErr err))
    (cmd : MmcsdCmd) : Keeps R (recover cmd) := by
  have remain : Keeps R (fetchRemain cmd) := by
    refine keeps_ite ?_ (keeps_pure refl ())
    refine keeps_bind trans (keeps_update trans (look _) (put · _) _) fun _ => ?_
    exact keeps_readRemain refl trans (look _) (look _) _
  have clock := keeps_updateClk refl trans (put · _) (look _) (look _) (put · _)
  refine keeps_bind trans remain fun _ => keeps_bind trans (put _ _) fun _ => ?_
  exact keeps_bind trans wait fun _ => keeps_bind trans clock fun _ => note _

end Keeps

/-- Nothing was completed in between, and the command has the same error. -/
structure Calm (s t : SmhcDev) : Prop where
  completions : completions t.acts = completions s.acts
  err : t.cmd.err = s.cmd.err

namespace Calm

theorem refl (s : SmhcDev) : Calm s s := ⟨rfl, rfl⟩

theorem trans {s t u : SmhcDev} (first : Calm s t) (later : Calm t u) : Calm s u :=
  ⟨later.completions.trans first.completions, later.err.trans first.err⟩

end Calm

section Calm

variable {α β : Type}

theorem calm_pure (a : α) : Keeps Calm (pure a : SmhcM α) := keeps_pure Calm.refl a

theorem calm_bind {x : SmhcM α} {f : α → SmhcM β} (hx : Keeps Calm x)
    (hf : ∀ a, Keeps Calm (f a)) : Keeps Calm (x >>= f) :=
  keeps_bind (R := Calm) (fun _ _ _ first later => first.trans later) hx hf

private theorem completions_readl (acts : List Act) (reg : Reg) (vs : List UInt32) :
    completions (acts ++ vs.map (.readl reg)) = completions acts := by
  have none : completions (vs.map (.readl reg)) = [] := by
    rw [completions, List.filterMap_map]
    exact List.filterMap_eq_nil_iff.mpr fun v _ => rfl
  rw [completions, List.filterMap_append]
  exact (congrArg (_ ++ ·) none).trans (List.append_nil _)

theorem calm_readl (reg : Reg) : Keeps Calm (readl reg) := by
  intro s
  unfold readl
  split
  · exact Calm.refl s
  · rename_i v rest _
    exact ⟨completions_readl s.acts reg [v], rfl⟩

theorem calm_writel (value : UInt32) (reg : Reg) : Keeps Calm (writel value reg) := by
  intro s
  refine ⟨?_, rfl⟩
  show completions (s.acts ++ [.writel reg value]) = completions s.acts
  rw [completions, List.filterMap_append]
  exact List.append_nil _

theorem calm_update (reg : Reg) (change : UInt32 → UInt32) : Keeps Calm (update reg change) :=
  keeps_update (R := Calm) (fun _ _ _ => Calm.trans) (calm_readl reg) (calm_writel · reg) change

theorem calm_waitClear (reg : Reg) (mask : UInt32) (n : Nat) :
    Keeps Calm (waitClear reg mask n) :=
  keeps_waitClear Calm.refl (fun _ _ _ => Calm.trans) (calm_readl reg) mask n

theorem calm_waitForever (reg : Reg) (mask : UInt32) : Keeps Calm (waitForever reg mask) := by
  intro s
  unfold waitForever
  dsimp only
  split
  · exact ⟨completions_readl s.acts reg _, rfl⟩
  · exact ⟨completions_readl s.acts reg _, rfl⟩

theorem calm_semTake : Keeps Calm rtSemTake := by
  intro s
  unfold rtSemTake
  split
  · exact Calm.refl s
  · exact ⟨rfl, rfl⟩

theorem calm_drainSem : Keeps Calm drainSem := by
  intro s
  unfold drainSem
  split
  · exact ⟨rfl, rfl⟩
  · exact ⟨rfl, rfl⟩

theorem calm_errorBits : Keeps Calm errorBits := by
  refine calm_bind (calm_readl .rintsts) fun rintsts => calm_bind ?_ fun risr => calm_pure _
  intro s
  unfold flagRisr
  split
  · exact Calm.refl s
  · exact ⟨rfl, rfl⟩

theorem calm_updateClk : Keeps Calm sdmmcUpdateClk :=
  keeps_updateClk Calm.refl (fun _ _ _ => Calm.trans) (calm_writel · _) (calm_readl _)
    (calm_readl _) (calm_writel · _)

theorem calm_transWords {word : Nat → SmhcM Unit} (calm : ∀ i, Keeps Calm (word i)) (mask : UInt32)
    (i n : Nat) : Keeps Calm (transWords word mask i n) := by
  induction n generalizing i with
  | zero => exact calm_pure 0
  | succ n ih =>
    refine calm_bind (calm_waitClear _ _ _) fun ready => keeps_ite ?_ ?_
    · exact calm_bind (calm_readl _) fun _ => calm_pure _
    · exact calm_bind (calm i) fun _ => ih (i + 1)

theorem calm_transData (xfe : SdmmcXfeDes) : Keeps Calm (sdmmcTransData xfe) := by
  refine keeps_ite (calm_transWords (fun i => calm_writel _ _) _ _ _)
    (calm_transWords (fun i => ?_) _ _ _)
  exact calm_bind (calm_readl _) fun v s => ⟨rfl, rfl⟩

theorem calm_startCmd (cmd : MmcsdCmd) : Keeps Calm (startCmd cmd) := by
  unfold startCmd
  split
  · exact calm_bind (calm_writel _ _) fun _ => calm_bind (calm_writel _ _) fun _ => calm_update _ _
  · refine calm_bind (calm_writel _ _) fun _ => calm_bind (calm_writel _ _) fun _ => ?_
    refine calm_bind (calm_writel _ _) fun _ => calm_bind (calm_update _ _) fun _ => ?_
    refine calm_bind (calm_writel _ _) fun _ => calm_bind (keeps_read Calm.refl) fun s => ?_
    refine calm_bind (calm_transData s.xfe) fun _ => keeps_ite (calm_update _ _) (calm_update _ _)

theorem calm_readResp (cmd : MmcsdCmd) : Keeps Calm (readResp cmd) :=
  keeps_readResp (R := Calm) (fun _ _ _ => Calm.trans) (fun reg _ => calm_readl reg)
    (fun _ _ _ => ⟨rfl, rfl⟩) cmd

theorem calm_readRemain (timeout : Nat) : Keeps Calm (readRemain timeout) :=
  keeps_readRemain Calm.refl (fun _ _ _ => Calm.trans) (calm_readl _) (calm_readl _) timeout

end Calm

theorem Calm.of_returns {α : Type} {x : SmhcM α} (calm : Keeps Calm x) {s s' : SmhcDev} {a : α}
    (run : x s = (some a, s')) : Calm s s' := by
  have kept := calm s
  rw [run] at kept
  exact kept

theorem recover_returns {cmd : MmcsdCmd} {s s' : SmhcDev} (run : recover cmd s = (some (), s')) :
    completions s'.acts = completions s.acts ∧ s'.cmd.err = -rtEtimeout := by
  unfold recover at run
  obtain ⟨_, t₁, fetched, run⟩ := bind_returns.mp run
  obtain ⟨_, t₂, reset, run⟩ := bind_returns.mp run
  obtain ⟨_, t₃, waited, run⟩ := bind_returns.mp run
  obtain ⟨_, t₄, clocked, run⟩ := bind_returns.mp run
  have calm₁ : Calm s t₁ := by
    refine Calm.of_returns (keeps_ite (calm_bind (calm_update _ _) fun _ => ?_) ?_) fetched
    · exact calm_readRemain 1000
    · exact calm_pure ()
  have calm₂ := Calm.of_returns (calm_writel _ _) reset
  have calm₃ := Calm.of_returns (calm_waitForever _ _) waited
  have calm₄ := Calm.of_returns calm_updateClk clocked
  have calm := (calm₁.trans calm₂).trans (calm₃.trans calm₄)
  obtain ⟨-, rfl⟩ := Prod.mk.inj run
  exact ⟨calm.completions, rfl⟩

theorem complete_returns {err : UInt32} {s s' : SmhcDev} {ret : Int}
    (run : complete err s = (some ret, s')) :
    completions s'.acts = completions s.acts ++ [s.cmd.err] ∧ ret = err.toNat := by
  unfold complete at run
  obtain ⟨_, t₁, cleared, run⟩ := bind_returns.mp run
  obtain ⟨_, t₂, masked, run⟩ := bind_returns.mp run
  obtain ⟨_, t₃, wiped, run⟩ := bind_returns.mp run
  obtain ⟨_, t₄, enabled, run⟩ := bind_returns.mp run
  obtain ⟨_, t₅, drained, run⟩ := bind_returns.mp run
  obtain ⟨_, t₆, completed, run⟩ := bind_returns.mp run
  have calm₁ := Calm.of_returns (calm_update _ _) cleared
  have calm₂ := Calm.of_returns (calm_update _ _) masked
  have calm₃ := Calm.of_returns (calm_writel _ _) wiped
  have calm₄ := Calm.of_returns (calm_update _ _) enabled
  have calm₅ := Calm.of_returns calm_drainSem drained
  have calm := ((calm₁.trans calm₂).trans (calm₃.trans calm₄)).trans calm₅
  obtain ⟨same, rfl⟩ := Prod.mk.inj run
  obtain ⟨-, rfl⟩ := Prod.mk.inj completed
  refine ⟨?_, (Option.some.inj same).symm⟩
  have last : completions (t₅.acts ++ [.complete t₅.cmd.err]) =
      completions t₅.acts ++ [t₅.cmd.err] := List.filterMap_append
  exact last.trans (by rw [calm.completions, calm.err])

theorem out_returns {cmd : MmcsdCmd} {err : UInt32} {s s' : SmhcDev} {ret : Int}
    (run : out cmd err s = (some ret, s')) :
    ∃ e, completions s'.acts = completions s.acts ++ [e] ∧ ret = err.toNat ∧ (err ≠ 0 → e ≠ 0) := by
  unfold out at run
  by_cases bad : err ≠ 0
  · rw [if_pos bad] at run
    obtain ⟨_, t, recovered, run⟩ := bind_returns.mp run
    obtain ⟨same, noted⟩ := recover_returns recovered
    obtain ⟨completed, code⟩ := complete_returns run
    refine ⟨t.cmd.err, by rw [completed, same], code, fun _ => ?_⟩
    rw [noted]
    decide
  · rw [if_neg bad] at run
    obtain ⟨completed, code⟩ := complete_returns run
    exact ⟨s.cmd.err, completed, code, fun other => absurd other bad⟩

theorem sendStarted_returns {cmd : MmcsdCmd} {s s' : SmhcDev} {ret : Int}
    (run : sendStarted cmd s = (some ret, s')) :
    ∃ e, completions s'.acts = completions s.acts ++ [e] ∧ (ret ≠ 0 → e ≠ 0) := by
  unfold sendStarted at run
  obtain ⟨_, t₁, started, run⟩ := bind_returns.mp run
  obtain ⟨_, t₂, enabled, run⟩ := bind_returns.mp run
  obtain ⟨taken, t₃, took, run⟩ := bind_returns.mp run
  obtain ⟨err, t₄, looked, run⟩ := bind_returns.mp run
  have calm₁ := Calm.of_returns (calm_startCmd cmd) started
  have calm₂ := Calm.of_returns (calm_update _ _) enabled
  have calm₃ := Calm.of_returns calm_semTake took
  have calm₄ := Calm.of_returns calm_errorBits looked
  have calm := (calm₁.trans calm₂).trans (calm₃.trans calm₄)
  have leaves {err : UInt32} {t : SmhcDev} (same : completions t.acts = completions s.acts)
      (run : out cmd err t = (some ret, s')) :
      ∃ e, completions s'.acts = completions s.acts ++ [e] ∧ (ret ≠ 0 → e ≠ 0) := by
    obtain ⟨e, completed, rfl, seen⟩ := out_returns run
    refine ⟨e, by rw [completed, same], fun bad => seen ?_⟩
    rintro rfl
    exact bad rfl
  split at run
  · exact leaves calm.completions run
  · split at run
    · obtain ⟨_, t₅, noted, run⟩ := bind_returns.mp run
      have same : t₅.acts = t₄.acts := by
        cases noted
        rfl
      exact leaves ((congrArg completions same).trans calm.completions) run
    · obtain ⟨_, t₅, answered, run⟩ := bind_returns.mp run
      have calm₅ := Calm.of_returns (calm_readResp cmd) answered
      exact leaves (calm₅.completions.trans calm.completions) run

theorem readl_returns {reg : Reg} {s s' : SmhcDev} {v : UInt32}
    (run : readl reg s = (some v, s')) : ∃ rest, s.reads = v :: rest ∧
      s' = { s with reads := rest, acts := s.acts ++ [.readl reg v] } := by
  unfold readl at run
  split at run
  · cases run
  · rename_i w rest reads
    cases run
    exact ⟨rest, reads, rfl⟩

theorem checkBusy_returns {timeout : Nat} {status : UInt32} {s s' : SmhcDev} {stuck : Bool}
    (run : checkBusy timeout status s = (some stuck, s')) :
    Calm s s' ∧ (stuck = false ↔ status &&& bit 9 = 0 ∨
      ∃ i < timeout, ∃ v ∈ s.reads[i]?, v &&& bit 9 = 0) := by
  induction timeout generalizing status s with
  | zero =>
    rw [checkBusy] at run
    by_cases free : status &&& bit 9 = 0
    · rw [if_pos free] at run
      obtain ⟨same, rfl⟩ := Prod.mk.inj run
      obtain rfl := Option.some.inj same
      exact ⟨Calm.refl s, iff_of_true rfl (.inl free)⟩
    · rw [if_neg free] at run
      obtain ⟨_, t₁, looked, run⟩ := bind_returns.mp run
      obtain ⟨_, t₂, logged, run⟩ := bind_returns.mp run
      have calm := (Calm.of_returns (calm_readl _) looked).trans
        (Calm.of_returns (calm_readl _) logged)
      obtain ⟨same, rfl⟩ := Prod.mk.inj run
      obtain rfl := Option.some.inj same
      refine ⟨calm, iff_of_false Bool.noConfusion ?_⟩
      rintro (here | ⟨i, inside, -⟩)
      · exact free here
      · exact Nat.not_lt_zero i inside
  | succ timeout ih =>
    rw [checkBusy] at run
    by_cases free : status &&& bit 9 = 0
    · rw [if_pos free] at run
      obtain ⟨same, rfl⟩ := Prod.mk.inj run
      obtain rfl := Option.some.inj same
      exact ⟨Calm.refl s, iff_of_true rfl (.inl free)⟩
    · rw [if_neg free] at run
      obtain ⟨v, t, looked, run⟩ := bind_returns.mp run
      have calm := Calm.of_returns (calm_readl _) looked
      obtain ⟨later, found⟩ := ih run
      refine ⟨calm.trans later, found.trans ?_⟩
      obtain ⟨rest, reads, rfl⟩ := readl_returns looked
      rw [reads, or_iff_right free]
      constructor
      · rintro (here | ⟨i, inside, w, there, clear⟩)
        · exact ⟨0, Nat.succ_pos timeout, v, rfl, here⟩
        · exact ⟨i + 1, Nat.succ_lt_succ inside, w, there, clear⟩
      · rintro ⟨_ | i, inside, w, there, clear⟩
        · obtain rfl := Option.some.inj there
          exact .inl clear
        · exact .inr ⟨i, Nat.lt_of_succ_lt_succ inside, w, there, clear⟩

/-- Among the first readings of the status one finds the card free. -/
def FoundFree (s : SmhcDev) : Prop := ∃ i ≤ 5000000, ∃ v ∈ s.reads[i]?, v &&& bit 9 = 0

theorem sdmmcSendCmd_returns {cmd : MmcsdCmd} {s s' : SmhcDev} {ret : Int}
    (run : sdmmcSendCmd cmd s = (some ret, s')) :
    FoundFree s ∧ (∃ e, completions s'.acts = completions s.acts ++ [e] ∧ (ret ≠ 0 → e ≠ 0)) ∨
      ¬ FoundFree s ∧ completions s'.acts = completions s.acts := by
  obtain ⟨status, t₁, looked, run⟩ := bind_returns.mp run
  obtain ⟨stuck, t₂, checked, run⟩ := bind_returns.mp run
  have calm₁ := Calm.of_returns (calm_readl _) looked
  obtain ⟨calm₂, found⟩ := checkBusy_returns checked
  have same : completions t₂.acts = completions s.acts :=
    calm₂.completions.trans calm₁.completions
  obtain ⟨rest, reads, rfl⟩ := readl_returns looked
  have free : stuck = false ↔ FoundFree s := by
    refine found.trans ?_
    rw [FoundFree, reads]
    constructor
    · rintro (here | ⟨i, inside, v, there, clear⟩)
      · exact ⟨0, Nat.zero_le _, status, rfl, here⟩
      · exact ⟨i + 1, inside, v, there, clear⟩
    · rintro ⟨_ | i, inside, v, there, clear⟩
      · obtain rfl := Option.some.inj there
        exact .inl clear
      · exact .inr ⟨i, inside, v, there, clear⟩
  rcases stuck with _ | _
  · obtain ⟨e, completed, seen⟩ := sendStarted_returns run
    exact .inl ⟨free.mp rfl, e, by rw [completed, same], seen⟩
  · obtain ⟨-, rfl⟩ := Prod.mk.inj run
    exact .inr ⟨fun found => Bool.noConfusion (free.mpr found), same⟩

theorem t113SmhcRequest_returns {cmd : MmcsdCmd} {s s' : SmhcDev}
    (returned : t113SmhcRequest cmd s = (some (), s')) :
    ∃ ret, sdmmcSendCmd cmd (prepare cmd s) = (some ret, s') := by
  obtain ⟨_, t, prepared, returned⟩ := bind_returns.mp returned
  obtain ⟨-, rfl⟩ := Prod.mk.inj prepared
  obtain ⟨ret, t, sent, returned⟩ := bind_returns.mp returned
  obtain ⟨-, rfl⟩ := Prod.mk.inj returned
  exact ⟨ret, sent⟩

/-- `t113_smhc_request`, when it returns, has completed its request once and with the error that
there was exactly if one of the first 5000001 readings of the status found the card free. -/
theorem completes_once_iff {cmd : MmcsdCmd} {s s' : SmhcDev}
    (returned : t113SmhcRequest cmd s = (some (), s')) :
    CompletesOnce cmd s s' ↔ FoundFree s := by
  obtain ⟨ret, sent⟩ := t113SmhcRequest_returns returned
  have code : (sdmmcSendCmd cmd (prepare cmd s)).1 = some ret := congrArg Prod.fst sent
  rw [CompletesOnce, code]
  rcases sdmmcSendCmd_returns sent with ⟨free, e, completed, seen⟩ | ⟨busy, same⟩
  · refine iff_of_true ⟨e, completed, fun ret' same bad => ?_⟩ free
    obtain rfl := Option.some.inj same
    exact seen bad
  · refine iff_of_false ?_ busy
    rintro ⟨e, completed, -⟩
    exact absurd (List.self_eq_append_right.mp (same.symm.trans completed)) (List.cons_ne_nil e [])

/-- The command that resets a card, which has no data and no answer. -/
def goIdle : MmcsdCmd where
  cmdCode := 0
  arg := 0
  resp := fun _ => 0
  flags := 0
  err := 0
  data := none

/-- A controller that has such answers, with nothing done yet. -/
def answering (reads : List UInt32) (takes : List Bool) (risrs : List UInt32) : SmhcDev where
  reads := reads
  takes := takes
  risrs := risrs
  cmd := goIdle
  xfe := ⟨0, 0, fun _ => 0, 0⟩
  acts := []

theorem completes_once_iff_idle :
    CompletesOnce goIdle (answering (List.replicate 8 0) [true, false] [0])
        (t113SmhcRequest goIdle (answering (List.replicate 8 0) [true, false] [0])).2 ↔
      FoundFree (answering (List.replicate 8 0) [true, false] [0]) :=
  completes_once_iff rfl

theorem readl_cons (reg : Reg) {s : SmhcDev} {v : UInt32} {rest : List UInt32}
    (reads : s.reads = v :: rest) :
    ∃ s', readl reg s = (some v, s') ∧ s'.reads = rest := by
  refine ⟨{ s with reads := rest, acts := s.acts ++ [.readl reg v] }, ?_, rfl⟩
  rw [readl, reads]

/-- The wait is given up when no reading finds the card free. -/
theorem checkBusy_stuck (timeout : Nat) {s : SmhcDev}
    (busy : s.reads = List.replicate (timeout + 2) (bit 9)) :
    ∃ s', checkBusy timeout (bit 9) s = (some true, s') := by
  have set : ¬ bit 9 &&& bit 9 = 0 := by decide
  induction timeout generalizing s with
  | zero =>
    obtain ⟨t, looked, reads⟩ := readl_cons .status busy
    obtain ⟨u, logged, -⟩ := readl_cons .status reads
    refine ⟨u, ?_⟩
    rw [checkBusy, if_neg set, bind_of_some looked, bind_of_some logged]
    rfl
  | succ timeout ih =>
    obtain ⟨t, looked, reads⟩ := readl_cons .status busy
    obtain ⟨u, stuck⟩ := ih reads
    refine ⟨u, ?_⟩
    rw [checkBusy, if_neg set, bind_of_some looked]
    exact stuck

/-- A card that is busy at every reading, and the request is never completed. -/
theorem busy_card_not_completed :
    ∃ s', t113SmhcRequest goIdle (answering (List.replicate 5000003 (bit 9)) [] []) =
      (some (), s') ∧ completions s'.acts = [] ∧
        ¬ CompletesOnce goIdle (answering (List.replicate 5000003 (bit 9)) [] []) s' := by
  have reads : (prepare goIdle (answering (List.replicate 5000003 (bit 9)) [] [])).reads =
      bit 9 :: List.replicate (5000000 + 2) (bit 9) := List.replicate_succ
  obtain ⟨t, looked, left⟩ := readl_cons .status reads
  obtain ⟨s', stuck⟩ := checkBusy_stuck 5000000 left
  have sent : sdmmcSendCmd goIdle
      (prepare goIdle (answering (List.replicate 5000003 (bit 9)) [] [])) =
        (some (-rtError), s') := by
    rw [sdmmcSendCmd, bind_of_some looked, bind_of_some stuck]
    rfl
  have busy : ¬ FoundFree (prepare goIdle (answering (List.replicate 5000003 (bit 9)) [] [])) := by
    rintro ⟨i, -, v, there, clear⟩
    rw [reads, ← List.replicate_succ] at there
    have same := List.eq_of_mem_replicate (List.mem_of_getElem? there)
    rw [same] at clear
    exact absurd clear (by decide)
  rcases sdmmcSendCmd_returns sent with ⟨free, -⟩ | ⟨-, same⟩
  · exact absurd free busy
  · refine ⟨s', ?_, same, ?_⟩
    · rw [t113SmhcRequest, bind_of_some (modify_apply _ _), bind_of_some sent]
      rfl
    · rintro ⟨e, completed, -⟩
      have nothing := List.self_eq_append_right.mp (same.symm.trans completed)
      exact absurd nothing (List.cons_ne_nil e [])

end T113Boot.Drivers.Completion
