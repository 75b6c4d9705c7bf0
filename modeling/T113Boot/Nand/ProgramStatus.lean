/- Module: T113Boot/Nand/ProgramStatus
   layer: specification
   digest: Which program failures a write reports, for every sequence of answers of the chip. -/

import T113Boot.Nand.Spi

set_option autoImplicit false
set_option relaxedAutoImplicit false

namespace T113Boot.Nand.ProgramStatus

open T113Boot.Lib.Stoppable
open Prog
open T113Boot.Nand.Chip (pageSize pagesPerBlock blocksTotal totalSize u32 guards_eq)
open T113Boot.Nand.Pieces
open T113Boot.Nand.Spi

/-- The first status with the busy bit clear. -/
def firstIdle : List Exchange → Option UInt8
  | [] => none
  | (tx, a) :: rest =>
    if tx = readStatus ∧ a.ret = 0 ∧ a.rx &&& 0x01 ≠ 0x01 then some a.rx else firstIdle rest

/-- For every PROGRAM EXECUTE the first status behind it with the busy bit clear. -/
def programStatuses : List Exchange → List (Option UInt8)
  | [] => []
  | (tx, _) :: rest =>
    if tx.head? = some opcodeProgramExec then firstIdle rest :: programStatuses rest
    else programStatuses rest

/-- No program failed. -/
def ReportedGood (sent : List Exchange) : Prop :=
  ∀ status ∈ programStatuses sent, ∃ v, status = some v ∧ v &&& 0x08 = 0

/-- A transfer that succeeds. -/
def accepted : List Answer → Option (UInt8 × List Answer)
  | [] => none
  | a :: rest => if a.ret = 0 then some (a.rx, rest) else none

/-- Polls up to the first status with the busy bit clear. -/
def idle : List Answer → Option (UInt8 × List Answer)
  | [] => none
  | a :: rest =>
    if a.ret ≠ 0 then none
    else if a.rx &&& 0x01 = 0x01 then idle rest
    else some (a.rx, rest)

/-- A command and the polls behind it. -/
def settled (answers : List Answer) : Option (UInt8 × List Answer) :=
  (accepted answers).bind fun sent => idle sent.2

/-- The status that answers PROGRAM EXECUTE, where the page gets that far: the write was enabled,
the data loaded, the status then read has the failure bit clear, and the write was enabled again. -/
def pageStatus (answers : List Answer) : Option (UInt8 × List Answer) :=
  (settled answers).bind fun enabled => (settled enabled.2).bind fun loaded =>
    (accepted loaded.2).bind fun check =>
      if check.1 &&& 0x08 ≠ 0 then none
      else (settled check.2).bind fun again => settled again.2

/-- What `nand_page_write` asks of its arguments. -/
def Piece.Allowed (p : Piece) : Prop :=
  p.data ≠ 0 ∧ p.page ≤ blocksTotal * pagesPerBlock ∧ p.offset ≤ pageSize ∧ p.len ≤ pageSize

instance (p : Piece) : Decidable (Piece.Allowed p) := inferInstanceAs (Decidable (_ ∧ _))

/-- The statuses that answer the PROGRAM EXECUTE of each piece, where all get that far. -/
def rangeStatuses : List Piece → List Answer → Option (List UInt8)
  | [], _ => some []
  | p :: ps, answers =>
    if Piece.Allowed p then
      (pageStatus answers).bind fun page => (rangeStatuses ps page.2).map (page.1 :: ·)
    else none

/-! The driver follows the answers. -/

/-- No transfer is a PROGRAM EXECUTE. -/
def Quiet (t : List Exchange) : Prop := ∀ e ∈ t, e.1.head? ≠ some opcodeProgramExec

theorem Quiet.append {t u : List Exchange} (first : Quiet t) (later : Quiet u) : Quiet (t ++ u) := by
  intro e member
  rcases List.mem_append.mp member with member | member
  · exact first e member
  · exact later e member

theorem programStatuses_quiet {t : List Exchange} (quiet : Quiet t) (u : List Exchange) :
    programStatuses (t ++ u) = programStatuses u := by
  induction t with
  | nil => rfl
  | cons e t ih =>
    rw [List.cons_append, programStatuses, if_neg (quiet e List.mem_cons_self)]
    exact ih fun e member => quiet e (List.mem_cons_of_mem _ member)

/-- One PROGRAM EXECUTE, and the status that answers it. -/
def Shows (v : UInt8) (t : List Exchange) : Prop :=
  ∀ u, programStatuses (t ++ u) = some v :: programStatuses u

theorem Shows.behind {v : UInt8} {t u : List Exchange} (quiet : Quiet t) (shows : Shows v u) :
    Shows v (t ++ u) := by
  intro rest
  rw [List.append_assoc, programStatuses_quiet quiet]
  exact shows rest

/-- A step succeeds exactly where a reading of the answers does, and its transfers are as told. -/
def Follows (x : BusM Int) (reading : List Answer → Option (UInt8 × List Answer))
    (P : UInt8 → List Exchange → Prop) : Prop :=
  ∀ s, (reading s.answers = none → (x s).1 ≠ some 0) ∧
    ∀ v rest, reading s.answers = some (v, rest) →
      ∃ t, x s = (some 0, { answers := rest, sent := s.sent ++ t }) ∧ P v t

private theorem onSuccess_failed {ret : Int} (failed : ret ≠ 0) (next : BusM Int) (s : Bus) :
    (onSuccess ret next s).1 ≠ some 0 := by
  rw [onSuccess, if_pos failed]
  exact fun same => failed (Option.some_inj.mp same)

private theorem onSuccess_zero (next : BusM Int) : onSuccess 0 next = next := if_neg fun bad => bad rfl

/-- Two steps, the second after the success of the first. -/
theorem Follows.next {x y : BusM Int} {r r' : List Answer → Option (UInt8 × List Answer)}
    {P Q R : UInt8 → List Exchange → Prop} (hx : Follows x r P) (hy : Follows y r' Q)
    (join : ∀ v t v' t', P v t → Q v' t' → R v' (t ++ t')) :
    Follows (x >>= fun ret => onSuccess ret y) (fun l => (r l).bind fun p => r' p.2) R := by
  intro s
  rcases reading : r s.answers with _ | ⟨v, rest⟩
  · have failed := (hx s).1 reading
    simp only [reading, Option.bind_none]
    refine ⟨fun _ => ?_, fun _ _ known => by cases known⟩
    rw [bind_apply]
    rcases run : x s with ⟨_ | ret, s'⟩
    · exact fun same => by cases same
    · rw [run] at failed
      exact onSuccess_failed (fun zero => failed (by rw [zero])) y s'
  · obtain ⟨t, run, shown⟩ := (hx s).2 v rest reading
    have later := hy { answers := rest, sent := s.sent ++ t }
    rw [bind_of_some run, onSuccess_zero]
    simp only [reading, Option.bind_some]
    refine ⟨later.1, fun v' rest' known => ?_⟩
    obtain ⟨t', run', shown'⟩ := later.2 v' rest' known
    exact ⟨t ++ t', by rw [run', List.append_assoc], join v t v' t' shown shown'⟩

theorem follows_transfer (tx : List UInt8) {y : Answer → BusM Int}
    {r : UInt8 → List Answer → Option (UInt8 × List Answer)} {P Q : UInt8 → List Exchange → Prop}
    (hy : ∀ a, a.ret = 0 → Follows (y a) (r a.rx) P)
    (join : ∀ a v t, a.ret = 0 → P v t → Q v ((tx, a) :: t)) :
    Follows (spiTransfer tx >>= fun a => onSuccess a.ret (y a))
      (fun l => (accepted l).bind fun p => r p.1 p.2) Q := by
  rintro ⟨_ | ⟨a, rest⟩, sent⟩
  · exact ⟨fun _ same => (by cases same), fun _ _ known => by cases known⟩
  · have run : spiTransfer tx { answers := a :: rest, sent } =
        (some a, { answers := rest, sent := sent ++ [(tx, a)] }) := rfl
    rw [bind_of_some run]
    dsimp only
    by_cases ok : a.ret = 0
    · have later := hy a ok { answers := rest, sent := sent ++ [(tx, a)] }
      rw [ok, onSuccess_zero, accepted, if_pos ok, Option.bind_some]
      refine ⟨later.1, fun v rest' known => ?_⟩
      obtain ⟨t, run', shown⟩ := later.2 v rest' known
      exact ⟨(tx, a) :: t, by rw [run', List.append_assoc, List.singleton_append], join a v t ok shown⟩
    · rw [accepted, if_neg ok]
      exact ⟨fun _ => onSuccess_failed ok _ _, fun _ _ known => by cases known⟩

theorem follows_wait : Follows nandWaitWhileBusy idle fun v t =>
    Quiet t ∧ ∀ u, firstIdle (t ++ u) = some v := by
  rintro ⟨answers, sent⟩
  simp only [nandWaitWhileBusy]
  induction answers generalizing sent with
  | nil => exact ⟨fun _ same => (by cases same), fun _ _ known => by cases known⟩
  | cons a rest ih =>
    have quiet : Quiet [(readStatus, a)] := by
      intro e member
      obtain rfl := List.mem_singleton.mp member
      exact fun same => absurd (Option.some_inj.mp same) (by decide)
    rw [idle, pollBusy]
    by_cases failed : a.ret ≠ 0
    · rw [if_pos failed, if_pos failed]
      exact ⟨fun _ same => failed (Option.some_inj.mp same), fun _ _ known => by cases known⟩
    · rw [if_neg failed, if_neg failed]
      by_cases busy : a.rx &&& 0x01 = 0x01
      · rw [if_pos busy, if_pos busy]
        obtain ⟨fails, succeeds⟩ := ih (sent ++ [(readStatus, a)])
        refine ⟨fails, fun v rest' reading => ?_⟩
        obtain ⟨t, run, still, first⟩ := succeeds v rest' reading
        refine ⟨(readStatus, a) :: t, by rw [run, List.append_assoc, List.singleton_append],
          quiet.append still, fun u => ?_⟩
        rw [List.cons_append, firstIdle, if_neg fun settled => settled.2.2 busy]
        exact first u
      · rw [if_neg busy, if_neg busy]
        refine ⟨fun none => (by cases none), fun v rest' reading => ?_⟩
        cases reading
        exact ⟨[(readStatus, a)], rfl, quiet, fun u => if_pos ⟨rfl, not_not.mp failed, busy⟩⟩

theorem follows_command {tx : List UInt8} (other : tx.head? ≠ some opcodeProgramExec) :
    Follows (spiTransfer tx >>= fun a => onSuccess a.ret nandWaitWhileBusy) settled
      fun _ t => Quiet t := by
  refine follows_transfer tx (r := fun _ => idle) (fun _ _ => follows_wait) ?_
  intro a v t ok shown e member
  rcases List.mem_cons.mp member with rfl | member
  · exact other
  · exact shown.1 e member

theorem follows_writeEnable : Follows nandWriteEnable settled fun _ t => Quiet t :=
  follows_command (by decide)

theorem follows_execute (addr : List UInt8) :
    Follows (spiTransfer (opcodeProgramExec :: addr) >>= fun a => onSuccess a.ret nandWaitWhileBusy)
      settled Shows := by
  refine follows_transfer _ (r := fun _ => idle) (fun _ _ => follows_wait) ?_
  intro a v t ok shown u
  rw [List.cons_append, programStatuses, if_pos List.head?_cons, shown.2,
    programStatuses_quiet shown.1]

theorem follows_execProgram (page : Nat) : Follows (nandExecProgram page)
    (fun l => (settled l).bind fun again => settled again.2) Shows :=
  follows_writeEnable.next (follows_execute _) fun _ _ _ _ quiet shows => shows.behind quiet

private theorem Shows.after {c : UInt8} {tx : List UInt8} {a : Answer} {v : UInt8}
    {t : List Exchange} (other : c ≠ opcodeProgramExec) (shows : Shows v t) :
    Shows v ((c :: tx, a) :: t) := by
  refine Shows.behind (t := [(c :: tx, a)]) (fun e member => ?_) shows
  obtain rfl := List.mem_singleton.mp member
  exact fun same => other (Option.some_inj.mp same)

private theorem follows_check (page : Nat) :
    Follows (spiTransfer readStatus >>= fun val => onSuccess val.ret
      (if val.rx &&& 0x08 ≠ 0 then pure (-1) else nandExecProgram page))
      (fun l => (accepted l).bind fun val => if val.1 &&& 0x08 ≠ 0 then none
        else (settled val.2).bind fun again => settled again.2) Shows := by
  refine follows_transfer readStatus (P := Shows) (r := fun rx l => if rx &&& 0x08 ≠ 0 then none
    else (settled l).bind fun again => settled again.2) (fun a _ => ?_) fun _ _ _ _ shows =>
      shows.after (by decide)
  by_cases failed : a.rx &&& 0x08 ≠ 0
  · simp only [if_pos failed]
    exact fun s => ⟨fun _ same => absurd (Option.some_inj.mp same) (by decide),
      fun _ _ known => by cases known⟩
  · simp only [if_neg failed]
    exact follows_execProgram page

theorem follows_pageWrite {p : Piece} (allowed : Piece.Allowed p) {bs : List UInt8}
    (full : bs.length = p.len) : Follows (nandPageWrite p.page p.offset p.data bs) pageStatus Shows := by
  have polled := follows_wait.next (R := Shows) (follows_check p.page)
    fun _ _ _ _ polls shows => shows.behind polls.1
  have loaded := follows_transfer (Q := Shows)
    (opcodeProgramLoad :: .ofNat (p.offset >>> 8) :: .ofNat p.offset :: bs) (r := fun _ => _)
    (fun _ _ => polled) fun _ _ _ _ shows => shows.after (by decide)
  have whole := follows_writeEnable.next (R := Shows) loaded
    fun _ _ _ _ quiet shows => shows.behind quiet
  have reading : pageStatus = fun l => (settled l).bind fun enabled =>
      (accepted enabled.2).bind fun sent => (idle sent.2).bind fun loaded =>
        (accepted loaded.2).bind fun val => if val.1 &&& 0x08 ≠ 0 then none
          else (settled val.2).bind fun again => settled again.2 := by
    funext l
    simp only [pageStatus, settled, Option.bind_assoc]
  unfold Piece.Allowed at allowed
  rw [nandPageWrite, full, guards_eq, if_pos allowed, reading]
  exact whole

private theorem pageWrite_refused {p : Piece} (refused : ¬ Piece.Allowed p) {bs : List UInt8}
    (full : bs.length = p.len) (s : Bus) : (nandPageWrite p.page p.offset p.data bs s).1 ≠ some 0 := by
  unfold Piece.Allowed at refused
  rw [nandPageWrite, full, guards_eq, if_neg refused]
  exact fun same => absurd (Option.some_inj.mp same) (by decide)

/-- A page write over the pieces, from any state of the bus. -/
def WritesRange (x : BusM Int) (ps : List Piece) : Prop := ∀ s,
  (rangeStatuses ps s.answers = none → (x s).1 ≠ some 0) ∧
  ∀ statuses, rangeStatuses ps s.answers = some statuses →
    ∃ rest t, x s = (some 0, { answers := rest, sent := s.sent ++ t }) ∧
      ∀ u, programStatuses (t ++ u) = statuses.map some ++ programStatuses u

theorem writesRange_nil : WritesRange (pure 0) [] := by
  intro s
  refine ⟨fun none => (by cases none), fun statuses known => ?_⟩
  cases known
  exact ⟨s.answers, [], by rw [List.append_nil]; rfl, fun u => rfl⟩

theorem writesRange_cons {p : Piece} {ps : List Piece} {bs : List UInt8} {y : BusM Int}
    (full : bs.length = p.len) (later : WritesRange y ps) :
    WritesRange (nandPageWrite p.page p.offset p.data bs >>= fun ret => onSuccess ret y) (p :: ps) := by
  intro s
  rw [rangeStatuses, bind_apply]
  by_cases allowed : Piece.Allowed p
  · rw [if_pos allowed]
    obtain ⟨fails, succeeds⟩ := follows_pageWrite allowed full s
    rcases reading : pageStatus s.answers with _ | ⟨v, rest⟩
    · have failed := fails reading
      refine ⟨fun _ => ?_, fun _ known => by cases known⟩
      rcases run : nandPageWrite p.page p.offset p.data bs s with ⟨_ | ret, s'⟩
      · exact fun same => by cases same
      · rw [run] at failed
        exact onSuccess_failed (fun zero => failed (by rw [zero])) y s'
    · obtain ⟨t, run, shows⟩ := succeeds v rest reading
      obtain ⟨fails', succeeds'⟩ := later { answers := rest, sent := s.sent ++ t }
      rw [run, Option.bind_some]
      simp only [onSuccess_zero]
      refine ⟨fun none => fails' (Option.map_eq_none_iff.mp none), fun statuses known => ?_⟩
      obtain ⟨statuses', known', rfl⟩ := Option.map_eq_some_iff.mp known
      obtain ⟨rest', t', run', shows'⟩ := succeeds' statuses' known'
      refine ⟨rest', t ++ t', by rw [run', List.append_assoc], fun u => ?_⟩
      rw [List.append_assoc, shows, shows', List.map_cons, List.cons_append]
  · rw [if_neg allowed]
    refine ⟨fun _ => ?_, fun _ known => by cases known⟩
    have failed := pageWrite_refused allowed full s
    rcases run : nandPageWrite p.page p.offset p.data bs s with ⟨_ | ret, s'⟩
    · exact fun same => by cases same
    · rw [run] at failed
      exact onSuccess_failed (fun zero => failed (by rw [zero])) y s'

private theorem onSuccess_last (x : BusM Int) : (x >>= fun ret => onSuccess ret (pure 0)) = x := by
  funext s
  rw [bind_apply]
  rcases x s with ⟨_ | ret, s'⟩
  · rfl
  · by_cases ok : ret = 0
    · simp only [ok, onSuccess_zero]
      rfl
    · simp only [onSuccess, if_pos ok]
      rfl

theorem writeLoop_writes (fuel page offset buf : Nat) (bs : List UInt8) (fueled : bs.length < fuel)
    (inPage : offset < pageSize) :
    WritesRange (writeLoop fuel page offset buf bs) (cutRange fuel page offset buf bs.length) := by
  induction fuel generalizing page offset buf bs with
  | zero => omega
  | succ fuel ih =>
    rw [writeLoop, cutRange]
    by_cases done : bs.length = 0
    · rw [if_pos done, if_pos done]
      exact writesRange_nil
    · rw [if_neg done, if_neg done]
      by_cases across : u32 (offset + bs.length) > pageSize
      · rw [if_pos across, if_pos across]
        have more : pageSize - offset < bs.length := by
          have wrap : u32 (offset + bs.length) ≤ offset + bs.length := Nat.mod_le _ _
          omega
        have rest : (bs.drop (pageSize - offset)).length = bs.length - (pageSize - offset) :=
          List.length_drop
        have later := ih (page + 1) 0 (u32 (buf + (pageSize - offset))) (bs.drop (pageSize - offset))
          (by omega) (by decide)
        rw [rest] at later
        exact writesRange_cons (p := ⟨page, offset, buf, pageSize - offset⟩)
          (List.length_take_of_le (Nat.le_of_lt more)) later
      · rw [if_neg across, if_neg across]
        have full : bs.length = (⟨page, offset, buf, bs.length⟩ : Piece).len := rfl
        have last := writesRange_cons full writesRange_nil
        rwa [onSuccess_last] at last

/-- A write of one page, of bytes at an address, for a sequence of answers. -/
def pageRun (p : Piece) (bs : List UInt8) (answers : List Answer) : Option Int × Bus :=
  nandPageWrite p.page p.offset p.data bs { answers, sent := [] }

/-- A write of a range. -/
def rangeRun (addr buf : UInt32) (bs : List UInt8) (size : UInt32) (answers : List Answer) :
    Option Int × Bus :=
  partitionNandWrite addr buf bs size { answers, sent := [] }

/-- The page write reports failures exactly where the status behind PROGRAM EXECUTE, if it gets
that far, has the failure bit clear. -/
theorem pageRun_reports_iff {p : Piece} {bs : List UInt8} (full : bs.length = p.len)
    (answers : List Answer) :
    ((pageRun p bs answers).1 = some 0 →
      ∃ v, programStatuses (pageRun p bs answers).2.sent = [some v] ∧ v &&& 0x08 = 0) ↔
    (Piece.Allowed p → ∀ v rest, pageStatus answers = some (v, rest) → v &&& 0x08 = 0) := by
  by_cases allowed : Piece.Allowed p
  · obtain ⟨fails, succeeds⟩ := follows_pageWrite allowed full { answers, sent := [] }
    rcases reading : pageStatus answers with _ | ⟨v, rest⟩
    · have failed := fails reading
      exact iff_of_true (fun ok => absurd ok failed) fun _ v rest known => by cases known
    · obtain ⟨t, run, shows⟩ := succeeds v rest reading
      have whole := shows []
      rw [List.append_nil] at whole
      rw [pageRun, run, List.nil_append, whole, programStatuses]
      constructor
      · intro reported _ v' rest' known
        obtain ⟨v'', same, good⟩ := reported rfl
        cases known
        cases same
        exact good
      · intro good _
        exact ⟨v, rfl, good allowed v rest rfl⟩
  · have failed := pageWrite_refused allowed full { answers, sent := [] }
    exact iff_of_true (fun ok => absurd ok failed) fun known => absurd known allowed

/-- `nand_page_write` and with it `partition_nand_write` look at the failure bit before PROGRAM
EXECUTE. They report failures exactly where, in case every page gets as far as its status behind
PROGRAM EXECUTE, that status has the bit clear. -/
theorem programFailure_reported_iff (answers : List Answer) :
    (∀ (p : Piece) (bs : List UInt8), bs.length = p.len →
      (((pageRun p bs answers).1 = some 0 →
        ∃ v, programStatuses (pageRun p bs answers).2.sent = [some v] ∧ v &&& 0x08 = 0) ↔
      (Piece.Allowed p → ∀ v rest, pageStatus answers = some (v, rest) → v &&& 0x08 = 0))) ∧
    ∀ (addr buf size : UInt32) (bs : List UInt8), bs.length = size.toNat →
      (((rangeRun addr buf bs size answers).1 = some 0 →
        ReportedGood (rangeRun addr buf bs size answers).2.sent) ↔
      (¬ ((addr + size).toNat > totalSize ∨ buf = 0) →
        ∀ statuses, rangeStatuses (pieces addr buf size) answers = some statuses →
          ∀ v ∈ statuses, v &&& 0x08 = 0)) := by
  refine ⟨fun p bs full => pageRun_reports_iff full answers, ?_⟩
  intro addr buf size bs full
  unfold rangeRun partitionNandWrite pieces
  by_cases refused : (addr + size).toNat > totalSize ∨ buf = 0
  · rw [if_pos refused]
    exact iff_of_true (fun ok => absurd (Option.some_inj.mp ok) (by decide))
      fun inside => absurd refused inside
  · rw [if_neg refused, List.take_of_length_le (by omega), ← full]
    obtain ⟨fails, succeeds⟩ := writeLoop_writes (bs.length + 1) (addr.toNat / pageSize)
      (addr.toNat % pageSize) buf.toNat bs (Nat.lt_succ_self _) (Nat.mod_lt _ (by decide))
      { answers, sent := [] }
    rcases reading : rangeStatuses (cutRange (bs.length + 1) (addr.toNat / pageSize)
      (addr.toNat % pageSize) buf.toNat bs.length) answers with _ | statuses
    · exact iff_of_true (fun ok => absurd ok (fails reading)) fun _ _ known => by cases known
    · obtain ⟨rest, t, run, shows⟩ := succeeds statuses reading
      have whole := shows []
      rw [List.append_nil, programStatuses, List.append_nil] at whole
      rw [run, List.nil_append, ReportedGood, whole]
      constructor
      · intro reported _ statuses' known v member
        cases known
        obtain ⟨v', same, good⟩ := reported rfl (some v) (List.mem_map_of_mem member)
        cases same
        exact good
      · intro good _ status member
        obtain ⟨v, listed, rfl⟩ := List.mem_map.mp member
        exact ⟨v, rfl, good refused statuses rfl v listed⟩

/-- A page that the chip fails to program: every status is good but the last. -/
theorem programFailure_unreported :
    (pageRun ⟨0, 0, 0x41000000, 1⟩ [0x55]
      (List.replicate 8 ⟨0, 0x00⟩ ++ [⟨0, 0x08⟩])).1 = some 0 ∧
    programStatuses (pageRun ⟨0, 0, 0x41000000, 1⟩ [0x55]
      (List.replicate 8 ⟨0, 0x00⟩ ++ [⟨0, 0x08⟩])).2.sent = [some 0x08] := by
  decide

/-- A page that is programmed. -/
theorem programSuccess_reported :
    ∃ v, programStatuses (pageRun ⟨0, 0, 0x41000000, 1⟩ [0x55]
      (List.replicate 9 ⟨0, 0x00⟩)).2.sent = [some v] ∧ v &&& 0x08 = 0 := by
  have reading : pageStatus (List.replicate 9 ⟨0, 0x00⟩) = some (0x00, []) := by decide
  refine ((programFailure_reported_iff (List.replicate 9 ⟨0, 0x00⟩)).1 ⟨0, 0, 0x41000000, 1⟩ [0x55]
    rfl).mpr (fun _ v rest known => ?_) (by decide)
  rw [reading] at known
  cases known
  rfl

end T113Boot.Nand.ProgramStatus
