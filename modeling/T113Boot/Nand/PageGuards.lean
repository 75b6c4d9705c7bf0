/- Module: T113Boot/Nand/PageGuards
   layer: specification
   digest: Which arguments the guards of the page operations let through and should not. -/

import T113Boot.Nand.ProgramStatus

set_option autoImplicit false
set_option relaxedAutoImplicit false

namespace T113Boot.Nand.PageGuards

open T113Boot.Lib.Stoppable
open Prog
open T113Boot.Nand.Chip (pageSize pagesPerBlock blocksTotal guards_eq)
open T113Boot.Nand.Pieces
open T113Boot.Nand.Spi
open T113Boot.Nand.ProgramStatus

/-- The commands that read, program or erase. -/
def commands : List UInt8 :=
  [opcodePageRead, opcodeReadCache, opcodeProgramLoad, opcodeProgramExec, opcodeBlockErase]

def Issued (sent : List Exchange) : Prop := ∃ e ∈ sent, ∃ op ∈ commands, e.1.head? = some op

/-- An operation run on a bus with these answers to come. -/
def run (x : BusM Int) (answers : List Answer) : Option Int × Bus := x { answers, sent := [] }

/-- The operation returns a code other than zero before any command is issued. -/
def Refuses (x : BusM Int) (answers : List Answer) : Prop :=
  ∃ ret, (run x answers).1 = some ret ∧ ret ≠ 0 ∧ ¬ Issued (run x answers).2.sent

/-- Whatever the bus answers, the operation refuses where its arguments are not inside. -/
def StaysInside (x : BusM Int) (inside : Prop) : Prop :=
  ∀ answers, Refuses x answers ∨ inside

theorem refuses_pure (answers : List Answer) : Refuses (pure (-1)) answers := by
  refine ⟨-1, rfl, by decide, ?_⟩
  rintro ⟨e, member, -⟩
  cases member

theorem not_refuses {x : BusM Int} {answers : List Answer} (ok : (run x answers).1 = some 0) :
    ¬ Refuses x answers := by
  rintro ⟨ret, returned, nonzero, -⟩
  rw [ok] at returned
  exact nonzero (Option.some_inj.mp returned).symm

theorem staysInside_iff {x : BusM Int} {passes inside : Prop} (guarded : ¬ passes → x = pure (-1))
    (obliges : passes → ∃ answers, (run x answers).1 = some 0) :
    StaysInside x inside ↔ (passes → inside) := by
  constructor
  · intro stays pass
    obtain ⟨answers, ok⟩ := obliges pass
    exact (stays answers).resolve_left (not_refuses ok)
  · intro covered answers
    by_cases pass : passes
    · exact Or.inr (covered pass)
    · rw [guarded pass]
      exact Or.inl (refuses_pure answers)

/-- A page of the chip, and columns of the page. -/
def Inside (p : Piece) : Prop :=
  p.page < blocksTotal * pagesPerBlock ∧ p.offset + p.len ≤ pageSize

/-- The page behind the last, or columns that begin in the page and end behind it. -/
def Slips (p : Piece) : Prop :=
  p.page = blocksTotal * pagesPerBlock ∨ pageSize < p.offset + p.len

/-- A transfer that succeeds, with the chip ready. -/
def ready : Answer := ⟨0, 0⟩

theorem passes_inside_iff (p : Piece) :
    (Piece.Allowed p → Inside p) ↔ ¬ (Piece.Allowed p ∧ Slips p) := by
  have gap (allowed : Piece.Allowed p) : Inside p ↔ ¬ Slips p := by
    obtain ⟨-, page, -, -⟩ := allowed
    unfold Inside Slips
    omega
  constructor
  · rintro inside ⟨allowed, slips⟩
    exact (gap allowed).mp (inside allowed) slips
  · intro closed allowed
    exact (gap allowed).mpr fun slips => closed ⟨allowed, slips⟩

theorem pageRead_staysInside_iff (p : Piece) :
    StaysInside (nandPageRead p.page p.offset p.data p.len) (Inside p) ↔
      ¬ (Piece.Allowed p ∧ Slips p) := by
  rw [← passes_inside_iff, nandPageRead, guards_eq]
  refine staysInside_iff (fun refused => if_neg refused) fun allowed => ?_
  refine ⟨List.replicate 5 ready, ?_⟩
  unfold Piece.Allowed at allowed
  rw [if_pos allowed]
  rfl

theorem pageWrite_staysInside_iff {p : Piece} {bs : List UInt8} (full : bs.length = p.len) :
    StaysInside (nandPageWrite p.page p.offset p.data bs) (Inside p) ↔
      ¬ (Piece.Allowed p ∧ Slips p) := by
  rw [← passes_inside_iff, nandPageWrite, full, guards_eq]
  refine staysInside_iff (fun refused => if_neg refused) fun allowed => ?_
  refine ⟨List.replicate 9 ready, ?_⟩
  unfold Piece.Allowed at allowed
  rw [if_pos allowed]
  rfl

theorem erasePage_staysInside_iff (page : Nat) :
    StaysInside (nandErasePage page) (page < blocksTotal * pagesPerBlock) ↔
      page ≠ blocksTotal * pagesPerBlock := by
  have stays : StaysInside (nandErasePage page) (page < blocksTotal * pagesPerBlock) ↔
      (page ≤ blocksTotal * pagesPerBlock → page < blocksTotal * pagesPerBlock) := by
    refine staysInside_iff (fun behind => if_pos (Nat.not_le.mp behind)) fun onChip => ?_
    refine ⟨List.replicate 5 ready, ?_⟩
    rw [nandErasePage, if_neg (Nat.not_lt.mpr onChip)]
    rfl
  rw [stays]
  omega

/-- The page operations refuse what does not lie on the chip and in one page, unless their guards
have a gap there: all three let the page behind the last through, and reading and writing let a
range through that begins in the page and runs past its end. -/
theorem pageOperations_inside_iff (page offset data len : UInt32) (bs : List UInt8) :
    (StaysInside (nandPageRead page.toNat offset.toNat data.toNat len.toNat)
        (Inside ⟨page.toNat, offset.toNat, data.toNat, len.toNat⟩) ↔
      ¬ (Piece.Allowed ⟨page.toNat, offset.toNat, data.toNat, len.toNat⟩ ∧
        Slips ⟨page.toNat, offset.toNat, data.toNat, len.toNat⟩)) ∧
    (StaysInside (nandPageWrite page.toNat offset.toNat data.toNat bs)
        (Inside ⟨page.toNat, offset.toNat, data.toNat, bs.length⟩) ↔
      ¬ (Piece.Allowed ⟨page.toNat, offset.toNat, data.toNat, bs.length⟩ ∧
        Slips ⟨page.toNat, offset.toNat, data.toNat, bs.length⟩)) ∧
    (StaysInside (nandErasePage page.toNat) (page.toNat < blocksTotal * pagesPerBlock) ↔
      page.toNat ≠ blocksTotal * pagesPerBlock) := by
  refine ⟨?_, ?_, ?_⟩
  · exact pageRead_staysInside_iff ⟨page.toNat, offset.toNat, data.toNat, len.toNat⟩
  · exact pageWrite_staysInside_iff (p := ⟨page.toNat, offset.toNat, data.toNat, bs.length⟩) rfl
  · exact erasePage_staysInside_iff page.toNat

/-- The erase of the page behind the last goes to row 0x020000, of which the chip has 17 bits: it
is block 0 that is erased. -/
theorem erase_behind_last :
    run (nandErasePage 131072) (List.replicate 5 ready) = (some 0, { answers := [], sent :=
      [([0x06], ready), (readStatus, ready), ([0xD8, 0x02, 0x00, 0x00], ready),
        (readStatus, ready), (readStatus, ready)] }) ∧
    ¬ StaysInside (nandErasePage 131072) (131072 < blocksTotal * pagesPerBlock) :=
  ⟨rfl, fun stays => (erasePage_staysInside_iff 131072).mp stays rfl⟩

end T113Boot.Nand.PageGuards
