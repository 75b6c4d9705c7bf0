/- Module: T113Boot/Ota/Outcomes
   layer: specification
   digest: How each function of `ota.c` ends, with failing calls that change nothing and any supply. -/

import T113Boot.Ota.Reach

set_option autoImplicit false
set_option relaxedAutoImplicit false

namespace T113Boot.Ota.Outcomes

open T113Boot.Lib.Cells
open T113Boot.Lib.Stoppable
open Prog
open T113Boot.Storage.Table
open T113Boot.Ymodem.Transfer
open T113Boot.Ota.Board
open T113Boot.Ota.Crc32
open T113Boot.Ota.Firmware
open T113Boot.Ota.Access
open T113Boot.Ota.Layout
open T113Boot.Ota.Footprint
open T113Boot.Ota.Loops
open T113Boot.Ota.Reception
open T113Boot.Ota.Reach

/-- The device calls that fail leave their target and their buffer as they were. -/
def Quiet (w : World) : Prop := ∀ f : Fault, some f ∈ w.faults → f.left = []

theorem Quiet.of_suffix {w w' : World} (quiet : Quiet w) (h : w'.faults <:+ w.faults) : Quiet w' :=
  fun f member => quiet f (h.subset member)

theorem quiet_healthy {w : World} (healthy : w.faults = []) : Quiet w := by
  intro f member
  rw [healthy] at member
  exact absurd member List.not_mem_nil

private theorem head_fault {w : World} {f : Fault} (h : w.faults.headD none = some f) :
    some f ∈ w.faults := by
  rcases hw : w.faults with _ | ⟨first, rest⟩ <;> rw [hw] at h
  · cases h
  · rw [List.headD_cons] at h
    rw [h]
    exact List.mem_cons_self

theorem faults_ne {w : World} {f : Fault} (h : w.faults.headD none = some f) : w.faults ≠ [] :=
  List.ne_nil_of_mem (head_fault h)

theorem changeAnswer_quiet {w : World} (quiet : Quiet w) (addr size : Nat) (done : Mem) :
    changeAnswer w addr size done = (0, done) ∨
      (changeAnswer w addr size done).1 ≠ 0 ∧ (changeAnswer w addr size done).2 = w.flash ∧
        w.faults ≠ [] := by
  unfold changeAnswer
  rcases head : w.faults.headD none with _ | f
  · exact .inl rfl
  · refine .inr ⟨f.code_ne, ?_, faults_ne head⟩
    dsimp only
    rw [quiet f (head_fault head), List.take_nil, store_nil]

theorem readAnswer_quiet {w : World} (quiet : Quiet w) (addr size : Nat) :
    readAnswer w addr size = (0, slice w.flash addr size) ∨
      (readAnswer w addr size).1 ≠ 0 ∧ (readAnswer w addr size).2 = [] ∧ w.faults ≠ [] := by
  unfold readAnswer
  rcases head : w.faults.headD none with _ | f
  · exact .inl rfl
  · refine .inr ⟨f.code_ne, ?_, faults_ne head⟩
    dsimp only
    rw [quiet f (head_fault head), List.take_nil]

/-- A flash whose `Param` begins with the record. -/
def storeParam (m : Mem) (p : OtaParamers) : Mem :=
  program (erase m param.start.toNat 32) param.start.toNat p.encode

/-- A flash whose record was erased. -/
def eraseParam (m : Mem) : Mem := erase m param.start.toNat 32

/-- The call that erases the record. -/
def eraseCall : DevCall := ⟨.erase, param.start, recordSize⟩

theorem paramOf_store (m : Mem) (p : OtaParamers) : paramOf (storeParam m p) = p := by
  apply paramOf_encode
  have back := slice_program (erase m param.start.toNat 32) param.start.toNat p.encode
    (fun x lo hi => erase_inside lo (by rw [p.length_encode] at hi; exact hi))
  rw [p.length_encode] at back
  exact back

theorem sameOutside_storeParam (m : Mem) (p : OtaParamers) :
    SameOutside [param] m (storeParam m p) := by
  have room := param.room
  have erased : SameOutside [param] m (erase m (param.start.toNat + 0) 32) :=
    sameOutside_erase m (by omega)
  have stored : SameOutside [param] (erase m (param.start.toNat + 0) 32)
      (program (erase m (param.start.toNat + 0) 32) (param.start.toNat + 0) p.encode) :=
    sameOutside_program _ p.encode (by rw [p.length_encode]; omega)
  exact erased.trans stored

theorem paramOf_erase (m : Mem) : paramOf (eraseParam m) =
    ⟨0xFFFFFFFF, 0xFFFFFFFF, 0xFFFFFFFF, 0xFFFFFFFF, 0xFFFFFFFF, 0xFFFFFFFF, 0xFFFFFFFF,
      0xFFFFFFFF⟩ := by
  rw [paramOf, eraseParam, slice_erase]
  decide

/-- How storing a record ends. Without faults and with supply only the first way is open. -/
inductive StoreEnd (w : World) (p : OtaParamers) : Option Int → World → Prop
  | stored {w' : World} (flash : w'.flash = storeParam w.flash p) : StoreEnd w p (some otaOk) w'
  | failed {w' : World} (faulty : w.faults ≠ [])
      (flash : w'.flash = w.flash ∨ w'.flash = eraseParam w.flash) :
      StoreEnd w p (some otaErrPartition) w'
  | cut {w' : World} (supply : w.power ≠ none) (flash : w'.flash = w.flash) : StoreEnd w p none w'
  | torn {w' : World} (supply : w.power ≠ none) (flash : w'.flash = eraseParam w.flash)
      (last : w'.trace.getLast? = some eraseCall) : StoreEnd w p none w'

theorem rewriteParam_ends {w : World} (quiet : Quiet w) (p : OtaParamers) :
    StoreEnd w p (rewriteParam p w).1 (rewriteParam p w).2 := by
  have start : param.start.toNat + (0 : UInt32).toNat = param.start.toNat := rfl
  have size : recordSize.toNat = 32 := rfl
  have erasing := partitionErase_fits param (fits_record param) (by decide) w
  rw [rewriteParam, paraPart_eq]
  by_cases off : w.power = some 0
  · rw [if_pos off] at erasing
    rw [bind_of_none erasing]
    exact .cut (by rw [off]; simp) rfl
  · rw [if_neg off, start, size] at erasing
    dsimp only at erasing
    rw [bind_of_some erasing]
    rcases changeAnswer_quiet quiet param.start.toNat 32 (erase w.flash param.start.toNat 32)
      with done | ⟨bad, same, faulty⟩
    · rw [done]
      generalize hw : after w ⟨.erase, param.start + 0, recordSize⟩
        (erase w.flash param.start.toNat 32) = w₁
      have flash₁ : w₁.flash = eraseParam w.flash := by rw [← hw]; rfl
      have trace₁ : w₁.trace.getLast? = some eraseCall := by
        rw [← hw, after_trace, List.getLast?_concat]
        rfl
      have power₁ : w₁.power = some 0 → w.power ≠ none := by
        rw [← hw, after_power]
        intro zero none
        rw [none] at zero
        cases zero
      have quiet₁ : Quiet w₁ := by
        rw [← hw]
        exact quiet.of_suffix (List.tail_suffix _)
      have faults₁ : w₁.faults ≠ [] → w.faults ≠ [] := by
        rw [← hw, after_faults]
        intro more none
        rw [none] at more
        exact more rfl
      have whole : p.encode.length = recordSize.toNat := by rw [p.length_encode, size]
      have writing := partitionWrite_fits param (fits_record param) whole w₁
      rw [if_neg (by simp)]
      by_cases off₁ : w₁.power = some 0
      · rw [if_pos off₁] at writing
        rw [bind_of_none writing]
        exact .torn (power₁ off₁) flash₁ trace₁
      · rw [if_neg off₁, start, size, flash₁] at writing
        dsimp only at writing
        rw [bind_of_some writing]
        rcases changeAnswer_quiet quiet₁ param.start.toNat 32
          (program (eraseParam w.flash) param.start.toNat p.encode) with done₁ | ⟨bad₁, same₁, faulty₁⟩
        · rw [done₁, if_neg (by simp)]
          exact .stored rfl
        · rw [if_pos bad₁]
          exact .failed (faults₁ faulty₁) (.inr (same₁.trans flash₁))
    · rw [if_pos bad]
      exact .failed faulty (.inl same)

/-- The record once its one rollback is spent. -/
def spent (p : OtaParamers) : OtaParamers := { p with canBeBack := 0, upgradeReady := 0 }

theorem tryOther_run (p : OtaParamers) (w : World) : ∃ found faults,
    tryOther p w = (some (found, if found then flipped p else p), { w with faults := faults }) ∧
      faults <:+ w.faults ∧
      (found = true → (headerOf (otherApp p) w.flash).magic = otaFirmwareMagic) ∧
      (found = false → w.faults ≠ [] ∨ (headerOf (otherApp p) w.flash).magic ≠ otaFirmwareMagic) := by
  have read := recordRead_run (otherApp p) w
  rw [tryOther, otherPart_eq, bind_of_some read]
  by_cases ok : (readAnswer w (otherApp p).start.toNat 32).1 = 0
  · rw [if_neg fun failed => failed ok, readAnswer_ok ok, load_headerOf]
    by_cases headed : (headerOf (otherApp p) w.flash).magic = otaFirmwareMagic
    · refine ⟨true, _, ?_, List.tail_suffix _, fun _ => headed, by simp⟩
      rw [if_neg fun bad => bad headed, flipped, otherSlot]
      split <;> rfl
    · refine ⟨false, _, ?_, List.tail_suffix _, by simp, fun _ => .inr headed⟩
      rw [if_pos headed]
      rfl
  · refine ⟨false, _, ?_, List.tail_suffix _, by simp, fun _ => .inl fun healthy => ?_⟩
    · rw [if_pos ok]
      rfl
    · rw [readAnswer_healthy healthy] at ok
      exact ok rfl

/-- The record allows a rollback. -/
def CanRoll (p : OtaParamers) : Prop := p.magic = otaParaMagic ∧ p.canBeBack = backupFlag

/-- How a rollback ends. -/
inductive BackupEnd (w : World) : Option Int → World → Prop
  | refused {ret : Int} {w' : World}
      (code : ret = otaErrPartition ∧ w.faults ≠ [] ∨
        ret = otaErrCheck ∧ (paramOf w.flash).magic ≠ otaParaMagic ∨
        ret = otaErrBackup ∧ (paramOf w.flash).canBeBack ≠ backupFlag)
      (flash : w'.flash = w.flash) : BackupEnd w (some ret) w'
  | gaveUp {w' : World} (ready : CanRoll (paramOf w.flash))
      (headless : w.faults ≠ [] ∨
        (headerOf (otherApp (paramOf w.flash)) w.flash).magic ≠ otaFirmwareMagic)
      (flash : w'.flash = storeParam w.flash (spent (paramOf w.flash))) :
      BackupEnd w (some otaErrBackup) w'
  | switched {w' : World} (ready : CanRoll (paramOf w.flash))
      (headed : (headerOf (otherApp (paramOf w.flash)) w.flash).magic = otaFirmwareMagic)
      (flash : w'.flash = storeParam w.flash (flipped (spent (paramOf w.flash)))) :
      BackupEnd w (some otaOk) w'
  | failed {w' : World} (ready : CanRoll (paramOf w.flash)) (faulty : w.faults ≠ [])
      (flash : w'.flash = w.flash ∨ w'.flash = eraseParam w.flash) :
      BackupEnd w (some otaErrPartition) w'
  | cut {w' : World} (supply : w.power ≠ none) (flash : w'.flash = w.flash) : BackupEnd w none w'
  | torn {w' : World} (supply : w.power ≠ none) (flash : w'.flash = eraseParam w.flash)
      (last : w'.trace.getLast? = some eraseCall) : BackupEnd w none w'

theorem rollBack_eq (p : OtaParamers) : rollBack p = tryOther (spent p) >>= fun found =>
    rewriteParam found.2 >>= fun ret => if ret ≠ 0 then pure otaErrPartition
      else if found.1 = false then pure otaErrBackup else pure otaOk := by
  unfold rollBack spent
  rfl

theorem rollBack_ends {w w₁ : World} (quiet : Quiet w) (ready : CanRoll (paramOf w.flash))
    (flash : w₁.flash = w.flash) (faults : w₁.faults <:+ w.faults) (power : w₁.power = w.power) :
    BackupEnd w (rollBack (paramOf w.flash) w₁).1 (rollBack (paramOf w.flash) w₁).2 := by
  obtain ⟨found, left, tried, tail, headed, headless⟩ := tryOther_run (spent (paramOf w.flash)) w₁
  have stored := rewriteParam_ends (w := { w₁ with faults := left })
    (quiet.of_suffix (tail.trans faults))
    (if found then flipped (spent (paramOf w.flash)) else spent (paramOf w.flash))
  have faulty : ∀ {l : List (Option Fault)}, l <:+ w.faults → l ≠ [] → w.faults ≠ [] := by
    intro l suffix more none
    rw [none] at suffix
    exact more (List.suffix_nil.mp suffix)
  rw [flash] at headed headless
  rw [rollBack_eq, bind_of_some tried]
  rcases run : rewriteParam (if found then flipped (spent (paramOf w.flash))
    else spent (paramOf w.flash)) { w₁ with faults := left } with ⟨_ | ret, w'⟩
  · rw [run] at stored
    rw [bind_of_none run]
    rcases stored with _ | _ | ⟨supply, kept⟩ | ⟨supply, erased, last⟩
    · exact .cut (power ▸ supply) (kept.trans flash)
    · exact .torn (power ▸ supply) (erased.trans (by rw [flash])) last
  · rw [run] at stored
    rw [bind_of_some run]
    rcases stored with ⟨record⟩ | ⟨bad, kept⟩
    · rw [if_neg (by simp [otaOk])]
      dsimp only at record
      rw [flash] at record
      cases found
      · exact .gaveUp ready ((headless rfl).imp (faulty faults) id) record
      · exact .switched ready (headed rfl) record
    · rw [if_pos (by simp [otaErrPartition])]
      dsimp only at kept
      rw [flash] at kept
      exact .failed ready (faulty (tail.trans faults) bad) kept

theorem backupBody_ends {w : World} (quiet : Quiet w) :
    BackupEnd w (backupBody w).1 (backupBody w).2 := by
  have read := recordRead_run param w
  rw [backupBody, paraPart_eq, bind_of_some read]
  rcases readAnswer_quiet quiet param.start.toNat 32 with done | ⟨bad, -, faulty⟩
  · rw [done, if_neg (by simp), load_paramOf]
    by_cases magic : (paramOf w.flash).magic = otaParaMagic
    · rw [if_neg fun bad => bad magic]
      by_cases flag : (paramOf w.flash).canBeBack = backupFlag
      · rw [if_pos flag]
        exact rollBack_ends quiet ⟨magic, flag⟩ rfl (List.tail_suffix _) rfl
      · rw [if_neg flag]
        exact .refused (.inr (.inr ⟨rfl, flag⟩)) rfl
    · rw [if_pos magic]
      exact .refused (.inr (.inl ⟨rfl, magic⟩)) rfl
  · rw [if_pos bad]
    exact .refused (.inl ⟨rfl, faulty⟩) rfl

/-- The record that the end of an update stores. -/
def closed (p : OtaParamers) : OtaParamers := { p with magic := otaParaMagic, upgradeReady := 0 }

/-- An upgrade is ready and `Download` carries the checksum it was announced with. -/
structure Matches (m : Mem) : Prop where
  magic : (paramOf m).magic = otaParaMagic
  ready : (paramOf m).upgradeReady ≠ 0
  crc : (paramOf m).downloadCrc = (headerOf download m).crc32

/-- What is copied, as `ota_update_firmware` computes it. -/
def imageSize (m : Mem) : UInt32 := (headerOf download m).size + recordSize

/-- The flash once `Download` was copied into the other slot. -/
def installed (m : Mem) : Mem :=
  program (erase m (otherApp (paramOf m)).start.toNat (otherApp (paramOf m)).size.toNat)
    (otherApp (paramOf m)).start.toNat (slice m download.start.toNat (imageSize m).toNat)

theorem sameOutside_installed {m : Mem} (fits : Fits download 0 (imageSize m)) :
    SameOutside [otherApp (paramOf m)] m (installed m) := by
  have size : (otherApp (paramOf m)).size.toNat = download.size.toNat := by
    unfold otherApp
    split <;> rfl
  have erased : SameOutside [otherApp (paramOf m)] m
      (erase m ((otherApp (paramOf m)).start.toNat + 0) (otherApp (paramOf m)).size.toNat) :=
    sameOutside_erase m (by omega)
  have within : 0 + (slice m download.start.toNat (imageSize m).toNat).length ≤
      (otherApp (paramOf m)).size.toNat := by
    rw [Fits, UInt32.toNat_zero] at fits
    rw [length_slice, size]
    exact fits
  have copied := sameOutside_program (r := otherApp (paramOf m))
    (erase m ((otherApp (paramOf m)).start.toNat + 0) (otherApp (paramOf m)).size.toNat)
    (slice m download.start.toNat (imageSize m).toNat) within
  rw [Nat.add_zero] at erased copied
  exact erased.trans copied

/-- With which record and which flash an update reaches its exit. -/
inductive Exits (w : World) : OtaParamers → Mem → Prop
  | lost (faulty : w.faults ≠ []) : Exits w .zero w.flash
  | badMagic (magic : (paramOf w.flash).magic ≠ otaParaMagic) : Exits w (paramOf w.flash) w.flash
  | kept (magic : (paramOf w.flash).magic = otaParaMagic) (ready : (paramOf w.flash).upgradeReady ≠ 0)
      (reason : w.faults ≠ [] ∨ (paramOf w.flash).downloadCrc ≠ (headerOf download w.flash).crc32) :
      Exits w (paramOf w.flash) w.flash
  | broken {m : Mem} (ready : Matches w.flash)
      (outside : SameOutside [otherApp (paramOf w.flash)] w.flash m)
      (reason : w.faults ≠ [] ∨ ¬ Fits download 0 (imageSize w.flash)) : Exits w (paramOf w.flash) m
  | installed (ready : Matches w.flash) (fits : Fits download 0 (imageSize w.flash)) :
      Exits w (paramOf w.flash).switched (installed w.flash)

/-- How an update ends. -/
inductive UpdateEnd (w : World) : Option Int → World → Prop
  | idle {w' : World} (magic : (paramOf w.flash).magic = otaParaMagic)
      (none : (paramOf w.flash).upgradeReady = 0) (flash : w'.flash = w.flash) :
      UpdateEnd w (some otaErrUpdate) w'
  | exit {w₁ w' : World} {p : OtaParamers} {ret : Option Int} (faults : w₁.faults <:+ w.faults)
      (supply : w.power = none → w₁.power = none) (exits : Exits w p w₁.flash)
      (store : StoreEnd w₁ (closed p) ret w') : UpdateEnd w ret w'
  | cut {w' : World} (supply : w.power ≠ none) (ready : Matches w.flash)
      (outside : SameOutside [otherApp (paramOf w.flash)] w.flash w'.flash) : UpdateEnd w none w'

/-- How the installation ends before the exit. -/
inductive InstallEnd (w : World) : Option (Int × OtaParamers) → World → Prop
  | reached {exit : Int × OtaParamers} {w' : World} (exits : Exits w exit.2 w'.flash) :
      InstallEnd w (some exit) w'
  | cut {w' : World} (supply : w.power ≠ none) (ready : Matches w.flash)
      (outside : SameOutside [otherApp (paramOf w.flash)] w.flash w'.flash) : InstallEnd w none w'

theorem other_size (p : OtaParamers) : (otherApp p).size = download.size := by
  unfold otherApp
  split <;> rfl

private theorem faults_of_suffix {w : World} {l : List (Option Fault)} (h : l <:+ w.faults)
    (more : l ≠ []) : w.faults ≠ [] := by
  intro none
  rw [none] at h
  exact more (List.suffix_nil.mp h)

theorem copyImage_ends {w w₁ : World} (matched : Matches w.flash)
    (flash : w₁.flash = erase w.flash (otherApp (paramOf w.flash)).start.toNat
      (otherApp (paramOf w.flash)).size.toNat)
    (faults : w₁.faults <:+ w.faults) (supply : w.power = none → w₁.power = none) :
    InstallEnd w (copyImage (paramOf w.flash) (headerOf download w.flash).size w₁).1
      (copyImage (paramOf w.flash) (headerOf download w.flash).size w₁).2 := by
  have apart := other_download (paramOf w.flash)
  have erased : SameOutside [otherApp (paramOf w.flash)] w.flash w₁.flash := by
    have within : 0 + (otherApp (paramOf w.flash)).size.toNat ≤
        (otherApp (paramOf w.flash)).size.toNat := by omega
    have outside := sameOutside_erase w.flash within
    rw [Nat.add_zero] at outside
    rw [flash]
    exact outside
  have source (n : Nat) (h : n ≤ download.size.toNat) :
      slice w₁.flash download.start.toNat n = slice w.flash download.start.toNat n :=
    slice_congr (erased.agree (t := download) apart.single (Nat.le_refl _) (by omega))
  have loop := copyLoop_wp apart (other_size _) (imageSize w.flash) w₁
  rw [imageSize] at loop
  rw [copyImage, otherPart_eq]
  rcases run : copyLoop (otherApp (paramOf w.flash)).name
    ((headerOf download w.flash).size + recordSize) w₁ with ⟨_ | err | _, w'⟩
  · obtain ⟨touched, on⟩ := (wp_of_none run).mp loop
    rw [bind_of_none run]
    exact .cut (fun none => on (supply none)) matched (erased.trans touched.flash)
  · obtain ⟨touched, -, unfit⟩ := (wp_of_some run).mp loop
    rw [bind_of_some run]
    refine .reached (.broken matched (erased.trans touched.flash) ?_)
    by_cases healthy : w₁.faults = []
    · exact .inr (unfit healthy)
    · exact .inl (faults_of_suffix faults healthy)
  · obtain ⟨-, low, bytes⟩ := (wp_of_some run).mp loop
    rw [bind_of_some run]
    rw [source _ low, flash] at bytes
    have exits := Exits.installed (w := w) matched (by
      rw [Fits, UInt32.toNat_zero, Nat.zero_add]
      exact low)
    rw [installed, imageSize, ← bytes] at exits
    exact .reached exits

theorem installImage_ends {w w₁ : World} (quiet : Quiet w)
    (magic : (paramOf w.flash).magic = otaParaMagic) (ready : (paramOf w.flash).upgradeReady ≠ 0)
    (flash : w₁.flash = w.flash) (faults : w₁.faults <:+ w.faults) (power : w₁.power = w.power) :
    InstallEnd w (installImage (paramOf w.flash) w₁).1 (installImage (paramOf w.flash) w₁).2 := by
  have read := recordRead_run download w₁
  rw [installImage, downPart_eq, bind_of_some read]
  rcases readAnswer_quiet (quiet.of_suffix faults) download.start.toNat 32 with done | ⟨bad, -, some⟩
  · rw [done, if_neg (by simp), load_headerOf, otherPart_eq, flash]
    by_cases same : (paramOf w.flash).downloadCrc = (headerOf download w.flash).crc32
    · rw [if_neg fun bad => bad same]
      have matched : Matches w.flash := ⟨magic, ready, same⟩
      have erasing := partitionEraseAll_run (otherApp (paramOf w.flash))
        { w₁ with flash := w.flash, faults := w₁.faults.tail }
      have tail : w₁.faults.tail <:+ w.faults := (List.tail_suffix _).trans faults
      by_cases off : w₁.power = .some 0
      · rw [if_pos off] at erasing
        rw [bind_of_none erasing]
        exact .cut (by rw [← power, off]; simp) matched (.refl _ _)
      · rw [if_neg off] at erasing
        rw [bind_of_some erasing]
        have change := changeAnswer_quiet (w := { w₁ with
          flash := w.flash
          faults := w₁.faults.tail }) (quiet.of_suffix tail) (otherApp (paramOf w.flash)).start.toNat
          (otherApp (paramOf w.flash)).size.toNat (erase w.flash
            (otherApp (paramOf w.flash)).start.toNat (otherApp (paramOf w.flash)).size.toNat)
        dsimp only at change ⊢
        generalize changeAnswer _ _ _ _ = answer at change ⊢
        generalize hw : after _ _ answer.2 = w₂
        have flash₂ : w₂.flash = answer.2 := by rw [← hw, after_flash]
        have faults₂ : w₂.faults <:+ w.faults := by
          rw [← hw, after_faults]
          exact (List.tail_suffix _).trans tail
        have supply₂ : w.power = none → w₂.power = none := by
          intro none
          rw [← hw, after_power]
          dsimp only
          rw [power, none]
          rfl
        rcases change with rfl | ⟨bad, kept, faulty⟩
        · rw [if_neg (by simp)]
          exact copyImage_ends matched flash₂ faults₂ supply₂
        · rw [if_pos bad]
          have unchanged : SameOutside [otherApp (paramOf w.flash)] w.flash w₂.flash := by
            rw [flash₂, kept]
            exact .refl _ _
          exact .reached (.broken matched unchanged (.inl (faults_of_suffix tail faulty)))
    · rw [if_pos same]
      exact .reached (.kept magic ready (.inr same))
  · rw [if_pos bad]
    have kept : Exits w (paramOf w.flash) w₁.flash := by
      rw [flash]
      exact .kept magic ready (.inl (faults_of_suffix faults some))
    exact .reached kept

theorem load_nothing : OtaParamers.zero.load [] = .zero := by decide

theorem updateExit_ends {w w₁ : World} {exit : Int × OtaParamers} (quiet : Quiet w)
    (faults : w₁.faults <:+ w.faults) (supply : w.power = none → w₁.power = none)
    (exits : Exits w exit.2 w₁.flash) :
    UpdateEnd w (updateExit exit w₁).1 (updateExit exit w₁).2 :=
  .exit faults supply exits (rewriteParam_ends (quiet.of_suffix faults) (closed exit.2))

theorem updateBody_ends {w : World} (quiet : Quiet w) :
    UpdateEnd w (updateBody w).1 (updateBody w).2 := by
  have read := recordRead_run param w
  have tail := List.tail_suffix w.faults
  rw [updateBody, paraPart_eq, bind_of_some read]
  rcases readAnswer_quiet quiet param.start.toNat 32 with done | ⟨bad, nothing, faulty⟩
  · rw [done, if_neg (by simp), load_paramOf]
    by_cases magic : (paramOf w.flash).magic = otaParaMagic
    · rw [if_neg fun bad => bad magic]
      by_cases ready : (paramOf w.flash).upgradeReady = 0
      · rw [if_neg fun more => more ready]
        exact .idle magic ready rfl
      · rw [if_pos ready]
        have install := @installImage_ends w { w with faults := w.faults.tail } quiet magic ready
          rfl tail rfl
        have touched := touches_installImage (paramOf w.flash) { w with faults := w.faults.tail }
        rcases run : installImage (paramOf w.flash) { w with faults := w.faults.tail }
          with ⟨_ | exit, w'⟩ <;> rw [run] at install touched
        · rw [bind_of_none run]
          cases install with
          | cut supply matched outside => exact .cut supply matched outside
        · rw [bind_of_some run]
          cases install with
          | reached exits =>
            exact updateExit_ends quiet (touched.faults.trans tail) touched.supply exits
    · rw [if_pos magic]
      exact updateExit_ends quiet tail id (.badMagic magic)
  · rw [if_pos bad, nothing, load_nothing]
    exact updateExit_ends quiet tail id (.lost faulty)

/-- `Download` holds a whole image with the given checksum. -/
structure Verified (m : Mem) (crc : UInt32) : Prop where
  magic : (headerOf download m).magic = otaFirmwareMagic
  fits : Fits download recordSize (headerOf download m).size
  header : (headerOf download m).crc32 = crc
  payload : otaCrc32 (payloadOf download m) = crc

/-- The record that announces an image. -/
def announced (p : OtaParamers) (crc : UInt32) : OtaParamers :=
  { p with magic := otaParaMagic, downloadCrc := crc, upgradeReady := 1 }

/-- How the check of what was received ends: it refuses, or it announces a verified image. -/
inductive CheckEnd (w : World) : Option Int → World → Prop
  | refused {ret : Int} {w' : World} (moved : Moved w w') (code : ret ≠ otaOk)
      (reason : w.faults ≠ [] ∨ ∀ crc, ¬ Verified w.flash crc) : CheckEnd w (some ret) w'
  | announced {w₁ w' : World} {crc : UInt32} {ret : Option Int} (moved : Moved w w₁)
      (verified : Verified w.flash crc)
      (store : StoreEnd w₁ (announced (paramOf w.flash) crc) ret w') : CheckEnd w ret w'

theorem announceImage_ends {w w₁ : World} (quiet : Quiet w) (moved : Moved w w₁) {crc : UInt32}
    (verified : Verified w.flash crc) :
    CheckEnd w (announceImage crc w₁).1 (announceImage crc w₁).2 := by
  have read := recordRead_run param w₁
  rw [announceImage, paraPart_eq, bind_of_some read]
  rcases readAnswer_quiet (quiet.of_suffix moved.faults) param.start.toNat 32
    with done | ⟨bad, -, faulty⟩
  · rw [done, if_neg (by simp), load_paramOf, moved.flash]
    have on := moved.tail
    rw [moved.flash] at on
    exact .announced on verified (rewriteParam_ends (quiet.of_suffix on.faults) _)
  · rw [if_pos bad]
    exact .refused moved.tail (by decide) (.inl (faults_of_suffix moved.faults faulty))

theorem checkImage_ends {w : World} (quiet : Quiet w) :
    CheckEnd w (checkImage w).1 (checkImage w).2 := by
  have read := recordRead_run download w
  have tail := List.tail_suffix w.faults
  have moved : Moved w { w with faults := w.faults.tail } := (Moved.refl w).tail
  rw [checkImage, downPart_eq, bind_of_some read]
  rcases readAnswer_quiet quiet download.start.toNat 32 with done | ⟨bad, -, faulty⟩
  · rw [done, if_neg (by simp), load_headerOf]
    by_cases magic : (headerOf download w.flash).magic = otaFirmwareMagic
    · rw [if_neg fun bad => bad magic]
      obtain ⟨result, w₁, run, ended⟩ :=
        wp_returns (crcLoop_wp (headerOf download w.flash).size { w with faults := w.faults.tail })
      rw [bind_of_some run]
      rcases result with err | crc
      · obtain ⟨moved₁, rfl, unfit⟩ := ended
        refine .refused (moved.trans moved₁) (by decide) ?_
        by_cases healthy : w.faults = []
        · exact .inr fun crc verified => unfit (by rw [healthy]; rfl) verified.fits
        · exact .inl healthy
      · obtain ⟨moved₁, fits, form⟩ := ended
        have whole : crc ^^^ 0xFFFFFFFF = otaCrc32 (payloadOf download w.flash) := by
          rw [form]
          rfl
        dsimp only
        rw [whole]
        by_cases sum : otaCrc32 (payloadOf download w.flash) = (headerOf download w.flash).crc32
        · rw [if_neg fun bad => bad sum]
          exact announceImage_ends quiet (moved.trans moved₁) ⟨magic, fits, sum.symm, rfl⟩
        · rw [if_pos sum]
          refine .refused (moved.trans moved₁) (by decide) (.inr fun crc verified => sum ?_)
          rw [verified.payload, verified.header]
    · rw [if_pos magic]
      exact .refused moved (by decide) (.inr fun crc verified => magic verified.magic)
  · rw [if_pos bad]
    exact .refused moved (by decide) (.inl faulty)

/-- What a healthy transfer leaves of the flash. -/
def delivered (w : World) : Mem :=
  (pieces w).foldl storePiece (erase w.flash download.start.toNat download.size.toNat)

/-- How a download ends. -/
inductive DownloadEnd (w : World) : Option Int → World → Prop
  | rejected {ret : Int} {w' : World} (touched : Touches [download] w w') (code : ret ≠ otaOk)
      (arrived : w.faults = [] → w.power = none → w'.flash = delivered w)
      (reason : w.faults ≠ [] ∨ (transfer w).1 ≠ some otaOk ∨ ∀ crc, ¬ Verified w'.flash crc) :
      DownloadEnd w (some ret) w'
  | announced {w₁ w' : World} {crc : UInt32} {ret : Option Int} (touched : Touches [download] w w₁)
      (arrived : w.faults = [] → w.power = none → w₁.flash = delivered w)
      (received : (transfer w).1 = some otaOk) (verified : Verified w₁.flash crc)
      (store : StoreEnd w₁ (announced (paramOf w.flash) crc) ret w') : DownloadEnd w ret w'
  | cut {w' : World} (touched : Touches [download] w w')
      (reason : w.faults ≠ [] ∨ w.power ≠ none ∨ (transfer w).1 = none) : DownloadEnd w none w'

theorem received_ends {w w₁ : World} (quiet : Quiet w) (touched : Touches [download] w w₁)
    (line : transfer w₁ = transfer w)
    (flash : w.faults = [] → w₁.flash = erase w.flash download.start.toNat download.size.toNat) :
    DownloadEnd w
      ((otaReceive >>= fun ret => if ret ≠ 0 then pure otaErrDownload else checkImage) w₁).1
      ((otaReceive >>= fun ret => if ret ≠ 0 then pure otaErrDownload else checkImage) w₁).2 := by
  have receiving := touched.trans _ _ _ (touches_receive w₁)
  have arrives : w.faults = [] → w.power = none → (otaReceive w₁).1 = (transfer w).1 ∧
      (otaReceive w₁).2.flash = delivered w := by
    intro healthy on
    obtain ⟨w₂, run, -, stored⟩ := otaReceive_healthy (touched.healthy healthy) (touched.supply on)
    have same : pieces w₁ = pieces w := by rw [pieces, pieces, line]
    rw [run, line]
    rw [flash healthy, same] at stored
    exact ⟨rfl, stored⟩
  have returned := (otaReceive_run w₁).1
  have stopped := (otaReceive_run w₁).2
  rcases run : otaReceive w₁ with ⟨_ | ret, w₂⟩ <;> rw [run] at receiving arrives returned stopped
  · rw [bind_of_none run]
    refine .cut receiving ?_
    by_cases healthy : w.faults = []
    · by_cases on : w.power = none
      · exact .inr (.inr (arrives healthy on).1.symm)
      · exact .inr (.inl on)
    · exact .inl healthy
  · rw [bind_of_some run]
    have code : (transfer w).1 = some ret := by
      rcases ran : (clientData otaYmodemRecvData (pieces w₁) w₁).1 with _ | ⟨⟨⟩⟩
      · exact absurd (stopped ran).1 (by simp)
      · rw [← line]
        exact (congrArg Prod.fst (returned ran)).symm
    by_cases ok : ret = 0
    · subst ok
      rw [if_neg (by simp)]
      have check := checkImage_ends (quiet.of_suffix receiving.faults)
      have same := receiving.param_eq
      generalize checkImage w₂ = run₃ at check ⊢
      obtain ⟨ret₃, w₃⟩ := run₃
      cases check with
      | refused moved bad reason =>
        refine .rejected (receiving.trans _ _ _ (moved.touches _)) bad ?_ ?_
        · intro healthy on
          rw [moved.flash]
          exact (arrives healthy on).2
        · rw [moved.flash]
          exact reason.imp (faults_of_suffix receiving.faults) .inr
      | announced moved verified store =>
        rw [same] at store
        refine .announced (receiving.trans _ _ _ (moved.touches _)) ?_ code ?_ store
        · intro healthy on
          rw [moved.flash]
          exact (arrives healthy on).2
        · rw [moved.flash]
          exact verified
    · rw [if_pos ok]
      refine .rejected receiving (by decide) (fun healthy on => (arrives healthy on).2)
        (.inr (.inl ?_))
      rw [code]
      exact fun same => ok (Option.some.inj same)

theorem otaDownloadFirmware_ends {w : World} (quiet : Quiet w) :
    DownloadEnd w (otaDownloadFirmware w).1 (otaDownloadFirmware w).2 := by
  have erasing := partitionEraseAll_run download w
  have touched := touches_eraseAll download w
  rw [otaDownloadFirmware, downPart_eq]
  by_cases off : w.power = some 0
  · rw [if_pos off] at erasing
    rw [bind_of_none erasing]
    exact .cut (.refl _ w) (.inr (.inl (by rw [off]; simp)))
  · rw [if_neg off] at erasing
    rw [erasing] at touched
    dsimp only at touched
    rw [bind_of_some erasing]
    have change := changeAnswer_quiet quiet download.start.toNat download.size.toNat
      (erase w.flash download.start.toNat download.size.toNat)
    generalize changeAnswer _ _ _ _ = answer at change touched ⊢
    generalize hw : after _ _ answer.2 = w₁ at touched ⊢
    rcases change with rfl | ⟨bad, kept, faulty⟩
    · rw [if_neg (by simp)]
      refine received_ends quiet touched ?_ fun _ => ?_
      · rw [← hw]
        rfl
      · rw [← hw, after_flash]
    · have ended : DownloadEnd w (some otaErrPartition) w₁ :=
        .rejected touched (by decide) (fun healthy => absurd healthy faulty) (.inl faulty)
      rw [if_pos bad]
      exact ended

end T113Boot.Ota.Outcomes
