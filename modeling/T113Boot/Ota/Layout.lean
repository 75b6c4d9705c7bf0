/- Module: T113Boot/Ota/Layout
   layer: specification
   digest: What the flash holds for the loader: the parameter record, the two slots, their images. -/

import T113Boot.Ota.Access

set_option autoImplicit false
set_option relaxedAutoImplicit false

namespace T113Boot.Ota.Layout

open T113Boot.Lib.Cells
open T113Boot.Lib.LittleEndian
open T113Boot.Nand.Chip
open T113Boot.Storage.Table
open T113Boot.Ota.Board
open T113Boot.Ota.Crc32
open T113Boot.Ota.Firmware
open T113Boot.Ota.Access

/-- The record that a flash holds in `Param`. -/
def paramOf (m : Mem) : OtaParamers := .decode (slice m param.start.toNat 32)

/-- The header at the start of a region. -/
def headerOf (r : Region) (m : Mem) : FirmwareHeader := .decode (slice m r.start.toNat 32)

/-- The bytes behind the header, as many as it says. -/
def payloadOf (r : Region) (m : Mem) : List UInt8 :=
  slice m (r.start.toNat + 32) (headerOf r m).size.toNat

theorem load_param (p : OtaParamers) {bs : List UInt8} (whole : bs.length = 32) :
    p.load bs = .decode bs := by
  rw [OtaParamers.load, whole, List.drop_of_length_le (by simp [p.length_encode]), List.append_nil]

theorem load_header (h : FirmwareHeader) {bs : List UInt8} (whole : bs.length = 32) :
    h.load bs = .decode bs := by
  rw [FirmwareHeader.load, whole, List.drop_of_length_le (by simp [h.length_encode]), List.append_nil]

theorem load_paramOf (p : OtaParamers) (m : Mem) :
    p.load (slice m param.start.toNat 32) = paramOf m := load_param p (length_slice _ _ _)

theorem load_headerOf (h : FirmwareHeader) (r : Region) (m : Mem) :
    h.load (slice m r.start.toNat 32) = headerOf r m := load_header h (length_slice _ _ _)

theorem headerOf_encode {r : Region} {m : Mem} {h : FirmwareHeader}
    (bytes : slice m r.start.toNat 32 = h.encode) : headerOf r m = h := by
  have decoded := FirmwareHeader.decode_encode h []
  rw [List.append_nil] at decoded
  rw [headerOf, bytes, decoded]

theorem paramOf_encode {m : Mem} {p : OtaParamers}
    (bytes : slice m param.start.toNat 32 = p.encode) : paramOf m = p := by
  have decoded := OtaParamers.decode_encode p []
  rw [List.append_nil] at decoded
  rw [paramOf, bytes, decoded]

/-- The region that a record makes active, and the one it does not. -/
def activeApp (p : OtaParamers) : Region := if p.activeSlot = appSlot1 then app1 else app2

def otherApp (p : OtaParamers) : Region := if p.activeSlot = appSlot1 then app2 else app1

/-- The checksum that a record keeps for the active slot, and the one for the other. -/
def activeCrc (p : OtaParamers) : UInt32 :=
  if p.activeSlot = appSlot1 then p.app1Crc else p.app2Crc

def otherCrc (p : OtaParamers) : UInt32 :=
  if p.activeSlot = appSlot1 then p.app2Crc else p.app1Crc

theorem otherPart_eq (p : OtaParamers) : p.otherPart = (otherApp p).name := by
  rw [OtaParamers.otherPart, otherApp]
  split <;> rfl

/-- The number of the slot that is not active. -/
def otherSlot (p : OtaParamers) : UInt32 :=
  if p.activeSlot = appSlot1 then appSlot2 else appSlot1

/-- The record that makes the other slot active and keeps all else. -/
def flipped (p : OtaParamers) : OtaParamers := { p with activeSlot := otherSlot p }

theorem activeApp_flipped (p : OtaParamers) : activeApp (flipped p) = otherApp p := by
  simp only [activeApp, otherApp, flipped, otherSlot]
  split
  · rw [if_neg (by decide)]
  · rw [if_pos rfl]

theorem activeCrc_flipped (p : OtaParamers) : activeCrc (flipped p) = otherCrc p := by
  simp only [activeCrc, otherCrc, flipped, otherSlot]
  split
  · rw [if_neg (by decide)]
  · rw [if_pos rfl]

theorem otherSlot_ne (p : OtaParamers) : otherSlot p ≠ p.activeSlot := by
  unfold otherSlot
  split
  · rename_i one
    rw [one]
    decide
  · rename_i other
    exact fun same => other same.symm

/-- The two regions share no byte. -/
def Apart (r t : Region) : Prop :=
  r.start.toNat + r.size.toNat ≤ t.start.toNat ∨ t.start.toNat + t.size.toNat ≤ r.start.toNat

instance (r t : Region) : Decidable (Apart r t) :=
  inferInstanceAs (Decidable (_ ∨ _))

theorem Apart.symm {r t : Region} (h : Apart r t) : Apart t r := Or.symm h

theorem Apart.single {r t : Region} (h : Apart r t) : ∀ s ∈ [r], Apart s t := by
  intro s listed
  rw [List.mem_singleton.mp listed]
  exact h

/-- The address lies in the region. -/
def Holds (r : Region) (x : Nat) : Prop :=
  r.start.toNat ≤ x ∧ x < r.start.toNat + r.size.toNat

/-- The two memories differ inside the regions only. -/
def SameOutside (rs : List Region) (m m' : Mem) : Prop :=
  ∀ x, (∀ r ∈ rs, ¬ Holds r x) → m' x = m x

theorem SameOutside.refl (rs : List Region) (m : Mem) : SameOutside rs m m := fun _ _ => rfl

theorem SameOutside.trans {rs : List Region} {m m' m'' : Mem} (h : SameOutside rs m m')
    (h' : SameOutside rs m' m'') : SameOutside rs m m'' :=
  fun x out => (h' x out).trans (h x out)

theorem SameOutside.mono {rs ts : List Region} {m m' : Mem} (h : SameOutside rs m m')
    (sub : rs ⊆ ts) : SameOutside ts m m' :=
  fun x out => h x fun r member => out r (sub member)

/-- What lies apart from the regions that changed is as before. -/
theorem SameOutside.agree {rs : List Region} {m m' : Mem} (h : SameOutside rs m m') {t : Region}
    (apart : ∀ r ∈ rs, Apart r t) {a n : Nat} (low : t.start.toNat ≤ a)
    (high : a + n ≤ t.start.toNat + t.size.toNat) : AgreeOn m' m a n := by
  intro x lo hi
  apply h x
  intro r member inside
  have sides := apart r member
  unfold Apart at sides
  unfold Holds at inside
  omega

theorem SameOutside.param_eq {rs : List Region} {m m' : Mem} (h : SameOutside rs m m')
    (apart : ∀ r ∈ rs, Apart r param) : paramOf m' = paramOf m := by
  have room := param.room
  rw [paramOf, paramOf, slice_congr (h.agree apart (Nat.le_refl _) (by omega))]

theorem SameOutside.header_eq {rs : List Region} {m m' : Mem} (h : SameOutside rs m m') {t : Region}
    (apart : ∀ r ∈ rs, Apart r t) : headerOf t m' = headerOf t m := by
  have room := t.room
  rw [headerOf, headerOf, slice_congr (h.agree apart (Nat.le_refl _) (by omega))]

theorem SameOutside.payload_eq {rs : List Region} {m m' : Mem} (h : SameOutside rs m m') {t : Region}
    (apart : ∀ r ∈ rs, Apart r t) (fits : 32 + (headerOf t m).size.toNat ≤ t.size.toNat) :
    payloadOf t m' = payloadOf t m := by
  rw [payloadOf, payloadOf, h.header_eq apart]
  exact slice_congr (h.agree apart (by omega) (by omega))

theorem app1_app2 : Apart app1 app2 := by decide
theorem app1_download : Apart app1 download := by decide
theorem app1_param : Apart app1 param := by decide
theorem app2_download : Apart app2 download := by decide
theorem app2_param : Apart app2 param := by decide
theorem download_param : Apart download param := by decide

theorem active_other (p : OtaParamers) : Apart (activeApp p) (otherApp p) := by
  unfold activeApp otherApp
  split
  · exact app1_app2
  · exact app1_app2.symm

theorem active_download (p : OtaParamers) : Apart (activeApp p) download := by
  unfold activeApp
  split
  · exact app1_download
  · exact app2_download

theorem active_param (p : OtaParamers) : Apart (activeApp p) param := by
  unfold activeApp
  split
  · exact app1_param
  · exact app2_param

theorem other_download (p : OtaParamers) : Apart (otherApp p) download := by
  rw [← activeApp_flipped]
  exact active_download _

theorem other_param (p : OtaParamers) : Apart (otherApp p) param := by
  rw [← activeApp_flipped]
  exact active_param _

theorem sameOutside_store {r : Region} {off n : Nat} (m : Mem) (bs : List UInt8)
    (short : bs.length ≤ n) (fits : off + n ≤ r.size.toNat) :
    SameOutside [r] m (store m (r.start.toNat + off) bs) := by
  intro x out
  have outside := out r (List.mem_singleton.mpr rfl)
  unfold Holds at outside
  exact store_outside (by omega)

theorem sameOutside_program {r : Region} {off : Nat} (m : Mem) (bs : List UInt8)
    (fits : off + bs.length ≤ r.size.toNat) :
    SameOutside [r] m (program m (r.start.toNat + off) bs) := by
  intro x out
  have outside := out r (List.mem_singleton.mpr rfl)
  unfold Holds at outside
  exact program_outside (by omega)

theorem sameOutside_erase {r : Region} {off n : Nat} (m : Mem) (fits : off + n ≤ r.size.toNat) :
    SameOutside [r] m (erase m (r.start.toNat + off) n) := by
  intro x out
  have outside := out r (List.mem_singleton.mpr rfl)
  unfold Holds at outside
  exact erase_outside (by omega)

theorem sameOutside_change {r : Region} {off n : Nat} {w : World} {done : Mem}
    (fits : off + n ≤ r.size.toNat) (inside : SameOutside [r] w.flash done) :
    SameOutside [r] w.flash (changeAnswer w (r.start.toNat + off) n done).2 := by
  unfold changeAnswer
  rcases w.faults.headD none with _ | f
  · exact inside
  · exact sameOutside_store _ _ (List.length_take_le _ _) fits

end T113Boot.Ota.Layout
