/- Module: T113Boot/Drivers/Dmac
   layer: model
   digest: The channels of the DMA controller, their callbacks, and what their users know of them. -/

import Mathlib.Data.Fin.Basic
import Mathlib.Data.List.FinRange
import Mathlib.Logic.Function.Basic

set_option autoImplicit false
set_option relaxedAutoImplicit false

namespace T113Boot.Drivers.Dmac

def t113DmacChannelMax : Nat := 16

abbrev Channel := Fin t113DmacChannelMax

/-- Where a descriptor leads to: nowhere, or to the field `desc` of a channel's source. -/
inductive Link
  | null
  | descOf (ch : Channel)

/-- `dma_desc_t`, as far as `dma_setting` writes it. -/
structure DmaDesc where
  config : BitVec 32
  commitPara : BitVec 32
  link : Link

/-- `dma_source_t`. -/
structure DmaSource where
  used : Nat
  channelCount : Nat

/-- `dma_set_t`; `channelCfg` is the word that its bit fields make up. -/
structure DmaSet (α : Type) where
  channelCfg : BitVec 32
  loopMode : BitVec 32
  waitCyc : BitVec 32
  dmaCallback : Option α
  callbackType : BitVec 32

/-- The static variables and the interrupt enable registers. A callback is a function pointer. -/
structure DmaDev (α : Type) where
  initOk : Int
  source : Channel → DmaSource
  desc : Channel → DmaDesc
  handler : Nat → Option α
  irqEn0 : BitVec 32
  irqEn1 : BitVec 32

/-- What one interrupt does: the callbacks in their order, and what is written to the pending
registers. -/
structure Served (α : Type) where
  calls : List (Nat × α)
  cleared0 : List (BitVec 32)
  cleared1 : List (BitVec 32)

section Driver

variable {α : Type}

/-- `0x7u << (ch * 4)`. -/
def mask (ch : Nat) : BitVec 32 := 0x7#32 <<< (ch * 4)

/-- One of the two loops of `dmac_irq_handler`: the channels that it finds pending. -/
def pendingIn (reg : BitVec 32) : List Nat := (List.range 8).filter fun ch => reg &&& mask ch ≠ 0

def dmacIrqHandler (d : DmaDev α) (reg0 reg1 : BitVec 32) : Served α where
  calls :=
    (pendingIn reg0).filterMap (fun ch => (d.handler ch).map fun call => (ch, call)) ++
    (pendingIn reg1).filterMap (fun ch => (d.handler (ch + 8)).map fun call => (ch + 8, call))
  cleared0 := (pendingIn reg0).map mask
  cleared1 := (pendingIn reg1).map mask

def dmaInit (d : DmaDev α) : DmaDev α :=
  if d.initOk > 0 then d
  else { d with
    irqEn0 := 0
    irqEn1 := 0
    source := fun _ => ⟨0, 0⟩
    handler := fun _ => none
    initOk := 1 }

/-- The search of both requests, through the channels in an order. -/
def requestIn (channels : List Channel) (d : DmaDev α) : Option Channel × DmaDev α :=
  match channels.find? fun i => (d.source i).used = 0 with
  | some i => (some i, { d with source := Function.update d.source i ⟨1, i⟩ })
  | none => (none, d)

def dmaRequest (d : DmaDev α) : Option Channel × DmaDev α := requestIn (List.finRange _) d

def dmaRequestFromLast (d : DmaDev α) : Option Channel × DmaDev α :=
  requestIn (List.finRange _).reverse d

def dmaRelease (d : DmaDev α) (hdma : Channel) : Int × DmaDev α :=
  let dmaSource := d.source hdma
  if dmaSource.used = 0 then (-1, d)
  else (0, { d with source := Function.update d.source hdma { dmaSource with used := 0 } })

def dmaSetting (d : DmaDev α) (hdma : Channel) (cfg : DmaSet α) : Int × DmaDev α :=
  if (d.source hdma).used = 0 then (-1, d)
  else
    let desc : DmaDesc := {
      link := if cfg.loopMode ≠ 0 then .descOf hdma else .null
      commitPara := cfg.waitCyc &&& 0xff
      config := cfg.channelCfg }
    let d := { d with desc := Function.update d.desc hdma desc }
    match cfg.dmaCallback with
    | none => (0, d)
    | some call =>
      let count := (d.source hdma).channelCount
      let d := if count < 8
        then { d with irqEn0 := d.irqEn0 ||| 1#32 <<< (count * 4 + cfg.callbackType.toNat) }
        else { d with irqEn1 := d.irqEn1 ||| 1#32 <<< ((count - 8) * 4 + cfg.callbackType.toNat) }
      (0, { d with handler := Function.update d.handler count (some call) })

end Driver

/-- A call of the driver, or an interrupt with the pending registers that it finds. -/
inductive Event (α : Type)
  | request
  | requestFromLast
  | release (hdma : Channel)
  | setting (hdma : Channel) (cfg : DmaSet α)
  | interrupt (reg0 reg1 : BitVec 32)

inductive Result (α : Type)
  | handle (hdma : Option Channel)
  | code (ret : Int)
  | served (served : Served α)

/-- What the users know: the handles requested and not yet released, for each of them the callbacks
that its owner has given since the request, and the channels that ever got one. -/
structure Ledger (α : Type) where
  held : List Channel
  given : Channel → List α
  ever : Channel → Bool

section Users

variable {α : Type}

def Ledger.empty : Ledger α := ⟨[], fun _ => [], fun _ => false⟩

def DmaDev.perform (d : DmaDev α) : Event α → Result α × DmaDev α
  | .request => let r := dmaRequest d; (.handle r.1, r.2)
  | .requestFromLast => let r := dmaRequestFromLast d; (.handle r.1, r.2)
  | .release hdma => let r := dmaRelease d hdma; (.code r.1, r.2)
  | .setting hdma cfg => let r := dmaSetting d hdma cfg; (.code r.1, r.2)
  | .interrupt reg0 reg1 => (.served (dmacIrqHandler d reg0 reg1), d)

def Ledger.note (l : Ledger α) : Event α → Result α → Ledger α
  | .release hdma, _ => { l with
      held := l.held.erase hdma
      given := Function.update l.given hdma [] }
  | .setting hdma cfg, _ =>
    match cfg.dmaCallback with
    | none => l
    | some call =>
      if hdma ∈ l.held then { l with
        given := Function.update l.given hdma (call :: l.given hdma)
        ever := Function.update l.ever hdma true }
      else l
  | _, .handle (some hdma) => { l with
      held := hdma :: l.held
      given := Function.update l.given hdma [] }
  | _, _ => l

structure System (α : Type) where
  dev : DmaDev α
  ledger : Ledger α

def System.step (s : System α) (e : Event α) : Option (System α) :=
  some ⟨(s.dev.perform e).2, s.ledger.note e (s.dev.perform e).1⟩

/-- Behind `dma_init`, whatever the registers and the descriptors held before. -/
def started (d : DmaDev α) : System α := ⟨dmaInit { d with initOk := -1 }, .empty⟩

end Users

end T113Boot.Drivers.Dmac
