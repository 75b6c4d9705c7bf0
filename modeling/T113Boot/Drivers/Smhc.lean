/- Module: T113Boot/Drivers/Smhc
   layer: model
   digest: The SD host controller driver: one request, against every behaviour of the controller. -/

import T113Boot.Lib.Stoppable

set_option autoImplicit false
set_option relaxedAutoImplicit false

namespace T113Boot.Drivers.Smhc

open T113Boot.Lib.Stoppable
open Prog

/-- The registers that a request touches. -/
inductive Reg where
  | ctrl
  | blksiz
  | bytcnt
  | cmd
  | cmdarg
  | resp0
  | resp1
  | resp2
  | resp3
  | intmask
  | rintsts
  | status
  | tbbcn
  | fifo
deriving DecidableEq

def rtError : Int := 1
def rtEtimeout : Int := 2

def bit (i : UInt32) : UInt32 := 1 <<< i

def dataDirWrite : UInt32 := bit 0
def dataDirRead : UInt32 := bit 1

def mmcDataWrite : UInt32 := bit 0
def mmcDataRead : UInt32 := bit 1

def respMask : UInt32 := 0xF
def respNone : UInt32 := 0
def respR2 : UInt32 := 3
def respR3 : UInt32 := 4
def respR4 : UInt32 := 5

/-- `struct rt_mmcsd_data`, with the words of its buffer. -/
structure MmcsdData where
  blksize : UInt32
  blks : UInt32
  buf : Nat → UInt32
  flags : UInt32

/-- `struct rt_mmcsd_cmd`. -/
structure MmcsdCmd where
  cmdCode : UInt32
  arg : UInt32
  resp : Fin 4 → UInt32
  flags : UInt32
  err : Int
  data : Option MmcsdData

def MmcsdCmd.respType (cmd : MmcsdCmd) : UInt32 := cmd.flags &&& respMask

/-- `struct sdmmc_xfe_des`. -/
structure SdmmcXfeDes where
  size : UInt32
  num : UInt32
  buff : Nat → UInt32
  flag : UInt32

/-- What the driver does that others see: an access to a register, or `mmcsd_req_complete`, here
with the `err` that its caller then finds. -/
inductive Act where
  | readl (reg : Reg) (value : UInt32)
  | writel (reg : Reg) (value : UInt32)
  | complete (err : Int)
deriving DecidableEq

/-- The driver's world: what each `readl` to come answers, how each `rt_sem_take` to come ends
(`true` is `RT_EOK`), what each look at `dev->flag.risr` finds there, the command, the transfer, and
what was done so far. The interrupts are in these answers. -/
structure SmhcDev where
  reads : List UInt32
  takes : List Bool
  risrs : List UInt32
  cmd : MmcsdCmd
  xfe : SdmmcXfeDes
  acts : List Act

abbrev SmhcM := Prog SmhcDev

/-! The controller. A run that asks for more than the answers tell is left waiting. -/

def act (a : Act) : SmhcM Unit := modify fun s => { s with acts := s.acts ++ [a] }

def readl (reg : Reg) : SmhcM UInt32 := fun s =>
  match s.reads with
  | [] => (none, s)
  | v :: rest => (some v, { s with reads := rest, acts := s.acts ++ [.readl reg v] })

def writel (value : UInt32) (reg : Reg) : SmhcM Unit := act (.writel reg value)

def rtSemTake : SmhcM Bool := fun s =>
  match s.takes with
  | [] => (none, s)
  | taken :: rest => (some taken, { s with takes := rest })

def flagRisr : SmhcM UInt32 := fun s =>
  match s.risrs with
  | [] => (none, s)
  | v :: rest => (some v, { s with risrs := rest })

def mmcsdReqComplete : SmhcM Unit := modify fun s =>
  { s with acts := s.acts ++ [.complete s.cmd.err] }

/-- Read a register, change the value and write it back. -/
def update (reg : Reg) (change : UInt32 → UInt32) : SmhcM Unit :=
  readl reg >>= fun regval => writel (change regval) reg

/-- At most `n` readings of a register while a bit of the mask is set; whether all were clear in the
end. -/
def waitClear (reg : Reg) (mask : UInt32) : Nat → SmhcM Bool
  | 0 => pure false
  | n + 1 => readl reg >>= fun v => if v &&& mask ≠ 0 then waitClear reg mask n else pure true

/-- Readings of a register for as long as a bit of the mask is set. -/
def waitForever (reg : Reg) (mask : UInt32) : SmhcM Unit := fun s =>
  let busy := s.reads.takeWhile (· &&& mask != 0)
  match s.reads.dropWhile (· &&& mask != 0) with
  | [] => (none, { s with reads := [], acts := s.acts ++ busy.map (.readl reg) })
  | v :: rest =>
    (some (), { s with reads := rest, acts := s.acts ++ (busy ++ [v]).map (.readl reg) })

/-- `while (!rt_sem_take(&dev->smhc_sem, 0))`: take what is left in the semaphore. -/
def drainSem : SmhcM Unit := fun s =>
  match s.takes.dropWhile (· = true) with
  | [] => (none, { s with takes := [] })
  | _ :: rest => (some (), { s with takes := rest })

def setErr (err : Int) : SmhcM Unit := modify fun s => { s with cmd := { s.cmd with err := err } }

def setResp (i : Fin 4) (v : UInt32) : SmhcM Unit := modify fun s =>
  { s with cmd := { s.cmd with resp := fun j => if j = i then v else s.cmd.resp j } }

def sdmmcUpdateClk : SmhcM Int := do
  writel (bit 13 ||| bit 21 ||| bit 31) .cmd
  let done ← waitClear .cmd (bit 31) 2000000
  if done = false then pure (-rtError)
  else do
    let status ← readl .rintsts
    writel status .rintsts
    pure 0

/-- The words of a transfer, the `n` from the `i`-th on. -/
def transWords (word : Nat → SmhcM Unit) (mask : UInt32) : Nat → Nat → SmhcM Int
  | _, 0 => pure 0
  | i, n + 1 => do
    let ready ← waitClear .status mask 1999999
    if ready = false then do
      let _ ← readl .status
      pure (-rtError)
    else do
      word i
      transWords word mask (i + 1) n

def sdmmcTransData (xfe : SdmmcXfeDes) : SmhcM Int :=
  let words := (xfe.size * xfe.num).toNat >>> 2
  if xfe.flag = mmcDataWrite then
    transWords (fun i => writel (xfe.buff i) .fifo) (bit 3) 0 words
  else
    transWords (fun i => readl .fifo >>= fun v => modify fun s =>
      { s with xfe := { s.xfe with buff := fun j => if j = i then v else s.xfe.buff j } })
      (bit 2) 0 words

/-- The wait for a busy card from a reading of its status on; whether it was given up. -/
def checkBusy : Nat → UInt32 → SmhcM Bool
  | 0, status =>
    if status &&& bit 9 = 0 then pure false
    else do
      let _ ← readl .status
      let _ ← readl .status
      pure true
  | timeout + 1, status =>
    if status &&& bit 9 = 0 then pure false
    else readl .status >>= checkBusy timeout

/-- The word that starts a command, without its code. -/
def cmdval (cmd : MmcsdCmd) : UInt32 :=
  0x80000000 ||| (if cmd.cmdCode = 0 then bit 15 else 0) |||
    (if cmd.respType ≠ respNone then bit 6 else 0) |||
    (if cmd.respType = respR2 then bit 7 else 0) |||
    (if cmd.respType ≠ respR3 ∧ cmd.respType ≠ respR4 then bit 8 else 0) |||
    match cmd.data with
    | none => 0
    | some data => bit 9 ||| bit 13 |||
        (if data.flags &&& dataDirWrite ≠ 0 then bit 10 else 0) |||
        (if 1 < data.blks then bit 12 else 0)

def bytecnt (cmd : MmcsdCmd) : UInt32 :=
  match cmd.data with
  | none => 0
  | some data => data.blksize * data.blks

/-- Start the command; with data, send or fetch it, whatever comes of that. -/
def startCmd (cmd : MmcsdCmd) : SmhcM Unit :=
  match cmd.data with
  | none => do
    writel cmd.arg .cmdarg
    writel (cmdval cmd ||| cmd.cmdCode) .cmd
    update .intmask (· ||| bit 2)
  | some data => do
    writel data.blksize .blksiz
    writel (bytecnt cmd) .bytcnt
    writel cmd.arg .cmdarg
    update .ctrl (· ||| bit 31)
    writel (cmdval cmd ||| cmd.cmdCode) .cmd
    let s ← read
    let _ ← sdmmcTransData s.xfe
    if 1 < data.blks then update .intmask (· ||| bit 14) else update .intmask (· ||| bit 3)

/-- The error bits, in the register or gathered by the interrupts. -/
def errorBits : SmhcM UInt32 := do
  let rintsts ← readl .rintsts
  let risr ← flagRisr
  pure ((rintsts ||| risr) &&& 0xbfc2)

def readResp (cmd : MmcsdCmd) : SmhcM Unit :=
  if cmd.respType = respR2 then do
    readl .resp0 >>= setResp 3
    readl .resp1 >>= setResp 2
    readl .resp2 >>= setResp 1
    readl .resp3 >>= setResp 0
  else readl .resp0 >>= setResp 0

/-- What is left of a block in the controller. -/
def readRemain : Nat → SmhcM Unit
  | 0 => do
    let tbbcn ← readl .tbbcn
    if tbbcn < 512 then readl .fifo >>= fun _ => pure () else pure ()
  | timeout + 1 => do
    let tbbcn ← readl .tbbcn
    if tbbcn < 512 then readl .fifo >>= fun _ => readRemain timeout else pure ()

/-- Of a single block that was to be read, fetch the rest. -/
def fetchRemain (cmd : MmcsdCmd) : SmhcM Unit :=
  if cmd.data.any (fun data => data.flags &&& dataDirRead != 0) ∧ bytecnt cmd = 512 then
    update .ctrl (· ||| bit 31) >>= fun _ => readRemain 1000
  else pure ()

/-- Bring the controller back from an error, and note the error. -/
def recover (cmd : MmcsdCmd) : SmhcM Unit := do
  fetchRemain cmd
  writel 0x7 .ctrl
  waitForever .ctrl 0x7
  let _ ← sdmmcUpdateClk
  setErr (-rtEtimeout)

/-- The end of `sdmmc_send_cmd`, where a request is completed. -/
def complete (err : UInt32) : SmhcM Int := do
  update .ctrl (· &&& ~~~(bit 4))
  update .intmask (· &&& ~~~0xffff)
  writel 0xffffffff .rintsts
  update .ctrl (· ||| bit 4)
  drainSem
  mmcsdReqComplete
  pure err.toNat

/-- From the label `out` on. -/
def out (cmd : MmcsdCmd) (err : UInt32) : SmhcM Int :=
  if err ≠ 0 then recover cmd >>= fun _ => complete err else complete err

/-- `sdmmc_send_cmd` from the start of the command on. -/
def sendStarted (cmd : MmcsdCmd) : SmhcM Int := do
  startCmd cmd
  update .intmask (· ||| 0xbfc2)
  let taken ← rtSemTake
  let err ← errorBits
  if taken = false then out cmd err
  else if err ≠ 0 then do
    setErr (-rtEtimeout)
    out cmd err
  else do
    readResp cmd
    out cmd 0

def sdmmcSendCmd (cmd : MmcsdCmd) : SmhcM Int := do
  let status ← readl .status
  let stuck ← checkBusy 5000000 status
  if stuck = true then pure (-rtError) else sendStarted cmd

/-- What a request leaves in the device before the command is sent. -/
def prepare (cmd : MmcsdCmd) (s : SmhcDev) : SmhcDev :=
  { s with
    cmd := cmd
    xfe := match cmd.data with
      | none => s.xfe
      | some data => { size := data.blksize, num := data.blks, buff := data.buf
                       flag :=
                         if data.flags &&& dataDirWrite ≠ 0 then mmcDataWrite else mmcDataRead } }

def t113SmhcRequest (cmd : MmcsdCmd) : SmhcM Unit := do
  modify (prepare cmd)
  let _ ← sdmmcSendCmd cmd
  pure ()

end T113Boot.Drivers.Smhc
