import Mathlib.Data.List.Chain
import NfceeFw.Nfc.Activation
import NfceeFw.Reasoning.Machine
import NfceeFw.Trf797x.Integrity

/-!
# Lifecycle — one stack, from `nfc.c` down to the chip status register

`nfc_open`, `nfc_transceive` and `nfc_close` in any order that a caller may use, with whatever the
probe of the chip and the exchanges with a card give: the states of the protocol layer and of the
chip driver, and the RF field, stay in step.
-/

namespace NfceeFw.Trf797x

open NfceeFw.Reasoning NfceeFw.Nfc

/-! ## 1. The chip driver -/

/-- `enum trf797x_state` -/
inductive Trf797xState where
  | pwrOff
  | rfOff
  | idle
  deriving DecidableEq, Repr

/-- The values of `TRF797X_CONF_SYS_CLK_DIV`: 0, 1, 2 and 4. -/
inductive SysClkDiv where
  | disabled
  | div1
  | div2
  | div4
  deriving DecidableEq, Repr

def SysClkDiv.bits : SysClkDiv → UInt8
  | .disabled => 0
  | .div1 => 1
  | .div2 => 2
  | .div4 => 3

/-- What `trfconf.h` defines. -/
structure Trf797xConf where
  osc27MHz : Bool
  vin5v : Bool
  sysClkDiv : SysClkDiv

/-- `Trf797xDriver`, with the registers of its chip as `trf797x_register_write1` leaves them. -/
structure Trf797xDriver where
  state : Trf797xState
  regs : Registers

def regModulatorSysClk : UInt8 := 0x09
def regNfcTargetDetection : UInt8 := 0x18

def modulatorDepthOok : UInt8 := 0x01
def modulator27MHz : UInt8 := 0x80

def chipStatusVrs53 : UInt8 := 0x01
def chipStatusRfOn : UInt8 := 0x20

def trf797xDriverInit (regs : Registers) : Trf797xDriver := ⟨.pwrOff, regs⟩

-- `mod_sys_clk`
def modSysClk (conf : Trf797xConf) : UInt8 :=
  modulatorDepthOok ||| (conf.sysClkDiv.bits &&& 0x3) <<< 4 |||
    if conf.osc27MHz then modulator27MHz else 0

/-- The register writes of `trf797x_initialize`. -/
def trf797xInitialize (conf : Trf797xConf) : List (UInt8 × UInt8) :=
  [(regModulatorSysClk, modSysClk conf),
    (regNfcTargetDetection, 0), -- see errata
    (regChipStatus, if conf.vin5v then chipStatusVrs53 else 0)]

/-- `probe` is what the chip answers when the modulator register is read back.  The GPIO lines that
`reset_hardware` drives are not modelled. -/
def trf797xStart (conf : Trf797xConf) (probe : UInt8) (drv : Trf797xDriver) : Int × Trf797xDriver :=
  let regs := drv.regs.write (trf797xInitialize conf)
  if probe != modSysClk conf then (-enodev, { drv with regs := regs }) else (0, ⟨.idle, regs⟩)

-- By way of `trf797x_initiator_start`.
def nfcDeviceOpen (conf : Trf797xConf) (probe : UInt8) (tech : NfcDigital) (drv : Trf797xDriver) :
    Int × Trf797xDriver :=
  let r := trf797xStart conf probe drv
  if r.1 < 0 then r
  else (0, { r.2 with
    regs := r.2.regs.write (trf797xInitiatorStart (protoOf tech) conf.vin5v) })

def switchRf (conf : Trf797xConf) (on : Bool) : List (UInt8 × UInt8) :=
  [(regChipStatus,
    (if on then chipStatusRfOn else 0) ||| if conf.vin5v then chipStatusVrs53 else 0)]

def trf797xInitiatorStop (conf : Trf797xConf) (drv : Trf797xDriver) (shutdown : Bool) :
    Int × Trf797xDriver :=
  if shutdown then (0, { drv with state := .pwrOff })
  else (0, ⟨.rfOff, drv.regs.write (switchRf conf false)⟩)

def nfcDeviceClose (conf : Trf797xConf) (drv : Trf797xDriver) : Int × Trf797xDriver :=
  trf797xInitiatorStop conf drv false

-- The RF_ON bit, as last written.
def Trf797xDriver.rfOn (drv : Trf797xDriver) : Bool :=
  drv.regs regChipStatus &&& chipStatusRfOn != 0

/-! ## 2. The calls of `nfc.c` -/

/-- A call through `driver->dev`. -/
inductive DeviceCall where
  | open_ (ret : Int)
  | ioctl
  | transceive (q : DevRequest)
  | close

/-- The driver, its device, and the calls made to the device so far. -/
structure Stack where
  driver : Driver
  device : Trf797xDriver
  calls : List DeviceCall

/-- `nfc_iso14443a_driver_init`, on a driver structure that holds anything. -/
def nfcIso14443aDriverInit (d : Driver) : Driver := { d with state := .powerOff, tech := .rf14443a }

section

variable (conf : Trf797xConf) (probe : UInt8) (k : OpenStack) (answers : List Answer)

-- `nfc_iso14443_open`, the part for `ISO14443_STATE_POWER_OFF`
def Stack.powerOn (s : Stack) : Int × Stack :=
  if s.driver.state = .powerOff then
    let o := nfcDeviceOpen conf probe s.driver.tech s.device
    if o.1 != 0 then (o.1, { s with device := o.2, calls := s.calls ++ [.open_ o.1] })
    else (0, {
      driver := { s.driver with fsd := deviceFrameSize, state := .idle }
      device := o.2
      calls := s.calls ++ [.open_ o.1, .ioctl] })
  else (0, s)

/-- The rest of it, `error:` included; `none` if the answers run out before `l3.open` returns. -/
def Stack.activate (s : Stack) : Option (Int × Stack) :=
  match s.driver.state with
  | .idle | .halted =>
    let st := (openStart k s.driver).map Opened.settle
    match (nfcIso14443Open k).feed st answers with
    | .wait _ => none
    | .done r =>
      let t : Stack := { s with
        driver := r.final.driver
        calls := s.calls ++ ((nfcIso14443Open k).sent st answers).map .transceive }
      some (r.ret,
        if r.ret != 0 then
          { t with device := (nfcDeviceClose conf t.device).2, calls := t.calls ++ [.close] }
        else t)
  | .powerOff | .selected => some (0, s)

def Stack.nfcIso14443Open (s : Stack) : Option (Int × Stack) :=
  let r := s.powerOn conf probe
  if r.1 != 0 then some r else r.2.activate conf k answers

def Stack.nfcOpen (s : Stack) : Option (Int × Stack) :=
  match s.driver.tech with
  | .rf14443a | .rf14443b => s.nfcIso14443Open conf probe k answers
  | .rf15693 | .rfFelica => some (-einval, s)

def Stack.nfcTransceive (a : CallArgs) (s : Stack) : Option (Int × Stack) :=
  match s.driver.tech with
  | .rf14443a | .rf14443b =>
    let st := transceiveStart s.driver a
    match (nfcIso14443Transceive a).feed st answers with
    | .wait _ => none
    | .done r =>
      some (r.ret, { s with
        driver := r.final.driver
        calls := s.calls ++ ((nfcIso14443Transceive a).sent st answers).map fun q =>
          .transceive (nfcIso14443aTransceive q) })
  | .rf15693 | .rfFelica => some (-einval, s)

def Stack.nfcClose (s : Stack) : Int × Stack :=
  match s.driver.tech with
  | .rf14443a | .rf14443b =>
    let c := nfcDeviceClose conf s.device
    (c.1, {
      driver := { s.driver with state := .powerOff }
      device := c.2
      calls := s.calls ++ [.close] })
  | .rf15693 | .rfFelica => (-einval, s)

end

/-! ## 3. A caller -/

/-- A call of the application, with all that comes from outside while it runs. -/
inductive ApiCall where
  | open_ (probe : UInt8) (k : OpenStack) (answers : List Answer)
  | transceive (a : CallArgs) (answers : List Answer)
  | close

/-- What has returned. -/
inductive ApiReturn where
  | open_ (ret : Int)
  | transceive (ret : Int)
  | close (ret : Int)

-- An `nfc_open` has returned 0, and no `nfc_close` since; latest return first.
def usable : List ApiReturn → Bool
  | [] => false
  | .open_ ret :: rest => ret == 0 || usable rest
  | .transceive _ :: rest => usable rest
  | .close _ :: _ => false

-- The last `nfc_open` returned 0, and no `nfc_close` followed.
def lastOpened : List ApiReturn → Bool
  | [] => false
  | .open_ ret :: _ => ret == 0
  | .transceive _ :: rest => lastOpened rest
  | .close _ :: _ => false

/-- The stack, and the returns that its caller has seen. -/
structure Life where
  stack : Stack
  returns : List ApiReturn

/-- One call.  A call that the caller may not make, or that does not return, changes nothing. -/
def Life.step (conf : Trf797xConf) (s : Life) : ApiCall → Life
  | .open_ probe k answers =>
    match s.stack.nfcOpen conf probe k answers with
    | some (ret, t) => ⟨t, .open_ ret :: s.returns⟩
    | none => s
  | .transceive a answers =>
    if usable s.returns then
      match s.stack.nfcTransceive answers a with
      | some (ret, t) => ⟨t, .transceive ret :: s.returns⟩
      | none => s
    else s
  | .close =>
    if usable s.returns then
      ⟨(s.stack.nfcClose conf).2, .close (s.stack.nfcClose conf).1 :: s.returns⟩
    else s

-- `nfc_iso14443a_driver_init` and `trf797x_nfc_device_init`
def Life.start (d : Driver) (regs : Registers) : Life :=
  ⟨⟨nfcIso14443aDriverInit d, trf797xDriverInit regs, []⟩, []⟩

/-! ## 4. In step -/

/-- The `dev->open` calls that return 0 (`true`) and the `dev->close` calls (`false`). -/
def DeviceCall.power : DeviceCall → Option Bool
  | .open_ ret => if ret = 0 then some true else none
  | .close => some false
  | .ioctl | .transceive _ => none

-- In order, from a device that is closed.
def powerCalls (calls : List DeviceCall) : List Bool := false :: calls.filterMap DeviceCall.power

/-- Between two calls of the application. -/
structure InStep (s : Life) : Prop where
  state : s.stack.driver.state = .powerOff ∨ s.stack.driver.state = .selected
  selected : s.stack.driver.state = .selected ↔ lastOpened s.returns = true
  rf : s.stack.device.rfOn = true ↔ s.stack.driver.state = .selected
  chip : s.stack.device.state = .idle ↔ s.stack.driver.state = .selected
  alternate : (powerCalls s.stack.calls).IsChain (· ≠ ·)
  last : (powerCalls s.stack.calls).getLast? = some (decide (s.stack.driver.state = .selected))

/-- The device calls of an `nfc_open`: none on a selected driver; otherwise a `dev->open` that fails
and nothing more, or one that succeeds, the exchanges of the activation, and one `dev->close` if the
activation fails. -/
def OpenCalls (s t : Stack) (ret : Int) : Prop :=
  (s.driver.state = .selected → ret = 0 ∧ t.calls = s.calls) ∧
  (s.driver.state = .powerOff →
    ret ≠ 0 ∧ t.calls = s.calls ++ [.open_ ret] ∨
      ∃ qs : List DevRequest, t.calls = s.calls ++ [.open_ 0, .ioctl] ++ qs.map .transceive ++
        if ret = 0 then [] else [.close])

/-! ## 5. The chip driver -/

section

variable (conf : Trf797xConf) (probe : UInt8)

/-- The two ends of `dev->open`. -/
theorem nfcDeviceOpen_cases (tech : NfcDigital) (drv : Trf797xDriver) :
    ((nfcDeviceOpen conf probe tech drv).1 = -enodev ∧
      (nfcDeviceOpen conf probe tech drv).2.state = drv.state ∧
      (nfcDeviceOpen conf probe tech drv).2.rfOn = false) ∨
    ((nfcDeviceOpen conf probe tech drv).1 = 0 ∧
      (nfcDeviceOpen conf probe tech drv).2.state = .idle ∧
      (nfcDeviceOpen conf probe tech drv).2.rfOn = true) := by
  by_cases hprobe : probe = modSysClk conf
  · have hstart : trf797xStart conf probe drv =
        (0, ⟨.idle, drv.regs.write (trf797xInitialize conf)⟩) := by
      unfold trf797xStart
      rw [bne_eq_false_iff_eq.mpr hprobe]
      rfl
    have hopen : nfcDeviceOpen conf probe tech drv = (0, ⟨.idle, (drv.regs.write
        (trf797xInitialize conf)).write (trf797xInitiatorStart (protoOf tech) conf.vin5v)⟩) := by
      unfold nfcDeviceOpen
      rw [hstart]
      rfl
    rw [hopen]
    refine .inr ⟨rfl, rfl, ?_⟩
    show ((0x20 ||| if conf.vin5v then 0x01 else 0x00 : UInt8) &&& chipStatusRfOn != 0) = true
    cases conf.vin5v <;> decide
  · have hstart : trf797xStart conf probe drv =
        (-enodev, { drv with regs := drv.regs.write (trf797xInitialize conf) }) := by
      unfold trf797xStart
      rw [bne_iff_ne.mpr hprobe]
      rfl
    have hopen : nfcDeviceOpen conf probe tech drv =
        (-enodev, { drv with regs := drv.regs.write (trf797xInitialize conf) }) := by
      unfold nfcDeviceOpen
      rw [hstart]
      rfl
    rw [hopen]
    refine .inl ⟨rfl, rfl, ?_⟩
    show ((if conf.vin5v then chipStatusVrs53 else 0) &&& chipStatusRfOn != 0) = false
    cases conf.vin5v <;> decide

theorem nfcDeviceClose_rfOn (drv : Trf797xDriver) :
    (nfcDeviceClose conf drv).2.rfOn = false := by
  show ((0 ||| if conf.vin5v then chipStatusVrs53 else 0) &&& chipStatusRfOn != 0) = false
  cases conf.vin5v <;> decide

end

/-! ## 6. The protocol layer -/

section

variable (k : OpenStack) (s : OpenLocals)

theorem cascade_tech : (openLocals (s.cascade k)).driver.tech = s.driver.tech := by
  unfold OpenLocals.cascade
  split
  · rfl
  · split
    · rfl
    · rfl

theorem afterWupa_tech : (openLocals (s.afterWupa k)).driver.tech = s.driver.tech := by
  unfold OpenLocals.afterWupa
  dsimp only
  split
  · rfl
  · split
    · rfl
    · exact cascade_tech k _

theorem afterSelect_tech : (openLocals (s.afterSelect k)).driver.tech = s.driver.tech := by
  unfold OpenLocals.afterSelect
  split
  · split
    · rfl
    · exact cascade_tech k _
  · exact cascade_tech k _

-- The activation leaves the technology alone.
theorem openResume_tech (ans : Answer) :
    (openLocals (s.resume k ans)).driver.tech = s.driver.tech := by
  unfold OpenLocals.resume
  cases s.site with
  | wupa =>
    dsimp only
    split
    · rfl
    · exact afterWupa_tech k _
  | anticollision =>
    dsimp only
    split
    · rfl
    · unfold OpenLocals.afterAnticollision
      split
      · rfl
      · rfl
  | select =>
    dsimp only
    split
    · rfl
    · exact afterSelect_tech k _
  | rats =>
    dsimp only
    split
    · rfl
    · rfl

end

theorem open_tech (k : OpenStack) (d : Driver) (answers : List Answer) :
    (openLocals ((nfcIso14443aOpen k).feed (openStart k d) answers)).driver.tech = d.tech :=
  Program.feed_invariant (nfcIso14443aOpen k)
    (I := fun st => (openLocals st).driver.tech = d.tech)
    (fun s ans hs => (openResume_tech k s ans).trans hs) (openStart k d) rfl answers

theorem settle_state (r : Opened) :
    (r.settle.ret = 0 ∧ r.settle.final.driver.state = .selected) ∨
      (r.settle.ret ≠ 0 ∧ r.settle.final.driver.state = .powerOff) := by
  unfold Opened.settle
  dsimp only
  by_cases hret : r.ret = 0
  · rw [hret]
    exact .inl ⟨rfl, rfl⟩
  · rw [if_pos (bne_iff_ne.mpr hret)]
    exact .inr ⟨hret, rfl⟩

theorem settle_tech (r : Opened) : r.settle.final.driver.tech = r.final.driver.tech := by
  unfold Opened.settle
  dsimp only
  split
  · rfl
  · rfl

/-- How `nfc_open` leaves a stack whose driver was off. -/
inductive Opens (s t : Stack) : Int → Prop where
  | refused (ret : Int) (hret : ret ≠ 0) (hdriver : t.driver = s.driver)
      (hchip : t.device.state = s.device.state) (hrf : t.device.rfOn = false)
      (hcalls : t.calls = s.calls ++ [.open_ ret]) : Opens s t ret
  | failed (ret : Int) (qs : List DevRequest) (hret : ret ≠ 0)
      (htech : t.driver.tech = s.driver.tech) (hstate : t.driver.state = .powerOff)
      (hchip : t.device.state = .rfOff) (hrf : t.device.rfOn = false)
      (hcalls : t.calls = s.calls ++ [.open_ 0, .ioctl] ++ qs.map .transceive ++ [.close]) :
      Opens s t ret
  | activated (qs : List DevRequest) (htech : t.driver.tech = s.driver.tech)
      (hstate : t.driver.state = .selected) (hchip : t.device.state = .idle)
      (hrf : t.device.rfOn = true)
      (hcalls : t.calls = s.calls ++ [.open_ 0, .ioctl] ++ qs.map .transceive) : Opens s t 0

section

variable {conf : Trf797xConf} {probe : UInt8} {k : OpenStack} {answers : List Answer}
  {s t : Stack} {ret : Int}

-- The activation of an idle driver, and `error:`.
theorem activate_cases (hidle : s.driver.state = .idle)
    (h : s.activate conf k answers = some (ret, t)) :
    t.driver.tech = s.driver.tech ∧ ∃ qs : List DevRequest,
      (ret = 0 ∧ t.driver.state = .selected ∧ t.device = s.device ∧
        t.calls = s.calls ++ qs.map .transceive) ∨
      (ret ≠ 0 ∧ t.driver.state = .powerOff ∧ t.device = (nfcDeviceClose conf s.device).2 ∧
        t.calls = s.calls ++ qs.map .transceive ++ [.close]) := by
  unfold Stack.activate at h
  rw [hidle] at h
  dsimp only at h
  have hmap : (nfcIso14443Open k).feed ((openStart k s.driver).map Opened.settle) answers =
      ((nfcIso14443aOpen k).feed (openStart k s.driver) answers).map Opened.settle :=
    Program.feed_map _ _ _ _
  have htech := open_tech k s.driver answers
  rw [hmap] at h
  cases hfeed : (nfcIso14443aOpen k).feed (openStart k s.driver) answers with
  | wait u =>
    rw [hfeed] at h
    cases h
  | done r =>
    rw [hfeed] at h htech
    have hsettle := (settle_tech r).trans htech
    injection h with h
    injection h with hret ht
    rw [← hret, ← ht]
    dsimp only [Status.map]
    rcases settle_state r with ⟨hzero, hstate⟩ | ⟨hnonzero, hstate⟩
    · rw [hzero]
      exact ⟨hsettle, _, .inl ⟨rfl, hstate, rfl, rfl⟩⟩
    · rw [if_pos (bne_iff_ne.mpr hnonzero)]
      exact ⟨hsettle, _, .inr ⟨hnonzero, hstate, rfl, rfl⟩⟩

-- The first part of `nfc_iso14443_open` on a driver that is off.
theorem powerOn_cases (conf : Trf797xConf) (probe : UInt8) (hoff : s.driver.state = .powerOff) :
    (∃ ret drv, ret ≠ 0 ∧ drv.state = s.device.state ∧ drv.rfOn = false ∧
      s.powerOn conf probe = (ret, { s with device := drv, calls := s.calls ++ [.open_ ret] })) ∨
    ∃ drv, drv.state = .idle ∧ drv.rfOn = true ∧
      s.powerOn conf probe = (0, {
        driver := { s.driver with fsd := deviceFrameSize, state := .idle }
        device := drv
        calls := s.calls ++ [.open_ 0, .ioctl] }) := by
  unfold Stack.powerOn
  rw [if_pos hoff]
  dsimp only
  rcases nfcDeviceOpen_cases conf probe s.driver.tech s.device with ⟨hret, hchip, hrf⟩ |
    ⟨hret, hchip, hrf⟩
  · rw [hret]
    exact .inl ⟨-enodev, _, by decide, hchip, hrf, rfl⟩
  · rw [hret]
    exact .inr ⟨_, hchip, hrf, rfl⟩

-- It goes on to the activation exactly if `dev->open`, where called, gave 0.
theorem nfcOpen_powerOn {u : Stack} (htech : s.driver.tech = .rf14443a)
    (hpower : s.powerOn conf probe = (ret, u)) :
    s.nfcOpen conf probe k answers =
      if ret != 0 then some (ret, u) else u.activate conf k answers := by
  unfold Stack.nfcOpen
  rw [htech]
  unfold Stack.nfcIso14443Open
  rw [hpower]

/-- `nfc_open` on a driver that is off. -/
theorem nfcOpen_powerOff (htech : s.driver.tech = .rf14443a) (hoff : s.driver.state = .powerOff)
    (h : s.nfcOpen conf probe k answers = some (ret, t)) : Opens s t ret := by
  rcases powerOn_cases conf probe hoff with
    ⟨e, drv, hnonzero, hchip, hrf, hpower⟩ | ⟨drv, hchip, hrf, hpower⟩
  · rw [nfcOpen_powerOn htech hpower, if_pos (bne_iff_ne.mpr hnonzero)] at h
    cases h
    exact .refused _ hnonzero rfl hchip hrf rfl
  · rw [nfcOpen_powerOn htech hpower, if_neg (show ¬ ((0 : Int) != 0) = true by decide)] at h
    obtain ⟨hkept, qs, hends⟩ := activate_cases rfl h
    rcases hends with ⟨rfl, hstate, hdevice, hcalls⟩ | ⟨hnonzero, hstate, hdevice, hcalls⟩
    · have hdrv : t.device = drv := hdevice
      rw [← hdrv] at hchip hrf
      exact .activated qs hkept hstate hchip hrf hcalls
    · refine .failed _ qs hnonzero hkept hstate ?_ ?_ hcalls
      · rw [hdevice]
        rfl
      · rw [hdevice]
        exact nfcDeviceClose_rfOn conf _

-- On a selected driver it is 0 at once.
theorem nfcOpen_selected (htech : s.driver.tech = .rf14443a) (hsel : s.driver.state = .selected)
    (h : s.nfcOpen conf probe k answers = some (ret, t)) : ret = 0 ∧ t = s := by
  have hpower : s.powerOn conf probe = (0, s) := by
    unfold Stack.powerOn
    rw [if_neg (by rw [hsel]; exact nofun)]
  have hactivate : s.activate conf k answers = some (0, s) := by
    unfold Stack.activate
    rw [hsel]
  rw [nfcOpen_powerOn htech hpower] at h
  cases hactivate.symm.trans h
  exact ⟨rfl, rfl⟩

-- Of the driver, an exchange changes the block number alone; it asks the device for exchanges only.
theorem nfcTransceive_keeps {a : CallArgs} (htech : s.driver.tech = .rf14443a)
    (h : s.nfcTransceive answers a = some (ret, t)) :
    t.driver.tech = s.driver.tech ∧ t.driver.state = s.driver.state ∧ t.device = s.device ∧
      ∃ qs : List DevRequest, t.calls = s.calls ++ qs.map .transceive := by
  unfold Stack.nfcTransceive at h
  rw [htech] at h
  dsimp only at h
  have hkept := Program.feed_invariant (nfcIso14443Transceive a) (I := KeepsDriver s.driver)
    (fun u ans hu => keepsDriver_resume a u ans hu) _ (keepsDriver_start s.driver a) answers
  cases hfeed : (nfcIso14443Transceive a).feed (transceiveStart s.driver a) answers with
  | wait u =>
    rw [hfeed] at h
    cases h
  | done r =>
    rw [hfeed] at h hkept
    have hdriver : r.final.driver = { s.driver with block := r.final.driver.block } := hkept
    cases h
    dsimp only
    rw [hdriver]
    refine ⟨rfl, rfl, rfl, ((nfcIso14443Transceive a).sent (transceiveStart s.driver a) answers).map
      nfcIso14443aTransceive, ?_⟩
    rw [List.map_map]
    rfl

end

/-! ## 7. Whole lives -/

theorem powerCalls_append (cs ds : List DeviceCall) :
    powerCalls (cs ++ ds) = powerCalls cs ++ ds.filterMap DeviceCall.power := by
  unfold powerCalls
  rw [List.filterMap_append, List.cons_append]

theorem power_transceive (qs : List DevRequest) :
    (qs.map DeviceCall.transceive).filterMap DeviceCall.power = [] := by
  rw [List.filterMap_eq_nil_iff]
  intro c hc
  obtain ⟨q, -, rfl⟩ := List.mem_map.mp hc
  rfl

-- One more call, of the other kind.
theorem alternate_snoc {l : List Bool} {x : Bool} (h : l.IsChain (· ≠ ·))
    (hlast : l.getLast? = some (!x)) :
    (l ++ [x]).IsChain (· ≠ ·) ∧ (l ++ [x]).getLast? = some x := by
  refine ⟨h.append (.singleton x) ?_, List.getLast?_concat⟩
  intro y hy z hz
  rw [hlast] at hy
  cases hy
  cases hz
  exact Bool.not_ne_self x

/-- What holds between two calls, with what the next one needs. -/
structure Lives (s : Life) : Prop extends InStep s where
  tech : s.stack.driver.tech = .rf14443a
  usable : usable s.returns = lastOpened s.returns

-- A driver that is off, over a chip driver that is not idle and a field that is off.
theorem inStep_off {t : Stack} {returns : List ApiReturn} (hstate : t.driver.state = .powerOff)
    (hreturns : lastOpened returns = false) (hrf : t.device.rfOn = false)
    (hchip : t.device.state ≠ .idle) (halternate : (powerCalls t.calls).IsChain (· ≠ ·))
    (hlast : (powerCalls t.calls).getLast? = some false) : InStep ⟨t, returns⟩ := by
  have hoff : ¬ t.driver.state = .selected := by
    rw [hstate]
    exact nofun
  exact {
    state := .inl hstate
    selected := iff_of_false hoff (by rw [hreturns]; exact Bool.false_ne_true)
    rf := iff_of_false (by rw [hrf]; exact Bool.false_ne_true) hoff
    chip := iff_of_false hchip hoff
    alternate := halternate
    last := by rw [hlast, decide_eq_false hoff] }

theorem lives_start (d : Driver) {regs : Registers}
    (hrf : regs regChipStatus &&& chipStatusRfOn = 0) : Lives (Life.start d regs) where
  toInStep := by
    refine inStep_off rfl rfl ?_ nofun (.singleton _) rfl
    show (regs regChipStatus &&& chipStatusRfOn != 0) = false
    rw [hrf]
    rfl
  tech := rfl
  usable := rfl

section

variable {conf : Trf797xConf} {s : Life} {t : Stack} {ret : Int}

theorem Lives.off_iff (h : Lives s) :
    s.stack.driver.state = .powerOff ↔ lastOpened s.returns = false := by
  rw [← Bool.not_eq_true, ← h.selected]
  rcases h.state with hoff | hsel
  · rw [hoff]
    exact iff_of_true rfl nofun
  · rw [hsel]
    exact iff_of_false nofun (not_not_intro rfl)

-- `dev->open`, and the exchanges of an activation.
theorem powerCalls_activation (cs : List DeviceCall) (qs : List DevRequest) :
    powerCalls (cs ++ [.open_ 0, .ioctl] ++ qs.map .transceive) = powerCalls cs ++ [true] := by
  rw [powerCalls_append, power_transceive, List.append_nil, powerCalls_append]
  rfl

/-- The power calls of an `nfc_open` on a driver that is off. -/
theorem Opens.power {s t : Stack} (h : Opens s t ret)
    (halternate : (powerCalls s.calls).IsChain (· ≠ ·))
    (hlast : (powerCalls s.calls).getLast? = some false) :
    (powerCalls t.calls).IsChain (· ≠ ·) ∧
      (powerCalls t.calls).getLast? = some (decide (ret = 0)) := by
  have hopened := alternate_snoc (x := true) halternate hlast
  cases h with
  | refused ret hret hdriver hchip hrf hcalls =>
    have hpower : powerCalls t.calls = powerCalls s.calls := by
      have hnone : (DeviceCall.open_ ret).power = none := if_neg hret
      rw [hcalls, powerCalls_append, List.filterMap_cons_none hnone, List.filterMap_nil,
        List.append_nil]
    rw [hpower, decide_eq_false hret]
    exact ⟨halternate, hlast⟩
  | failed ret qs hret htech hstate hchip hrf hcalls =>
    have hpower : powerCalls t.calls = powerCalls s.calls ++ [true] ++ [false] := by
      rw [hcalls, powerCalls_append, powerCalls_activation]
      rfl
    rw [hpower, decide_eq_false hret]
    exact alternate_snoc (x := false) hopened.1 hopened.2
  | activated qs htech hstate hchip hrf hcalls =>
    rw [hcalls, powerCalls_activation]
    exact hopened

theorem lives_open {probe : UInt8} {k : OpenStack} {answers : List Answer} (h : Lives s)
    (hopen : s.stack.nfcOpen conf probe k answers = some (ret, t)) :
    Lives ⟨t, .open_ ret :: s.returns⟩ := by
  rcases h.state with hoff | hsel
  · have hclosed := h.off_iff.mp hoff
    have hlast := h.last
    rw [decide_eq_false (by rw [hoff]; exact nofun)] at hlast
    have hopens := nfcOpen_powerOff h.tech hoff hopen
    obtain ⟨halternate, hlast⟩ := hopens.power h.alternate hlast
    -- no return of 0 since the last `nfc_close`, unless it is this one
    have husable : usable (.open_ ret :: s.returns) = (ret == 0) := by
      rw [usable, h.usable, hclosed, Bool.or_false]
    cases hopens with
    | refused ret hret hdriver hchip hrf hcalls =>
      rw [decide_eq_false hret] at hlast
      have hidle : t.device.state ≠ .idle := by
        rw [hchip, ne_eq, h.chip, hoff]
        exact nofun
      exact ⟨inStep_off (by rw [hdriver, hoff]) (beq_eq_false_iff_ne.mpr hret) hrf hidle halternate
        hlast, by rw [hdriver, h.tech], husable⟩
    | failed ret qs hret htech hstate hchip hrf hcalls =>
      rw [decide_eq_false hret] at hlast
      have hidle : t.device.state ≠ .idle := by
        rw [hchip]
        exact nofun
      exact ⟨inStep_off hstate (beq_eq_false_iff_ne.mpr hret) hrf hidle halternate hlast,
        htech.trans h.tech, husable⟩
    | activated qs htech hstate hchip hrf hcalls =>
      have hstep : InStep ⟨t, .open_ 0 :: s.returns⟩ := {
        state := .inr hstate
        selected := iff_of_true hstate rfl
        rf := iff_of_true hrf hstate
        chip := iff_of_true hchip hstate
        alternate := halternate
        last := by rw [hlast, decide_eq_true hstate]; rfl }
      exact ⟨hstep, htech.trans h.tech, husable⟩
  · obtain ⟨rfl, rfl⟩ := nfcOpen_selected h.tech hsel hopen
    have hall : s.stack.driver.state = .selected ↔ lastOpened (.open_ 0 :: s.returns) = true :=
      iff_of_true hsel rfl
    exact { h with selected := hall, usable := rfl }

theorem lives_transceive {a : CallArgs} {answers : List Answer} (h : Lives s)
    (hcall : s.stack.nfcTransceive answers a = some (ret, t)) :
    Lives ⟨t, .transceive ret :: s.returns⟩ := by
  obtain ⟨htech, hstate, hdevice, qs, hcalls⟩ := nfcTransceive_keeps h.tech hcall
  have hpower : powerCalls t.calls = powerCalls s.stack.calls := by
    rw [hcalls, powerCalls_append, power_transceive, List.append_nil]
  refine ⟨⟨?_, ?_, ?_, ?_, ?_, ?_⟩, htech.trans h.tech, h.usable⟩
  all_goals dsimp only
  · rw [hstate]
    exact h.state
  · rw [hstate]
    exact h.selected
  · rw [hstate, hdevice]
    exact h.rf
  · rw [hstate, hdevice]
    exact h.chip
  · rw [hpower]
    exact h.alternate
  · rw [hpower, hstate]
    exact h.last

theorem lives_close (h : Lives s) (husable : usable s.returns = true) :
    Lives ⟨(s.stack.nfcClose conf).2, .close (s.stack.nfcClose conf).1 :: s.returns⟩ := by
  have hsel := h.selected.mpr (h.usable.symm.trans husable)
  have hclose : s.stack.nfcClose conf = (0, {
      driver := { s.stack.driver with state := .powerOff }
      device := (nfcDeviceClose conf s.stack.device).2
      calls := s.stack.calls ++ [.close] }) := by
    unfold Stack.nfcClose
    rw [h.tech]
    rfl
  have hlast := h.last
  rw [decide_eq_true hsel] at hlast
  have hpower := alternate_snoc (x := false) h.alternate hlast
  rw [hclose]
  refine ⟨inStep_off rfl rfl (nfcDeviceClose_rfOn conf _) nofun ?_ ?_, h.tech, rfl⟩
  · rw [powerCalls_append]
    exact hpower.1
  · rw [powerCalls_append]
    exact hpower.2

theorem lives_step (h : Lives s) (c : ApiCall) : Lives (s.step conf c) := by
  cases c with
  | open_ probe k answers =>
    unfold Life.step
    dsimp only
    split
    · rename_i hopen
      exact lives_open h hopen
    · exact h
  | transceive a answers =>
    unfold Life.step
    dsimp only
    split
    · split
      · rename_i hcall
        exact lives_transceive h hcall
      · exact h
    · exact h
  | close =>
    unfold Life.step
    dsimp only
    split
    · rename_i husable
      exact lives_close h husable
    · exact h

-- An `nfc_open` between two calls.
theorem openCalls {probe : UInt8} {k : OpenStack} {answers : List Answer} (h : Lives s)
    (hopen : s.stack.nfcOpen conf probe k answers = some (ret, t)) : OpenCalls s.stack t ret := by
  constructor
  · intro hsel
    obtain ⟨rfl, rfl⟩ := nfcOpen_selected h.tech hsel hopen
    exact ⟨rfl, rfl⟩
  · intro hoff
    cases nfcOpen_powerOff h.tech hoff hopen with
    | refused ret hret hdriver hchip hrf hcalls => exact .inl ⟨hret, hcalls⟩
    | failed ret qs hret htech hstate hchip hrf hcalls =>
      refine .inr ⟨qs, ?_⟩
      rw [if_neg hret]
      exact hcalls
    | activated qs htech hstate hchip hrf hcalls =>
      refine .inr ⟨qs, ?_⟩
      rw [if_pos rfl, List.append_nil]
      exact hcalls

end

/-- From the two `init` functions on, with the RF off, whatever the caller, the chip and the cards
do. -/
theorem life_inStep (conf : Trf797xConf) (d : Driver) (regs : Registers)
    (hrf : regs regChipStatus &&& chipStatusRfOn = 0) (calls : List ApiCall) :
    (∀ t ∈ Machine.visited (Life.step conf) (Life.start d regs) calls, InStep t) ∧
    ∀ x ∈ Machine.moves (Life.step conf) (Life.start d regs) calls,
      ∀ probe k answers ret t, x.2 = .open_ probe k answers →
        x.1.stack.nfcOpen conf probe k answers = some (ret, t) → OpenCalls x.1.stack t ret := by
  have hstep : ∀ s c, Lives s → Lives (s.step conf c) := fun s c hs => lives_step hs c
  have hstart := lives_start d hrf
  constructor
  · intro t ht
    exact (Machine.visited_invariant (Life.step conf) hstep _ hstart calls t ht).toInStep
  · intro x hx probe k answers ret t _ hopen
    exact openCalls (Machine.moves_invariant (Life.step conf) hstep _ hstart calls x hx) hopen

-- A probe that fails, an open without a card, one with a card, an exchange, and a close.
theorem life_inStep_visit :
    let conf : Trf797xConf := ⟨false, true, .disabled⟩
    let calls := [ApiCall.open_ 0x00 clearStack [], .open_ 0x01 clearStack [.error 115],
      .open_ 0x01 clearStack [.frame [0x04, 0x00], .frame [0x01, 0x02, 0x03, 0x04, 0x04],
        .frame [0x00, 0xFE, 0x51]],
      .transceive (CallArgs.ofBytes [0x30, 0x04] 18) [.error 115], .close]
    let visited := Machine.visited (Life.step conf) (Life.start initDriver fun _ => 0) calls
    (∀ t ∈ visited, InStep t) ∧
      visited.map (fun t => t.stack.driver.state) =
        [.powerOff, .powerOff, .powerOff, .selected, .selected, .powerOff] ∧
      visited.map (fun t => powerCalls t.stack.calls) =
        [[false], [false], [false, true, false], [false, true, false, true],
          [false, true, false, true], [false, true, false, true, false]] := by
  intro conf calls visited
  exact ⟨(life_inStep conf initDriver (fun _ => 0) (by decide) calls).1, by decide +kernel,
    by decide +kernel⟩

end NfceeFw.Trf797x
