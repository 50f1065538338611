import NfceeFw.Trf797x.Framing
import NfceeFw.Trf797x.Lifecycle

/-!
# Bus — the driver functions at the pins, with a chip behind them

`Lifecycle` has the driver write registers.  Here every access goes over the wires of `Framing`, the
bus is a mutex, and the registers are those of a chip that follows its pins.
-/

namespace NfceeFw.Trf797x

open NfceeFw.Reasoning NfceeFw.Nfc

/-! ## 1. The chip -/

/-- The pins: EN, the lines IO0 to IO7 as far as they select the interface, and the bus. -/
inductive Pin where
  | en (high : Bool)
  | io (line : Nat) (high : Bool)
  | wire (w : Wire)
  deriving DecidableEq, Repr

/-- Whether EN is high, where the chip stands in the stream, and its registers. -/
structure Chip where
  enabled : Bool
  framer : Framer
  regs : Registers

def cmdIdle : UInt8 := 0x00
def cmdInit : UInt8 := 0x03

section

-- what the registers hold at power-on, and after the software initialization
variable (defaults : Registers)

def Operation.carryOut (regs : Registers) : Operation → Registers
  | .command cmd => if cmd = cmdInit then defaults else regs
  | .read _ => regs
  | .write writes => regs.write writes

-- A chip that is off sees the edges only.
def edge : Wire → Option Framer
  | .fall => some .ready
  | .rise => some .deselected
  | .byte _ => none

/-- `none` where the chip cannot make anything of the stream. -/
def Chip.pin (c : Chip) : Pin → Option Chip
  | .en true => some (if c.enabled then c else { c with enabled := true, regs := defaults })
  | .en false => some { c with
      enabled := false
      framer := if c.framer = .deselected then .deselected else .ready }
  | .io _ _ => some c
  | .wire w =>
    if c.enabled then
      (framerStep c.framer w).map fun x =>
        { c with framer := x.1, regs := x.2.foldl (Operation.carryOut defaults) c.regs }
    else (edge w).map fun f => { c with framer := f }

-- The byte that the chip shifts out while it takes the next one.
def Chip.shift (c : Chip) : UInt8 :=
  match c.framer with
  | .single true adr => c.regs adr
  | .continuous true adr _ => c.regs adr
  | _ => 0

-- All that it shifts out.
def Chip.shifted : Chip → List Pin → List UInt8
  | _, [] => []
  | c, p :: ps =>
    let rest := (c.pin defaults p).elim [] fun d => Chip.shifted d ps
    match p with
    | .wire (.byte _) => c.shift :: rest
    | _ => rest

/-! ## 2. The driver functions -/

/-- The chip, whether the bus is taken, and the state of the driver. -/
structure Rig where
  chip : Chip
  taken : Bool
  state : Trf797xState

def Rig.pins (r : Rig) (ps : List Pin) : Option Rig :=
  (ps.foldlM (Chip.pin defaults) r.chip).map fun c => { r with chip := c }

-- Another `spiAcquireBus` by the thread that has the bus would not return.
def Rig.acquireBus (r : Rig) : Option Rig :=
  if r.taken then none else { r with taken := true }.pins defaults [.wire .fall]

def Rig.releaseBus (r : Rig) : Option Rig :=
  if r.taken then { r with taken := false }.pins defaults [.wire .rise] else none

variable (conf : Trf797xConf) (line : Mem UInt8)

def callPins (calls : List Call) : Option (List Pin) :=
  (callsSpi calls).map fun spi => (wire line 0 spi).map .wire

def Rig.calls (r : Rig) (calls : List Call) : Option Rig :=
  (callPins line calls).bind (r.pins defaults)

-- `trf797x_register_read1`, and the value it returns
def Rig.registerRead1 (r : Rig) (adr : UInt8) : Option (UInt8 × Rig) :=
  (callPins line [.registerRead adr 1]).bind fun ps =>
    (r.pins defaults ps).map fun t => ((r.chip.shifted defaults ps).getLastD 0, t)

def registerWrites (writes : List (UInt8 × UInt8)) : List Call :=
  writes.map fun w => .registerWrite w.1 [w.2]

-- `reset_hardware`
def resetHardware : List Pin :=
  [.en false, .io 0 false, .io 1 true, .io 2 true, .wire .rise, .wire .fall, .en true]

-- `trf797x_initialize` up to the probe
def initializeCalls : List Call :=
  [.command cmdInit, .command cmdIdle, .command cmdResetFifo] ++
    registerWrites (trf797xInitialize conf)

def Rig.powerUp (r : Rig) : Option Rig :=
  if r.state = .pwrOff then r.pins defaults resetHardware else some r

/-- `trf797x_start` -/
def Rig.start (r : Rig) : Option (Int × Rig) := do
  let r ← r.powerUp defaults
  let r ← r.calls defaults line (initializeCalls conf)
  let (probe, r) ← r.registerRead1 defaults line regModulatorSysClk
  if probe != modSysClk conf then some (-enodev, r) else some (0, { r with state := .idle })

/-- `trf797x_initiator_start`, under `nfc_device_open` -/
def Rig.initiatorStart (tech : NfcDigital) (r : Rig) : Option (Int × Rig) := do
  let r ← r.acquireBus defaults
  let (ret, r) ← r.start defaults conf line
  if ret < 0 then (r.releaseBus defaults).map fun t => (ret, t)
  else
    let r ← r.calls defaults line
      (registerWrites (trf797xInitiatorStart (protoOf tech) conf.vin5v))
    (r.releaseBus defaults).map fun t => (0, t)

/-- The accesses of one pass of either loop. -/
def passCalls : TransceiveAt × IrqEvent → List Call
  | (_, .timeout) | (_, .stop) => []
  | (.sending s, .irq status fifo) =>
    .registerRead regIrqStatus 1 ::
      if status &&& irqStatusFifo != 0 then
        s.advance.elim [] fun t =>
          if 0 < t.txBytes then [.fifoFill fifo.status (t.buf.read t.off t.txBytes)] else []
      else []
  | (.receiving s, .irq status fifo) =>
    .registerRead regIrqStatus 1 ::
      if status &&& irqStatusError != 0 then []
      else if status &&& (irqStatusFifo ||| irqStatusSrx) != 0 then
        [.fifoDrain fifo.status s.base.isNone s.rxBytes]
      else []

/-- The arguments of `trf797x_initiator_transceive`, and what wakes it. -/
structure Transfer where
  tx : List Iovec
  rx : RxIovec
  junk : Nat
  events : List IrqEvent

namespace Transfer

variable (x : Transfer)

def begin : Option (Status TransceiveAt TransceiveEnd) :=
  transceiveBegin x.tx.length x.tx x.rx x.junk

-- What it returns; `none` if the events do not end it, or end it past an array.
def ret : Option Int :=
  x.begin.bind fun st =>
    match (trf797xInitiatorTransceive x.rx).feed st x.events with
    | .done (.returned ret _) => some ret
    | _ => none

def calls : List Call :=
  .registerRead regIrqStatus 1 :: .transmit x.tx false x.junk ::
    (x.begin.elim [] fun st => (trf797xInitiatorTransceive x.rx).steps st x.events).flatMap
      passCalls

end Transfer

/-- `trf797x_initiator_transceive` -/
def Rig.initiatorTransceive (x : Transfer) (r : Rig) : Option (Int × Rig) :=
  if x.tx.length = 0 then some (-einval, r)
  else do
    let ret ← x.ret
    let r ← r.acquireBus defaults
    let r ← r.calls defaults line x.calls
    (r.releaseBus defaults).map fun t => (ret, t)

/-- `trf797x_initiator_stop` -/
def Rig.initiatorStop (shutdown : Bool) (r : Rig) : Option (Int × Rig) :=
  if shutdown then ({ r with state := .pwrOff }.pins defaults [.en false]).map fun t => (0, t)
  else do
    let r ← r.acquireBus defaults
    let r ← r.calls defaults line (registerWrites (switchRf conf false))
    ({ r with state := .rfOff }.releaseBus defaults).map fun t => (0, t)

/-! ## 3. Any order of calls -/

inductive DriverCall where
  | start (tech : NfcDigital)
  | transceive (x : Transfer)
  | stop (shutdown : Bool)

def Rig.step (r : Rig) : DriverCall → Option (Int × Rig)
  | .start tech => r.initiatorStart defaults conf line tech
  | .transceive x => r.initiatorTransceive defaults line x
  | .stop shutdown => r.initiatorStop defaults conf line shutdown

-- The values returned, in order, and what the calls leave.
def Rig.run : Rig → List DriverCall → Option (List Int × Rig)
  | r, [] => some ([], r)
  | r, c :: cs => do
    let (ret, t) ← r.step defaults conf line c
    let (rets, u) ← Rig.run t cs
    some (ret :: rets, u)

end

/-- The same call in `Lifecycle`, with a chip that answers its probe. -/
def driverStep (conf : Trf797xConf) (drv : Trf797xDriver) : DriverCall → Int × Trf797xDriver
  | .start tech => nfcDeviceOpen conf (modSysClk conf) tech drv
  | .transceive x => (if x.tx.length = 0 then -einval else x.ret.getD 0, drv)
  | .stop shutdown => trf797xInitiatorStop conf drv shutdown

def driverRun (conf : Trf797xConf) : Trf797xDriver → List DriverCall → List Int × Trf797xDriver
  | drv, [] => ([], drv)
  | drv, c :: cs =>
    let s := driverStep conf drv c
    let rest := driverRun conf s.2 cs
    (s.1 :: rest.1, rest.2)

/-- The bits of a transmission, added up as an `int`, are at least -14, without an overflow in
`bits + 7`: its header announces a continuous access. -/
def Delimited (tx : List Iovec) : Prop :=
  tx.length < 2 ^ 32 ∧ -14 ≤ totalBits tx ∧ totalBits tx + 7 < 2 ^ 31

instance (tx : List Iovec) : Decidable (Delimited tx) := inferInstanceAs (Decidable (_ ∧ _))

/-- A driver that has not been started has no configuration; a transmission fits the header, and
the events end it. -/
def DriverCall.Legal (drv : Trf797xDriver) : DriverCall → Prop
  | .start _ => True
  | .transceive x => drv.state ≠ .pwrOff ∧
      (x.tx.length = 0 ∨ Delimited x.tx ∧ x.ret.isSome = true)
  | .stop _ => drv.state ≠ .pwrOff

instance (drv : Trf797xDriver) : DecidablePred (DriverCall.Legal drv)
  | .start _ => .isTrue trivial
  | .transceive _ => inferInstanceAs (Decidable (_ ∧ (_ ∨ _ ∧ _)))
  | .stop _ => inferInstanceAs (Decidable (_ ≠ _))

def LegalRun (conf : Trf797xConf) : Trf797xDriver → List DriverCall → Prop
  | _, [] => True
  | drv, c :: cs => c.Legal drv ∧ LegalRun conf (driverStep conf drv c).2 cs

instance decidableLegalRun (conf : Trf797xConf) :
    (drv : Trf797xDriver) → (calls : List DriverCall) →
    Decidable (LegalRun conf drv calls)
  | _, [] => .isTrue trivial
  | drv, c :: cs =>
    have := decidableLegalRun conf (driverStep conf drv c).2 cs
    inferInstanceAs (Decidable (_ ∧ _))

/-! ## 4. Accesses -/

section

variable {defaults : Registers} {line : Mem UInt8}

/-- What the framer makes of a stream, the chip carries out. -/
theorem chip_maps (defaults : Registers) {c : Chip} {ws : List Wire} {t : Framer}
    {ops : List Operation} (hon : c.enabled = true) (h : framer.Maps c.framer ws t ops) :
    (ws.map .wire).foldlM (Chip.pin defaults) c =
      some ⟨true, t, ops.foldl (Operation.carryOut defaults) c.regs⟩ := by
  induction ws generalizing c ops with
  | nil =>
    obtain ⟨rfl, rfl⟩ : c.framer = t ∧ [] = ops := by
      simpa [Transducer.Maps, Transducer.run] using h
    rw [← hon]
    rfl
  | cons w ws ih =>
    unfold Transducer.Maps Transducer.run at h
    obtain ⟨⟨v, out⟩, hstep, hrest⟩ := Option.bind_eq_some_iff.mp h
    obtain ⟨⟨u, os⟩, hrun, hend⟩ := Option.map_eq_some_iff.mp hrest
    obtain ⟨rfl, rfl⟩ := Prod.mk.inj hend
    have hpin : c.pin defaults (.wire w) =
        some ⟨true, v, out.foldl (Operation.carryOut defaults) c.regs⟩ := by
      unfold Chip.pin
      dsimp only
      rw [if_pos hon, show framerStep c.framer w = some (v, out) from hstep, ← hon]
      rfl
    rw [List.map_cons, List.foldlM_cons, hpin, List.foldl_append]
    exact ih (c := ⟨true, v, _⟩) rfl hrun

theorem rig_maps (defaults : Registers) (line : Mem UInt8) {r : Rig} {calls : List Call}
    {ops : Call → List Operation} (hon : r.chip.enabled = true)
    (hready : r.chip.framer = .ready)
    (h : ∀ c ∈ calls, ∃ spi, c.spi = some spi ∧
      ∀ k, framer.Maps .ready (wire line k spi) .ready (ops c)) :
    r.calls defaults line calls = some { r with
      chip := ⟨true, .ready,
        (calls.flatMap ops).foldl (Operation.carryOut defaults) r.chip.regs⟩ } := by
  obtain ⟨⟨on, f, regs⟩, taken, state⟩ := r
  cases hready
  obtain ⟨spi, hspi, hmaps⟩ := maps_calls line ops h
  have hchip := chip_maps defaults (c := ⟨on, .ready, regs⟩) hon (hmaps 0)
  unfold Rig.calls callPins Rig.pins
  rw [hspi, Option.map_some, Option.bind_some, hchip, Option.map_some]

/-- Accesses of a chip that is selected are carried out as they are meant. -/
theorem rig_calls (defaults : Registers) (line : Mem UInt8) {r : Rig} {calls : List Call}
    (hon : r.chip.enabled = true) (hready : r.chip.framer = .ready) (h : ∀ c ∈ calls, c.Framed) :
    r.calls defaults line calls = some { r with
      chip := ⟨true, .ready,
        (calls.flatMap Call.intended).foldl (Operation.carryOut defaults) r.chip.regs⟩ } :=
  rig_maps defaults line hon hready fun c hc => maps_call line (h c hc)

theorem write_append (regs : Registers) (ws vs : List (UInt8 × UInt8)) :
    regs.write (ws ++ vs) = (regs.write ws).write vs :=
  List.foldl_append

theorem write_other (regs : Registers) {writes : List (UInt8 × UInt8)} {adr : UInt8}
    (h : adr ∉ writes.map Prod.fst) : regs.write writes adr = regs adr := by
  induction writes generalizing regs with
  | nil => rfl
  | cons w writes ih =>
    obtain ⟨hne, hrest⟩ := List.ne_and_not_mem_of_not_mem_cons h
    exact (ih (Function.update regs w.1 w.2) hrest).trans (Function.update_of_ne hne ..)

-- What is written does not depend on what was there, nor does the rest on what is written.
theorem write_agrees {regs regs' : Registers} {writes : List (UInt8 × UInt8)} {adr : UInt8}
    (h : adr ∉ writes.map Prod.fst → regs adr = regs' adr) :
    regs.write writes adr = regs'.write writes adr := by
  induction writes generalizing regs regs' with
  | nil => exact h List.not_mem_nil
  | cons w writes ih =>
    apply ih
    intro hrest
    show Function.update regs w.1 w.2 adr = Function.update regs' w.1 w.2 adr
    by_cases heq : adr = w.1
    · rw [heq, Function.update_self, Function.update_self]
    · rw [Function.update_of_ne heq, Function.update_of_ne heq]
      exact h (List.not_mem_cons_of_ne_of_not_mem heq hrest)

theorem registerWrites_framed {writes : List (UInt8 × UInt8)} (h : ∀ w ∈ writes, w.1 < 32) :
    ∀ c ∈ registerWrites writes, c.Framed := by
  intro c hc
  obtain ⟨w, hw, rfl⟩ := List.mem_map.mp hc
  exact ⟨h w hw, Nat.le_refl 1⟩

theorem registerWrites_carryOut (regs : Registers) (writes : List (UInt8 × UInt8)) :
    ((registerWrites writes).flatMap Call.intended).foldl (Operation.carryOut defaults) regs =
      regs.write writes := by
  induction writes generalizing regs with
  | nil => rfl
  | cons w writes ih => exact ih (Function.update regs w.1 w.2)

/-! ## 5. The accesses of an exchange -/

-- The calls that the two loops and the first load make.
def Call.OfExchange : Call → Prop
  | .command _ | .registerWrite _ _ => False
  | .registerRead adr len => adr < 32 ∧ 1 ≤ len
  | .transmit tx _ _ => Delimited tx
  | .fifoFill .. | .fifoDrain .. => True

/-- What the chip takes a call for: a transmission has the bytes that the load loop sent, also where
the bits are more than an `int` holds. -/
def Call.taken : Call → List Operation
  | .transmit tx crc junk => transmission (txLengthBytes (totalBits tx)) crc
      ((trf797xTransmit tx.length tx crc junk).elim [] Transmitted.loaded)
  | c => c.intended

theorem maps_taken (line : Mem UInt8) {c : Call} (h : c.OfExchange) :
    ∃ spi, c.spi = some spi ∧ ∀ k, framer.Maps .ready (wire line k spi) .ready c.taken := by
  cases c with
  | command cmd | registerWrite adr data => exact h.elim
  | registerRead adr len => exact maps_call line (c := .registerRead adr len) h
  | fifoFill status data => exact maps_call line (c := .fifoFill status data) trivial
  | fifoDrain status isNull len =>
    exact maps_call line (c := .fifoDrain status isNull len) trivial
  | transmit tx crc junk =>
    obtain ⟨hlen, hbits, -⟩ := h
    obtain ⟨t, ht, hmaps⟩ := transmit_maps line crc junk hlen hbits
    refine ⟨t.spi, ?_, fun k => ?_⟩
    · show (trf797xTransmit tx.length tx crc junk).map Transmitted.spi = _
      rw [ht, Option.map_some]
    · unfold Call.taken
      dsimp only
      rw [ht]
      exact hmaps k

theorem passCalls_mem {p : TransceiveAt × IrqEvent} {c : Call} (h : c ∈ passCalls p) :
    c.OfExchange := by
  have hirq : (Call.registerRead regIrqStatus 1).OfExchange := ⟨by decide, Nat.le_refl 1⟩
  obtain ⟨t, ev⟩ := p
  cases ev with
  | timeout | stop => cases h
  | irq status fifo =>
    cases t with
    | sending s =>
      rcases List.mem_cons.mp h with rfl | h
      · exact hirq
      split at h
      · cases hadvance : s.advance with
        | none =>
          rw [hadvance] at h
          cases h
        | some u =>
          rw [hadvance] at h
          dsimp only [Option.elim] at h
          split at h
          · rw [List.mem_singleton.mp h]
            exact trivial
          · cases h
      · cases h
    | receiving s =>
      rcases List.mem_cons.mp h with rfl | h
      · exact hirq
      split at h
      · cases h
      split at h
      · rw [List.mem_singleton.mp h]
        exact trivial
      · cases h

theorem transfer_calls {x : Transfer} (h : Delimited x.tx) {c : Call} (hc : c ∈ x.calls) :
    c.OfExchange := by
  rcases List.mem_cons.mp hc with rfl | hc
  · exact ⟨by decide, Nat.le_refl 1⟩
  rcases List.mem_cons.mp hc with rfl | hc
  · exact h
  obtain ⟨p, -, hp⟩ := List.mem_flatMap.mp hc
  exact passCalls_mem hp

/-- Not a reset of the chip, nor a write elsewhere than the TX length registers and the FIFO. -/
def Operation.OfExchange : Operation → Prop
  | .command cmd => cmd ≠ cmdInit
  | .read _ => True
  | .write regs => ∀ w ∈ regs, w.1 ∈ [regTxLength1, regTxLength2, regFifo]

theorem fifoWrite_ofExchange (bytes : List UInt8) :
    (Operation.write (bytes.map (regFifo, ·))).OfExchange := by
  intro w hw
  obtain ⟨b, -, rfl⟩ := List.mem_map.mp hw
  exact List.mem_cons_of_mem _ (List.mem_cons_of_mem _ (List.mem_cons_self ..))

theorem transmission_ofExchange (lengths : UInt8 × UInt8) (crc : Bool) (bytes : List UInt8) :
    ∀ op ∈ transmission lengths crc bytes, op.OfExchange := by
  unfold transmission
  simp only [List.forall_mem_cons]
  refine ⟨?_, ?_, ?_, List.forall_mem_nil _⟩
  · show cmdResetFifo ≠ cmdInit
    decide
  · show (if crc then cmdTx else cmdTxNoCrc) ≠ cmdInit
    cases crc <;> decide
  · refine List.forall_mem_cons.mpr ⟨?_, List.forall_mem_cons.mpr ⟨?_, fifoWrite_ofExchange bytes⟩⟩
    · exact List.mem_cons_self ..
    · exact List.mem_cons_of_mem _ (List.mem_cons_self ..)

theorem taken_ofExchange {c : Call} (h : c.OfExchange) : ∀ op ∈ c.taken, op.OfExchange := by
  have hguarded : ∀ {p : Prop} [Decidable p] {o : Operation}, o.OfExchange →
      ∀ op ∈ (if p then [o] else []), op.OfExchange := by
    intro p _ o ho op hop
    split at hop
    · rwa [List.mem_singleton.mp hop]
    · cases hop
  cases c with
  | command cmd | registerWrite adr data => exact h.elim
  | registerRead adr len => exact List.forall_mem_singleton.mpr trivial
  | transmit tx crc junk => exact transmission_ofExchange _ _ _
  | fifoFill status data =>
    exact List.forall_mem_cons.mpr ⟨trivial, hguarded (fifoWrite_ofExchange _)⟩
  | fifoDrain status isNull len =>
    refine List.forall_mem_cons.mpr ⟨trivial, fun op hop => ?_⟩
    rcases List.mem_append.mp hop with hop | hop
    · exact hguarded (o := .read _) trivial op hop
    · exact hguarded (o := .read _) trivial op hop

theorem carryOut_other (regs : Registers) {ops : List Operation} {adr : UInt8}
    (h : ∀ op ∈ ops, op.OfExchange) (hadr : adr ∉ [regTxLength1, regTxLength2, regFifo]) :
    ops.foldl (Operation.carryOut defaults) regs adr = regs adr := by
  induction ops generalizing regs with
  | nil => rfl
  | cons op ops ih =>
    obtain ⟨hop, hops⟩ := List.forall_mem_cons.mp h
    rw [List.foldl_cons, ih _ hops]
    cases op with
    | command cmd => exact congrFun (if_neg hop) adr
    | read adrs => rfl
    | write writes =>
      refine write_other regs fun hmem => ?_
      obtain ⟨w, hw, rfl⟩ := List.mem_map.mp hmem
      exact hadr (hop w hw)

/-- An exchange leaves all registers but those of the transmission and the FIFO as they are. -/
theorem exchange_other (regs : Registers) {calls : List Call} (h : ∀ c ∈ calls, c.OfExchange)
    {adr : UInt8} (hadr : adr ∉ [regTxLength1, regTxLength2, regFifo]) :
    (calls.flatMap Call.taken).foldl (Operation.carryOut defaults) regs adr = regs adr := by
  refine carryOut_other regs (fun op hop => ?_) hadr
  obtain ⟨c, hc, hmem⟩ := List.mem_flatMap.mp hop
  exact taken_ofExchange (h c hc) op hmem

/-! ## 6. One function -/

-- The chip is selected, and the bus is taken.
theorem acquire_ready {r : Rig} (hfree : r.taken = false) (hidle : r.chip.framer = .deselected) :
    r.acquireBus defaults =
      some { r with chip := { r.chip with framer := .ready }, taken := true } := by
  obtain ⟨⟨on, f, regs⟩, taken, state⟩ := r
  cases hidle
  cases hfree
  cases on <;> rfl

theorem release_free {r : Rig} (htaken : r.taken = true) (hready : r.chip.framer = .ready) :
    r.releaseBus defaults =
      some { r with chip := { r.chip with framer := .deselected }, taken := false } := by
  obtain ⟨⟨on, f, regs⟩, taken, state⟩ := r
  cases hready
  cases htaken
  cases on <;> rfl

theorem resetHardware_pins {r : Rig} (hready : r.chip.framer = .ready) :
    r.pins defaults resetHardware = some { r with chip := ⟨true, .ready, defaults⟩ } := by
  obtain ⟨⟨on, f, regs⟩, taken, state⟩ := r
  cases hready
  rfl

/-- A register other than the IRQ status is read as it was written. -/
theorem registerRead1_value {r : Rig} {adr : UInt8} (hadr : adr < 32) (hirq : adr ≠ regIrqStatus)
    (hon : r.chip.enabled = true) (hready : r.chip.framer = .ready) :
    r.registerRead1 defaults line adr = some (r.chip.regs adr, r) := by
  obtain ⟨⟨on, f, regs⟩, taken, state⟩ := r
  cases hready
  cases hon
  have hpins : callPins line [.registerRead adr 1] =
      some [.wire (.byte (accessByte true adr 1)), .wire (.byte (line 1))] := by
    have hspi : trf797xRegisterRead adr 1 = [.send [registerReadByte adr 1], .receive 1] :=
      if_neg fun h => hirq h.1
    unfold callPins callsSpi Call.spi
    dsimp only
    rw [hspi]
    rfl
  have hfirst := framerStep_access true hadr 1
  rw [if_neg (Int.lt_irrefl 1)] at hfirst
  have hpin : (Chip.mk true .ready regs).pin defaults (.wire (.byte (accessByte true adr 1))) =
      some ⟨true, .single true adr, regs⟩ := by
    unfold Chip.pin
    dsimp only
    rw [if_pos rfl, hfirst]
    rfl
  unfold Rig.registerRead1
  rw [hpins, Option.bind_some]
  unfold Rig.pins Chip.shifted
  dsimp only
  rw [List.foldlM_cons, hpin]
  rfl

variable (conf : Trf797xConf)

theorem initialize_carryOut (regs : Registers) :
    ((initializeCalls conf).flatMap Call.intended).foldl (Operation.carryOut defaults) regs =
      defaults.write (trf797xInitialize conf) := by
  unfold initializeCalls
  rw [List.flatMap_append, List.foldl_append, registerWrites_carryOut]
  rfl

-- A table of registers is gone through entry by entry; all values of a byte are too many.
theorem forall_of_all {α : Type} {P : α → Prop} [DecidablePred P] {l : List α}
    (h : (l.all fun a => decide (P a)) = true) : ∀ a ∈ l, P a :=
  fun a ha => of_decide_eq_true (List.all_eq_true.mp h a ha)

theorem initialize_framed : ∀ c ∈ initializeCalls conf, c.Framed := by
  intro c hc
  rcases List.mem_append.mp hc with hc | hc
  · have hall : ∀ c ∈ [Call.command cmdInit, .command cmdIdle, .command cmdResetFifo],
        c.Framed := by
      decide
    exact hall c hc
  · refine registerWrites_framed (fun w hw => ?_) c hc
    have hadr : w.1 ∈ [regModulatorSysClk, regNfcTargetDetection, regChipStatus] :=
      List.mem_map_of_mem hw
    revert hadr
    generalize w.1 = adr
    revert adr
    exact forall_of_all (by decide)

/-- The chip answers the probe. -/
theorem start_found (defaults : Registers) (line : Mem UInt8) {r : Rig}
    (hready : r.chip.framer = .ready)
    (hon : r.state ≠ .pwrOff → r.chip.enabled = true) :
    r.start defaults conf line = some (0, { r with
      chip := ⟨true, .ready, defaults.write (trf797xInitialize conf)⟩, state := .idle }) := by
  obtain ⟨regs, hpowered⟩ :
      ∃ regs, r.powerUp defaults = some { r with chip := ⟨true, .ready, regs⟩ } := by
    unfold Rig.powerUp
    split
    · exact ⟨defaults, resetHardware_pins hready⟩
    · rename_i hstate
      refine ⟨r.chip.regs, ?_⟩
      rw [← hon hstate, ← hready]
  unfold Rig.start
  rw [hpowered]
  dsimp only [Option.bind_eq_bind]
  rw [Option.bind_some, rig_calls defaults line rfl rfl (initialize_framed conf), Option.bind_some,
    registerRead1_value (by decide) (by decide) rfl rfl, Option.bind_some]
  dsimp only
  rw [initialize_carryOut]
  exact if_neg (by rw [show defaults.write (trf797xInitialize conf) regModulatorSysClk =
    modSysClk conf from rfl, bne_self_eq_false]; exact Bool.false_ne_true)

/-! ## 7. In step with the plain registers -/

-- The registers that the start of the chip sets.
def configRegs : List UInt8 :=
  [regModulatorSysClk, regNfcTargetDetection, regChipStatus, regIrqMask, regIsoCtrl,
    regFifoIrqLevels]

/-- Between two calls: the bus is free, the chip is not selected and runs if it has been started,
and then its configuration is that of `drv`. -/
structure Follows (drv : Trf797xDriver) (r : Rig) : Prop where
  free : r.taken = false
  deselected : r.chip.framer = .deselected
  state : r.state = drv.state
  enabled : r.chip.enabled = true ↔ drv.state ≠ .pwrOff
  regs : drv.state ≠ .pwrOff → ∀ adr ∈ configRegs, r.chip.regs adr = drv.regs adr

theorem start_writes (tech : NfcDigital) (drv : Trf797xDriver) :
    nfcDeviceOpen conf (modSysClk conf) tech drv = (0, ⟨.idle, (drv.regs.write
      (trf797xInitialize conf)).write (trf797xInitiatorStart (protoOf tech) conf.vin5v)⟩) := by
  unfold nfcDeviceOpen trf797xStart
  rw [bne_self_eq_false]
  rfl

theorem initiatorStart_framed (tech : NfcDigital) :
    ∀ c ∈ registerWrites (trf797xInitiatorStart (protoOf tech) conf.vin5v), c.Framed := by
  refine registerWrites_framed fun w hw => ?_
  have hadr : w.1 ∈ [regIrqMask, regIsoCtrl, regFifoIrqLevels, regChipStatus] :=
    List.mem_map_of_mem hw
  revert hadr
  generalize w.1 = adr
  revert adr
  exact forall_of_all (by decide)

theorem start_config (tech : NfcDigital) : ∀ adr ∈ configRegs,
    adr ∈ (trf797xInitialize conf ++
      trf797xInitiatorStart (protoOf tech) conf.vin5v).map Prod.fst := by
  show ∀ adr ∈ configRegs, adr ∈ [regModulatorSysClk, regNfcTargetDetection, regChipStatus,
    regIrqMask, regIsoCtrl, regFifoIrqLevels, regChipStatus]
  exact forall_of_all (by decide)

variable {drv : Trf797xDriver} {r : Rig}

theorem follows_start (defaults : Registers) (line : Mem UInt8) (h : Follows drv r)
    (tech : NfcDigital) :
    ∃ t, r.initiatorStart defaults conf line tech = some (0, t) ∧
      Follows (nfcDeviceOpen conf (modSysClk conf) tech drv).2 t := by
  have hfound := start_found conf defaults line
    (r := { r with chip := { r.chip with framer := .ready }, taken := true }) rfl
    fun hstate => h.enabled.mpr (h.state ▸ hstate)
  have hwrites := rig_calls defaults line
    (r := ⟨⟨true, .ready, defaults.write (trf797xInitialize conf)⟩, true, .idle⟩) rfl rfl
    (initiatorStart_framed conf tech)
  rw [registerWrites_carryOut] at hwrites
  unfold Rig.initiatorStart
  rw [acquire_ready h.free h.deselected]
  dsimp only [Option.bind_eq_bind]
  rw [Option.bind_some, hfound, Option.bind_some]
  dsimp only
  rw [if_neg (Int.lt_irrefl 0), hwrites, Option.bind_some, release_free rfl rfl, start_writes]
  refine ⟨_, rfl, rfl, rfl, rfl, iff_of_true rfl nofun, fun _ adr hadr => ?_⟩
  dsimp only
  rw [← write_append, ← write_append]
  exact write_agrees fun hnot => absurd (start_config conf tech adr hadr) hnot

theorem follows_transceive (defaults : Registers) (line : Mem UInt8) (h : Follows drv r)
    {x : Transfer} (hlegal : (DriverCall.transceive x).Legal drv) :
    ∃ t, r.initiatorTransceive defaults line x =
      some ((driverStep conf drv (.transceive x)).1, t) ∧ Follows drv t := by
  obtain ⟨hstate, hmade⟩ := hlegal
  have hvalue : (driverStep conf drv (.transceive x)).1 =
      if x.tx.length = 0 then -einval else x.ret.getD 0 := rfl
  unfold Rig.initiatorTransceive
  by_cases hempty : x.tx.length = 0
  · rw [if_pos hempty] at hvalue ⊢
    exact ⟨r, by rw [hvalue], h⟩
  · obtain ⟨hdelimited, hends⟩ := hmade.resolve_left hempty
    obtain ⟨ret, hret⟩ := Option.isSome_iff_exists.mp hends
    have hcalls := rig_maps defaults line
      (r := { r with chip := { r.chip with framer := .ready }, taken := true })
      (h.enabled.mpr hstate) rfl fun c hc => maps_taken line (transfer_calls hdelimited hc)
    rw [if_neg hempty, hret] at hvalue
    rw [if_neg hempty, hret, hvalue]
    dsimp only [Option.bind_eq_bind]
    rw [Option.bind_some, acquire_ready h.free h.deselected, Option.bind_some, hcalls,
      Option.bind_some, release_free rfl rfl]
    refine ⟨_, rfl, rfl, rfl, h.state, iff_of_true rfl hstate, fun _ adr hadr => ?_⟩
    have hother : adr ∉ [regTxLength1, regTxLength2, regFifo] := by
      revert adr
      exact forall_of_all (by decide)
    exact (exchange_other _ (fun c hc => transfer_calls hdelimited hc) hother).trans
      (h.regs hstate adr hadr)

theorem follows_stop (defaults : Registers) (line : Mem UInt8) (h : Follows drv r)
    (shutdown : Bool) (hstate : drv.state ≠ .pwrOff) :
    ∃ t, r.initiatorStop defaults conf line shutdown = some (0, t) ∧
      Follows (trf797xInitiatorStop conf drv shutdown).2 t := by
  cases shutdown with
  | true =>
    refine ⟨{ r with chip := { r.chip with enabled := false }, state := .pwrOff }, ?_, h.free,
      h.deselected, rfl, iff_of_false Bool.false_ne_true (not_not_intro rfl),
      fun hne => absurd rfl hne⟩
    obtain ⟨⟨on, f, regs⟩, taken, state⟩ := r
    cases h.deselected
    rfl
  | false =>
    have hframed : ∀ c ∈ registerWrites (switchRf conf false), c.Framed :=
      registerWrites_framed fun w hw => by
        rw [List.mem_singleton.mp hw]
        show regChipStatus < 32
        decide
    have hcalls := rig_calls defaults line
      (r := { r with chip := { r.chip with framer := .ready }, taken := true })
      (h.enabled.mpr hstate) rfl hframed
    rw [registerWrites_carryOut] at hcalls
    unfold Rig.initiatorStop
    rw [if_neg Bool.false_ne_true]
    dsimp only [Option.bind_eq_bind]
    rw [acquire_ready h.free h.deselected, Option.bind_some, hcalls, Option.bind_some,
      release_free rfl rfl]
    refine ⟨_, rfl, rfl, rfl, rfl, iff_of_true rfl nofun, fun _ adr hadr => ?_⟩
    exact write_agrees fun _ => h.regs hstate adr hadr

theorem follows_step (defaults : Registers) (line : Mem UInt8) (h : Follows drv r)
    {c : DriverCall} (hlegal : c.Legal drv) :
    ∃ t, r.step defaults conf line c = some ((driverStep conf drv c).1, t) ∧
      Follows (driverStep conf drv c).2 t := by
  cases c with
  | start tech =>
    obtain ⟨t, ht, hfollows⟩ := follows_start conf defaults line h tech
    refine ⟨t, ?_, hfollows⟩
    rw [show driverStep conf drv (.start tech) = _ from start_writes conf tech drv]
    exact ht
  | transceive x => exact follows_transceive conf defaults line h hlegal
  | stop shutdown =>
    obtain ⟨t, ht, hfollows⟩ :=
      follows_stop conf defaults line h shutdown hlegal
    refine ⟨t, ?_, hfollows⟩
    cases shutdown <;> exact ht

theorem follows_run (defaults : Registers) (line : Mem UInt8) (h : Follows drv r)
    {calls : List DriverCall} (hlegal : LegalRun conf drv calls) :
    ∃ t, r.run defaults conf line calls = some ((driverRun conf drv calls).1, t) ∧
      Follows (driverRun conf drv calls).2 t := by
  induction calls generalizing drv r with
  | nil => exact ⟨r, rfl, h⟩
  | cons c cs ih =>
    obtain ⟨hc, hcs⟩ := hlegal
    obtain ⟨t, ht, hfollows⟩ := follows_step conf defaults line h hc
    obtain ⟨u, hu, hend⟩ := ih hfollows hcs
    refine ⟨u, ?_, hend⟩
    unfold Rig.run
    dsimp only [Option.bind_eq_bind]
    rw [ht, Option.bind_some]
    dsimp only
    rw [hu]
    rfl

-- A driver that has been started is idle exactly while the field is on.
theorem driverRun_rf (drv : Trf797xDriver) {calls : List DriverCall}
    (h : drv.state ≠ .pwrOff → (drv.rfOn = true ↔ drv.state = .idle)) :
    (driverRun conf drv calls).2.state ≠ .pwrOff →
      ((driverRun conf drv calls).2.rfOn = true ↔ (driverRun conf drv calls).2.state = .idle) := by
  induction calls generalizing drv with
  | nil => exact h
  | cons c cs ih =>
    apply ih
    cases c with
    | start tech =>
      intro _
      rcases nfcDeviceOpen_cases conf (modSysClk conf) tech drv with
        ⟨hret, -, -⟩ | ⟨-, hstate, hrf⟩
      · rw [start_writes] at hret
        cases hret
      · exact iff_of_true hrf hstate
    | transceive x => exact h
    | stop shutdown =>
      cases shutdown with
      | true => exact fun hne => absurd rfl hne
      | false =>
        intro _
        refine iff_of_false ?_ nofun
        rw [show (driverStep conf drv (.stop false)).2.rfOn = false from
          nfcDeviceClose_rfOn conf drv]
        exact Bool.false_ne_true

end

def Chip.rfOn (c : Chip) : Bool := c.enabled && c.regs regChipStatus &&& chipStatusRfOn != 0

/-- Whatever order of starts, exchanges and stops, from a chip that is off: at the pins they do what
they do in the model of the registers.  Every call returns and leaves the bus free and the chip
deselected, the chip answers its probe, its configuration is the one that was written last, and the
field is on exactly while the driver is idle. -/
theorem bus_follows (conf : Trf797xConf) (defaults : Registers) (line : Mem UInt8)
    (regs initial : Registers) (calls : List DriverCall)
    (hlegal : LegalRun conf (trf797xDriverInit regs) calls) :
    ∃ r, Rig.run defaults conf line ⟨⟨false, .deselected, initial⟩, false, .pwrOff⟩ calls =
        some ((driverRun conf (trf797xDriverInit regs) calls).1, r) ∧
      Follows (driverRun conf (trf797xDriverInit regs) calls).2 r ∧
      (r.chip.rfOn = true ↔ r.state = .idle) := by
  have hinit : Follows (trf797xDriverInit regs) ⟨⟨false, .deselected, initial⟩, false, .pwrOff⟩ :=
    ⟨rfl, rfl, rfl, iff_of_false Bool.false_ne_true (not_not_intro rfl), fun hne => absurd rfl hne⟩
  obtain ⟨r, hrun, hfollows⟩ := follows_run conf defaults line hinit hlegal
  refine ⟨r, hrun, hfollows, ?_⟩
  rw [hfollows.state]
  unfold Chip.rfOn
  by_cases hoff : (driverRun conf (trf797xDriverInit regs) calls).2.state = .pwrOff
  · rw [Bool.eq_false_iff.mpr fun hon => hfollows.enabled.mp hon hoff, hoff]
    exact iff_of_false Bool.false_ne_true nofun
  · rw [hfollows.enabled.mpr hoff, Bool.true_and, hfollows.regs hoff regChipStatus (by decide)]
    exact driverRun_rf conf (trf797xDriverInit regs) (fun hne => absurd rfl hne) hoff

-- A start, an exchange, a stop, a start with another protocol, and a shutdown.
theorem bus_follows_session :
    let transfer : Transfer := ⟨[⟨Mem.ofList 0 [0x26], 7⟩], ⟨some (Mem.ofList 0 []), 32⟩, 0,
      [.irq 0x80 ⟨[], false, by decide⟩, .irq 0x40 ⟨[0x04, 0x00], false, by decide⟩]⟩
    let calls := [.start .rf14443a, .transceive transfer, .stop false, .start .rf14443b, .stop true]
    let conf : Trf797xConf := ⟨false, true, .disabled⟩
    LegalRun conf (trf797xDriverInit fun _ => 0) calls ∧
    ∃ r, Rig.run (fun _ => 0x55) conf (fun _ => 0xFF) ⟨⟨false, .deselected, fun _ => 0x77⟩, false,
        .pwrOff⟩ calls = some ([0, 2, 0, 0, 0], r) ∧ r.taken = false ∧ r.chip.rfOn = false := by
  intro transfer calls conf
  have hlegal : LegalRun conf (trf797xDriverInit fun _ => 0) calls := by decide +kernel
  obtain ⟨r, hrun, hfollows, hrf⟩ := bus_follows conf (fun _ => 0x55) (fun _ => 0xFF) (fun _ => 0)
    (fun _ => 0x77) calls hlegal
  have hrets : (driverRun conf (trf797xDriverInit fun _ => 0) calls).1 = [0, 2, 0, 0, 0] := by
    decide +kernel
  rw [hrets] at hrun
  refine ⟨hlegal, r, hrun, hfollows.free, Bool.eq_false_iff.mpr fun hon => ?_⟩
  exact absurd (hfollows.state.symm.trans (hrf.mp hon)) (by decide +kernel)

end NfceeFw.Trf797x
