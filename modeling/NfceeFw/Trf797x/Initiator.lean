import NfceeFw.Trf797x.Lld
import NfceeFw.Reasoning.Program

/-!
# Initiator — the TRF797x as an initiator

The register setup of `trf797x_initiator_start`, the transmit phase of
`trf797x_initiator_transceive`, and the device functions of `trf797x_device.c` over them.
-/

namespace NfceeFw.Trf797x

open NfceeFw.Reasoning NfceeFw.Nfc

/-! ## 1. Setup -/

def irqStatusCol : UInt8 := 0x02
def irqStatusFramingEofError : UInt8 := 0x04
def irqStatusParityError : UInt8 := 0x08
def irqStatusCrcError : UInt8 := 0x10
def irqStatusSrx : UInt8 := 0x40
def irqStatusTx : UInt8 := 0x80
def irqStatusFifo : UInt8 := 0x20
def irqStatusError : UInt8 := 0x02 ||| 0x04 ||| 0x08 ||| 0x10

def isoCtrlRxCrcN : UInt8 := 0x80

def protoRfid14443a106 : UInt8 := 0x08
def protoRfid14443b106 : UInt8 := 0x0c
def protoRfid15693Sgl1of42648 : UInt8 := 0x02
def protoRfidFelica212 : UInt8 := 0x1a

/-- The protocol that `nfc_device_open` sets for a technology. -/
def protoOf : NfcDigital → UInt8
  | .rf14443a => protoRfid14443a106
  | .rf14443b => protoRfid14443b106
  | .rf15693 => protoRfid15693Sgl1of42648
  | .rfFelica => protoRfidFelica212

/-- The value that `trf797x_initiator_start` writes to the ISO control register. -/
def isoCtrl (proto : UInt8) : UInt8 := proto ||| isoCtrlRxCrcN

/-- The register writes of `trf797x_initiator_start`, past the probe of the chip. -/
def trf797xInitiatorStart (proto : UInt8) (vin5v : Bool) : List (UInt8 × UInt8) :=
  [(regIrqMask, irqStatusError ||| irqStatusFifo),
    -- Keep CRC into the RX buffer
    (regIsoCtrl, isoCtrl proto),
    (regFifoIrqLevels, 0x0c ||| 0x03),
    (regChipStatus, 0x20 ||| if vin5v then 0x01 else 0x00)]

/-! ## 2. The device -/

/-- `nfc_device_ioctl` for `NFC_IOCR_DEV_FRAME_SIZE` -/
def deviceFrameSize : Nat := trf797xFifoSize

/-- The iovecs that `nfc_device_transceive` hands on: base and bits of each, copied. -/
def nfcDeviceTransceive (q : DevRequest) : List Iovec := q.tx.map fun v => ⟨v.base, v.bits⟩

/-! ## 3. The transmit phase -/

/-- What the thread sees when it wakes: `EVENT_STOP`, or an IRQ status and the FIFO status that a
refill would read. -/
inductive TxEvent where
  | stop
  | irq (status fifo : UInt8)

/-- The variables of the transmit loop: the elements from `tx` on, `tx_buf` as the element it is in
with an offset, `tx_bytes`, `txlen`; `written` holds the bytes of all refills. -/
structure TxLocals where
  tx : List Iovec
  buf : Mem UInt8
  off : Nat
  txBytes : Nat
  txlen : Nat
  written : List UInt8

/-- How the transmit phase ends: with an error, at the end of transmission, or on a read of the
element after the last. -/
inductive TxEnd where
  | canceled
  | sent (s : TxLocals)
  | overrun (s : TxLocals)

-- The next element, once the current one has been written.
def TxLocals.advance (s : TxLocals) : Option TxLocals :=
  if s.txBytes = 0 ∧ s.txlen ≠ 0 then
    match s.tx.tail with
    | [] => none
    | v :: vs => some { s with tx := v :: vs, buf := v.base, off := 0, txBytes := iovecBytes v }
  else some s

/-- `trf797x_fifo_fill` from `tx_buf`, and the advance past what it wrote. -/
def TxLocals.refill (s : TxLocals) (fifo : UInt8) : TxLocals :=
  let bytes := trf797xFifoFill fifo (s.buf.read s.off s.txBytes)
  if 0 < s.txBytes then
    { s with
      off := s.off + bytes.length
      txBytes := s.txBytes - bytes.length
      written := s.written ++ bytes }
  else s

-- One pass of the continuous transmit.
def TxLocals.resume (s : TxLocals) : TxEvent → Status TxLocals TxEnd
  | .stop => .done .canceled
  | .irq status fifo =>
    let next := if status &&& irqStatusFifo != 0 then s.advance.map (·.refill fifo) else some s
    match next with
    | none => .done (.overrun s)
    | some t => if status != irqStatusTx then .wait t else .done (.sent t)

def transmitPhase : Program TxLocals Unit TxEvent TxEnd := ⟨fun _ => (), TxLocals.resume⟩

/-- After `trf797x_transmit`; `size_t` arithmetic in `tx_bytes`. -/
def transmitStart (t : Transmitted) : Option TxLocals :=
  t.tx.head?.map fun v =>
    { tx := t.tx
      buf := v.base
      off := t.sent
      txBytes := (iovecBytes v + 2 ^ 32 - t.sent) % 2 ^ 32
      txlen := t.len
      written := [] }

/-! ## 4. The receive phase -/

def einval : Int := 22
def etimedout : Int := 116
def ecanceled : Int := 140

/-- `__ELASTERROR`, then the members of the enumeration of `trf797x.h`. -/
def errBase : Int := 2000
def errChecksum : Int := errBase + 1
def errParity : Int := errBase + 2
def errFraming : Int := errBase + 3
def errCollision : Int := errBase + 4

def irq2error (irq : UInt8) : Int :=
  if irq &&& irqStatusCol != 0 then -errCollision
  else if irq &&& irqStatusCrcError != 0 then -errChecksum
  else if irq &&& irqStatusFramingEofError != 0 then -errFraming
  else if irq &&& irqStatusParityError != 0 then -errParity
  else 0

/-- The receive iovec; its base may be NULL. -/
structure RxIovec where
  base : Option (Mem UInt8)
  bits : Nat

-- `(rx->bits + 7) / 8` over `uint32_t`
def RxIovec.bytes (rx : RxIovec) : Nat := (rx.bits + 7) % 2 ^ 32 / 8

/-- What ends a wait: no event in time, `EVENT_STOP`, or an IRQ status with the FIFO behind it. -/
inductive IrqEvent where
  | timeout
  | stop
  | irq (status : UInt8) (fifo : Fifo)

/-- The variables of the receive loop: the area at `rx->base`, `rx_buf` as an offset into it, and
`rx_bytes`. -/
structure RxLocals where
  base : Option (Mem UInt8)
  off : Nat
  rxBytes : Nat

def RxIovec.start (rx : RxIovec) : RxLocals := ⟨rx.base, 0, rx.bytes⟩

/-- `trf797x_fifo_drain` at `rx_buf`, and the advance past what it stored. -/
def RxLocals.drain (s : RxLocals) (fifo : Fifo) : RxLocals :=
  let bytes := (trf797xFifoDrain fifo s.base.isNone s.rxBytes).1
  { base := s.base.map fun m => m.write s.off bytes
    off := s.off + bytes.length
    rxBytes := s.rxBytes - bytes.length }

/-- How `trf797x_initiator_transceive` ends: it returns, or it has read past an array. -/
inductive TransceiveEnd where
  | returned (ret : Int) (s : RxLocals)
  | overrun

-- One pass of the continuous receive.
def RxLocals.resume (s : RxLocals) : IrqEvent → Status RxLocals TransceiveEnd
  | .timeout => .done (.returned (-etimedout) s)
  | .stop => .done (.returned (-ecanceled) s)
  | .irq status fifo =>
    if status &&& irqStatusError != 0 then .done (.returned (irq2error status) s)
    else
      let t := if status &&& (irqStatusFifo ||| irqStatusSrx) != 0 then s.drain fifo else s
      if status != irqStatusSrx then .wait t else .done (.returned (toInt t.off) t)

/-! ## 5. A whole exchange -/

/-- Which of the two loops waits. -/
inductive TransceiveAt where
  | sending (s : TxLocals)
  | receiving (s : RxLocals)

-- A wait of the transmit loop has no time limit; the code checks its result all the same.
def resumeSending (rx : RxIovec) (s : TxLocals) : IrqEvent → Status TransceiveAt TransceiveEnd
  | .timeout => .done (.returned (-etimedout) rx.start)
  | .stop => .done (.returned (-ecanceled) rx.start)
  | .irq status fifo =>
    match s.resume (.irq status fifo.status) with
    | .wait t => .wait (.sending t)
    | .done (.sent _) => .wait (.receiving rx.start)
    | .done .canceled => .done (.returned (-ecanceled) rx.start)
    | .done (.overrun _) => .done .overrun

def resumeReceiving (s : RxLocals) (ev : IrqEvent) : Status TransceiveAt TransceiveEnd :=
  match s.resume ev with
  | .wait t => .wait (.receiving t)
  | .done r => .done r

/-- `trf797x_initiator_transceive` past the first load. -/
def trf797xInitiatorTransceive (rx : RxIovec) :
    Program TransceiveAt Unit IrqEvent TransceiveEnd where
  query _ := ()
  resume
    | .sending s => resumeSending rx s
    | .receiving s => resumeReceiving s

/-- The call up to its first wait; `none` if the load loop needs more than `fuel` passes or leaves
the array. -/
def transceiveBegin (fuel : Nat) (tx : List Iovec) (rx : RxIovec) (junk : Nat) :
    Option (Status TransceiveAt TransceiveEnd) :=
  if tx.length = 0 then some (.done (.returned (-einval) rx.start))
  else ((trf797xTransmit fuel tx false junk).bind transmitStart).map fun s => .wait (.sending s)

end NfceeFw.Trf797x
