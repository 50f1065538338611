import NfceeFw.Nfc.Driver

/-!
# Lld — register and FIFO accesses of the TRF797x over SPI

`trf797x_lld.c`.  A function is modelled by the transfers it makes on the bus, in order; what the
chip shifts out during a read is an argument.  The `trf797x_iovec`s are those of `nfc.h`.
-/

namespace NfceeFw.Trf797x

open NfceeFw.Reasoning NfceeFw.Nfc

/-! ## 1. Registers and commands -/

def trf797xFifoSize : Nat := 127

def regChipStatus : UInt8 := 0x00
def regIsoCtrl : UInt8 := 0x01
def regIrqStatus : UInt8 := 0x0c
def regIrqMask : UInt8 := 0x0d
def regFifoIrqLevels : UInt8 := 0x14
def regFifoStatus : UInt8 := 0x1c
def regTxLength1 : UInt8 := 0x1d
def regFifo : UInt8 := 0x1f

def cmdResetFifo : UInt8 := 0x0f
def cmdTxNoCrc : UInt8 := 0x10
def cmdTx : UInt8 := 0x11

def cmdBitOpcode (opcode : UInt8) : UInt8 := opcode &&& 0x1f

def register (adr : UInt8) (len : Int) : UInt8 := cmdBitOpcode adr ||| if 1 < len then 0x20 else 0

def registerWriteByte (adr : UInt8) (len : Int) : UInt8 := register adr len

def registerReadByte (adr : UInt8) (len : Int) : UInt8 := 0x40 ||| register adr len

def command (cmd : UInt8) : UInt8 := 0x80 ||| cmdBitOpcode cmd

/-! ## 2. Transfers -/

/-- Bytes clocked out, a number of bytes clocked in, or `TOGGLE_CHIP_SELECT`. -/
inductive Spi where
  | send (bytes : List UInt8)
  | receive (len : Nat)
  | toggle
  deriving DecidableEq, Repr

def trf797xCommand (cmd : UInt8) : List Spi := [.send [command cmd]]

-- the chip select is toggled to end a continuous access
def endAccess (len : Nat) : List Spi := if 1 < len then [.toggle] else []

def trf797xRegisterRead (adr : UInt8) (len : Nat) : List Spi :=
  -- Dummy read required to clear IRQ.
  if adr = regIrqStatus ∧ len = 1 then [.send [registerReadByte adr 2], .receive 2, .toggle]
  else [.send [registerReadByte adr len], .receive len] ++ endAccess len

def trf797xRegisterWrite (adr : UInt8) (data : List UInt8) : List Spi :=
  [.send [registerWriteByte adr data.length], .send data] ++ endAccess data.length

def trf797xRegisterRead1 (adr : UInt8) : List Spi := trf797xRegisterRead adr 1

def trf797xRegisterWrite1 (adr val : UInt8) : List Spi := trf797xRegisterWrite adr [val]

/-! ## 3. Filling the FIFO -/

/-- The variables of the load loop of `trf797x_transmit`: the elements from `*tx` on, `*len`, and
what has been sent of each. -/
structure Load where
  tx : List Iovec
  len : Nat
  bits : Int
  fifo : Nat
  sent : Nat
  chunks : List (List UInt8)

/-- `(bits + 7) / 8` over `uint32_t` -/
def iovecBytes (v : Iovec) : Nat := (v.bits + 7) % 2 ^ 32 / 8

/-- One pass; `none` where `*tx` is past the array. -/
def Load.pass (s : Load) : Option Load :=
  match s.tx with
  | [] => none
  | v :: vs =>
    let sent := min (iovecBytes v) (trf797xFifoSize - s.fifo)
    let len := if sent = iovecBytes v then (s.len + (2 ^ 32 - 1)) % 2 ^ 32 else s.len
    some {
      tx := if sent = iovecBytes v ∧ len ≠ 0 then vs else v :: vs
      len := len
      bits := Int.bmod (s.bits - v.bits) (2 ^ 32)
      fifo := s.fifo + sent
      sent := sent
      chunks := s.chunks ++ [v.base.read 0 sent] }

/-- The load loop; `none` if it needs more than `fuel` passes. -/
def Load.run : Nat → Load → Option Load
  | 0, s => if 0 < s.bits ∧ s.fifo < trf797xFifoSize then none else some s
  | fuel + 1, s =>
    if 0 < s.bits ∧ s.fifo < trf797xFifoSize then s.pass.bind (Load.run fuel) else some s

def totalBits (tx : List Iovec) : Int := Int.bmod (tx.map Iovec.bits).sum (2 ^ 32)

/-- FIFO reset, transmission command, and the TX length registers, for `bits` to send. -/
def transmitHeader (bits : Int) (crc : Bool) : List UInt8 :=
  [command cmdResetFifo, command (if crc then cmdTx else cmdTxNoCrc),
    registerWriteByte regTxLength1 (2 + min (trf797xFifoSize : Int) ((bits + 7).tdiv 8)),
    UInt8.ofNat ((bits / 2 ^ 7) % 256).toNat,
    UInt8.ofNat ((2 * (bits % 256) + if bits % 8 = 0 then 0 else 1) % 256).toNat]

/-- What `trf797x_transmit` leaves in `*tx` and `*len`, returns, and puts on the bus. -/
structure Transmitted where
  tx : List Iovec
  len : Nat
  sent : Nat
  spi : List Spi

/-- `trf797x_transmit`; `junk` is in `sent` before the first pass. -/
def trf797xTransmit (fuel : Nat) (tx : List Iovec) (crc : Bool) (junk : Nat) : Option Transmitted :=
  (Load.run fuel ⟨tx, tx.length, totalBits tx, 0, junk, []⟩).map fun s =>
    { tx := s.tx
      len := s.len
      sent := s.sent
      spi := .send (transmitHeader (totalBits tx) crc) :: s.chunks.map .send ++ [.toggle] }

/-- `TRF797X_FIFO_SIZE - read_fifo_bytes(spi)`, from the FIFO status. -/
def fifoRoom (status : UInt8) : Nat := trf797xFifoSize - (status &&& 0x7f).toNat

/-- The bytes that `trf797x_fifo_fill` writes, under a FIFO status; it returns their number. -/
def trf797xFifoFill (status : UInt8) (data : List UInt8) : List UInt8 := data.take (fifoRoom status)

-- The transfers of `trf797x_fifo_fill`.
def fifoFillSpi (status : UInt8) (data : List UInt8) : List Spi :=
  trf797xRegisterRead1 regFifoStatus ++
    if 0 < (trf797xFifoFill status data).length then
      trf797xRegisterWrite regFifo (trf797xFifoFill status data)
    else []

/-! ## 4. Emptying the FIFO -/

/-- The FIFO as the driver finds it: its bytes, first in first, and the overflow bit. -/
structure Fifo where
  content : List UInt8
  overflow : Bool
  fits : content.length ≤ trf797xFifoSize
  deriving DecidableEq

def Fifo.empty : Fifo := ⟨[], false, by decide⟩

-- The FIFO status register.
def Fifo.status (f : Fifo) : UInt8 :=
  UInt8.ofNat f.content.length ||| if f.overflow then 0x80 else 0

/-- The two reads of `trf797x_fifo_drain` under a FIFO status: how many bytes go to `data`, whose
size is `len` unless it is NULL, and how many are discarded. -/
def fifoDrained (status : UInt8) (isNull : Bool) (len : Nat) : Nat × Nat :=
  let fifoBytes := (status &&& 0x7f).toNat
  let stored := if !isNull && decide (0 < len) then min len fifoBytes else 0
  (stored, fifoBytes - stored)

-- Its transfers.
def fifoDrainSpi (status : UInt8) (isNull : Bool) (len : Nat) : List Spi :=
  let n := fifoDrained status isNull len
  trf797xRegisterRead1 regFifoStatus ++
    (if 0 < n.1 then trf797xRegisterRead regFifo n.1 else []) ++
    if 0 < n.2 then trf797xRegisterRead regFifo n.2 else []

/-- `trf797x_fifo_drain`: the bytes stored at `data`, and what the FIFO is left with. -/
def trf797xFifoDrain (f : Fifo) (isNull : Bool) (len : Nat) : List UInt8 × List UInt8 :=
  let n := fifoDrained f.status isNull len
  (f.content.take n.1, (f.content.drop n.1).drop n.2)

/-! ## 5. What the chip takes from the bus -/

/-- The bits announced by the two TX length registers: whole bytes in the upper 12 bits, then the
number of bits of a broken byte and the flag that there is one. -/
def txLengthBits (length1 length2 : UInt8) : Nat :=
  8 * (16 * length1.toNat + length2.toNat / 16) +
    if length2.toNat % 2 = 1 then length2.toNat / 2 % 8 else 0

-- The bytes loaded into the FIFO by a transmission: those that follow the header in its access.
def Transmitted.loaded (t : Transmitted) : List UInt8 :=
  t.spi.tail.flatMap fun
    | .send bytes => bytes
    | _ => []

end NfceeFw.Trf797x
