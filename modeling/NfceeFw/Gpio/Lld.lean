import Mathlib.Tactic.Common

/-!
# Lld — `gpio.h`, `gpio_lld.h` and `gpio_lld.c`

The GPIO driver of the board: pads are named by a port and a number, and the mode of a group of pads
of one port is written into the six configuration registers of the port.
-/

namespace NfceeFw.Gpio

/-! ## 1. Modes and registers -/

def gpioStm32ModeMask : BitVec 32 := 3#32 <<< 0
def gpioStm32ModeAlternate : BitVec 32 := 2#32 <<< 0
def gpioStm32OtypeMask : BitVec 32 := 1#32 <<< 2
def gpioStm32OspeedMask : BitVec 32 := 3#32 <<< 3
def gpioStm32PupdrMask : BitVec 32 := 3#32 <<< 5
def gpioStm32AlternateMask : BitVec 32 := 15#32 <<< 7

/-- `stm32_gpio_t`, the registers that hold the modes of the pads. -/
structure Stm32Gpio where
  moder : BitVec 32
  otyper : BitVec 32
  ospeedr : BitVec 32
  pupdr : BitVec 32
  afrl : BitVec 32
  afrh : BitVec 32
  deriving DecidableEq, Repr

/-- What the pointers in `__stm32_ports` lead to. -/
abbrev Ports := BitVec 8 → Stm32Gpio

def Ports.set (ports : Ports) (portid : BitVec 8) (port : Stm32Gpio) : Ports :=
  fun id => if id = portid then port else ports id

/-! ## 2. `_gpio_lld_setportmode` -/

/-- The variables that change from pass to pass. -/
structure ModeLoop where
  port : Stm32Gpio
  mask : BitVec 16
  moder : BitVec 32
  otyper : BitVec 32
  ospeedr : BitVec 32
  pupdr : BitVec 32
  bit : Nat

def Stm32Gpio.setAfr (port : Stm32Gpio) (bit : Nat) (m4 altrmask : BitVec 32) : Stm32Gpio :=
  if bit < 8 then { port with afrl := (port.afrl &&& ~~~m4) ||| altrmask }
  else { port with afrh := (port.afrh &&& ~~~m4) ||| altrmask }

-- One pad: the alternate number goes before the mode if the mode is the alternate one, else after.
def ModeLoop.setPad (mode altr : BitVec 32) (l : ModeLoop) : Stm32Gpio :=
  let altrmask := altr <<< ((l.bit &&& 7) * 4)
  let m1 := 1#32 <<< l.bit
  let m2 := 3#32 <<< (l.bit * 2)
  let m4 := 15#32 <<< ((l.bit &&& 7) * 4)
  let port := { l.port with otyper := (l.port.otyper &&& ~~~m1) ||| l.otyper }
  let port := { port with ospeedr := (port.ospeedr &&& ~~~m2) ||| l.ospeedr }
  let port := { port with pupdr := (port.pupdr &&& ~~~m2) ||| l.pupdr }
  if mode &&& gpioStm32ModeMask = gpioStm32ModeAlternate then
    let port := port.setAfr l.bit m4 altrmask
    { port with moder := (port.moder &&& ~~~m2) ||| l.moder }
  else
    let port := { port with moder := (port.moder &&& ~~~m2) ||| l.moder }
    port.setAfr l.bit m4 altrmask

/-- The loop; `none` if it needs more than `fuel` passes. -/
def ModeLoop.run (mode altr : BitVec 32) : Nat → ModeLoop → Option Stm32Gpio
  | 0, _ => none
  | fuel + 1, l =>
    let port := if l.mask &&& 1 ≠ 0 then l.setPad mode altr else l.port
    let mask := l.mask >>> 1
    if mask = 0 then some port
    else ModeLoop.run mode altr fuel
      { port
        mask
        moder := l.moder <<< 2
        otyper := l.otyper <<< 1
        ospeedr := l.ospeedr <<< 2
        pupdr := l.pupdr <<< 2
        bit := l.bit + 1 }

-- The variables on entry.
def ModeLoop.entry (port : Stm32Gpio) (mask : BitVec 16) (mode : BitVec 32) : ModeLoop where
  port := port
  mask := mask
  moder := (mode &&& gpioStm32ModeMask) >>> 0
  otyper := (mode &&& gpioStm32OtypeMask) >>> 2
  ospeedr := (mode &&& gpioStm32OspeedMask) >>> 3
  pupdr := (mode &&& gpioStm32PupdrMask) >>> 5
  bit := 0

def gpioLldSetportmode (fuel : Nat) (portid : BitVec 8) (mask : BitVec 16) (mode : BitVec 32)
    (ports : Ports) : Option Ports :=
  let altr := (mode &&& gpioStm32AlternateMask) >>> 7
  ((ModeLoop.entry (ports portid) mask mode).run mode altr fuel).map (ports.set portid)

/-! ## 3. The macros -/

def gpioBitsPadOffset : Nat := 0
def gpioBitsPortOffset : Nat := 8

/-- `_GPIO_SET` and `_GPIO_GET`; both fields have 8 bits. -/
def gpioSet (offset : Nat) (v : BitVec 32) : BitVec 32 := (v &&& 0xff) <<< offset

def gpioGet (offset : Nat) (v : BitVec 32) : BitVec 32 := (v >>> offset) &&& 0xff

def gpioPort (gpio : BitVec 32) : BitVec 32 := gpioGet gpioBitsPortOffset gpio

def gpioPad (gpio : BitVec 32) : BitVec 32 := gpioGet gpioBitsPadOffset gpio

def declareGpio (port pad : BitVec 32) : BitVec 32 :=
  gpioSet gpioBitsPortOffset port ||| gpioSet gpioBitsPadOffset pad

/-- `1 << GPIO_PAD(gpio)` is cut to the 16 bits of an `ioportmask_t`. -/
def gpioSetPadMode (fuel : Nat) (gpio mode : BitVec 32) (ports : Ports) : Option Ports :=
  gpioLldSetportmode fuel ((gpioPort gpio).setWidth 8)
    ((1#32 <<< (gpioPad gpio).toNat).setWidth 16) mode ports

def palSetGroupMode (fuel : Nat) (port : BitVec 8) (mask : BitVec 32) (offset : Nat)
    (mode : BitVec 32) (ports : Ports) : Option Ports :=
  gpioLldSetportmode fuel port ((mask <<< offset).setWidth 16) mode ports

end NfceeFw.Gpio
