import Mathlib.Algebra.Order.Ring.Int
import NfceeFw.Reasoning.Memory

/-!
# Driver — the data the protocol layers share

`nfc.h` and `iso14443.h`: technologies, driver states, the driver structure, and the requests that
travel down from the block layer to the device.  `size_t` and `int` have 32 bits.
-/

namespace NfceeFw.Nfc

open NfceeFw.Reasoning

/-! ## 1. Constants and machine integers -/

def eio : Int := 5
def enodev : Int := 19
def eproto : Int := 71

/-- Conversion of an `int` to `size_t`. -/
def sizeT (x : Int) : Nat := (x % 2 ^ 32).toNat

/-- Conversion of a `size_t` to the `int` a function returns. -/
def toInt (n : Nat) : Int := Int.bmod n (2 ^ 32)

theorem sizeT_natCast {n : Nat} (h : n < 2 ^ 32) : sizeT n = n := by
  unfold sizeT
  omega

theorem sizeT_of_nonneg {x : Int} (h0 : 0 ≤ x) (h : x < 2 ^ 32) : sizeT x = x.toNat := by
  unfold sizeT
  rw [Int.emod_eq_of_lt h0 h]

theorem toInt_of_lt {n : Nat} (h : n < 2 ^ 31) : toInt n = n := by
  unfold toInt
  rw [Int.bmod_def]
  omega

theorem toInt_of_nonneg {n : Nat} (h : n < 2 ^ 32) (h0 : 0 ≤ toInt n) : toInt n = n := by
  unfold toInt at *
  rw [Int.bmod_def] at *
  omega

/-! ## 2. The driver -/

/-- `nfc_digital_t` -/
inductive NfcDigital where
  | rf14443a
  | rf14443b
  | rf15693
  | rfFelica
  deriving DecidableEq, Repr

/-- `iso14443_state_t` -/
inductive Iso14443State where
  | powerOff
  | idle
  | selected
  | halted
  deriving DecidableEq, Repr

/-- `struct nfcid`.  `data` has 10 bytes; offsets from 10 on are the fields that follow. -/
structure Nfcid where
  len : UInt8
  data : Mem UInt8

/-- Length of the array `data` of `struct nfcid`. -/
def nfcidDataSize : Nat := 10

/-- The fields common to `nfc_iso14443_driver_t`, then those of the type A (`sak`, `atqa`, `ats`)
and of the type B (`atqb`) driver.  `dev` and the `l3` functions are the program's environment. -/
structure Driver where
  tech : NfcDigital
  nfcid : Nfcid
  state : Iso14443State
  fsc : Nat
  fsd : Nat
  fwt : UInt32
  block : UInt32
  sak : UInt8
  atqa : UInt16
  ats : Mem UInt8
  atqb : Mem UInt8

/-! ## 3. Requests and answers -/

/-- The arguments of `l3.transceive`: `txlen` bytes from `tx`, room for `rxlen` bytes. -/
structure Request where
  tx : Mem UInt8
  txlen : Nat
  rxlen : Nat
  timeout : UInt32

-- The bytes a request sends.
def Request.frame (q : Request) : List UInt8 := q.tx.read 0 q.txlen

/-- `struct nfc_iovec` -/
structure Iovec where
  base : Mem UInt8
  bits : Nat

-- the 29-bit field `bytes` lies over `bits`, above its low 3 bits
def bytesField (bytes : Nat) : Nat := 8 * (bytes % 2 ^ 29)

-- a length that the field holds is sent whole
theorem bytesField_bytes {bytes : Nat} (h : bytes < 2 ^ 29) :
    (bytesField bytes + 7) / 8 = bytes := by
  unfold bytesField
  omega

def Iovec.ofBytes (base : Mem UInt8) (bytes : Nat) : Iovec := ⟨base, bytesField bytes⟩

/-- The arguments of `dev->transceive`; of the receive iovec, its number of bits. -/
structure DevRequest where
  tx : List Iovec
  rxBits : Nat
  timeout : UInt32

/-- How an exchange ends: with an error, or with a frame of any length from the air. -/
inductive Answer where
  | error (code : Nat)
  | frame (bytes : List UInt8)
  deriving DecidableEq, Repr

namespace Answer

/-- The return value of a transceive call with room for `rxlen` bytes. -/
def ret (a : Answer) (rxlen : Nat) : Int :=
  match a with
  | .error code => Int.negSucc code
  | .frame bytes => (min bytes.length rxlen : Nat)

-- The bytes the call leaves in the receive area.
def received (a : Answer) (rxlen : Nat) : List UInt8 :=
  match a with
  | .error _ => []
  | .frame bytes => bytes.take rxlen

@[simp] theorem received_error (code rxlen : Nat) : (error code).received rxlen = [] := rfl

@[simp] theorem received_frame (bytes : List UInt8) (rxlen : Nat) :
    (frame bytes).received rxlen = bytes.take rxlen := rfl

-- Never more bytes than asked for, and the return value counts them.
theorem received_length (a : Answer) (rxlen : Nat) (h : 0 ≤ a.ret rxlen) :
    ((a.received rxlen).length : Int) = a.ret rxlen ∧ (a.received rxlen).length ≤ rxlen := by
  cases a with
  | error code => exact absurd h (by simp [ret])
  | frame bytes =>
    simp only [received_frame, List.length_take, ret]
    omega

end Answer

end NfceeFw.Nfc
