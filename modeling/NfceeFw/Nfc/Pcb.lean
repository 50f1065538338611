import NfceeFw.Nfc.Driver

/-! The macros and look-up tables of `iso14443.c`: block types, block numbers, frame sizes. -/

namespace NfceeFw.Nfc

open NfceeFw.Reasoning

def isIblock (b : UInt8) : Bool := (b &&& 0xE2) == 0x02
def isRblock (b : UInt8) : Bool := (b &&& 0xE6) == 0xA2
def isSblock (b : UInt8) : Bool := (b &&& 0xC7) == 0xC2

def isAck (b : UInt8) : Bool := isRblock b && !((b &&& 0x10) != 0)
def isWtx (b : UInt8) : Bool := isSblock b && ((b &&& 0x30) == 0x30)

def togglebit (b : UInt32) : UInt8 := (b &&& 1).toUInt8

def lutFrameSize : List Nat := [16, 24, 32, 40, 48, 64, 96, 128, 256]

def fsci2fsc (fsci : UInt8) : Nat := lutFrameSize.getD (min fsci.toNat (lutFrameSize.length - 1)) 0

-- the loop runs `i` down from `size - 1`
def fsd2fsdiFrom (fsd : Int) : Nat → UInt8
  | 0 => 0
  | i + 1 => if (lutFrameSize.getD i 0 : Int) ≤ fsd then i.toUInt8 else fsd2fsdiFrom fsd i

def fsd2fsdi (fsd : Int) : UInt8 := fsd2fsdiFrom fsd lutFrameSize.length

def lutFrameTime : List UInt32 :=
  [1, 1, 2, 3, 5, 10, 20, 40, 80, 160, 310, 620, 1240, 2480, 4950]

def fwi2fw (fwi : UInt8) : UInt32 := lutFrameTime.getD (min fwi.toNat (lutFrameTime.length - 1)) 0

def isTcl (d : Driver) : Bool :=
  match d.tech with
  | .rf14443a => (d.sak &&& 0x24) == 0x20
  | .rf14443b => (d.atqb 10 &&& 0x09) == 0x01
  | _ => false

/-! ## 1. Facts about single bytes -/

-- A property of every byte, from the 256 cases.
theorem forallByte {p : UInt8 → Prop} (h : ∀ n : Fin 256, p (UInt8.ofFin n)) (b : UInt8) : p b :=
  h b.toFin

theorem isIblock_of_isWtx (b : UInt8) : isWtx b = true → isIblock b = false := by
  revert b
  exact forallByte (by decide +kernel)

theorem isAck_of_isWtx (b : UInt8) : isWtx b = true → isAck b = false := by
  revert b
  exact forallByte (by decide +kernel)

theorem isIblock_of_isAck (b : UInt8) : isAck b = true → isIblock b = false := by
  revert b
  exact forallByte (by decide +kernel)

theorem isWtx_of_isIblock (b : UInt8) : isIblock b = true → isWtx b = false := by
  revert b
  exact forallByte (by decide +kernel)

theorem isAck_of_isIblock (b : UInt8) : isIblock b = true → isAck b = false := by
  revert b
  exact forallByte (by decide +kernel)

theorem isWtx_of_isAck (b : UInt8) : isAck b = true → isWtx b = false := by
  revert b
  exact forallByte (by decide +kernel)

theorem fsci2fsc_bounds (fsci : UInt8) : 16 ≤ fsci2fsc fsci ∧ fsci2fsc fsci ≤ 256 := by
  revert fsci
  exact forallByte (by decide +kernel)

/-! ## 2. Block numbers -/

theorem togglebit_eq (b : UInt32) : togglebit b = if b.toNat % 2 = 0 then 0 else 1 := by
  apply UInt8.toNat_inj.mp
  have hlt := Nat.mod_lt b.toNat (show 0 < 2 by decide)
  simp only [togglebit, UInt32.toNat_toUInt8, UInt32.toNat_and]
  rw [show (1 : UInt32).toNat = 1 from rfl, Nat.and_one_is_mod]
  split <;> rename_i h
  · rw [h]; rfl
  · rw [show b.toNat % 2 = 1 by omega]; rfl

theorem togglebit_cases (b : UInt32) : togglebit b = 0 ∨ togglebit b = 1 := by
  rw [togglebit_eq]
  split <;> simp

-- `driver->block++` flips the number of the next block; the wrap at 2^32 keeps the parity.
theorem togglebit_succ (b : UInt32) : togglebit (b + 1) = togglebit b ^^^ 1 := by
  have hb : (b + 1).toNat % 2 = (b.toNat + 1) % 2 := by
    rw [UInt32.toNat_add, show (1 : UInt32).toNat = 1 from rfl]
    omega
  rw [togglebit_eq, togglebit_eq, hb]
  by_cases h : b.toNat % 2 = 0
  · rw [if_neg (by omega), if_pos h]; rfl
  · rw [if_pos (by omega), if_neg h]; rfl

theorem togglebit_succ_ne (b : UInt32) : togglebit (b + 1) ≠ togglebit b := by
  rw [togglebit_succ]
  rcases togglebit_cases b with h | h <;> rw [h] <;> decide

/-! ## 3. The control bytes that carry a block number -/

-- The control byte of an I-block, chained unless it is the last one.
def iblockPcb (n : UInt8) (isLast : Bool) : UInt8 := (if isLast then 0x02 else 0x12) ||| n

section

variable {n : UInt8} (hn : n = 0 ∨ n = 1)

include hn

theorem isIblock_iblockPcb (isLast : Bool) : isIblock (iblockPcb n isLast) = true := by
  rcases hn with rfl | rfl <;> cases isLast <;> decide

theorem togglebit_iblockPcb (isLast : Bool) : togglebit (iblockPcb n isLast).toUInt32 = n := by
  rcases hn with rfl | rfl <;> cases isLast <;> decide

theorem chained_iblockPcb (isLast : Bool) : (iblockPcb n isLast &&& 0x10 == 0) = isLast := by
  rcases hn with rfl | rfl <;> cases isLast <;> decide

theorem isAck_ack : isAck (0xA2 ||| n) = true := by
  rcases hn with rfl | rfl <;> decide

theorem togglebit_ack : togglebit (0xA2 ||| n).toUInt32 = n := by
  rcases hn with rfl | rfl <;> decide

end

theorem xor_one_xor_one (n : UInt8) : n ^^^ 1 ^^^ 1 = n := by
  rw [UInt8.xor_assoc, UInt8.xor_self, UInt8.xor_zero]

end NfceeFw.Nfc
