import Mathlib.Data.List.Basic
import Mathlib.Data.List.GetD
import Mathlib.Tactic.Common

/-!
# ShiftRegister — a feedback register that a stream of bits is run through

The register of a cyclic code in its reflected form: a bit enters at the low end, and the bit that
is shifted out, added to it, decides whether the polynomial is fed back.  Everything below follows
from three facts about one step: it is linear, it undoes itself when the polynomial has its top bit,
and a bit that is added to the register beforehand is the bit that enters.
-/

namespace NfceeFw.Reasoning.ShiftRegister

variable {w : Nat} (poly : BitVec w)

def step (reg : BitVec w) (bit : Bool) : BitVec w :=
  if reg.getLsbD 0 ^^ bit then (reg >>> 1) ^^^ poly else reg >>> 1

def run (reg : BitVec w) (bits : List Bool) : BitVec w := bits.foldl (step poly) reg

/-- Bits laid over the low end of a register, the first at the lowest place. -/
def load (w : Nat) (bits : List Bool) : BitVec w := (BitVec.ofBoolListLE bits).setWidth w

@[simp] theorem run_cons (reg : BitVec w) (bit : Bool) (bits : List Bool) :
    run poly reg (bit :: bits) = run poly (step poly reg bit) bits := rfl

theorem run_append (reg : BitVec w) (as bs : List Bool) :
    run poly reg (as ++ bs) = run poly (run poly reg as) bs := List.foldl_append

/-! ## 1. One step -/

theorem getLsbD_step (reg : BitVec w) (bit : Bool) (i : Nat) :
    (step poly reg bit).getLsbD i =
      (reg.getLsbD (i + 1) ^^ ((reg.getLsbD 0 ^^ bit) && poly.getLsbD i)) := by
  unfold step
  split
  · rename_i h
    rw [h, BitVec.getLsbD_xor, BitVec.getLsbD_ushiftRight, Nat.add_comm, Bool.true_and]
  · rename_i h
    rw [Bool.not_eq_true] at h
    rw [h, BitVec.getLsbD_ushiftRight, Nat.add_comm, Bool.false_and, Bool.xor_false]

theorem step_xor (r s : BitVec w) (a b : Bool) :
    step poly (r ^^^ s) (a ^^ b) = step poly r a ^^^ step poly s b := by
  apply BitVec.eq_of_getLsbD_eq
  intro i _
  simp only [getLsbD_step, BitVec.getLsbD_xor]
  cases r.getLsbD 0 <;> cases s.getLsbD 0 <;> cases a <;> cases b <;> cases poly.getLsbD i <;>
    simp

-- With the polynomial's top bit set, what the step fed back can be read off its result.
theorem step_eq_zero (hpoly : poly.getLsbD (w - 1) = true) {reg : BitVec w}
    (h : step poly reg false = 0#w) : reg = 0#w := by
  have hbits : ∀ i, (reg.getLsbD (i + 1) ^^ (reg.getLsbD 0 && poly.getLsbD i)) = false := by
    intro i
    have hi := getLsbD_step poly reg false i
    rw [h, Bool.xor_false] at hi
    rw [← hi]
    exact BitVec.getLsbD_zero
  have hlow : reg.getLsbD 0 = false := by
    have htop := hbits (w - 1)
    rw [hpoly, Bool.and_true, BitVec.getLsbD_of_ge reg (w - 1 + 1) (by omega),
      Bool.false_xor] at htop
    exact htop
  apply BitVec.eq_of_getLsbD_eq
  intro i _
  rw [show (0#w).getLsbD i = false from BitVec.getLsbD_zero]
  cases i with
  | zero => exact hlow
  | succ i =>
    have hi := hbits i
    rwa [hlow, Bool.false_and, Bool.xor_false] at hi

theorem step_injective (hpoly : poly.getLsbD (w - 1) = true) {r s : BitVec w} {bit : Bool}
    (h : step poly r bit = step poly s bit) : r = s := by
  have hzero : step poly (r ^^^ s) false = 0#w := by
    have hxor := step_xor poly r s bit bit
    rw [Bool.xor_self, h, BitVec.xor_self] at hxor
    exact hxor
  exact BitVec.xor_eq_zero_iff.mp (step_eq_zero poly hpoly hzero)

/-! ## 2. Runs -/

theorem run_injective (hpoly : poly.getLsbD (w - 1) = true) {r s : BitVec w} (bits : List Bool)
    (h : run poly r bits = run poly s bits) : r = s := by
  induction bits generalizing r s with
  | nil => exact h
  | cons bit bits ih => exact step_injective poly hpoly (ih h)

theorem run_zero (n : Nat) : run poly 0#w (List.replicate n false) = 0#w := by
  induction n with
  | zero => rfl
  | succ n ih =>
    have hstep : step poly 0#w false = 0#w := by
      unfold step
      rw [if_neg (by simp), BitVec.zero_ushiftRight]
    rw [List.replicate_succ, run_cons, hstep, ih]

theorem run_xor (r s : BitVec w) (n : Nat) :
    run poly (r ^^^ s) (List.replicate n false) =
      run poly r (List.replicate n false) ^^^ run poly s (List.replicate n false) := by
  induction n generalizing r s with
  | zero => rfl
  | succ n ih =>
    rw [List.replicate_succ, run_cons, run_cons, run_cons, ← ih, ← step_xor, Bool.xor_self]

-- Low zeros are shifted out, nothing is fed back.
theorem run_shift (r : BitVec w) (n : Nat) (h : ∀ i < n, r.getLsbD i = false) :
    run poly r (List.replicate n false) = r >>> n := by
  induction n generalizing r with
  | zero => exact (BitVec.ushiftRight_zero r).symm
  | succ n ih =>
    have hstep : step poly r false = r >>> 1 := by
      unfold step
      rw [if_neg (by simp [h 0 (Nat.succ_pos n)])]
    rw [List.replicate_succ, run_cons, hstep, ih, Nat.add_comm, BitVec.shiftRight_add]
    · intro i hi
      rw [BitVec.getLsbD_ushiftRight]
      exact h _ (by omega)

theorem split_low (r : BitVec w) (n : Nat) : r = (r >>> n <<< n) ^^^ (r.setWidth n).setWidth w := by
  apply BitVec.eq_of_getLsbD_eq
  intro i hi
  rw [BitVec.getLsbD_xor, BitVec.getLsbD_shiftLeft, BitVec.getLsbD_ushiftRight,
    BitVec.getLsbD_setWidth, BitVec.getLsbD_setWidth, decide_eq_true hi]
  by_cases hlow : i < n
  · simp [hlow]
  · simp [hlow, show n + (i - n) = i by omega]

/-- What is above the low `n` bits is shifted out by `n` zeros; only these bits are fed back. -/
theorem run_split (r : BitVec w) (n : Nat) :
    run poly r (List.replicate n false) =
      (r >>> n) ^^^ run poly ((r.setWidth n).setWidth w) (List.replicate n false) := by
  have hclear : ∀ i < n, (r >>> n <<< n).getLsbD i = false := by
    intro i hi
    rw [BitVec.getLsbD_shiftLeft, decide_eq_true hi]
    simp
  have hback : r >>> n <<< n >>> n = r >>> n := by
    apply BitVec.eq_of_getLsbD_eq
    intro i _
    simp only [BitVec.getLsbD_ushiftRight, BitVec.getLsbD_shiftLeft]
    by_cases hi : n + i < w
    · simp [hi]
    · simp [BitVec.getLsbD_of_ge r (n + i) (by omega)]
  conv_lhs => rw [split_low r n]
  rw [run_xor, run_shift poly _ n hclear, hback]

/-! ## 3. Bits laid over the register -/

theorem getLsbD_load (bits : List Bool) (i : Nat) :
    (load w bits).getLsbD i = (decide (i < w) && bits.getD i false) := by
  unfold load
  rw [BitVec.getLsbD_setWidth, BitVec.getLsbD_ofBoolListLE]

theorem load_injective {as bs : List Bool} (hlen : as.length = bs.length) (hw : bs.length ≤ w)
    (h : load w as = load w bs) : as = bs := by
  apply List.ext_getElem hlen
  intro i ha hb
  have hi := congrArg (fun v => v.getLsbD i) h
  simp only [getLsbD_load, decide_eq_true (show i < w by omega), Bool.true_and] at hi
  rwa [List.getD_eq_getElem _ _ ha, List.getD_eq_getElem _ _ hb] at hi

-- The lowest bit of what is laid over is the one that enters.
theorem step_load (r : BitVec w) (bit : Bool) (bits : List Bool) (h : bits.length < w) :
    step poly (r ^^^ load w (bit :: bits)) false = step poly r bit ^^^ load w bits := by
  apply BitVec.eq_of_getLsbD_eq
  intro i hi
  have hlow : (load w (bit :: bits)).getLsbD 0 = bit := by
    rw [getLsbD_load, decide_eq_true (show 0 < w by omega)]
    rfl
  have hnext : (load w (bit :: bits)).getLsbD (i + 1) = (load w bits).getLsbD i := by
    rw [getLsbD_load, getLsbD_load, decide_eq_true hi, Bool.true_and, List.getD_cons_succ]
    by_cases hlast : i + 1 < w
    · rw [decide_eq_true hlast, Bool.true_and]
    · rw [decide_eq_false hlast, Bool.false_and, List.getD_eq_default _ _ (by omega)]
  rw [BitVec.getLsbD_xor, getLsbD_step, getLsbD_step, BitVec.getLsbD_xor, BitVec.getLsbD_xor, hlow,
    hnext, Bool.xor_false, Bool.xor_assoc, Bool.xor_assoc]
  congr 1
  exact Bool.xor_comm _ _

/-- Bits that fit the register may be laid over it at once. -/
theorem run_load (r : BitVec w) (bits : List Bool) (h : bits.length ≤ w) :
    run poly r bits = run poly (r ^^^ load w bits) (List.replicate bits.length false) := by
  induction bits generalizing r with
  | nil =>
    have hload : load w [] = 0#w := by
      apply BitVec.eq_of_getLsbD_eq
      intro i _
      simp [getLsbD_load]
    rw [hload, BitVec.xor_zero]
    rfl
  | cons bit bits ih =>
    rw [List.length_cons] at h
    rw [run_cons, ih _ (by omega), List.length_cons, List.replicate_succ, run_cons,
      step_load poly r bit bits (by omega)]

/-! ## 4. Check bits and bursts -/

-- The register returns to zero exactly on its own contents.
theorem run_eq_zero_iff (hpoly : poly.getLsbD (w - 1) = true) (r : BitVec w) (bits : List Bool)
    (h : bits.length ≤ w) : run poly r bits = 0#w ↔ load w bits = r := by
  rw [run_load poly r bits h]
  constructor
  · intro hrun
    rw [← run_zero poly bits.length] at hrun
    exact (BitVec.xor_eq_zero_iff.mp (run_injective poly hpoly _ hrun)).symm
  · intro hload
    rw [hload, BitVec.xor_self, run_zero]

-- Two different streams as long as the register leave it different.
theorem run_separates (hpoly : poly.getLsbD (w - 1) = true) (r : BitVec w) {as bs : List Bool}
    (hlen : as.length = bs.length) (hw : bs.length ≤ w) (h : run poly r as = run poly r bs) :
    as = bs := by
  rw [run_load poly r as (by omega), run_load poly r bs hw, hlen] at h
  have hload := run_injective poly hpoly _ h
  exact load_injective hlen hw ((BitVec.xor_right_inj r).mp hload)

/-- Streams that differ only within a window of the register's width, and leave it in the same
state, do not differ. -/
theorem burst_detected (hpoly : poly.getLsbD (w - 1) = true) (r : BitVec w) {as bs : List Bool}
    (hlen : as.length = bs.length) (p : Nat)
    (hburst : ∀ i, as[i]? ≠ bs[i]? → p ≤ i ∧ i < p + w) (h : run poly r as = run poly r bs) :
    as = bs := by
  induction p generalizing r as bs with
  | zero =>
    -- behind the window the streams agree
    have htail : as.drop w = bs.drop w := by
      apply List.ext_getElem?
      intro i
      rw [List.getElem?_drop, List.getElem?_drop]
      by_contra hne
      have hi := (hburst (w + i) hne).2
      omega
    rw [← List.take_append_drop w as, ← List.take_append_drop w bs, htail, run_append,
      run_append] at h
    have hhead : as.take w = bs.take w := by
      apply run_separates poly hpoly r
      · rw [List.length_take, List.length_take, hlen]
      · exact List.length_take_le w bs
      · exact run_injective poly hpoly _ h
    rw [← List.take_append_drop w as, ← List.take_append_drop w bs, hhead, htail]
  | succ p ih =>
    match as, bs with
    | [], [] => rfl
    | a :: as, b :: bs =>
      have hhead : a = b := by
        by_contra hne
        have h0 := (hburst 0 (by simpa using hne)).1
        omega
      subst hhead
      have htail : as = bs := by
        apply ih (step poly r a) (by simpa using hlen)
        · intro i hi
          have hwindow := hburst (i + 1) (by simpa using hi)
          omega
        · exact h
      rw [htail]

end NfceeFw.Reasoning.ShiftRegister
