import Mathlib.Tactic.Common

/-!
# Fields — a register as a row of fields of one width

Field `i` of width `k` is the bits from `k * i` on.  What a sequence of read-modify-write accesses
does to a register is said by `Sets`: which fields have a given value, all others being as before.
A register made of such fields only is determined by that, whatever the order of the accesses.
-/

namespace NfceeFw.Reasoning.Fields

variable {n : Nat}

def get (k i : Nat) (r : BitVec n) : BitVec k := r.extractLsb' (k * i) k

/-- Clear a field and or a value in. -/
def put (k i : Nat) (v : BitVec k) (r : BitVec n) : BitVec n :=
  (r &&& ~~~((BitVec.allOnes k).setWidth n <<< (k * i))) ||| (v.setWidth n <<< (k * i))

theorem getLsbD_get (k i : Nat) (r : BitVec n) (j : Nat) :
    (get k i r).getLsbD j = (decide (j < k) && r.getLsbD (k * i + j)) :=
  BitVec.getLsbD_extractLsb' _ _ _ _

theorem getLsbD_put (k i : Nat) (v : BitVec k) (r : BitVec n) {j : Nat} (hj : j < n) :
    (put k i v r).getLsbD j =
      if k * i ≤ j ∧ j < k * i + k then v.getLsbD (j - k * i) else r.getLsbD j := by
  unfold put
  rw [BitVec.getLsbD_or, BitVec.getLsbD_and, BitVec.getLsbD_not, BitVec.getLsbD_shiftLeft,
    BitVec.getLsbD_shiftLeft, BitVec.getLsbD_setWidth, BitVec.getLsbD_setWidth,
    BitVec.getLsbD_allOnes]
  by_cases hlo : k * i ≤ j
  · by_cases hhi : j < k * i + k
    · rw [if_pos ⟨hlo, hhi⟩]
      simp [hj, show ¬ j < k * i by omega, show j - k * i < n by omega, show j - k * i < k by omega]
    · rw [if_neg (by omega)]
      simp [hj, show ¬ j - k * i < k by omega,
        BitVec.getLsbD_of_ge v (j - k * i) (by omega)]
  · rw [if_neg (by omega)]
    simp [hj, show j < k * i by omega]

-- Fields of one width do not overlap.
theorem apart {k i i' j : Nat} (hne : i ≠ i') (hj : j < k) :
    ¬ (k * i ≤ k * i' + j ∧ k * i' + j < k * i + k) := by
  rintro ⟨hlo, hhi⟩
  rcases Nat.lt_or_gt_of_ne hne with hlt | hgt
  · have hle := Nat.mul_le_mul_left k (Nat.succ_le_of_lt hlt)
    rw [Nat.mul_succ] at hle
    omega
  · have hle := Nat.mul_le_mul_left k (Nat.succ_le_of_lt hgt)
    rw [Nat.mul_succ] at hle
    omega

theorem get_put_same {k i : Nat} (v : BitVec k) (r : BitVec n) (h : k * i + k ≤ n) :
    get k i (put k i v r) = v := by
  apply BitVec.eq_of_getLsbD_eq
  intro j hj
  rw [getLsbD_get, decide_eq_true hj, Bool.true_and, getLsbD_put k i v r (by omega),
    if_pos (by omega), Nat.add_sub_cancel_left]

theorem get_put_other {k i i' : Nat} (v : BitVec k) (r : BitVec n) (hne : i ≠ i')
    (h : k * i' + k ≤ n) : get k i' (put k i v r) = get k i' r := by
  apply BitVec.eq_of_getLsbD_eq
  intro j hj
  rw [getLsbD_get, getLsbD_get, getLsbD_put k i v r (by omega), if_neg (apart hne hj)]

-- A register is its fields.
theorem ext {k : Nat} (hk : 0 < k) (hdvd : k ∣ n) {r s : BitVec n}
    (h : ∀ i, k * i + k ≤ n → get k i r = get k i s) : r = s := by
  apply BitVec.eq_of_getLsbD_eq
  intro j hj
  have hsplit := Nat.div_add_mod j k
  have hmod := Nat.mod_lt j hk
  have hroom : k * (j / k) + k ≤ n := by
    obtain ⟨c, rfl⟩ := hdvd
    rw [← Nat.mul_succ]
    exact Nat.mul_le_mul_left k (Nat.succ_le_of_lt ((Nat.div_lt_iff_lt_mul hk).mpr (by
      rwa [Nat.mul_comm])))
  have hfield := congrArg (fun v => v.getLsbD (j % k)) (h (j / k) hroom)
  simp only [getLsbD_get, decide_eq_true hmod, Bool.true_and, hsplit] at hfield
  exact hfield

-- A field that is masked and shifted down is read.
theorem masked_shift (start k : Nat) (r : BitVec n) :
    (r &&& (BitVec.allOnes k).setWidth n <<< start) >>> start =
      (r.extractLsb' start k).setWidth n := by
  apply BitVec.eq_of_getLsbD_eq
  intro j hj
  rw [BitVec.getLsbD_ushiftRight, BitVec.getLsbD_and, BitVec.getLsbD_shiftLeft,
    BitVec.getLsbD_setWidth, BitVec.getLsbD_setWidth, BitVec.getLsbD_allOnes,
    BitVec.getLsbD_extractLsb', Nat.add_sub_cancel_left]
  by_cases hin : start + j < n
  · simp [hin, hj, show ¬ start + j < start by omega, Bool.and_comm]
  · simp [BitVec.getLsbD_of_ge r (start + j) (by omega)]

/-! ## Which fields have been set -/

/-- The fields `sel` of `r'` are `v`, the others those of `r`. -/
def Sets (k : Nat) (sel : Nat → Prop) (v : BitVec k) (r r' : BitVec n) : Prop :=
  ∀ i, k * i + k ≤ n → (sel i → get k i r' = v) ∧ (¬ sel i → get k i r' = get k i r)

variable {k : Nat} {sel sel' : Nat → Prop} {v : BitVec k} {r r' r'' : BitVec n}

theorem Sets.none (h : ∀ i, k * i + k ≤ n → ¬ sel i) : Sets k sel v r r :=
  fun i hi => ⟨fun hs => absurd hs (h i hi), fun _ => rfl⟩

theorem sets_put (i : Nat) (v : BitVec k) (r : BitVec n)
    (h : ∀ j, k * j + k ≤ n → (sel j ↔ j = i)) :
    Sets k sel v r (put k i v r) := by
  intro j hj
  rw [h j hj]
  refine ⟨?_, fun hne => get_put_other v r (Ne.symm hne) hj⟩
  rintro rfl
  exact get_put_same v r hj

theorem Sets.trans (h : Sets k sel v r r') (h' : Sets k sel' v r' r'') :
    Sets k (fun i => sel i ∨ sel' i) v r r'' := by
  intro i hi
  obtain ⟨hset, hkept⟩ := h i hi
  obtain ⟨hset', hkept'⟩ := h' i hi
  by_cases hs : sel' i
  · exact ⟨fun _ => hset' hs, fun hnot => absurd (.inr hs) hnot⟩
  · rw [hkept' hs]
    exact ⟨fun hor => hset (hor.resolve_right hs), fun hnot => hkept fun hs' => hnot (.inl hs')⟩

theorem Sets.congr (h : Sets k sel v r r') (hsel : ∀ i, sel i ↔ sel' i) : Sets k sel' v r r' := by
  intro i hi
  rw [← hsel i]
  exact h i hi

-- Nothing but the selection counts.
theorem Sets.unique (hk : 0 < k) (hdvd : k ∣ n) (h : Sets k sel v r r') (h' : Sets k sel v r r'') :
    r' = r'' := by
  apply ext hk hdvd
  intro i hi
  by_cases hs : sel i
  · rw [(h i hi).1 hs, (h' i hi).1 hs]
  · rw [(h i hi).2 hs, (h' i hi).2 hs]

end NfceeFw.Reasoning.Fields
