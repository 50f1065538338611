import NfceeFw.Nfc.Bounds

/-!
# RuleB — the reader's block number

When `driver->block` advances, against any answers.  An answer is looked at together with the state
in which it arrives.
-/

namespace NfceeFw.Nfc

open NfceeFw.Reasoning

/-! ## 1. Kinds of answers -/

section

variable (a : CallArgs) (s : Locals) (ans : Answer)

-- The control byte that an answer of at least three bytes brings.
def arrived (p : UInt8 → Bool) : Bool :=
  decide (3 ≤ ans.ret (s.site.rxlen a)) && p (s.store a ans).pcb

-- The block number of the answer is the reader's.
def current : Bool := togglebit (s.store a ans).pcb.toUInt32 == s.toggle

-- An I-block with the other number arrives while the response is awaited.
def StaleIblock : Prop :=
  s.site.chaining = false ∧ arrived a s ans isIblock = true ∧ current a s ans = false

-- An I-block under the reader's number.
def CurrentIblock : Prop := arrived a s ans isIblock = true ∧ current a s ans = true

-- A block under the reader's number that its loop has no use for.
def Misplaced : Prop :=
  current a s ans = true ∧
    (s.site.chaining = true ∧ arrived a s ans isIblock = true ∨
      s.site.chaining = false ∧ arrived a s ans isAck = true)

-- An I-block or R(ACK) with the reader's number.
def Counts : Prop :=
  current a s ans = true ∧ (arrived a s ans isIblock = true ∨ arrived a s ans isAck = true)

-- The same, blocks that end the call with an error left out.
def CountsUnlessRefused : Prop := Counts a s ans ∧ ¬ Misplaced a s ans

instance : Decidable (StaleIblock a s ans) := inferInstanceAs (Decidable (_ ∧ _ ∧ _))
instance : Decidable (CurrentIblock a s ans) := inferInstanceAs (Decidable (_ ∧ _))
instance : Decidable (Misplaced a s ans) := inferInstanceAs (Decidable (_ ∧ _))
instance : Decidable (Counts a s ans) := inferInstanceAs (Decidable (_ ∧ _))
instance : Decidable (CountsUnlessRefused a s ans) := inferInstanceAs (Decidable (_ ∧ _))

end

theorem arrived_ge {a : CallArgs} {s : Locals} {ans : Answer} {p : UInt8 → Bool}
    (h : arrived a s ans p = true) : 3 ≤ ans.ret (s.site.rxlen a) := by
  unfold arrived at h
  rw [Bool.and_eq_true] at h
  exact of_decide_eq_true h.1

/-! ## 2. One exchange -/

/-- `driver->block` where a call stands. -/
def blockOf : Run → UInt32
  | .wait s => s.driver.block
  | .done r => r.final.driver.block

theorem blockOf_sendBlock (a : CallArgs) (s : Locals) :
    blockOf (s.sendBlock a) = s.driver.block := by
  unfold Locals.sendBlock
  split <;> rfl

theorem blockOf_takeIblock (s : Locals) (i : Int) :
    blockOf (s.takeIblock i) = s.driver.block + 1 := by
  have hcount : (s.countIblock i).driver.block = s.driver.block + 1 := by
    unfold Locals.countIblock
    split <;> rfl
  unfold Locals.takeIblock
  split
  · exact hcount
  · exact hcount

theorem add_one_ne (b : UInt32) : b + 1 ≠ b := by
  intro h
  have hodd := togglebit_succ_ne b
  rw [h] at hodd
  exact hodd rfl

-- The counter advances on an R(ACK) with the reader's number while chaining, and on every I-block
-- while the response is awaited.
theorem blockOf_resume (a : CallArgs) (s : Locals) (ans : Answer) (hd : s.site ≠ .direct) :
    blockOf (s.resume a ans) =
      if s.site.chaining = true ∧ arrived a s ans isAck = true ∧ current a s ans = true ∨
          s.site.chaining = false ∧ arrived a s ans isIblock = true
      then s.driver.block + 1 else s.driver.block := by
  have hex := resume_exchange a s ans hd
  generalize s.resume a ans = next at hex ⊢
  unfold arrived current
  cases hex with
  | short hi =>
    rw [if_neg (by simp [Int.not_le.mpr hi])]
    rfl
  | wtx hi hw =>
    rw [if_neg (by simp [isAck_of_isWtx _ hw, isIblock_of_isWtx _ hw])]
    rfl
  | noAck hi hs hw hk =>
    rw [if_neg (by simp [hs, hk])]
    rfl
  | again hi hs hk ht =>
    rw [if_neg (by simp [hs, ht])]
    rfl
  | ack hi hs hk ht =>
    rw [if_pos (.inl ⟨hs, by simp [hi, hk], by simp [ht]⟩), blockOf_sendBlock]
    rfl
  | noIblock hi hs hw hb =>
    rw [if_neg (by simp [hs, hb])]
    rfl
  | iblock hi hs hb =>
    rw [if_pos (.inr ⟨hs, by simp [hi, hb]⟩), blockOf_takeIblock]
    rfl

/-- Rule B over one exchange, for blocks of kind `P`. -/
def StepKeeps (a : CallArgs) (P : CallArgs → Locals → Answer → Prop)
    [∀ s ans, Decidable (P a s ans)] (s : Locals) (ans : Answer) : Prop :=
  blockOf (s.resume a ans) = if P a s ans then s.driver.block + 1 else s.driver.block

section

variable (a : CallArgs) (s : Locals) (ans : Answer)

theorem not_arrived_both (h : arrived a s ans isIblock = true) : arrived a s ans isAck = false := by
  unfold arrived at *
  rw [Bool.and_eq_true] at h
  cases hk : isAck (s.store a ans).pcb with
  | false => rw [Bool.and_false]
  | true => exact absurd h.2 (by rw [isIblock_of_isAck _ hk]; exact Bool.false_ne_true)

theorem eq_if_iff {b : UInt32} {p q : Prop} [Decidable p] [Decidable q] :
    (if p then b + 1 else b) = (if q then b + 1 else b) ↔ (p ↔ q) := by
  have hne := add_one_ne b
  by_cases hp : p <;> by_cases hq : q <;> simp [hp, hq, hne, hne.symm]

-- To the letter, an exchange keeps the rule unless the block is stale or in the wrong loop.
theorem stepKeeps_counts (hd : s.site ≠ .direct) :
    StepKeeps a Counts s ans ↔ ¬ StaleIblock a s ans ∧ ¬ Misplaced a s ans := by
  have hboth := not_arrived_both a s ans
  unfold StepKeeps
  rw [blockOf_resume a s ans hd, eq_if_iff]
  unfold Counts StaleIblock Misplaced
  cases s.site.chaining <;> cases hc : current a s ans <;>
    cases hb : arrived a s ans isIblock <;> cases hk : arrived a s ans isAck <;> simp_all

theorem stepKeeps_unlessRefused (hd : s.site ≠ .direct) :
    StepKeeps a CountsUnlessRefused s ans ↔ ¬ StaleIblock a s ans := by
  have hboth := not_arrived_both a s ans
  unfold StepKeeps
  rw [blockOf_resume a s ans hd, eq_if_iff]
  unfold CountsUnlessRefused Counts StaleIblock Misplaced
  cases s.site.chaining <;> cases hc : current a s ans <;>
    cases hb : arrived a s ans isIblock <;> cases hk : arrived a s ans isAck <;> simp_all

end

/-! ## 3. Whole runs -/

def Tcl : Run → Prop
  | .wait s => s.site ≠ .direct
  | .done _ => True

theorem tcl_sendBlock (a : CallArgs) (s : Locals) : Tcl (s.sendBlock a) := by
  unfold Locals.sendBlock
  split
  · exact Site.noConfusion
  · exact Site.noConfusion

theorem tcl_resume (a : CallArgs) (s : Locals) (ans : Answer) (h : Tcl (.wait s)) :
    Tcl (s.resume a ans) := by
  have hex := resume_exchange a s ans h
  generalize s.resume a ans = next at hex ⊢
  cases hex with
  | short | noAck | noIblock => trivial
  | wtx => exact s.site.wtx_ne_direct
  | again => exact Site.noConfusion
  | ack => exact tcl_sendBlock a _
  | iblock =>
    unfold Locals.takeIblock
    split
    · trivial
    · exact Site.noConfusion

theorem tcl_start {d : Driver} (a : CallArgs) (h : isTcl d = true) : Tcl (transceiveStart d a) := by
  unfold transceiveStart
  rw [h]
  exact tcl_sendBlock a _

/-- Rule B on a run: the counter follows the blocks of kind `P`, and no success hides an I-block
that was dropped for its number and never sent again under the right one. -/
def KeepsRuleB (a : CallArgs) (P : CallArgs → Locals → Answer → Prop)
    [∀ s ans, Decidable (P a s ans)] (st : Run) (answers : List Answer) : Prop :=
  (∀ x ∈ (nfcIso14443Transceive a).steps st answers, StepKeeps a P x.1 x.2) ∧
  ∀ r, (nfcIso14443Transceive a).feed st answers = .done r → 0 ≤ r.ret →
    ∀ pre x post, (nfcIso14443Transceive a).steps st answers = pre ++ x :: post →
      StaleIblock a x.1 x.2 → ∃ y ∈ post, CurrentIblock a y.1 y.2

-- Of a property that every exchange has only without a stale I-block.
theorem keepsRuleB_iff {a : CallArgs} {P : CallArgs → Locals → Answer → Prop}
    [∀ s ans, Decidable (P a s ans)] {Q : Locals → Answer → Prop} {st : Run}
    (hst : Tcl st) (hstep : ∀ s ans, s.site ≠ .direct → (StepKeeps a P s ans ↔ Q s ans))
    (hstale : ∀ s ans, Q s ans → ¬ StaleIblock a s ans) (answers : List Answer) :
    KeepsRuleB a P st answers ↔
      ∀ x ∈ (nfcIso14443Transceive a).steps st answers, Q x.1 x.2 := by
  have hsites := Program.steps_invariant (nfcIso14443Transceive a) (I := Tcl)
    (fun s ans h => tcl_resume a s ans h) st hst answers
  constructor
  · intro h x hx
    exact (hstep x.1 x.2 (hsites x hx)).mp (h.1 x hx)
  · intro h
    refine ⟨fun x hx => (hstep x.1 x.2 (hsites x hx)).mpr (h x hx), ?_⟩
    intro r _ _ pre x post hsteps hx
    exact absurd hx (hstale _ _ (h x (by rw [hsteps]; simp)))

/-- A T=CL call keeps Rule B exactly if no stale I-block comes while it awaits the response; to the
letter, no block that it refuses may bear the current number either. -/
theorem ruleB_iff (d : Driver) (a : CallArgs) (htcl : isTcl d = true) (answers : List Answer) :
    (KeepsRuleB a CountsUnlessRefused (transceiveStart d a) answers ↔
      ∀ x ∈ (nfcIso14443Transceive a).steps (transceiveStart d a) answers,
        ¬ StaleIblock a x.1 x.2) ∧
    (KeepsRuleB a Counts (transceiveStart d a) answers ↔
      ∀ x ∈ (nfcIso14443Transceive a).steps (transceiveStart d a) answers,
        ¬ StaleIblock a x.1 x.2 ∧ ¬ Misplaced a x.1 x.2) :=
  ⟨keepsRuleB_iff (tcl_start a htcl) (stepKeeps_unlessRefused a) (fun _ _ h => h) answers,
    keepsRuleB_iff (tcl_start a htcl) (stepKeeps_counts a) (fun _ _ h => h.1) answers⟩

-- Two current I-blocks, the first chained.
theorem ruleB_two_parts :
    let a := CallArgs.ofBytes [0x42] 8
    KeepsRuleB a CountsUnlessRefused (transceiveStart (activated 256) a)
      [.frame [0x12, 0x01, 0x00, 0x00], .frame [0x03, 0x02, 0x00, 0x00]] :=
  (ruleB_iff (activated 256) _ (sized_activated (by decide) (by decide)).tcl _).1.mpr
    (by decide +kernel)

/-- The response comes under the other number: it is dropped, and the call returns 0 bytes. -/
theorem ruleB_stale_response :
    let a := CallArgs.ofBytes [0x42] 8
    let answers := [Answer.frame [0x03, 0x55, 0x00, 0x00]]
    isTcl (activated 256) = true ∧
    (∃ r, (nfcIso14443Transceive a).feed (transceiveStart (activated 256) a) answers = .done r ∧
      r.ret = 0) ∧
    (∃ x, (nfcIso14443Transceive a).steps (transceiveStart (activated 256) a) answers = [x] ∧
      StaleIblock a x.1 x.2) ∧
    ¬ KeepsRuleB a CountsUnlessRefused (transceiveStart (activated 256) a) answers ∧
    ¬ KeepsRuleB a Counts (transceiveStart (activated 256) a) answers := by
  intro a answers
  have htcl : isTcl (activated 256) = true := (sized_activated (by decide) (by decide)).tcl
  have hrun : ((nfcIso14443Transceive a).feed (transceiveStart (activated 256) a)
      answers).result.any (fun r => decide (r.ret = 0)) = true := by decide +kernel
  have hlength : ((nfcIso14443Transceive a).steps (transceiveStart (activated 256) a)
      answers).length = 1 := by decide +kernel
  have hall : ∀ x ∈ (nfcIso14443Transceive a).steps (transceiveStart (activated 256) a) answers,
      StaleIblock a x.1 x.2 := by decide +kernel
  obtain ⟨r, hr, hzero⟩ := Status.done_of_result hrun
  obtain ⟨x, hx⟩ := List.length_eq_one_iff.mp hlength
  have hxstale : StaleIblock a x.1 x.2 := hall x (by rw [hx]; exact List.mem_cons_self ..)
  -- no answer follows the one that was dropped
  have hnot : ∀ P [∀ s ans, Decidable (P a s ans)],
      ¬ KeepsRuleB a P (transceiveStart (activated 256) a) answers := by
    intro P _ h
    obtain ⟨y, hy, -⟩ := h.2 r hr (Int.le_of_eq hzero.symm) [] x [] (by rw [hx]; rfl) hxstale
    cases hy
  exact ⟨htcl, ⟨r, hr, hzero⟩, ⟨x, hx, hxstale⟩, hnot _, hnot _⟩

end NfceeFw.Nfc
