import NfceeFw.Gpio.Lld
import NfceeFw.Reasoning.Fields

/-!
# PortMode — what a group mode setting does to a port

The pads of a port, as the abstract state: each has a mode, spread over the registers.  The loop of
`_gpio_lld_setportmode` gives the pads of the mask the mode that it is called with, and no other pad
anything.
-/

namespace NfceeFw.Gpio

open NfceeFw.Reasoning

/-! ## 1. Pads -/

/-- The mode of a pad, field by field. -/
structure PadMode where
  moder : BitVec 2
  otyper : BitVec 1
  ospeedr : BitVec 2
  pupdr : BitVec 2
  altr : BitVec 4
  deriving DecidableEq, Repr

/-- The fields encoded in a mode word. -/
def modeOf (mode : BitVec 32) : PadMode where
  moder := mode.extractLsb' 0 2
  otyper := mode.extractLsb' 2 1
  ospeedr := mode.extractLsb' 3 2
  pupdr := mode.extractLsb' 5 2
  altr := mode.extractLsb' 7 4

/-- The fields of pad `p` in the registers. -/
def Stm32Gpio.pad (port : Stm32Gpio) (p : Nat) : PadMode where
  moder := Fields.get 2 p port.moder
  otyper := Fields.get 1 p port.otyper
  ospeedr := Fields.get 2 p port.ospeedr
  pupdr := Fields.get 2 p port.pupdr
  altr := if p < 8 then Fields.get 4 p port.afrl else Fields.get 4 (p - 8) port.afrh

/-- The pads `sel` have been given the mode `v`; nothing else of the registers has changed. -/
structure Configured (sel : Nat → Prop) (v : PadMode) (port port' : Stm32Gpio) : Prop where
  moder : Fields.Sets 2 sel v.moder port.moder port'.moder
  otyper : Fields.Sets 1 sel v.otyper port.otyper port'.otyper
  ospeedr : Fields.Sets 2 sel v.ospeedr port.ospeedr port'.ospeedr
  pupdr : Fields.Sets 2 sel v.pupdr port.pupdr port'.pupdr
  afrl : Fields.Sets 4 sel v.altr port.afrl port'.afrl
  afrh : Fields.Sets 4 (fun i => sel (i + 8)) v.altr port.afrh port'.afrh

section

variable {sel sel' : Nat → Prop} {v : PadMode} {port port' port'' : Stm32Gpio}

theorem Configured.none (h : ∀ i, ¬ sel i) : Configured sel v port port where
  moder := .none fun i _ => h i
  otyper := .none fun i _ => h i
  ospeedr := .none fun i _ => h i
  pupdr := .none fun i _ => h i
  afrl := .none fun i _ => h i
  afrh := .none fun i _ => h (i + 8)

theorem Configured.trans (h : Configured sel v port port') (h' : Configured sel' v port' port'') :
    Configured (fun i => sel i ∨ sel' i) v port port'' where
  moder := h.moder.trans h'.moder
  otyper := h.otyper.trans h'.otyper
  ospeedr := h.ospeedr.trans h'.ospeedr
  pupdr := h.pupdr.trans h'.pupdr
  afrl := h.afrl.trans h'.afrl
  afrh := h.afrh.trans h'.afrh

theorem Configured.congr (h : Configured sel v port port') (hsel : ∀ i, sel i ↔ sel' i) :
    Configured sel' v port port' where
  moder := h.moder.congr hsel
  otyper := h.otyper.congr hsel
  ospeedr := h.ospeedr.congr hsel
  pupdr := h.pupdr.congr hsel
  afrl := h.afrl.congr hsel
  afrh := h.afrh.congr fun i => hsel (i + 8)

-- The selection and the mode determine the registers, so that no order can matter.
theorem Configured.unique (h : Configured sel v port port') (h' : Configured sel v port port'') :
    port' = port'' := by
  obtain ⟨moder, otyper, ospeedr, pupdr, afrl, afrh⟩ := port'
  obtain ⟨moder', otyper', ospeedr', pupdr', afrl', afrh'⟩ := port''
  congr
  · exact h.moder.unique (by decide) (by decide) h'.moder
  · exact h.otyper.unique (by decide) (by decide) h'.otyper
  · exact h.ospeedr.unique (by decide) (by decide) h'.ospeedr
  · exact h.pupdr.unique (by decide) (by decide) h'.pupdr
  · exact h.afrl.unique (by decide) (by decide) h'.afrl
  · exact h.afrh.unique (by decide) (by decide) h'.afrh

theorem Configured.pad_selected (h : Configured sel v port port') {p : Nat} (hp : p < 16)
    (hsel : sel p) : port'.pad p = v := by
  obtain ⟨moder, otyper, ospeedr, pupdr, altr⟩ := v
  unfold Stm32Gpio.pad
  congr
  · exact (h.moder p (by omega)).1 hsel
  · exact (h.otyper p (by omega)).1 hsel
  · exact (h.ospeedr p (by omega)).1 hsel
  · exact (h.pupdr p (by omega)).1 hsel
  · split
    · exact (h.afrl p (by omega)).1 hsel
    · have hhigh : sel (p - 8 + 8) := by rwa [Nat.sub_add_cancel (by omega)]
      exact (h.afrh (p - 8) (by omega)).1 hhigh

theorem Configured.pad_other (h : Configured sel v port port') {p : Nat} (hp : p < 16)
    (hsel : ¬ sel p) : port'.pad p = port.pad p := by
  unfold Stm32Gpio.pad
  congr 1
  · exact (h.moder p (by omega)).2 hsel
  · exact (h.otyper p (by omega)).2 hsel
  · exact (h.ospeedr p (by omega)).2 hsel
  · exact (h.pupdr p (by omega)).2 hsel
  · split
    · exact (h.afrl p (by omega)).2 hsel
    · have hhigh : ¬ sel (p - 8 + 8) := by rwa [Nat.sub_add_cancel (by omega)]
      exact (h.afrh (p - 8) (by omega)).2 hhigh

-- OTYPER has a bit for each of 32 pads.
theorem Configured.otyper_other (h : Configured sel v port port') {i : Nat} (hsel : ¬ sel i) :
    port'.otyper.getLsbD i = port.otyper.getLsbD i := by
  by_cases hi : i < 32
  · have hfield := congrArg (fun f => f.getLsbD 0) ((h.otyper i (by omega)).2 hsel)
    simp only [Fields.getLsbD_get, Nat.one_mul, Nat.add_zero] at hfield
    exact hfield
  · rw [BitVec.getLsbD_of_ge _ i (by omega), BitVec.getLsbD_of_ge _ i (by omega)]

end

/-! ## 2. One pass -/

/-- The variables at the head of pass `b`: every field value stands where pad `b` has it. -/
structure AtPass (mask : BitVec 16) (mode : BitVec 32) (b : Nat) (l : ModeLoop) : Prop where
  bit : l.bit = b
  mask : l.mask = mask >>> b
  moder : l.moder = (modeOf mode).moder.setWidth 32 <<< (2 * b)
  otyper : l.otyper = (modeOf mode).otyper.setWidth 32 <<< (1 * b)
  ospeedr : l.ospeedr = (modeOf mode).ospeedr.setWidth 32 <<< (2 * b)
  pupdr : l.pupdr = (modeOf mode).pupdr.setWidth 32 <<< (2 * b)

theorem entry_field {mask : BitVec 32} (start k : Nat) (mode : BitVec 32)
    (h : mask = (BitVec.allOnes k).setWidth 32 <<< start) :
    (mode &&& mask) >>> start = (mode.extractLsb' start k).setWidth 32 <<< (k * 0) := by
  rw [h, Fields.masked_shift, Nat.mul_zero, BitVec.shiftLeft_zero]

theorem atPass_entry (port : Stm32Gpio) (mask : BitVec 16) (mode : BitVec 32) :
    AtPass mask mode 0 (ModeLoop.entry port mask mode) where
  bit := rfl
  mask := (BitVec.ushiftRight_zero mask).symm
  moder := entry_field 0 2 mode (by decide)
  otyper := entry_field 2 1 mode (by decide)
  ospeedr := entry_field 3 2 mode (by decide)
  pupdr := entry_field 5 2 mode (by decide)

-- The value of a field moves on by the width of the field.
theorem field_next {k b : Nat} (v : BitVec k) {r : BitVec 32}
    (h : r = v.setWidth 32 <<< (k * b)) : r <<< k = v.setWidth 32 <<< (k * (b + 1)) := by
  rw [h, Nat.mul_succ, BitVec.shiftLeft_add]

-- The masked write of the source, where pad `b` has its field.
theorem field_write {k b shift : Nat} (v : BitVec k) {ones new : BitVec 32}
    (hones : (BitVec.allOnes k).setWidth 32 = ones) (hshift : shift = k * b)
    (hnew : new = v.setWidth 32 <<< (k * b)) (old : BitVec 32) :
    (old &&& ~~~(ones <<< shift)) ||| new = Fields.put k b v old := by
  rw [← hones, hshift, hnew]
  rfl

section

variable {mask : BitVec 16} {mode : BitVec 32} {b : Nat} {l : ModeLoop}

/-- The registers after pad `b` has been set. -/
def putPad (v : PadMode) (b : Nat) (port : Stm32Gpio) : Stm32Gpio where
  moder := Fields.put 2 b v.moder port.moder
  otyper := Fields.put 1 b v.otyper port.otyper
  ospeedr := Fields.put 2 b v.ospeedr port.ospeedr
  pupdr := Fields.put 2 b v.pupdr port.pupdr
  afrl := if b < 8 then Fields.put 4 b v.altr port.afrl else port.afrl
  afrh := if b < 8 then port.afrh else Fields.put 4 (b - 8) v.altr port.afrh

theorem putPad_configured (v : PadMode) (port : Stm32Gpio) (hb : b < 16) :
    Configured (fun i => i = b) v port (putPad v b port) where
  moder := Fields.sets_put b v.moder port.moder fun _ _ => Iff.rfl
  otyper := Fields.sets_put b v.otyper port.otyper fun _ _ => Iff.rfl
  ospeedr := Fields.sets_put b v.ospeedr port.ospeedr fun _ _ => Iff.rfl
  pupdr := Fields.sets_put b v.pupdr port.pupdr fun _ _ => Iff.rfl
  afrl := by
    show Fields.Sets 4 _ _ _ (if b < 8 then Fields.put 4 b v.altr port.afrl else port.afrl)
    split
    · exact Fields.sets_put b v.altr port.afrl fun _ _ => Iff.rfl
    · exact Fields.Sets.none fun i hi => by omega
  afrh := by
    show Fields.Sets 4 _ _ _ (if b < 8 then port.afrh else Fields.put 4 (b - 8) v.altr port.afrh)
    split
    · exact Fields.Sets.none fun i hi => by omega
    · exact Fields.sets_put (b - 8) v.altr port.afrh fun j _ => by omega

-- The alternate function registers hold eight pads each.
theorem setAfr_eq (port : Stm32Gpio) (altr : BitVec 4) (hb : b < 16) :
    port.setAfr b (15#32 <<< ((b &&& 7) * 4)) (altr.setWidth 32 <<< ((b &&& 7) * 4)) =
      { port with
        afrl := if b < 8 then Fields.put 4 b altr port.afrl else port.afrl
        afrh := if b < 8 then port.afrh else Fields.put 4 (b - 8) altr port.afrh } := by
  have hmod : b &&& 7 = b % 8 := Nat.and_two_pow_sub_one_eq_mod b 3
  unfold Stm32Gpio.setAfr
  rw [hmod, Nat.mul_comm]
  by_cases hlow : b < 8
  · rw [if_pos hlow, if_pos hlow, if_pos hlow, Nat.mod_eq_of_lt hlow,
      field_write altr (by decide) rfl rfl]
  · rw [if_neg hlow, if_neg hlow, if_neg hlow, show b % 8 = b - 8 by omega,
      field_write altr (by decide) rfl rfl]

-- Both branches on the mode write the same registers.
theorem setPad_eq (h : AtPass mask mode b l) (hb : b < 16) :
    l.setPad mode ((mode &&& gpioStm32AlternateMask) >>> 7) = putPad (modeOf mode) b l.port := by
  have hmoder : ∀ old, (old &&& ~~~(3#32 <<< (b * 2))) ||| l.moder =
      Fields.put 2 b (modeOf mode).moder old :=
    field_write _ (by decide) (Nat.mul_comm b 2) h.moder
  have hospeedr : ∀ old, (old &&& ~~~(3#32 <<< (b * 2))) ||| l.ospeedr =
      Fields.put 2 b (modeOf mode).ospeedr old :=
    field_write _ (by decide) (Nat.mul_comm b 2) h.ospeedr
  have hpupdr : ∀ old, (old &&& ~~~(3#32 <<< (b * 2))) ||| l.pupdr =
      Fields.put 2 b (modeOf mode).pupdr old :=
    field_write _ (by decide) (Nat.mul_comm b 2) h.pupdr
  have hotyper : ∀ old, (old &&& ~~~(1#32 <<< b)) ||| l.otyper =
      Fields.put 1 b (modeOf mode).otyper old :=
    field_write _ (by decide) (Nat.one_mul b).symm h.otyper
  have haltr : (mode &&& gpioStm32AlternateMask) >>> 7 = (modeOf mode).altr.setWidth 32 :=
    Fields.masked_shift 7 4 mode
  unfold ModeLoop.setPad putPad
  simp only [h.bit, haltr, setAfr_eq _ _ hb, hmoder, hotyper, hospeedr, hpupdr, ite_self]

-- The bit tested is that of pad `b`.
theorem AtPass.tested (h : AtPass mask mode b l) : l.mask &&& 1 ≠ 0 ↔ mask.getLsbD b = true := by
  rw [h.mask]
  have hbit : (mask >>> b) &&& 1#16 = (BitVec.ofBool (mask.getLsbD b)).setWidth 16 := by
    rw [BitVec.and_one_eq_setWidth_ofBool_getLsbD, BitVec.getLsbD_ushiftRight, Nat.add_zero]
  show (mask >>> b) &&& 1#16 ≠ 0#16 ↔ _
  rw [hbit]
  cases mask.getLsbD b <;> decide

/-- A pass sets pad `b` if the mask has it. -/
theorem pass_configured (h : AtPass mask mode b l) (hb : b < 16) :
    Configured (fun i => i = b ∧ mask.getLsbD b = true) (modeOf mode) l.port
      (if l.mask &&& 1 ≠ 0 then l.setPad mode ((mode &&& gpioStm32AlternateMask) >>> 7)
        else l.port) := by
  split
  · rename_i htest
    have hsel := h.tested.mp htest
    rw [setPad_eq h hb]
    exact (putPad_configured (modeOf mode) l.port hb).congr fun i => (and_iff_left hsel).symm
  · rename_i htest
    have hsel := mt h.tested.mpr htest
    exact Configured.none fun i hi => hsel hi.2

end

/-! ## 3. The loop -/

-- What is left of the mask decides whether there is another pass.
theorem mask_done {mask : BitVec 16} {b : Nat} (h : mask >>> b >>> 1 = 0) (i : Nat) :
    i < b + 1 ∧ mask.getLsbD i = true ↔ mask.getLsbD i = true := by
  refine ⟨And.right, fun hi => ⟨?_, hi⟩⟩
  by_contra hge
  have hzero := congrArg (fun m => m.getLsbD (i - (b + 1))) h
  rw [← BitVec.shiftRight_add] at hzero
  simp only [BitVec.getLsbD_ushiftRight] at hzero
  rw [show b + 1 + (i - (b + 1)) = i by omega, hi] at hzero
  exact absurd hzero (by simp)

theorem mask_left {mask : BitVec 16} {b : Nat} (h : mask >>> b >>> 1 ≠ 0) : b + 1 < 16 := by
  by_contra hge
  apply h
  rw [← BitVec.shiftRight_add]
  exact BitVec.ushiftRight_eq_zero (by omega)

/-- From pass `b` on: the loop ends after 16 passes at most, with the pads of the mask set. -/
theorem run_configured (mask : BitVec 16) (mode : BitVec 32) (port : Stm32Gpio) (fuel b : Nat)
    (l : ModeLoop) (h : AtPass mask mode b l) (hb : b < 16) (hfuel : 16 ≤ fuel + b)
    (hl : Configured (fun i => i < b ∧ mask.getLsbD i = true) (modeOf mode) port l.port) :
    ∃ port', l.run mode ((mode &&& gpioStm32AlternateMask) >>> 7) fuel = some port' ∧
      Configured (fun i => mask.getLsbD i = true) (modeOf mode) port port' := by
  induction fuel generalizing b l with
  | zero => omega
  | succ fuel ih =>
    have hpass := hl.trans (pass_configured h hb)
    have hnext : ∀ i, (i < b ∧ mask.getLsbD i = true ∨ i = b ∧ mask.getLsbD b = true) ↔
        i < b + 1 ∧ mask.getLsbD i = true := by
      intro i
      constructor
      · rintro (⟨hlt, hi⟩ | ⟨rfl, hi⟩)
        · exact ⟨by omega, hi⟩
        · exact ⟨by omega, hi⟩
      · rintro ⟨hlt, hi⟩
        rcases Nat.lt_succ_iff_lt_or_eq.mp hlt with hlt | rfl
        · exact .inl ⟨hlt, hi⟩
        · exact .inr ⟨rfl, hi⟩
    have hset := hpass.congr hnext
    unfold ModeLoop.run
    dsimp only
    by_cases hend : l.mask >>> 1 = 0
    · rw [if_pos hend]
      rw [h.mask] at hend
      exact ⟨_, rfl, hset.congr (mask_done hend)⟩
    · rw [if_neg hend]
      rw [h.mask] at hend
      apply ih (b + 1) _ _ (mask_left hend) (by omega) hset
      exact {
        bit := by rw [h.bit]
        mask := by rw [h.mask, BitVec.shiftRight_add]
        moder := field_next _ h.moder
        otyper := field_next _ h.otyper
        ospeedr := field_next _ h.ospeedr
        pupdr := field_next _ h.pupdr }

section

variable (ports : Ports) (portid : BitVec 8) (mode : BitVec 32)

@[simp] theorem set_self (port : Stm32Gpio) : ports.set portid port portid = port := if_pos rfl

theorem set_set (port port' : Stm32Gpio) :
    (ports.set portid port).set portid port' = ports.set portid port' := by
  funext id
  unfold Ports.set
  split <;> rfl

/-- Sixteen passes are enough, and more change nothing. -/
theorem setportmode_configured (mask : BitVec 16) :
    ∃ port', (∀ fuel, 16 ≤ fuel →
        gpioLldSetportmode fuel portid mask mode ports = some (ports.set portid port')) ∧
      Configured (fun i => mask.getLsbD i = true) (modeOf mode) (ports portid) port' := by
  have hrun := fun fuel (hfuel : 16 ≤ fuel) =>
    run_configured mask mode (ports portid) fuel 0 (ModeLoop.entry (ports portid) mask mode)
      (atPass_entry _ _ _) (by decide) hfuel (Configured.none fun i hi => absurd hi.1 (by omega))
  obtain ⟨port', -, hport'⟩ := hrun 16 (Nat.le_refl 16)
  refine ⟨port', fun fuel hfuel => ?_, hport'⟩
  obtain ⟨port'', hdone, hport''⟩ := hrun fuel hfuel
  unfold gpioLldSetportmode
  dsimp only
  rw [hdone, hport''.unique hport']
  rfl

/-! ## 4. Single pads -/

theorem getLsbD_ff (i : Nat) : (0xff#32).getLsbD i = decide (i < 8) := by
  rw [show 0xff#32 = (BitVec.allOnes 8).setWidth 32 by decide, BitVec.getLsbD_setWidth,
    BitVec.getLsbD_allOnes]
  by_cases hi : i < 8
  · simp [hi, show i < 32 by omega]
  · simp [hi]

-- The pad in the low byte, the port in the one above it.
theorem getLsbD_declare (port pad : BitVec 32) {i : Nat} (hi : i < 16) :
    (declareGpio port pad).getLsbD i = if i < 8 then pad.getLsbD i else port.getLsbD (i - 8) := by
  show (((port &&& 0xff#32) <<< 8) ||| ((pad &&& 0xff#32) <<< 0)).getLsbD i = _
  simp only [BitVec.getLsbD_or, BitVec.getLsbD_shiftLeft, BitVec.getLsbD_and, getLsbD_ff]
  by_cases hlow : i < 8
  · simp [hlow, show i < 32 by omega]
  · simp [hlow, show i < 32 by omega, show i - 8 < 8 by omega]

theorem gpioPort_declare (port pad : BitVec 32) :
    gpioPort (declareGpio port pad) = port &&& 0xff#32 := by
  apply BitVec.eq_of_getLsbD_eq
  intro i _
  show (((declareGpio port pad) >>> 8) &&& 0xff#32).getLsbD i = _
  rw [BitVec.getLsbD_and, BitVec.getLsbD_and, BitVec.getLsbD_ushiftRight, getLsbD_ff]
  by_cases hlow : i < 8
  · rw [getLsbD_declare port pad (by omega), if_neg (by omega), Nat.add_sub_cancel_left]
  · rw [decide_eq_false hlow, Bool.and_false, Bool.and_false]

theorem gpioPad_declare (port pad : BitVec 32) :
    gpioPad (declareGpio port pad) = pad &&& 0xff#32 := by
  apply BitVec.eq_of_getLsbD_eq
  intro i _
  show (((declareGpio port pad) >>> 0) &&& 0xff#32).getLsbD i = _
  rw [BitVec.getLsbD_and, BitVec.getLsbD_and, BitVec.getLsbD_ushiftRight, getLsbD_ff, Nat.zero_add]
  by_cases hlow : i < 8
  · rw [getLsbD_declare port pad (by omega), if_pos hlow]
  · rw [decide_eq_false hlow, Bool.and_false, Bool.and_false]

theorem setPadMode_eq (fuel : Nat) {p : Nat} (hp : p < 16) :
    gpioSetPadMode fuel (declareGpio (portid.setWidth 32) (.ofNat 32 p)) mode ports =
      gpioLldSetportmode fuel portid ((1#32 <<< p).setWidth 16) mode ports := by
  have hport : (gpioPort (declareGpio (portid.setWidth 32) (.ofNat 32 p))).setWidth 8 = portid := by
    rw [gpioPort_declare]
    apply BitVec.eq_of_getLsbD_eq
    intro i hi
    rw [BitVec.getLsbD_setWidth, BitVec.getLsbD_and, BitVec.getLsbD_setWidth, getLsbD_ff]
    simp [hi, show i < 32 by omega]
  have hpad : (gpioPad (declareGpio (portid.setWidth 32) (.ofNat 32 p))).toNat = p := by
    rw [gpioPad_declare, BitVec.toNat_and]
    show (p % 2 ^ 32) &&& (2 ^ 8 - 1) = p
    rw [Nat.and_two_pow_sub_one_eq_mod]
    omega
  unfold gpioSetPadMode
  rw [hport, hpad]

theorem getLsbD_single {p : Nat} (hp : p < 16) (i : Nat) :
    ((1#32 <<< p).setWidth 16).getLsbD i = true ↔ i = p := by
  rw [BitVec.getLsbD_setWidth, BitVec.getLsbD_shiftLeft, BitVec.getLsbD_one]
  simp only [Bool.and_eq_true, decide_eq_true_eq, Bool.not_eq_true', decide_eq_false_iff_not]
  omega

/-- Single pads, one after the other. -/
theorem pads_configured (pads : List Nat) (hpads : ∀ p ∈ pads, p < 16) (fuel : Nat)
    (hfuel : 16 ≤ fuel) :
    ∃ port', pads.foldlM (fun ports p =>
        gpioSetPadMode fuel (declareGpio (portid.setWidth 32) (.ofNat 32 p)) mode ports) ports =
          some (ports.set portid port') ∧
      Configured (· ∈ pads) (modeOf mode) (ports portid) port' := by
  induction pads generalizing ports with
  | nil =>
    refine ⟨ports portid, ?_, Configured.none fun i => List.not_mem_nil⟩
    have hsame : ports.set portid (ports portid) = ports := by
      funext id
      unfold Ports.set
      split
      · rename_i h
        rw [h]
      · rfl
    rw [hsame]
    rfl
  | cons p pads ih =>
    have hp := hpads p (List.mem_cons_self ..)
    obtain ⟨port₁, hfirst, hport₁⟩ :=
      setportmode_configured ports portid mode ((1#32 <<< p).setWidth 16)
    obtain ⟨port₂, hrest, hport₂⟩ := ih (ports.set portid port₁)
      fun q hq => hpads q (List.mem_cons_of_mem _ hq)
    rw [set_self] at hport₂
    refine ⟨port₂, ?_, (hport₁.trans hport₂).congr fun i => ?_⟩
    · rw [List.foldlM_cons, setPadMode_eq ports portid mode fuel hp, hfirst fuel hfuel]
      exact hrest.trans (congrArg some (set_set ports portid port₁ port₂))
    · rw [getLsbD_single hp, List.mem_cons]

/-- `palSetGroupMode`: the mask is moved up to the first pad of the group, and ends at pad 15. -/
theorem groupMode_configured (mask : BitVec 32) (offset : Nat) :
    ∃ port', (∀ fuel, 16 ≤ fuel →
        palSetGroupMode fuel portid mask offset mode ports = some (ports.set portid port')) ∧
      Configured (fun i => i < 16 ∧ offset ≤ i ∧ mask.getLsbD (i - offset) = true) (modeOf mode)
        (ports portid) port' := by
  obtain ⟨port', hdone, hport'⟩ :=
    setportmode_configured ports portid mode ((mask <<< offset).setWidth 16)
  refine ⟨port', hdone, hport'.congr fun i => ?_⟩
  rw [BitVec.getLsbD_setWidth, BitVec.getLsbD_shiftLeft]
  simp only [Bool.and_eq_true, decide_eq_true_eq, Bool.not_eq_true', decide_eq_false_iff_not]
  constructor
  · rintro ⟨hi, ⟨-, hge⟩, hbit⟩
    exact ⟨hi, Nat.not_lt.mp hge, hbit⟩
  · rintro ⟨hi, hge, hbit⟩
    exact ⟨hi, ⟨by omega, Nat.not_lt.mpr hge⟩, hbit⟩

/-- Setting the mode of a group: the loop ends, the pads of the mask have the mode, the other pads
and ports, and the bits of OTYPER that belong to no pad, what they had, and it is as if the pads of
the mask were set one by one in any order. -/
theorem setportmode_pads (mask : BitVec 16) :
    ∃ ports' : Ports,
      (∀ fuel, 16 ≤ fuel → gpioLldSetportmode fuel portid mask mode ports = some ports') ∧
      (∀ p < 16, (ports' portid).pad p =
        if mask.getLsbD p then modeOf mode else (ports portid).pad p) ∧
      (∀ i, 16 ≤ i → (ports' portid).otyper.getLsbD i = (ports portid).otyper.getLsbD i) ∧
      (∀ id, id ≠ portid → ports' id = ports id) ∧
      ∀ pads : List Nat, (∀ p, p ∈ pads ↔ mask.getLsbD p = true) → ∀ fuel, 16 ≤ fuel →
        pads.foldlM (fun ports p =>
          gpioSetPadMode fuel (declareGpio (portid.setWidth 32) (.ofNat 32 p)) mode ports) ports =
            some ports' := by
  obtain ⟨port', hdone, hport'⟩ := setportmode_configured ports portid mode mask
  refine ⟨ports.set portid port', hdone, fun p hp => ?_, fun i hi => ?_,
    fun id hid => if_neg hid, fun pads hpads fuel hfuel => ?_⟩
  · rw [set_self]
    split
    · rename_i hsel
      exact hport'.pad_selected hp hsel
    · rename_i hsel
      exact hport'.pad_other hp hsel
  · rw [set_self]
    exact hport'.otyper_other (by simp [BitVec.getLsbD_of_ge mask i hi])
  · have hrange : ∀ p ∈ pads, p < 16 := by
      intro p hp
      by_contra hge
      rw [hpads, BitVec.getLsbD_of_ge mask p (by omega)] at hp
      exact Bool.false_ne_true hp
    obtain ⟨port'', hfold, hport''⟩ := pads_configured ports portid mode pads hrange fuel hfuel
    rw [hfold, (hport''.congr hpads).unique hport']

-- Pads 0 and 9 in alternate mode 5.
example : (gpioLldSetportmode 16 0 0x0201 0x282 fun _ => ⟨0, 0, 0, 0, 0, 0⟩).map (· 0) =
    some ⟨0x80002, 0, 0, 0, 0x5, 0x50⟩ := by
  decide

end

end NfceeFw.Gpio
