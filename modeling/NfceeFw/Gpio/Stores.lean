import NfceeFw.Gpio.PortMode
import NfceeFw.Reasoning.Machine

/-!
# Stores — a port between two stores of a mode setting

`_gpio_lld_setportmode` writes five registers for each pad, one after the other, and the pads follow
at once.  Its states are all those that the pads go through.
-/

namespace NfceeFw.Gpio

open NfceeFw.Reasoning

/-! ## 1. The stores -/

inductive ModeReg where
  | moder
  | otyper
  | ospeedr
  | pupdr
  | afrl
  | afrh
  deriving DecidableEq, Repr

/-- `port->REG = (port->REG & ~clear) | bits` -/
structure Store where
  reg : ModeReg
  clear : BitVec 32
  bits : BitVec 32
  deriving DecidableEq, Repr

def Stm32Gpio.store (port : Stm32Gpio) (s : Store) : Stm32Gpio :=
  match s.reg with
  | .moder => { port with moder := (port.moder &&& ~~~s.clear) ||| s.bits }
  | .otyper => { port with otyper := (port.otyper &&& ~~~s.clear) ||| s.bits }
  | .ospeedr => { port with ospeedr := (port.ospeedr &&& ~~~s.clear) ||| s.bits }
  | .pupdr => { port with pupdr := (port.pupdr &&& ~~~s.clear) ||| s.bits }
  | .afrl => { port with afrl := (port.afrl &&& ~~~s.clear) ||| s.bits }
  | .afrh => { port with afrh := (port.afrh &&& ~~~s.clear) ||| s.bits }

/-- The stores of a pass on a pad of the mask, in the order of the source. -/
def ModeLoop.stores (mode altr : BitVec 32) (l : ModeLoop) : List Store :=
  let m2 := 3#32 <<< (l.bit * 2)
  let afr : Store := ⟨if l.bit < 8 then .afrl else .afrh, 15#32 <<< ((l.bit &&& 7) * 4),
    altr <<< ((l.bit &&& 7) * 4)⟩
  let switch : Store := ⟨.moder, m2, l.moder⟩
  [⟨.otyper, 1#32 <<< l.bit, l.otyper⟩, ⟨.ospeedr, m2, l.ospeedr⟩, ⟨.pupdr, m2, l.pupdr⟩] ++
    if mode &&& gpioStm32ModeMask = gpioStm32ModeAlternate then [afr, switch] else [switch, afr]

-- The variables at the head of the next pass.
def ModeLoop.next (l : ModeLoop) : ModeLoop :=
  { l with
    mask := l.mask >>> 1
    moder := l.moder <<< 2
    otyper := l.otyper <<< 1
    ospeedr := l.ospeedr <<< 2
    pupdr := l.pupdr <<< 2
    bit := l.bit + 1 }

-- Those of the whole loop.
def ModeLoop.allStores (mode altr : BitVec 32) : Nat → ModeLoop → List Store
  | 0, _ => []
  | fuel + 1, l =>
    (if l.mask &&& 1 ≠ 0 then l.stores mode altr else []) ++
      if l.mask >>> 1 = 0 then [] else ModeLoop.allStores mode altr fuel l.next

/-- The stores of `_gpio_lld_setportmode`; what the registers hold does not matter for them. -/
def setportmodeStores (mask : BitVec 16) (mode : BitVec 32) : List Store :=
  (ModeLoop.entry ⟨0, 0, 0, 0, 0, 0⟩ mask mode).allStores mode
    ((mode &&& gpioStm32AlternateMask) >>> 7) 16

theorem stores_setPad (mode altr : BitVec 32) (l : ModeLoop) :
    (l.stores mode altr).foldl Stm32Gpio.store l.port = l.setPad mode altr := by
  unfold ModeLoop.stores ModeLoop.setPad Stm32Gpio.setAfr
  dsimp only
  split <;> split <;> rfl

theorem allStores_port (mode altr : BitVec 32) (fuel : Nat) (l : ModeLoop) (port : Stm32Gpio) :
    ModeLoop.allStores mode altr fuel { l with port := port } = l.allStores mode altr fuel := by
  induction fuel generalizing l with
  | zero => rfl
  | succ fuel ih =>
    have hnext : ({ l with port := port } : ModeLoop).next = { l.next with port := port } := rfl
    unfold ModeLoop.allStores
    rw [hnext, ih l.next]
    rfl

/-- They add up to the loop. -/
theorem allStores_run (mode altr : BitVec 32) (fuel : Nat) (l : ModeLoop) {port : Stm32Gpio}
    (h : l.run mode altr fuel = some port) :
    (l.allStores mode altr fuel).foldl Stm32Gpio.store l.port = port := by
  induction fuel generalizing l with
  | zero => cases h
  | succ fuel ih =>
    unfold ModeLoop.run at h
    dsimp only at h
    have hpass :
        (if l.mask &&& 1 ≠ 0 then l.stores mode altr else []).foldl Stm32Gpio.store l.port =
          if l.mask &&& 1 ≠ 0 then l.setPad mode altr else l.port := by
      split
      · exact stores_setPad mode altr l
      · rfl
    unfold ModeLoop.allStores
    rw [List.foldl_append, hpass]
    by_cases hend : l.mask >>> 1 = 0
    · rw [if_pos hend] at h ⊢
      exact Option.some.inj h
    · rw [if_neg hend] at h ⊢
      have hrest := ih _ h
      rw [show ∀ p, ModeLoop.mk p (l.mask >>> 1) (l.moder <<< 2) (l.otyper <<< 1) (l.ospeedr <<< 2)
        (l.pupdr <<< 2) (l.bit + 1) = { l.next with port := p } from fun _ => rfl,
        allStores_port] at hrest
      exact hrest

/-! ## 2. A pad on its way -/

inductive PadField where
  | moder
  | otyper
  | ospeedr
  | pupdr
  | altr
  deriving DecidableEq, Repr

-- One field of a pad is given the value of `v`.
def PadMode.set (v : PadMode) (old : PadMode) : PadField → PadMode
  | .moder => { old with moder := v.moder }
  | .otyper => { old with otyper := v.otyper }
  | .ospeedr => { old with ospeedr := v.ospeedr }
  | .pupdr => { old with pupdr := v.pupdr }
  | .altr => { old with altr := v.altr }

/-- The order in which a pad gets its fields. -/
def padOrder (v : PadMode) : List PadField :=
  [.otyper, .ospeedr, .pupdr] ++ if v.moder = 2 then [.altr, .moder] else [.moder, .altr]

/-- A pad on its way from a mode to another: its fields are old or new; it is switched once its
type, speed and pull are the new ones; and it never has an alternate function that neither mode
gives it. -/
structure Between (old new cur : PadMode) : Prop where
  moder : cur.moder = old.moder ∨ cur.moder = new.moder
  otyper : cur.otyper = old.otyper ∨ cur.otyper = new.otyper
  ospeedr : cur.ospeedr = old.ospeedr ∨ cur.ospeedr = new.ospeedr
  pupdr : cur.pupdr = old.pupdr ∨ cur.pupdr = new.pupdr
  altr : cur.altr = old.altr ∨ cur.altr = new.altr
  switched : cur.moder = old.moder ∨
    cur.otyper = new.otyper ∧ cur.ospeedr = new.ospeedr ∧ cur.pupdr = new.pupdr
  function : cur.moder = 2 →
    old.moder = 2 ∧ cur.altr = old.altr ∨ new.moder = 2 ∧ cur.altr = new.altr

theorem Between.old (old new : PadMode) : Between old new old :=
  ⟨.inl rfl, .inl rfl, .inl rfl, .inl rfl, .inl rfl, .inl rfl, fun h => .inl ⟨h, rfl⟩⟩

theorem Between.new (old new : PadMode) : Between old new new :=
  ⟨.inr rfl, .inr rfl, .inr rfl, .inr rfl, .inr rfl, .inr ⟨rfl, rfl, rfl⟩, fun h => .inr ⟨h, rfl⟩⟩

theorem padOrder_between (old new : PadMode) :
    ∀ cur ∈ Machine.visited (PadMode.set new) old (padOrder new), Between old new cur := by
  intro cur hcur
  unfold padOrder at hcur
  by_cases halt : new.moder = 2
  · rw [if_pos halt] at hcur
    simp only [Machine.visited, PadMode.set, List.cons_append, List.nil_append, List.mem_cons,
      List.not_mem_nil, or_false] at hcur
    rcases hcur with rfl | rfl | rfl | rfl | rfl | rfl <;> constructor <;> simp_all
  · rw [if_neg halt] at hcur
    simp only [Machine.visited, PadMode.set, List.cons_append, List.nil_append, List.mem_cons,
      List.not_mem_nil, or_false] at hcur
    rcases hcur with rfl | rfl | rfl | rfl | rfl | rfl <;> constructor <;> simp_all

/-! ## 3. One pass -/

-- The register that holds a field of a pad is written.
def putField (v : PadMode) (b : Nat) (port : Stm32Gpio) : PadField → Stm32Gpio
  | .moder => { port with moder := Fields.put 2 b v.moder port.moder }
  | .otyper => { port with otyper := Fields.put 1 b v.otyper port.otyper }
  | .ospeedr => { port with ospeedr := Fields.put 2 b v.ospeedr port.ospeedr }
  | .pupdr => { port with pupdr := Fields.put 2 b v.pupdr port.pupdr }
  | .altr => { port with
      afrl := if b < 8 then Fields.put 4 b v.altr port.afrl else port.afrl
      afrh := if b < 8 then port.afrh else Fields.put 4 (b - 8) v.altr port.afrh }

theorem putField_same (v : PadMode) {b : Nat} (hb : b < 16) (port : Stm32Gpio) (f : PadField) :
    (putField v b port f).pad b = v.set (port.pad b) f := by
  cases f with
  | moder =>
    have hget := Fields.get_put_same v.moder port.moder (show 2 * b + 2 ≤ 32 by omega)
    unfold putField Stm32Gpio.pad PadMode.set
    dsimp only
    rw [hget]
  | otyper =>
    have hget := Fields.get_put_same v.otyper port.otyper (show 1 * b + 1 ≤ 32 by omega)
    unfold putField Stm32Gpio.pad PadMode.set
    dsimp only
    rw [hget]
  | ospeedr =>
    have hget := Fields.get_put_same v.ospeedr port.ospeedr (show 2 * b + 2 ≤ 32 by omega)
    unfold putField Stm32Gpio.pad PadMode.set
    dsimp only
    rw [hget]
  | pupdr =>
    have hget := Fields.get_put_same v.pupdr port.pupdr (show 2 * b + 2 ≤ 32 by omega)
    unfold putField Stm32Gpio.pad PadMode.set
    dsimp only
    rw [hget]
  | altr =>
    unfold putField Stm32Gpio.pad PadMode.set
    dsimp only
    by_cases hlow : b < 8
    · have hget := Fields.get_put_same v.altr port.afrl (show 4 * b + 4 ≤ 32 by omega)
      rw [if_pos hlow, if_pos hlow, hget]
    · have hget := Fields.get_put_same v.altr port.afrh (show 4 * (b - 8) + 4 ≤ 32 by omega)
      rw [if_neg hlow, if_neg hlow, hget]

theorem putField_other (v : PadMode) {b p : Nat} (hb : b < 16) (hp : p < 16) (hne : p ≠ b)
    (port : Stm32Gpio) (f : PadField) : (putField v b port f).pad p = port.pad p := by
  have hapart : b ≠ p := Ne.symm hne
  cases f with
  | moder =>
    have hget := Fields.get_put_other v.moder port.moder hapart (show 2 * p + 2 ≤ 32 by omega)
    unfold putField Stm32Gpio.pad
    dsimp only
    rw [hget]
  | otyper =>
    have hget := Fields.get_put_other v.otyper port.otyper hapart (show 1 * p + 1 ≤ 32 by omega)
    unfold putField Stm32Gpio.pad
    dsimp only
    rw [hget]
  | ospeedr =>
    have hget := Fields.get_put_other v.ospeedr port.ospeedr hapart (show 2 * p + 2 ≤ 32 by omega)
    unfold putField Stm32Gpio.pad
    dsimp only
    rw [hget]
  | pupdr =>
    have hget := Fields.get_put_other v.pupdr port.pupdr hapart (show 2 * p + 2 ≤ 32 by omega)
    unfold putField Stm32Gpio.pad
    dsimp only
    rw [hget]
  | altr =>
    unfold putField Stm32Gpio.pad
    dsimp only
    by_cases hlow : p < 8
    · rw [if_pos hlow, if_pos hlow]
      split
      · rw [Fields.get_put_other v.altr port.afrl hapart (show 4 * p + 4 ≤ 32 by omega)]
      · rfl
    · rw [if_neg hlow, if_neg hlow]
      split
      · rfl
      · rw [Fields.get_put_other v.altr port.afrh (show b - 8 ≠ p - 8 by omega)
          (show 4 * (p - 8) + 4 ≤ 32 by omega)]

-- The branch of the source.
theorem alternate_iff (mode : BitVec 32) :
    mode &&& gpioStm32ModeMask = gpioStm32ModeAlternate ↔ (modeOf mode).moder = 2 := by
  have hmoder : mode &&& gpioStm32ModeMask = (modeOf mode).moder.setWidth 32 := by
    have hshift := Fields.masked_shift 0 2 mode
    rw [BitVec.ushiftRight_zero] at hshift
    exact hshift
  have hall : ∀ m : BitVec 2, m.setWidth 32 = gpioStm32ModeAlternate ↔ m = 2 := by decide
  rw [hmoder, hall]

def ModeLoop.fieldStore (altr : BitVec 32) (l : ModeLoop) : PadField → Store
  | .moder => ⟨.moder, 3#32 <<< (l.bit * 2), l.moder⟩
  | .otyper => ⟨.otyper, 1#32 <<< l.bit, l.otyper⟩
  | .ospeedr => ⟨.ospeedr, 3#32 <<< (l.bit * 2), l.ospeedr⟩
  | .pupdr => ⟨.pupdr, 3#32 <<< (l.bit * 2), l.pupdr⟩
  | .altr => ⟨if l.bit < 8 then .afrl else .afrh, 15#32 <<< ((l.bit &&& 7) * 4),
      altr <<< ((l.bit &&& 7) * 4)⟩

theorem stores_order (mode altr : BitVec 32) (l : ModeLoop) :
    l.stores mode altr = (padOrder (modeOf mode)).map (l.fieldStore altr) := by
  unfold ModeLoop.stores padOrder
  dsimp only
  rw [List.map_append]
  by_cases halt : (modeOf mode).moder = 2
  · rw [if_pos ((alternate_iff mode).mpr halt), if_pos halt]
    rfl
  · rw [if_neg (mt (alternate_iff mode).mp halt), if_neg halt]
    rfl

section

variable {mask : BitVec 16} {mode : BitVec 32} {b : Nat} {l : ModeLoop}

theorem store_fieldStore (h : AtPass mask mode b l) (hb : b < 16) (port : Stm32Gpio)
    (f : PadField) :
    port.store (l.fieldStore ((mode &&& gpioStm32AlternateMask) >>> 7) f) =
      putField (modeOf mode) b port f := by
  have haltr : (mode &&& gpioStm32AlternateMask) >>> 7 = (modeOf mode).altr.setWidth 32 :=
    Fields.masked_shift 7 4 mode
  unfold Stm32Gpio.store ModeLoop.fieldStore putField
  rw [h.bit]
  cases f with
  | moder =>
    dsimp only
    rw [field_write _ (by decide) (Nat.mul_comm b 2) h.moder]
  | otyper =>
    dsimp only
    rw [field_write _ (by decide) (Nat.one_mul b).symm h.otyper]
  | ospeedr =>
    dsimp only
    rw [field_write _ (by decide) (Nat.mul_comm b 2) h.ospeedr]
  | pupdr =>
    dsimp only
    rw [field_write _ (by decide) (Nat.mul_comm b 2) h.pupdr]
  | altr =>
    dsimp only
    rw [← setAfr_eq port (modeOf mode).altr hb, haltr]
    unfold Stm32Gpio.setAfr
    by_cases hlow : b < 8
    · rw [if_pos hlow, if_pos hlow]
    · rw [if_neg hlow, if_neg hlow]

/-- Within a pass, pad `b` is on its way and all others stand still. -/
theorem pass_between (h : AtPass mask mode b l) (hb : b < 16) {port cur : Stm32Gpio}
    (hcur : cur ∈ Machine.visited Stm32Gpio.store port
      (l.stores mode ((mode &&& gpioStm32AlternateMask) >>> 7))) :
    Between (port.pad b) (modeOf mode) (cur.pad b) ∧
      ∀ p < 16, p ≠ b → cur.pad p = port.pad p := by
  rw [stores_order, Machine.visited_labels] at hcur
  have hstep : (fun port f =>
      Stm32Gpio.store port (l.fieldStore ((mode &&& gpioStm32AlternateMask) >>> 7) f)) =
        putField (modeOf mode) b := by
    funext port f
    exact store_fieldStore h hb port f
  rw [hstep] at hcur
  constructor
  · have hpad := Machine.visited_map (putField (modeOf mode) b) (modeOf mode).set
      (fun port => port.pad b) (fun s f _ => putField_same (modeOf mode) hb s f) hcur
    exact padOrder_between _ _ _ hpad
  · intro p hp hne
    have hkept := Machine.visited_invariant (putField (modeOf mode) b)
      (I := fun cur => cur.pad p = port.pad p)
      (fun s f hs => (putField_other (modeOf mode) hb hp hne s f).trans hs) port rfl
    exact hkept _ cur hcur

/-! ## 4. The loop -/

theorem AtPass.next (h : AtPass mask mode b l) (port : Stm32Gpio) :
    AtPass mask mode (b + 1) { l.next with port := port } where
  bit := congrArg Nat.succ h.bit
  mask := by
    show l.mask >>> 1 = _
    rw [h.mask, BitVec.shiftRight_add]
  moder := field_next _ h.moder
  otyper := field_next _ h.otyper
  ospeedr := field_next _ h.ospeedr
  pupdr := field_next _ h.pupdr

end

/-- A state of the port while the pads of `mask` are given the mode `v`: one pad at most is on its
way, those below it have the mode, and those above it and all pads outside the mask have not
changed. -/
structure Transit (mask : BitVec 16) (v : PadMode) (port cur : Stm32Gpio) : Prop where
  other : ∀ p < 16, mask.getLsbD p = false → cur.pad p = port.pad p
  single : ∃ b, ∀ p < 16, mask.getLsbD p = true → (p < b → cur.pad p = v) ∧
    (p = b → Between (port.pad p) v (cur.pad p)) ∧ (b < p → cur.pad p = port.pad p)

theorem Transit.between {mask : BitVec 16} {v : PadMode} {port cur : Stm32Gpio}
    (h : Transit mask v port cur) {p : Nat} (hp : p < 16) (hmask : mask.getLsbD p = true) :
    Between (port.pad p) v (cur.pad p) := by
  obtain ⟨b, hb⟩ := h.single
  obtain ⟨hbelow, hat, habove⟩ := hb p hp hmask
  rcases Nat.lt_trichotomy p b with hlt | heq | hgt
  · rw [hbelow hlt]
    exact Between.new _ _
  · exact hat heq
  · rw [habove hgt]
    exact Between.old _ _

-- Between two passes.
theorem transit_configured {mask : BitVec 16} {v : PadMode} {port cur : Stm32Gpio} {b : Nat}
    (h : Configured (fun i => i < b ∧ mask.getLsbD i = true) v port cur) :
    Transit mask v port cur where
  other p hp hfalse :=
    h.pad_other hp fun hsel => Bool.false_ne_true (hfalse.symm.trans hsel.2)
  single := by
    have hkept : ∀ p < 16, ¬ p < b → cur.pad p = port.pad p :=
      fun p hp hge => h.pad_other hp fun hsel => hge hsel.1
    refine ⟨b, fun p hp hmask => ⟨fun hlt => h.pad_selected hp ⟨hlt, hmask⟩, fun heq => ?_,
      fun hgt => hkept p hp (by omega)⟩⟩
    rw [hkept p hp (by omega)]
    exact Between.old _ _

section

variable {mask : BitVec 16} {mode : BitVec 32} {b : Nat} {l : ModeLoop} {port : Stm32Gpio}

theorem pass_transit (h : AtPass mask mode b l) (hb : b < 16)
    (hl : Configured (fun i => i < b ∧ mask.getLsbD i = true) (modeOf mode) port l.port)
    {cur : Stm32Gpio} (hcur : cur ∈ Machine.visited Stm32Gpio.store l.port
      (if l.mask &&& 1 ≠ 0 then l.stores mode ((mode &&& gpioStm32AlternateMask) >>> 7) else [])) :
    Transit mask (modeOf mode) port cur := by
  have hkept : ∀ p < 16, ¬ (p < b ∧ mask.getLsbD p = true) → l.port.pad p = port.pad p :=
    fun p hp hsel => hl.pad_other hp hsel
  have hset : ∀ p < 16, p < b → mask.getLsbD p = true → l.port.pad p = modeOf mode :=
    fun p hp hlt hmask => hl.pad_selected hp ⟨hlt, hmask⟩
  by_cases hmask : mask.getLsbD b = true
  · rw [if_pos (h.tested.mpr hmask)] at hcur
    obtain ⟨hbetween, hstill⟩ := pass_between h hb hcur
    rw [hkept b hb fun hsel => Nat.lt_irrefl b hsel.1] at hbetween
    constructor
    · intro p hp hfalse
      have hne : p ≠ b := by
        rintro rfl
        exact Bool.false_ne_true (hfalse.symm.trans hmask)
      exact (hstill p hp hne).trans
        (hkept p hp fun hsel => Bool.false_ne_true (hfalse.symm.trans hsel.2))
    · refine ⟨b, fun p hp hp' => ⟨fun hlt => ?_, fun heq => heq ▸ hbetween, fun hgt => ?_⟩⟩
      · exact (hstill p hp (by omega)).trans (hset p hp hlt hp')
      · exact (hstill p hp (by omega)).trans (hkept p hp fun hsel => by omega)
  · rw [if_neg (mt h.tested.mp hmask)] at hcur
    rw [List.mem_singleton.mp hcur]
    exact transit_configured hl

theorem pass_stores (h : AtPass mask mode b l) (hb : b < 16)
    (hl : Configured (fun i => i < b ∧ mask.getLsbD i = true) (modeOf mode) port l.port) :
    Configured (fun i => i < b + 1 ∧ mask.getLsbD i = true) (modeOf mode) port
      ((if l.mask &&& 1 ≠ 0 then l.stores mode ((mode &&& gpioStm32AlternateMask) >>> 7)
        else []).foldl Stm32Gpio.store l.port) := by
  have hfold : (if l.mask &&& 1 ≠ 0 then l.stores mode ((mode &&& gpioStm32AlternateMask) >>> 7)
      else []).foldl Stm32Gpio.store l.port =
        if l.mask &&& 1 ≠ 0 then l.setPad mode ((mode &&& gpioStm32AlternateMask) >>> 7)
        else l.port := by
    split
    · exact stores_setPad _ _ l
    · rfl
  rw [hfold]
  refine (hl.trans (pass_configured h hb)).congr fun i => ?_
  constructor
  · rintro (⟨hlt, hi⟩ | ⟨rfl, hi⟩)
    · exact ⟨by omega, hi⟩
    · exact ⟨by omega, hi⟩
  · rintro ⟨hlt, hi⟩
    rcases Nat.lt_succ_iff_lt_or_eq.mp hlt with hlt | rfl
    · exact .inl ⟨hlt, hi⟩
    · exact .inr ⟨rfl, hi⟩

/-- From pass `b` on. -/
theorem allStores_transit (fuel : Nat) (h : AtPass mask mode b l) (hb : b < 16)
    (hl : Configured (fun i => i < b ∧ mask.getLsbD i = true) (modeOf mode) port l.port)
    {cur : Stm32Gpio} (hcur : cur ∈ Machine.visited Stm32Gpio.store l.port
      (l.allStores mode ((mode &&& gpioStm32AlternateMask) >>> 7) fuel)) :
    Transit mask (modeOf mode) port cur := by
  induction fuel generalizing b l with
  | zero =>
    rw [List.mem_singleton.mp hcur]
    exact transit_configured hl
  | succ fuel ih =>
    unfold ModeLoop.allStores at hcur
    rcases (Machine.visited_append ..).mp hcur with hpass | hrest
    · exact pass_transit h hb hl hpass
    · have hnext := pass_stores h hb hl
      by_cases hend : l.mask >>> 1 = 0
      · rw [if_pos hend] at hrest
        rw [List.mem_singleton.mp hrest]
        exact transit_configured hnext
      · rw [if_neg hend] at hrest
        rw [h.mask] at hend
        have hlist := allStores_port mode ((mode &&& gpioStm32AlternateMask) >>> 7) fuel l.next
          ((if l.mask &&& 1 ≠ 0 then l.stores mode ((mode &&& gpioStm32AlternateMask) >>> 7)
            else []).foldl Stm32Gpio.store l.port)
        rw [← hlist] at hrest
        exact ih (h.next _) (mask_left hend) hnext hrest

end

-- The whole function, from any port.
theorem setportmode_stores (mask : BitVec 16) (mode : BitVec 32) (port : Stm32Gpio) :
    Configured (fun i => mask.getLsbD i = true) (modeOf mode) port
        ((setportmodeStores mask mode).foldl Stm32Gpio.store port) ∧
      ∀ cur ∈ Machine.visited Stm32Gpio.store port (setportmodeStores mask mode),
        Transit mask (modeOf mode) port cur := by
  have hentry := atPass_entry port mask mode
  have hnone : Configured (fun i => i < 0 ∧ mask.getLsbD i = true) (modeOf mode) port port :=
    Configured.none fun i hi => absurd hi.1 (Nat.not_lt_zero i)
  have hstores : setportmodeStores mask mode = (ModeLoop.entry port mask mode).allStores mode
      ((mode &&& gpioStm32AlternateMask) >>> 7) 16 :=
    (allStores_port _ _ 16 (ModeLoop.entry ⟨0, 0, 0, 0, 0, 0⟩ mask mode) port).symm
  obtain ⟨port', hrun, hport'⟩ :=
    run_configured mask mode port 16 0 _ hentry (by decide) (by decide) hnone
  have hfold : ((ModeLoop.entry port mask mode).allStores mode
      ((mode &&& gpioStm32AlternateMask) >>> 7) 16).foldl Stm32Gpio.store port = port' :=
    allStores_run _ _ 16 _ hrun
  rw [hstores, hfold]
  exact ⟨hport', fun cur hcur => allStores_transit 16 hentry (by decide) hnone hcur⟩

/-- The stores of a mode setting are those of the function, and in every state between two of them
one pad at most is on its way, the pads of the mask below it have the mode, and all else is as it
was.  A pad on its way is switched after its type, speed and pull are set, and never has an
alternate function that neither its old mode nor its new one gives it. -/
theorem setportmode_transit (ports : Ports) (portid : BitVec 8) (mask : BitVec 16)
    (mode : BitVec 32) :
    (∀ fuel, 16 ≤ fuel → gpioLldSetportmode fuel portid mask mode ports = some (ports.set portid
        ((setportmodeStores mask mode).foldl Stm32Gpio.store (ports portid)))) ∧
      ∀ cur ∈ Machine.visited Stm32Gpio.store (ports portid) (setportmodeStores mask mode),
        Transit mask (modeOf mode) (ports portid) cur := by
  obtain ⟨hset, hbetween⟩ := setportmode_stores mask mode (ports portid)
  obtain ⟨port', hdone, hport'⟩ := setportmode_configured ports portid mode mask
  exact ⟨fun fuel hfuel => by rw [hdone fuel hfuel, hport'.unique hset], hbetween⟩

end NfceeFw.Gpio
