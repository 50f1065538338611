import NfceeFw.Gpio.Stores

/-!
# Board — `board.h` and `boardInit`

The pads of the board and the modes that `boardInit` gives them, one after the other, from registers
that hold anything.
-/

namespace NfceeFw.Gpio

open NfceeFw.Reasoning

/-! ## 1. Modes and pads -/

def gpioStm32OspeedHighest : BitVec 32 := 3#32 <<< 3

def gpioModeAlternate (n : BitVec 32) : BitVec 32 := gpioStm32ModeAlternate ||| n <<< 7
def gpioModeInput : BitVec 32 := 0
def gpioModeInputPullup : BitVec 32 := gpioModeInput ||| 1#32 <<< 5
def gpioModeInputPulldown : BitVec 32 := gpioModeInput ||| 2#32 <<< 5
def gpioModeOutputPushpull : BitVec 32 := 1#32 ||| 0#32 <<< 2

def gpioA (pad : BitVec 32) : BitVec 32 := declareGpio 0 pad
def gpioB (pad : BitVec 32) : BitVec 32 := declareGpio 1 pad
def gpioC (pad : BitVec 32) : BitVec 32 := declareGpio 2 pad
def gpioD (pad : BitVec 32) : BitVec 32 := declareGpio 3 pad

def gpioEn : BitVec 32 := gpioB 14
def gpioEn2 : BitVec 32 := gpioB 13
def gpioIo4 : BitVec 32 := gpioA 4

/-- The pads that `boardInit` configures, in its order, each with its mode. -/
def boardPads : List (BitVec 32 × BitVec 32) :=
  [(gpioEn, gpioModeOutputPushpull),
    (gpioEn2, gpioModeOutputPushpull),
    (gpioD 2, gpioModeInputPulldown), -- GPIO_IRQ
    (gpioA 1, gpioModeInputPullup), -- GPIO_MOD
    (gpioB 15, gpioModeOutputPushpull), -- GPIO_ASK_OOK
    (gpioC 11, gpioModeOutputPushpull), -- GPIO_IO0
    (gpioC 10, gpioModeOutputPushpull),
    (gpioC 9, gpioModeOutputPushpull),
    (gpioA 8, gpioModeInputPullup),
    (gpioIo4, gpioModeOutputPushpull ||| gpioStm32OspeedHighest),
    (gpioB 12, gpioModeInputPullup),
    (gpioB 4, gpioModeAlternate 5),
    (gpioB 5, gpioModeAlternate 5 ||| gpioStm32OspeedHighest), -- GPIO_IO7
    (gpioA 5, gpioModeAlternate 5 ||| gpioStm32OspeedHighest), -- GPIO_SPI1_SCK
    (gpioA 9, gpioModeAlternate 7 ||| gpioStm32OspeedHighest), -- GPIO_UART_TX
    (gpioA 10, gpioModeAlternate 7), -- GPIO_UART_RX
    (gpioA 11, gpioModeAlternate 10 ||| gpioStm32OspeedHighest), -- GPIO_OTG_FS_DM
    (gpioA 12, gpioModeAlternate 10 ||| gpioStm32OspeedHighest), -- GPIO_OTG_FS_DP
    (gpioB 6, gpioModeOutputPushpull), -- GPIO_LED0
    (gpioB 7, gpioModeOutputPushpull), -- GPIO_LED1
    (gpioB 8, gpioModeInput)] -- GPIO_BUTTON

/-! ## 2. All ports -/

/-- The modes of all pads, and the output data registers. -/
structure Pins where
  modes : Ports
  odr : BitVec 8 → BitVec 32

/-- A store to a half of BSRR, or to a mode register. -/
inductive PinStore where
  | set (portid : BitVec 8) (bits : BitVec 16)
  | clear (portid : BitVec 8) (bits : BitVec 16)
  | mode (portid : BitVec 8) (s : Store)

def Pins.store (x : Pins) : PinStore → Pins
  | .set id bits => { x with odr := Function.update x.odr id (x.odr id ||| bits.setWidth 32) }
  | .clear id bits => { x with odr := Function.update x.odr id (x.odr id &&& ~~~bits.setWidth 32) }
  | .mode id s => { x with modes := x.modes.set id ((x.modes id).store s) }

-- Where a pad is: its port and its number.
def padPort (gpio : BitVec 32) : BitVec 8 := (gpioPort gpio).setWidth 8

def padNumber (gpio : BitVec 32) : Nat := (gpioPad gpio).toNat

def padKey (gpio : BitVec 32) : BitVec 8 × Nat := (padPort gpio, padNumber gpio)

def padMask (gpio : BitVec 32) : BitVec 16 := (1#32 <<< padNumber gpio).setWidth 16

def gpioSetPad (gpio : BitVec 32) : PinStore := .set (padPort gpio) (padMask gpio)

def gpioClearPad (gpio : BitVec 32) : PinStore := .clear (padPort gpio) (padMask gpio)

/-- `CONFIGURE_PAD` -/
def configurePad (e : BitVec 32 × BitVec 32) : List PinStore :=
  (setportmodeStores (padMask e.1) e.2).map (.mode (padPort e.1))

/-- The stores of `boardInit` before the first mode setting, and those of the mode settings.  The
clocks, and the drivers that are started at the end, are not modelled. -/
def boardLevels : List PinStore := [gpioClearPad gpioEn, gpioClearPad gpioEn2, gpioSetPad gpioIo4]

def boardModes : List PinStore := boardPads.flatMap configurePad

def Pins.mode (x : Pins) (gpio : BitVec 32) : PadMode :=
  (x.modes (padPort gpio)).pad (padNumber gpio)

-- The level of a pad that is an output.
def Pins.level (x : Pins) (gpio : BitVec 32) : Bool :=
  (x.odr (padPort gpio)).getLsbD (padNumber gpio)

/-! ## 3. One pad -/

section

variable {x y : Pins} {e : BitVec 32 × BitVec 32}

theorem getLsbD_padMask {gpio : BitVec 32} (h : padNumber gpio < 16) (i : Nat) :
    (padMask gpio).getLsbD i = true ↔ i = padNumber gpio :=
  getLsbD_single h i

theorem configurePad_visited (hy : y ∈ Machine.visited Pins.store x (configurePad e)) :
    y.odr = x.odr ∧ (∀ id, id ≠ padPort e.1 → y.modes id = x.modes id) ∧
      y.modes (padPort e.1) ∈ Machine.visited Stm32Gpio.store (x.modes (padPort e.1))
        (setportmodeStores (padMask e.1) e.2) := by
  unfold configurePad at hy
  rw [Machine.visited_labels] at hy
  refine ⟨?_, fun id hid => ?_, ?_⟩
  · exact Machine.visited_invariant (fun x s => Pins.store x (.mode (padPort e.1) s))
      (I := fun y => y.odr = x.odr) (fun _ _ h => h) x rfl _ y hy
  · exact Machine.visited_invariant _ (I := fun y => y.modes id = x.modes id)
      (fun z s h => (if_neg hid).trans h) x rfl _ y hy
  · exact Machine.visited_map _ Stm32Gpio.store (fun x => x.modes (padPort e.1))
      (fun z s _ => if_pos rfl) hy

/-- While a pad is configured, no other one changes. -/
theorem configurePad_between (hpad : padNumber e.1 < 16)
    (hy : y ∈ Machine.visited Pins.store x (configurePad e)) :
    y.odr = x.odr ∧ Between (x.mode e.1) (modeOf e.2) (y.mode e.1) ∧
      ∀ id p, p < 16 → (id, p) ≠ padKey e.1 →
        (y.modes id).pad p = (x.modes id).pad p := by
  obtain ⟨hodr, hother, hvisited⟩ := configurePad_visited hy
  have htransit := (setportmode_stores (padMask e.1) e.2 (x.modes (padPort e.1))).2 _ hvisited
  refine ⟨hodr, htransit.between hpad ((getLsbD_padMask hpad _).mpr rfl), fun id p hp hne => ?_⟩
  by_cases hid : id = padPort e.1
  · subst hid
    apply htransit.other p hp
    rw [← Bool.not_eq_true, getLsbD_padMask hpad]
    rintro rfl
    exact hne rfl
  · rw [hother id hid]

theorem foldl_modes (id : BitVec 8) (ss : List Store) (x : Pins) :
    (ss.foldl (fun x s => x.store (.mode id s)) x).modes id =
      ss.foldl Stm32Gpio.store (x.modes id) := by
  induction ss generalizing x with
  | nil => rfl
  | cons s ss ih =>
    rw [List.foldl_cons, ih, List.foldl_cons]
    exact congrArg (fun port => ss.foldl Stm32Gpio.store port) (if_pos rfl)

theorem configurePad_mode (hpad : padNumber e.1 < 16) (x : Pins) :
    ((configurePad e).foldl Pins.store x).mode e.1 = modeOf e.2 := by
  have hset := (setportmode_stores (padMask e.1) e.2 (x.modes (padPort e.1))).1
  unfold configurePad Pins.mode
  rw [List.foldl_map, foldl_modes]
  exact hset.pad_selected hpad ((getLsbD_padMask hpad _).mpr rfl)

/-! ## 4. Any table -/

-- No two entries name the same pad, and every pad is one of the sixteen of its port.
structure Distinct (table : List (BitVec 32 × BitVec 32)) : Prop where
  number : ∀ e ∈ table, padNumber e.1 < 16
  apart : (table.map fun e => padKey e.1).Nodup

-- The entries are tested one by one: a pair of words is also a finite type.
theorem distinct_iff (table : List (BitVec 32 × BitVec 32)) :
    (table.all fun e => decide (padNumber e.1 < 16)) = true ∧
      (table.map fun e => padKey e.1).Nodup ↔ Distinct table := by
  rw [List.all_eq_true]
  constructor
  · rintro ⟨hnumber, hapart⟩
    exact ⟨fun e he => of_decide_eq_true (hnumber e he), hapart⟩
  · intro h
    exact ⟨fun e he => decide_eq_true (h.number e he), h.apart⟩

instance (table : List (BitVec 32 × BitVec 32)) : Decidable (Distinct table) :=
  decidable_of_iff _ (distinct_iff table)

/-- A state on the way from `x`, where the pads of the table get their modes. -/
structure OnTheWay (table : List (BitVec 32 × BitVec 32)) (x y : Pins) : Prop where
  odr : y.odr = x.odr
  between : ∀ e ∈ table, Between (x.mode e.1) (modeOf e.2) (y.mode e.1)
  other : ∀ id p, p < 16 → (id, p) ∉ table.map (fun e => padKey e.1) →
    (y.modes id).pad p = (x.modes id).pad p

variable {es : List (BitVec 32 × BitVec 32)}

-- The pads of the table that are not touched by one of its entries.
theorem configurePad_apart (hpad : padNumber e.1 < 16)
    (happart : padKey e.1 ∉ es.map fun e => padKey e.1)
    (hes : ∀ e ∈ es, padNumber e.1 < 16)
    (hy : y ∈ Machine.visited Pins.store x (configurePad e)) :
    ∀ e' ∈ es, y.mode e'.1 = x.mode e'.1 := by
  intro e' he'
  have hne : padKey e'.1 ≠ padKey e.1 := fun heq =>
    happart (heq ▸ List.mem_map_of_mem he')
  exact (configurePad_between hpad hy).2.2 (padPort e'.1) (padNumber e'.1) (hes e' he') hne

/-- The pads of a table, configured one after the other. -/
theorem configurePads (table : List (BitVec 32 × BitVec 32)) (h : Distinct table) (x : Pins) :
    (∀ e ∈ table, ((table.flatMap configurePad).foldl Pins.store x).mode e.1 = modeOf e.2) ∧
      ∀ y ∈ Machine.visited Pins.store x (table.flatMap configurePad), OnTheWay table x y := by
  induction table generalizing x with
  | nil =>
    refine ⟨List.forall_mem_nil _, fun y hy => ?_⟩
    rw [List.mem_singleton.mp hy]
    exact ⟨rfl, List.forall_mem_nil _, fun _ _ _ _ => rfl⟩
  | cons e es ih =>
    obtain ⟨hpad, hes⟩ := List.forall_mem_cons.mp h.number
    obtain ⟨hnew, hnodup⟩ := List.nodup_cons.mp h.apart
    have hlast := Machine.visited_last Pins.store x (configurePad e)
    have hfirst := configurePad_mode hpad x
    obtain ⟨hodr, -, hothers⟩ := configurePad_between hpad hlast
    have hapart := configurePad_apart hpad hnew hes hlast
    obtain ⟨hmodes, hway⟩ := ih ⟨hes, hnodup⟩ ((configurePad e).foldl Pins.store x)
    have hkept : ∀ y ∈ Machine.visited Pins.store ((configurePad e).foldl Pins.store x)
        (es.flatMap configurePad), y.mode e.1 = modeOf e.2 :=
      fun y hy => ((hway y hy).other _ _ hpad hnew).trans hfirst
    rw [List.flatMap_cons, List.foldl_append]
    refine ⟨List.forall_mem_cons.mpr ⟨hkept _ (Machine.visited_last ..), hmodes⟩, fun y hy => ?_⟩
    rcases (Machine.visited_append ..).mp hy with hy | hy
    · obtain ⟨hodr', hbetween, hothers'⟩ := configurePad_between hpad hy
      have hapart' := configurePad_apart hpad hnew hes hy
      refine ⟨hodr', List.forall_mem_cons.mpr ⟨hbetween, fun e' he' => ?_⟩, fun id p hp hnot => ?_⟩
      · rw [hapart' e' he']
        exact Between.old _ _
      · exact hothers' id p hp fun heq => hnot (heq ▸ List.mem_cons_self ..)
    · have hy' := hway y hy
      refine ⟨hy'.odr.trans hodr, List.forall_mem_cons.mpr ⟨?_, fun e' he' => ?_⟩,
        fun id p hp hnot => ?_⟩
      · rw [hkept y hy]
        exact Between.new _ _
      · rw [← hapart e' he']
        exact hy'.between e' he'
      · obtain ⟨hne, hnot⟩ := List.ne_and_not_mem_of_not_mem_cons hnot
        exact (hy'.other id p hp hnot).trans (hothers id p hp hne)

end

/-! ## 5. Levels -/

section

variable {g g' : BitVec 32}

theorem getLsbD_padMask_wide (hg' : padNumber g' < 16) {i : Nat} (hi : i < 16) :
    ((padMask g').setWidth 32).getLsbD i = decide (i = padNumber g') := by
  rw [BitVec.getLsbD_setWidth, decide_eq_true (show i < 32 by omega), Bool.true_and,
    Bool.eq_iff_iff, getLsbD_padMask hg', decide_eq_true_iff]

/-- A store to BSRR sets or clears the pad that it names, and no other one. -/
theorem level_setPad (x : Pins) (hg : padNumber g < 16) (hg' : padNumber g' < 16) :
    (x.store (gpioSetPad g')).level g = if padKey g = padKey g' then true else x.level g := by
  show (Function.update x.odr (padPort g')
    (x.odr (padPort g') ||| (padMask g').setWidth 32) (padPort g)).getLsbD (padNumber g) = _
  by_cases hport : padPort g = padPort g'
  · rw [hport, Function.update_self, BitVec.getLsbD_or, getLsbD_padMask_wide hg' hg, ← hport]
    by_cases hnumber : padNumber g = padNumber g'
    · rw [if_pos (Prod.ext hport hnumber), decide_eq_true hnumber, Bool.or_true]
    · rw [if_neg fun heq => hnumber (congrArg Prod.snd heq), decide_eq_false hnumber, Bool.or_false]
      rfl
  · rw [Function.update_of_ne hport, if_neg fun heq => hport (congrArg Prod.fst heq)]
    rfl

theorem level_clearPad (x : Pins) (hg : padNumber g < 16) (hg' : padNumber g' < 16) :
    (x.store (gpioClearPad g')).level g = if padKey g = padKey g' then false else x.level g := by
  show (Function.update x.odr (padPort g')
    (x.odr (padPort g') &&& ~~~(padMask g').setWidth 32) (padPort g)).getLsbD (padNumber g) = _
  by_cases hport : padPort g = padPort g'
  · rw [hport, Function.update_self, BitVec.getLsbD_and, BitVec.getLsbD_not,
      getLsbD_padMask_wide hg' hg, decide_eq_true (show padNumber g < 32 by omega), Bool.true_and,
      ← hport]
    by_cases hnumber : padNumber g = padNumber g'
    · rw [if_pos (Prod.ext hport hnumber), decide_eq_true hnumber, Bool.not_true, Bool.and_false]
    · rw [if_neg fun heq => hnumber (congrArg Prod.snd heq), decide_eq_false hnumber,
        Bool.not_false, Bool.and_true]
      rfl
  · rw [Function.update_of_ne hport, if_neg fun heq => hport (congrArg Prod.fst heq)]
    rfl

end

-- EN and EN2 low, the chip select high.
theorem boardLevels_level (x : Pins) :
    (boardLevels.foldl Pins.store x).level gpioEn = false ∧
      (boardLevels.foldl Pins.store x).level gpioEn2 = false ∧
      (boardLevels.foldl Pins.store x).level gpioIo4 = true := by
  have hen : padNumber gpioEn < 16 := by decide
  have hen2 : padNumber gpioEn2 < 16 := by decide
  have hio4 : padNumber gpioIo4 < 16 := by decide
  show (((x.store (gpioClearPad gpioEn)).store (gpioClearPad gpioEn2)).store
      (gpioSetPad gpioIo4)).level gpioEn = false ∧
    (((x.store (gpioClearPad gpioEn)).store (gpioClearPad gpioEn2)).store
      (gpioSetPad gpioIo4)).level gpioEn2 = false ∧
    (((x.store (gpioClearPad gpioEn)).store (gpioClearPad gpioEn2)).store
      (gpioSetPad gpioIo4)).level gpioIo4 = true
  refine ⟨?_, ?_, ?_⟩
  · rw [level_setPad _ hen hio4, if_neg (by decide), level_clearPad _ hen hen2,
      if_neg (by decide), level_clearPad _ hen hen, if_pos rfl]
  · rw [level_setPad _ hen2 hio4, if_neg (by decide), level_clearPad _ hen2 hen2, if_pos rfl]
  · rw [level_setPad _ hio4 hio4, if_pos rfl]

/-! ## 6. `boardInit` -/

/-- From any registers: every pad of the board ends in its mode and every other pad in the one that
it had.  All the way, EN and EN2 are low and the chip select is high, and each pad is between its
old mode and its new one. -/
theorem boardInit_pads (x : Pins) :
    let levels := boardLevels.foldl Pins.store x
    (∀ e ∈ boardPads, (boardModes.foldl Pins.store levels).mode e.1 = modeOf e.2) ∧
      ∀ y ∈ Machine.visited Pins.store levels boardModes,
        y.level gpioEn = false ∧ y.level gpioEn2 = false ∧ y.level gpioIo4 = true ∧
        (∀ e ∈ boardPads, Between (x.mode e.1) (modeOf e.2) (y.mode e.1)) ∧
        ∀ id p, p < 16 → (∀ e ∈ boardPads, padPort e.1 = id → padNumber e.1 ≠ p) →
          (y.modes id).pad p = (x.modes id).pad p := by
  intro levels
  have hdistinct : Distinct boardPads := by decide +kernel
  obtain ⟨hmodes, hway⟩ := configurePads boardPads hdistinct levels
  refine ⟨hmodes, fun y hy => ?_⟩
  have hy' := hway y hy
  have hlevel : ∀ gpio, y.level gpio = levels.level gpio :=
    fun gpio => congrArg (fun odr => (odr (padPort gpio)).getLsbD (padNumber gpio)) hy'.odr
  rw [hlevel, hlevel, hlevel]
  obtain ⟨hen, hen2, hio4⟩ := boardLevels_level x
  refine ⟨hen, hen2, hio4, hy'.between, fun id p hp hnot => hy'.other id p hp fun hmem => ?_⟩
  obtain ⟨e, he, hkey⟩ := List.mem_map.mp hmem
  exact hnot e he (congrArg Prod.fst hkey) (congrArg Prod.snd hkey)

end NfceeFw.Gpio
