import Mathlib.Data.List.ReduceOption
import NfceeFw.Reasoning.Text
import NfceeFw.Trf797x.Visits

/-!
# NfcThread — the demonstration thread of `nfc.c`

The thread opens the driver, writes the identifier of the tag it has found to the trace, closes the
driver and sleeps, for ever.  `Trf797x.World` gives it the tags that come and go.
-/

namespace NfceeFw.App

open NfceeFw.Reasoning NfceeFw.Nfc NfceeFw.Trf797x

/-! ## 1. The thread -/

/-- What the thread does outside the NFC stack. -/
inductive Event where
  | led1 (on : Bool)
  | trace (text : List Char)
  | sleep (ms : Nat)
  deriving DecidableEq, Repr

/-- All that comes from outside in one turn of the loop: the tags that come and go before `nfc_open`
and after it, and what `nfc_open` itself reads. -/
structure Turn where
  before : List (Option Tag)
  probe : UInt8
  k : OpenStack
  after : List (Option Tag)

structure NfcThread where
  led : Bool
  world : World
  events : List Event

-- What a byte looks like under the conversion `%02X` of `chprintf`.
variable (printX : UInt8 → List Char)

-- The calls of `trace`; that they print nothing while the USB is not active is not modelled.
def traceNfcid (id : Nfcid) : List Event :=
  .trace "\nNFC_ID = ".toList ::
    (id.data.read 0 id.len.toNat).map fun b => .trace (printX b)

def passing (w : World) (tags : List (Option Tag)) : World :=
  { w with field := tags.foldl Field.enter w.field }

namespace NfcThread

-- The driver structure is on the stack of the thread.
def start (d : Driver) (regs : Registers) : NfcThread := ⟨true, World.start d regs, []⟩

section

variable (conf : Trf797xConf) (loss : Nat → Loss)

/-- One turn of the loop; `none` if `nfc_open` has not returned after `fuel` exchanges. -/
def turn (fuel : Nat) (th : NfcThread) (e : Turn) : Option NfcThread :=
  ((passing th.world e.before).step conf loss fuel (.open_ e.probe e.k)).bind fun w =>
    let opened := w.life.stack.driver
    if lastOpened w.life.returns then
      let printed := if opened.tech = .rf14443a ∨ opened.tech = .rf14443b then
        traceNfcid printX opened.nfcid else []
      ((passing w e.after).step conf loss fuel .close).map fun v =>
        ⟨!th.led, v, th.events ++ .led1 th.led :: (printed ++ [.sleep 150])⟩
    else some ⟨!th.led, passing w e.after, th.events ++ [.led1 th.led, .sleep 500]⟩

/-- Turns that all end, with the frames that each has made, latest first. -/
def Runs : NfcThread → List Turn → List (List (List UInt8 × Loss)) → NfcThread → Prop
  | th, [], [], th' => th' = th
  | th, e :: es, made :: mades, th' => ∃ fuel v, turn printX conf loss fuel th e = some v ∧
      v.world.field.log = made ++ th.world.field.log ∧ Runs v es mades th'
  | _, [], _ :: _, _ | _, _ :: _, [], _ => False

end

end NfcThread

/-! ## 2. What the thread is for -/

-- The tag in the field after some have come and gone.
def tagAfter (tag : Option Tag) (tags : List (Option Tag)) : Option Tag := tags.getLastD tag

/-- The identifier that a turn reports: the chip answered its probe, a tag that can be opened was
there, and no frame of the activation was lost. -/
def report (conf : Trf797xConf) (tag : Option Tag) (e : Turn) (made : List (List UInt8 × Loss)) :
    Option (List UInt8) :=
  if e.probe = modSysClk conf ∧ ∀ x ∈ made, x.2 = .nothing then
    (tagAfter tag e.before).bind fun t => if t.Openable then some t.id.uid else none
  else none

/-- The reports of some turns, with the frames of each. -/
def reports (conf : Trf797xConf) (tag : Option Tag) :
    List Turn → List (List (List UInt8 × Loss)) → List (Option (List UInt8))
  | e :: es, made :: mades =>
    report conf tag e made ::
      reports conf (tagAfter (tagAfter tag e.before) e.after) es mades
  | _, _ => []

-- The text of an identifier.
def nfcidText (uid : List UInt8) : List Char := "NFC_ID = ".toList ++ uid.flatMap hexDigits

def traceUid (uid : List UInt8) : List Event :=
  .trace "\nNFC_ID = ".toList :: uid.map fun b => .trace (hexDigits b)

/-- A blink and a report for each turn. -/
def polls : Bool → List (Option (List UInt8)) → List Event
  | _, [] => []
  | led, some uid :: rest => .led1 led :: (traceUid uid ++ .sleep 150 :: polls (!led) rest)
  | led, none :: rest => .led1 led :: .sleep 500 :: polls (!led) rest

def Event.text : Event → List Char
  | .trace text => text
  | .led1 _ | .sleep _ => []

-- A reader of the trace.
def readNfcid (line : List Char) : Option (List UInt8) :=
  if line.take 9 = "NFC_ID = ".toList then readHex (line.drop 9) else none

def readTrace (events : List Event) : List (Option (List UInt8)) :=
  (linesOf (events.flatMap Event.text)).map readNfcid

/-! ## 3. Reading the trace -/

theorem traceUid_text (uid : List UInt8) :
    (traceUid uid).flatMap Event.text = '\n' :: nfcidText uid := by
  unfold traceUid nfcidText
  rw [List.flatMap_cons, List.flatMap_map]
  rfl

theorem polls_text (led : Bool) (rs : List (Option (List UInt8))) :
    (polls led rs).flatMap Event.text =
      (rs.reduceOption.map nfcidText).flatMap ('\n' :: ·) := by
  induction rs generalizing led with
  | nil => rfl
  | cons r rs ih =>
    cases r with
    | none => exact ih (!led)
    | some uid =>
      show ((traceUid uid) ++ .sleep 150 :: polls (!led) rs).flatMap Event.text = _
      rw [List.flatMap_append, traceUid_text, List.flatMap_cons, ih, List.reduceOption_cons_of_some,
        List.map_cons, List.flatMap_cons]
      rfl

theorem readNfcid_text (uid : List UInt8) : readNfcid (nfcidText uid) = some uid := by
  have hmark : (nfcidText uid).take 9 = "NFC_ID = ".toList := rfl
  unfold readNfcid
  rw [if_pos hmark]
  exact readHex_bytes uid

/-- A reader of the trace finds the identifiers that were reported, in order. -/
theorem readTrace_polls (led : Bool) (rs : List (Option (List UInt8))) :
    readTrace (polls led rs) = rs.reduceOption.map some := by
  have hlines : ∀ l ∈ rs.reduceOption.map nfcidText, '\n' ∉ l := by
    intro l hl
    obtain ⟨uid, -, rfl⟩ := List.mem_map.mp hl
    intro hmem
    rcases List.mem_append.mp hmem with hmark | hhex
    · exact absurd hmark (by decide)
    · exact newline_not_hex uid hhex
  unfold readTrace
  rw [polls_text, linesOf_flatMap hlines, List.map_map]
  exact List.map_congr_left fun uid _ => readNfcid_text uid

/-! ## 4. One turn -/

section

variable {conf : Trf797xConf} {loss : Nat → Loss}

-- `nfc_open` gets past `dev->open` exactly if the chip answers the probe.
theorem powerOn_refused {s : Stack} {probe : UInt8} (hprobe : probe ≠ modSysClk conf)
    (hoff : s.driver.state = .powerOff) : (s.powerOn conf probe).1 = -enodev := by
  have hstart : trf797xStart conf probe s.device =
      (-enodev, { s.device with regs := s.device.regs.write (trf797xInitialize conf) }) := by
    unfold trf797xStart
    rw [bne_iff_ne.mpr hprobe]
    rfl
  unfold Stack.powerOn nfcDeviceOpen
  rw [if_pos hoff, hstart]
  rfl

/-- An `nfc_open` on a driver that is off returns, and what it returns. -/
theorem openRun_returns {s : Stack} (probe : UInt8) (k : OpenStack) (loss : Nat → Loss) {f : Field}
    (htech : s.driver.tech = .rf14443a) (hoff : s.driver.state = .powerOff)
    (hidle : f.state = .idle) :
    ∃ n r f' made, (nfcIso14443Open k).play (field loss) n (s.openRun conf probe k) f =
        (.done r, f') ∧ f'.log = made ++ f.log ∧
      (r.ret = 0 ↔ probe = modSysClk conf ∧ (∀ x ∈ made, x.2 = .nothing) ∧
        ∃ t, f.tag = some t ∧ t.Openable) := by
  by_cases hprobe : probe = modSysClk conf
  · subst hprobe
    obtain ⟨u, hpower, hdriver⟩ := powerOn_ready conf s hoff
    have hrun : s.openRun conf (modSysClk conf) k = (openStart k u.driver).map Opened.settle := by
      unfold Stack.openRun
      rw [htech, hpower]
      dsimp only
      rw [hdriver]
      rfl
    obtain ⟨n, r, f', made, hplay, hmade, hiff, -⟩ :=
      selection k u.driver loss hidle (by rw [hdriver]; rfl)
    refine ⟨n, r.settle, f', made, ?_, hmade, hiff.trans (and_iff_right rfl).symm⟩
    rw [hrun]
    show ((nfcIso14443aOpen k).map Opened.settle).play _ n _ _ = _
    rw [Program.play_map, hplay]
    rfl
  · have hpower := powerOn_refused hprobe hoff
    have hrun : s.openRun conf probe k =
        .done ⟨-enodev, OpenLocals.entry k (s.powerOn conf probe).2.driver⟩ := by
      unfold Stack.openRun
      rw [htech]
      dsimp only
      rw [hpower]
      rfl
    have hne : (-enodev : Int) ≠ 0 := by decide
    exact ⟨0, _, f, [], by rw [hrun]; rfl, rfl, iff_of_false hne fun h => hprobe h.1⟩

theorem passing_log (w : World) (tags : List (Option Tag)) :
    (passing w tags).field.log = w.field.log := by
  show (tags.foldl Field.enter w.field).log = w.field.log
  generalize w.field = f
  induction tags generalizing f with
  | nil => rfl
  | cons tag tags ih => exact ih (f.enter tag)

theorem passing_tag (w : World) (tags : List (Option Tag)) :
    (passing w tags).field.tag = tagAfter w.field.tag tags := by
  show (tags.foldl Field.enter w.field).tag = tags.getLastD w.field.tag
  generalize w.field = f
  induction tags generalizing f with
  | nil => rfl
  | cons tag tags ih =>
    rw [List.foldl_cons, ih, List.getLastD_cons]
    rfl

/-- Between two turns. -/
structure Ready (th : NfcThread) : Prop where
  lives : Lives th.world.life
  off : th.world.life.stack.driver.state = .powerOff

theorem ready_start (d : Driver) {regs : Registers}
    (hrf : regs regChipStatus &&& chipStatusRfOn = 0) : Ready (NfcThread.start d regs) :=
  ⟨lives_start d hrf, rfl⟩

/-- The `nfc_open` of a turn has returned. -/
structure OpenEnded (conf : Trf797xConf) (w : World) (probe : UInt8) (w' : World)
    (made : List (List UInt8 × Loss)) : Prop where
  lives : Lives w'.life
  log : w'.field.log = made ++ w.field.log
  tag : w'.field.tag = w.field.tag
  success : lastOpened w'.life.returns = true ↔ probe = modSysClk conf ∧
    (∀ x ∈ made, x.2 = .nothing) ∧ ∃ t, w.field.tag = some t ∧ t.Openable
  uid : lastOpened w'.life.returns = true → ∃ t, w.field.tag = some t ∧
    Activated t w'.life.stack.driver w'.field.state

theorem open_opened (conf : Trf797xConf) (loss : Nat → Loss) {w : World} (probe : UInt8)
    (k : OpenStack) (h : Lives w.life) (hoff : w.life.stack.driver.state = .powerOff) :
    (∃ fuel w', w.step conf loss fuel (.open_ probe k) = some w') ∧
    ∀ fuel w', w.step conf loss fuel (.open_ probe k) = some w' →
      ∃ made, OpenEnded conf w probe w' made := by
  have hfield : w.openField = w.field.reset := if_pos hoff
  obtain ⟨n, r, f', made, hplay, hmade, hiff⟩ :=
    openRun_returns (f := w.openField) probe k loss h.tech hoff (by rw [hfield]; rfl)
  constructor
  · refine ⟨n, ?_⟩
    unfold World.step
    dsimp only
    rw [hplay]
    exact ⟨_, rfl⟩
  · intro fuel w' hstep
    obtain ⟨r', t, hplay', hlife, -, hzero⟩ := step_open_off h hoff hstep
    obtain ⟨hr, hf⟩ := Program.play_unique _ _ hplay hplay'
    subst hr hf
    have htag := play_tag (nfcIso14443Open k) loss n (w.life.stack.openRun conf probe k) w.openField
    have hlast : lastOpened w'.life.returns = true ↔ r.ret = 0 := by
      rw [hlife]
      exact beq_iff_eq
    rw [hplay, hfield] at htag
    rw [hfield] at hmade hiff hzero
    have hlives : Lives w'.life := by
      obtain ⟨-, -, hlife', -⟩ := step_open hstep
      exact hlife' ▸ lives_step h _
    refine ⟨made, hlives, hmade, htag, hlast.trans hiff, fun hsuccess => ?_⟩
    obtain ⟨tag, hfound, -, hactivated⟩ := hzero (hlast.mp hsuccess)
    rw [hlife]
    exact ⟨tag, hfound, hactivated⟩

-- It prints the identifier that the activation found.
theorem traceNfcid_activated (hprint : ∀ b, printX b = hexDigits b) {t : Tag} {d : Driver}
    {state : TagState} (h : Activated t d state) :
    traceNfcid printX d.nfcid = traceUid t.id.uid := by
  obtain rfl : printX = hexDigits := funext hprint
  unfold traceNfcid traceUid
  rw [h.len, h.uid]

/-- What a turn leaves. -/
structure TurnEnded (conf : Trf797xConf) (th : NfcThread) (e : Turn) (th' : NfcThread)
    (made : List (List UInt8 × Loss)) : Prop where
  ready : Ready th'
  led : th'.led = !th.led
  log : th'.world.field.log = made ++ th.world.field.log
  tag : th'.world.field.tag = tagAfter (tagAfter th.world.field.tag e.before) e.after
  events : th'.events = th.events ++ polls th.led [report conf th.world.field.tag e made]

section

variable {th : NfcThread} {e : Turn} {w : World} {made : List (List UInt8 × Loss)}

theorem report_opened (hopen : OpenEnded conf (passing th.world e.before) e.probe w made)
    {t : Tag} (htag : (passing th.world e.before).field.tag = some t)
    (hsuccess : lastOpened w.life.returns = true) :
    report conf th.world.field.tag e made = some t.id.uid := by
  obtain ⟨hprobe, hnothing, t', htag', hopenable⟩ := hopen.success.mp hsuccess
  cases htag.symm.trans htag'
  rw [passing_tag] at htag
  unfold report
  rw [if_pos ⟨hprobe, hnothing⟩, htag, Option.bind_some, if_pos hopenable]

theorem report_failed (hopen : OpenEnded conf (passing th.world e.before) e.probe w made)
    (hfailed : lastOpened w.life.returns = false) :
    report conf th.world.field.tag e made = none := by
  have hnot : ¬ lastOpened w.life.returns = true := Bool.eq_false_iff.mp hfailed
  rw [hopen.success, passing_tag] at hnot
  unfold report
  split
  · rename_i hmade
    cases htag : tagAfter th.world.field.tag e.before with
    | none => rfl
    | some t =>
      rw [Option.bind_some, if_neg fun hopenable => hnot ⟨hmade.1, hmade.2, t, htag, hopenable⟩]
  · rfl

/-- A turn from `nfc_open` on. -/
theorem turn_rest (hprint : ∀ b, printX b = hexDigits b)
    (hopen : OpenEnded conf (passing th.world e.before) e.probe w made) {fuel : Nat}
    (hstep : (passing th.world e.before).step conf loss fuel (.open_ e.probe e.k) = some w) :
    ∃ th', th.turn printX conf loss fuel e = some th' ∧ TurnEnded conf th e th' made := by
  have hpassed : Lives (passing w e.after).life := hopen.lives
  have htag : (passing w e.after).field.tag =
      tagAfter (tagAfter th.world.field.tag e.before) e.after := by
    rw [passing_tag, hopen.tag, passing_tag]
  have hlog : (passing w e.after).field.log = made ++ th.world.field.log := by
    rw [passing_log, hopen.log, passing_log]
  unfold NfcThread.turn
  rw [hstep, Option.bind_some]
  dsimp only
  cases hlast : lastOpened w.life.returns with
  | true =>
    obtain ⟨t, hfound, hactivated⟩ := hopen.uid hlast
    obtain ⟨v, hclose, hlives, hoff, hfield⟩ := close_off conf loss hpassed
    have hclose' : (passing w e.after).step conf loss fuel .close = some v := hclose
    rw [if_pos rfl, hclose', if_pos (.inl hopen.lives.tech),
      traceNfcid_activated printX hprint hactivated]
    refine ⟨_, rfl, ⟨hlives, hoff⟩, rfl, hfield ▸ hlog, hfield ▸ htag, ?_⟩
    rw [report_opened hopen hfound hlast]
    rfl
  | false =>
    rw [if_neg Bool.false_ne_true]
    refine ⟨_, rfl, ⟨hpassed, hopen.lives.off_iff.mpr hlast⟩, rfl, hlog, htag, ?_⟩
    rw [report_failed hopen hlast]
    rfl

end

/-- A turn ends, blinks and reports. -/
theorem turn_ends (hprint : ∀ b, printX b = hexDigits b) (conf : Trf797xConf)
    (loss : Nat → Loss) {th : NfcThread} (h : Ready th) (e : Turn) :
    (∃ fuel th', th.turn printX conf loss fuel e = some th') ∧
    ∀ fuel th', th.turn printX conf loss fuel e = some th' →
      ∃ made, TurnEnded conf th e th' made := by
  have hpassed : Lives (passing th.world e.before).life := h.lives
  obtain ⟨⟨fuel, w, hstep⟩, hopens⟩ := open_opened conf loss e.probe e.k hpassed h.off
  constructor
  · obtain ⟨made, hopen⟩ := hopens fuel w hstep
    obtain ⟨th', hturn, -⟩ := turn_rest printX hprint hopen hstep
    exact ⟨fuel, th', hturn⟩
  · intro fuel' th' hturn
    obtain ⟨w', hstep', -⟩ := Option.bind_eq_some_iff.mp hturn
    obtain ⟨made, hopen⟩ := hopens fuel' w' hstep'
    obtain ⟨th'', hturn', hended⟩ := turn_rest printX hprint hopen hstep'
    cases hturn.symm.trans hturn'
    exact ⟨made, hended⟩

/-! ## 5. Any number of turns -/

theorem polls_append (led : Bool) (r : Option (List UInt8)) (rs : List (Option (List UInt8))) :
    polls led (r :: rs) = polls led [r] ++ polls (!led) rs := by
  cases r with
  | none => rfl
  | some uid =>
    show _ :: (traceUid uid ++ _ :: polls (!led) rs) = (_ :: (traceUid uid ++ [_])) ++ _
    simp

theorem runs_end (hprint : ∀ b, printX b = hexDigits b) {th : NfcThread} (h : Ready th)
    (es : List Turn) : ∃ mades th', th.Runs printX conf loss es mades th' := by
  induction es generalizing th with
  | nil => exact ⟨[], th, rfl⟩
  | cons e es ih =>
    obtain ⟨⟨fuel, v, hturn⟩, hends⟩ := turn_ends printX hprint conf loss h e
    obtain ⟨made, hended⟩ := hends fuel v hturn
    obtain ⟨mades, th', hruns⟩ := ih hended.ready
    exact ⟨made :: mades, th', fuel, v, hturn, hended.log, hruns⟩

theorem runs_polls (hprint : ∀ b, printX b = hexDigits b) {th th' : NfcThread} {es : List Turn}
    {mades : List (List (List UInt8 × Loss))} (h : Ready th)
    (hruns : th.Runs printX conf loss es mades th') :
    Ready th' ∧
      th'.events = th.events ++ polls th.led (reports conf th.world.field.tag es mades) := by
  induction es generalizing th mades with
  | nil =>
    cases mades with
    | cons made mades => exact hruns.elim
    | nil =>
      cases hruns
      exact ⟨h, (List.append_nil _).symm⟩
  | cons e es ih =>
    cases mades with
    | nil => exact hruns.elim
    | cons made mades =>
      obtain ⟨fuel, v, hturn, hlog, hrest⟩ := hruns
      obtain ⟨made', hended⟩ := (turn_ends printX hprint conf loss h e).2 fuel v hturn
      obtain rfl : made = made' := List.append_cancel_right (hlog.symm.trans hended.log)
      obtain ⟨hready, hevents⟩ := ih hended.ready hrest
      refine ⟨hready, ?_⟩
      show _ = _ ++ polls th.led (_ :: reports conf _ es mades)
      rw [polls_append, hevents, hended.events, hended.led, hended.tag, List.append_assoc]

end

/-- However tags come and go, and whatever is lost: every turn of the thread ends, with the driver
and the RF off; LED1 alternates; and if `%02X` prints two digits, the trace reads back as the
identifiers of the tags that the turns have found, in order. -/
theorem nfcThread_reports (hprint : ∀ b, printX b = hexDigits b) (conf : Trf797xConf)
    (loss : Nat → Loss) (d : Driver) (regs : Registers)
    (hrf : regs regChipStatus &&& chipStatusRfOn = 0) (es : List Turn) :
    (∃ mades th, (NfcThread.start d regs).Runs printX conf loss es mades th) ∧
    ∀ mades th, (NfcThread.start d regs).Runs printX conf loss es mades th →
      th.world.life.stack.driver.state = .powerOff ∧ th.world.life.stack.device.rfOn = false ∧
      th.events = polls true (reports conf none es mades) ∧
      readTrace th.events = (reports conf none es mades).reduceOption.map some := by
  refine ⟨runs_end printX hprint (ready_start d hrf) es, fun mades th hruns => ?_⟩
  obtain ⟨hready, hevents⟩ := runs_polls printX hprint (ready_start d hrf) hruns
  have hpolls : th.events = polls true (reports conf none es mades) := hevents
  refine ⟨hready.off, ?_, hpolls, ?_⟩
  · rw [← Bool.not_eq_true, hready.lives.rf, hready.off]
    exact nofun
  · rw [hpolls, readTrace_polls]

theorem foldlM_runs (hprint : ∀ b, printX b = hexDigits b) {conf : Trf797xConf}
    {loss : Nat → Loss} {fuel : Nat} {th th' : NfcThread} {es : List Turn} (h : Ready th)
    (hfold : es.foldlM (NfcThread.turn printX conf loss fuel) th = some th') :
    ∃ mades, th.Runs printX conf loss es mades th' := by
  induction es generalizing th with
  | nil => exact ⟨[], (Option.some.inj hfold).symm⟩
  | cons e es ih =>
    obtain ⟨v, hturn, hrest⟩ := Option.bind_eq_some_iff.mp hfold
    obtain ⟨made, hended⟩ := (turn_ends printX hprint conf loss h e).2 fuel v hturn
    obtain ⟨mades, hruns⟩ := ih hended.ready hrest
    exact ⟨made :: mades, fuel, v, hturn, hended.log, hruns⟩

-- Nothing there, a tag, and again the tag with an answer lost.
def threeTurns : List Turn :=
  [⟨[], 0x01, clearStack, []⟩, ⟨[some (doubleTag true)], 0x01, clearStack, []⟩,
    ⟨[], 0x01, clearStack, [none]⟩]

theorem nfcThread_reports_three_turns :
    ∃ mades th, (NfcThread.start initDriver fun _ => 0).Runs hexDigits ⟨false, true, .disabled⟩
        (losesAnswer 10) threeTurns mades th ∧
      readTrace th.events = [some (doubleTag true).id.uid] ∧
      th.world.life.stack.device.rfOn = false := by
  have hrun : (threeTurns.foldlM
      (NfcThread.turn hexDigits ⟨false, true, .disabled⟩ (losesAnswer 10) 8)
      (NfcThread.start initDriver fun _ => 0)).any
        (fun th => decide (readTrace th.events = [some (doubleTag true).id.uid])) = true := by
    decide +kernel
  obtain ⟨th, hth, hread⟩ := (Option.any_eq_true ..).mp hrun
  obtain ⟨mades, hruns⟩ := foldlM_runs hexDigits (fun _ => rfl) (ready_start initDriver (by decide))
    hth
  have hreports := nfcThread_reports hexDigits (fun _ => rfl) ⟨false, true, .disabled⟩
    (losesAnswer 10) initDriver (fun _ => 0) (by decide) threeTurns
  exact ⟨mades, th, hruns, of_decide_eq_true hread, (hreports.2 mades th hruns).2.1⟩

end NfceeFw.App
