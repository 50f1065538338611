import NfceeFw.Trf797x.Sessions
import NfceeFw.Trf797x.Visits

/-!
# ChipVisits — visits, down to the interrupts

The lives of `Visits`, with every exchange carried out by the loops of the chip driver: the chip
presents what comes over the field in any portions and at any interrupts.
-/

namespace NfceeFw.Trf797x

open NfceeFw.Reasoning NfceeFw.Nfc

/-! ## 1. Runs over the chip -/

-- How the chip may present answers, the first of them being that to the `i`-th exchange of all.
def Shows := Nat → List Answer → List IrqEvent → Prop

-- In any way at all.
def anyShow : Shows := fun _ _ _ => True

def Presentation.asShows (chip : Presentation) : Shows :=
  fun i answers events => events = (chip.shows i answers).flatten

section

variable (loss : Nat → Loss) (fuel junk : Nat) (shows : Shows)

-- An `nfc_open` whose exchanges are yet to be carried out.
def openBegins (k : OpenStack) (st : OpenRun) :
    Status (OpenLocals × TransceiveAt) (Option Opened) :=
  ((activationLayer k).map Opened.settle).descend (device fuel junk) st

def openPresented (k : OpenStack) (st : OpenRun) (events : List IrqEvent) : List Answer :=
  (openAnswers k fuel junk ((openStack k fuel junk).steps (openBegins fuel junk k st) events)).map
    plainAnswer

/-- The events end the call, and what they present is what the field answers. -/
structure OpenMade (k : OpenStack) (st : OpenRun) (before : Field) (events : List IrqEvent)
    (r : Opened) (after : Field) : Prop where
  ends : (openStack k fuel junk).feed (openBegins fuel junk k st) events = .done (some r)
  hears : (nfcIso14443Open k).Hears (Nfc.field loss) st before
    (openPresented fuel junk k st events) after
  shown : shows before.log.length (openPresented fuel junk k st events) events

namespace ExchangeRecord

-- In the same way for an `nfc_transceive`.
def begins (x : ExchangeRecord) : Status (Locals × TransceiveAt) (Option Returned) :=
  (blockLayer x.args).descend (device fuel junk) (transceiveStart x.driver x.args)

def presented (x : ExchangeRecord) (events : List IrqEvent) : List Answer :=
  (transceiveAnswers x.args fuel junk
    ((transceiveStack x.args fuel junk).steps (x.begins fuel junk) events)).map plainAnswer

structure Made (x : ExchangeRecord) (events : List IrqEvent) : Prop where
  ends : (transceiveStack x.args fuel junk).feed (x.begins fuel junk) events =
    .done (some x.returned)
  hears : (deviceTransceive x.args).Hears (Nfc.field loss) (transceiveStart x.driver x.args)
    x.before (x.presented fuel junk events) x.after
  shown : shows x.before.log.length (x.presented fuel junk events) events

end ExchangeRecord

end

/-- The protocol driver, the chip driver, the field, and what has returned, latest first. -/
structure ChipWorld where
  driver : Driver
  chip : Trf797xDriver
  field : Field
  records : List Record

-- An `nfc_open` has returned 0, and no `nfc_close` since.
def isOpen : List Record → Bool
  | [] => false
  | .open_ o :: earlier => o.ret == 0 || isOpen earlier
  | .transceive _ :: earlier => isOpen earlier
  | .close :: _ => false

namespace ChipWorld

def stack (w : ChipWorld) : Stack := ⟨w.driver, w.chip, []⟩

def openField (w : ChipWorld) : Field :=
  if w.driver.state = .powerOff then w.field.reset else w.field

-- What an `nfc_open` that returns `ret` leaves of the chip driver.
def chipOpened (conf : Trf797xConf) (probe : UInt8) (w : ChipWorld) (ret : Int) : Trf797xDriver :=
  match w.driver.tech with
  | .rf14443a | .rf14443b =>
    let p := w.stack.powerOn conf probe
    if p.1 = 0 ∧ ret ≠ 0 then (nfcDeviceClose conf p.2.device).2 else p.2.device
  | .rf15693 | .rfFelica => w.chip

section

variable (conf : Trf797xConf) (loss : Nat → Loss) (fuel junk : Nat) (shows : Shows)

/-- One call that returns.  A call that the application may not make is not made. -/
inductive Step (w : ChipWorld) : FieldCall → ChipWorld → Prop
  | open_ (probe : UInt8) (k : OpenStack) (events : List IrqEvent) (r : Opened) (after : Field)
      (made : OpenMade loss fuel junk shows k (w.stack.openRun conf probe k) w.openField events r
        after) : Step w (.open_ probe k) {
        driver := r.final.driver
        chip := w.chipOpened conf probe r.ret
        field := after
        records := .open_ ⟨decide (w.driver.state = .powerOff), w.openField, r.ret, r.final.driver,
          after⟩ :: w.records }
  | transceive (x : ExchangeRecord) (events : List IrqEvent) (hopen : isOpen w.records = true)
      (driver : x.driver = w.driver) (before : x.before = w.field)
      (made : x.Made loss fuel junk shows events) : Step w (.transceive x.args) {
        driver := x.returned.final.driver
        chip := w.chip
        field := x.after
        records := .transceive x :: w.records }
  | close (hopen : isOpen w.records = true) : Step w .close {
        driver := (w.stack.nfcClose conf).2.driver
        chip := (w.stack.nfcClose conf).2.device
        field := w.field
        records := .close :: w.records }
  | transceiveClosed (a : CallArgs) (hopen : isOpen w.records = false) : Step w (.transceive a) w
  | closeClosed (hopen : isOpen w.records = false) : Step w .close w
  | enter (tag : Option Tag) : Step w (.enter tag) { w with field := w.field.enter tag }

def Runs : ChipWorld → List FieldCall → ChipWorld → Prop
  | w, [], w' => w' = w
  | w, c :: cs, w' => ∃ v, Step conf loss fuel junk shows w c v ∧ Runs v cs w'

end

-- `nfc_iso14443a_driver_init` and `trf797x_nfc_device_init`; no tag has come yet.
def start (d : Driver) (regs : Registers) : ChipWorld :=
  ⟨nfcIso14443aDriverInit d, trf797xDriverInit regs, ⟨none, .idle, []⟩, []⟩

end ChipWorld

/-! ## 2. One call -/

/-- What `nfc_open` comes to, but for the code of a failure and the ATS that it leaves. -/
structure SameOutcome (r r' : Opened) : Prop where
  zero : r.ret = 0 ↔ r'.ret = 0
  same : r.ret = 0 → r = r'
  driver : r.final.driver = { r'.final.driver with ats := r.final.driver.ats }

theorem sameOutcome_refl (r : Opened) : SameOutcome r r := ⟨Iff.rfl, fun _ => rfl, rfl⟩

theorem SameOpened.outcome {r r' : Opened} (h : SameOpened r r') : SameOutcome r r' where
  zero := by rw [h.1]
  same := h.2.1
  driver := h.2.2

theorem SameOutcome.trans {r r' r'' : Opened} (h : SameOutcome r r') (h' : SameOutcome r' r'') :
    SameOutcome r r'' where
  zero := h.zero.trans h'.zero
  same hret := (h.same hret).trans (h'.same (h.zero.mp hret))
  driver := by
    rw [h.driver, h'.driver]

theorem SameOutcome.settle {r r' : Opened} (h : SameOutcome r r') :
    SameOutcome r.settle r'.settle where
  zero := h.zero
  same hret := by rw [h.same hret]
  driver := by
    unfold Opened.settle
    dsimp only
    by_cases hzero : r.ret = 0
    · rw [h.same hzero]
    · rw [if_pos (bne_iff_ne.mpr hzero), if_pos (bne_iff_ne.mpr (mt h.zero.mpr hzero)), h.driver]

-- An activation that fails leaves its variables alike, whatever the error.
theorem open_plain (k : OpenStack) (s : OpenLocals) (ans : Answer) :
    ((nfcIso14443Open k).resume s ans).Related Eq SameOutcome
      ((nfcIso14443Open k).resume s (plainAnswer ans)) := by
  apply Program.related_map (F := SameOutcome) (fun _ _ => SameOutcome.settle)
  cases ans with
  | frame f => exact related_refl sameOutcome_refl _
  | error code =>
    obtain ⟨ret, hdone, hneg⟩ := resume_error k s code
    obtain ⟨ret', hdone', hneg'⟩ := resume_error k s 0
    show Status.Related Eq SameOutcome (s.resume k (.error code)) (s.resume k (.error 0))
    rw [hdone, hdone']
    have hfails : ret ≠ 0 := Int.ne_of_lt hneg
    exact ⟨iff_of_false hfails (Int.ne_of_lt hneg'), fun h => absurd h hfails, rfl⟩

section

variable {loss : Nat → Loss} {fuel junk : Nat} {shows : Shows}

/-- An exchange made over the chip is one over the field. -/
theorem ExchangeRecord.Made.play {x : ExchangeRecord} {events : List IrqEvent}
    (h : x.Made loss (fuel + 2) junk shows events) (hlayered : Layered x.driver x.args)
    (hrx : x.args.rxlen < 2 ^ 32) :
    ∃ n r, (deviceTransceive x.args).play (Nfc.field loss) n (transceiveStart x.driver x.args)
      x.before = (.done r, x.after) ∧ Alike x.returned r := by
  obtain ⟨r', hfeed, hsame⟩ := transceive_ends hlayered hrx h.ends
  have hplain := Program.feed_related (p := nfcIso14443Transceive x.args)
    (exchange_plain x.args) (related_refl alike_refl (transceiveStart x.driver x.args))
    (transceiveAnswers x.args (fuel + 2) junk
      ((transceiveStack x.args (fuel + 2) junk).steps (x.begins (fuel + 2) junk) events))
  unfold ExchangeRecord.begins at hplain
  rw [hfeed] at hplain
  obtain ⟨r, hr, halike⟩ := Program.related_done hplain
  have hplay := h.hears.play
  unfold deviceTransceive ExchangeRecord.presented ExchangeRecord.begins at hplay
  rw [Program.feed_via, hr] at hplay
  exact ⟨_, r, hplay, hsame.alike.trans halike⟩

/-- In the same way for an open. -/
theorem OpenMade.play {k : OpenStack} {st : OpenRun} {before after : Field}
    {events : List IrqEvent} {r : Opened}
    (h : OpenMade loss (fuel + 2) junk shows k st before events r after) :
    ∃ n r', (nfcIso14443Open k).play (Nfc.field loss) n st before = (.done r', after) ∧
      SameOutcome r r' := by
  obtain ⟨r₁, hfeed, hsame⟩ := open_ends h.ends
  have hplain := Program.feed_related (p := nfcIso14443Open k) (open_plain k)
    (related_refl sameOutcome_refl st) (openAnswers k (fuel + 2) junk
      ((openStack k (fuel + 2) junk).steps (openBegins (fuel + 2) junk k st) events))
  unfold openBegins at hplain
  rw [hfeed] at hplain
  obtain ⟨r', hr', hsame'⟩ := Program.related_done hplain
  have hplay := h.hears.play
  unfold openPresented openBegins at hplay
  rw [hr'] at hplay
  exact ⟨_, r', hplay, hsame.outcome.trans hsame'⟩

end

/-! ## 3. Driver, chip and field in step -/

/-- The lengths of an exchange fit the integers that carry them, and a frame without block protocol
fits one load of the FIFO. -/
def ExchangeRecord.FitsChip (x : ExchangeRecord) : Prop :=
  x.args.rxlen < 2 ^ 32 ∧
    (isTcl x.driver = false → 0 < x.args.txlen ∧ x.args.txlen ≤ 125 ∧ x.args.rxlen < 2 ^ 29)

def Record.FitsChip : Record → Prop
  | .transceive x => x.FitsChip
  | .open_ _ | .close => True

instance : DecidablePred Record.FitsChip
  | .transceive _ => inferInstanceAs (Decidable (_ ∧ _))
  | .open_ _ | .close => .isTrue trivial

-- A T=CL tag that enters sends an ATS with a format byte.
def FieldCall.Announces : FieldCall → Prop
  | .enter tag => ∀ t ∈ tag, t.Announces
  | .open_ .. | .transceive _ | .close => True

instance : DecidablePred FieldCall.Announces
  | .enter _ => inferInstanceAs (Decidable (∀ t ∈ _, _))
  | .open_ .. | .transceive _ | .close => .isTrue trivial

structure ChipHeld (w : ChipWorld) : Prop where
  tech : w.driver.tech = .rf14443a
  state : w.driver.state = .powerOff ∨ w.driver.state = .selected
  isOpen : isOpen w.records = true ↔ w.driver.state = .selected
  rf : w.chip.rfOn = true ↔ w.driver.state = .selected
  sized : w.driver.state = .selected → isTcl w.driver = true → Sized w.driver
  announces : Field.Announces w.field
  linked : w.driver.state = .selected → LinkedTo w.records w.driver w.field
  allOk : AllOk w.records

-- Of the driver, an exchange over the field changes the block number alone.
theorem exchange_keeps {a : CallArgs} {loss : Nat → Loss} {n : Nat} {d : Driver} {f f' : Field}
    {r : Returned}
    (hplay : (deviceTransceive a).play (Nfc.field loss) n (transceiveStart d a) f = (.done r, f')) :
    r.final.driver = { d with block := r.final.driver.block } := by
  have hkept := Program.play_invariant (deviceTransceive a) (Nfc.field loss)
    (I := fun st _ => KeepsDriver d st) (fun s _ h => keepsDriver_resume a s _ h) n
    (transceiveStart d a) f (keepsDriver_start d a)
  rw [hplay] at hkept
  exact hkept

theorem Alike.right {x : ExchangeRecord} {r : Returned} {t : Tag} (h : Alike x.returned r)
    (hret : 0 ≤ x.returned.ret) (hright : { x with returned := r }.Right t) : x.Right t := by
  cases hright with
  | blocks p p' htag hbefore hafter hdelivered =>
    refine .blocks p p' htag hbefore hafter ?_
    exact Alike.delivered (e := ⟨x.args, x.driver, ⟨p, []⟩, x.returned, ⟨p', []⟩⟩) h hret hdelivered
  | plain commands reply htag hbefore hafter hreplied =>
    refine .plain commands reply htag hbefore hafter ?_
    obtain ⟨hanswered, hvalue, hdata, hkept⟩ := hreplied
    refine ⟨hanswered, (h.ret hret).trans hvalue, ?_, fun i hi => ?_⟩
    · rw [h.rxdata hret, h.ret hret]
      exact hdata
    · rw [h.rxdata hret]
      exact hkept i (h.ret hret ▸ hi)

section

variable {conf : Trf797xConf} {loss : Nat → Loss} {fuel junk n : Nat} {shows : Shows}
  {w w' : ChipWorld}

theorem ChipHeld.layered (h : ChipHeld w) (hsel : w.driver.state = .selected) {x : ExchangeRecord}
    (hdriver : x.driver = w.driver) (hfits : x.FitsChip) : Layered x.driver x.args := by
  cases htcl : isTcl x.driver with
  | true =>
    left
    rw [hdriver] at htcl ⊢
    exact h.sized hsel htcl
  | false => exact .inr ⟨htcl, hfits.2 htcl⟩

theorem chipHeld_transceive (h : ChipHeld w) {x : ExchangeRecord} {events : List IrqEvent}
    (hopen : isOpen w.records = true) (hdriver : x.driver = w.driver)
    (hbefore : x.before = w.field) (hmade : x.Made loss (fuel + 2) junk shows events)
    (hfits : x.FitsChip) :
    ChipHeld ⟨x.returned.final.driver, w.chip, x.after, .transceive x :: w.records⟩ := by
  have hsel := h.isOpen.mp hopen
  obtain ⟨n, r, hplay, halike⟩ := hmade.play (h.layered hsel hdriver hfits) hfits.1
  obtain ⟨tag, hidentified, hlinked⟩ := h.linked hsel
  rw [← hdriver, ← hbefore] at hlinked
  have htag : x.after.tag = w.field.tag := by
    have hkept := play_tag (deviceTransceive x.args) loss n (transceiveStart x.driver x.args)
      x.before
    rw [hplay] at hkept
    exact hbefore ▸ hkept
  obtain ⟨hnext, hright⟩ := exchange_link (x := { x with returned := r }) hlinked hfits.1
    (fun hraw => Nat.lt_of_le_of_lt (hfits.2 hraw).2.1 (by decide)) hplay
  have hkeeps := exchange_keeps hplay
  rw [← halike.driver, hdriver] at hkeeps
  have hharmless : x.Harmless → ({ x with returned := r } : ExchangeRecord).Harmless :=
    fun hx htcl hneg => hx htcl (halike.fails.mpr hneg)
  have hstate : x.returned.final.driver.state = w.driver.state := by rw [hkeeps]
  exact {
    tech := by rw [hkeeps]; exact h.tech
    state := .inr (hstate.trans hsel)
    isOpen := iff_of_true hopen (hstate.trans hsel)
    rf := by rw [hstate]; exact h.rf
    sized := fun _ htcl => by
      rw [hkeeps] at htcl ⊢
      obtain ⟨-, hfsd, hlo, hhi⟩ := h.sized hsel htcl
      exact ⟨htcl, hfsd, hlo, hhi⟩
    announces := fun t ht => h.announces t (htag ▸ ht)
    linked := fun _ => by
      refine ⟨tag, hidentified, ?_⟩
      rw [halike.driver]
      exact hnext.mono fun hclean => ⟨hharmless hclean.1, hclean.2⟩
    allOk := by
      refine allOk_cons (fun hclean hret => ⟨tag, hidentified, ?_⟩) h.allOk
      exact halike.right hret (hright hclean (halike.ret hret ▸ hret)) }

-- An activation of an idle driver, as the driver.
theorem settled_play {d : Driver} {k : OpenStack} {f f' : Field} {r : Opened}
    (hplay : (nfcIso14443Open k).play (Nfc.field loss) n ((openStart k d).map Opened.settle) f =
      (.done r, f')) :
    r.final.driver.tech = d.tech ∧ (r.ret = 0 ∧ r.final.driver.state = .selected ∨
      r.ret ≠ 0 ∧ r.final.driver.state = .powerOff) := by
  have hfeed := (nfcIso14443Open k).play_eq_feed (Nfc.field loss) n
    ((openStart k d).map Opened.settle) f
  rw [hplay] at hfeed
  generalize (nfcIso14443Open k).heard _ _ _ _ = answers at hfeed
  have hmap := Program.feed_map (nfcIso14443aOpen k) Opened.settle (openStart k d) answers
  have htech := open_tech k d answers
  rw [show (nfcIso14443aOpen k).map Opened.settle = nfcIso14443Open k from rfl, ← hfeed] at hmap
  cases hopen : (nfcIso14443aOpen k).feed (openStart k d) answers with
  | wait s =>
    rw [hopen] at hmap
    cases hmap
  | done r' =>
    rw [hopen] at hmap htech
    cases hmap
    exact ⟨(settle_tech r').trans htech, settle_state r'⟩

-- A driver that is off, and what its last `nfc_open` returned.
theorem chipHeld_off (h : ChipHeld w) (hoff : w.driver.state = .powerOff) {d : Driver}
    {chip : Trf797xDriver} {f : Field} {o : OpenRecord} (htech : d.tech = w.driver.tech)
    (hstate : d.state = .powerOff) (hrf : chip.rfOn = false) (htag : f.tag = w.field.tag)
    (hfresh : o.fresh = true) (hret : o.ret ≠ 0) :
    ChipHeld ⟨d, chip, f, .open_ o :: w.records⟩ := by
  have hnot : ¬ d.state = .selected := by
    rw [hstate]
    exact nofun
  have hclosed : isOpen w.records = false := by
    rw [← Bool.not_eq_true, h.isOpen, hoff]
    exact nofun
  have hopen : isOpen (.open_ o :: w.records) = false := by
    unfold isOpen
    rw [hclosed, beq_false_of_ne hret]
    rfl
  exact {
    tech := htech.trans h.tech
    state := .inl hstate
    isOpen := iff_of_false (by rw [hopen]; exact Bool.false_ne_true) hnot
    rf := iff_of_false (by rw [hrf]; exact Bool.false_ne_true) hnot
    sized := fun hsel => absurd hsel hnot
    announces := fun t ht => h.announces t (htag ▸ ht)
    linked := fun hsel => absurd hsel hnot
    allOk := by
      refine allOk_cons ⟨fun _ hzero => absurd hzero hret, fun hreopened => ?_⟩ h.allOk
      rw [hfresh] at hreopened
      cases hreopened }

-- A driver that its last `nfc_open` has activated.
theorem chipHeld_activated (h : ChipHeld w) {d : Driver} {chip : Trf797xDriver} {f f' : Field}
    {t : Tag} (htech : d.tech = w.driver.tech) (hrf : chip.rfOn = true) (htag : f.tag = some t)
    (hannounces : t.Announces) (hafter : f'.tag = some t) (hactivated : Activated t d f'.state) :
    ChipHeld ⟨d, chip, f', .open_ ⟨true, f, 0, d, f'⟩ :: w.records⟩ where
  tech := htech.trans h.tech
  state := .inr hactivated.selected
  isOpen := iff_of_true rfl hactivated.selected
  rf := iff_of_true hrf hactivated.selected
  sized _ htcl := hactivated.sized hannounces (hactivated.tcl.symm.trans htcl)
  announces t' ht' := by
    cases hafter.symm.trans ht'
    exact hannounces
  linked _ := ⟨t, ⟨_, rfl, rfl, htag⟩, activated_linked _ hactivated hafter hannounces⟩
  allOk := allOk_cons ⟨fun _ _ => ⟨t, htag, hactivated⟩, nofun⟩ h.allOk

-- The chip driver of such an `nfc_open`.
theorem chipOpened_eq (h : ChipHeld w) {probe : UInt8} {e : Int} {u : Stack}
    (hpower : w.stack.powerOn conf probe = (e, u)) (ret : Int) :
    w.chipOpened conf probe ret =
      if e = 0 ∧ ret ≠ 0 then (nfcDeviceClose conf u.device).2 else u.device := by
  unfold ChipWorld.chipOpened
  rw [h.tech, hpower]

theorem chipHeld_open_off (h : ChipHeld w) (hoff : w.driver.state = .powerOff) {probe : UInt8}
    {k : OpenStack} {r r' : Opened} {after : Field}
    (hplay : (nfcIso14443Open k).play (Nfc.field loss) n (w.stack.openRun conf probe k)
      w.field.reset = (.done r', after)) (hsame : SameOutcome r r') :
    ChipHeld ⟨r.final.driver, w.chipOpened conf probe r.ret, after,
      .open_ ⟨true, w.field.reset, r.ret, r.final.driver, after⟩ :: w.records⟩ := by
  have htech : r.final.driver.tech = r'.final.driver.tech := by rw [hsame.driver]
  have hstate : r.final.driver.state = r'.final.driver.state := by rw [hsame.driver]
  have hkept : after.tag = w.field.tag := by
    have htag := play_tag (nfcIso14443Open k) loss n (w.stack.openRun conf probe k) w.field.reset
    rw [hplay] at htag
    exact htag
  rcases openRun_off (s := w.stack) conf probe k h.tech hoff with
    ⟨e, drv, hnonzero, hrf, hpower, hrun⟩ | ⟨drv, hrf, hpower, hrun⟩
  · rw [hrun, Program.play_done] at hplay
    cases hplay
    rw [chipOpened_eq h hpower, if_neg fun hboth => hnonzero hboth.1]
    exact chipHeld_off h hoff htech (hstate.trans hoff) hrf hkept rfl (mt hsame.zero.mp hnonzero)
  · rw [hrun] at hplay
    obtain ⟨htech', hends⟩ := settled_play hplay
    rw [chipOpened_eq h hpower]
    rcases hends with ⟨hzero, -⟩ | ⟨hfails, hpowerOff⟩
    · have hret := hsame.zero.mpr hzero
      obtain ⟨t, htag, hafter, hactivated⟩ :=
        open_activated (d := { w.driver with fsd := deviceFrameSize, state := .idle }) h.tech rfl
          rfl hplay hzero
      rw [← hsame.same hret] at hactivated
      rw [hret, if_neg fun hboth => hboth.2 rfl]
      have hannounces := h.announces t htag
      exact chipHeld_activated h (htech.trans htech') hrf htag hannounces hafter hactivated
    · have hret := mt hsame.zero.mp hfails
      rw [if_pos ⟨rfl, hret⟩]
      exact chipHeld_off h hoff (htech.trans htech') (hstate.trans hpowerOff)
        (nfcDeviceClose_rfOn conf _) hkept rfl hret

theorem chipHeld_open_selected (h : ChipHeld w) (hsel : w.driver.state = .selected)
    {probe : UInt8} {k : OpenStack} {r r' : Opened} {after : Field}
    (hplay : (nfcIso14443Open k).play (Nfc.field loss) n (w.stack.openRun conf probe k) w.field =
      (.done r', after)) (hsame : SameOutcome r r') :
    ChipHeld ⟨r.final.driver, w.chipOpened conf probe r.ret, after,
      .open_ ⟨false, w.field, r.ret, r.final.driver, after⟩ :: w.records⟩ := by
  obtain ⟨hpower, hrun⟩ := openRun_selected (s := w.stack) conf probe k h.tech hsel
  rw [hrun, Program.play_done] at hplay
  cases hplay
  have hret : r.ret = 0 := hsame.zero.mpr rfl
  have hdriver : r.final.driver = w.driver := by
    rw [hsame.same hret]
    rfl
  rw [chipOpened_eq h hpower, hret, hdriver, if_neg fun hboth => hboth.2 rfl]
  exact {
    tech := h.tech
    state := h.state
    isOpen := iff_of_true rfl hsel
    rf := h.rf
    sized := h.sized
    announces := h.announces
    linked := fun hsel => linkedTo_reopened rfl (h.linked hsel)
    allOk := allOk_cons ⟨nofun, fun _ => ⟨rfl, rfl⟩⟩ h.allOk }

theorem chipHeld_open (h : ChipHeld w) {probe : UInt8} {k : OpenStack} {events : List IrqEvent}
    {r : Opened} {after : Field}
    (hmade : OpenMade loss (fuel + 2) junk shows k (w.stack.openRun conf probe k) w.openField events
      r after) :
    ChipHeld {
      driver := r.final.driver
      chip := w.chipOpened conf probe r.ret
      field := after
      records := .open_ ⟨decide (w.driver.state = .powerOff), w.openField, r.ret, r.final.driver,
        after⟩ :: w.records } := by
  obtain ⟨n, r', hplay, hsame⟩ := hmade.play
  unfold ChipWorld.openField at hplay ⊢
  rcases h.state with hoff | hsel
  · rw [if_pos hoff] at hplay ⊢
    rw [decide_eq_true hoff]
    exact chipHeld_open_off h hoff hplay hsame
  · have hon : ¬ w.driver.state = .powerOff := by
      rw [hsel]
      exact nofun
    rw [if_neg hon] at hplay ⊢
    rw [decide_eq_false hon]
    exact chipHeld_open_selected h hsel hplay hsame

theorem chipHeld_close (conf : Trf797xConf) (h : ChipHeld w) :
    ChipHeld {
      driver := (w.stack.nfcClose conf).2.driver
      chip := (w.stack.nfcClose conf).2.device
      field := w.field
      records := .close :: w.records } := by
  have hclose : w.stack.nfcClose conf = (0, {
      driver := { w.driver with state := .powerOff }
      device := (nfcDeviceClose conf w.chip).2
      calls := [.close] }) := by
    unfold Stack.nfcClose
    rw [show w.stack.driver.tech = .rf14443a from h.tech]
    rfl
  rw [hclose]
  exact {
    tech := h.tech
    state := .inl rfl
    isOpen := iff_of_false nofun nofun
    rf := iff_of_false (by rw [nfcDeviceClose_rfOn]; exact Bool.false_ne_true) nofun
    sized := nofun
    announces := h.announces
    linked := nofun
    allOk := allOk_cons trivial h.allOk }

theorem chipHeld_step {c : FieldCall} (h : ChipHeld w)
    (hstep : w.Step conf loss (fuel + 2) junk shows c w') (htags : c.Announces)
    (hfits : ∀ rec ∈ w'.records, rec.FitsChip) : ChipHeld w' := by
  cases hstep with
  | open_ probe k events r after made => exact chipHeld_open h made
  | transceive x events hopen driver before made =>
    exact chipHeld_transceive h hopen driver before made (hfits _ (List.mem_cons_self ..))
  | close hopen => exact chipHeld_close conf h
  | transceiveClosed a hopen => exact h
  | closeClosed hopen => exact h
  | enter tag =>
    refine { h with announces := htags, linked := fun hsel => ?_ }
    obtain ⟨t, hidentified, -⟩ := h.linked hsel
    exact ⟨t, hidentified, .away rfl⟩

-- What has returned stays on record.
theorem step_records {c : FieldCall} (hstep : w.Step conf loss fuel junk shows c w') :
    w.records ⊆ w'.records := by
  cases hstep with
  | open_ | transceive | close => exact List.subset_cons_self _ _
  | transceiveClosed | closeClosed | enter => exact List.Subset.refl _

theorem runs_records {calls : List FieldCall} (hrun : w.Runs conf loss fuel junk shows calls w') :
    w.records ⊆ w'.records := by
  induction calls generalizing w with
  | nil => exact hrun ▸ List.Subset.refl _
  | cons c calls ih =>
    obtain ⟨v, hstep, hrest⟩ := hrun
    exact List.Subset.trans (step_records hstep) (ih hrest)

theorem chipHeld_runs {calls : List FieldCall} (h : ChipHeld w)
    (hrun : w.Runs conf loss (fuel + 2) junk shows calls w') (htags : ∀ c ∈ calls, c.Announces)
    (hfits : ∀ rec ∈ w'.records, rec.FitsChip) : ChipHeld w' := by
  induction calls generalizing w with
  | nil => exact hrun ▸ h
  | cons c calls ih =>
    obtain ⟨v, hstep, hrest⟩ := hrun
    obtain ⟨hc, hcs⟩ := List.forall_mem_cons.mp htags
    exact ih (chipHeld_step h hstep hc fun x hx => hfits x (runs_records hrest hx)) hrest hcs

end

theorem chipHeld_start (d : Driver) {regs : Registers}
    (hrf : regs regChipStatus &&& chipStatusRfOn = 0) : ChipHeld (ChipWorld.start d regs) where
  tech := rfl
  state := .inl rfl
  isOpen := iff_of_false nofun nofun
  rf := by
    refine iff_of_false ?_ nofun
    show ¬ (regs regChipStatus &&& chipStatusRfOn != 0) = true
    rw [hrf]
    exact Bool.false_ne_true
  sized := nofun
  announces := nofun
  linked := nofun
  allOk := fun later r earlier heq => by cases later <;> cases heq

/-- Whatever tags come and go, whatever frames are lost, in whatever portions and at whatever
interrupts the chip presents the rest: an `nfc_open` that succeeds has identified the tag in the
field, an `nfc_transceive` that succeeds was one with the tag of the latest activation if since
then none has failed but by a harmless loss, and the RF field is on exactly while the driver is
open. -/
theorem chipVisits_right (conf : Trf797xConf) (loss : Nat → Loss) (fuel junk : Nat) (shows : Shows)
    (d : Driver) (regs : Registers) (hrf : regs regChipStatus &&& chipStatusRfOn = 0)
    (calls : List FieldCall) (htags : ∀ c ∈ calls, c.Announces) (w : ChipWorld)
    (hrun : (ChipWorld.start d regs).Runs conf loss (fuel + 2) junk shows calls w)
    (hfits : ∀ rec ∈ w.records, rec.FitsChip) :
    AllOk w.records ∧ (w.chip.rfOn = true ↔ isOpen w.records = true) := by
  have hheld := chipHeld_runs (chipHeld_start d hrf) hrun htags hfits
  exact ⟨hheld.allOk, hheld.rf.trans hheld.isOpen.symm⟩

section

variable (conf : Trf797xConf) (loss : Nat → Loss) (fuel junk n : Nat)

/-- A call of at most `n` exchanges, for which the chip presents each frame in one portion. -/
def ChipWorld.stepFor (w : ChipWorld) : FieldCall → Option ChipWorld
  | .open_ probe k =>
    let st := w.stack.openRun conf probe k
    let heard := (nfcIso14443Open k).heard (Nfc.field loss) n st w.openField
    let after := ((nfcIso14443Open k).play (Nfc.field loss) n st w.openField).2
    let events := heard.flatMap presents
    match (openStack k fuel junk).feed (openBegins fuel junk k st) events with
    | .done (some r) =>
      if openPresented fuel junk k st events = heard then some {
        driver := r.final.driver
        chip := w.chipOpened conf probe r.ret
        field := after
        records := .open_ ⟨decide (w.driver.state = .powerOff), w.openField, r.ret, r.final.driver,
          after⟩ :: w.records }
      else none
    | _ => none
  | .transceive a =>
    let st := transceiveStart w.driver a
    let heard := (deviceTransceive a).heard (Nfc.field loss) n st w.field
    let after := ((deviceTransceive a).play (Nfc.field loss) n st w.field).2
    let events := heard.flatMap presents
    match (transceiveStack a fuel junk).feed ((blockLayer a).descend (device fuel junk) st)
        events with
    | .done (some r) =>
      let x : ExchangeRecord := ⟨a, w.driver, w.field, r, after⟩
      if isOpen w.records = true ∧ x.presented fuel junk events = heard then
        some ⟨r.final.driver, w.chip, after, .transceive x :: w.records⟩
      else none
    | _ => none
  | .close =>
    if isOpen w.records = true then
      some ⟨(w.stack.nfcClose conf).2.driver, (w.stack.nfcClose conf).2.device, w.field,
        .close :: w.records⟩
    else none
  | .enter tag => some { w with field := w.field.enter tag }

def ChipWorld.runFor : ChipWorld → List FieldCall → Option ChipWorld
  | w, [] => some w
  | w, c :: cs => (w.stepFor conf loss fuel junk n c).bind fun v => runFor v cs

end

section

variable {conf : Trf797xConf} {loss : Nat → Loss} {fuel junk n : Nat} {w w' : ChipWorld}

theorem stepFor_step {c : FieldCall} (h : w.stepFor conf loss fuel junk n c = some w') :
    w.Step conf loss fuel junk anyShow c w' := by
  unfold ChipWorld.stepFor at h
  cases c with
  | open_ probe k =>
    dsimp only at h
    split at h
    · rename_i r hends
      split at h
      · rename_i hpresented
        cases h
        refine .open_ probe k _ r _ ⟨hends, ?_, trivial⟩
        rw [hpresented]
        exact Program.hears_heard _ _ _ _ _
      · cases h
    · cases h
  | transceive a =>
    dsimp only at h
    split at h
    · rename_i r hends
      split at h
      · rename_i hboth
        obtain ⟨hopen, hpresented⟩ := hboth
        cases h
        refine .transceive ⟨a, w.driver, w.field, r, _⟩ _ hopen rfl rfl
          ⟨hends, ?_, trivial⟩
        rw [hpresented]
        exact Program.hears_heard _ _ _ _ _
      · cases h
    · cases h
  | close =>
    dsimp only at h
    split at h
    · rename_i hopen
      cases h
      exact .close hopen
    · cases h
  | enter tag =>
    cases h
    exact .enter tag

theorem chipRunFor_runs {calls : List FieldCall}
    (h : w.runFor conf loss fuel junk n calls = some w') :
    w.Runs conf loss fuel junk anyShow calls w' := by
  induction calls generalizing w with
  | nil => exact (Option.some.inj h).symm
  | cons c calls ih =>
    obtain ⟨v, hstep, hrest⟩ := Option.bind_eq_some_iff.mp h
    exact ⟨v, stepFor_step hstep, ih hrest⟩

end

theorem chipVisits_right_two_visits :
    ∃ w, (ChipWorld.start initDriver fun _ => 0).Runs ⟨false, true, .disabled⟩ (losesAnswer 6) 2 0
        anyShow twoVisits w ∧ w.records.map Record.ret = [1, 0, 0, -eio, 0] ∧ AllOk w.records := by
  have hrun : (ChipWorld.runFor ⟨false, true, .disabled⟩ (losesAnswer 6) 2 0 8
      (ChipWorld.start initDriver fun _ => 0) twoVisits).any (fun w => decide
        (w.records.map Record.ret = [1, 0, 0, -eio, 0] ∧ ∀ rec ∈ w.records, rec.FitsChip)) =
          true := by
    decide +kernel
  obtain ⟨w, hw, hboth⟩ := (Option.any_eq_true ..).mp hrun
  obtain ⟨hrets, hfits⟩ := of_decide_eq_true hboth
  have hruns := chipRunFor_runs hw
  refine ⟨w, hruns, hrets, ?_⟩
  exact (chipVisits_right ⟨false, true, .disabled⟩ (losesAnswer 6) 0 0 anyShow initDriver
    (fun _ => 0) (by decide) twoVisits (by decide) w hruns hfits).1

end NfceeFw.Trf797x
