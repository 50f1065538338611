import NfceeFw.Trf797x.ChipVisits

/-!
# ChipRecovery — recovery, down to the interrupts

As in `Visits`: a close and an open bring the stack and a T=CL tag in step once nothing is lost any
more.  Here the calls can be made over the chip, and however the chip presents what the tag sends
they succeed.
-/

namespace NfceeFw.Trf797x

open NfceeFw.Reasoning NfceeFw.Nfc

/-! ## 1. Calls that can be made -/

theorem field_plain (loss : Nat → Loss) (f : Field) (q : DevRequest) :
    plainAnswer ((Nfc.field loss).respond f q).1 = ((Nfc.field loss).respond f q).1 := by
  have hpair : f.react q = ((f.react q).1, (f.react q).2) := rfl
  show plainAnswer (f.respond _ q).1 = (f.respond _ q).1
  rcases respond_cases (loss f.log.length) hpair with ⟨herror, -⟩ | ⟨bytes, -, hframe, -⟩
  · rw [herror]
    rfl
  · rw [hframe]
    rfl

section

variable {loss : Nat → Loss} (chip : Presentation) (fuel junk : Nat) {n : Nat}

/-- What `nfc_open` does over the field, the stack does with a chip that presents the frames, in any
way. -/
theorem open_made {k : OpenStack} {st : OpenRun} {f f' : Field} {r : Opened}
    (hplay : (nfcIso14443Open k).play (Nfc.field loss) n st f = (.done r, f')) :
    ∃ events r', OpenMade loss (fuel + 2) junk chip.asShows k st f events r' f' := by
  have hears := Program.hears_heard (nfcIso14443Open k) (Nfc.field loss) n st f
  have hdone := Program.play_eq_feed (nfcIso14443Open k) (Nfc.field loss) n st f
  have hplain := heard_plain (nfcIso14443Open k) (field_plain loss) n st f
  rw [hplay] at hears hdone
  have hrefines := (open_refines k fuel junk).map (f := Opened.settle) fun _ _ => settle_same
  obtain ⟨r', hends, hanswers⟩ := hrefines.covers plainAnswer (open_plain k) sameOutcome_refl
    (fun s t ans _ _ henter ht hans => device_realized henter ht hans)
    (shows_oneByOne chip f.log.length hplain)
    (related_refl sameOpened_refl st) (fun _ _ => trivial) hears hdone.symm
  have hpresented : openPresented (fuel + 2) junk k st _ = _ := hanswers
  refine ⟨_, r', hends, ?_, ?_⟩
  · rw [hpresented]
    exact hears
  · show _ = (chip.shows _ _).flatten
    rw [hpresented]

/-- In the same way for a T=CL exchange. -/
theorem exchange_made {d : Driver} {a : CallArgs} (hsz : Sized d) (hrx : a.rxlen < 2 ^ 32)
    {f f' : Field} {r : Returned}
    (hplay : (deviceTransceive a).play (Nfc.field loss) n (transceiveStart d a) f =
      (.done r, f')) :
    ∃ events r', ExchangeRecord.Made loss (fuel + 2) junk chip.asShows ⟨a, d, f, r', f'⟩
      events := by
  have hears := Program.hears_heard (deviceTransceive a) (Nfc.field loss) n (transceiveStart d a) f
  have hdone := Program.play_eq_feed (deviceTransceive a) (Nfc.field loss) n (transceiveStart d a) f
  have hplain := heard_plain (deviceTransceive a) (field_plain loss) n (transceiveStart d a) f
  rw [hplay] at hears hdone
  have hrefines := (block_refines d hrx fuel junk).via nfcIso14443aTransceive
  obtain ⟨r', hends, hanswers⟩ := hrefines.covers plainAnswer (exchange_plain a) alike_refl
    (fun s t ans _ _ henter ht hans => device_realized henter ht hans)
    (shows_oneByOne chip f.log.length hplain)
    (related_refl sameReturned_refl (transceiveStart d a))
    (fun _ hs => waits_start (.inl hsz) hs) hears hdone.symm
  have hpresented : ∀ r', ExchangeRecord.presented (fuel + 2) junk ⟨a, d, f, r', f'⟩ _ = _ :=
    fun _ => hanswers
  refine ⟨_, r', hends, ?_, ?_⟩
  · rw [hpresented]
    exact hears
  · show _ = (chip.shows _ _).flatten
    rw [hpresented]

end

/-! ## 2. Recovery -/

/-- The stack and a T=CL tag are in step, and nothing is lost from now on. -/
structure ChipContact (loss : Nat → Loss) (t : Tag) (w : ChipWorld) : Prop where
  held : ChipHeld w
  selected : w.driver.state = .selected
  clean : Undisturbed w.records
  tag : w.field.tag = some t
  protocol : ∃ p, w.field.state = .protocol p
  quiet : ∀ i, w.field.log.length ≤ i → loss i = .nothing

section

variable {conf : Trf797xConf} {loss : Nat → Loss} {fuel junk : Nat} {shows : Shows} {t : Tag}
  {w w' : ChipWorld}

theorem ChipContact.synced (h : ChipContact loss t w) : ∃ p, w.field.state = .protocol p ∧
    Sized w.driver ∧ Nfc.Synced w.driver p := by
  obtain ⟨p, hp⟩ := h.protocol
  obtain ⟨t', -, hlinked⟩ := h.held.linked h.selected
  cases hlinked with
  | away hidle =>
    rw [hidle] at hp
    cases hp
  | blocks p' htag hstate hsized hsynced => exact ⟨p', hstate, hsized, hsynced h.clean⟩
  | plain commands htag hstate =>
    rw [hstate] at hp
    cases hp

-- The exchange over the field that any exchange over the chip comes to.
theorem ChipContact.plays (h : ChipContact loss t w) {a : CallArgs} (hrx : a.rxlen < 2 ^ 31) :
    ∃ n r f', (deviceTransceive a).play (Nfc.field loss) n (transceiveStart w.driver a) w.field =
      (.done r, f') ∧ 0 ≤ r.ret := by
  obtain ⟨p, hstate, hsized, hsynced⟩ := h.synced
  exact contact_delivers hsized hrx hsynced h.tag hstate h.quiet

theorem chipContact_made (conf : Trf797xConf) (chip : Presentation) (fuel junk : Nat)
    (h : ChipContact loss t w) {a : CallArgs} (hrx : a.rxlen < 2 ^ 31) :
    ∃ w', w.Step conf loss (fuel + 2) junk chip.asShows (.transceive a) w' := by
  obtain ⟨p, -, hsized, -⟩ := h.synced
  obtain ⟨n, r, f', hplay, -⟩ := h.plays hrx
  obtain ⟨events, r', hmade⟩ := exchange_made chip fuel junk hsized (by omega) hplay
  exact ⟨_, .transceive ⟨a, w.driver, w.field, r', f'⟩ events (h.held.isOpen.mpr h.selected) rfl rfl
    hmade⟩

/-- An exchange in contact succeeds, is right, and leaves the two in contact. -/
theorem chipContact_transceive (h : ChipContact loss t w) {a : CallArgs} (hrx : a.rxlen < 2 ^ 31)
    (hstep : w.Step conf loss (fuel + 2) junk shows (.transceive a) w') :
    ChipContact loss t w' ∧ ∃ x : ExchangeRecord, w'.records = .transceive x :: w.records ∧
      x.args = a ∧ 0 ≤ x.returned.ret ∧ x.Right t := by
  have hopen := h.held.isOpen.mpr h.selected
  cases hstep with
  | transceiveClosed _ hclosed =>
    rw [hopen] at hclosed
    cases hclosed
  | transceive x events _ hdriver hbefore hmade =>
    obtain ⟨p, hstate, hsized, hsynced⟩ := h.synced
    rw [← hdriver] at hsized
    have hrx' : x.args.rxlen < 2 ^ 32 := by omega
    obtain ⟨n, r, hplay, halike⟩ := hmade.play (.inl hsized) hrx'
    obtain ⟨n', r', f', hplay', hret'⟩ := h.plays hrx
    rw [← hdriver, ← hbefore] at hplay'
    obtain ⟨rfl, hafter⟩ := Program.play_unique _ _ hplay hplay'
    have hret : 0 ≤ x.returned.ret := by
      have hiff := halike.fails
      omega
    have hfits : x.FitsChip :=
      ⟨hrx', fun hraw => absurd (hsized.tcl.symm.trans hraw) Bool.false_ne_true.symm⟩
    have hheld := chipHeld_transceive h.held hopen hdriver hbefore hmade hfits
    rw [← hbefore] at hstate
    have htag : x.before.tag = some t := by
      rw [hbefore]
      exact h.tag
    obtain ⟨now, -, hmeets⟩ := contact_blocks hsized hrx' htag hstate hplay
    obtain ⟨made, hmade', -⟩ := hmeets.made
    refine ⟨⟨hheld, ?_, ⟨?_, h.clean⟩, hmeets.tag, ⟨_, hmeets.state⟩, ?_⟩, x, rfl, rfl, hret, ?_⟩
    · rw [← h.selected, ← hdriver, halike.driver, exchange_keeps hplay]
    · exact fun _ hneg => absurd hneg (Int.not_lt.mpr hret)
    · exact quiet_later (hbefore ▸ h.quiet) hmade'
    · obtain ⟨t', -, hright⟩ := hheld.allOk [] _ _ rfl h.clean hret
      cases htag.symm.trans hright.tag
      exact hright

theorem chipContact_runs (as : List CallArgs) (h : ChipContact loss t w)
    (hrx : ∀ a ∈ as, a.rxlen < 2 ^ 31)
    (hruns : w.Runs conf loss (fuel + 2) junk shows (as.map .transceive) w') :
    ∃ xs : List ExchangeRecord, w'.records = (xs.map .transceive).reverse ++ w.records ∧
      xs.map ExchangeRecord.args = as ∧ ∀ x ∈ xs, 0 ≤ x.returned.ret ∧ x.Right t := by
  induction as generalizing w with
  | nil => exact ⟨[], by rw [hruns]; rfl, rfl, List.forall_mem_nil _⟩
  | cons a as ih =>
    obtain ⟨ha, has⟩ := List.forall_mem_cons.mp hrx
    obtain ⟨v, hstep, hrest⟩ := hruns
    obtain ⟨hcontact, x, hrecords, hargs, hx⟩ := chipContact_transceive h ha hstep
    obtain ⟨xs, hrecords', hargs', hxs⟩ := ih hcontact has hrest
    refine ⟨x :: xs, ?_, ?_, List.forall_mem_cons.mpr ⟨hx, hxs⟩⟩
    · rw [hrecords', hrecords]
      simp
    · rw [List.map_cons, hargs, hargs']

theorem chipContact_returns (conf : Trf797xConf) (chip : Presentation) (fuel junk : Nat)
    (as : List CallArgs) (h : ChipContact loss t w) (hrx : ∀ a ∈ as, a.rxlen < 2 ^ 31) :
    ∃ w', w.Runs conf loss (fuel + 2) junk chip.asShows (as.map .transceive) w' := by
  induction as generalizing w with
  | nil => exact ⟨w, rfl⟩
  | cons a as ih =>
    obtain ⟨ha, has⟩ := List.forall_mem_cons.mp hrx
    obtain ⟨v, hstep⟩ := chipContact_made conf chip fuel junk h ha
    obtain ⟨w', hruns⟩ := ih (chipContact_transceive h ha hstep).1 has
    exact ⟨w', v, hstep, hruns⟩

-- An openable T=CL tag is there, and nothing is lost from now on.
structure Reachable (loss : Nat → Loss) (t : Tag) (f : Field) : Prop where
  tag : f.tag = some t
  openable : t.Openable
  tcl : tclSak t.id.sak = true
  quiet : ∀ i, f.log.length ≤ i → loss i = .nothing

theorem Reachable.openField (h : Reachable loss t w.field) (hoff : w.driver.state = .powerOff) :
    Reachable loss t w.openField ∧ w.openField.state = .idle := by
  have hfield : w.openField = w.field.reset := if_pos hoff
  rw [hfield]
  exact ⟨⟨h.tag, h.openable, h.tcl, h.quiet⟩, rfl⟩

theorem chipOpen_made (chip : Presentation) (h : ChipHeld w) (hoff : w.driver.state = .powerOff)
    (ht : Reachable loss t w.field) (k : OpenStack) :
    ∃ w', w.Step conf loss (fuel + 2) junk chip.asShows (.open_ (modSysClk conf) k) w' := by
  obtain ⟨htag, hidle⟩ := ht.openField hoff
  obtain ⟨n, r, f', hplay, -⟩ :=
    open_returns (s := w.stack) conf h.tech hoff hidle htag.tag ht.openable htag.quiet k
  obtain ⟨events, r', hmade⟩ := open_made chip fuel junk hplay
  exact ⟨_, .open_ _ k events r' f' hmade⟩

/-- An activation of the tag succeeds, and brings the two in contact. -/
theorem chipContact_open (h : ChipHeld w) (hoff : w.driver.state = .powerOff)
    (ht : Reachable loss t w.field) {k : OpenStack}
    (hstep : w.Step conf loss (fuel + 2) junk shows (.open_ (modSysClk conf) k) w') :
    ChipContact loss t w' ∧ ∃ o : OpenRecord, w'.records = .open_ o :: w.records ∧ o.ret = 0 ∧
      Activated t o.driver o.after.state := by
  obtain ⟨htag, hidle⟩ := ht.openField hoff
  cases hstep with
  | open_ _ _ events r after hmade =>
    have hheld := chipHeld_open h hmade
    obtain ⟨n, r', hplay, hsame⟩ := hmade.play
    obtain ⟨n', r'', f', hplay', hzero⟩ :=
      open_returns (s := w.stack) conf h.tech hoff hidle htag.tag ht.openable htag.quiet k
    obtain ⟨rfl, rfl⟩ := Program.play_unique _ _ hplay hplay'
    have hret := hsame.zero.mpr hzero
    rw [decide_eq_true hoff] at hheld ⊢
    obtain ⟨t', htag', hactivated⟩ := (hheld.allOk [] _ _ rfl).1 rfl hret
    cases htag.tag.symm.trans htag'
    obtain ⟨made, hlog⟩ := play_made (nfcIso14443Open k) loss n
      (w.stack.openRun conf (modSysClk conf) k) w.openField
    have hkept := play_tag (nfcIso14443Open k) loss n (w.stack.openRun conf (modSysClk conf) k)
      w.openField
    rw [hplay] at hlog hkept
    refine ⟨⟨hheld, hactivated.selected, .inl rfl, hkept.trans htag.tag, ⟨Picc.selected, ?_⟩, ?_⟩,
      _, rfl, hret, hactivated⟩
    · have hstate := hactivated.tag
      unfold Tag.opened at hstate
      rw [if_pos ht.tcl] at hstate
      exact hstate
    · exact quiet_later htag.quiet hlog

-- After an `nfc_close`, made or not, the driver is off.
theorem chipClose_off (h : ChipHeld w) (hstep : w.Step conf loss fuel junk shows .close w') :
    ChipHeld w' ∧ w'.driver.state = .powerOff ∧ w'.field = w.field := by
  cases hstep with
  | close hopen =>
    refine ⟨chipHeld_close conf h, ?_, rfl⟩
    unfold Stack.nfcClose
    rw [show w.stack.driver.tech = .rf14443a from h.tech]
  | closeClosed hclosed =>
    refine ⟨h, h.state.resolve_right fun hsel => ?_, rfl⟩
    rw [h.isOpen.mpr hsel] at hclosed
    cases hclosed

theorem chipClose_made (conf : Trf797xConf) (loss : Nat → Loss) (fuel junk : Nat) (shows : Shows)
    (w : ChipWorld) : ∃ w', w.Step conf loss fuel junk shows .close w' := by
  cases hopen : isOpen w.records with
  | true => exact ⟨_, .close hopen⟩
  | false => exact ⟨w, .closeClosed hopen⟩

end

theorem chipRuns_append {conf : Trf797xConf} {loss : Nat → Loss} {fuel junk : Nat} {shows : Shows}
    {w v w' : ChipWorld} {calls calls' : List FieldCall}
    (h : w.Runs conf loss fuel junk shows calls v)
    (h' : v.Runs conf loss fuel junk shows calls' w') :
    w.Runs conf loss fuel junk shows (calls ++ calls') w' := by
  induction calls generalizing w with
  | nil =>
    cases h
    exact h'
  | cons c calls ih =>
    obtain ⟨u, hstep, hrest⟩ := h
    exact ⟨u, hstep, ih hrest⟩

/-- Whatever has happened before, over the chip: once nothing is lost any more and such a tag is in
the field, a close, an open and any exchanges all return if the chip raises its interrupts one by
one, whatever the portions; and whenever they have returned, having heard what the tag sends, the
open has identified the tag and every exchange has succeeded and is right. -/
theorem chipVisits_recover (conf : Trf797xConf) (loss : Nat → Loss) (fuel junk : Nat)
    (shows later : Shows) (d : Driver) (regs : Registers)
    (hrf : regs regChipStatus &&& chipStatusRfOn = 0) (calls : List FieldCall)
    (htags : ∀ c ∈ calls, c.Announces) (w : ChipWorld)
    (hrun : (ChipWorld.start d regs).Runs conf loss (fuel + 2) junk shows calls w)
    (hfits : ∀ rec ∈ w.records, rec.FitsChip) (t : Tag) (ht : Reachable loss t w.field)
    (k : OpenStack) (as : List CallArgs) (hrx : ∀ a ∈ as, a.rxlen < 2 ^ 31) :
    (∀ chip : Presentation, ∃ w', w.Runs conf loss (fuel + 2) junk chip.asShows
      (.close :: .open_ (modSysClk conf) k :: as.map .transceive) w') ∧
    ∀ w', w.Runs conf loss (fuel + 2) junk later
        (.close :: .open_ (modSysClk conf) k :: as.map .transceive) w' →
      ∃ (o : OpenRecord) (xs : List ExchangeRecord) (earlier : List Record),
        w'.records = (xs.map .transceive).reverse ++ .open_ o :: earlier ∧
        o.ret = 0 ∧ Activated t o.driver o.after.state ∧
        xs.map ExchangeRecord.args = as ∧ ∀ x ∈ xs, 0 ≤ x.returned.ret ∧ x.Right t := by
  have hheld := chipHeld_runs (chipHeld_start d hrf) hrun htags hfits
  constructor
  · intro chip
    obtain ⟨v, hclose⟩ := chipClose_made conf loss (fuel + 2) junk chip.asShows w
    obtain ⟨hv, hoff, hfield⟩ := chipClose_off hheld hclose
    obtain ⟨u, hopen⟩ := chipOpen_made chip hv hoff (hfield ▸ ht) k
    obtain ⟨hcontact, -⟩ := chipContact_open hv hoff (hfield ▸ ht) hopen
    obtain ⟨w', hruns⟩ := chipContact_returns conf chip fuel junk as hcontact hrx
    exact ⟨w', v, hclose, u, hopen, hruns⟩
  · rintro w' ⟨v, hclose, u, hopen, hruns⟩
    obtain ⟨hv, hoff, hfield⟩ := chipClose_off hheld hclose
    obtain ⟨hcontact, o, hrecords, hret, hactivated⟩ :=
      chipContact_open hv hoff (hfield ▸ ht) hopen
    obtain ⟨xs, hrecords', hargs, hxs⟩ := chipContact_runs as hcontact hrx hruns
    refine ⟨o, xs, v.records, ?_, hret, hactivated, hargs, hxs⟩
    rw [hrecords', hrecords]

-- An exchange that lost an answer, and then the tag is moved.
theorem chipVisits_recover_moved_tag :
    ∃ (w w' : ChipWorld) (xs : List ExchangeRecord),
      (ChipWorld.start initDriver fun _ => 0).Runs ⟨false, true, .disabled⟩ (losesAnswer 6) 2 0
        anyShow (twoVisits.take 3 ++ [.enter (some (doubleTag true))]) w ∧
      w.Runs ⟨false, true, .disabled⟩ (losesAnswer 6) 2 0 Presentation.bytewise.asShows
        [.close, .open_ 0x01 clearStack, .transceive (CallArgs.ofBytes [0x42] 64)] w' ∧
      xs.map ExchangeRecord.args = [CallArgs.ofBytes [0x42] 64] ∧
      ∀ x ∈ xs, 0 ≤ x.returned.ret ∧ x.Right (doubleTag true) := by
  have hrun : (ChipWorld.runFor ⟨false, true, .disabled⟩ (losesAnswer 6) 2 0 8
      (ChipWorld.start initDriver fun _ => 0) (twoVisits.take 3)).any (fun w => decide
        (6 < w.field.log.length ∧ ∀ rec ∈ w.records, rec.FitsChip)) = true := by
    decide +kernel
  obtain ⟨v, hv, hboth⟩ := (Option.any_eq_true ..).mp hrun
  obtain ⟨hlong, hfits⟩ := of_decide_eq_true hboth
  let w : ChipWorld := { v with field := v.field.enter (some (doubleTag true)) }
  have hruns : (ChipWorld.start initDriver fun _ => 0).Runs ⟨false, true, .disabled⟩
      (losesAnswer 6) 2 0 anyShow (twoVisits.take 3 ++ [.enter (some (doubleTag true))]) w :=
    chipRuns_append (chipRunFor_runs hv) ⟨w, .enter _, rfl⟩
  have hquiet : ∀ i, w.field.log.length ≤ i → losesAnswer 6 i = .nothing := by
    intro i hi
    have hle : v.field.log.length ≤ i := hi
    exact if_neg (by omega)
  obtain ⟨hmade, hall⟩ := chipVisits_recover ⟨false, true, .disabled⟩ (losesAnswer 6) 0 0
    anyShow Presentation.bytewise.asShows initDriver (fun _ => 0) (by decide) _ (by decide) w hruns
    hfits (doubleTag true) ⟨rfl, by decide, by decide, hquiet⟩ clearStack
    [CallArgs.ofBytes [0x42] 64] (by decide)
  obtain ⟨w', hruns'⟩ := hmade Presentation.bytewise
  obtain ⟨-, xs, -, -, -, -, hargs, hxs⟩ := hall w' hruns'
  exact ⟨w, w', xs, hruns, hruns', hargs, hxs⟩

end NfceeFw.Trf797x
