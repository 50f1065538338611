import NfceeFw.Nfc.Contact
import NfceeFw.Trf797x.Lifecycle

/-!
# Visits — the whole stack with tags that come and go

The application opens, exchanges and closes as it likes, tags enter and leave the field at any time,
and any frame may be lost.  The stack is that of `Lifecycle`, its answers are those of the field.
-/

namespace NfceeFw.Trf797x

open NfceeFw.Reasoning NfceeFw.Nfc

/-! ## 1. Runs with a field -/

/-- What the application does, and what happens in the field. -/
inductive FieldCall where
  | open_ (probe : UInt8) (k : OpenStack)
  | transceive (a : CallArgs)
  | close
  | enter (tag : Option Tag)

/-- An `nfc_open` that has returned; `fresh` if the driver was off. -/
structure OpenRecord where
  fresh : Bool
  before : Field
  ret : Int
  driver : Driver
  after : Field

/-- An `nfc_transceive` that has returned. -/
structure ExchangeRecord where
  args : CallArgs
  driver : Driver
  before : Field
  returned : Returned
  after : Field

inductive Record where
  | open_ (o : OpenRecord)
  | transceive (x : ExchangeRecord)
  | close

/-- The stack, the field, and what has returned, latest first. -/
structure World where
  life : Life
  field : Field
  records : List Record

/-- The exchanges that an `nfc_open` comes to. -/
def Stack.openRun (conf : Trf797xConf) (probe : UInt8) (k : OpenStack) (s : Stack) : OpenRun :=
  match s.driver.tech with
  | .rf14443a | .rf14443b =>
    let r := s.powerOn conf probe
    if r.1 != 0 then .done ⟨r.1, OpenLocals.entry k r.2.driver⟩
    else
      match r.2.driver.state with
      | .idle | .halted => (openStart k r.2.driver).map Opened.settle
      | .powerOff | .selected => .done ⟨0, OpenLocals.entry k r.2.driver⟩
  | .rf15693 | .rfFelica => .done ⟨-einval, OpenLocals.entry k s.driver⟩

section

variable (conf : Trf797xConf) (loss : Nat → Loss)

-- `dev->open` switches the RF off before it switches it on
def World.openField (w : World) : Field :=
  if w.life.stack.driver.state = .powerOff then w.field.reset else w.field

/-- One call, of at most `fuel` exchanges; `none` if it has not returned by then.  A call that the
application may not make is not made. -/
def World.step (fuel : Nat) (w : World) : FieldCall → Option World
  | .open_ probe k =>
    let st := w.life.stack.openRun conf probe k
    match (nfcIso14443Open k).play (Nfc.field loss) fuel st w.openField with
    | (.wait _, _) => none
    | (.done r, after) =>
      let answers := (nfcIso14443Open k).heard (Nfc.field loss) fuel st w.openField
      let life := w.life.step conf (.open_ probe k answers)
      some ⟨life, after, .open_ ⟨decide (w.life.stack.driver.state = .powerOff), w.openField, r.ret,
        life.stack.driver, after⟩ :: w.records⟩
  | .transceive a =>
    if usable w.life.returns then
      let d := w.life.stack.driver
      let st := transceiveStart d a
      match (deviceTransceive a).play (Nfc.field loss) fuel st w.field with
      | (.wait _, _) => none
      | (.done r, after) =>
        let answers := (deviceTransceive a).heard (Nfc.field loss) fuel st w.field
        some ⟨w.life.step conf (.transceive a answers), after,
          .transceive ⟨a, d, w.field, r, after⟩ :: w.records⟩
    else some w
  | .close =>
    if usable w.life.returns then some ⟨w.life.step conf .close, w.field, .close :: w.records⟩
    else some w
  | .enter tag => some { w with field := w.field.enter tag }

-- Calls that all return.
def World.Runs : World → List FieldCall → World → Prop
  | w, [], w' => w' = w
  | w, c :: cs, w' => ∃ fuel v, World.step conf loss fuel w c = some v ∧ World.Runs v cs w'

end

-- No tag has come yet.
def World.start (d : Driver) (regs : Registers) : World :=
  ⟨Life.start d regs, ⟨none, .idle, []⟩, []⟩

/-! ## 2. What a call has to come to -/

namespace ExchangeRecord

-- The frames of the call, latest first.
def exchanges (x : ExchangeRecord) : List (List UInt8 × Loss) :=
  x.after.log.take (x.after.log.length - x.before.log.length)

/-- The tag `t`, in the field, had the command, and the call returned its response. -/
inductive Right (x : ExchangeRecord) (t : Tag) : Prop where
  | blocks (p p' : Picc) (tag : x.before.tag = some t)
      (before : x.before.state = .protocol p) (after : x.after.state = .protocol p')
      (delivered : Delivered t.card ⟨x.args, x.driver, ⟨p, []⟩, x.returned, ⟨p', []⟩⟩)
  | plain (commands : List (List UInt8)) (reply : List UInt8)
      (tag : x.before.tag = some t) (before : x.before.state = .active commands)
      (after : x.after.state = .active (commands ++ [x.args.command]))
      (replied : Replied t commands x.args x.returned reply)

theorem Right.tag {x : ExchangeRecord} {t : Tag} (h : x.Right t) : x.before.tag = some t := by
  cases h with
  | blocks _ _ htag _ _ _ => exact htag
  | plain _ _ htag _ _ _ => exact htag

-- A T=CL call that failed lost no more than a frame that the tag can do without.
def Harmless (x : ExchangeRecord) : Prop :=
  isTcl x.driver = true → x.returned.ret < 0 → HarmlessLoss x.exchanges

end ExchangeRecord

-- Since the last activation only harmless calls have failed.
def Undisturbed : List Record → Prop
  | [] => True
  | .open_ o :: earlier => o.fresh = true ∨ Undisturbed earlier
  | .transceive x :: earlier => x.Harmless ∧ Undisturbed earlier
  | .close :: earlier => Undisturbed earlier

-- The latest `nfc_open` that found the driver off.
def lastActivation : List Record → Option OpenRecord
  | [] => none
  | .open_ o :: earlier => if o.fresh then some o else lastActivation earlier
  | .transceive _ :: earlier | .close :: earlier => lastActivation earlier

/-- It has found `t` in the field. -/
def Identified (records : List Record) (t : Tag) : Prop :=
  ∃ o, lastActivation records = some o ∧ o.ret = 0 ∧ o.before.tag = some t

/-- An activation that succeeds has identified the tag that is there, and an exchange that succeeds
was one with the tag of the latest activation.  An `nfc_open` of an open driver returns 0, without a
frame. -/
def Record.Ok (earlier : List Record) : Record → Prop
  | .open_ o =>
    (o.fresh = true → o.ret = 0 → ∃ t, o.before.tag = some t ∧ Activated t o.driver o.after.state) ∧
    (o.fresh = false → o.ret = 0 ∧ o.after = o.before)
  | .transceive x =>
    Undisturbed earlier → 0 ≤ x.returned.ret → ∃ t, Identified earlier t ∧ x.Right t
  | .close => True

def AllOk (records : List Record) : Prop :=
  ∀ later rec earlier, records = later ++ rec :: earlier → rec.Ok earlier

/-! ## 3. Driver and field in step -/

/-- A driver that has selected `t`, and the field: the tag is away or was replaced, or the two are
in the block protocol, or they exchange plain frames. -/
inductive Linked (clean : Prop) (t : Tag) (d : Driver) (f : Field) : Prop where
  | away (idle : f.state = .idle)
  | blocks (p : Picc) (tag : f.tag = some t) (state : f.state = .protocol p)
      (sized : Sized d) (synced : clean → Nfc.Synced d p)
  | plain (commands : List (List UInt8)) (tag : f.tag = some t)
      (state : f.state = .active commands) (raw : isTcl d = false) (sak : tclSak t.id.sak = false)

theorem Linked.mono {clean clean' : Prop} {t : Tag} {d : Driver} {f : Field}
    (h : Linked clean t d f) (hclean : clean' → clean) : Linked clean' t d f := by
  cases h with
  | away hidle => exact .away hidle
  | blocks p htag hstate hsized hsynced =>
    exact .blocks p htag hstate hsized fun hdone => hsynced (hclean hdone)
  | plain commands htag hstate hraw hsak => exact .plain commands htag hstate hraw hsak

-- Driver and field after the calls on record.
def LinkedTo (records : List Record) (d : Driver) (f : Field) : Prop :=
  ∃ t, Identified records t ∧ Linked (Undisturbed records) t d f

-- The tag in the field, if any, tells the driver its frame size.
def Field.Announces (f : Field) : Prop := ∀ t, f.tag = some t → t.Announces

structure Held (w : World) : Prop where
  lives : Lives w.life
  announces : Field.Announces w.field
  linked : w.life.stack.driver.state = .selected →
    LinkedTo w.records w.life.stack.driver w.field
  allOk : AllOk w.records

theorem allOk_cons {rec : Record} {records : List Record} (hrec : rec.Ok records)
    (h : AllOk records) : AllOk (rec :: records) := by
  intro later r earlier heq
  cases later with
  | nil =>
    obtain ⟨rfl, rfl⟩ := List.cons.inj heq
    exact hrec
  | cons r' later => exact h later r earlier (List.cons.inj heq).2

theorem held_start (d : Driver) {regs : Registers}
    (hrf : regs regChipStatus &&& chipStatusRfOn = 0) : Held (World.start d regs) where
  lives := lives_start d hrf
  announces := nofun
  linked := nofun
  allOk := fun later r earlier heq => by cases later <;> cases heq

-- A usable driver is a selected one.
theorem selected_of_usable {s : Life} (h : Lives s) (husable : usable s.returns = true) :
    s.stack.driver.state = .selected :=
  h.selected.mpr (h.usable.symm.trans husable)

section

variable {conf : Trf797xConf} {loss : Nat → Loss} {fuel : Nat} {w w' : World}

/-! ## 4. The end of an exchange -/

-- What `nfc_transceive` leaves of the stack, if the answers end it.
theorem nfcTransceive_done {s : Stack} {a : CallArgs} {answers : List Answer} {r : Returned}
    (htech : s.driver.tech = .rf14443a)
    (hdone : (nfcIso14443Transceive a).feed (transceiveStart s.driver a) answers = .done r) :
    ∃ t : Stack, s.nfcTransceive answers a = some (r.ret, t) ∧ t.driver = r.final.driver := by
  unfold Stack.nfcTransceive
  rw [htech]
  dsimp only
  rw [hdone]
  exact ⟨_, rfl, rfl⟩

/-- An `nfc_transceive` that the application may make. -/
theorem step_transceive {a : CallArgs} (h : Lives w.life) (husable : usable w.life.returns = true)
    (hstep : w.step conf loss fuel (.transceive a) = some w') :
    ∃ (r : Returned) (t : Stack), Lives ⟨t, .transceive r.ret :: w.life.returns⟩ ∧
      (deviceTransceive a).play (Nfc.field loss) fuel
        (transceiveStart w.life.stack.driver a) w.field = (.done r, w'.field) ∧
      w'.life = ⟨t, .transceive r.ret :: w.life.returns⟩ ∧ t.driver = r.final.driver ∧
      w'.records = .transceive ⟨a, w.life.stack.driver, w.field, r, w'.field⟩ :: w.records := by
  unfold World.step at hstep
  dsimp only at hstep
  rw [if_pos husable] at hstep
  have hfeed := (deviceTransceive a).play_eq_feed (Nfc.field loss) fuel
    (transceiveStart w.life.stack.driver a) w.field
  split at hstep
  · cases hstep
  · rename_i r after hplay
    rw [hplay] at hfeed
    have hdone : (nfcIso14443Transceive a).feed (transceiveStart w.life.stack.driver a)
        ((deviceTransceive a).heard (Nfc.field loss) fuel
          (transceiveStart w.life.stack.driver a) w.field) = .done r :=
      (Program.feed_via _ _ _ _).symm.trans hfeed.symm
    obtain ⟨t, hcall, hdriver⟩ := nfcTransceive_done h.tech hdone
    have hlife : w.life.step conf (.transceive a ((deviceTransceive a).heard (Nfc.field loss) fuel
        (transceiveStart w.life.stack.driver a) w.field)) =
        ⟨t, .transceive r.ret :: w.life.returns⟩ := by
      unfold Life.step
      dsimp only
      rw [if_pos husable, hcall]
    rw [hlife] at hstep
    cases hstep
    exact ⟨r, t, lives_transceive h hcall, hplay, rfl, hdriver, rfl⟩

-- The frames of a call that has been made over the channel.
theorem exchanges_made {x : ExchangeRecord} {made : List (List UInt8 × Loss)}
    (h : x.after.log = made ++ x.before.log) : x.exchanges = made := by
  unfold ExchangeRecord.exchanges
  rw [h, List.length_append, Nat.add_sub_cancel, List.take_left]

/-- A T=CL call with the tag. -/
theorem blocks_link {x : ExchangeRecord} {n : Nat} {t : Tag} {p : Picc} {clean : Prop}
    (htag : x.before.tag = some t) (hstate : x.before.state = .protocol p)
    (hsized : Sized x.driver) (hsynced : clean → Nfc.Synced x.driver p)
    (hrx : x.args.rxlen < 2 ^ 32)
    (hplay : (deviceTransceive x.args).play (Nfc.field loss) n
      (transceiveStart x.driver x.args) x.before = (.done x.returned, x.after)) :
    Linked (x.Harmless ∧ clean) t x.returned.final.driver x.after ∧
      (clean → 0 ≤ x.returned.ret → x.Right t) := by
  obtain ⟨now, hchannel, hmeets⟩ := contact_blocks hsized hrx htag hstate hplay
  obtain ⟨made, hmade, hne⟩ := hmeets.made
  have hended : clean → Ended t.card loss x.args (x.before.air p) x.returned now :=
    fun hclean => play_ended hsized hrx (hsynced hclean) hchannel
  have hlog : now.log = made.map unframed ++ (x.before.air p).log := by
    rw [hmeets.log, hmade, List.map_append]
    rfl
  constructor
  · refine .blocks now.picc hmeets.tag hmeets.state (play_sized hsized hchannel) ?_
    rintro ⟨hharmless, hclean⟩
    apply (hended hclean).synced hlog
    intro hneg
    rw [harmlessLoss_unframed hne, ← exchanges_made hmade]
    exact hharmless hsized.tcl hneg
  · intro hclean hret
    cases hended hclean with
    | lost ret => exact absurd (ret ▸ hret) (by decide)
    | finished hfin =>
      refine .blocks p now.picc htag hstate hmeets.state ?_
      exact Finished.delivered hfin hrx hret

/-- An exchange, whatever is in the field. -/
theorem exchange_link {x : ExchangeRecord} {n : Nat} {t : Tag} {clean : Prop}
    (h : Linked clean t x.driver x.before) (hrx : x.args.rxlen < 2 ^ 32)
    (htx : isTcl x.driver = false → x.args.txlen < 2 ^ 29)
    (hplay : (deviceTransceive x.args).play (Nfc.field loss) n
      (transceiveStart x.driver x.args) x.before = (.done x.returned, x.after)) :
    Linked (x.Harmless ∧ clean) t x.returned.final.driver x.after ∧
      (clean → 0 ≤ x.returned.ret → x.Right t) := by
  cases h with
  | away hidle =>
    obtain ⟨hneg, -, hafter⟩ := contact_idle hidle hplay
    exact ⟨.away hafter, fun _ hret => absurd hret (by omega)⟩
  | blocks p htag hstate hsized hsynced =>
    exact blocks_link htag hstate hsized hsynced hrx hplay
  | plain commands htag hstate hraw hsak =>
    obtain ⟨hdriver, hafter, ⟨commands', hstate'⟩, hright⟩ :=
      contact_plain htag hstate hsak hraw (htx hraw) hplay
    refine ⟨.plain commands' hafter hstate' (hdriver ▸ hraw) hsak, fun _ hret => ?_⟩
    obtain ⟨hactive, reply, hreplied⟩ := hright hret
    exact .plain commands reply htag hstate hactive hreplied

theorem held_transceive {a : CallArgs} (h : Held w) (hrx : a.rxlen < 2 ^ 32)
    (htx : isTcl w.life.stack.driver = false → a.txlen < 2 ^ 29)
    (hstep : w.step conf loss fuel (.transceive a) = some w') : Held w' := by
  by_cases husable : usable w.life.returns = true
  · obtain ⟨r, t, hlives, hplay, hlife, hdriver, hrecords⟩ := step_transceive h.lives husable hstep
    obtain ⟨tag, hidentified, hlinked⟩ := h.linked (selected_of_usable h.lives husable)
    obtain ⟨hnext, hright⟩ :=
      exchange_link (x := ⟨a, w.life.stack.driver, w.field, r, w'.field⟩) hlinked hrx htx hplay
    have hkept := play_tag (deviceTransceive a) loss fuel (transceiveStart w.life.stack.driver a)
      w.field
    rw [hplay] at hkept
    refine ⟨hlife ▸ hlives, fun t' ht' => h.announces t' (hkept ▸ ht'), fun _ => ?_, ?_⟩
    · rw [hlife, hrecords]
      refine ⟨tag, hidentified, ?_⟩
      show Linked _ tag t.driver w'.field
      rw [hdriver]
      exact hnext
    · rw [hrecords]
      exact allOk_cons (fun hclean hret => ⟨tag, hidentified, hright hclean hret⟩) h.allOk
  · unfold World.step at hstep
    dsimp only at hstep
    rw [if_neg husable] at hstep
    cases hstep
    exact h

theorem held_close (h : Held w) (hstep : w.step conf loss fuel .close = some w') : Held w' := by
  unfold World.step at hstep
  dsimp only at hstep
  by_cases husable : usable w.life.returns = true
  · rw [if_pos husable] at hstep
    cases hstep
    have hlives : Lives (w.life.step conf .close) := lives_step h.lives .close
    refine ⟨hlives, h.announces, fun hsel => ?_, allOk_cons trivial h.allOk⟩
    -- the driver is off after a close
    have hoff : (w.life.step conf .close).stack.driver.state = .powerOff := by
      unfold Life.step
      dsimp only
      rw [if_pos husable]
      unfold Stack.nfcClose
      rw [h.lives.tech]
    rw [hoff] at hsel
    cases hsel
  · rw [if_neg husable] at hstep
    cases hstep
    exact h

theorem held_enter {tag : Option Tag} (h : Held w) (htag : ∀ t ∈ tag, t.Announces)
    (hstep : w.step conf loss fuel (.enter tag) = some w') : Held w' := by
  cases hstep
  refine ⟨h.lives, htag, fun hsel => ?_, h.allOk⟩
  obtain ⟨t, hidentified, -⟩ := h.linked hsel
  exact ⟨t, hidentified, .away rfl⟩

/-! ## 5. The end of an open -/

theorem activate_done (conf : Trf797xConf) {s : Stack} {k : OpenStack} {answers : List Answer}
    {r : Opened} (hidle : s.driver.state = .idle)
    (hdone : (nfcIso14443Open k).feed ((openStart k s.driver).map Opened.settle) answers =
      .done r) :
    ∃ t : Stack, s.activate conf k answers = some (r.ret, t) ∧ t.driver = r.final.driver := by
  unfold Stack.activate
  rw [hidle]
  dsimp only
  rw [hdone]
  refine ⟨_, rfl, ?_⟩
  split
  · rfl
  · rfl

-- The device of an `nfc_open` on a driver that is off does not start, or the activation begins.
theorem openRun_off (conf : Trf797xConf) (probe : UInt8) (k : OpenStack) {s : Stack}
    (htech : s.driver.tech = .rf14443a) (hoff : s.driver.state = .powerOff) :
    (∃ ret drv, ret ≠ 0 ∧ drv.rfOn = false ∧
      s.powerOn conf probe = (ret, { s with device := drv, calls := s.calls ++ [.open_ ret] }) ∧
      s.openRun conf probe k = .done ⟨ret, OpenLocals.entry k s.driver⟩) ∨
    ∃ drv, drv.rfOn = true ∧
      s.powerOn conf probe = (0, {
        driver := { s.driver with fsd := deviceFrameSize, state := .idle }
        device := drv
        calls := s.calls ++ [.open_ 0, .ioctl] }) ∧
      s.openRun conf probe k = (openStart k
        { s.driver with fsd := deviceFrameSize, state := .idle }).map Opened.settle := by
  rcases powerOn_cases conf probe hoff with
    ⟨ret, drv, hnonzero, -, hrf, hpower⟩ | ⟨drv, -, hrf, hpower⟩
  · refine .inl ⟨ret, drv, hnonzero, hrf, hpower, ?_⟩
    unfold Stack.openRun
    rw [htech, hpower]
    exact if_pos (bne_iff_ne.mpr hnonzero)
  · refine .inr ⟨drv, hrf, hpower, ?_⟩
    unfold Stack.openRun
    rw [htech, hpower]
    rfl

-- An `nfc_open` on a selected driver returns at once.
theorem openRun_selected (conf : Trf797xConf) (probe : UInt8) (k : OpenStack) {s : Stack}
    (htech : s.driver.tech = .rf14443a) (hsel : s.driver.state = .selected) :
    s.powerOn conf probe = (0, s) ∧
      s.openRun conf probe k = .done ⟨0, OpenLocals.entry k s.driver⟩ := by
  have hpower : s.powerOn conf probe = (0, s) := by
    unfold Stack.powerOn
    rw [if_neg (by rw [hsel]; exact nofun)]
  refine ⟨hpower, ?_⟩
  unfold Stack.openRun
  rw [htech, hpower]
  dsimp only
  rw [hsel]
  rfl

/-- An activation of an idle driver, with an unpowered tag or none in the field. -/
theorem open_activated {d : Driver} {k : OpenStack} {f f' : Field} {r : Opened}
    (htech : d.tech = .rf14443a) (hfsd : d.fsd = deviceFrameSize) (hidle : f.state = .idle)
    (hplay : (nfcIso14443Open k).play (Nfc.field loss) fuel ((openStart k d).map Opened.settle) f =
      (.done r, f')) (hzero : r.ret = 0) :
    ∃ tag, f.tag = some tag ∧ f'.tag = some tag ∧ Activated tag r.final.driver f'.state := by
  -- the call that `selection` speaks of is the same one
  obtain ⟨n, r', g, made, hplay', -, hiff, hends⟩ := selection k d loss hidle hfsd
  have hsame : (nfcIso14443Open k).play (Nfc.field loss) n ((openStart k d).map Opened.settle) f =
      (.done r'.settle, g) := by
    show ((nfcIso14443aOpen k).map Opened.settle).play _ n _ f = _
    rw [Program.play_map, hplay']
    rfl
  obtain ⟨rfl, rfl⟩ := Program.play_unique _ _ hplay hsame
  obtain ⟨-, tag, htag, -⟩ := hiff.mp hzero
  obtain ⟨hopened, hstate⟩ := hends tag htag hzero
  have hgtag := play_tag (nfcIso14443aOpen k) loss n (openStart k d) f
  rw [hplay'] at hgtag
  exact ⟨tag, htag, hgtag.trans htag, activated_settle tag k htech hfsd hzero hopened hstate⟩

/-- An `nfc_open` on a driver that is off. -/
theorem open_off {s : Stack} {probe : UInt8} {k : OpenStack} {f f' : Field} {r : Opened}
    (htech : s.driver.tech = .rf14443a) (hoff : s.driver.state = .powerOff)
    (hidle : f.state = .idle)
    (hplay : (nfcIso14443Open k).play (Nfc.field loss) fuel (s.openRun conf probe k) f =
      (.done r, f')) :
    ∃ t : Stack, s.nfcOpen conf probe k ((nfcIso14443Open k).heard (Nfc.field loss) fuel
        (s.openRun conf probe k) f) = some (r.ret, t) ∧
      (r.ret = 0 → ∃ tag, f.tag = some tag ∧ f'.tag = some tag ∧
        Activated tag t.driver f'.state) := by
  rcases openRun_off conf probe k htech hoff with
    ⟨e, drv, hnonzero, -, hpower, hrun⟩ | ⟨drv, -, hpower, hrun⟩
  · rw [hrun, Program.play_done] at hplay
    cases hplay
    rw [nfcOpen_powerOn htech hpower, if_pos (bne_iff_ne.mpr hnonzero)]
    exact ⟨_, rfl, fun hzero => absurd hzero hnonzero⟩
  · rw [nfcOpen_powerOn htech hpower, if_neg (show ¬ ((0 : Int) != 0) = true by decide)]
    have hfeed := (nfcIso14443Open k).play_eq_feed (Nfc.field loss) fuel (s.openRun conf probe k) f
    rw [hplay] at hfeed
    rw [hrun] at hplay hfeed ⊢
    let d : Driver := { s.driver with fsd := deviceFrameSize, state := .idle }
    let u : Stack := ⟨d, drv, s.calls ++ [.open_ 0, .ioctl]⟩
    obtain ⟨t, hactivate, hdriver⟩ := activate_done conf (s := u) rfl hfeed.symm
    refine ⟨t, hactivate, fun hzero => ?_⟩
    rw [hdriver]
    exact open_activated (d := d) htech rfl hidle hplay hzero

theorem activated_linked {tag : Tag} {d : Driver} {f : Field} (clean : Prop)
    (h : Activated tag d f.state) (htag : f.tag = some tag) (hannounces : tag.Announces) :
    Linked clean tag d f := by
  have hstate := h.tag
  unfold Tag.opened at hstate
  cases htcl : tclSak tag.id.sak with
  | true =>
    rw [htcl, if_pos rfl] at hstate
    exact .blocks Picc.selected htag hstate (h.sized hannounces htcl) fun _ =>
      synced_selected h.block
  | false =>
    rw [htcl, if_neg Bool.false_ne_true] at hstate
    exact .plain [] htag hstate (h.tcl.trans htcl) htcl

/-- An `nfc_open` that has returned. -/
theorem step_open {probe : UInt8} {k : OpenStack}
    (hstep : w.step conf loss fuel (.open_ probe k) = some w') :
    ∃ r : Opened, (nfcIso14443Open k).play (Nfc.field loss) fuel
        (w.life.stack.openRun conf probe k) w.openField = (.done r, w'.field) ∧
      w'.life = w.life.step conf (.open_ probe k ((nfcIso14443Open k).heard (Nfc.field loss) fuel
        (w.life.stack.openRun conf probe k) w.openField)) ∧
      w'.records = .open_ ⟨decide (w.life.stack.driver.state = .powerOff), w.openField, r.ret,
        w'.life.stack.driver, w'.field⟩ :: w.records := by
  unfold World.step at hstep
  dsimp only at hstep
  split at hstep
  · cases hstep
  · rename_i r after hplay
    cases hstep
    exact ⟨r, hplay, rfl, rfl⟩

/-- It found the driver off. -/
theorem step_open_off {probe : UInt8} {k : OpenStack} (h : Lives w.life)
    (hoff : w.life.stack.driver.state = .powerOff)
    (hstep : w.step conf loss fuel (.open_ probe k) = some w') :
    ∃ (r : Opened) (t : Stack), (nfcIso14443Open k).play (Nfc.field loss) fuel
        (w.life.stack.openRun conf probe k) w.openField = (.done r, w'.field) ∧
      w'.life = ⟨t, .open_ r.ret :: w.life.returns⟩ ∧
      w'.records = .open_ ⟨true, w.openField, r.ret, t.driver, w'.field⟩ :: w.records ∧
      (r.ret = 0 → ∃ tag, w.openField.tag = some tag ∧ w'.field.tag = some tag ∧
        Activated tag t.driver w'.field.state) := by
  obtain ⟨r, hplay, hlife, hrecords⟩ := step_open hstep
  have hidle : w.openField.state = .idle := by
    unfold World.openField
    rw [if_pos hoff]
    rfl
  obtain ⟨t, hopen, hzero⟩ := open_off h.tech hoff hidle hplay
  have hstack : w'.life = ⟨t, .open_ r.ret :: w.life.returns⟩ := by
    rw [hlife]
    unfold Life.step
    dsimp only
    rw [hopen]
  rw [hstack, decide_eq_true hoff] at hrecords
  exact ⟨r, t, hplay, hstack, hrecords, hzero⟩

/-- It found the driver selected, and leaves all as it is. -/
theorem step_open_selected {probe : UInt8} {k : OpenStack} (h : Lives w.life)
    (hsel : w.life.stack.driver.state = .selected)
    (hstep : w.step conf loss fuel (.open_ probe k) = some w') :
    w'.life.stack = w.life.stack ∧ w'.field = w.field ∧
      ∃ o : OpenRecord, o.fresh = false ∧ o.ret = 0 ∧ o.after = o.before ∧
        w'.records = .open_ o :: w.records := by
  obtain ⟨r, hplay, hlife, hrecords⟩ := step_open hstep
  have hfresh : decide (w.life.stack.driver.state = .powerOff) = false := by
    rw [hsel]
    rfl
  have hfield : w.openField = w.field := by
    unfold World.openField
    rw [if_neg (by rw [hsel]; exact nofun)]
  obtain ⟨-, hrun⟩ := openRun_selected conf probe k h.tech hsel
  rw [hrun, Program.play_done, hfield] at hplay
  obtain ⟨hr, hafter⟩ := Prod.mk.inj hplay
  have hret : r.ret = 0 := congrArg Opened.ret (Status.done.inj hr).symm
  refine ⟨?_, hafter.symm, _, hfresh, hret, hafter.symm.trans hfield.symm, hrecords⟩
  rw [hlife]
  unfold Life.step
  dsimp only
  split
  · rename_i ret t hopen
    exact (nfcOpen_selected h.tech hsel hopen).2
  · rfl

theorem openField_tag (w : World) : w.openField.tag = w.field.tag := by
  unfold World.openField
  split
  · rfl
  · rfl

-- An `nfc_open` of an open driver does not count.
theorem linkedTo_reopened {o : OpenRecord} (hfresh : o.fresh = false) {records : List Record}
    {d : Driver} {f : Field} (h : LinkedTo records d f) : LinkedTo (.open_ o :: records) d f := by
  obtain ⟨t, ⟨o', hlast, hzero, htag⟩, hlinked⟩ := h
  refine ⟨t, ⟨o', ?_, hzero, htag⟩, hlinked.mono fun hclean => ?_⟩
  · unfold lastActivation
    rw [hfresh]
    exact hlast
  · exact hclean.resolve_left (by rw [hfresh]; exact Bool.false_ne_true)

theorem held_open {probe : UInt8} {k : OpenStack} (h : Held w)
    (hstep : w.step conf loss fuel (.open_ probe k) = some w') : Held w' := by
  have hlives : Lives w'.life := by
    obtain ⟨r, -, hlife, -⟩ := step_open hstep
    exact hlife ▸ lives_step h.lives _
  rcases h.lives.state with hoff | hsel
  · obtain ⟨r, t, hplay, hlife, hrecords, hzero⟩ := step_open_off h.lives hoff hstep
    have htag : w'.field.tag = w.field.tag := by
      have hkept := play_tag (nfcIso14443Open k) loss fuel (w.life.stack.openRun conf probe k)
        w.openField
      rw [hplay] at hkept
      exact hkept.trans (openField_tag w)
    refine ⟨hlives, fun t' ht' => h.announces t' (htag ▸ ht'), fun hsel => ?_, ?_⟩
    · have hret : r.ret = 0 := by
        have hlast := hlives.selected.mp hsel
        rw [hlife] at hlast
        exact eq_of_beq hlast
      obtain ⟨tag, hbefore, hafter, hactivated⟩ := hzero hret
      rw [hlife, hrecords]
      refine ⟨tag, ⟨_, rfl, hret, hbefore⟩, activated_linked _ hactivated hafter ?_⟩
      exact h.announces tag (htag.symm.trans hafter)
    · rw [hrecords]
      refine allOk_cons ⟨fun _ hret => ?_, nofun⟩ h.allOk
      obtain ⟨tag, htag, -, hactivated⟩ := hzero hret
      exact ⟨tag, htag, hactivated⟩
  · obtain ⟨hstack, hfield, o, hfresh, hret, hsame, hrecords⟩ :=
      step_open_selected h.lives hsel hstep
    refine ⟨hlives, hfield ▸ h.announces, fun _ => ?_, ?_⟩
    · rw [hstack, hfield, hrecords]
      exact linkedTo_reopened hfresh (h.linked hsel)
    · rw [hrecords]
      refine allOk_cons ⟨fun hopened => ?_, fun _ => ⟨hret, hsame⟩⟩ h.allOk
      rw [hfresh] at hopened
      cases hopened

end

/-! ## 6. Whole runs -/

-- The lengths of an exchange fit the integers and bit fields that carry them, and a T=CL tag that
-- enters sends an ATS with a format byte.
def FieldCall.Fits : FieldCall → Prop
  | .transceive a => a.rxlen < 2 ^ 32 ∧ a.txlen < 2 ^ 29
  | .enter tag => ∀ t ∈ tag, t.Announces
  | .open_ .. | .close => True

instance : DecidablePred FieldCall.Fits
  | .transceive _ => inferInstanceAs (Decidable (_ ∧ _))
  | .enter _ => inferInstanceAs (Decidable (∀ t ∈ _, _))
  | .open_ .. | .close => .isTrue trivial

section

variable {conf : Trf797xConf} {loss : Nat → Loss} {w w' : World}

theorem held_step {fuel : Nat} {c : FieldCall} (h : Held w) (hfits : c.Fits)
    (hstep : w.step conf loss fuel c = some w') : Held w' := by
  cases c with
  | open_ probe k => exact held_open h hstep
  | transceive a => exact held_transceive h hfits.1 (fun _ => hfits.2) hstep
  | close => exact held_close h hstep
  | enter tag => exact held_enter h hfits hstep

theorem held_runs {calls : List FieldCall} (h : Held w) (hfits : ∀ c ∈ calls, c.Fits)
    (hrun : w.Runs conf loss calls w') : Held w' := by
  induction calls generalizing w with
  | nil => exact hrun ▸ h
  | cons c calls ih =>
    obtain ⟨fuel, v, hstep, hrest⟩ := hrun
    exact ih (held_step h (hfits c (List.mem_cons_self ..)) hstep)
      (fun c' hc' => hfits c' (List.mem_cons_of_mem _ hc')) hrest

end

/-- Whatever tags come and go and whatever frames are lost: an activation that succeeds has
identified the tag in the field, and an exchange that succeeds was one with the tag of the latest
activation, if since then no exchange failed but by a harmless loss.  An activation ends all
disturbance; an `nfc_open` of an open driver is none. -/
theorem visits_right (conf : Trf797xConf) (loss : Nat → Loss) (d : Driver) (regs : Registers)
    (hrf : regs regChipStatus &&& chipStatusRfOn = 0) (calls : List FieldCall)
    (hfits : ∀ c ∈ calls, c.Fits) (w : World)
    (hrun : (World.start d regs).Runs conf loss calls w) : AllOk w.records :=
  (held_runs (held_start d hrf) hfits hrun).allOk

/-- A run with `fuel` exchanges for each call. -/
def World.runFor (conf : Trf797xConf) (loss : Nat → Loss) (fuel : Nat) :
    World → List FieldCall → Option World
  | w, [] => some w
  | w, c :: cs => (w.step conf loss fuel c).bind fun v => World.runFor conf loss fuel v cs

theorem runFor_runs {conf : Trf797xConf} {loss : Nat → Loss} {fuel : Nat} {w w' : World}
    {calls : List FieldCall} (h : World.runFor conf loss fuel w calls = some w') :
    w.Runs conf loss calls w' := by
  induction calls generalizing w with
  | nil => exact (Option.some.inj h).symm
  | cons c calls ih =>
    obtain ⟨v, hstep, hrest⟩ := Option.bind_eq_some_iff.mp h
    exact ⟨fuel, v, hstep, ih hrest⟩

def Record.ret : Record → Int
  | .open_ o => o.ret
  | .transceive x => x.returned.ret
  | .close => 0

-- Two visits of one tag; in the first one, an answer of the tag is lost.
def twoVisits : List FieldCall :=
  let exchange := FieldCall.transceive (CallArgs.ofBytes [0x42] 64)
  [.enter (some (doubleTag true)), .open_ 0x01 clearStack, exchange, .close,
    .open_ 0x01 clearStack, exchange]

def losesAnswer (k i : Nat) : Loss := if i = k then .cardFrame else .nothing

theorem visits_right_two_visits :
    ∃ w, (World.start initDriver fun _ => 0).Runs ⟨false, true, .disabled⟩ (losesAnswer 6)
        twoVisits w ∧ w.records.map Record.ret = [1, 0, 0, -eio, 0] ∧ AllOk w.records := by
  have hrun : (World.runFor ⟨false, true, .disabled⟩ (losesAnswer 6) 8
      (World.start initDriver fun _ => 0) twoVisits).any
        (fun w => decide (w.records.map Record.ret = [1, 0, 0, -eio, 0])) = true := by
    decide +kernel
  obtain ⟨w, hw, hrets⟩ := (Option.any_eq_true ..).mp hrun
  have hruns := runFor_runs hw
  exact ⟨w, hruns, of_decide_eq_true hrets, visits_right ⟨false, true, .disabled⟩ (losesAnswer 6)
    initDriver (fun _ => 0) (by decide) twoVisits (by decide) w hruns⟩

/-! ## 7. Recovery -/

/-- The stack and a T=CL tag are in step, and nothing is lost from now on. -/
structure InContact (loss : Nat → Loss) (t : Tag) (w : World) : Prop where
  held : Held w
  usable : usable w.life.returns = true
  clean : Undisturbed w.records
  tag : w.field.tag = some t
  protocol : ∃ p, w.field.state = .protocol p
  quiet : ∀ i, w.field.log.length ≤ i → loss i = .nothing

section

variable (conf : Trf797xConf) {loss : Nat → Loss} {t : Tag} {w : World}

theorem InContact.synced (h : InContact loss t w) : ∃ p, w.field.state = .protocol p ∧
    Sized w.life.stack.driver ∧ Nfc.Synced w.life.stack.driver p := by
  obtain ⟨p, hp⟩ := h.protocol
  obtain ⟨t', -, hlinked⟩ := h.held.linked (selected_of_usable h.held.lives h.usable)
  cases hlinked with
  | away hidle =>
    rw [hidle] at hp
    cases hp
  | blocks p' htag hstate hsized hsynced => exact ⟨p', hstate, hsized, hsynced h.clean⟩
  | plain commands htag hstate =>
    rw [hstate] at hp
    cases hp

theorem quiet_later {f f' : Field} {made : List (List UInt8 × Loss)}
    (hquiet : ∀ i, f.log.length ≤ i → loss i = .nothing) (hmade : f'.log = made ++ f.log) :
    ∀ i, f'.log.length ≤ i → loss i = .nothing := by
  intro i hi
  rw [hmade, List.length_append] at hi
  exact hquiet i (by omega)

/-- An exchange in contact succeeds, is right, and leaves the two in contact. -/
theorem inContact_transceive (h : InContact loss t w) (a : CallArgs) (hrx : a.rxlen < 2 ^ 31) :
    ∃ (fuel : Nat) (w' : World) (x : ExchangeRecord),
      w.step conf loss fuel (.transceive a) = some w' ∧ InContact loss t w' ∧
      w'.records = .transceive x :: w.records ∧ x.args = a ∧ 0 ≤ x.returned.ret ∧ x.Right t := by
  have hrx' : a.rxlen < 2 ^ 32 := by omega
  obtain ⟨p, hstate, hsized, hsynced⟩ := h.synced
  obtain ⟨fuel, r, f', hplay, hret⟩ :=
    contact_delivers hsized hrx hsynced h.tag hstate h.quiet
  obtain ⟨w', hstep⟩ : ∃ w', w.step conf loss fuel (.transceive a) = some w' := by
    unfold World.step
    dsimp only
    rw [if_pos h.usable, hplay]
    exact ⟨_, rfl⟩
  obtain ⟨r', u, hlives, hplay', hlife, hdriver, hrecords⟩ :=
    step_transceive h.held.lives h.usable hstep
  obtain ⟨hr, hf⟩ := Program.play_unique _ _ hplay hplay'
  subst hr
  have hheld := held_transceive h.held hrx'
    (fun hraw => absurd (hsized.tcl.symm.trans hraw) Bool.false_ne_true.symm) hstep
  have hright := (blocks_link (x := ⟨a, w.life.stack.driver, w.field, r, w'.field⟩) h.tag hstate
    hsized (fun _ => hsynced) hrx' hplay').2 trivial hret
  obtain ⟨now, -, hmeets⟩ := contact_blocks hsized hrx' h.tag hstate hplay'
  obtain ⟨made, hmade, -⟩ := hmeets.made
  refine ⟨fuel, w', _, hstep, ?_, hrecords, rfl, hret, hright⟩
  exact {
    held := hheld
    usable := by rw [hlife]; exact h.usable
    clean := by
      rw [hrecords]
      exact ⟨fun _ hneg => absurd hneg (Int.not_lt.mpr hret), h.clean⟩
    tag := hmeets.tag
    protocol := ⟨_, hmeets.state⟩
    quiet := quiet_later h.quiet hmade }

theorem inContact_exchanges (as : List CallArgs) (h : InContact loss t w)
    (hrx : ∀ a ∈ as, a.rxlen < 2 ^ 31) :
    ∃ (w' : World) (xs : List ExchangeRecord), w.Runs conf loss (as.map .transceive) w' ∧
      w'.records = (xs.map .transceive).reverse ++ w.records ∧
      xs.map ExchangeRecord.args = as ∧ ∀ x ∈ xs, 0 ≤ x.returned.ret ∧ x.Right t := by
  induction as generalizing w with
  | nil => exact ⟨w, [], rfl, rfl, rfl, List.forall_mem_nil _⟩
  | cons a as ih =>
    obtain ⟨fuel, v, x, hstep, hcontact, hrecords, hargs, hx⟩ :=
      inContact_transceive conf h a (hrx a (List.mem_cons_self ..))
    obtain ⟨w', xs, hruns, hrecords', hargs', hxs⟩ :=
      ih hcontact fun b hb => hrx b (List.mem_cons_of_mem _ hb)
    refine ⟨w', x :: xs, ⟨fuel, v, hstep, hruns⟩, ?_, ?_, List.forall_mem_cons.mpr ⟨hx, hxs⟩⟩
    · rw [hrecords', hrecords]
      simp
    · rw [List.map_cons, hargs, hargs']

-- The chip answers the probe, whatever it was doing.
theorem powerOn_ready (s : Stack) (hoff : s.driver.state = .powerOff) :
    ∃ u : Stack, s.powerOn conf (modSysClk conf) = (0, u) ∧
      u.driver = { s.driver with fsd := deviceFrameSize, state := .idle } := by
  have hstart : trf797xStart conf (modSysClk conf) s.device =
      (0, ⟨.idle, s.device.regs.write (trf797xInitialize conf)⟩) := by
    unfold trf797xStart
    rw [bne_self_eq_false]
    rfl
  unfold Stack.powerOn nfcDeviceOpen
  rw [if_pos hoff, hstart]
  exact ⟨_, rfl, rfl⟩

-- An `nfc_open` on a driver that is off, with an openable tag there.
theorem open_returns {s : Stack} (htech : s.driver.tech = .rf14443a)
    (hoff : s.driver.state = .powerOff) {f : Field} (hidle : f.state = .idle)
    (htag : f.tag = some t) (hopenable : t.Openable)
    (hquiet : ∀ i, f.log.length ≤ i → loss i = .nothing) (k : OpenStack) :
    ∃ n r f', (nfcIso14443Open k).play (Nfc.field loss) n (s.openRun conf (modSysClk conf) k) f =
      (.done r, f') ∧ r.ret = 0 := by
  obtain ⟨u, hpower, hdriver⟩ := powerOn_ready conf s hoff
  have hrun : s.openRun conf (modSysClk conf) k = (openStart k u.driver).map Opened.settle := by
    unfold Stack.openRun
    rw [htech, hpower]
    dsimp only
    rw [hdriver]
    rfl
  obtain ⟨n, r, f', hplay, hiff, -⟩ :=
    selection_noLoss k u.driver hidle (by rw [hdriver]; rfl)
  refine ⟨n, r.settle, f', ?_, hiff.mpr ⟨t, htag, hopenable⟩⟩
  rw [hrun]
  show ((nfcIso14443aOpen k).map Opened.settle).play _ n _ _ = _
  rw [Program.play_map, play_quiet _ _ _ _ hquiet, hplay]
  rfl

/-- From a driver that is off, an activation without losses brings an openable tag in contact. -/
theorem open_inContact (h : Held w) (hoff : w.life.stack.driver.state = .powerOff)
    (htag : w.field.tag = some t) (hopenable : t.Openable) (htcl : tclSak t.id.sak = true)
    (hquiet : ∀ i, w.field.log.length ≤ i → loss i = .nothing) (k : OpenStack) :
    ∃ (fuel : Nat) (w' : World) (o : OpenRecord),
      w.step conf loss fuel (.open_ (modSysClk conf) k) = some w' ∧ InContact loss t w' ∧
      w'.records = .open_ o :: w.records ∧ o.ret = 0 ∧ Activated t o.driver o.after.state := by
  have hfield : w.openField = w.field.reset := if_pos hoff
  have hquiet' : ∀ i, w.openField.log.length ≤ i → loss i = .nothing := by
    rw [hfield]
    exact hquiet
  obtain ⟨n, r, f', hplay, hret⟩ := open_returns (f := w.openField) conf h.lives.tech hoff
    (hfield ▸ rfl) (hfield ▸ htag) hopenable hquiet' k
  obtain ⟨w', hstep⟩ : ∃ w', w.step conf loss n (.open_ (modSysClk conf) k) = some w' := by
    unfold World.step
    dsimp only
    rw [hplay]
    exact ⟨_, rfl⟩
  obtain ⟨r', s, hplay', hlife, hrecords, hzero⟩ := step_open_off h.lives hoff hstep
  obtain ⟨hr, hf⟩ := Program.play_unique _ _ hplay hplay'
  subst hr
  obtain ⟨t', htag', hafter, hactivated⟩ := hzero hret
  rw [hfield] at htag'
  cases htag.symm.trans htag'
  obtain ⟨made, hmade⟩ := play_made (nfcIso14443Open k) loss n
    (w.life.stack.openRun conf (modSysClk conf) k) w.openField
  rw [hplay', hfield] at hmade
  refine ⟨n, w', _, hstep, ?_, hrecords, hret, hactivated⟩
  exact {
    held := held_open h hstep
    usable := by
      rw [hlife, hret]
      rfl
    clean := by
      rw [hrecords]
      exact .inl rfl
    tag := hafter
    protocol := by
      rw [hactivated.tag]
      exact ⟨_, if_pos htcl⟩
    quiet := quiet_later hquiet hmade }

-- After an `nfc_close`, made or not, the driver is off.
theorem close_off (loss : Nat → Loss) (h : Lives w.life) :
    ∃ w' : World, w.step conf loss 0 .close = some w' ∧ Lives w'.life ∧
      w'.life.stack.driver.state = .powerOff ∧ w'.field = w.field := by
  by_cases husable : usable w.life.returns = true
  · have hstep : w.step conf loss 0 .close =
        some ⟨w.life.step conf .close, w.field, .close :: w.records⟩ := if_pos husable
    refine ⟨_, hstep, lives_step h .close, ?_, rfl⟩
    unfold Life.step
    dsimp only
    rw [if_pos husable]
    unfold Stack.nfcClose
    rw [h.tech]
  · have hstep : w.step conf loss 0 .close = some w := if_neg husable
    refine ⟨w, hstep, h, ?_, rfl⟩
    rw [h.off_iff, ← h.usable]
    exact Bool.eq_false_iff.mpr husable

end

/-- Whatever has happened before: once nothing is lost any more, a close and an open bring the stack
and an openable T=CL tag in step, and all exchanges from then on succeed and are right. -/
theorem visits_recover (conf : Trf797xConf) (loss : Nat → Loss) (d : Driver) (regs : Registers)
    (hrf : regs regChipStatus &&& chipStatusRfOn = 0) (calls : List FieldCall)
    (hfits : ∀ c ∈ calls, c.Fits) (w : World)
    (hrun : (World.start d regs).Runs conf loss calls w) (t : Tag)
    (htag : w.field.tag = some t) (hopenable : t.Openable) (htcl : tclSak t.id.sak = true)
    (hquiet : ∀ i, w.field.log.length ≤ i → loss i = .nothing) (k : OpenStack)
    (as : List CallArgs) (hrx : ∀ a ∈ as, a.rxlen < 2 ^ 31) :
    ∃ (w' : World) (o : OpenRecord) (xs : List ExchangeRecord) (earlier : List Record),
      w.Runs conf loss (.close :: .open_ (modSysClk conf) k :: as.map .transceive) w' ∧
      w'.records = (xs.map .transceive).reverse ++ .open_ o :: earlier ∧
      o.ret = 0 ∧ Activated t o.driver o.after.state ∧
      xs.map ExchangeRecord.args = as ∧ ∀ x ∈ xs, 0 ≤ x.returned.ret ∧ x.Right t := by
  have hheld := held_runs (held_start d hrf) hfits hrun
  obtain ⟨v, hclose, -, hoff, hfield⟩ := close_off conf loss hheld.lives
  have hv := held_close hheld hclose
  obtain ⟨fuel, u, o, hopen, hcontact, hrecords, hret, hactivated⟩ :=
    open_inContact conf hv hoff (hfield ▸ htag) hopenable htcl (hfield ▸ hquiet) k
  obtain ⟨w', xs, hruns, hrecords', hargs, hxs⟩ :=
    inContact_exchanges conf as hcontact hrx
  refine ⟨w', o, xs, v.records, ⟨0, v, hclose, fuel, u, hopen, hruns⟩, ?_, hret, hactivated, hargs,
    hxs⟩
  rw [hrecords', hrecords]

theorem runs_append {conf : Trf797xConf} {loss : Nat → Loss} {w v w' : World}
    {calls calls' : List FieldCall} (h : w.Runs conf loss calls v)
    (h' : v.Runs conf loss calls' w') : w.Runs conf loss (calls ++ calls') w' := by
  induction calls generalizing w with
  | nil =>
    cases h
    exact h'
  | cons c calls ih =>
    obtain ⟨fuel, u, hstep, hrest⟩ := h
    exact ⟨fuel, u, hstep, ih hrest⟩

-- An exchange that lost an answer, and then the tag is moved.
theorem visits_recover_moved_tag :
    ∃ (w w' : World) (xs : List ExchangeRecord),
      (World.start initDriver fun _ => 0).Runs ⟨false, true, .disabled⟩ (losesAnswer 6)
        (twoVisits.take 3 ++ [.enter (some (doubleTag true))]) w ∧
      w.Runs ⟨false, true, .disabled⟩ (losesAnswer 6) [.close, .open_ 0x01 clearStack,
        .transceive (CallArgs.ofBytes [0x42] 64)] w' ∧
      xs.map ExchangeRecord.args = [CallArgs.ofBytes [0x42] 64] ∧
      ∀ x ∈ xs, 0 ≤ x.returned.ret ∧ x.Right (doubleTag true) := by
  have hrun : (World.runFor ⟨false, true, .disabled⟩ (losesAnswer 6) 8
      (World.start initDriver fun _ => 0) (twoVisits.take 3)).any
        (fun w => decide (6 < w.field.log.length)) = true := by
    decide +kernel
  obtain ⟨v, hv, hlong⟩ := (Option.any_eq_true ..).mp hrun
  have hlong' : 6 < v.field.log.length := of_decide_eq_true hlong
  let w : World := { v with field := v.field.enter (some (doubleTag true)) }
  have hruns : (World.start initDriver fun _ => 0).Runs ⟨false, true, .disabled⟩ (losesAnswer 6)
      (twoVisits.take 3 ++ [.enter (some (doubleTag true))]) w :=
    runs_append (runFor_runs hv) ⟨0, w, rfl, rfl⟩
  have hquiet : ∀ i, w.field.log.length ≤ i → losesAnswer 6 i = .nothing := by
    intro i hi
    have hle : v.field.log.length ≤ i := hi
    exact if_neg (by omega)
  obtain ⟨w', -, xs, -, hruns', -, -, -, hargs, hxs⟩ := visits_recover ⟨false, true, .disabled⟩
    (losesAnswer 6) initDriver (fun _ => 0) (by decide) _ (by decide) w hruns (doubleTag true) rfl
    (by decide) (by decide) hquiet clearStack [CallArgs.ofBytes [0x42] 64] (by decide)
  exact ⟨w, w', xs, hruns, hruns', hargs, hxs⟩

end NfceeFw.Trf797x
