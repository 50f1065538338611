import NfceeFw.Nfc.Tag

/-!
# Selection — `nfc_iso14443_open` with a tag in the field

The call ends whatever is lost.  It returns 0 exactly if nothing is lost and a tag is there that
takes its ANTICOLLISION frames, and then reader and tag are at the start of the block protocol.
-/

namespace NfceeFw.Nfc

open NfceeFw.Reasoning

/-! ## 1. Without losses -/

/-- The second level starts with an ANTICOLLISION of seven bytes, which a strict tag ignores. -/
def Tag.Openable (t : Tag) : Prop := t.lenient = true ∨ t.id.inner = []

instance (t : Tag) : Decidable t.Openable := inferInstanceAs (Decidable (_ ∨ _))

-- Where an activation leads the tag.
def Tag.opened (t : Tag) : TagState :=
  if tclSak t.id.sak then .protocol Picc.selected else .active []

section

variable (t : Tag) (k : OpenStack) (d : Driver) {f : Field}

theorem wupa_react (htag : f.tag = some t) (hidle : f.state = .idle) :
    f.react (OpenLocals.entry k d).query = (some [t.id.atqaLo, t.id.atqaHi], .ready 0) := by
  obtain ⟨hbits, hbytes⟩ := short_onAir 0x52 8
  show f.react (transceiveShort 0x52 8) = _
  unfold Field.react
  rw [htag, hidle, hbits, hbytes]
  rfl

/-- The field after the ATQA. -/
def Field.awake (f : Field) : Field :=
  { f with state := .ready 0, log := ([0x52], .nothing) :: f.log }

-- From WUPA to the head of the cascade loop.
theorem wupa_hears (htag : f.tag = some t) (hidle : f.state = .idle) :
    ∃ s : OpenLocals, (nfcIso14443aOpen k).Hears (field noLoss) (openStart k d) f
        [t.id.wupaAnswer] f.awake ∧
      (nfcIso14443aOpen k).feed (openStart k d) [t.id.wupaAnswer] = s.cascade k ∧ s.level = 0 ∧
      s.uidSize = t.id.cascadeLevels.length ∧ s.driver = { d with
        atqa := atqaOf (wupaBuf k t.id.wupaAnswer), nfcid := { d.nfcid with len := 0 } } := by
  have hreact := wupa_react t k d htag hidle
  have hresponse := field_answers hreact
  obtain ⟨s, hnext, hlevel, hsize, -, -, hdriver⟩ :=
    wupa_accepted k d t.id.wupaAnswer (t.id.accepted k)
  refine ⟨s, ⟨congrArg Prod.fst hresponse, ?_⟩, ?_, hlevel, ?_, hdriver⟩
  · show (nfcIso14443aOpen k).Hears _ ((OpenLocals.entry k d).resume k t.id.wupaAnswer)
      ((field noLoss).respond f (OpenLocals.entry k d).query).2 [] f.awake
    rw [hresponse]
    show (nfcIso14443aOpen k).Hears _ _ { f with
      state := .ready 0, log := ((transceiveShort 0x52 8).bytes, .nothing) :: f.log } [] f.awake
    rw [(short_onAir 0x52 8).2]
    cases (OpenLocals.entry k d).resume k t.id.wupaAnswer <;> rfl
  · show (nfcIso14443aOpen k).feed (.wait (OpenLocals.entry k d)) [t.id.wupaAnswer] = _
    rw [Program.feed_cons, Program.feed_nil]
    exact hnext
  · rw [hsize, t.id.uidSizeOf_wupa, TypeA.frames, cardFrames_eq, List.length_map]
    rfl

theorem rats_react {s : OpenLocals} (htag : f.tag = some t) (hstate : f.state = .active [])
    (htcl : tclSak t.id.sak = true) (hsite : s.site = .rats) (hfsd : s.driver.fsd = 127) :
    f.react s.query = (some t.id.ats, .protocol Picc.selected) := by
  have hquery : s.query = nfcIso14443aTransceive
      ⟨Mem.ofList 0 [0xE0, fsd2fsdi (toInt 127) <<< 4], 2, 7, defaultTimeout⟩ := by
    unfold OpenLocals.query
    rw [hsite, hfsd]
  have hframe : Request.frame ⟨Mem.ofList 0 [0xE0, fsd2fsdi (toInt 127) <<< 4], 2, 7,
      defaultTimeout⟩ = [(0xE0 : UInt8), fsd2fsdi (toInt 127) <<< 4] := Mem.ofList_read 0 _
  have hrats : IsRats [0xE0, fsd2fsdi (toInt 127) <<< 4] := by decide
  have hbits := nfcIso14443aTransceive_bits
    ⟨Mem.ofList 0 [0xE0, fsd2fsdi (toInt 127) <<< 4], 2, 7, defaultTimeout⟩ (by decide)
  unfold Field.react
  rw [htag, hstate, hquery]
  dsimp only [Tag.receive]
  rw [nfcIso14443aTransceive_bytes _ (by decide)] at hbits ⊢
  rw [if_pos ⟨hbits, intact_trailer _⟩, stripped_trailer, hframe]
  unfold Tag.activeReceive
  rw [if_pos htcl, if_pos hrats]

-- Up to the end of the cascade loop: the tag is selected, and the call holds what the card said.
theorem levels_reached (hopenable : t.Openable) (htag : f.tag = some t) (hidle : f.state = .idle) :
    ∃ (u : OpenLocals) (g : Field), (nfcIso14443aOpen k).Hears (field noLoss) (openStart k d) f
        (t.id.wupaAnswer :: levelAnswers t.id.frames) g ∧
      (nfcIso14443aOpen k).feed (openStart k d) (t.id.wupaAnswer :: levelAnswers t.id.frames) =
        u.cascade k ∧
      u.level = u.uidSize ∧ u.driver = selectedDriver k d t.id.answers ∧ g.tag = some t ∧
      g.state = .active [] := by
  obtain ⟨s, hhears, hfeed, hlevel, hsize, hdriver⟩ := wupa_hears t k d htag hidle
  have hlength := cardLevels_length t.id.sak t.id.inner t.id.uid
  have hfew := t.id.levels
  have hlevels : t.id.cascadeLevels ≠ [] := by
    intro hnil
    rw [← TypeA.cascadeLevels, hnil] at hlength
    cases hlength
  have hcount : s.uidSize = t.id.inner.length + 1 := hsize.trans hlength
  obtain ⟨u, g, hhears', hfeed', hend, hudriver, hgtag, hgstate⟩ :=
    levels_hear t k s t.id.cascadeLevels (f := f.awake) (by rw [hlevel, List.drop_zero])
      (by rw [hlevel, hsize, Nat.zero_add]) (by omega)
      (hopenable.imp_right fun hone => by rw [hcount, hone]; rfl) htag
      (by rw [hlevel]; exact (if_neg hlevels).symm)
  have hframes : t.id.cascadeLevels.map levelFrames = t.id.frames :=
    (cardFrames_eq _ _ _).symm
  rw [hframes] at hhears' hfeed' hudriver
  refine ⟨u, g, hhears.append _ _ (hfeed ▸ hhears'), ?_, hend, ?_, hgtag, hgstate⟩
  · rw [← List.singleton_append, Program.feed_append, hfeed, hfeed']
  · rw [hudriver, hdriver, ← t.id.activationLevels_eq k]
    rfl

theorem rats_hears {u : OpenLocals} (htag : f.tag = some t) (hstate : f.state = .active [])
    (htcl : tclSak t.id.sak = true) (hfsd : u.driver.fsd = 127) :
    ∃ f', (nfcIso14443aOpen k).Hears (field noLoss) (.wait { u with site := .rats }) f
      [.frame t.id.ats] f' ∧ f'.tag = some t ∧ f'.state = .protocol Picc.selected := by
  have hreact : f.react (OpenLocals.query { u with site := .rats }) =
      (some t.id.ats, .protocol Picc.selected) := rats_react t htag hstate htcl rfl hfsd
  have hresponse := field_answers hreact
  refine ⟨((field noLoss).respond f (OpenLocals.query { u with site := .rats })).2,
    ⟨congrArg Prod.fst hresponse, ?_⟩, ?_, ?_⟩
  · obtain ⟨r, hr⟩ := resume_rats k u (.frame t.id.ats)
    rw [hr]
    rfl
  · rw [hresponse]
    exact htag
  · rw [hresponse]

/-- The field gives the answers of the card, and ends where an activation leads. -/
theorem answers_hear (hopenable : t.Openable) (htag : f.tag = some t) (hidle : f.state = .idle)
    (hfsd : d.fsd = 127) : ∃ f', (nfcIso14443aOpen k).Hears (field noLoss) (openStart k d) f
      t.id.answers f' ∧ f'.tag = some t ∧ f'.state = t.opened := by
  obtain ⟨u, g, hbefore, hreach, hend, hselected, hgtag, hgstate⟩ :=
    levels_reached t k d hopenable htag hidle
  have hucard := t.id.selectedDriver_card k d
  rw [← hselected] at hucard
  have hsak : u.driver.sak = t.id.sak := by rw [hucard]
  have hlast := cascade_end k u hend
  rw [t.id.answers_eq, ← List.cons_append]
  unfold Tag.opened TypeA.tail
  cases htcl : tclSak t.id.sak with
  | false =>
    rw [if_neg Bool.false_ne_true, if_neg Bool.false_ne_true, List.append_nil]
    exact ⟨g, hbefore, hgtag, hgstate⟩
  | true =>
    rw [hsak, htcl, if_pos rfl] at hlast
    obtain ⟨f', hrats, hftag, hfstate⟩ :=
      rats_hears t k hgtag hgstate htcl (u := u) (by rw [hucard]; exact hfsd)
    rw [if_pos rfl, if_pos rfl]
    exact ⟨f', hbefore.append _ _ (by rw [hreach, hlast]; exact hrats), hftag, hfstate⟩

-- The second ANTICOLLISION of the driver means nothing to a strict tag.
theorem strict_silent {s : OpenLocals} {v : List UInt8 × UInt8} (hstrict : t.lenient = false)
    (htag : f.tag = some t) (hlevel : s.level = 1) (hstate : f.state = .ready s.level)
    (hv : t.id.cascadeLevels[s.level]? = some v) :
    f.react (s.passHead k).query = (none, .idle) := by
  have hnot : ¬ t.Anticollides s.level (s.passHead k).query.bytes := by
    rw [anticollides_iff t k s (by omega)]
    simp [hstrict, hlevel]
  have hgroup := cardLevels_group t.id.sak t.id.uidSize v (List.mem_of_getElem? hv)
  have hselect : ¬ (intact (s.passHead k).query.bytes ∧
      stripped (s.passHead k).query.bytes = selectRequest s.level v.1) := by
    rintro ⟨-, heq⟩
    have hlen := congrArg List.length heq
    rw [(anticollision_onAir k s).1] at hlen
    simp [stripped, selectRequest, withBcc, hlevel, hgroup] at hlen
  rw [ready_react t s htag hstate hv (anticollision_onAir k s).2]
  unfold Tag.readyReceive
  rw [if_neg hnot, if_neg hselect]

-- A failed run on the answers that the field gives.
def Refuses (k : OpenStack) (d : Driver) (f : Field) : Prop :=
  ∃ answers f', (nfcIso14443aOpen k).Hears (field noLoss) (openStart k d) f answers f' ∧
    ∃ r : Opened, (nfcIso14443aOpen k).feed (openStart k d) answers = .done r ∧ r.ret < 0

theorem strict_refused (hnot : ¬ t.Openable) (htag : f.tag = some t) (hidle : f.state = .idle) :
    Refuses k d f := by
  obtain ⟨hstrict, hinner⟩ := not_or.mp hnot
  obtain ⟨b, inner, hcons⟩ := List.exists_cons_of_ne_nil hinner
  obtain ⟨s, hhears, hfeed, hlevel, hsize, -⟩ := wupa_hears t k d htag hidle
  have hlevels : t.id.cascadeLevels = (0x88 :: t.id.uid.take 3, b) ::
      cardLevels t.id.sak inner (t.id.uid.drop 3) := by
    unfold TypeA.cascadeLevels
    rw [hcons]
    rfl
  have hlength := cardLevels_length t.id.sak inner (t.id.uid.drop 3)
  have hbit := t.id.innerBits b (by rw [hcons]; exact List.mem_cons_self ..)
  rw [hlevels, List.length_cons, hlength] at hsize
  obtain ⟨u, g, hhears', hfeed', hpassed, hgtag, hgstate⟩ :=
    level_hears t k s (f := f.awake) (v := (0x88 :: t.id.uid.take 3, b)) htag
      (by rw [hlevel]; rfl) (by rw [hlevel, hlevels]; rfl) (by omega) (by omega) (.inr hlevel)
  have hulevel : u.level = 1 := by rw [hpassed.level, hlevel]
  obtain ⟨v, hv⟩ : ∃ v, t.id.cascadeLevels[u.level]? = some v := by
    exact ⟨_, List.getElem?_eq_getElem (by rw [hlevels, List.length_cons, hlength]; omega)⟩
  have hsilent := field_silent (strict_silent t k (by simpa using hstrict) hgtag hulevel
    (by rw [hgstate, if_pos hbit, hlevel, hulevel]) hv)
  have hsilence : ¬ (0 ≤ (Answer.error 0).ret 5 ∧
      bccHolds (Mem.overlay (u.buf.read 2 5) ((Answer.error 0).received 5)) = true) :=
    fun h => absurd h.1 (by decide)
  obtain ⟨r, hdone, hneg, -⟩ := resume_anticollision_bad k u hsilence
  have hreach : (nfcIso14443aOpen k).feed (openStart k d) (t.id.wupaAnswer ::
      levelAnswers [levelFrames (0x88 :: t.id.uid.take 3, b)]) = .wait (u.passHead k) := by
    rw [← List.singleton_append, Program.feed_append, hfeed, hfeed',
      cascade_lt k u (by rw [hpassed.uidSize]; omega)]
  have hbefore : (nfcIso14443aOpen k).Hears (field noLoss) (openStart k d) f (t.id.wupaAnswer ::
      levelAnswers [levelFrames (0x88 :: t.id.uid.take 3, b)]) g :=
    hhears.append _ _ (hfeed ▸ hhears')
  refine ⟨_ ++ [.error 0], ((field noLoss).respond g (u.passHead k).query).2,
    hbefore.append _ _ ?_, r, ?_, hneg⟩
  · rw [hreach]
    refine ⟨congrArg Prod.fst hsilent, ?_⟩
    show (nfcIso14443aOpen k).Hears _ ((u.passHead k).resume k (.error 0)) _ [] _
    rw [hdone]
    rfl
  · rw [Program.feed_append, hreach]
    exact hdone

-- Without a tag the first answer fails to come.
theorem absent_refused (htag : f.tag = none) : Refuses k d f := by
  have hreact : f.react (OpenLocals.entry k d).query = (none, f.state) := by
    unfold Field.react
    rw [htag]
  have hsilent := field_silent hreact
  obtain ⟨r, hdone, hneg, -⟩ := resume_wupa_refused k d (.error 0) fun h => absurd h.1 (by decide)
  refine ⟨[.error 0], ((field noLoss).respond f (OpenLocals.entry k d).query).2,
    ⟨congrArg Prod.fst hsilent, ?_⟩, r, hdone, hneg⟩
  show (nfcIso14443aOpen k).Hears _ ((OpenLocals.entry k d).resume k (.error 0)) _ [] _
  rw [hdone]
  rfl

end

/-! ## 2. With losses -/

-- An exchange that fails ends the call with an error, and leaves the variables.
theorem resume_error (k : OpenStack) (s : OpenLocals) (code : Nat) :
    ∃ ret : Int, s.resume k (.error code) = .done ⟨ret, s⟩ ∧ ret < 0 := by
  have hneg : ∀ rxlen, (Answer.error code).ret rxlen < 0 := fun _ => Int.negSucc_lt_zero code
  unfold OpenLocals.resume
  cases s.site with
  | wupa => exact ⟨_, if_pos (hneg 8), show -enodev < 0 by decide⟩
  | anticollision => exact ⟨_, if_pos (hneg 5), show -eio < 0 by decide⟩
  | select => exact ⟨_, if_pos (hneg 3), show -eio < 0 by decide⟩
  | rats => exact ⟨_, if_pos (hneg 7), hneg 7⟩

theorem respond_log (fate : Loss) (f : Field) (q : DevRequest) :
    (f.respond fate q).2.log = (q.bytes, fate) :: f.log := by
  unfold Field.respond
  cases fate with
  | nothing => cases (f.react q).1 <;> rfl
  | readerFrame => rfl
  | cardFrame => rfl

theorem respond_lost {fate : Loss} (h : fate ≠ .nothing) (f : Field) (q : DevRequest) :
    (f.respond fate q).1 = .error 0 := by
  cases fate with
  | nothing => exact absurd rfl h
  | readerFrame => rfl
  | cardFrame => rfl

theorem respond_tag (fate : Loss) (f : Field) (q : DevRequest) :
    (f.respond fate q).2.tag = f.tag := by
  unfold Field.respond
  cases fate with
  | nothing => cases (f.react q).1 <;> rfl
  | readerFrame => rfl
  | cardFrame => rfl

section

variable {σ ρ : Type} (p : Program σ DevRequest Answer ρ) (loss : Nat → Loss) (n : Nat)
  (st : Status σ ρ) (f : Field)

-- What a play exchanges, whatever becomes of it.
theorem play_made : ∃ made, (p.play (field loss) n st f).2.log = made ++ f.log :=
  Program.play_invariant p (field loss) (I := fun _ e => ∃ made, e.log = made ++ f.log)
    (fun s e ⟨made, h⟩ => ⟨_ :: made, by
      show (e.respond _ _).2.log = _
      rw [respond_log, h, List.cons_append]⟩) n st f ⟨[], rfl⟩

theorem play_tag : (p.play (field loss) n st f).2.tag = f.tag :=
  Program.play_invariant p (field loss) (I := fun _ e => e.tag = f.tag)
    (fun _ e h => (respond_tag _ e _).trans h) n st f rfl

theorem play_noLoss : ∃ made, (p.play (field noLoss) n st f).2.log = made ++ f.log ∧
    ∀ x ∈ made, x.2 = .nothing :=
  Program.play_invariant p (field noLoss)
    (I := fun _ e => ∃ made, e.log = made ++ f.log ∧ ∀ x ∈ made, x.2 = .nothing)
    (fun s e ⟨made, h, hall⟩ => ⟨(p.query s |>.bytes, .nothing) :: made, by
      show (e.respond .nothing _).2.log = _
      rw [respond_log, h, List.cons_append], List.forall_mem_cons.mpr ⟨rfl, hall⟩⟩)
    n st f ⟨[], rfl, List.forall_mem_nil _⟩

-- If nothing is lost from now on, what was lost before makes no difference.
theorem play_quiet {f : Field} (h : ∀ i, f.log.length ≤ i → loss i = .nothing) :
    p.play (field loss) n st f = p.play (field noLoss) n st f := by
  induction n generalizing st f with
  | zero => rfl
  | succ n ih =>
    cases st with
    | done r => rfl
    | wait s =>
      have hsame : (field loss).respond f (p.query s) = (field noLoss).respond f (p.query s) := by
        show f.respond (loss f.log.length) _ = f.respond .nothing _
        rw [h _ (Nat.le_refl _)]
      rw [Program.play, Program.play, hsame]
      apply ih
      intro i hi
      have hlog : ((field noLoss).respond f (p.query s)).2.log =
          ((p.query s).bytes, .nothing) :: f.log := respond_log .nothing f _
      rw [hlog, List.length_cons] at hi
      exact h i (by omega)

-- A call that has ended made an exchange; the last one is the head of the log.
theorem last_made {s : σ} {r : ρ} {f' : Field} {x : List UInt8 × Loss}
    {rest : List (List UInt8 × Loss)} (hplay : p.play (field loss) n (.wait s) f = (.done r, f'))
    (hlog : f'.log = x :: rest) : ∃ made, f'.log = made ++ f.log ∧ x ∈ made := by
  match n with
  | 0 => cases hplay
  | n + 1 =>
    have hnext : p.play (field loss) n
        (p.resume s ((field loss).respond f (p.query s)).1)
        ((field loss).respond f (p.query s)).2 = (.done r, f') := hplay
    obtain ⟨made, hmade⟩ := play_made p loss n (p.resume s ((field loss).respond f (p.query s)).1)
      ((field loss).respond f (p.query s)).2
    have hfirst : ((field loss).respond f (p.query s)).2.log =
        ((p.query s).bytes, loss f.log.length) :: f.log := respond_log _ f _
    rw [hnext, hfirst] at hmade
    refine ⟨made ++ [((p.query s).bytes, loss f.log.length)], by simpa using hmade, ?_⟩
    rw [hlog] at hmade
    cases made with
    | nil => simpa using (List.cons.inj hmade).1
    | cons y made =>
      rw [(List.cons.inj hmade).1]
      simp

end

section

variable (k : OpenStack) (d : Driver) {f : Field}

/-- What an activation without losses comes to. -/
theorem selection_noLoss (hidle : f.state = .idle) (hfsd : d.fsd = 127) :
    ∃ n r f', (nfcIso14443aOpen k).play (field noLoss) n (openStart k d) f = (.done r, f') ∧
      (r.ret = 0 ↔ ∃ t, f.tag = some t ∧ t.Openable) ∧
      ∀ t, f.tag = some t → r.ret = 0 →
        r.final.driver = openedDriver k d t.id.answers ∧ f'.state = t.opened := by
  have hrefused : Refuses k d f → ∃ n r f',
      (nfcIso14443aOpen k).play (field noLoss) n (openStart k d) f = (.done r, f') ∧ r.ret ≠ 0 := by
    rintro ⟨answers, f', hhears, r, hdone, hneg⟩
    exact ⟨_, r, f', by rw [hhears.play, hdone], by omega⟩
  cases htag : f.tag with
  | none =>
    obtain ⟨n, r, f', hplay, hne⟩ := hrefused (absent_refused k d htag)
    exact ⟨n, r, f', hplay, iff_of_false hne (by simp), by simp⟩
  | some t =>
    by_cases hopenable : t.Openable
    · obtain ⟨f', hhears, -, hstate⟩ := answers_hear t k d hopenable htag hidle hfsd
      obtain ⟨hiff, hdriver⟩ := open_zero k d t.id.answers
      obtain ⟨r, hdone, hzero⟩ := hiff.mpr (t.id.activates k d)
      refine ⟨_, r, f', by rw [hhears.play, hdone], iff_of_true hzero ⟨t, rfl, hopenable⟩, ?_⟩
      rintro _ ⟨⟩ _
      exact ⟨hdriver r hdone hzero, hstate⟩
    · obtain ⟨n, r, f', hplay, hne⟩ := hrefused (strict_refused t k d hopenable htag hidle)
      refine ⟨n, r, f', hplay, iff_of_false hne ?_, fun _ _ h => absurd h hne⟩
      rintro ⟨_, ⟨⟩, h⟩
      exact hopenable h

-- The call ended with an error, on a frame that was lost.
def EndsLost (r : Opened) (f : Field) : Prop :=
  r.ret < 0 ∧ ∃ x rest, f.log = x :: rest ∧ x.2 ≠ .nothing

theorem lossy_play (loss : Nat → Loss) (n : Nat) (st : OpenRun) (f : Field) :
    (nfcIso14443aOpen k).play (field loss) n st f =
        (nfcIso14443aOpen k).play (field noLoss) n st f ∨
      ∃ r f', (nfcIso14443aOpen k).play (field loss) n st f = (.done r, f') ∧ EndsLost r f' := by
  apply Program.play_ends
  intro s e
  by_cases hfate : loss e.log.length = .nothing
  · left
    show e.respond (loss e.log.length) _ = e.respond .nothing _
    rw [hfate]
  · right
    obtain ⟨ret, hdone, hneg⟩ := resume_error k s 0
    refine ⟨⟨ret, s⟩, ?_, hneg, _, _, respond_log _ e _, hfate⟩
    show s.resume k (e.respond (loss e.log.length) _).1 = .done ⟨ret, s⟩
    rw [respond_lost hfate, hdone]

/-- With losses, the call is the same or ends with an error after the first frame lost. -/
theorem selection (loss : Nat → Loss) (hidle : f.state = .idle) (hfsd : d.fsd = 127) :
    ∃ n r f' made, (nfcIso14443aOpen k).play (field loss) n (openStart k d) f = (.done r, f') ∧
      f'.log = made ++ f.log ∧
      (r.ret = 0 ↔ (∀ x ∈ made, x.2 = .nothing) ∧ ∃ t, f.tag = some t ∧ t.Openable) ∧
      ∀ t, f.tag = some t → r.ret = 0 →
        r.final.driver = openedDriver k d t.id.answers ∧ f'.state = t.opened := by
  obtain ⟨n, r, f', hplay, hiff, hends⟩ := selection_noLoss k d hidle hfsd
  rcases lossy_play k loss n (openStart k d) f with
    hsame | ⟨r', e', hbad, hneg, x, rest, hlog, hlost⟩
  · obtain ⟨made, hmade, hnothing⟩ := play_noLoss (nfcIso14443aOpen k) n (openStart k d) f
    rw [hplay] at hsame hmade
    exact ⟨n, r, f', made, hsame, hmade, hiff.trans (and_iff_right hnothing).symm, hends⟩
  · obtain ⟨made, hmade, hmem⟩ := last_made (nfcIso14443aOpen k) loss n f hbad hlog
    have hne : r'.ret ≠ 0 := by omega
    refine ⟨n, r', e', made, hbad, hmade, iff_of_false hne ?_, fun _ _ h => absurd h hne⟩
    rintro ⟨hall, -⟩
    exact hlost (hall x hmem)

end

/-! ## 3. The driver of an activated tag -/

/-- The driver has identified the tag and is at the start of its protocol. -/
structure Activated (t : Tag) (d : Driver) (state : TagState) : Prop where
  selected : d.state = .selected
  len : d.nfcid.len.toNat = t.id.uid.length
  uid : d.nfcid.data.read 0 t.id.uid.length = t.id.uid
  sak : d.sak = t.id.sak
  atqa : d.atqa = t.id.atqa
  tcl : isTcl d = tclSak t.id.sak
  block : d.block = 0
  sized : t.Announces → tclSak t.id.sak = true → Sized d
  tag : state = t.opened

theorem readAts_fsc_bounds (d : Driver) {ats : List UInt8} (h : 1 < (ats.headD 0).toNat) :
    16 ≤ (d.withAts (ats.take 7)).readAts.fsc ∧ (d.withAts (ats.take 7)).readAts.fsc ≤ 256 := by
  cases ats with
  | nil => exact absurd h (by decide)
  | cons tl ats =>
    have hlen : 0 < ((tl :: ats).take 7).length := Nat.succ_pos _
    have hhead : 1 < (d.withAts ((tl :: ats).take 7)).ats 0 := by
      rw [withAts_byte d hlen]
      exact h
    show 16 ≤ (if 1 < (d.withAts ((tl :: ats).take 7)).ats 0 then fsci2fsc _ else d.fsc) ∧
      (if 1 < (d.withAts ((tl :: ats).take 7)).ats 0 then fsci2fsc _ else d.fsc) ≤ 256
    rw [if_pos hhead]
    exact fsci2fsc_bounds _

section

variable (t : Tag) (k : OpenStack) {d : Driver}

-- RATS is answered with the ATS of the card.
theorem openedDriver_ats (htcl : tclSak t.id.sak = true) : openedDriver k d t.id.answers =
    ((selectedDriver k d t.id.answers).withAts (t.id.ats.take 7)).readAts := by
  obtain ⟨-, hrats⟩ := t.id.activates k d
  have hsak : (selectedDriver k d t.id.answers).sak = t.id.sak := by
    rw [t.id.selectedDriver_card]
  have hanswer : ratsAnswer k t.id.answers = some (.frame t.id.ats) := by
    rw [t.id.answers_eq]
    show ((levelAnswers t.id.frames ++ t.id.tail).drop
      (2 * uidSizeOf (wupaBuf k t.id.wupaAnswer))).head? = _
    rw [t.id.uidSizeOf_wupa, ← levelAnswers_length, List.drop_left]
    unfold TypeA.tail
    rw [if_pos htcl]
    rfl
  have hsel : tclSak (selectedDriver k d t.id.answers).sak = true := hsak ▸ htcl
  unfold openedDriver Driver.takeAts
  rw [hsel, hanswer]
  rfl

theorem activated_settle {r : Opened} {state : TagState} (htech : d.tech = .rf14443a)
    (hfsd : d.fsd = 127) (hzero : r.ret = 0)
    (hdriver : r.final.driver = openedDriver k d t.id.answers) (hstate : state = t.opened) :
    Activated t r.settle.final.driver state := by
  obtain ⟨hsak, hatqa, hnfcid⟩ := t.id.openedDriver_card k d
  obtain ⟨hotech, hofsd, -, -⟩ := openedDriver_fields k d (t.id.complete k)
  have hsettle : r.settle.final.driver =
      { openedDriver k d t.id.answers with state := .selected, block := 0 } := by
    show (if r.ret != 0 then _ else _) = _
    rw [hzero, hdriver]
    rfl
  have htcl : isTcl r.settle.final.driver = tclSak t.id.sak := by
    rw [isTcl_eq (by rw [hsettle]; exact hotech.trans htech), hsettle]
    exact congrArg tclSak hsak
  rw [hsettle] at htcl ⊢
  refine ⟨rfl, ?_, ?_, hsak, hatqa, htcl, rfl, fun hannounces h => ?_, hstate⟩
  · dsimp only
    rw [hnfcid]
    exact (append_fresh d.nfcid t.id.uid_short).1
  · dsimp only
    rw [hnfcid]
    exact (append_fresh d.nfcid t.id.uid_short).2
  · obtain ⟨hlo, hhi⟩ :=
      readAts_fsc_bounds (selectedDriver k d t.id.answers) (hannounces h)
    rw [← openedDriver_ats t k h] at hlo hhi
    exact ⟨htcl.trans h, hofsd.trans hfsd, hlo, hhi⟩

-- After such an ATS, the frame size is that of the tag before.
theorem openedDriver_fsc (htcl : tclSak t.id.sak = true) {tl : UInt8}
    (hats : t.id.ats.head? = some tl) (hshort : tl.toNat ≤ 1) :
    (openedDriver k d t.id.answers).fsc = d.fsc := by
  obtain ⟨ats, hcons⟩ := List.head?_eq_some_iff.mp hats
  have hlen : 0 < ((tl :: ats).take 7).length := Nat.succ_pos _
  have hhead : ¬ 1 < (((tl :: ats).take 7).headD 0).toNat := Nat.not_lt.mpr hshort
  rw [openedDriver_ats t k htcl, hcons, readAts_fsc_kept hlen hhead]
  exact (selectedDriver_kept k d t.id.answers).1

end

/-- With any tag or none in the field, and any losses, `nfc_iso14443_open` returns.  It returns 0
exactly if no frame was lost and an openable tag is there; then it has identified that tag.  The
frame size of a T=CL tag is taken from its ATS, or stays if the ATS has no format byte. -/
theorem open_identifies (loss : Nat → Loss) (dev : Device) (k : OpenStack) (d : Driver) (f : Field)
    (htech : d.tech = .rf14443a) (hoff : d.state = .powerOff) (hopen : dev.open_ .rf14443a = 0)
    (hsize : dev.frameSize = 127) (hidle : f.state = .idle) :
    ∃ n r f' made,
      (nfcIso14443Open k).play (field loss) n (nfcOpenStart dev k d) f = (.done r, f') ∧
      f'.log = made ++ f.log ∧
      (r.ret = 0 ↔ (∀ x ∈ made, x.2 = .nothing) ∧ ∃ t, f.tag = some t ∧ t.Openable) ∧
      ∀ t, f.tag = some t → r.ret = 0 → Activated t r.final.driver f'.state ∧
        ∀ tl, tclSak t.id.sak = true → t.id.ats.head? = some tl → tl.toNat ≤ 1 →
          r.final.driver.fsc = d.fsc := by
  let e : Driver := { d with fsd := dev.frameSize, state := .idle }
  have hetech : e.tech = .rf14443a := htech
  have hefsd : e.fsd = 127 := hsize
  obtain ⟨n, r, f', made, hplay, hmade, hiff, hends⟩ := selection k e loss hidle hefsd
  have hstart : nfcOpenStart dev k d = (openStart k e).map Opened.settle := by
    have hgo : ¬ (dev.open_ d.tech != 0) = true := by
      rw [htech, hopen]
      decide
    unfold nfcOpenStart
    rw [hoff]
    exact if_neg hgo
  refine ⟨n, r.settle, f', made, ?_, hmade, hiff, fun t htag hzero => ?_⟩
  · rw [hstart]
    show ((nfcIso14443aOpen k).map Opened.settle).play _ n _ f = _
    rw [Program.play_map, hplay]
    rfl
  · obtain ⟨hdriver, hstate⟩ := hends t htag hzero
    refine ⟨activated_settle t k hetech hefsd hzero hdriver hstate, fun tl htcl hats hshort => ?_⟩
    have hfsc : r.settle.final.driver.fsc = r.final.driver.fsc := by
      unfold Opened.settle
      dsimp only
      split
      · rfl
      · rfl
    rw [hfsc, hdriver]
    exact openedDriver_fsc t k htcl hats hshort

/-- A T=CL tag with a UID of seven bytes that echoes its commands. -/
def doubleTag (lenient : Bool) : Tag where
  id := {
    atqaLo := 0x44
    atqaHi := 0x03
    uid := [0x04, 0x11, 0x22, 0x33, 0x44, 0x55, 0x66]
    inner := [0x04]
    sak := 0x20
    ats := [0x05, 0x78, 0x80, 0x70, 0x02]
    levels := by decide
    uidSize := rfl
    atqaSize := by decide
    atqaBits := by decide
    innerBits := by simp [cascades]
    sakBit := by decide }
  card := Card.echo
  plain _ _ := none
  lenient := lenient

theorem open_identifies_strict :
    ∃ n r f', (nfcIso14443Open clearStack).play (field noLoss) n
      (nfcOpenStart trf797xDevice clearStack initDriver) ⟨some (doubleTag false), .idle, []⟩ =
        (.done r, f') ∧ r.ret ≠ 0 := by
  obtain ⟨n, r, f', made, hplay, -, hiff, -⟩ := open_identifies noLoss trf797xDevice clearStack
    initDriver ⟨some (doubleTag false), .idle, []⟩ rfl rfl rfl rfl rfl
  refine ⟨n, r, f', hplay, fun hzero => ?_⟩
  obtain ⟨t, htag, hopenable⟩ := (hiff.mp hzero).2
  cases htag
  exact absurd hopenable (by decide)

end NfceeFw.Nfc
