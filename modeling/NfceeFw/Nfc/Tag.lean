import NfceeFw.Nfc.Anticollision
import NfceeFw.Nfc.Parameters
import NfceeFw.Nfc.Reliable

/-!
# Tag — a type A tag and the field of the reader

A tag as the requests of the driver find it, from the idle state through the cascade levels to the
block protocol, and the field it may be in, where frames are lost either way.  Nothing here is
translated from the source.
-/

namespace NfceeFw.Nfc

open NfceeFw.Reasoning

/-! ## 1. Tags -/

-- UID CLn of each cascade level, with the SAK that closes it.
def cardLevels (last : UInt8) : List UInt8 → List UInt8 → List (List UInt8 × UInt8)
  | [], uid => [(uid, last)]
  | b :: inner, uid => (0x88 :: uid.take 3, b) :: cardLevels last inner (uid.drop 3)

def TypeA.cascadeLevels (c : TypeA) : List (List UInt8 × UInt8) := cardLevels c.sak c.inner c.uid

/-- A tag: what it is in an activation, its T=CL application, the replies of one that has no T=CL to
a command after earlier ones.  A lenient tag looks at the first two bytes of an ANTICOLLISION
only. -/
structure Tag where
  id : TypeA
  card : Card
  plain : List (List UInt8) → List UInt8 → Option (List UInt8)
  lenient : Bool

/-- A T=CL tag whose ATS has a format byte, which says what frames the tag takes.  After any other
ATS the driver goes on with the frame size that it has. -/
def Tag.Announces (t : Tag) : Prop := tclSak t.id.sak = true → 1 < (t.id.ats.headD 0).toNat

instance (t : Tag) : Decidable t.Announces := inferInstanceAs (Decidable (_ → _))

/-- `active` keeps the commands that a tag without T=CL has had. -/
inductive TagState where
  | idle
  | ready (level : Nat)
  | active (commands : List (List UInt8))
  | protocol (p : Picc)

-- The bits of a request on the air.
def DevRequest.bits (q : DevRequest) : Nat := (q.tx.map Iovec.bits).sum

def selectRequest (level : Nat) (cln : List UInt8) : List UInt8 :=
  selOf level :: 0x70 :: withBcc cln

-- What is in front of the two bytes of a CRC_A.
def stripped (frame : List UInt8) : List UInt8 := frame.take (frame.length - 2)

-- RATS, with an FSD that the blocks of a `Card` fit.
def IsRats (command : List UInt8) : Prop :=
  command.length = 2 ∧ command.headD 0 = 0xE0 ∧
    fsci2fsc (command.getD 1 0 >>> 4) = announcedFsd 127

instance : DecidablePred IsRats := fun _ => inferInstanceAs (Decidable (_ ∧ _ ∧ _))

namespace Tag

variable (t : Tag)

def Anticollides (level : Nat) (bytes : List UInt8) : Prop :=
  (if t.lenient then bytes.take 2 else bytes) = [selOf level, 0x20]

instance (level : Nat) (bytes : List UInt8) : Decidable (t.Anticollides level bytes) :=
  inferInstanceAs (Decidable (_ = _))

-- In the ready state, at a level that is still open.
def readyReceive (level : Nat) (cln : List UInt8) (sak : UInt8) (bytes : List UInt8) :
    Option (List UInt8) × TagState :=
  if t.Anticollides level bytes then (some (withBcc cln), .ready level)
  else if intact bytes ∧ stripped bytes = selectRequest level cln then
    (some (sakFrame sak), if cascades sak then .ready (level + 1) else .active [])
  else (none, .idle)

-- In the active state, a command whose CRC_A is right.
def activeReceive (commands : List (List UInt8)) (command : List UInt8) :
    Option (List UInt8) × TagState :=
  if tclSak t.id.sak then
    if IsRats command then (some t.id.ats, .protocol Picc.selected) else (none, .idle)
  else (t.plain commands command, .active (commands ++ [command]))

/-- The reaction of a tag to a frame; `none` is silence. -/
def receive (state : TagState) (bits : Nat) (bytes : List UInt8) : Option (List UInt8) × TagState :=
  match state with
  | .idle =>
    if bits = 7 ∧ (bytes = [0x26] ∨ bytes = [0x52]) then
      (some [t.id.atqaLo, t.id.atqaHi], .ready 0)
    else (none, .idle)
  | .ready level =>
    match t.id.cascadeLevels[level]? with
    | some (cln, sak) =>
      if bits = 8 * bytes.length then t.readyReceive level cln sak bytes else (none, .idle)
    | none => (none, .idle)
  | .active commands =>
    if bits = 8 * bytes.length ∧ intact bytes then t.activeReceive commands (stripped bytes)
    else (none, .active commands)
  | .protocol p =>
    if bits = 8 * bytes.length ∧ intact bytes then
      ((p.receive t.card (stripped bytes)).1, .protocol (p.receive t.card (stripped bytes)).2)
    else (none, .protocol p)

end Tag

/-! ## 2. The field -/

/-- What is in the field, and the frames sent so far with what became of them, latest first. -/
structure Field where
  tag : Option Tag
  state : TagState
  log : List (List UInt8 × Loss)

namespace Field

-- With the RF off, a tag forgets.
def reset (f : Field) : Field := { f with state := .idle }

-- A tag that was away, or none.
def enter (f : Field) (tag : Option Tag) : Field := { f with tag := tag, state := .idle }

-- What comes back on a frame that arrives.
def react (f : Field) (q : DevRequest) : Option (List UInt8) × TagState :=
  match f.tag with
  | some t => t.receive f.state q.bits q.bytes
  | none => (none, f.state)

def respond (fate : Loss) (f : Field) (q : DevRequest) : Answer × Field :=
  let log := (q.bytes, fate) :: f.log
  match fate with
  | .readerFrame => (.error 0, { f with log := log })
  | .cardFrame => (.error 0, { f with state := (f.react q).2, log := log })
  | .nothing =>
    match (f.react q).1 with
    | some bytes => (.frame bytes, { f with state := (f.react q).2, log := log })
    | none => (.error 0, { f with state := (f.react q).2, log := log })

end Field

/-- The field as the environment of the driver; `loss k` is the fate of the `k`-th frame. -/
def field (loss : Nat → Loss) : Environment Field DevRequest Answer where
  respond f q := f.respond (loss f.log.length) q

def noLoss : Nat → Loss := fun _ => .nothing

/-! ## 3. Requests on the air -/

theorem short_onAir (tx : UInt8) (rxlen : Nat) :
    (transceiveShort tx rxlen).bits = 7 ∧ (transceiveShort tx rxlen).bytes = [tx] := by
  refine ⟨rfl, ?_⟩
  simp only [DevRequest.bytes, transceiveShort, List.flatMap_cons, List.flatMap_nil,
    List.append_nil]
  exact Mem.ofList_read 0 [tx]

theorem bytesField_eq {n : Nat} (h : n < 2 ^ 29) : bytesField n = 8 * n := by
  unfold bytesField
  omega

theorem transceive_bits (tx : Mem UInt8) (rxlen : Nat) {txlen : Nat} (h : txlen < 2 ^ 29) :
    (transceive tx txlen rxlen).bits = 8 * (transceive tx txlen rxlen).bytes.length := by
  rw [transceive_bytes tx rxlen h, Mem.read_length]
  exact bytesField_eq h

theorem nfcIso14443aTransceive_bits (q : Request) (h : q.txlen < 2 ^ 29) :
    (nfcIso14443aTransceive q).bits = 8 * (nfcIso14443aTransceive q).bytes.length := by
  have hlen : q.frame.length = q.txlen := Mem.read_length _ _ _
  rw [nfcIso14443aTransceive_bytes q h, List.length_append, crcaBytes_length, hlen]
  show bytesField q.txlen + (bytesField 2 + 0) = _
  rw [bytesField_eq h, bytesField_eq (by decide)]
  omega

theorem stripped_trailer (frame : List UInt8) : stripped (frame ++ crcaBytes frame) = frame :=
  take_trailer frame

/-! ## 4. An activation without losses -/

theorem field_answers {f : Field} {q : DevRequest} {bytes : List UInt8} {state : TagState}
    (h : f.react q = (some bytes, state)) : (field noLoss).respond f q =
      (.frame bytes, { f with state := state, log := (q.bytes, .nothing) :: f.log }) := by
  show f.respond .nothing q = _
  unfold Field.respond
  rw [h]

theorem field_silent {f : Field} {q : DevRequest} {state : TagState}
    (h : f.react q = (none, state)) : (field noLoss).respond f q =
      (.error 0, { f with state := state, log := (q.bytes, .nothing) :: f.log }) := by
  show f.respond .nothing q = _
  unfold Field.respond
  rw [h]

-- The two answers that close a level.
def levelFrames (v : List UInt8 × UInt8) : Answer × Answer :=
  (.frame (withBcc v.1), .frame (sakFrame v.2))

theorem cardFrames_eq (last : UInt8) (inner uid : List UInt8) :
    cardFrames last inner uid = (cardLevels last inner uid).map levelFrames := by
  induction inner generalizing uid with
  | nil => rfl
  | cons b inner ih =>
    rw [cardFrames, cardLevels, List.map_cons, ih]
    rfl

theorem cardLevels_length (last : UInt8) (inner uid : List UInt8) :
    (cardLevels last inner uid).length = inner.length + 1 := by
  induction inner generalizing uid with
  | nil => rfl
  | cons b inner ih => rw [cardLevels, List.length_cons, ih, List.length_cons]

theorem cardLevels_group (last : UInt8) {inner uid : List UInt8}
    (huid : uid.length = 3 * inner.length + 4) :
    ∀ v ∈ cardLevels last inner uid, v.1.length = 4 := by
  induction inner generalizing uid with
  | nil =>
    intro v hv
    rw [cardLevels, List.mem_singleton] at hv
    rw [hv]
    exact huid
  | cons b inner ih =>
    rw [List.length_cons] at huid
    intro v hv
    rcases List.mem_cons.mp hv with rfl | hv
    · rw [List.length_cons, List.length_take]
      omega
    · exact ih (by rw [List.length_drop]; omega) v hv

-- All levels but the last have the cascade bit.
theorem cardLevels_cascades {last : UInt8} (hlast : cascades last = false) {inner : List UInt8}
    (hinner : ∀ b ∈ inner, cascades b = true) (uid : List UInt8) {l : Nat}
    {v : List UInt8 × UInt8} (hv : (cardLevels last inner uid)[l]? = some v) :
    cascades v.2 = decide (l < inner.length) := by
  induction inner generalizing uid l with
  | nil =>
    match l with
    | 0 =>
      cases hv
      exact hlast
    | l + 1 => cases hv
  | cons b inner ih =>
    match l with
    | 0 =>
      cases hv
      simpa using hinner b (List.mem_cons_self ..)
    | l + 1 =>
      have hrest := ih (fun b' hb' => hinner b' (List.mem_cons_of_mem _ hb')) (uid.drop 3) hv
      simpa using hrest

theorem withBcc_received {group : List UInt8} (h : group.length = 4) :
    (Answer.frame (withBcc group)).received 5 = withBcc group := by
  apply List.take_of_length_le
  rw [withBcc, List.length_append, h]
  exact Nat.le_refl 5

section

variable (t : Tag) (k : OpenStack) (s : OpenLocals) {f : Field} {v : List UInt8 × UInt8}

theorem ready_react {q : DevRequest} (htag : f.tag = some t) (hstate : f.state = .ready s.level)
    (hv : t.id.cascadeLevels[s.level]? = some v) (hbits : q.bits = 8 * q.bytes.length) :
    f.react q = t.readyReceive s.level v.1 v.2 q.bytes := by
  unfold Field.react
  rw [htag, hstate]
  dsimp only [Tag.receive]
  rw [hv]
  exact if_pos hbits

theorem anticollision_onAir : (s.passHead k).query.bytes =
    (s.passHead k).buf.read 0 (if s.level = 0 then 2 else 7) ∧
    (s.passHead k).query.bits = 8 * (s.passHead k).query.bytes.length := by
  have hlt : (if s.level = 0 then 2 else 7) < 2 ^ 29 := by
    split
    · decide
    · decide
  exact ⟨transceive_bytes _ _ hlt, transceive_bits _ _ hlt⟩

-- A lenient tag takes any ANTICOLLISION of the driver, every other one only the first.
theorem anticollides_iff (h : s.level < 3) :
    t.Anticollides s.level (s.passHead k).query.bytes ↔ t.lenient = true ∨ s.level = 0 := by
  have hhead := passHead_frame k s
  rw [← selOf_eq h] at hhead
  unfold Tag.Anticollides
  rw [(anticollision_onAir k s).1]
  by_cases hlevel : s.level = 0
  · rw [if_pos hlevel, hhead]
    exact iff_of_true (by cases t.lenient <;> rfl) (.inr hlevel)
  · rw [if_neg hlevel]
    cases t.lenient with
    | true =>
      rw [if_pos rfl, Mem.read_take, show min 2 7 = 2 by decide]
      exact iff_of_true hhead (.inl rfl)
    | false =>
      rw [if_neg Bool.false_ne_true]
      refine iff_of_false (fun heq => ?_) (by simp [hlevel])
      have hlen := congrArg List.length heq
      simp at hlen

theorem selecting_onAir (hgroup : v.1.length = 4) (h : s.level < 3) :
    (s.selecting k (.frame (withBcc v.1))).query.bytes =
        selectRequest s.level v.1 ++ crcaBytes (selectRequest s.level v.1) ∧
    (s.selecting k (.frame (withBcc v.1))).query.bits =
        8 * (s.selecting k (.frame (withBcc v.1))).query.bytes.length := by
  have huid := withBcc_received hgroup
  have hlen : (withBcc v.1).length = 5 := by
    rw [withBcc, List.length_append, hgroup]
    rfl
  have hselect : selectFrame s.level (withBcc v.1) = selectRequest s.level v.1 := by
    unfold selectFrame selectRequest
    rw [selOf_eq h]
  have hbytes := selecting_query k s (.frame (withBcc v.1)) (by rw [huid, hlen])
  rw [huid, hselect] at hbytes
  exact ⟨hbytes, nfcIso14443aTransceive_bits _ (show 7 < 2 ^ 29 by decide)⟩

-- A SELECT is too long to be an ANTICOLLISION of the tag's, lenient or not.
theorem select_react :
    t.readyReceive s.level v.1 v.2
        (selectRequest s.level v.1 ++ crcaBytes (selectRequest s.level v.1)) =
      (some (sakFrame v.2), if cascades v.2 then .ready (s.level + 1) else .active []) := by
  have hnot : ¬ t.Anticollides s.level
      (selectRequest s.level v.1 ++ crcaBytes (selectRequest s.level v.1)) := by
    unfold Tag.Anticollides selectRequest
    cases t.lenient <;> simp
  have hintact := intact_trailer (selectRequest s.level v.1)
  unfold Tag.readyReceive
  rw [if_neg hnot, if_pos ⟨hintact, stripped_trailer _⟩]

theorem ready_anticollides (htag : f.tag = some t) (hstate : f.state = .ready s.level)
    (hv : t.id.cascadeLevels[s.level]? = some v) (h3 : s.level < 3)
    (hok : t.lenient = true ∨ s.level = 0) :
    f.react (s.passHead k).query = (some (withBcc v.1), .ready s.level) := by
  rw [ready_react t s htag hstate hv (anticollision_onAir k s).2]
  exact if_pos ((anticollides_iff t k s h3).mpr hok)

theorem ready_selects (htag : f.tag = some t) (hstate : f.state = .ready s.level)
    (hv : t.id.cascadeLevels[s.level]? = some v) (h3 : s.level < 3) :
    f.react (s.selecting k (.frame (withBcc v.1))).query =
      (some (sakFrame v.2), if cascades v.2 then .ready (s.level + 1) else .active []) := by
  have hgroup := cardLevels_group t.id.sak t.id.uidSize v (List.mem_of_getElem? hv)
  obtain ⟨hbytes, hbits⟩ := selecting_onAir k s hgroup h3
  rw [ready_react t s htag hstate hv hbits, hbytes]
  exact select_react t s

-- The driver takes both answers of a level, and goes on to the next head of the loop.
theorem level_taken (hgroup : v.1.length = 4) :
    ∃ u, (s.passHead k).resume k (.frame (withBcc v.1)) =
        .wait (s.selecting k (.frame (withBcc v.1))) ∧
      (s.selecting k (.frame (withBcc v.1))).resume k (.frame (sakFrame v.2)) = u.cascade k ∧
      Passed s u (Level.supplied (levelFrames v)) := by
  have hgood := supplied_good hgroup v.2
  have hlen : ((Answer.frame (withBcc v.1)).received 5).length = 5 := hgood.uid
  have hsak : ((Answer.frame (sakFrame v.2)).received 3).length = 3 := hgood.sak
  have hlevel := levelOf_supplied (k.sak s.level) (s.buf.read_length 2 5)
    (p := levelFrames v) hlen hsak
  have hbcc : bccHolds (Mem.overlay (s.buf.read 2 5) ((Answer.frame (withBcc v.1)).received 5)) =
      true := by
    rw [Mem.overlay_full (by rw [hlen, Mem.read_length])]
    exact hgood.bcc
  obtain ⟨u, hnext, hpassed⟩ := (resume_select k s (.frame (withBcc v.1)) (.frame (sakFrame v.2))).1
    ⟨Int.natCast_nonneg _, fun _ => hlevel ▸ hgood.crc⟩
  exact ⟨u, resume_anticollision_ok k s (Int.natCast_nonneg _) hbcc, hnext, hlevel ▸ hpassed⟩

/-- A level that the tag takes part in: its two answers, and the next head of the loop. -/
theorem level_hears (htag : f.tag = some t) (hstate : f.state = .ready s.level)
    (hv : t.id.cascadeLevels[s.level]? = some v) (hlt : s.level < s.uidSize) (h3 : s.level < 3)
    (hok : t.lenient = true ∨ s.level = 0) :
    ∃ u f', (nfcIso14443aOpen k).Hears (field noLoss) (s.cascade k) f
        (levelAnswers [levelFrames v]) f' ∧
      (nfcIso14443aOpen k).feed (s.cascade k) (levelAnswers [levelFrames v]) = u.cascade k ∧
      Passed s u (Level.supplied (levelFrames v)) ∧ f'.tag = some t ∧
      f'.state = if cascades v.2 then .ready (s.level + 1) else .active [] := by
  have hgroup := cardLevels_group t.id.sak t.id.uidSize v (List.mem_of_getElem? hv)
  obtain ⟨u, hanticollision, hnext, hpassed⟩ := level_taken k s hgroup
  let g : Field := { f with
    state := .ready s.level
    log := ((s.passHead k).query.bytes, .nothing) :: f.log }
  have hac := ready_anticollides t k s htag hstate hv h3 hok
  have hsel := ready_selects t k s (f := g) htag rfl hv h3
  refine ⟨u, { g with
    state := if cascades v.2 then .ready (s.level + 1) else .active []
    log := ((s.selecting k (.frame (withBcc v.1))).query.bytes, .nothing) :: g.log },
    ?_, ?_, hpassed, htag, rfl⟩
  · rw [cascade_lt k s hlt]
    show ((field noLoss).respond f (s.passHead k).query).1 = _ ∧ (nfcIso14443aOpen k).Hears _
      ((s.passHead k).resume k (.frame (withBcc v.1)))
      ((field noLoss).respond f (s.passHead k).query).2 [.frame (sakFrame v.2)] _
    rw [hanticollision, field_answers hac]
    refine ⟨rfl, ?_⟩
    show ((field noLoss).respond g (s.selecting k (.frame (withBcc v.1))).query).1 = _ ∧
      _ = ((field noLoss).respond g (s.selecting k (.frame (withBcc v.1))).query).2
    rw [field_answers hsel]
    exact ⟨rfl, rfl⟩
  · rw [cascade_lt k s hlt]
    show (nfcIso14443aOpen k).feed ((s.passHead k).resume k (.frame (withBcc v.1)))
      [.frame (sakFrame v.2)] = _
    rw [hanticollision, Program.feed_cons, Program.feed_nil]
    exact hnext

-- Where a tag is, with the levels `vs` still to come.
def stateBefore (level : Nat) (vs : List (List UInt8 × UInt8)) : TagState :=
  if vs = [] then .active [] else .ready level

-- The SAK of a level tells the tag, too, whether levels are left.
theorem state_next {level : Nat} {vs : List (List UInt8 × UInt8)}
    (hv : t.id.cascadeLevels[level]? = some v)
    (hrest : t.id.cascadeLevels.drop (level + 1) = vs) :
    (if cascades v.2 then TagState.ready (level + 1) else .active []) =
      stateBefore (level + 1) vs := by
  have hlength := cardLevels_length t.id.sak t.id.inner t.id.uid
  have hleft : vs.length = t.id.inner.length - level := by
    have hdrop := congrArg List.length hrest
    rw [List.length_drop, TypeA.cascadeLevels, hlength] at hdrop
    omega
  rw [cardLevels_cascades t.id.sakBit t.id.innerBits t.id.uid hv]
  unfold stateBefore
  by_cases hlast : level < t.id.inner.length
  · rw [if_pos (decide_eq_true hlast), if_neg]
    rintro rfl
    rw [List.length_nil] at hleft
    omega
  · rw [if_neg (by simpa using hlast), if_pos]
    exact List.length_eq_zero_iff.mp (by omega)

/-- The levels `vs` that are left, if the tag takes part in all of them. -/
theorem levels_hear (vs : List (List UInt8 × UInt8)) (hvs : t.id.cascadeLevels.drop s.level = vs)
    (hsize : s.level + vs.length = s.uidSize) (h3 : s.uidSize ≤ 3)
    (hok : t.lenient = true ∨ s.uidSize = 1) (htag : f.tag = some t)
    (hstate : f.state = stateBefore s.level vs) :
    ∃ (u : OpenLocals) (f' : Field), (nfcIso14443aOpen k).Hears (field noLoss) (s.cascade k) f
        (levelAnswers (vs.map levelFrames)) f' ∧
      (nfcIso14443aOpen k).feed (s.cascade k) (levelAnswers (vs.map levelFrames)) = u.cascade k ∧
      u.level = u.uidSize ∧
      u.driver = ((vs.map levelFrames).map Level.supplied).foldl Driver.close s.driver ∧
      f'.tag = some t ∧ f'.state = .active [] := by
  induction vs generalizing s f with
  | nil =>
    refine ⟨s, f, ?_, Program.feed_nil _ _, hsize, rfl, htag, hstate⟩
    cases s.cascade k <;> rfl
  | cons v vs ih =>
    have hv : t.id.cascadeLevels[s.level]? = some v := by
      rw [← List.head?_drop, hvs]
      rfl
    have hrest : t.id.cascadeLevels.drop (s.level + 1) = vs := by
      rw [← List.tail_drop, hvs]
      rfl
    rw [List.length_cons] at hsize
    have hzero : t.lenient = true ∨ s.level = 0 := hok.imp_right fun h => by omega
    obtain ⟨u, g, hhears, hfeed, hpassed, hgtag, hgstate⟩ :=
      level_hears t k s htag hstate hv (by omega) (by omega) hzero
    have hnext : g.state = stateBefore u.level vs := by
      rw [hgstate, hpassed.level]
      exact state_next t hv hrest
    obtain ⟨w, f', hhears', hfeed', hend, hdriver, hftag, hfstate⟩ :=
      ih u (by rw [hpassed.level, hrest]) (by rw [hpassed.level, hpassed.uidSize]; omega)
        (by rw [hpassed.uidSize]; exact h3) (by rw [hpassed.uidSize]; exact hok) hgtag hnext
    have hanswers : levelAnswers ((v :: vs).map levelFrames) =
        levelAnswers [levelFrames v] ++ levelAnswers (vs.map levelFrames) := rfl
    refine ⟨w, f', ?_, ?_, hend, ?_, hftag, hfstate⟩
    · rw [hanswers]
      exact hhears.append _ _ (hfeed ▸ hhears')
    · rw [hanswers, Program.feed_append, hfeed, hfeed']
    · rw [hdriver, hpassed.driver]
      rfl

end

end NfceeFw.Nfc
