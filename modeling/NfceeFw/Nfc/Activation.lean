import NfceeFw.Nfc.Cascade

/-!
# Activation — what a type A activation guarantees

Where the identifier is written, what a return of 0 says about the card's answers, and that the
answers of a regular card are accepted.
-/

namespace NfceeFw.Nfc

open NfceeFw.Reasoning

/-! ## 1. The bounds of the identifier -/

/-- The `memcpy`s into `nfcid.data` stayed inside, and `nfcid.len` is at most its size. -/
def UidBounded (s : OpenLocals) : Prop :=
  (∀ w ∈ s.uidWrites, w.1 + w.2 ≤ nfcidDataSize) ∧ s.driver.nfcid.len.toNat ≤ nfcidDataSize

instance (s : OpenLocals) : Decidable (UidBounded s) := inferInstanceAs (Decidable (_ ∧ _))

-- Two of three levels without the cascade bit make 11 bytes, three make 12.
def UidTooLong (k : OpenStack) (answers : List Answer) : Prop :=
  (activationLevels k answers).length = 3 ∧ 2 ≤ finals (activationLevels k answers)

/-- The identifier is in bounds, unless three levels are closed with too few cascade bits; a call
that fails on the ATQA leaves the length it found. -/
theorem uid_bounded_iff (k : OpenStack) (d : Driver) (answers : List Answer) :
    UidBounded (openLocals ((nfcIso14443aOpen k).feed (openStart k d) answers)) ↔
      ¬ UidTooLong k answers ∧
        (WupaPassed k answers ∨ d.nfcid.len.toNat ≤ nfcidDataSize) := by
  obtain ⟨hlog, hnfcid⟩ := open_uid k d answers
  obtain ⟨hlevels, hfinals, hbytes⟩ := activationLevels_bytes k answers
  have htiles := uidLog_tiles 0 (activationLevels k answers) [] rfl
    (show (0 : UInt8).toNat + _ < 256 by rw [show (0 : UInt8).toNat = 0 from rfl]; omega)
  rw [show (0 : UInt8).toNat = 0 from rfl, Nat.zero_add] at htiles
  unfold UidBounded UidTooLong
  rw [hlog, htiles.bounded_iff, hnfcid, hbytes]
  by_cases hpassed : WupaPassed k answers
  · rw [if_pos hpassed, (append_fresh d.nfcid (by omega)).1, hbytes, nfcidDataSize]
    simp only [hpassed, true_or, and_true]
    omega
  · have hnil : activationLevels k answers = [] := by
      match answers with
      | [] => rfl
      | w :: rest => exact if_neg hpassed
    rw [if_neg hpassed, hnil]
    simp [hpassed, finals, nfcidDataSize]

-- A triple-size ATQA, and a SAK of 0 at each level.
def threeFinalSaks : List Answer :=
  .frame [0x84, 0x00] :: (List.replicate 3 [.frame [0x01, 0x02, 0x03, 0x04, 0x04],
    .frame [0x00, 0xFE, 0x51]]).flatten

/-- The driver as `nfc_iso14443a_driver_init` leaves it on a cleared stack. -/
def initDriver : Driver where
  tech := .rf14443a
  nfcid := ⟨0, Mem.ofList 0 []⟩
  state := .powerOff
  fsc := 0
  fsd := 0
  fwt := 0
  block := 0
  sak := 0
  atqa := 0
  ats := Mem.ofList 0 []
  atqb := Mem.ofList 0 []

def clearStack : OpenStack := ⟨Mem.ofList 0 [], fun _ => Mem.ofList 0 []⟩

theorem uid_overrun :
    ¬ UidBounded (openLocals ((nfcIso14443aOpen clearStack).feed (openStart clearStack initDriver)
      threeFinalSaks)) := by
  decide +kernel

/-! ## 2. What a return of 0 says -/

-- The level that two answers supply, with nothing taken from the stack.
def Level.supplied (p : Answer × Answer) : Level where
  uid := p.1.received 5
  sak := p.2.received 3
  uidGot := (p.1.received 5).length
  sakGot := (p.2.received 3).length

/-- All bytes of both frames came, with the right BCC and CRC_A. -/
structure Level.Good (lv : Level) : Prop where
  uid : lv.uidGot = 5
  bcc : bccHolds lv.uid = true
  sak : lv.sakGot = 3
  crc : intact lv.sak

/-- What the checks of the source leave open at a level: both frames may be short, and the CRC_A of
a SAK with the cascade bit is not compared. -/
structure Level.Regular (lv : Level) : Prop where
  uid : lv.uidGot = 5
  sak : lv.sakGot = 3
  crc : cascades lv.sakByte = true → intact lv.sak

-- The cascade bit is set at every level but the last.
def CascadeBits (lvs : List Level) : Prop :=
  lvs.map (fun lv => cascades lv.sakByte) = List.replicate (lvs.length - 1) true ++ [false]

-- The answers to the exchanges of levels, in order.
def levelAnswers (pairs : List (Answer × Answer)) : List Answer :=
  pairs.flatMap fun p => [p.1, p.2]

theorem levelAnswers_length (pairs : List (Answer × Answer)) :
    (levelAnswers pairs).length = 2 * pairs.length := by
  induction pairs with
  | nil => rfl
  | cons p pairs ih =>
    show (levelAnswers pairs).length + 2 = 2 * (pairs.length + 1)
    omega

/-- A sound activation: the answers are an ATQA and, for each level it announces, a whole
anticollision frame and a whole SAK frame, and the driver holds what they say. -/
def Sound (answers : List Answer) (final : Driver) : Prop :=
  ∃ w pairs rest, answers = w :: (levelAnswers pairs ++ rest) ∧
    2 ≤ (w.received 8).length ∧ pairs.length = uidSizeOf (Mem.ofList 0 (w.received 8)) ∧
    (∀ p ∈ pairs, (Level.supplied p).Good) ∧ CascadeBits (pairs.map Level.supplied) ∧
    (pairs.map Level.supplied).getLast?.map Level.sakByte = some final.sak ∧
    final.nfcid.len.toNat = 3 * pairs.length + 1 ∧
    final.nfcid.data.read 0 (3 * pairs.length + 1) = uidBytes (pairs.map Level.supplied)

-- The answers are whole, the SAKs that go on have their CRC_A, and the cascade bits are as the ATQA
-- announces.
def Regular (k : OpenStack) : List Answer → Prop
  | w :: rest =>
    2 ≤ (w.received 8).length ∧ (∀ lv ∈ activationLevels k (w :: rest), lv.Regular) ∧
      CascadeBits (activationLevels k (w :: rest))
  | [] => False

theorem levelOf_supplied (sak : Mem UInt8) {prev : List UInt8} (hprev : prev.length = 5)
    {p : Answer × Answer} (huid : (p.1.received 5).length = 5)
    (hsak : (p.2.received 3).length = 3) :
    levelOf sak prev p.1 p.2 = Level.supplied p := by
  unfold levelOf Level.supplied
  rw [Mem.overlay_full (huid.trans hprev.symm), Mem.overlay_full (by rw [hsak, Mem.read_length])]

-- The rest the source has checked.
theorem Level.Good.regular {lv : Level} (h : lv.Good) : lv.Regular :=
  ⟨h.uid, h.sak, fun _ => h.crc⟩

theorem Closes.good {ac sel : Answer} {lv : Level} (h : Closes ac sel lv) (hr : lv.Regular) :
    lv.Good where
  uid := hr.uid
  bcc := h.2.1
  sak := hr.sak
  crc := by
    cases hbit : cascades lv.sakByte with
    | true => exact hr.crc hbit
    | false => exact h.2.2.2 hbit

theorem closedLevels_good (k : OpenStack) (n l : Nat) (prev : List UInt8) (answers : List Answer)
    (hregular : ∀ lv ∈ closedLevels k n l prev answers, lv.Regular) :
    ∀ lv ∈ closedLevels k n l prev answers, lv.Good := by
  induction n generalizing l prev answers with
  | zero => simp [closedLevels]
  | succ n ih =>
    rcases answers with _ | ⟨ac, _ | ⟨sel, rest⟩⟩
    · simp [closedLevels]
    · simp [closedLevels]
    · by_cases hcloses : Closes ac sel (levelOf (k.sak l) prev ac sel)
      · rw [closedLevels, if_pos hcloses] at hregular ⊢
        obtain ⟨hfirst, hrest⟩ := List.forall_mem_cons.mp hregular
        exact List.forall_mem_cons.mpr ⟨hcloses.good hfirst, ih _ _ _ hrest⟩
      · rw [closedLevels, if_neg hcloses]
        simp

theorem ret_nonneg {ans : Answer} {rxlen : Nat} (h : 0 < (ans.received rxlen).length) :
    0 ≤ ans.ret rxlen := by
  cases ans with
  | error code => exact absurd h (Nat.lt_irrefl 0)
  | frame bytes => exact Int.natCast_nonneg _

-- Levels that are supplied whole are closed as they are.
theorem closedLevels_supplied (k : OpenStack) (pairs : List (Answer × Answer)) (l : Nat)
    {prev : List UInt8} (hprev : prev.length = 5) (rest : List Answer)
    (hgood : ∀ p ∈ pairs, (Level.supplied p).Good) :
    closedLevels k pairs.length l prev (levelAnswers pairs ++ rest) =
      pairs.map Level.supplied := by
  induction pairs generalizing l prev with
  | nil => cases rest <;> rfl
  | cons p pairs ih =>
    have hp := hgood p (List.mem_cons_self ..)
    have hlevel := levelOf_supplied (k.sak l) hprev hp.uid hp.sak
    have huid : 0 < (p.1.received 5).length := by
      rw [show (p.1.received 5).length = 5 from hp.uid]
      decide
    have hsak : 0 < (p.2.received 3).length := by
      rw [show (p.2.received 3).length = 3 from hp.sak]
      decide
    have hcloses : Closes p.1 p.2 (levelOf (k.sak l) prev p.1 p.2) := by
      rw [hlevel]
      exact ⟨ret_nonneg huid, hp.bcc, ret_nonneg hsak, fun _ => hp.crc⟩
    show closedLevels k (pairs.length + 1) l prev (p.1 :: p.2 :: (levelAnswers pairs ++ rest)) = _
    rw [closedLevels, if_pos hcloses, hlevel, List.map_cons]
    congr 1
    exact ih (l + 1) hp.uid fun q hq => hgood q (List.mem_cons_of_mem _ hq)

-- If all levels are closed and are good, they are what the answers supplied.
theorem closedLevels_split (k : OpenStack) (n l : Nat) {prev : List UInt8} (hprev : prev.length = 5)
    (answers : List Answer) (hall : (closedLevels k n l prev answers).length = n)
    (hgood : ∀ lv ∈ closedLevels k n l prev answers, lv.Good) :
    ∃ pairs rest, answers = levelAnswers pairs ++ rest ∧ pairs.length = n ∧
      closedLevels k n l prev answers = pairs.map Level.supplied := by
  induction n generalizing l prev answers with
  | zero => exact ⟨[], answers, rfl, rfl, by cases answers <;> rfl⟩
  | succ n ih =>
    match answers with
    | [] | [_] => simp [closedLevels] at hall
    | ac :: sel :: tail =>
      by_cases hcloses : Closes ac sel (levelOf (k.sak l) prev ac sel)
      · rw [closedLevels, if_pos hcloses] at hall hgood ⊢
        have hfirst := hgood _ (List.mem_cons_self ..)
        have hlevel : levelOf (k.sak l) prev ac sel = Level.supplied (ac, sel) :=
          levelOf_supplied _ (p := (ac, sel)) hprev hfirst.uid hfirst.sak
        obtain ⟨pairs, rest, htail, hlen, hmap⟩ := ih (l + 1) (levelOf_uid_length _ _ _ hprev) tail
          (Nat.succ.inj hall) fun lv hlv => hgood lv (List.mem_cons_of_mem _ hlv)
        refine ⟨(ac, sel) :: pairs, rest, ?_, ?_, ?_⟩
        · rw [htail]
          rfl
        · rw [List.length_cons, hlen]
        · rw [List.map_cons, hmap, hlevel]
      · rw [closedLevels, if_neg hcloses] at hall
        simp at hall

-- Under the right cascade bits one level ends the UID, and its SAK is the card's.
theorem CascadeBits.last {lvs : List Level} (h : CascadeBits lvs) :
    finals lvs = 1 ∧
      ∃ sak, finalSak lvs = some sak ∧ lvs.getLast?.map Level.sakByte = some sak := by
  induction lvs with
  | nil => exact absurd h (by simp [CascadeBits])
  | cons lv lvs ih =>
    match lvs with
    | [] =>
      have hbit : cascades lv.sakByte = false := by simpa [CascadeBits] using h
      exact ⟨by simp [finals, hbit], lv.sakByte, by simp [finalSak, hbit], rfl⟩
    | lv' :: lvs =>
      have hsplit : cascades lv.sakByte = true ∧ CascadeBits (lv' :: lvs) := by
        simpa [CascadeBits, List.replicate_succ] using h
      obtain ⟨hfinals, sak, hsak, hlast⟩ := ih hsplit.2
      refine ⟨?_, sak, ?_, ?_⟩
      · simpa [finals, hsplit.1] using hfinals
      · rw [finalSak, hsak]
        rfl
      · rw [List.getLast?_cons_cons]
        exact hlast

theorem wupaBuf_uidSize (k : OpenStack) {w : Answer} (h : 2 ≤ (w.received 8).length) :
    uidSizeOf (wupaBuf k w) = uidSizeOf (Mem.ofList 0 (w.received 8)) := by
  have hbyte : wupaBuf k w 0 = Mem.ofList 0 (w.received 8) 0 := by
    show k.buf.write 0 (w.received 8) (0 + 0) = _
    rw [Mem.write_at _ _ _ _ (by omega)]
    exact (List.getD_eq_getElem _ _ (by omega)).symm
  unfold uidSizeOf
  rw [hbyte]

theorem takeAts_fields (d : Driver) (rats : Option Answer) :
    (d.takeAts rats).sak = d.sak ∧ (d.takeAts rats).nfcid = d.nfcid ∧
      (d.takeAts rats).atqa = d.atqa := by
  unfold Driver.takeAts
  split <;> exact ⟨rfl, rfl, rfl⟩

theorem Complete.levels {k : OpenStack} {w : Answer} {rest : List Answer}
    (h : Complete k (w :: rest)) : activationLevels k (w :: rest) =
      closedLevels k (uidSizeOf (wupaBuf k w)) 0 ((wupaBuf k w).read 2 5) rest :=
  if_pos h.1

theorem regular_of_sound {k : OpenStack} {answers : List Answer} {final : Driver}
    (hc : Complete k answers) (hs : Sound answers final) : Regular k answers := by
  obtain ⟨w, pairs, rest, rfl, hatqa, hsize, hgood, hbits, -⟩ := hs
  have hlevels : activationLevels k (w :: (levelAnswers pairs ++ rest)) =
      pairs.map Level.supplied := by
    rw [hc.levels, wupaBuf_uidSize k hatqa, ← hsize]
    exact closedLevels_supplied k pairs 0 (Mem.read_length _ _ _) rest hgood
  refine ⟨hatqa, ?_, hlevels ▸ hbits⟩
  rw [hlevels]
  intro lv hlv
  obtain ⟨p, hp, rfl⟩ := List.mem_map.mp hlv
  exact (hgood p hp).regular

theorem sound_of_regular {k : OpenStack} {d : Driver} {answers : List Answer}
    (hc : Complete k answers) (hr : Regular k answers) :
    Sound answers (openedDriver k d answers) := by
  match answers with
  | [] => exact absurd hc id
  | w :: tail =>
    obtain ⟨hatqa, hregular, hbits⟩ := hr
    rw [hc.levels] at hregular
    have hgood := closedLevels_good k _ 0 _ tail hregular
    obtain ⟨pairs, rest, rfl, hlen, hmap⟩ := closedLevels_split k _ 0 (Mem.read_length _ _ _) tail
      (hc.levels ▸ hc.2) hgood
    rw [← hc.levels] at hmap
    rw [hmap] at hbits
    obtain ⟨hfinals, sak, hsak, hlast⟩ := hbits.last
    obtain ⟨hfsak, hfnfcid, -⟩ :=
      takeAts_fields (selectedDriver k d (w :: (levelAnswers pairs ++ rest)))
        (ratsAnswer k (w :: (levelAnswers pairs ++ rest)))
    have hbytes := (activationLevels_bytes k (w :: (levelAnswers pairs ++ rest))).2.2
    rw [hmap, List.length_map, hfinals] at hbytes
    have hthree : pairs.length ≤ 3 := hlen ▸ hc.1.2.2
    rw [selectedDriver_eq, hmap] at hfsak hfnfcid
    refine ⟨w, pairs, rest, rfl, hatqa, ?_, ?_, hbits, ?_, ?_, ?_⟩
    · rw [hlen, wupaBuf_uidSize k hatqa]
    · intro p hp
      rw [← hc.levels, hmap] at hgood
      exact hgood _ (List.mem_map_of_mem hp)
    · unfold openedDriver
      rw [selectedDriver_eq, hmap, hfsak, hlast]
      dsimp only
      rw [hsak]
      rfl
    · unfold openedDriver
      rw [selectedDriver_eq, hmap, hfnfcid, (append_fresh d.nfcid (by omega)).1, hbytes]
    · unfold openedDriver
      rw [selectedDriver_eq, hmap, hfnfcid, ← hbytes]
      exact (append_fresh d.nfcid (by omega)).2

/-- A return of 0 is sound exactly on regular answers; the checks of the source let others pass. -/
theorem open_sound_iff (k : OpenStack) (d : Driver) (answers : List Answer) :
    (∀ r, (nfcIso14443aOpen k).feed (openStart k d) answers = .done r → r.ret = 0 →
      Sound answers r.final.driver) ↔ (Activates k d answers → Regular k answers) := by
  obtain ⟨hiff, hdriver⟩ := open_zero k d answers
  constructor
  · intro h hact
    obtain ⟨r, hdone, hzero⟩ := hiff.mpr hact
    exact regular_of_sound hact.1 (h r hdone hzero)
  · intro h r hdone hzero
    have hact := hiff.mp ⟨r, hdone, hzero⟩
    rw [hdriver r hdone hzero]
    exact sound_of_regular hact.1 (h hact)

-- A single-size ATQA, but the cascade bit in the SAK, whose CRC is then not looked at.
def cascadeSakOnly : List Answer :=
  [.frame [0x04, 0x00], .frame [0x01, 0x02, 0x03, 0x04, 0x04], .frame [0x04, 0x00, 0x00]]

theorem open_unsound :
    ∃ r, (nfcIso14443aOpen clearStack).feed (openStart clearStack initDriver) cascadeSakOnly =
      .done r ∧ r.ret = 0 ∧ ¬ Sound cascadeSakOnly r.final.driver := by
  have hrun : ((nfcIso14443aOpen clearStack).feed (openStart clearStack initDriver)
      cascadeSakOnly).result.any
        (fun r => decide (r.ret = 0 ∧ r.final.driver.nfcid.len.toNat = 3)) = true := by
    decide +kernel
  obtain ⟨r, hdone, hzero, hlen⟩ := Status.done_of_result hrun
  refine ⟨r, hdone, hzero, ?_⟩
  rintro ⟨w, pairs, rest, -, -, -, -, -, -, hlen', -⟩
  omega

/-! ## 3. Regular cards are accepted -/

/-- A type A card in its ready state: ATQA, UID, SAKs of the levels before the last, last SAK, ATS.
The UID has 4, 7 or 10 bytes, and the ATQA says which. -/
structure TypeA where
  atqaLo : UInt8
  atqaHi : UInt8
  uid : List UInt8
  inner : List UInt8
  sak : UInt8
  ats : List UInt8
  levels : inner.length ≤ 2
  uidSize : uid.length = 3 * inner.length + 4
  atqaSize : ((atqaLo >>> 6) &&& 0x03).toNat = inner.length
  atqaBits : (atqaLo.toUInt16 ||| atqaHi.toUInt16 <<< 8) &&& 0x1F ≠ 0
  innerBits : ∀ b ∈ inner, cascades b = true
  sakBit : cascades sak = false

-- A cascade group with its BCC.
def withBcc (group : List UInt8) : List UInt8 := group ++ [group.foldl (· ^^^ ·) 0]

def sakFrame (sak : UInt8) : List UInt8 := sak :: crcaBytes [sak]

-- The frames of the levels: the cascade tag stands in for the bytes of the UID still to come.
def cardFrames (last : UInt8) : List UInt8 → List UInt8 → List (Answer × Answer)
  | [], uid => [(.frame (withBcc uid), .frame (sakFrame last))]
  | b :: inner, uid =>
    (.frame (withBcc (0x88 :: uid.take 3)), .frame (sakFrame b)) ::
      cardFrames last inner (uid.drop 3)

namespace TypeA

variable (c : TypeA)

def atqa : UInt16 := c.atqaLo.toUInt16 ||| c.atqaHi.toUInt16 <<< 8

def frames : List (Answer × Answer) := cardFrames c.sak c.inner c.uid

def answers : List Answer :=
  .frame [c.atqaLo, c.atqaHi] ::
    (levelAnswers c.frames ++ if tclSak c.sak then [.frame c.ats] else [])

end TypeA

theorem bccHolds_withBcc (group : List UInt8) : bccHolds (withBcc group) = true := by
  unfold bccHolds withBcc
  rw [List.foldl_append, List.foldl_cons, List.foldl_nil, UInt8.xor_self]
  rfl

theorem supplied_good {group : List UInt8} (hgroup : group.length = 4) (sak : UInt8) :
    (Level.supplied (.frame (withBcc group), .frame (sakFrame sak))).Good := by
  have hlen : (withBcc group).length = 5 := by
    rw [withBcc, List.length_append, hgroup]
    rfl
  have huid : (Answer.frame (withBcc group)).received 5 = withBcc group :=
    List.take_of_length_le (Nat.le_of_eq hlen)
  refine ⟨?_, ?_, rfl, ?_⟩
  · show ((Answer.frame (withBcc group)).received 5).length = 5
    rw [huid, hlen]
  · show bccHolds ((Answer.frame (withBcc group)).received 5) = true
    rw [huid]
    exact bccHolds_withBcc group
  · exact ⟨Nat.le_succ 2, rfl⟩

theorem supplied_part {group : List UInt8} (hgroup : group.length = 4) (sak : UInt8) :
    (Level.supplied (.frame (withBcc group), .frame (sakFrame sak))).part =
      if cascades sak then group.drop 1 else group := by
  have huid : (Answer.frame (withBcc group)).received 5 = withBcc group := by
    apply List.take_of_length_le
    rw [withBcc, List.length_append, hgroup]
    exact Nat.le_refl 5
  show (if cascades sak then (((Answer.frame (withBcc group)).received 5).drop 1).take 3
    else ((Answer.frame (withBcc group)).received 5).take 4) = _
  rw [huid, withBcc]
  split
  · rw [List.drop_append_of_le_length (by omega)]
    exact List.take_left' (by rw [List.length_drop, hgroup])
  · exact List.take_left' hgroup

-- The frames of a card are whole levels whose UID bytes are the card's, and only the last one ends
-- the UID.
theorem cardFrames_levels (last : UInt8) (hlast : cascades last = false) (inner uid : List UInt8)
    (hinner : ∀ b ∈ inner, cascades b = true) (huid : uid.length = 3 * inner.length + 4) :
    (∀ p ∈ cardFrames last inner uid, (Level.supplied p).Good) ∧
    (cardFrames last inner uid).length = inner.length + 1 ∧
    uidBytes ((cardFrames last inner uid).map Level.supplied) = uid ∧
    finalSak ((cardFrames last inner uid).map Level.supplied) = some last := by
  induction inner generalizing uid with
  | nil =>
    have hpart := supplied_part huid last
    rw [hlast, if_neg Bool.false_ne_true] at hpart
    refine ⟨?_, rfl, ?_, ?_⟩
    · intro p hp
      rw [cardFrames, List.mem_singleton] at hp
      exact hp ▸ supplied_good huid last
    · simp only [cardFrames, uidBytes, List.map_cons, List.map_nil, List.flatMap_cons,
        List.flatMap_nil, List.append_nil, hpart]
    · show Option.or none (if cascades last then none else some last) = some last
      rw [hlast]
      rfl
  | cons b inner ih =>
    rw [List.length_cons] at huid
    have hb := hinner b (List.mem_cons_self ..)
    have hgroup : (0x88 :: uid.take 3 : List UInt8).length = 4 := by
      rw [List.length_cons, List.length_take]
      omega
    obtain ⟨hgood, hlen, hbytes, hsak⟩ := ih (uid.drop 3)
      (fun b' hb' => hinner b' (List.mem_cons_of_mem _ hb')) (by rw [List.length_drop]; omega)
    have hpart := supplied_part hgroup b
    rw [hb, if_pos rfl] at hpart
    refine ⟨?_, ?_, ?_, ?_⟩
    · intro p hp
      rcases List.mem_cons.mp hp with rfl | hp
      · exact supplied_good hgroup b
      · exact hgood p hp
    · rw [cardFrames, List.length_cons, hlen, List.length_cons]
    · rw [cardFrames, List.map_cons]
      show Level.part _ ++ uidBytes _ = uid
      rw [hpart, hbytes]
      exact List.take_append_drop 3 uid
    · rw [cardFrames, List.map_cons, finalSak, hsak]
      rfl

-- SEL code of a level, NVB, the five bytes of the anticollision frame.
def selectFrame (level : Nat) (uid : List UInt8) : List UInt8 :=
  (0x93 + 2 * level.toUInt8) :: 0x70 :: uid

section

variable (k : OpenStack) (s : OpenLocals)

theorem selecting_bytes (ac : Answer) :
    let frame := selectFrame s.level (Mem.overlay (s.buf.read 2 5) (ac.received 5))
    (s.selecting k ac).query.bytes = frame ++ crcaBytes frame := by
  intro frame
  have hframe : (s.selecting k ac).buf.read 0 7 = frame := by
    have hsel : (s.selecting k ac).buf 0 = 0x93 + 2 * s.level.toUInt8 := by
      show (((s.passHead k).buf.write 2 (ac.received 5)).set 1 0x70) 0 = _
      rw [Mem.set_other _ _ _ _ (by decide), Mem.write_below _ _ _ _ (by decide), passHead_sel]
    have hnvb : (s.selecting k ac).buf 1 = 0x70 :=
      Mem.set_same ((s.passHead k).buf.write 2 (ac.received 5)) 1 0x70
    rw [Mem.read_succ, Mem.read_succ, hsel, hnvb, selecting_uid]
    rfl
  show (nfcIso14443aTransceive ⟨(s.selecting k ac).buf, 7, 3, defaultTimeout⟩).bytes = _
  rw [nfcIso14443aTransceive_bytes _ (show 7 < 2 ^ 29 by decide)]
  show (s.selecting k ac).buf.read 0 7 ++ crcaBytes ((s.selecting k ac).buf.read 0 7) = _
  rw [hframe]

theorem selecting_query (ac : Answer) (h : (ac.received 5).length = 5) :
    (s.selecting k ac).query.bytes = selectFrame s.level (ac.received 5) ++
      crcaBytes (selectFrame s.level (ac.received 5)) := by
  rw [selecting_bytes, Mem.overlay_full (by rw [h, Mem.read_length])]

theorem resume_rats (ans : Answer) :
    ∃ r, (nfcIso14443aOpen k).resume { s with site := .rats } ans = .done r := by
  show ∃ r, (if ans.ret 7 < 0 then _ else _) = Status.done r
  split <;> exact ⟨_, rfl⟩

theorem finish_steps (h : s.level = s.uidSize) (answers : List Answer) :
    ∀ x ∈ (nfcIso14443aOpen k).steps (s.cascade k) answers, x.1.site = .rats := by
  rw [cascade_end k s h]
  split
  · match answers with
    | [] => simp
    | ans :: answers =>
      obtain ⟨r, hr⟩ := resume_rats k s ans
      rw [Program.steps_cons, hr, Program.steps_done]
      intro x hx
      rw [List.mem_singleton.mp hx]
  · simp

-- Each SELECT of the loop carries the frame that the card has just supplied.
theorem select_steps (pairs : List (Answer × Answer)) (hsize : s.level + pairs.length = s.uidSize)
    (hgood : ∀ p ∈ pairs, (Level.supplied p).Good) (rest : List Answer) :
    ∀ x ∈ (nfcIso14443aOpen k).steps (s.cascade k) (levelAnswers pairs ++ rest),
      x.1.site = .select → ∃ i p, pairs[i]? = some p ∧ x.1.level = s.level + i ∧
        x.1.query.bytes = selectFrame x.1.level (p.1.received 5) ++
          crcaBytes (selectFrame x.1.level (p.1.received 5)) := by
  induction pairs generalizing s with
  | nil =>
    intro x hx hsite
    rw [finish_steps k s hsize rest x hx] at hsite
    cases hsite
  | cons p pairs ih =>
    have hp := hgood p (List.mem_cons_self ..)
    have huid : (p.1.received 5).length = 5 := hp.uid
    have hlevel := levelOf_supplied (k.sak s.level) (s.buf.read_length 2 5) huid hp.sak
    rw [List.length_cons] at hsize
    have hac : 0 ≤ p.1.ret 5 := ret_nonneg (by omega)
    have hbcc : bccHolds (Mem.overlay (s.buf.read 2 5) (p.1.received 5)) = true := by
      rw [Mem.overlay_full (by rw [huid, Mem.read_length])]
      exact hp.bcc
    have hsak : (p.2.received 3).length = 3 := hp.sak
    obtain ⟨t, hnext, hpassed⟩ := (resume_select k s p.1 p.2).1
      ⟨ret_nonneg (by omega), fun _ => hlevel ▸ hp.crc⟩
    have hsteps : (nfcIso14443aOpen k).steps (s.cascade k) (levelAnswers (p :: pairs) ++ rest) =
        (s.passHead k, p.1) :: (s.selecting k p.1, p.2) ::
          (nfcIso14443aOpen k).steps (t.cascade k) (levelAnswers pairs ++ rest) := by
      rw [cascade_lt k s (by omega)]
      show (s.passHead k, p.1) :: (nfcIso14443aOpen k).steps ((s.passHead k).resume k p.1)
        (p.2 :: (levelAnswers pairs ++ rest)) = _
      rw [resume_anticollision_ok k s hac hbcc, Program.steps_cons]
      show _ :: _ :: (nfcIso14443aOpen k).steps ((s.selecting k p.1).resume k p.2) _ = _
      rw [hnext]
    rw [hsteps]
    intro x hx hsite
    rcases List.mem_cons.mp hx with rfl | hx
    · cases hsite
    rcases List.mem_cons.mp hx with rfl | hx
    · exact ⟨0, p, rfl, rfl, selecting_query k s p.1 huid⟩
    · obtain ⟨i, q, hq, hlev, hbytes⟩ := ih t (by rw [hpassed.level, hpassed.uidSize]; omega)
        (fun q hq => hgood q (List.mem_cons_of_mem _ hq)) x hx hsite
      refine ⟨i + 1, q, by simpa using hq, ?_, hbytes⟩
      rw [hlev, hpassed.level]
      omega

end

namespace TypeA

variable (k : OpenStack) (d : Driver) (c : TypeA)

def wupaAnswer : Answer := .frame [c.atqaLo, c.atqaHi]

-- What follows the levels.
def tail : List Answer := if tclSak c.sak then [.frame c.ats] else []

theorem answers_eq : c.answers = c.wupaAnswer :: (levelAnswers c.frames ++ c.tail) := rfl

theorem frames_levels :
    (∀ p ∈ c.frames, (Level.supplied p).Good) ∧ c.frames.length = c.inner.length + 1 ∧
    uidBytes (c.frames.map Level.supplied) = c.uid ∧
    finalSak (c.frames.map Level.supplied) = some c.sak :=
  cardFrames_levels c.sak c.sakBit c.inner c.uid c.innerBits c.uidSize

theorem uidSizeOf_wupa : uidSizeOf (wupaBuf k c.wupaAnswer) = c.frames.length := by
  rw [wupaBuf_uidSize k (w := c.wupaAnswer) (Nat.le_refl 2), c.frames_levels.2.1]
  show ((c.atqaLo >>> 6) &&& 0x03).toNat + 1 = _
  rw [c.atqaSize]

theorem accepted : WupaAccepted k c.wupaAnswer := by
  refine ⟨Int.natCast_nonneg _, c.atqaBits, ?_⟩
  have hfew := c.levels
  rw [uidSizeOf_wupa, c.frames_levels.2.1]
  omega

theorem activationLevels_eq : activationLevels k c.answers = c.frames.map Level.supplied := by
  rw [answers_eq, activationLevels, if_pos (c.accepted k), uidSizeOf_wupa]
  exact closedLevels_supplied k c.frames 0 (Mem.read_length _ _ _) c.tail c.frames_levels.1

theorem complete : Complete k c.answers := by
  refine ⟨c.accepted k, ?_⟩
  show (activationLevels k c.answers).length = uidSizeOf (wupaBuf k c.wupaAnswer)
  rw [activationLevels_eq, List.length_map, uidSizeOf_wupa]

theorem selectedDriver_card : selectedDriver k d c.answers = { d with
    atqa := c.atqa, sak := c.sak, nfcid := Nfcid.append { d.nfcid with len := 0 } c.uid } := by
  rw [answers_eq, selectedDriver_eq, ← answers_eq, activationLevels_eq, c.frames_levels.2.2.1,
    c.frames_levels.2.2.2]
  rfl

-- RATS is sent to a T=CL card, which answers it.
theorem activates : Activates k d c.answers := by
  refine ⟨c.complete k, fun htcl => ⟨c.ats, ?_⟩⟩
  rw [selectedDriver_card] at htcl
  show ((levelAnswers c.frames ++ c.tail).drop (2 * uidSizeOf (wupaBuf k c.wupaAnswer))).head? = _
  rw [uidSizeOf_wupa, ← levelAnswers_length, List.drop_left]
  unfold tail
  rw [if_pos htcl]
  rfl

theorem openedDriver_card :
    (openedDriver k d c.answers).sak = c.sak ∧ (openedDriver k d c.answers).atqa = c.atqa ∧
    (openedDriver k d c.answers).nfcid = Nfcid.append { d.nfcid with len := 0 } c.uid := by
  obtain ⟨hsak, hnfcid, hatqa⟩ :=
    takeAts_fields (selectedDriver k d c.answers) (ratsAnswer k c.answers)
  unfold openedDriver
  rw [hsak, hnfcid, hatqa, selectedDriver_card]
  exact ⟨rfl, rfl, rfl⟩

theorem uid_short : c.uid.length < 256 := by
  have hfew := c.levels
  rw [c.uidSize]
  omega

-- The SELECTs of the call, each with the frame that the card has sent at its level.
theorem selects : ∀ x ∈ (nfcIso14443aOpen k).steps (openStart k d) c.answers,
    x.1.site = .select → ∃ p, c.frames[x.1.level]? = some p ∧
      x.1.query.bytes = selectFrame x.1.level (p.1.received 5) ++
        crcaBytes (selectFrame x.1.level (p.1.received 5)) := by
  obtain ⟨t, hnext, hlevel, hsize, -⟩ := wupa_accepted k d c.wupaAnswer (c.accepted k)
  have hsteps : (nfcIso14443aOpen k).steps (openStart k d) c.answers =
      (OpenLocals.entry k d, c.wupaAnswer) ::
        (nfcIso14443aOpen k).steps (t.cascade k) (levelAnswers c.frames ++ c.tail) := by
    rw [← hnext]
    rfl
  intro x hx hsite
  rw [hsteps] at hx
  rcases List.mem_cons.mp hx with rfl | hx
  · cases hsite
  · obtain ⟨i, p, hp, hi, hbytes⟩ :=
      select_steps k t c.frames (by rw [hlevel, hsize, uidSizeOf_wupa]; omega) c.frames_levels.1
        c.tail x hx hsite
    rw [hlevel, Nat.zero_add] at hi
    exact ⟨p, hi ▸ hp, hbytes⟩

end TypeA

/-- A regular card is activated: the identifier is its UID, and the SELECTs repeat its frames. -/
theorem open_complete (k : OpenStack) (d : Driver) (c : TypeA) :
    (∃ r, (nfcIso14443aOpen k).feed (openStart k d) c.answers = .done r ∧ r.ret = 0 ∧
      r.final.driver.nfcid.len.toNat = c.uid.length ∧
      r.final.driver.nfcid.data.read 0 c.uid.length = c.uid ∧
      r.final.driver.atqa = c.atqa ∧ r.final.driver.sak = c.sak) ∧
    ∀ x ∈ (nfcIso14443aOpen k).steps (openStart k d) c.answers, x.1.site = .select →
      ∃ p, c.frames[x.1.level]? = some p ∧
        x.1.query.bytes = selectFrame x.1.level (p.1.received 5) ++
          crcaBytes (selectFrame x.1.level (p.1.received 5)) := by
  refine ⟨?_, c.selects k d⟩
  obtain ⟨hiff, hdriver⟩ := open_zero k d c.answers
  obtain ⟨r, hdone, hzero⟩ := hiff.mpr (c.activates k d)
  obtain ⟨hsak, hatqa, hnfcid⟩ := c.openedDriver_card k d
  refine ⟨r, hdone, hzero, ?_⟩
  rw [hdriver r hdone hzero, hsak, hatqa, hnfcid]
  exact ⟨(append_fresh d.nfcid c.uid_short).1, (append_fresh d.nfcid c.uid_short).2, rfl, rfl⟩

-- a UID of seven bytes, under a T=CL card
example : TypeA where
  atqaLo := 0x44
  atqaHi := 0x03
  uid := [0x04, 0x11, 0x22, 0x33, 0x44, 0x55, 0x66]
  inner := [0x04]
  sak := 0x20
  ats := [0x05, 0x78, 0x80, 0x70, 0x02]
  levels := by decide
  uidSize := rfl
  atqaSize := by decide
  atqaBits := by decide
  innerBits := by
    intro b hb
    rw [List.mem_singleton.mp hb]
    rfl
  sakBit := by decide

end NfceeFw.Nfc
