import NfceeFw.Nfc.Open

/-!
# Cascade — what a run of `nfc_iso14443a_open` has closed, read off the answers

The levels that a list of answers closes are computed from the answers alone (`closedLevels`); the
program is shown to hold, at every point of its run, the driver that these levels make.
-/

namespace NfceeFw.Nfc

open NfceeFw.Reasoning

/-! ## 1. Levels -/

/-- A cascade level: the five bytes of the anticollision frame and the three of the SAK frame as the
arrays hold them, and how many of them the card supplied. -/
structure Level where
  uid : List UInt8
  sak : List UInt8
  uidGot : Nat
  sakGot : Nat
  deriving DecidableEq

-- The cascade bit of a SAK: the UID goes on.
def cascades (sak : UInt8) : Bool := sak &&& 0x04 != 0

def Level.sakByte (lv : Level) : UInt8 := lv.sak.headD 0

-- The bytes of the UID that a level adds.
def Level.part (lv : Level) : List UInt8 :=
  if cascades lv.sakByte then (lv.uid.drop 1).take 3 else lv.uid.take 4

-- The BCC makes the XOR of the five bytes zero.
def bccHolds (uid : List UInt8) : Bool := uid.foldl (· ^^^ ·) 0 == 0

/-- What two answers make of a level; `prev` is in the buffer when the first arrives, `sak` on the
stack. -/
def levelOf (sak : Mem UInt8) (prev : List UInt8) (ac sel : Answer) : Level where
  uid := Mem.overlay prev (ac.received 5)
  sak := Mem.overlay (sak.read 0 3) (sel.received 3)
  uidGot := (ac.received 5).length
  sakGot := (sel.received 3).length

-- The checks of the source.
def Closes (ac sel : Answer) (lv : Level) : Prop :=
  0 ≤ ac.ret 5 ∧ bccHolds lv.uid = true ∧ 0 ≤ sel.ret 3 ∧
    (cascades lv.sakByte = false → intact lv.sak)

instance (ac sel : Answer) (lv : Level) : Decidable (Closes ac sel lv) :=
  inferInstanceAs (Decidable (_ ∧ _ ∧ _ ∧ _))

/-- The levels closed by the answers, of `n` that are left, from level `l` on. -/
def closedLevels (k : OpenStack) : Nat → Nat → List UInt8 → List Answer → List Level
  | n + 1, l, prev, ac :: sel :: rest =>
    if Closes ac sel (levelOf (k.sak l) prev ac sel) then
      levelOf (k.sak l) prev ac sel ::
        closedLevels k n (l + 1) (levelOf (k.sak l) prev ac sel).uid rest
    else []
  | _, _, _, _ => []

-- The driver a closed level leaves.
def Driver.close (d : Driver) (lv : Level) : Driver :=
  { d with
    sak := if cascades lv.sakByte then d.sak else lv.sakByte
    nfcid := d.nfcid.append lv.part }

theorem closedLevels_length_le (k : OpenStack) (n l : Nat) (prev : List UInt8)
    (answers : List Answer) : (closedLevels k n l prev answers).length ≤ n := by
  induction n generalizing l prev answers with
  | zero => simp [closedLevels]
  | succ n ih =>
    match answers with
    | [] | [_] => simp [closedLevels]
    | ac :: sel :: rest =>
      rw [closedLevels]
      split
      · exact Nat.succ_le_succ (ih _ _ _)
      · exact Nat.zero_le _

theorem received_length_le (ans : Answer) (rxlen : Nat) : (ans.received rxlen).length ≤ rxlen := by
  cases ans with
  | error code => exact Nat.zero_le _
  | frame bytes => exact List.length_take_le _ _

theorem levelOf_uid_length (sak : Mem UInt8) {prev : List UInt8} (ac sel : Answer)
    (hprev : prev.length = 5) : (levelOf sak prev ac sel).uid.length = 5 := by
  have hgot : (ac.received 5).length ≤ prev.length := hprev ▸ received_length_le ac 5
  exact (Mem.overlay_length hgot).trans hprev

theorem Level.part_length {lv : Level} (h : lv.uid.length = 5) :
    lv.part.length = if cascades lv.sakByte then 3 else 4 := by
  unfold Level.part
  split
  · simp [h]
  · simp [h]

/-! ## 2. The exchanges of a level -/

theorem isBccValid_eq (m : Mem UInt8) : isBccValid m 2 (m (2 + 4)) = bccHolds (m.read 2 5) := by
  have hread : m.read 2 5 = [m 2, m 3, m 4, m 5, m 6] := rfl
  rw [hread]
  simp only [isBccValid, bccHolds, List.foldl_cons, List.foldl_nil, UInt8.zero_xor]
  apply Bool.eq_iff_iff.mpr
  rw [beq_iff_eq, beq_iff_eq, UInt8.xor_eq_zero_iff]

-- The comparison of the source, over `int`, is that of the two bytes.
theorem crca_eq_iff (b lo hi : UInt8) :
    (crca [b]).toNat = lo.toNat + hi.toNat <<< 8 ↔ intact [b, lo, hi] := by
  rw [bytes_eq_iff]
  simp [intact, crcaBytes]

/-- From the head of a pass to that of the next one. -/
structure Passed (s t : OpenLocals) (lv : Level) : Prop where
  driver : t.driver = s.driver.close lv
  uid : t.buf.read 2 5 = lv.uid
  level : t.level = s.level + 1
  uidSize : t.uidSize = s.uidSize
  writes : t.uidWrites = (s.driver.nfcid.len.toNat, lv.part.length) :: s.uidWrites

-- The call ends with an error, the driver as it was.
def Refused (s : OpenLocals) (st : OpenRun) : Prop :=
  ∃ r, st = .done r ∧ r.ret < 0 ∧ r.final.driver = s.driver ∧ r.final.uidWrites = s.uidWrites

-- A run that has not left the cascade loop, or left it with an error.
def Unfinished (d : Driver) (log : List (Nat × Nat)) : OpenRun → Prop
  | .wait t => t.driver = d ∧ t.uidWrites = log
  | .done r => r.ret < 0 ∧ r.final.driver = d ∧ r.final.uidWrites = log

section

variable (k : OpenStack) (s : OpenLocals)

theorem passHead_uid : (s.passHead k).buf.read 2 5 = s.buf.read 2 5 := by
  show ((s.buf.set 0 _).set 1 _).read 2 5 = _
  rw [Mem.set, Mem.read_write_disjoint _ _ _ _ _ (.inr (by simp)), Mem.set,
    Mem.read_write_disjoint _ _ _ _ _ (.inr (by simp))]

theorem passHead_sel : (s.passHead k).buf 0 = 0x93 + 2 * s.level.toUInt8 := by
  show ((s.buf.set 0 (0x93 + 2 * s.level.toUInt8)).set 1 0x20) 0 = 0x93 + 2 * s.level.toUInt8
  rw [Mem.set_other _ _ _ _ (by decide), Mem.set_same]

/-- The state in which the SELECT of a pass is sent, after the anticollision answer `ac`. -/
def OpenLocals.selecting (ac : Answer) : OpenLocals :=
  { s.passHead k with
    buf := ((s.passHead k).buf.write 2 (ac.received 5)).set 1 0x70
    site := .select }

theorem selecting_uid (ac : Answer) :
    (s.selecting k ac).buf.read 2 5 = Mem.overlay (s.buf.read 2 5) (ac.received 5) := by
  show (((s.passHead k).buf.write 2 (ac.received 5)).set 1 0x70).read 2 5 = _
  rw [Mem.set, Mem.read_write_disjoint _ _ _ _ _ (.inr (by simp)),
    Mem.read_write_overlay _ _ _ _ (received_length_le ac 5), passHead_uid]

-- The anticollision of a pass.
theorem resume_anticollision (ac : Answer) :
    (s.passHead k).resume k ac =
      if 0 ≤ ac.ret 5 then
        if bccHolds (Mem.overlay (s.buf.read 2 5) (ac.received 5)) then .wait (s.selecting k ac)
        else .done ⟨-eio, { s.passHead k with
          buf := (s.passHead k).buf.write 2 (ac.received 5) }⟩
      else .done ⟨-eio, s.passHead k⟩ := by
  have hbcc : isBccValid ((s.passHead k).buf.write 2 (ac.received 5)) 2
      ((s.passHead k).buf.write 2 (ac.received 5) (2 + 4)) =
      bccHolds (Mem.overlay (s.buf.read 2 5) (ac.received 5)) := by
    rw [isBccValid_eq, Mem.read_write_overlay _ _ _ _ (received_length_le ac 5), passHead_uid]
  show (if ac.ret 5 < 0 then _ else OpenLocals.afterAnticollision _) = _
  unfold OpenLocals.afterAnticollision
  rw [hbcc]
  by_cases hret : ac.ret 5 < 0
  · rw [if_pos hret, if_neg (Int.not_le.mpr hret)]
    rfl
  · rw [if_neg hret, if_pos (Int.not_lt.mp hret)]
    cases bccHolds (Mem.overlay (s.buf.read 2 5) (ac.received 5)) <;> rfl

-- The two branches on the cascade bit; only one looks at the CRC.
theorem afterSelect_eq (t : OpenLocals) : t.afterSelect k =
    if cascades (t.sak 0) then OpenLocals.cascade k (OpenLocals.takeUid 3 3 t)
    else if intact [t.sak 0, t.sak 1, t.sak 2] then OpenLocals.cascade k
      (OpenLocals.takeUid 2 4 { t with driver := { t.driver with sak := t.sak 0 } })
    else t.fail (-eio) := by
  unfold OpenLocals.afterSelect cascades
  by_cases hbit : t.sak 0 &&& 0x04 = 0
  · by_cases hcrc : (crca [t.sak 0]).toNat = (t.sak 1).toNat + (t.sak 2).toNat <<< 8
    · simp [hbit, hcrc, (crca_eq_iff _ _ _).mp hcrc]
    · simp [hbit, hcrc, mt (crca_eq_iff _ _ _).mpr hcrc]
  · simp [hbit]

/-- The state in which the SAK of a pass is checked, after the SELECT answer `sel`. -/
def OpenLocals.selected (ac sel : Answer) : OpenLocals :=
  { s.selecting k ac with sak := (k.sak s.level).write 0 (sel.received 3) }

theorem levelOf_sak (ac sel : Answer) :
    (levelOf (k.sak s.level) (s.buf.read 2 5) ac sel).sak =
      [(s.selected k ac sel).sak 0, (s.selected k ac sel).sak 1, (s.selected k ac sel).sak 2] :=
  (Mem.read_write_overlay (k.sak s.level) 0 3 _ (received_length_le sel 3)).symm

theorem levelOf_sakByte (ac sel : Answer) :
    (levelOf (k.sak s.level) (s.buf.read 2 5) ac sel).sakByte = (s.selected k ac sel).sak 0 := by
  unfold Level.sakByte
  rw [levelOf_sak]
  rfl

theorem levelOf_uid (ac sel : Answer) :
    (levelOf (k.sak s.level) (s.buf.read 2 5) ac sel).uid = (s.selected k ac sel).buf.read 2 5 :=
  (selecting_uid k s ac).symm

-- The SELECT of a pass.
theorem resume_select_eq (ac sel : Answer) :
    let lv := levelOf (k.sak s.level) (s.buf.read 2 5) ac sel
    let t := s.selected k ac sel
    (s.selecting k ac).resume k sel =
      if sel.ret 3 < 0 then (s.selecting k ac).fail (-eio)
      else if cascades lv.sakByte then OpenLocals.cascade k (OpenLocals.takeUid 3 3 t)
      else if intact lv.sak then OpenLocals.cascade k
        (OpenLocals.takeUid 2 4 { t with driver := { s.driver with sak := lv.sakByte } })
      else t.fail (-eio) := by
  intro lv t
  have hresume : (s.selecting k ac).resume k sel =
      if sel.ret 3 < 0 then (s.selecting k ac).fail (-eio) else OpenLocals.afterSelect k t := rfl
  rw [hresume, afterSelect_eq, levelOf_sakByte, levelOf_sak]
  rfl

-- Another cascade level follows: byte 2 is the cascade tag.
theorem passed_cascading {ac sel : Answer}
    (hbit : cascades (levelOf (k.sak s.level) (s.buf.read 2 5) ac sel).sakByte = true) :
    Passed s (OpenLocals.takeUid 3 3 (s.selected k ac sel))
      (levelOf (k.sak s.level) (s.buf.read 2 5) ac sel) := by
  have huid := levelOf_uid k s ac sel
  generalize levelOf (k.sak s.level) (s.buf.read 2 5) ac sel = lv at hbit huid ⊢
  have hpart : lv.part = (s.selected k ac sel).buf.read 3 3 := by
    unfold Level.part
    rw [hbit, if_pos rfl, huid, Mem.read_drop, Mem.read_take]
    rfl
  refine ⟨?_, huid.symm, rfl, rfl, ?_⟩
  · unfold Driver.close
    rw [hbit, hpart]
    rfl
  · rw [hpart, Mem.read_length]
    rfl

theorem passed_complete {ac sel : Answer}
    (hbit : cascades (levelOf (k.sak s.level) (s.buf.read 2 5) ac sel).sakByte = false) :
    Passed s (OpenLocals.takeUid 2 4 { s.selected k ac sel with
        driver := { s.driver with
          sak := (levelOf (k.sak s.level) (s.buf.read 2 5) ac sel).sakByte } })
      (levelOf (k.sak s.level) (s.buf.read 2 5) ac sel) := by
  have huid := levelOf_uid k s ac sel
  generalize levelOf (k.sak s.level) (s.buf.read 2 5) ac sel = lv at hbit huid ⊢
  have hpart : lv.part = (s.selected k ac sel).buf.read 2 4 := by
    unfold Level.part
    rw [hbit, if_neg Bool.false_ne_true, huid, Mem.read_take]
    rfl
  refine ⟨?_, huid.symm, rfl, rfl, ?_⟩
  · unfold Driver.close
    rw [hbit, hpart]
    rfl
  · rw [hpart, Mem.read_length]
    rfl

theorem resume_select (ac sel : Answer) :
    let lv := levelOf (k.sak s.level) (s.buf.read 2 5) ac sel
    (0 ≤ sel.ret 3 ∧ (cascades lv.sakByte = false → intact lv.sak) →
      ∃ t, (s.selecting k ac).resume k sel = t.cascade k ∧ Passed s t lv) ∧
    (¬ (0 ≤ sel.ret 3 ∧ (cascades lv.sakByte = false → intact lv.sak)) →
      Refused s ((s.selecting k ac).resume k sel)) := by
  intro lv
  rw [resume_select_eq]
  constructor
  · rintro ⟨hret, hcrc⟩
    rw [if_neg (Int.not_lt.mpr hret)]
    cases hbit : cascades lv.sakByte with
    | true => exact ⟨_, if_pos rfl, passed_cascading k s hbit⟩
    | false =>
      rw [if_neg Bool.false_ne_true, if_pos (hcrc hbit)]
      exact ⟨_, rfl, passed_complete k s hbit⟩
  · intro hbad
    by_cases hret : sel.ret 3 < 0
    · rw [if_pos hret]
      exact ⟨_, rfl, show -eio < 0 by decide, rfl, rfl⟩
    · rw [if_neg hret]
      have hfail : cascades lv.sakByte = false ∧ ¬ intact lv.sak := by
        cases hbit : cascades lv.sakByte with
        | true => exact absurd ⟨Int.not_lt.mp hret, by simp [hbit]⟩ hbad
        | false => exact ⟨rfl, fun h => hbad ⟨Int.not_lt.mp hret, fun _ => h⟩⟩
      rw [hfail.1, if_neg Bool.false_ne_true, if_neg hfail.2]
      exact ⟨_, rfl, show -eio < 0 by decide, rfl, rfl⟩

theorem cascade_lt (h : s.level < s.uidSize) : s.cascade k = .wait (s.passHead k) := by
  unfold OpenLocals.cascade
  rw [if_pos h]

theorem resume_anticollision_ok {ac : Answer} (hret : 0 ≤ ac.ret 5)
    (hbcc : bccHolds (Mem.overlay (s.buf.read 2 5) (ac.received 5)) = true) :
    (s.passHead k).resume k ac = .wait (s.selecting k ac) := by
  rw [resume_anticollision, if_pos hret, hbcc]
  rfl

theorem resume_anticollision_bad {ac : Answer}
    (hbad : ¬ (0 ≤ ac.ret 5 ∧ bccHolds (Mem.overlay (s.buf.read 2 5) (ac.received 5)) = true)) :
    Refused s ((s.passHead k).resume k ac) := by
  rw [resume_anticollision]
  by_cases hret : 0 ≤ ac.ret 5
  · have hbcc : bccHolds (Mem.overlay (s.buf.read 2 5) (ac.received 5)) = false := by
      by_contra h
      exact hbad ⟨hret, by simpa using h⟩
    rw [if_pos hret, hbcc]
    exact ⟨_, rfl, show -eio < 0 by decide, rfl, rfl⟩
  · rw [if_neg hret]
    exact ⟨_, rfl, show -eio < 0 by decide, rfl, rfl⟩

theorem level_closes {ac sel : Answer} (rest : List Answer) (hlt : s.level < s.uidSize)
    (h : Closes ac sel (levelOf (k.sak s.level) (s.buf.read 2 5) ac sel)) :
    ∃ t, (nfcIso14443aOpen k).feed (s.cascade k) (ac :: sel :: rest) =
        (nfcIso14443aOpen k).feed (t.cascade k) rest ∧
      Passed s t (levelOf (k.sak s.level) (s.buf.read 2 5) ac sel) := by
  obtain ⟨hac, hbcc, hsel⟩ := h
  obtain ⟨t, hnext, hpassed⟩ := (resume_select k s ac sel).1 hsel
  refine ⟨t, ?_, hpassed⟩
  rw [cascade_lt k s hlt]
  show (nfcIso14443aOpen k).feed ((s.passHead k).resume k ac) (sel :: rest) = _
  rw [resume_anticollision_ok k s hac hbcc]
  show (nfcIso14443aOpen k).feed ((s.selecting k ac).resume k sel) rest = _
  rw [hnext]

-- Answers that close no level leave the driver as it was at the head of the pass.
theorem level_unfinished (answers : List Answer) (hlt : s.level < s.uidSize)
    (h : ∀ ac sel rest, answers = ac :: sel :: rest →
      ¬ Closes ac sel (levelOf (k.sak s.level) (s.buf.read 2 5) ac sel)) :
    Unfinished s.driver s.uidWrites ((nfcIso14443aOpen k).feed (s.cascade k) answers) := by
  rw [cascade_lt k s hlt]
  match answers with
  | [] => exact ⟨rfl, rfl⟩
  | ac :: answers =>
    show Unfinished _ _ ((nfcIso14443aOpen k).feed ((s.passHead k).resume k ac) answers)
    by_cases hac : 0 ≤ ac.ret 5 ∧ bccHolds (Mem.overlay (s.buf.read 2 5) (ac.received 5)) = true
    · rw [resume_anticollision_ok k s hac.1 hac.2]
      match answers with
      | [] => exact ⟨rfl, rfl⟩
      | sel :: rest =>
        obtain ⟨r, hdone, hr⟩ := (resume_select k s ac sel).2 fun hsel =>
          h ac sel rest rfl ⟨hac.1, hac.2, hsel⟩
        show Unfinished _ _ ((nfcIso14443aOpen k).feed ((s.selecting k ac).resume k sel) rest)
        rw [hdone, Program.feed_done]
        exact hr
    · obtain ⟨r, hdone, hr⟩ := resume_anticollision_bad k s hac
      rw [hdone, Program.feed_done]
      exact hr

end

/-! ## 3. The cascade loop -/

-- The UID bytes of the levels, one after the other.
def uidBytes (lvs : List Level) : List UInt8 := lvs.flatMap Level.part

/-- The log of the writes of the levels, the first at offset `len`. -/
def uidLog (len : UInt8) : List Level → List (Nat × Nat) → List (Nat × Nat)
  | [], log => log
  | lv :: lvs, log =>
    uidLog (len + lv.part.length.toUInt8) lvs ((len.toNat, lv.part.length) :: log)

-- The loop from level `l` on, with `n` levels to go: it closes the levels that the answers close,
-- and leaves towards RATS exactly if these are all.
theorem cascade_run (k : OpenStack) (n : Nat) (s : OpenLocals) (answers : List Answer)
    (hn : s.level + n = s.uidSize) :
    let lvs := closedLevels k n s.level (s.buf.read 2 5) answers
    (lvs.length = n → ∃ t : OpenLocals, (nfcIso14443aOpen k).feed (s.cascade k) answers =
        (nfcIso14443aOpen k).feed (t.cascade k) (answers.drop (2 * n)) ∧
      t.level = t.uidSize ∧ t.driver = lvs.foldl Driver.close s.driver ∧
      t.uidWrites = uidLog s.driver.nfcid.len lvs s.uidWrites) ∧
    (lvs.length < n → Unfinished (lvs.foldl Driver.close s.driver)
      (uidLog s.driver.nfcid.len lvs s.uidWrites)
      ((nfcIso14443aOpen k).feed (s.cascade k) answers)) := by
  induction n generalizing s answers with
  | zero =>
    refine ⟨fun _ => ⟨s, rfl, hn, rfl, rfl⟩, fun h => absurd h (Nat.not_lt_zero _)⟩
  | succ n ih =>
    have hlt : s.level < s.uidSize := by omega
    match answers with
    | [] | [_] =>
      refine ⟨fun h => absurd h (by simp [closedLevels]), fun _ => ?_⟩
      exact level_unfinished k s _ hlt (by simp)
    | ac :: sel :: rest =>
      by_cases hcloses : Closes ac sel (levelOf (k.sak s.level) (s.buf.read 2 5) ac sel)
      · obtain ⟨t, hfeed, hpassed⟩ := level_closes k s rest hlt hcloses
        have hrest := ih t rest (by rw [hpassed.level, hpassed.uidSize]; omega)
        rw [hpassed.level, hpassed.uid, hpassed.driver, hpassed.writes] at hrest
        rw [closedLevels, if_pos hcloses, hfeed]
        refine ⟨fun h => hrest.1 (Nat.succ.inj h), fun h => hrest.2 (Nat.lt_of_succ_lt_succ h)⟩
      · rw [closedLevels, if_neg hcloses]
        refine ⟨fun h => absurd h (by simp), fun _ => level_unfinished k s _ hlt ?_⟩
        rintro _ _ _ ⟨⟩
        exact hcloses

/-! ## 4. The whole call -/

/-- `buf` when the ATQA is read. -/
def wupaBuf (k : OpenStack) (w : Answer) : Mem UInt8 := k.buf.write 0 (w.received 8)

def WupaAccepted (k : OpenStack) (w : Answer) : Prop :=
  0 ≤ w.ret 8 ∧ atqaOf (wupaBuf k w) &&& 0x1F ≠ 0 ∧ uidSizeOf (wupaBuf k w) ≤ 3

instance (k : OpenStack) (w : Answer) : Decidable (WupaAccepted k w) :=
  inferInstanceAs (Decidable (_ ∧ _ ∧ _))

def WupaPassed (k : OpenStack) : List Answer → Prop
  | w :: _ => WupaAccepted k w
  | [] => False

instance (k : OpenStack) : DecidablePred (WupaPassed k)
  | w :: _ => inferInstanceAs (Decidable (WupaAccepted k w))
  | [] => .isFalse id

-- The levels closed by the answers to a call.
def activationLevels (k : OpenStack) : List Answer → List Level
  | w :: rest =>
    if WupaAccepted k w then
      closedLevels k (uidSizeOf (wupaBuf k w)) 0 ((wupaBuf k w).read 2 5) rest
    else []
  | [] => []

-- The ATQA passes its checks, and all the levels it announces are closed.
def Complete (k : OpenStack) : List Answer → Prop
  | w :: rest =>
    WupaAccepted k w ∧ (activationLevels k (w :: rest)).length = uidSizeOf (wupaBuf k w)
  | [] => False

instance (k : OpenStack) : DecidablePred (Complete k)
  | _ :: _ => inferInstanceAs (Decidable (_ ∧ _))
  | [] => .isFalse id

-- The answer to RATS, which follows those of the levels.
def ratsAnswer (k : OpenStack) : List Answer → Option Answer
  | w :: rest => (rest.drop (2 * uidSizeOf (wupaBuf k w))).head?
  | [] => none

-- The driver that comes out of the cascade loop.
def selectedDriver (k : OpenStack) (d : Driver) : List Answer → Driver
  | w :: rest => (activationLevels k (w :: rest)).foldl Driver.close
      { d with atqa := atqaOf (wupaBuf k w), nfcid := { d.nfcid with len := 0 } }
  | [] => d

def tclSak (sak : UInt8) : Bool := (sak &&& 0x24) == 0x20

-- The call returns 0: no check fails, and a T=CL card answers RATS.
def Activates (k : OpenStack) (d : Driver) (answers : List Answer) : Prop :=
  Complete k answers ∧ (tclSak (selectedDriver k d answers).sak = true →
    ∃ bytes, ratsAnswer k answers = some (.frame bytes))

-- The driver after RATS, if the card takes it.
def Driver.takeAts (d : Driver) (rats : Option Answer) : Driver :=
  match tclSak d.sak, rats with
  | true, some ans => Driver.readAts { d with ats := d.ats.write 0 (ans.received 7) }
  | _, _ => d

-- The driver that a call that returns 0 leaves.
def openedDriver (k : OpenStack) (d : Driver) (answers : List Answer) : Driver :=
  (selectedDriver k d answers).takeAts (ratsAnswer k answers)

-- The variables where a run stands.
def openLocals : OpenRun → OpenLocals
  | .wait s => s
  | .done r => r.final

-- A run that does not end with 0, under a condition for success that does not hold.
theorem zero_of_nonzero {st : OpenRun} {P : Prop} {Q : Opened → Prop}
    (hst : ∀ r, st = .done r → r.ret ≠ 0) (hp : ¬ P) :
    ((∃ r, st = .done r ∧ r.ret = 0) ↔ P) ∧ ∀ r, st = .done r → r.ret = 0 → Q r := by
  constructor
  · apply iff_of_false
    · intro ⟨r, hdone, hzero⟩
      exact hst r hdone hzero
    · exact hp
  · intro r hdone hzero
    exact absurd hzero (hst r hdone)

section

variable (k : OpenStack) (d : Driver) (w : Answer)

theorem wupa_accepted (h : WupaAccepted k w) :
    ∃ t : OpenLocals, (OpenLocals.entry k d).resume k w = t.cascade k ∧ t.level = 0 ∧
      t.uidSize = uidSizeOf (wupaBuf k w) ∧ t.buf = wupaBuf k w ∧ t.uidWrites = [] ∧
      t.driver = { d with
        atqa := atqaOf (wupaBuf k w), nfcid := { d.nfcid with len := 0 } } := by
  obtain ⟨hret, hatqa, hsize⟩ := h
  refine ⟨{ OpenLocals.entry k d with
    buf := wupaBuf k w
    driver := { d with atqa := atqaOf (wupaBuf k w), nfcid := { d.nfcid with len := 0 } }
    uidSize := uidSizeOf (wupaBuf k w) }, ?_, rfl, rfl, rfl, rfl, rfl⟩
  show (if w.ret 8 < 0 then _ else
    OpenLocals.afterWupa k { OpenLocals.entry k d with buf := wupaBuf k w }) = _
  rw [if_neg (Int.not_lt.mpr hret)]
  unfold OpenLocals.afterWupa
  dsimp only
  rw [if_neg (by simpa using hatqa), if_neg (Nat.not_lt.mpr hsize)]
  rfl

theorem resume_wupa_refused (h : ¬ WupaAccepted k w) :
    ∃ r : Opened, (OpenLocals.entry k d).resume k w = .done r ∧ r.ret < 0 ∧
      r.final.driver.nfcid = d.nfcid ∧ r.final.uidWrites = [] := by
  show ∃ r : Opened, (if w.ret 8 < 0 then _ else
    OpenLocals.afterWupa k { OpenLocals.entry k d with buf := wupaBuf k w }) = .done r ∧ _
  by_cases hret : w.ret 8 < 0
  · rw [if_pos hret]
    exact ⟨_, rfl, show -enodev < 0 by decide, rfl, rfl⟩
  rw [if_neg hret]
  unfold OpenLocals.afterWupa
  dsimp only
  by_cases hatqa : atqaOf (wupaBuf k w) &&& 0x1F = 0
  · rw [if_pos (by simpa using hatqa)]
    exact ⟨_, rfl, show -eproto < 0 by decide, rfl, rfl⟩
  rw [if_neg (by simpa using hatqa)]
  by_cases hsize : 3 < uidSizeOf (wupaBuf k w)
  · rw [if_pos hsize]
    exact ⟨_, rfl, show -eio < 0 by decide, rfl, rfl⟩
  · exact absurd ⟨Int.not_lt.mp hret, hatqa, Nat.not_lt.mp hsize⟩ h

theorem wupa_refused (rest : List Answer) (h : ¬ WupaAccepted k w) :
    ∃ r : Opened, (nfcIso14443aOpen k).feed (openStart k d) (w :: rest) = .done r ∧ r.ret < 0 ∧
      r.final.driver.nfcid = d.nfcid ∧ r.final.uidWrites = [] := by
  obtain ⟨r, hdone, hr⟩ := resume_wupa_refused k d w h
  refine ⟨r, ?_, hr⟩
  show (nfcIso14443aOpen k).feed ((OpenLocals.entry k d).resume k w) rest = _
  rw [hdone, Program.feed_done]

-- Behind the last level, the SAK decides whether RATS follows.
theorem cascade_end (t : OpenLocals) (ht : t.level = t.uidSize) :
    t.cascade k = if tclSak t.driver.sak then .wait { t with site := .rats } else .done ⟨0, t⟩ := by
  unfold OpenLocals.cascade
  rw [if_neg (by omega)]
  rfl

-- From the end of the cascade loop on.
theorem finish_run (t : OpenLocals) (ht : t.level = t.uidSize) (answers : List Answer) :
    let st := (nfcIso14443aOpen k).feed (t.cascade k) answers
    ((openLocals st).uidWrites = t.uidWrites ∧ (openLocals st).driver.nfcid = t.driver.nfcid) ∧
    ((∃ r, st = .done r ∧ r.ret = 0) ↔
      (tclSak t.driver.sak = true → ∃ bytes, answers.head? = some (.frame bytes))) ∧
    ∀ r, st = .done r → r.ret = 0 → r.final.driver = t.driver.takeAts answers.head? := by
  have hend := cascade_end k t ht
  unfold Driver.takeAts
  cases htcl : tclSak t.driver.sak with
  | false =>
    rw [htcl, if_neg Bool.false_ne_true] at hend
    rw [hend, Program.feed_done]
    refine ⟨⟨rfl, rfl⟩, ⟨fun _ h => absurd h Bool.false_ne_true, fun _ => ⟨_, rfl, rfl⟩⟩, ?_⟩
    rintro _ ⟨⟩ _
    rfl
  | true =>
    rw [htcl, if_pos rfl] at hend
    rw [hend]
    match answers with
    | [] =>
      rw [Program.feed_nil]
      refine ⟨⟨rfl, rfl⟩, zero_of_nonzero (fun r hr => by cases hr) fun h => ?_⟩
      obtain ⟨_, hnone⟩ := h rfl
      cases hnone
    | .error code :: _ =>
      have hnext : (nfcIso14443aOpen k).resume { t with site := .rats } (.error code) =
          .done ⟨Int.negSucc code, { t with site := .rats }⟩ := if_pos (Int.negSucc_lt_zero code)
      rw [Program.feed_cons, hnext, Program.feed_done]
      refine ⟨⟨rfl, rfl⟩, zero_of_nonzero (fun r hr => ?_) fun h => ?_⟩
      · cases hr
        exact Int.negSucc_ne_zero code
      · obtain ⟨_, hframe⟩ := h rfl
        cases hframe
    | .frame bytes :: _ =>
      have hnext : (nfcIso14443aOpen k).resume { t with site := .rats } (.frame bytes) =
          .done ⟨0, { t with
            site := .rats
            driver := Driver.readAts
              { t.driver with ats := t.driver.ats.write 0 (bytes.take 7) } }⟩ := rfl
      rw [Program.feed_cons, hnext, Program.feed_done]
      refine ⟨⟨rfl, rfl⟩, ⟨fun _ _ => ⟨bytes, rfl⟩, fun _ => ⟨_, rfl, rfl⟩⟩, ?_⟩
      rintro _ ⟨⟩ _
      rfl

end

/-! ## 5. What the levels make of the driver -/

-- The SAK of the last level that ends the UID.
def finalSak : List Level → Option UInt8
  | [] => none
  | lv :: lvs => (finalSak lvs).or (if cascades lv.sakByte then none else some lv.sakByte)

-- How many levels end the UID.
def finals (lvs : List Level) : Nat := lvs.countP fun lv => !cascades lv.sakByte

theorem uidBytes_length {lvs : List Level} (h : ∀ lv ∈ lvs, lv.uid.length = 5) :
    (uidBytes lvs).length = 3 * lvs.length + finals lvs := by
  induction lvs with
  | nil => rfl
  | cons lv lvs ih =>
    have hpart := Level.part_length (h lv (List.mem_cons_self ..))
    have hrest := ih fun lv' h' => h lv' (List.mem_cons_of_mem _ h')
    simp only [uidBytes, finals, List.flatMap_cons, List.length_append, List.length_cons,
      List.countP_cons] at hrest ⊢
    rw [hpart, hrest]
    cases cascades lv.sakByte <;> simp <;> omega

theorem closedLevels_uid_length (k : OpenStack) (n l : Nat) {prev : List UInt8}
    (hprev : prev.length = 5) (answers : List Answer) :
    ∀ lv ∈ closedLevels k n l prev answers, lv.uid.length = 5 := by
  induction n generalizing l prev answers with
  | zero => simp [closedLevels]
  | succ n ih =>
    match answers with
    | [] | [_] => simp [closedLevels]
    | ac :: sel :: rest =>
      have huid := levelOf_uid_length (k.sak l) ac sel hprev
      rw [closedLevels]
      split
      · intro lv hlv
        rcases List.mem_cons.mp hlv with rfl | hlv
        · exact huid
        · exact ih (l + 1) huid rest lv hlv
      · simp

-- At most three levels, of three or four bytes.
theorem activationLevels_bytes (k : OpenStack) (answers : List Answer) :
    (activationLevels k answers).length ≤ 3 ∧
    finals (activationLevels k answers) ≤ (activationLevels k answers).length ∧
    (uidBytes (activationLevels k answers)).length =
      3 * (activationLevels k answers).length + finals (activationLevels k answers) := by
  match answers with
  | [] => exact ⟨Nat.zero_le _, Nat.le_refl _, rfl⟩
  | w :: rest =>
    rw [activationLevels]
    split
    · rename_i h
      refine ⟨Nat.le_trans (closedLevels_length_le ..) h.2.2, List.countP_le_length, ?_⟩
      exact uidBytes_length (closedLevels_uid_length k _ _ (Mem.read_length _ _ _) rest)
    · decide

theorem append_len_toNat (id : Nfcid) {bytes : List UInt8}
    (h : id.len.toNat + bytes.length < 256) :
    (id.append bytes).len.toNat = id.len.toNat + bytes.length := by
  show (id.len + bytes.length.toUInt8).toNat = _
  rw [UInt8.toNat_add, Nat.toUInt8, UInt8.toNat_ofNat']
  omega

-- An identifier filled from its start.
theorem append_fresh (id : Nfcid) {bytes : List UInt8} (h : bytes.length < 256) :
    (Nfcid.append { id with len := 0 } bytes).len.toNat = bytes.length ∧
    (Nfcid.append { id with len := 0 } bytes).data.read 0 bytes.length = bytes := by
  have hzero : (0 : UInt8).toNat = 0 := rfl
  refine ⟨?_, ?_⟩
  · rw [append_len_toNat _ (by rw [hzero]; omega), hzero, Nat.zero_add]
  · show (id.data.write (0 : UInt8).toNat bytes).read 0 bytes.length = bytes
    rw [hzero, Mem.read_write_same]

theorem append_fresh_read (id : Nfcid) {bytes : List UInt8} (h : bytes.length < 256) :
    (Nfcid.append { id with len := 0 } bytes).data.read 0
      (Nfcid.append { id with len := 0 } bytes).len.toNat = bytes := by
  rw [(append_fresh id h).1]
  exact (append_fresh id h).2

theorem Nfcid.append_nil (id : Nfcid) : id.append [] = id := by
  unfold Nfcid.append
  rw [Mem.write_nil]
  congr 1
  exact UInt8.add_zero _

theorem Nfcid.append_append (id : Nfcid) (a b : List UInt8) (h : id.len.toNat + a.length < 256) :
    (id.append a).append b = id.append (a ++ b) := by
  have hlen : (id.len + a.length.toUInt8).toNat = id.len.toNat + a.length :=
    append_len_toNat id h
  unfold Nfcid.append
  dsimp only
  rw [hlen, Mem.write_append, List.length_append]
  congr 1
  apply UInt8.toNat_inj.mp
  simp only [UInt8.toNat_add, Nat.toUInt8, UInt8.toNat_ofNat']
  omega

theorem uidLog_tiles (len : UInt8) (lvs : List Level) (log : List (Nat × Nat))
    (htiles : Tiles log len.toNat) (h : len.toNat + (uidBytes lvs).length < 256) :
    Tiles (uidLog len lvs log) (len.toNat + (uidBytes lvs).length) := by
  induction lvs generalizing len log with
  | nil => exact htiles
  | cons lv lvs ih =>
    have hsplit : (uidBytes (lv :: lvs)).length = lv.part.length + (uidBytes lvs).length := by
      simp only [uidBytes, List.flatMap_cons, List.length_append]
    rw [hsplit] at h ⊢
    have hlen : (len + lv.part.length.toUInt8).toNat = len.toNat + lv.part.length :=
      append_len_toNat ⟨len, Mem.ofList 0 []⟩ (show len.toNat + _ < 256 by omega)
    have hrest := ih (len + lv.part.length.toUInt8) ((len.toNat, lv.part.length) :: log)
      (hlen ▸ htiles.cons _) (by omega)
    rwa [hlen, Nat.add_assoc] at hrest

theorem close_foldl (lvs : List Level) (d : Driver)
    (h : d.nfcid.len.toNat + (uidBytes lvs).length < 256) :
    lvs.foldl Driver.close d =
      { d with sak := (finalSak lvs).getD d.sak, nfcid := d.nfcid.append (uidBytes lvs) } := by
  induction lvs generalizing d with
  | nil =>
    show d = { d with nfcid := d.nfcid.append [] }
    rw [Nfcid.append_nil]
  | cons lv lvs ih =>
    have hsplit : (uidBytes (lv :: lvs)).length = lv.part.length + (uidBytes lvs).length := by
      simp only [uidBytes, List.flatMap_cons, List.length_append]
    have hlen : (d.close lv).nfcid.len.toNat = d.nfcid.len.toNat + lv.part.length :=
      append_len_toNat _ (by omega)
    have hnfcid : (d.nfcid.append lv.part).append (uidBytes lvs) =
        d.nfcid.append (uidBytes (lv :: lvs)) := d.nfcid.append_append _ _ (by omega)
    rw [List.foldl_cons, ih (d.close lv) (by omega)]
    show { d with
      sak := (finalSak lvs).getD (if cascades lv.sakByte then d.sak else lv.sakByte)
      nfcid := (d.nfcid.append lv.part).append (uidBytes lvs) } = _
    rw [hnfcid]
    congr 1
    rw [finalSak]
    cases finalSak lvs <;> cases cascades lv.sakByte <;> rfl

/-! ## 6. Runs of the whole call -/

section

variable (k : OpenStack) (d : Driver)

theorem open_run (w : Answer) (rest : List Answer) (h : WupaAccepted k w) :
    let st := (nfcIso14443aOpen k).feed (openStart k d) (w :: rest)
    let log := uidLog 0 (activationLevels k (w :: rest)) []
    (Complete k (w :: rest) → ∃ t : OpenLocals,
      st = (nfcIso14443aOpen k).feed (t.cascade k) (rest.drop (2 * uidSizeOf (wupaBuf k w))) ∧
      t.level = t.uidSize ∧ t.driver = selectedDriver k d (w :: rest) ∧ t.uidWrites = log) ∧
    (¬ Complete k (w :: rest) → Unfinished (selectedDriver k d (w :: rest)) log st) := by
  obtain ⟨t, hnext, hlevel, hsize, hbuf, hwrites, hdriver⟩ := wupa_accepted k d w h
  have hfeed : (nfcIso14443aOpen k).feed (openStart k d) (w :: rest) =
      (nfcIso14443aOpen k).feed (t.cascade k) rest := by
    rw [← hnext]
    rfl
  have hrun := cascade_run k (uidSizeOf (wupaBuf k w)) t rest (by omega)
  have hlevels : activationLevels k (w :: rest) =
      closedLevels k (uidSizeOf (wupaBuf k w)) 0 ((wupaBuf k w).read 2 5) rest := by
    rw [activationLevels, if_pos h]
  have hle := closedLevels_length_le k (uidSizeOf (wupaBuf k w)) 0 ((wupaBuf k w).read 2 5) rest
  rw [hlevel, hbuf, hwrites, hdriver, ← hlevels] at hrun
  dsimp only
  rw [hfeed]
  refine ⟨fun hc => hrun.1 hc.2, fun hc => hrun.2 ?_⟩
  rw [← hlevels] at hle
  have hne : (activationLevels k (w :: rest)).length ≠ uidSizeOf (wupaBuf k w) :=
    fun heq => hc ⟨h, heq⟩
  omega

theorem selectedDriver_eq (w : Answer) (rest : List Answer) :
    selectedDriver k d (w :: rest) = { d with
      atqa := atqaOf (wupaBuf k w)
      sak := (finalSak (activationLevels k (w :: rest))).getD d.sak
      nfcid := Nfcid.append { d.nfcid with len := 0 }
        (uidBytes (activationLevels k (w :: rest))) } := by
  have hbytes := activationLevels_bytes k (w :: rest)
  rw [selectedDriver, close_foldl]
  show (0 : UInt8).toNat + _ < 256
  rw [show (0 : UInt8).toNat = 0 from rfl]
  omega

-- The cascade loop leaves the parameters of RATS alone.
theorem selectedDriver_kept (answers : List Answer) :
    (selectedDriver k d answers).fsc = d.fsc ∧ (selectedDriver k d answers).ats = d.ats := by
  match answers with
  | [] => exact ⟨rfl, rfl⟩
  | w :: rest =>
    rw [selectedDriver_eq]
    exact ⟨rfl, rfl⟩

-- The identifier and the log of its writes, wherever the run stands.
theorem open_uid (answers : List Answer) :
    let st := (nfcIso14443aOpen k).feed (openStart k d) answers
    (openLocals st).uidWrites = uidLog 0 (activationLevels k answers) [] ∧
    (openLocals st).driver.nfcid =
      if WupaPassed k answers then
        Nfcid.append { d.nfcid with len := 0 } (uidBytes (activationLevels k answers))
      else d.nfcid := by
  match answers with
  | [] => exact ⟨rfl, rfl⟩
  | w :: rest =>
    by_cases h : WupaAccepted k w
    · have hnfcid : (selectedDriver k d (w :: rest)).nfcid =
          Nfcid.append { d.nfcid with len := 0 } (uidBytes (activationLevels k (w :: rest))) := by
        rw [selectedDriver_eq]
      obtain ⟨hdone, hopen⟩ := open_run k d w rest h
      rw [if_pos (show WupaPassed k (w :: rest) from h), ← hnfcid]
      by_cases hc : Complete k (w :: rest)
      · obtain ⟨t, hfeed, hlevel, hdriver, hlog⟩ := hdone hc
        have hfin := (finish_run k t hlevel (rest.drop (2 * uidSizeOf (wupaBuf k w)))).1
        dsimp only at hfin ⊢
        rw [hfeed, hfin.1, hfin.2, hlog, hdriver]
        exact ⟨rfl, rfl⟩
      · have hun := hopen hc
        dsimp only
        generalize (nfcIso14443aOpen k).feed (openStart k d) (w :: rest) = st at hun
        cases st with
        | wait t => exact ⟨hun.2, by rw [← hun.1]; rfl⟩
        | done r => exact ⟨hun.2.2, by rw [← hun.2.1]; rfl⟩
    · obtain ⟨r, hdone, -, hnfcid, hlog⟩ := wupa_refused k d w rest h
      dsimp only
      rw [hdone, if_neg (show ¬ WupaPassed k (w :: rest) from h)]
      refine ⟨hlog.trans ?_, hnfcid⟩
      rw [activationLevels, if_neg h]
      rfl

-- The call returns 0 on the answers that activate a card, and on no others.
theorem open_zero (answers : List Answer) :
    let st := (nfcIso14443aOpen k).feed (openStart k d) answers
    ((∃ r, st = .done r ∧ r.ret = 0) ↔ Activates k d answers) ∧
    ∀ r, st = .done r → r.ret = 0 → r.final.driver = openedDriver k d answers := by
  match answers with
  | [] => exact zero_of_nonzero (fun r hr => by cases hr) fun h => h.1
  | w :: rest =>
    by_cases h : WupaAccepted k w
    · obtain ⟨hdone, hopen⟩ := open_run k d w rest h
      by_cases hc : Complete k (w :: rest)
      · obtain ⟨t, hfeed, hlevel, hdriver, -⟩ := hdone hc
        have hfin := (finish_run k t hlevel (rest.drop (2 * uidSizeOf (wupaBuf k w)))).2
        dsimp only at hfin ⊢
        rw [hfeed]
        rw [hdriver] at hfin
        exact ⟨hfin.1.trans ⟨fun ht => ⟨hc, ht⟩, fun ha => ha.2⟩, hfin.2⟩
      · have hun := hopen hc
        dsimp only
        generalize (nfcIso14443aOpen k).feed (openStart k d) (w :: rest) = st at hun
        refine zero_of_nonzero (fun r hr => ?_) fun ha => hc ha.1
        rw [hr] at hun
        exact Int.ne_of_lt hun.1
    · obtain ⟨r, hdone, hneg, -, -⟩ := wupa_refused k d w rest h
      dsimp only
      rw [hdone]
      refine zero_of_nonzero (fun r' hr => ?_) fun ha => h ha.1.1
      cases hr
      exact Int.ne_of_lt hneg

end

end NfceeFw.Nfc
