import NfceeFw.Nfc.Activation

/-!
# Anticollision — the requests of the cascade loop

What an ANTICOLLISION or SELECT frame has to be, and which runs of `nfc_iso14443a_open` send only
such frames.
-/

namespace NfceeFw.Nfc

open NfceeFw.Reasoning

/-! ## 1. Requests -/

-- SEL of a cascade level.
def selOf : Nat → UInt8
  | 0 => 0x93
  | 1 => 0x95
  | _ => 0x97

/-- SEL of the level, an NVB whose high nibble counts the bytes before the CRC, and of the UID the
bytes `uid`. -/
def WellFormed (level : Nat) (nvb : UInt8) (uid frame : List UInt8) : Prop :=
  level < 3 ∧ frame = selOf level :: nvb :: uid ∧ (nvb >>> 4).toNat = frame.length

instance (level : Nat) (nvb : UInt8) (uid frame : List UInt8) :
    Decidable (WellFormed level nvb uid frame) := inferInstanceAs (Decidable (_ ∧ _ ∧ _))

-- The UID bytes that the last answer brought.
def uidReceived (read : List Answer) : List UInt8 :=
  (read.getLast?.map fun ac => ac.received 5).getD []

/-- What is sent at a level: an ANTICOLLISION is two bytes, a SELECT carries what the answer before
it brought, and its CRC_A. -/
def FrameOk (level : Nat) (read : List Answer) (sent : List UInt8) : OpenSite → Prop
  | .anticollision => WellFormed level 0x20 [] sent
  | .select =>
    intact sent ∧ WellFormed level 0x70 (uidReceived read) (sent.take (sent.length - 2))
  | .wupa | .rats => True

instance (level : Nat) (read : List Answer) (sent : List UInt8) :
    DecidablePred (FrameOk level read sent)
  | .anticollision => inferInstanceAs (Decidable (WellFormed _ _ _ _))
  | .select => inferInstanceAs (Decidable (_ ∧ _))
  | .wupa | .rats => .isTrue trivial

def RequestOk (w : List Answer × OpenLocals) : Prop :=
  FrameOk w.2.level w.1 w.2.query.bytes w.2.site

instance : DecidablePred RequestOk := fun _ => inferInstanceAs (Decidable (FrameOk _ _ _ _))

/-- Every ANTICOLLISION and SELECT of a run on the answers. -/
def RequestsOk (k : OpenStack) (d : Driver) (answers : List Answer) : Prop :=
  ∀ w ∈ (nfcIso14443aOpen k).waits [] (openStart k d) answers, RequestOk w

instance (k : OpenStack) (d : Driver) : DecidablePred (RequestsOk k d) :=
  fun _ => inferInstanceAs (Decidable (∀ w ∈ _, RequestOk w))

-- The waits are all the requests that the call makes.
theorem waits_sent (k : OpenStack) (d : Driver) (answers : List Answer) :
    (nfcIso14443aOpen k).sent (openStart k d) answers =
      ((nfcIso14443aOpen k).waits [] (openStart k d) answers).map fun w => w.2.query :=
  Program.sent_eq_waits (nfcIso14443aOpen k) [] _ answers

/-! ## 2. The requests of a level -/

section

variable (k : OpenStack) (s : OpenLocals) (read : List Answer)

theorem passHead_frame : (s.passHead k).buf.read 0 2 = [0x93 + 2 * s.level.toUInt8, 0x20] := by
  have hnvb : (s.passHead k).buf 1 = 0x20 :=
    Mem.set_same (s.buf.set 0 (0x93 + 2 * s.level.toUInt8)) 1 0x20
  rw [Mem.read_succ, Mem.read_succ, passHead_sel, hnvb]
  rfl

theorem selOf_eq {level : Nat} (h : level < 3) : selOf level = 0x93 + 2 * level.toUInt8 := by
  match level, h with
  | 0, _ | 1, _ | 2, _ => decide

-- Only at the first level the number of bytes sent is that of the NVB.
theorem anticollision_ok : RequestOk (read, s.passHead k) ↔ s.level = 0 := by
  have hbytes : (s.passHead k).query.bytes =
      (s.passHead k).buf.read 0 (if s.level = 0 then 2 else 7) := by
    apply transceive_bytes
    split <;> decide
  show WellFormed s.level 0x20 [] (s.passHead k).query.bytes ↔ _
  rw [hbytes]
  constructor
  · intro ⟨_, hframe, _⟩
    by_contra hlevel
    rw [if_neg hlevel] at hframe
    have hlen := congrArg List.length hframe
    rw [Mem.read_length, List.length_cons, List.length_singleton] at hlen
    omega
  · intro hlevel
    rw [if_pos hlevel, passHead_frame, hlevel]
    decide

-- A SELECT is well formed if the answer before it brought all five bytes.
theorem select_ok (ac : Answer) (h : s.level < 3) :
    RequestOk (read ++ [ac], s.selecting k ac) ↔ (ac.received 5).length = 5 := by
  have huid : uidReceived (read ++ [ac]) = ac.received 5 := by
    simp [uidReceived]
  have hgot : (ac.received 5).length ≤ (s.buf.read 2 5).length := by
    rw [Mem.read_length]
    exact received_length_le ac 5
  have hlen := (Mem.overlay_length hgot).trans (Mem.read_length s.buf 2 5)
  show intact (s.selecting k ac).query.bytes ∧ WellFormed s.level 0x70 (uidReceived (read ++ [ac]))
    ((s.selecting k ac).query.bytes.take ((s.selecting k ac).query.bytes.length - 2)) ↔ _
  rw [selecting_bytes, take_trailer, huid, and_iff_right (intact_trailer _)]
  constructor
  · intro ⟨_, hframe, _⟩
    have htail : Mem.overlay (s.buf.read 2 5) (ac.received 5) = ac.received 5 :=
      (List.cons.inj (List.cons.inj hframe).2).2
    rwa [htail] at hlen
  · intro hfull
    rw [Mem.overlay_full (by rw [hfull, Mem.read_length])]
    refine ⟨h, ?_, ?_⟩
    · rw [selOf_eq h]
      rfl
    · show 7 = (ac.received 5).length + 2
      rw [hfull]

/-! ## 3. Runs -/

-- Behind the cascade loop only RATS is sent.
theorem finish_ok (h : s.level = s.uidSize) (answers : List Answer) :
    ∀ w ∈ (nfcIso14443aOpen k).waits read (s.cascade k) answers, RequestOk w := by
  rw [cascade_end k s h]
  split
  · match answers with
    | [] =>
      intro w hw
      rw [List.mem_singleton.mp hw]
      trivial
    | ans :: answers =>
      obtain ⟨r, hr⟩ := resume_rats k s ans
      rw [Program.waits_cons, hr, Program.waits_done]
      intro w hw
      rw [List.mem_singleton.mp hw]
      trivial
  · rw [Program.waits_done]
    exact List.forall_mem_nil _

-- A level after the first starts with a wrong request.
theorem later_level (hpos : 0 < s.level) (hle : s.level ≤ s.uidSize) (answers : List Answer) :
    (∀ w ∈ (nfcIso14443aOpen k).waits read (s.cascade k) answers, RequestOk w) ↔
      s.level = s.uidSize := by
  constructor
  · intro hall
    by_contra hne
    have hfirst : (read, s.passHead k) ∈
        (nfcIso14443aOpen k).waits read (s.cascade k) answers := by
      rw [cascade_lt k s (by omega)]
      cases answers <;> exact List.mem_cons_self ..
    have hzero := (anticollision_ok k s read).mp (hall _ hfirst)
    omega
  · intro hend
    exact finish_ok k s read hend answers

-- The answer to the first SELECT, and what follows.
theorem select_requests (hlevel : s.level = 0) (hsize : 0 < s.uidSize) (ac sel : Answer)
    (rest : List Answer) :
    (∀ w ∈ (nfcIso14443aOpen k).waits read ((s.selecting k ac).resume k sel) rest, RequestOk w) ↔
      (0 ≤ sel.ret 3 ∧ (cascades (levelOf (k.sak s.level) (s.buf.read 2 5) ac sel).sakByte = false →
        intact (levelOf (k.sak s.level) (s.buf.read 2 5) ac sel).sak) → s.uidSize = 1) := by
  by_cases hsel : 0 ≤ sel.ret 3 ∧
      (cascades (levelOf (k.sak s.level) (s.buf.read 2 5) ac sel).sakByte = false →
        intact (levelOf (k.sak s.level) (s.buf.read 2 5) ac sel).sak)
  · obtain ⟨t, hnext, hpassed⟩ := (resume_select k s ac sel).1 hsel
    have htlevel : t.level = 1 := by rw [hpassed.level, hlevel]
    have htsize := hpassed.uidSize
    rw [hnext, later_level k t read (by omega) (by omega), htlevel, htsize]
    exact ⟨fun h _ => h.symm, fun h => (h hsel).symm⟩
  · obtain ⟨r, hdone, -⟩ := (resume_select k s ac sel).2 hsel
    rw [hdone, Program.waits_done]
    exact iff_of_true (List.forall_mem_nil _) fun h => absurd h hsel

theorem closedLevels_ne_nil (n l : Nat) (prev : List UInt8) (ac sel : Answer) (rest : List Answer) :
    closedLevels k (n + 1) l prev (ac :: sel :: rest) ≠ [] ↔
      Closes ac sel (levelOf (k.sak l) prev ac sel) := by
  rw [closedLevels]
  split
  · rename_i h
    exact iff_of_true (List.cons_ne_nil _ _) h
  · rename_i h
    exact iff_of_false (fun hne => hne rfl) h

theorem first_level (hlevel : s.level = 0) (hsize : 0 < s.uidSize) (ac : Answer)
    (rest : List Answer) :
    (∀ w ∈ (nfcIso14443aOpen k).waits read (s.cascade k) (ac :: rest), RequestOk w) ↔
      (0 ≤ ac.ret 5 → bccHolds (Mem.overlay (s.buf.read 2 5) (ac.received 5)) = true →
        (ac.received 5).length = 5 ∧
          (closedLevels k s.uidSize 0 (s.buf.read 2 5) (ac :: rest) ≠ [] → s.uidSize = 1)) := by
  have hstep : (nfcIso14443aOpen k).waits read (s.cascade k) (ac :: rest) = (read, s.passHead k) ::
      (nfcIso14443aOpen k).waits (read ++ [ac]) ((s.passHead k).resume k ac) rest := by
    rw [cascade_lt k s (by omega)]
    rfl
  rw [hstep, List.forall_mem_cons, and_iff_right ((anticollision_ok k s read).mpr hlevel)]
  by_cases hac : 0 ≤ ac.ret 5 ∧ bccHolds (Mem.overlay (s.buf.read 2 5) (ac.received 5)) = true
  · have hselect := select_ok k s read ac (by omega)
    obtain ⟨n, hn⟩ := Nat.exists_eq_add_of_le' hsize
    rw [resume_anticollision_ok k s hac.1 hac.2, forall_prop_of_true hac.1,
      forall_prop_of_true hac.2, hn]
    match rest with
    | [] =>
      have hnone : closedLevels k (n + 1) 0 (s.buf.read 2 5) [ac] = [] := rfl
      rw [Program.waits_nil, List.forall_mem_singleton, hselect, hnone]
      exact (and_iff_left fun h => absurd rfl h).symm
    | sel :: rest =>
      have hlater := select_requests k s (read ++ [ac] ++ [sel]) hlevel hsize ac sel rest
      have hcloses := closedLevels_ne_nil k n 0 (s.buf.read 2 5) ac sel rest
      rw [hlevel] at hlater
      rw [Program.waits_cons, List.forall_mem_cons, hselect]
      apply and_congr_right
      intro _
      refine hlater.trans ?_
      rw [hcloses, hn]
      exact ⟨fun h hall => h hall.2.2, fun h hsel => h ⟨hac.1, hac.2, hsel⟩⟩
  · obtain ⟨r, hdone, -⟩ := resume_anticollision_bad k s hac
    rw [hdone, Program.waits_done]
    exact iff_of_true (List.forall_mem_nil _) fun hret hbcc => absurd ⟨hret, hbcc⟩ hac

end

/-- What the answers have to be for the requests to be well formed: an ANTICOLLISION answer that
leads to a SELECT is a whole one, and no level follows the first. -/
def OneLevel (k : OpenStack) : List Answer → Prop
  | w :: ac :: rest =>
    WupaAccepted k w → 0 ≤ ac.ret 5 →
      bccHolds (Mem.overlay ((wupaBuf k w).read 2 5) (ac.received 5)) = true →
        (ac.received 5).length = 5 ∧
          (activationLevels k (w :: ac :: rest) ≠ [] → uidSizeOf (wupaBuf k w) = 1)
  | _ => True

/-- The ANTICOLLISION and SELECT frames of a run are well formed exactly if the answers are such. -/
theorem requests_iff (k : OpenStack) (d : Driver) (answers : List Answer) :
    RequestsOk k d answers ↔ OneLevel k answers := by
  unfold RequestsOk
  match answers with
  | [] => exact iff_of_true (fun w hw => by rw [List.mem_singleton.mp hw]; trivial) trivial
  | w :: rest =>
    show (∀ x ∈ ([], OpenLocals.entry k d) :: (nfcIso14443aOpen k).waits [w]
      ((OpenLocals.entry k d).resume k w) rest, RequestOk x) ↔ _
    have hentry : RequestOk ([], OpenLocals.entry k d) := trivial
    rw [List.forall_mem_cons, and_iff_right hentry]
    by_cases hw : WupaAccepted k w
    · obtain ⟨t, hnext, hlevel, hsize, hbuf, -⟩ := wupa_accepted k d w hw
      have hpos : 0 < t.uidSize := by
        rw [hsize]
        exact Nat.succ_pos _
      rw [hnext]
      match rest with
      | [] =>
        refine iff_of_true ?_ trivial
        rw [cascade_lt k t (by omega), Program.waits_nil, List.forall_mem_singleton]
        exact (anticollision_ok k t [w]).mpr hlevel
      | ac :: rest =>
        have hfirst := first_level k t [w] hlevel hpos ac rest
        have hlevels : activationLevels k (w :: ac :: rest) =
            closedLevels k (uidSizeOf (wupaBuf k w)) 0 ((wupaBuf k w).read 2 5) (ac :: rest) := by
          rw [activationLevels, if_pos hw]
        rw [hfirst, hbuf, hsize, ← hlevels]
        exact ⟨fun h _ => h, fun h => h hw⟩
    · obtain ⟨r, hdone, -⟩ := resume_wupa_refused k d w hw
      rw [hdone, Program.waits_done]
      refine iff_of_true (List.forall_mem_nil _) ?_
      match rest with
      | [] => trivial
      | ac :: rest => exact fun h => absurd h hw

-- A card with a UID of seven bytes.
def doubleSize : List Answer :=
  [.frame [0x44, 0x00], .frame [0x88, 0x04, 0x11, 0x22, 0xBF], .frame [0x04, 0xDA, 0x17]]

-- The second ANTICOLLISION is 95 20 88 04 11 22 BF.
theorem anticollision_long : ¬ RequestsOk clearStack initDriver doubleSize := by
  decide +kernel

example : ((nfcIso14443aOpen clearStack).sent (openStart clearStack initDriver) doubleSize).map
    DevRequest.bytes = [[0x52], [0x93, 0x20],
      [0x93, 0x70, 0x88, 0x04, 0x11, 0x22, 0xBF, 0xB3, 0xF9],
      [0x95, 0x20, 0x88, 0x04, 0x11, 0x22, 0xBF]] := by
  decide +kernel

end NfceeFw.Nfc
