import NfceeFw.Nfc.Activation
import NfceeFw.Nfc.Bounds

/-!
# Parameters — what an open leaves of the driver it found

Two opens on the same answers, from two contents of the driver structure: when the parameters of
the block layer depend on the answers alone.
-/

namespace NfceeFw.Nfc

open NfceeFw.Reasoning

/-! ## 1. Whole answers -/

def Whole (n : Nat) (ans : Answer) : Prop := ∃ bytes, ans = .frame bytes ∧ bytes.length = n

/-- An ATS of at least one byte, received as far as its length byte says and as `ats` has room. -/
def WholeAts (ans : Answer) : Prop :=
  ∃ bytes, ans = .frame bytes ∧ 1 ≤ (bytes.headD 0).toNat ∧
    (bytes.headD 0).toNat ≤ (bytes.take 7).length

def WholeLevels : Nat → List Answer → Prop
  | n + 1, ac :: sel :: rest => Whole 5 ac ∧ Whole 3 sel ∧ WholeLevels n rest
  | _ + 1, [ac] => Whole 5 ac
  | _ + 1, [] => True
  | 0, answers => ∀ ans, answers.head? = some ans → WholeAts ans

-- The answers to one activation, as far as it got, all of full length.
def FullLength : List Answer → Prop
  | w :: rest => Whole 2 w ∧ WholeLevels (uidSizeOf (Mem.ofList 0 (w.received 8))) rest
  | [] => True

theorem Whole.received_length {n : Nat} {ans : Answer} (h : Whole n ans) :
    (ans.received n).length = n := by
  obtain ⟨bytes, rfl, hlen⟩ := h
  rw [Answer.received_frame, List.length_take, hlen, Nat.min_self]

-- Whole answers leave nothing of the stack.
theorem closedLevels_stack (k k' : OpenStack) (n l : Nat) {prev prev' : List UInt8}
    (hprev : prev.length = 5) (hprev' : prev'.length = 5) (answers : List Answer)
    (hwhole : WholeLevels n answers) :
    closedLevels k n l prev answers = closedLevels k' n l prev' answers := by
  induction n generalizing l prev prev' answers with
  | zero => cases answers <;> rfl
  | succ n ih =>
    match answers with
    | [] | [_] => rfl
    | ac :: sel :: rest =>
      obtain ⟨hac, hsel, hrest⟩ := hwhole
      have hlevel : ∀ {q : List UInt8} (m : Mem UInt8), q.length = 5 →
          levelOf m q ac sel = Level.supplied (ac, sel) := fun m hq =>
        levelOf_supplied m (p := (ac, sel)) hq hac.received_length hsel.received_length
      have huid : (Level.supplied (ac, sel)).uid.length = 5 := hac.received_length
      rw [closedLevels, closedLevels, hlevel _ hprev, hlevel _ hprev',
        ih (l + 1) huid huid rest hrest]

theorem wupaBuf_stack (k k' : OpenStack) {w : Answer} (hw : Whole 2 w) :
    atqaOf (wupaBuf k w) = atqaOf (wupaBuf k' w) ∧
      uidSizeOf (wupaBuf k w) = uidSizeOf (wupaBuf k' w) := by
  obtain ⟨bytes, rfl, hlen⟩ := hw
  have hbyte : ∀ i, i < 2 → wupaBuf k (.frame bytes) i = wupaBuf k' (.frame bytes) i := by
    intro i hi
    have hin : i < (bytes.take 8).length := by
      rw [List.length_take]
      omega
    show k.buf.write 0 (bytes.take 8) i = k'.buf.write 0 (bytes.take 8) i
    rw [← Nat.zero_add i, Mem.write_at _ _ _ _ hin, Mem.write_at _ _ _ _ hin]
  unfold atqaOf uidSizeOf
  rw [hbyte 0 (by decide), hbyte 1 (by decide)]
  exact ⟨rfl, rfl⟩

-- Whether and how an activation succeeds does not depend on the stack.
theorem full_stack (k k' : OpenStack) {answers : List Answer} (hfull : FullLength answers) :
    activationLevels k answers = activationLevels k' answers ∧
      (Complete k answers ↔ Complete k' answers) ∧
      ratsAnswer k answers = ratsAnswer k' answers := by
  match answers with
  | [] => exact ⟨rfl, Iff.rfl, rfl⟩
  | w :: rest =>
    obtain ⟨hw, hrest⟩ := hfull
    obtain ⟨hatqa, hsize⟩ := wupaBuf_stack k k' hw
    have haccepted : WupaAccepted k w ↔ WupaAccepted k' w := by
      unfold WupaAccepted
      rw [hatqa, hsize]
    have htwo : 2 ≤ (w.received 8).length := by
      obtain ⟨bytes, rfl, hlen⟩ := hw
      rw [Answer.received_frame, List.length_take]
      omega
    rw [← wupaBuf_uidSize k' htwo] at hrest
    have hlevels : activationLevels k (w :: rest) = activationLevels k' (w :: rest) := by
      unfold activationLevels
      dsimp only
      rw [hsize, closedLevels_stack k k' _ 0 (Mem.read_length (wupaBuf k w) 2 5)
        (Mem.read_length (wupaBuf k' w) 2 5) rest hrest]
      exact if_congr haccepted rfl rfl
    refine ⟨hlevels, ?_, ?_⟩
    · unfold Complete
      dsimp only
      rw [hlevels, hsize, haccepted]
    · unfold ratsAnswer
      dsimp only
      rw [hsize]

/-! ## 2. The parameters of an ATS -/

-- The ATS has a format byte, and the bytes it announces up to TB have arrived.
def AtsComplete (ats : List UInt8) : Prop :=
  1 < (ats.headD 0).toNat ∧
    (ats.getD 1 0 &&& 0x20 ≠ 0 → (if ats.getD 1 0 &&& 0x10 ≠ 0 then 3 else 2) < ats.length)

instance (ats : List UInt8) : Decidable (AtsComplete ats) := inferInstanceAs (Decidable (_ ∧ _))

-- The driver when the parameters are read.
def Driver.withAts (d : Driver) (ats : List UInt8) : Driver := { d with ats := d.ats.write 0 ats }

theorem withAts_byte (d : Driver) {ats : List UInt8} {i : Nat} (h : i < ats.length) :
    (d.withAts ats).ats i = ats.getD i 0 := by
  show d.ats.write 0 ats i = _
  rw [← Nat.zero_add i, Mem.write_at _ _ _ _ h, Nat.zero_add]
  exact (List.getD_eq_getElem _ _ h).symm

theorem withAts_kept (d : Driver) {ats : List UInt8} {i : Nat} (h : ats.length ≤ i) :
    (d.withAts ats).ats i = d.ats i := by
  show d.ats.write 0 ats i = _
  rw [Mem.write_above _ _ _ _ (by omega)]

theorem headD_eq_getD (ats : List UInt8) : ats.headD 0 = ats.getD 0 0 := by
  cases ats <;> rfl

-- A complete ATS decides the parameters.
theorem readAts_complete {ats : List UInt8} (hlen : (ats.headD 0).toNat ≤ ats.length)
    (h : AtsComplete ats) (d d' : Driver) :
    (d.withAts ats).readAts.fsc = (d'.withAts ats).readAts.fsc ∧
    (d.withAts ats).readAts.fwt = (d'.withAts ats).readAts.fwt ∧
    16 ≤ (d.withAts ats).readAts.fsc ∧ (d.withAts ats).readAts.fsc ≤ 256 := by
  obtain ⟨htl, htb⟩ := h
  have hbyte : ∀ (e : Driver) i, i < ats.length → (e.withAts ats).ats i = ats.getD i 0 :=
    fun e i hi => withAts_byte e hi
  have hhead : ∀ e : Driver, 1 < (e.withAts ats).ats 0 := by
    intro e
    rw [hbyte e 0 (by omega), ← headD_eq_getD]
    exact htl
  have hfsc : ∀ e : Driver, (e.withAts ats).readAts.fsc = fsci2fsc (ats.getD 1 0 &&& 0x0F) := by
    intro e
    show (if 1 < (e.withAts ats).ats 0 then fsci2fsc ((e.withAts ats).ats 1 &&& 0x0F) else _) = _
    rw [if_pos (hhead e), hbyte e 1 (by omega)]
  have hfwt : ∀ e : Driver, (e.withAts ats).readAts.fwt = fwi2fw (if ats.getD 1 0 &&& 0x20 != 0 then
      ats.getD (if ats.getD 1 0 &&& 0x10 != 0 then 3 else 2) 0 >>> 4 else 8) := by
    intro e
    show fwi2fw (if 1 < (e.withAts ats).ats 0 ∧ (e.withAts ats).ats 1 &&& 0x20 != 0 then
      (e.withAts ats).ats (if (e.withAts ats).ats 1 &&& 0x10 != 0 then 3 else 2) >>> 4 else 8) = _
    rw [hbyte e 1 (by omega)]
    generalize ats.getD 1 0 = t0 at htb ⊢
    by_cases hbit : t0 &&& 0x20 = 0
    · simp [hbit]
    · have hidx : (if t0 &&& 0x10 != 0 then 3 else 2) < ats.length := by simpa using htb hbit
      rw [hbyte e _ hidx]
      simp [hbit, hhead e]
  rw [hfsc d, hfsc d', hfwt d, hfwt d']
  exact ⟨rfl, rfl, fsci2fsc_bounds _⟩

-- Without a format byte the FSC stays what it was.
theorem readAts_fsc_kept {ats : List UInt8} (hlen : 0 < ats.length) (h : ¬ 1 < (ats.headD 0).toNat)
    (d : Driver) : (d.withAts ats).readAts.fsc = d.fsc := by
  show (if 1 < (d.withAts ats).ats 0 then _ else d.fsc) = d.fsc
  rw [withAts_byte d hlen, ← headD_eq_getD]
  exact if_neg h

-- A TB that has not arrived is taken from what was there.
theorem readAts_fwt_kept {ats : List UInt8} (hlen : (ats.headD 0).toNat ≤ ats.length)
    (htl : 1 < (ats.headD 0).toNat) (hbit : ats.getD 1 0 &&& 0x20 ≠ 0)
    (hidx : ats.length ≤ if ats.getD 1 0 &&& 0x10 ≠ 0 then 3 else 2) (d : Driver) :
    (d.withAts ats).readAts.fwt =
      fwi2fw (d.ats (if ats.getD 1 0 &&& 0x10 ≠ 0 then 3 else 2) >>> 4) := by
  have hhead : 1 < (d.withAts ats).ats 0 := by
    rw [withAts_byte d (by omega), ← headD_eq_getD]
    exact htl
  show fwi2fw (if 1 < (d.withAts ats).ats 0 ∧ (d.withAts ats).ats 1 &&& 0x20 != 0 then
    (d.withAts ats).ats (if (d.withAts ats).ats 1 &&& 0x10 != 0 then 3 else 2) >>> 4 else 8) = _
  rw [withAts_byte d (i := 1) (by omega)]
  generalize ats.getD 1 0 = t0 at hbit hidx ⊢
  have hkept := withAts_kept d hidx
  simp only [ne_eq, bne_iff_ne] at hkept ⊢
  rw [if_pos ⟨hhead, hbit⟩, hkept]

/-! ## 3. Two opens -/

/-- The driver when `l3.open` is called on a device that was off. -/
def Driver.powered (d : Driver) (dev : Device) : Driver :=
  { d with fsd := dev.frameSize, state := .idle }

-- `nfc_iso14443_open` from power off returns 0 exactly if the device opens and the card is
-- activated.
theorem nfcOpen_zero (dev : Device) (k : OpenStack) (d : Driver) (answers : List Answer)
    (hstate : d.state = .powerOff) :
    let st := (nfcIso14443Open k).feed (nfcOpenStart dev k d) answers
    ((∃ r, st = .done r ∧ r.ret = 0) ↔
      dev.open_ d.tech = 0 ∧ Activates k (d.powered dev) answers) ∧
    ∀ r, st = .done r → r.ret = 0 → r.final.driver =
      { openedDriver k (d.powered dev) answers with state := .selected, block := 0 } := by
  unfold nfcOpenStart
  rw [hstate]
  by_cases hopen : dev.open_ d.tech = 0
  · have hfeed := (nfcIso14443aOpen k).feed_map Opened.settle (openStart k (d.powered dev)) answers
    obtain ⟨hiff, hdriver⟩ := open_zero k (d.powered dev) answers
    have hret : ∀ r : Opened, r.settle.ret = r.ret := fun r => rfl
    dsimp only
    rw [if_neg (by simp [hopen])]
    show ((∃ r, ((nfcIso14443aOpen k).map Opened.settle).feed ((openStart k (d.powered dev)).map
      Opened.settle) answers = .done r ∧ r.ret = 0) ↔ _) ∧ ∀ r, ((nfcIso14443aOpen k).map
      Opened.settle).feed ((openStart k (d.powered dev)).map Opened.settle) answers = .done r → _
    rw [hfeed]
    generalize (nfcIso14443aOpen k).feed (openStart k (d.powered dev)) answers = st
      at hiff hdriver ⊢
    cases st with
    | wait s =>
      refine zero_of_nonzero (fun r hr => by cases hr) fun h => ?_
      obtain ⟨_, ⟨⟩, _⟩ := hiff.mpr h.2
    | done r =>
      refine ⟨⟨?_, fun h => ?_⟩, ?_⟩
      · rintro ⟨_, ⟨⟩, hzero⟩
        exact ⟨hopen, hiff.mp ⟨r, rfl, hzero⟩⟩
      · obtain ⟨_, ⟨⟩, hzero⟩ := hiff.mpr h.2
        exact ⟨_, rfl, hzero⟩
      · rintro _ ⟨⟩ hzero
        have hz : r.ret = 0 := hzero
        show (if r.ret != 0 then _ else _) = _
        rw [hz, hdriver r rfl hz]
        rfl
  · dsimp only
    rw [if_pos (by simpa using hopen), Program.feed_done]
    refine zero_of_nonzero (fun r hr => ?_) fun h => hopen h.1
    cases hr
    exact hopen

/-- What the block layer reads of two drivers. -/
structure Agree (d₁ d₂ : Driver) : Prop where
  sak : d₁.sak = d₂.sak
  len : d₁.nfcid.len = d₂.nfcid.len
  data : d₁.nfcid.data.read 0 d₁.nfcid.len.toNat = d₂.nfcid.data.read 0 d₂.nfcid.len.toNat
  fsc : d₁.fsc = d₂.fsc
  fwt : d₁.fwt = d₂.fwt
  fscLo : 16 ≤ d₁.fsc
  fscHi : d₁.fsc ≤ 256

-- The ATS is its length byte alone.
def NoFormatByte (answers : List Answer) : Prop :=
  ∃ bytes, ratsAnswer clearStack answers = some (.frame bytes) ∧ bytes.headD 0 = 1

-- Whatever the driver held, two opens that succeed on the answers agree on the parameters.
def SameParameters (answers : List Answer) : Prop :=
  ∀ (dev : Device) (k₁ k₂ : OpenStack) (d₁ d₂ : Driver) (r₁ r₂ : Opened),
    d₁.tech = .rf14443a → d₂.tech = .rf14443a → d₁.state = .powerOff → d₂.state = .powerOff →
    (nfcIso14443Open k₁).feed (nfcOpenStart dev k₁ d₁) answers = .done r₁ →
    (nfcIso14443Open k₂).feed (nfcOpenStart dev k₂ d₂) answers = .done r₂ →
    r₁.ret = 0 → r₂.ret = 0 →
    isTcl r₁.final.driver = isTcl r₂.final.driver ∧
    (isTcl r₁.final.driver = true → Agree r₁.final.driver r₂.final.driver ∧
      (NoFormatByte answers → r₁.final.driver.fsc = 32) ∧
      (dev.frameSize = 127 → Sized r₁.final.driver))

-- A final SAK there is, and if it is that of a T=CL card, the answer to RATS is complete.
def AtsDecides : Option Answer → Option UInt8 → Prop
  | some (.frame bytes), some sak => tclSak sak = true → AtsComplete (bytes.take 7)
  | some (.frame _), none => False
  | _, _ => True

instance : ∀ rats sak, Decidable (AtsDecides rats sak)
  | some (.frame _), some _ => inferInstanceAs (Decidable (_ → _))
  | some (.frame _), none => .isFalse id
  | some (.error _), _ | none, _ => .isTrue trivial

def Determined (k : OpenStack) (answers : List Answer) : Prop :=
  Complete k answers → AtsDecides (ratsAnswer k answers) (finalSak (activationLevels k answers))

instance (k : OpenStack) (answers : List Answer) : Decidable (Determined k answers) :=
  inferInstanceAs (Decidable (_ → _))

theorem openedDriver_fields (k : OpenStack) (d : Driver) {answers : List Answer}
    (hc : Complete k answers) :
    (openedDriver k d answers).tech = d.tech ∧ (openedDriver k d answers).fsd = d.fsd ∧
    (openedDriver k d answers).sak = (finalSak (activationLevels k answers)).getD d.sak ∧
    (openedDriver k d answers).nfcid =
      Nfcid.append { d.nfcid with len := 0 } (uidBytes (activationLevels k answers)) := by
  match answers with
  | [] => exact absurd hc id
  | w :: rest =>
    have hsel := selectedDriver_eq k d w rest
    obtain ⟨hsak, hnfcid, -⟩ :=
      takeAts_fields (selectedDriver k d (w :: rest)) (ratsAnswer k (w :: rest))
    have hother : ∀ (e : Driver) rats, (e.takeAts rats).tech = e.tech ∧
        (e.takeAts rats).fsd = e.fsd := by
      intro e rats
      unfold Driver.takeAts
      split <;> exact ⟨rfl, rfl⟩
    unfold openedDriver
    rw [(hother _ _).1, (hother _ _).2, hsak, hnfcid, hsel]
    exact ⟨rfl, rfl, rfl, rfl⟩

theorem isTcl_eq {d : Driver} (h : d.tech = .rf14443a) : isTcl d = tclSak d.sak := by
  unfold isTcl
  rw [h]
  rfl

theorem WholeLevels.ats {n : Nat} {answers : List Answer} (h : WholeLevels n answers) :
    ∀ ans, (answers.drop (2 * n)).head? = some ans → WholeAts ans := by
  induction n generalizing answers with
  | zero =>
    match answers with
    | [] => simp
    | ans :: rest => exact h
  | succ n ih =>
    match answers with
    | [] => simp
    | [ac] => simp [show 2 * (n + 1) = 2 * n + 1 + 1 by omega]
    | ac :: sel :: rest => exact ih h.2.2

-- A successful open, read off whole answers; `e` is the driver when RATS is answered.
theorem open_result {answers : List Answer} (hfull : FullLength answers) {dev : Device}
    {k : OpenStack} {d : Driver} {r : Opened} (htech : d.tech = .rf14443a)
    (hstate : d.state = .powerOff)
    (hdone : (nfcIso14443Open k).feed (nfcOpenStart dev k d) answers = .done r)
    (hzero : r.ret = 0) :
    let f := r.final.driver
    Complete clearStack answers ∧
    f.sak = (finalSak (activationLevels clearStack answers)).getD d.sak ∧
    isTcl f = tclSak f.sak ∧ f.fsd = dev.frameSize ∧
    f.nfcid = Nfcid.append { d.nfcid with len := 0 }
      (uidBytes (activationLevels clearStack answers)) ∧
    (isTcl f = true → ∃ bytes e, ratsAnswer clearStack answers = some (.frame bytes) ∧
      e.fsc = d.fsc ∧ e.ats = d.ats ∧
      f.fsc = (Driver.withAts e (bytes.take 7)).readAts.fsc ∧
      f.fwt = (Driver.withAts e (bytes.take 7)).readAts.fwt) := by
  obtain ⟨hiff, hdriver⟩ := nfcOpen_zero dev k d answers hstate
  obtain ⟨-, hc, hrats⟩ := hiff.mp ⟨r, hdone, hzero⟩
  obtain ⟨hlevels, hcomplete, hanswer⟩ := full_stack k clearStack hfull
  obtain ⟨hotech, hofsd, hosak, honfcid⟩ := openedDriver_fields k (d.powered dev) hc
  have hfinal := hdriver r hdone hzero
  have htcl : isTcl r.final.driver = tclSak r.final.driver.sak := by
    apply isTcl_eq
    rw [hfinal]
    exact hotech.trans htech
  dsimp only
  rw [← hlevels, ← hanswer]
  refine ⟨hcomplete.mp hc, ?_, htcl, ?_, ?_, fun h => ?_⟩
  · rw [hfinal]
    exact hosak
  · rw [hfinal]
    exact hofsd
  · rw [hfinal]
    exact honfcid
  · have hsaks : r.final.driver.sak = (selectedDriver k (d.powered dev) answers).sak := by
      rw [hfinal]
      exact (takeAts_fields _ _).1
    rw [htcl, hsaks] at h
    obtain ⟨bytes, hframe⟩ := hrats h
    refine ⟨bytes, selectedDriver k (d.powered dev) answers, hframe, ?_⟩
    have htake : (selectedDriver k (d.powered dev) answers).takeAts (ratsAnswer k answers) =
        ((selectedDriver k (d.powered dev) answers).withAts (bytes.take 7)).readAts := by
      unfold Driver.takeAts
      rw [h, hframe]
      rfl
    obtain ⟨hfsc, hats⟩ := selectedDriver_kept k (d.powered dev) answers
    refine ⟨hfsc, hats, ?_, ?_⟩
    · rw [hfinal, ← htake]
      rfl
    · rw [hfinal, ← htake]
      rfl

theorem FullLength.ats {answers : List Answer} (hfull : FullLength answers) {ans : Answer}
    (h : ratsAnswer clearStack answers = some ans) : WholeAts ans := by
  match answers with
  | [] => cases h
  | w :: rest =>
    obtain ⟨⟨bytes, rfl, hlen⟩, hrest⟩ := hfull
    have htwo : 2 ≤ ((Answer.frame bytes).received 8).length := by
      rw [Answer.received_frame, List.length_take]
      omega
    rw [← wupaBuf_uidSize clearStack htwo] at hrest
    exact hrest.ats ans h

theorem same_of_determined {answers : List Answer} (hfull : FullLength answers)
    (hdet : Determined clearStack answers) : SameParameters answers := by
  intro dev k₁ k₂ d₁ d₂ r₁ r₂ htech₁ htech₂ hstate₁ hstate₂ hdone₁ hdone₂ hzero₁ hzero₂
  obtain ⟨hc, hsak₁, htcl₁, hfsd₁, hnfcid₁, hats₁⟩ :=
    open_result hfull htech₁ hstate₁ hdone₁ hzero₁
  obtain ⟨-, hsak₂, htcl₂, -, hnfcid₂, hats₂⟩ := open_result hfull htech₂ hstate₂ hdone₂ hzero₂
  have hdecides := hdet hc
  cases hfin : finalSak (activationLevels clearStack answers) with
  | none =>
    -- then no frame answers RATS, and no T=CL open can have succeeded
    have hnone : ∀ bytes, ratsAnswer clearStack answers ≠ some (.frame bytes) := by
      intro bytes hframe
      rw [hframe, hfin] at hdecides
      exact hdecides
    have hno₁ : isTcl r₁.final.driver = false := by
      by_contra h
      obtain ⟨bytes, -, hframe, -⟩ := hats₁ (by simpa using h)
      exact hnone bytes hframe
    have hno₂ : isTcl r₂.final.driver = false := by
      by_contra h
      obtain ⟨bytes, -, hframe, -⟩ := hats₂ (by simpa using h)
      exact hnone bytes hframe
    exact ⟨hno₁.trans hno₂.symm, fun h => absurd (hno₁.symm.trans h) Bool.false_ne_true⟩
  | some sak =>
    rw [hfin, Option.getD_some] at hsak₁ hsak₂
    refine ⟨by rw [htcl₁, htcl₂, hsak₁, hsak₂], fun h => ?_⟩
    obtain ⟨bytes, e₁, hframe, -, -, hfsc₁, hfwt₁⟩ := hats₁ h
    obtain ⟨bytes₂, e₂, hframe₂, -, -, hfsc₂, hfwt₂⟩ :=
      hats₂ (by rw [htcl₂, hsak₂, ← hsak₁, ← htcl₁]; exact h)
    obtain ⟨⟩ : bytes = bytes₂ := by simpa using hframe.symm.trans hframe₂
    rw [hframe, hfin] at hdecides
    have hcomplete : AtsComplete (bytes.take 7) := hdecides (by rw [← hsak₁, ← htcl₁]; exact h)
    obtain ⟨_, ⟨⟩, htl, hlen⟩ := hfull.ats hframe
    have hhead : (bytes.take 7).headD 0 = bytes.headD 0 := by cases bytes <;> rfl
    obtain ⟨hfsc, hfwt, hlo, hhi⟩ := readAts_complete (by rw [hhead]; exact hlen) hcomplete e₁ e₂
    have hbytes := activationLevels_bytes clearStack answers
    rw [← hfsc₁] at hlo hhi
    refine ⟨⟨hsak₁.trans hsak₂.symm, ?_, ?_, ?_, ?_, hlo, hhi⟩, ?_, fun hsize => ?_⟩
    · rw [hnfcid₁, hnfcid₂]
      rfl
    · rw [hnfcid₁, hnfcid₂, append_fresh_read _ (by omega), append_fresh_read _ (by omega)]
    · rw [hfsc₁, hfsc₂, hfsc]
    · rw [hfwt₁, hfwt₂, hfwt]
    · rintro ⟨ats, hats, hone⟩
      obtain ⟨⟩ : bytes = ats := by simpa using hframe.symm.trans hats
      have hmore := hcomplete.1
      rw [hhead, hone] at hmore
      exact absurd hmore (by decide)
    · exact ⟨h, hfsd₁.trans hsize, hlo, hhi⟩

-- Two contents of the driver that a stale parameter tells apart.
def leftover (sak : UInt8) (fsc : Nat) (byte : UInt8) : Driver :=
  { initDriver with sak := sak, fsc := fsc, ats := fun _ => byte }

def trf797xDevice : Device := ⟨fun _ => 0, 127⟩

theorem leftover_result {answers : List Answer} (hfull : FullLength answers)
    (hc : Complete clearStack answers) {bytes : List UInt8}
    (hframe : ratsAnswer clearStack answers = some (.frame bytes)) (sak : UInt8) (fsc : Nat)
    (byte : UInt8) :
    ∃ r, (nfcIso14443Open clearStack).feed
        (nfcOpenStart trf797xDevice clearStack (leftover sak fsc byte)) answers = .done r ∧
      r.ret = 0 ∧
      isTcl r.final.driver =
        tclSak ((finalSak (activationLevels clearStack answers)).getD sak) ∧
      (isTcl r.final.driver = true → ∃ e : Driver, e.fsc = fsc ∧ e.ats = (fun _ => byte) ∧
        r.final.driver.fsc = (e.withAts (bytes.take 7)).readAts.fsc ∧
        r.final.driver.fwt = (e.withAts (bytes.take 7)).readAts.fwt) := by
  obtain ⟨r, hdone, hzero⟩ :=
    (nfcOpen_zero trf797xDevice clearStack (leftover sak fsc byte) answers rfl).1.mpr
      ⟨rfl, hc, fun _ => ⟨bytes, hframe⟩⟩
  obtain ⟨-, hsak, htcl, -, -, hats⟩ := open_result hfull rfl rfl hdone hzero
  refine ⟨r, hdone, hzero, by rw [htcl, hsak]; rfl, fun h => ?_⟩
  obtain ⟨ats, e, hats, hfsc, hbyte, hf, hw⟩ := hats h
  obtain ⟨⟩ : bytes = ats := by simpa using hframe.symm.trans hats
  exact ⟨e, hfsc, hbyte, hf, hw⟩

theorem determined_of_same {answers : List Answer} (hfull : FullLength answers)
    (hsame : SameParameters answers) : Determined clearStack answers := by
  intro hc
  cases hrats : ratsAnswer clearStack answers with
  | none => trivial
  | some ans =>
    cases ans with
    | error code => trivial
    | frame bytes =>
      cases hfin : finalSak (activationLevels clearStack answers) with
      | none =>
        -- the SAK of an earlier card decides whether this one is T=CL
        obtain ⟨r₁, hdone₁, hzero₁, htcl₁, -⟩ := leftover_result hfull hc hrats 0x20 16 0x00
        obtain ⟨r₂, hdone₂, hzero₂, htcl₂, -⟩ := leftover_result hfull hc hrats 0x00 16 0x00
        have heq := (hsame _ _ _ _ _ _ _ rfl rfl rfl rfl hdone₁ hdone₂ hzero₁ hzero₂).1
        rw [htcl₁, htcl₂, hfin] at heq
        exact absurd heq (by decide)
      | some sak =>
        intro htcl
        obtain ⟨r₁, hdone₁, hzero₁, htcl₁, hats₁⟩ := leftover_result hfull hc hrats 0x00 16 0x00
        obtain ⟨r₂, hdone₂, hzero₂, htcl₂, hats₂⟩ := leftover_result hfull hc hrats 0x00 17 0x20
        rw [hfin, Option.getD_some, htcl] at htcl₁ htcl₂
        obtain ⟨e₁, hfsc₁, hbyte₁, hf₁, hw₁⟩ := hats₁ htcl₁
        obtain ⟨e₂, hfsc₂, hbyte₂, hf₂, hw₂⟩ := hats₂ htcl₂
        have hagree :=
          ((hsame _ _ _ _ _ _ _ rfl rfl rfl rfl hdone₁ hdone₂ hzero₁ hzero₂).2 htcl₁).1
        obtain ⟨_, ⟨⟩, htl, hlen⟩ := hfull.ats hrats
        have hhead : (bytes.take 7).headD 0 = bytes.headD 0 := by cases bytes <;> rfl
        rw [← hhead] at htl hlen
        have hmore : 1 < ((bytes.take 7).headD 0).toNat := by
          by_contra h
          have hfsc := hagree.fsc
          rw [hf₁, hf₂, readAts_fsc_kept (by omega) h, readAts_fsc_kept (by omega) h, hfsc₁,
            hfsc₂] at hfsc
          exact absurd hfsc (by decide)
        refine ⟨hmore, fun hbit => ?_⟩
        by_contra h
        have hidx := Nat.not_lt.mp h
        have hfwt := hagree.fwt
        rw [hw₁, hw₂, readAts_fwt_kept hlen hmore hbit hidx, readAts_fwt_kept hlen hmore hbit hidx,
          hbyte₁, hbyte₂] at hfwt
        exact absurd (show fwi2fw ((0x00 : UInt8) >>> 4) = fwi2fw ((0x20 : UInt8) >>> 4)
          from hfwt) (by decide)

/-- The parameters depend on the answers alone exactly if some SAK ended the UID and the ATS of a
T=CL card brought its format byte and the TB it announces. -/
theorem parameters_iff (answers : List Answer) (hfull : FullLength answers) :
    SameParameters answers ↔ Determined clearStack answers :=
  ⟨determined_of_same hfull, same_of_determined hfull⟩

-- A card with the given ATS.
def tclAnswers (ats : List UInt8) : List Answer :=
  [.frame [0x04, 0x00], .frame [0x01, 0x02, 0x03, 0x04, 0x04], .frame [0x20, 0xFC, 0x70],
    .frame ats]

theorem fullLength_tclAnswers {ats : List UInt8} (h : WholeAts (.frame ats)) :
    FullLength (tclAnswers ats) := by
  refine ⟨⟨_, rfl, rfl⟩, ⟨_, rfl, rfl⟩, ⟨_, rfl, rfl⟩, ?_⟩
  rintro _ ⟨⟩
  exact h

theorem parameters_whole_ats :
    SameParameters (tclAnswers [0x05, 0x78, 0x80, 0x70, 0x02]) :=
  (parameters_iff _ (fullLength_tclAnswers ⟨_, rfl, by decide, by decide⟩)).mpr (by decide +kernel)

/-- An ATS of one byte: the FSC is that of an earlier card. -/
theorem parameters_short_ats :
    FullLength (tclAnswers [0x01]) ∧ ¬ SameParameters (tclAnswers [0x01]) := by
  have hfull : FullLength (tclAnswers [0x01]) :=
    fullLength_tclAnswers ⟨_, rfl, by decide, by decide⟩
  have hundetermined : ¬ Determined clearStack (tclAnswers [0x01]) := by decide +kernel
  exact ⟨hfull, fun hsame => hundetermined (determined_of_same hfull hsame)⟩

end NfceeFw.Nfc
