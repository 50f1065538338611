import NfceeFw.Nfc.RuleB
import NfceeFw.Nfc.Crca
import NfceeFw.Trf797x.Initiator

/-!
# Integrity — who checks the CRC_A of a received block

The chip is set up to leave the CRC in the receive buffer, the 14443-3 layer passes the frame up as
it is, and the block layer strips two bytes.  When a call that succeeds has copied intact blocks.
-/

namespace NfceeFw.Trf797x

open NfceeFw.Reasoning NfceeFw.Nfc

/-! ## 1. From the air to the block layer -/

abbrev Registers := UInt8 → UInt8

def Registers.write (regs : Registers) (writes : List (UInt8 × UInt8)) : Registers :=
  writes.foldl (fun regs w => Function.update regs w.1 w.2) regs

/-- A chip that, with `RX_CRC_N` set in the ISO control register, neither checks nor removes the
CRC of a frame. -/
def KeepsCrc (chip : Registers → List UInt8 → Answer) : Prop :=
  ∀ regs air, regs regIsoCtrl &&& isoCtrlRxCrcN ≠ 0 → chip regs air = .frame air

-- What comes out of an exchange that ends on the air as given.
def fromAir (chip : Registers → List UInt8 → Answer) (regs : Registers) : Answer → Answer
  | .frame air => chip regs air
  | .error code => .error code

/-- The registers once `nfc_device_open` has started the chip. -/
def started (regs : Registers) (tech : NfcDigital) (vin5v : Bool) : Registers :=
  regs.write (trf797xInitiatorStart (protoOf tech) vin5v)

theorem isoCtrl_rxCrcN (proto : UInt8) : isoCtrl proto &&& isoCtrlRxCrcN ≠ 0 := by
  revert proto
  exact forallByte (by decide +kernel)

theorem started_isoCtrl (regs : Registers) (tech : NfcDigital) (vin5v : Bool) :
    started regs tech vin5v regIsoCtrl = isoCtrl (protoOf tech) := rfl

-- With the CRC kept, every frame reaches the block layer as it is.
theorem fromAir_started {chip : Registers → List UInt8 → Answer} (h : KeepsCrc chip)
    (regs : Registers) (tech : NfcDigital) (vin5v : Bool) (airs : List Answer) :
    airs.map (fromAir chip (started regs tech vin5v)) = airs := by
  apply List.map_id''
  intro air
  cases air with
  | error code => rfl
  | frame bytes =>
    apply h
    rw [started_isoCtrl]
    exact isoCtrl_rxCrcN _

/-! ## 2. Frames -/

section

variable (frame : List UInt8)

-- The control byte.
def pcbOf : UInt8 := frame.headD 0

/-- An unchained I-block, which ends a response. -/
def EndsCall : Prop := 3 ≤ frame.length ∧ isIblock (pcbOf frame) = true ∧ pcbOf frame &&& 0x10 = 0

/-- An I-block with an INF field, as the code reckons its length from that of the frame. -/
def CarriesInf : Prop :=
  3 ≤ frame.length ∧ isIblock (pcbOf frame) = true ∧
    min frame.length maxFrameSize ≠ sizeOfHeader (pcbOf frame) + 2

/-- A block of one of the kinds that a call goes on with. -/
def Passes : Prop :=
  3 ≤ frame.length ∧
    (isIblock (pcbOf frame) = true ∨ isWtx (pcbOf frame) = true ∨ isAck (pcbOf frame) = true)

-- The whole frame is in the buffer, and its last two bytes are its CRC_A.
def Whole : Prop := frame.length ≤ maxFrameSize ∧ intact frame

instance : Decidable (EndsCall frame) := inferInstanceAs (Decidable (_ ∧ _ ∧ _))
instance : Decidable (Passes frame) := inferInstanceAs (Decidable (_ ∧ (_ ∨ _ ∨ _)))
instance : Decidable (Whole frame) := inferInstanceAs (Decidable (_ ∧ _))

end

section

variable {a : CallArgs} {s : Locals}

theorem frame_ret (hd : s.site ≠ .direct) {f : List UInt8} (h : 3 ≤ f.length) :
    3 ≤ (Answer.frame f).ret (s.site.rxlen a) := by
  have hroom := (Site.rxlen_bounds a hd).1
  show (3 : Int) ≤ (min f.length (s.site.rxlen a) : Nat)
  omega

theorem frame_pcb (hd : s.site ≠ .direct) {f : List UInt8} (h : 3 ≤ f.length) :
    (s.store a (.frame f)).pcb = pcbOf f := by
  have hroom := (Site.rxlen_bounds a hd).1
  show s.buffer.write 0 (f.take (s.site.rxlen a)) 0 = pcbOf f
  match f with
  | [] => cases h
  | b :: rest =>
    rw [← Nat.zero_add 0, Mem.write_at _ _ _ _ (by rw [List.length_take]; omega),
      List.getElem_take]
    rfl

-- An answer of three bytes or more is a frame.
theorem frame_of_ret {ans : Answer} {room : Nat} (h : 3 ≤ ans.ret room) :
    ∃ f, ans = .frame f ∧ 3 ≤ f.length := by
  cases ans with
  | error code => exact absurd h (by simp [Answer.ret]; omega)
  | frame f =>
    refine ⟨f, rfl, ?_⟩
    have hlen : (3 : Int) ≤ (min f.length room : Nat) := h
    omega

theorem arrived_iff (hd : s.site ≠ .direct) {ans : Answer} {p : UInt8 → Bool} :
    arrived a s ans p = true ↔ ∃ f, ans = .frame f ∧ 3 ≤ f.length ∧ p (pcbOf f) = true := by
  unfold arrived
  rw [Bool.and_eq_true, decide_eq_true_iff]
  constructor
  · rintro ⟨hret, hp⟩
    obtain ⟨f, rfl, hlen⟩ := frame_of_ret hret
    exact ⟨f, rfl, hlen, frame_pcb hd hlen ▸ hp⟩
  · rintro ⟨f, rfl, hlen, hp⟩
    exact ⟨frame_ret hd hlen, (frame_pcb (a := a) hd hlen).symm ▸ hp⟩

end

/-! ## 3. Runs that succeed -/

section

variable (a : CallArgs) (s : Locals) (ans : Answer)

-- An unchained I-block arrives while the response is awaited.
def EndsResponse : Prop :=
  s.site.chaining = false ∧ arrived a s ans isIblock = true ∧ (s.store a ans).pcb &&& 0x10 = 0

-- The variables where a run stands.
def runLocals : Run → Locals
  | .wait s => s
  | .done r => r.final

/-- The code from the answer on copies bytes to `rxdata`: it logs a `memcpy` that is not empty. -/
def Copies : Prop :=
  ∃ w ∈ (runLocals (s.resume a ans)).writes.take
    ((runLocals (s.resume a ans)).writes.length - s.writes.length), 0 < w.2

instance : Decidable (Copies a s ans) := inferInstanceAs (Decidable (∃ w ∈ _, _))

end

def WholeFrame : Answer → Prop
  | .frame f => Whole f
  | .error _ => False

def IntactFrame : Answer → Prop
  | .frame f => intact f
  | .error _ => False

instance : DecidablePred WholeFrame
  | .frame f => inferInstanceAs (Decidable (Whole f))
  | .error _ => .isFalse id

instance : DecidablePred IntactFrame
  | .frame f => inferInstanceAs (Decidable (intact f))
  | .error _ => .isFalse id

-- A call comes back with a count exactly when an unchained I-block arrives.
theorem resume_success {d : Driver} {a : CallArgs} (hrx : a.rxlen < 2 ^ 31) {s : Locals}
    (hb : Bounded d a (.wait s)) (ans : Answer) :
    (∃ r, s.resume a ans = .done r ∧ 0 ≤ r.ret) ↔ EndsResponse a s ans := by
  have hfail : ∀ t : Locals, ¬ ∃ r, t.fail = .done r ∧ 0 ≤ r.ret := by
    rintro t ⟨_, ⟨⟩, hret⟩
    exact absurd (show (0 : Int) ≤ -eio from hret) (by decide)
  obtain ⟨hd, -, hlast⟩ := hb
  have hex := resume_exchange a s ans hd
  generalize s.resume a ans = next at hex ⊢
  unfold EndsResponse arrived
  cases hex with
  | short hi => exact iff_of_false (hfail _) (by simp [Int.not_le.mpr hi])
  | wtx hi hw => exact iff_of_false (by rintro ⟨_, ⟨⟩, _⟩) (by simp [isIblock_of_isWtx _ hw])
  | noAck hi hs hw hk => exact iff_of_false (hfail _) (by simp [hs])
  | again hi hs hk ht => exact iff_of_false (by rintro ⟨_, ⟨⟩, _⟩) (by simp [hs])
  | ack hi hs hk ht =>
    refine iff_of_false ?_ (by simp [hs])
    unfold Locals.sendBlock
    split
    · rintro ⟨_, ⟨⟩, _⟩
    · rintro ⟨_, ⟨⟩, _⟩
  | noIblock hi hs hw hk => exact iff_of_false (hfail _) (by simp [hk])
  | iblock hi hs hk =>
    have hc := ((hlast hs).store ans).countIblock (ans.ret (s.site.rxlen a))
    unfold Locals.takeIblock
    by_cases hbit : (s.store a ans).pcb &&& 0x10 = 0
    · rw [if_pos (by simpa using hbit)]
      refine iff_of_true ⟨_, rfl, ?_⟩ ⟨hs, by simp [hi, hk], hbit⟩
      have htotal := hc.total
      have hreceived := hc.received
      dsimp only
      rw [toInt_of_lt (by omega)]
      exact Int.natCast_nonneg _
    · rw [if_neg (by simpa using hbit)]
      exact iff_of_false (by rintro ⟨_, ⟨⟩, _⟩) (fun h => hbit h.2.2)

-- Only "Read data from FIFO" writes to `rxdata`.
theorem copies_iff {a : CallArgs} {s : Locals} {ans : Answer} (hd : s.site ≠ .direct) :
    Copies a s ans ↔ s.site.chaining = false ∧ arrived a s ans isIblock = true ∧
      current a s ans = true ∧
      0 < min (sizeT (ans.ret (s.site.rxlen a) - sizeOfHeader (s.store a ans).pcb - 2))
        s.rxlen := by
  have hnone : ∀ st : Run, (runLocals st).writes = s.writes →
      ¬ ∃ w ∈ (runLocals st).writes.take ((runLocals st).writes.length - s.writes.length),
        0 < w.2 := by
    intro st hst
    rw [hst, Nat.sub_self]
    rintro ⟨w, hw, -⟩
    cases hw
  have hex := resume_exchange a s ans hd
  unfold Copies arrived
  generalize s.resume a ans = next at hex ⊢
  cases hex with
  | short hi => exact iff_of_false (hnone _ rfl) (by simp [Int.not_le.mpr hi])
  | wtx hi hw => exact iff_of_false (hnone _ rfl) (by simp [isIblock_of_isWtx _ hw])
  | noAck hi hs hw hk => exact iff_of_false (hnone _ rfl) (by simp [hs])
  | again hi hs hk ht => exact iff_of_false (hnone _ rfl) (by simp [hs])
  | ack hi hs hk ht =>
    refine iff_of_false (hnone _ ?_) (by simp [hs])
    unfold Locals.sendBlock
    split
    · rfl
    · rfl
  | noIblock hi hs hw hk => exact iff_of_false (hnone _ rfl) (by simp [hk])
  | iblock hi hs hk =>
    have hwrites : (runLocals ((s.store a ans).takeIblock (ans.ret (s.site.rxlen a)))).writes =
        ((s.store a ans).countIblock (ans.ret (s.site.rxlen a))).writes := by
      unfold Locals.takeIblock
      split
      · rfl
      · rfl
    by_cases ht : togglebit (s.store a ans).pcb.toUInt32 = (s.store a ans).toggle
    · have hcurrent : current a s ans = true := beq_iff_eq.mpr ht
      rw [hwrites, countIblock_current ht]
      show (∃ w ∈ ((_ :: s.writes).take ((_ :: s.writes).length - s.writes.length)), 0 < w.2) ↔ _
      rw [List.length_cons, Nat.add_sub_cancel_left, List.take_succ_cons, List.take_zero]
      constructor
      · rintro ⟨w, hw, hpos⟩
        rw [List.mem_singleton.mp hw] at hpos
        exact ⟨hs, by simp [hi, hk], hcurrent, hpos⟩
      · rintro ⟨-, -, -, hpos⟩
        exact ⟨_, List.mem_singleton_self _, hpos⟩
    · have hother : ¬ current a s ans = true := fun h => ht (beq_iff_eq.mp h)
      refine iff_of_false (hnone _ ?_) (by simp [hother])
      rw [hwrites, countIblock_other ht]
      rfl

-- A call that comes back with a count goes on with every block it reads.
theorem success_passes {d : Driver} {a : CallArgs} (hrx : a.rxlen < 2 ^ 32) {st : Run}
    (hst : Bounded d a st) {answers : List Answer} {r : Returned}
    (hdone : (nfcIso14443Transceive a).feed st answers = .done r) (hret : 0 ≤ r.ret) :
    ∀ x ∈ (nfcIso14443Transceive a).steps st answers, ∃ f, x.2 = .frame f ∧ Passes f := by
  intro x hx
  obtain ⟨hd, -⟩ := Program.steps_invariant (nfcIso14443Transceive a) (I := Bounded d a)
    (fun s ans h => bounded_resume hrx s ans h) _ hst answers x hx
  have hgoes : ∀ t : Locals, x.1.resume a x.2 ≠ t.fail := by
    intro t hfail
    have hsame := Program.feed_of_step _ hx hfail
    rw [hdone] at hsame
    cases hsame
    exact absurd (show (0 : Int) ≤ -eio from hret) (by decide)
  have hex := resume_exchange a x.1 x.2 hd
  generalize x.1.resume a x.2 = next at hex hgoes
  have hpasses : ∀ p : UInt8 → Bool, 3 ≤ x.2.ret (x.1.site.rxlen a) →
      p (x.1.store a x.2).pcb = true →
      (∀ b, p b = true → isIblock b = true ∨ isWtx b = true ∨ isAck b = true) →
      ∃ f, x.2 = .frame f ∧ Passes f := by
    intro p hi hp hkind
    obtain ⟨f, hf, hlen, hb⟩ := (arrived_iff (a := a) (p := p) hd).mp (by
      unfold arrived
      rw [decide_eq_true hi, hp]
      rfl)
    exact ⟨f, hf, hlen, hkind _ hb⟩
  cases hex with
  | short hi => exact absurd rfl (hgoes _)
  | wtx hi hw => exact hpasses isWtx hi hw fun _ h => .inr (.inl h)
  | noAck hi hs hw hk => exact absurd rfl (hgoes _)
  | again hi hs hk ht => exact hpasses isAck hi hk fun _ h => .inr (.inr h)
  | ack hi hs hk ht => exact hpasses isAck hi hk fun _ h => .inr (.inr h)
  | noIblock hi hs hw hb => exact absurd rfl (hgoes _)
  | iblock hi hs hb => exact hpasses isIblock hi hb fun _ h => .inl h

theorem transceiveStart_wait (d : Driver) (a : CallArgs) : ∃ s, transceiveStart d a = .wait s := by
  unfold transceiveStart Locals.sendBlock Locals.sendLast
  split
  · exact ⟨_, rfl⟩
  · split
    · exact ⟨_, rfl⟩
    · exact ⟨_, rfl⟩

-- The next block of a command, the last one or not.
theorem sendBlock_last (a : CallArgs) {s : Locals} (h : s.txlen ≤ s.infSize) :
    ∃ t, s.sendBlock a = .wait t ∧ t.site = .last ∧ t.rxlen = s.rxlen ∧ t.toggle = s.toggle := by
  unfold Locals.sendBlock
  rw [if_neg (Nat.not_lt.mpr h)]
  exact ⟨_, rfl, rfl, rfl, rfl⟩

theorem sendBlock_chain (a : CallArgs) {s : Locals} (h : s.infSize < s.txlen) :
    ∃ t, s.sendBlock a = .wait t ∧ t.site = .chain ∧ t.txlen = s.txlen ∧ t.infSize = s.infSize ∧
      t.toggle = s.toggle := by
  unfold Locals.sendBlock
  rw [if_pos h]
  exact ⟨_, rfl, rfl, rfl, rfl, rfl⟩

theorem transceiveStart_tcl {d : Driver} (a : CallArgs) (htcl : isTcl d = true) :
    transceiveStart d a = (Locals.entry d a).sendBlock a := by
  unfold transceiveStart
  rw [htcl]
  rfl

/-! ## 4. Integrity over a link -/

/-- If the call succeeds, then every answer of kind `P` is of kind `G`. -/
def SuccessImplies (a : CallArgs) (P : Locals → Answer → Prop) (G : Answer → Prop) (st : Run)
    (answers : List Answer) : Prop :=
  ∀ r, (nfcIso14443Transceive a).feed st answers = .done r → 0 ≤ r.ret →
    ∀ x ∈ (nfcIso14443Transceive a).steps st answers, P x.1 x.2 → G x.2

-- A success copies only from whole blocks with the right CRC_A.
def BlocksIntact (d : Driver) (a : CallArgs) (answers : List Answer) : Prop :=
  SuccessImplies a (Copies a) WholeFrame (transceiveStart d a) answers

-- A success has read no frame with a wrong CRC_A.
def FramesIntact (d : Driver) (a : CallArgs) (answers : List Answer) : Prop :=
  SuccessImplies a (fun _ _ => True) IntactFrame (transceiveStart d a) answers

/-- Card and link, as the frames that can come over the air; errors always can. -/
abbrev Link := List UInt8 → Prop

/-- Every T=CL call over the link, by a chip that has been started, has the property. -/
def Link.Always (link : Link) (chip : Registers → List UInt8 → Answer) (regs : Registers)
    (vin5v : Bool) (P : Driver → CallArgs → List Answer → Prop) : Prop :=
  ∀ (d : Driver) (a : CallArgs) (airs : List Answer), isTcl d = true → a.rxlen < 2 ^ 31 →
    (∀ f, Answer.frame f ∈ airs → link f) →
    P d a (airs.map (fromAir chip (started regs d.tech vin5v)))

-- No call over the link can succeed.
def Link.Mute (link : Link) : Prop := ∀ f, link f → ¬ EndsCall f

section

variable {link : Link} {d : Driver} {a : CallArgs} {s : Locals} {f g : List UInt8}

theorem endsResponse_frame (hd : s.site ≠ .direct) {ans : Answer} (h : EndsResponse a s ans) :
    ∃ f, ans = .frame f ∧ EndsCall f := by
  obtain ⟨-, harrived, hbit⟩ := h
  obtain ⟨f, rfl, hlen, hb⟩ := (arrived_iff hd).mp harrived
  exact ⟨f, rfl, hlen, hb, frame_pcb (a := a) hd hlen ▸ hbit⟩

-- A link that is mute has no successes.
theorem mute_success (hmute : link.Mute) (hrx : a.rxlen < 2 ^ 31) (htcl : isTcl d = true)
    {answers : List Answer} (hlink : ∀ f, Answer.frame f ∈ answers → link f) {r : Returned}
    (hdone : (nfcIso14443Transceive a).feed (transceiveStart d a) answers = .done r) :
    r.ret < 0 := by
  by_contra hret
  have hstart := bounded_start a htcl
  obtain ⟨s, hs⟩ := transceiveStart_wait d a
  rw [hs] at hdone hstart
  obtain ⟨x, hx, hend⟩ := (Program.feed_done_iff _ s answers r).mp hdone
  have hb := Program.steps_invariant (nfcIso14443Transceive a) (I := Bounded d a)
    (fun s ans h => bounded_resume (by omega) s ans h) _ hstart answers x hx
  obtain ⟨f, hf, hends⟩ := endsResponse_frame hb.1
    ((resume_success hrx hb x.2).mp ⟨r, hend, Int.not_lt.mp hret⟩)
  exact hmute f (hlink f (hf ▸ Program.steps_mem _ hx)) hends

/-! The calls that show a frame of the link: one that waits for a response, one that chains. -/

-- A block that the waiting loop goes on with ends the call, or leaves it waiting.
theorem waiting_next (hrx : a.rxlen < 2 ^ 31) (hb : Bounded d a (.wait s))
    (hs : s.site.chaining = false) (hlen : 3 ≤ f.length)
    (hkind : isIblock (pcbOf f) = true ∨ isWtx (pcbOf f) = true) :
    (∃ r, s.resume a (.frame f) = .done r ∧ 0 ≤ r.ret) ∨
      ∃ t, s.resume a (.frame f) = .wait t ∧ t.site.chaining = false := by
  have hi := frame_ret (a := a) hb.1 hlen
  have hpcb := frame_pcb (a := a) hb.1 hlen
  rcases hkind with hblock | hwtx
  · by_cases hbit : pcbOf f &&& 0x10 = 0
    · left
      exact (resume_success hrx hb (.frame f)).mpr
        ⟨hs, (arrived_iff hb.1).mpr ⟨f, rfl, hlen, hblock⟩, hpcb ▸ hbit⟩
    · right
      rw [resume_iblock a s _ hb.1 hs hi (hpcb ▸ hblock)]
      unfold Locals.takeIblock
      rw [hpcb, if_neg (by simpa using hbit)]
      exact ⟨_, rfl, rfl⟩
  · right
    rw [resume_wtx a s _ hb.1 hi (hpcb ▸ hwtx)]
    exact ⟨_, rfl, (Site.chaining_wtx s.site).trans hs⟩

-- Any such block can be followed by one that ends the call.
theorem waiting_succeeds (hrx : a.rxlen < 2 ^ 31) (hb : Bounded d a (.wait s))
    (hs : s.site.chaining = false) (hlen : 3 ≤ f.length)
    (hkind : isIblock (pcbOf f) = true ∨ isWtx (pcbOf f) = true) (hends : EndsCall g) :
    ∃ r, (nfcIso14443Transceive a).feed (.wait s) [.frame f, .frame g] = .done r ∧ 0 ≤ r.ret := by
  have hnext := bounded_resume (by omega) s (.frame f) hb
  rcases waiting_next hrx hb hs hlen hkind with ⟨r, hdone, hret⟩ | ⟨t, hwait, ht⟩
  · refine ⟨r, ?_, hret⟩
    show (nfcIso14443Transceive a).feed (s.resume a (.frame f)) [.frame g] = _
    rw [hdone, Program.feed_done]
  · rw [hwait] at hnext
    obtain ⟨r, hdone, hret⟩ := (resume_success hrx hnext (.frame g)).mpr
      ⟨ht, (arrived_iff hnext.1).mpr ⟨g, rfl, hends.1, hends.2.1⟩,
        frame_pcb (a := a) hnext.1 hends.1 ▸ hends.2.2⟩
    refine ⟨r, ?_, hret⟩
    show (nfcIso14443Transceive a).feed (s.resume a (.frame f)) [.frame g] = _
    rw [hwait]
    show (nfcIso14443Transceive a).feed (t.resume a (.frame g)) [] = _
    rw [hdone, Program.feed_done]

/-- A driver in a T=CL session, at the block number that a frame carries. -/
def driverAt (f : List UInt8) : Driver := { activated 16 with block := (pcbOf f).toUInt32 }

-- A command of one block, with room for one byte.
def shortCall : CallArgs := CallArgs.ofBytes [0x42] 1

-- A command of two blocks.
def longCall : CallArgs := CallArgs.ofBytes (List.replicate 14 0x07) 1

theorem driverAt_tcl (f : List UInt8) : isTcl (driverAt f) = true :=
  (sized_activated (show 16 ≤ 16 by decide) (by decide)).tcl

theorem driverAt_infSize (f : List UInt8) : infSizeOf (driverAt f) = 13 := by
  show infSizeOf (activated 16) = 13
  decide

theorem shortCall_waits (f : List UInt8) : ∃ s, transceiveStart (driverAt f) shortCall = .wait s ∧
    Bounded (driverAt f) shortCall (.wait s) ∧ s.site = .last ∧ s.rxlen = 1 ∧
    s.toggle = togglebit (pcbOf f).toUInt32 := by
  have hstart := transceiveStart_tcl shortCall (driverAt_tcl f)
  obtain ⟨s, hs, hfacts⟩ := sendBlock_last shortCall (s := Locals.entry (driverAt f) shortCall)
    (show 1 ≤ infSizeOf (driverAt f) by rw [driverAt_infSize]; decide)
  rw [← hstart] at hs
  exact ⟨s, hs, hs ▸ bounded_start shortCall (driverAt_tcl f), hfacts⟩

-- The R(ACK) for the first block of the longer command.
theorem longCall_waits (hlen : 3 ≤ f.length) (hack : isAck (pcbOf f) = true) :
    ∃ s t, transceiveStart (driverAt f) longCall = .wait s ∧
      s.resume longCall (.frame f) = .wait t ∧ Bounded (driverAt f) longCall (.wait t) ∧
      t.site = .last := by
  have hstart := transceiveStart_tcl longCall (driverAt_tcl f)
  obtain ⟨s, hs, hsite, htxlen, hinf, htoggle⟩ := sendBlock_chain longCall
    (s := Locals.entry (driverAt f) longCall)
    (show infSizeOf (driverAt f) < 14 by rw [driverAt_infSize]; decide)
  rw [← hstart] at hs
  have hb : Bounded (driverAt f) longCall (.wait s) :=
    hs ▸ bounded_start longCall (driverAt_tcl f)
  have hpcb := frame_pcb (a := longCall) hb.1 hlen
  have hnext := resume_ack longCall s (.frame f) (by rw [hsite]; rfl)
    (frame_ret hb.1 hlen) (hpcb ▸ hack) (by rw [hpcb, htoggle]; rfl)
  have hrest : s.txlen - s.infSize ≤ s.infSize := by
    rw [htxlen, hinf]
    show 14 - infSizeOf (driverAt f) ≤ infSizeOf (driverAt f)
    rw [driverAt_infSize]
    decide
  obtain ⟨t, ht, hsite', -⟩ := sendBlock_last longCall
    (s := (s.store longCall (.frame f)).nextChunk) hrest
  refine ⟨s, t, hs, hnext.trans ht, ?_, hsite'⟩
  rw [← hnext.trans ht]
  exact bounded_resume (by decide) s _ hb

-- An I-block under the reader's number, with room for one byte.
theorem carriesInf_iff (hd : s.site ≠ .direct) (hs : s.site.chaining = false) (hroom : s.rxlen = 1)
    (hnumber : s.toggle = togglebit (pcbOf f).toUInt32) (hlen : 3 ≤ f.length)
    (hblock : isIblock (pcbOf f) = true) : Copies a s (.frame f) ↔ CarriesInf f := by
  have hpcb := frame_pcb (a := a) hd hlen
  have hret : (Answer.frame f).ret (s.site.rxlen a) = (min f.length maxFrameSize : Nat) := by
    rw [Site.rxlen_waiting a hd hs]
    rfl
  have hheader : sizeOfHeader (pcbOf f) ≤ 3 := by
    unfold sizeOfHeader
    split <;> split <;> decide
  have hcurrent : current a s (.frame f) = true := by
    unfold current
    rw [hpcb, hnumber]
    exact beq_self_eq_true _
  have harrived : arrived a s (.frame f) isIblock = true :=
    (arrived_iff hd).mpr ⟨f, rfl, hlen, hblock⟩
  have hsize : 0 < min (sizeT ((min f.length maxFrameSize : Nat) - sizeOfHeader (pcbOf f) - 2)) 1 ↔
      min f.length maxFrameSize ≠ sizeOfHeader (pcbOf f) + 2 := by
    have hfits : min f.length maxFrameSize ≤ 256 := Nat.min_le_right _ _
    unfold sizeT
    omega
  rw [copies_iff hd, hret, hpcb, hroom]
  exact ⟨fun h => ⟨hlen, hblock, hsize.mp h.2.2.2⟩, fun h =>
    ⟨hs, harrived, hcurrent, hsize.mpr h.2.2⟩⟩

-- What is copied comes from an I-block with an INF field.
theorem carriesInf_of_copies (hd : s.site ≠ .direct) {ans : Answer} (h : Copies a s ans) :
    ∃ f, ans = .frame f ∧ CarriesInf f := by
  obtain ⟨hs, harrived, -, hpos⟩ := (copies_iff hd).mp h
  obtain ⟨f, rfl, hlen, hblock⟩ := (arrived_iff hd).mp harrived
  refine ⟨f, rfl, hlen, hblock, fun hempty => ?_⟩
  rw [frame_pcb (a := a) hd hlen, Site.rxlen_waiting a hd hs] at hpos
  have hret : (Answer.frame f).ret maxFrameSize = (min f.length maxFrameSize : Nat) := rfl
  have hzero : sizeT (((sizeOfHeader (pcbOf f) + 2 : Nat) : Int) - sizeOfHeader (pcbOf f) - 2) =
      0 := by
    unfold sizeT
    omega
  rw [hret, hempty, hzero] at hpos
  omega

end

section

variable {chip : Registers → List UInt8 → Answer} (hchip : KeepsCrc chip) (regs : Registers)
  (vin5v : Bool) {link : Link}

include hchip

-- Nothing on the way from the air stands between the link and the call.
theorem always_of_frames {P : CallArgs → Locals → Answer → Prop} {G : Answer → Prop}
    (h : link.Mute ∨ ∀ (a : CallArgs) (s : Locals) (f : List UInt8), s.site ≠ .direct → link f →
      Passes f → P a s (.frame f) → G (.frame f)) :
    link.Always chip regs vin5v
      (fun d a answers => SuccessImplies a (P a) G (transceiveStart d a) answers) := by
  intro d a airs htcl hrx hlink
  rw [fromAir_started hchip regs d.tech vin5v airs]
  intro r hdone hret x hx hP
  rcases h with hmute | hgood
  · exact absurd hret (Int.not_le.mpr (mute_success hmute hrx htcl hlink hdone))
  · have hstart := bounded_start a htcl
    obtain ⟨f, hf, hpasses⟩ := success_passes (by omega) hstart hdone hret x hx
    obtain ⟨hd, -⟩ := Program.steps_invariant (nfcIso14443Transceive a) (I := Bounded d a)
      (fun s ans h => bounded_resume (by omega) s ans h) _ hstart airs x hx
    rw [hf] at hP ⊢
    exact hgood a x.1 f hd (hlink f (hf ▸ Program.steps_mem _ hx)) hpasses hP

-- A frame that a call of the link can read, in a success.
theorem shown {P : CallArgs → Locals → Answer → Prop} {G : Answer → Prop}
    (h : link.Always chip regs vin5v
      (fun d a answers => SuccessImplies a (P a) G (transceiveStart d a) answers))
    {d : Driver} {a : CallArgs} (htcl : isTcl d = true) (hrx : a.rxlen < 2 ^ 31)
    {f g : List UInt8} (hf : link f) (hg : link g) {s : Locals} {r : Returned}
    (hstart : transceiveStart d a = .wait s)
    (hdone : (nfcIso14443Transceive a).feed (.wait s) [.frame f, .frame g] = .done r)
    (hret : 0 ≤ r.ret) (hP : P a s (.frame f)) : G (.frame f) := by
  have hcall := h d a [.frame f, .frame g] htcl hrx (by
    intro e he
    rcases List.mem_cons.mp he with heq | he
    · cases heq
      exact hf
    · cases List.mem_singleton.mp he
      exact hg)
  rw [fromAir_started hchip regs d.tech vin5v, hstart] at hcall
  exact hcall r hdone hret (s, .frame f) (List.mem_cons_self ..) hP

theorem blocksIntact_frames (h : link.Always chip regs vin5v BlocksIntact) {f g : List UInt8}
    (hf : link f) (hg : link g) (hends : EndsCall g) (hcarries : CarriesInf f) : Whole f := by
  have hlen := hcarries.1
  have hblock := hcarries.2.1
  obtain ⟨s, hstart, hb, hsite, hroom, hnumber⟩ := shortCall_waits f
  have hs : s.site.chaining = false := by
    rw [hsite]
    rfl
  obtain ⟨r, hdone, hret⟩ :=
    waiting_succeeds (by decide) hb hs hlen (.inl hblock) hends
  exact shown hchip regs vin5v (P := Copies) h (driverAt_tcl f) (by decide) hf hg hstart hdone hret
    ((carriesInf_iff hb.1 hs hroom hnumber hlen hblock).mpr hcarries)

theorem framesIntact_frames (h : link.Always chip regs vin5v FramesIntact) {f g : List UInt8}
    (hf : link f) (hg : link g) (hends : EndsCall g) (hpasses : Passes f) : intact f := by
  obtain ⟨hlen, hkind⟩ := hpasses
  have hshown : ∀ (a : CallArgs) (s : Locals) (r : Returned), a.rxlen < 2 ^ 31 →
      transceiveStart (driverAt f) a = .wait s →
      (nfcIso14443Transceive a).feed (.wait s) [.frame f, .frame g] = .done r → 0 ≤ r.ret →
      intact f := fun _ _ _ hrx hstart hdone hret =>
    shown hchip regs vin5v (P := fun _ _ _ => True) h (driverAt_tcl f) hrx hf hg hstart hdone hret
      trivial
  have hwaiting : isIblock (pcbOf f) = true ∨ isWtx (pcbOf f) = true → intact f := by
    intro hkind
    obtain ⟨s, hstart, hb, hsite, -⟩ := shortCall_waits f
    obtain ⟨r, hdone, hret⟩ := waiting_succeeds (f := f) (by decide) hb
      (by rw [hsite]; rfl) hlen hkind hends
    exact hshown _ s r (by decide) hstart hdone hret
  rcases hkind with hblock | hwtx | hack
  · exact hwaiting (.inl hblock)
  · exact hwaiting (.inr hwtx)
  · obtain ⟨s, t, hstart, hnext, hb, hsite⟩ := longCall_waits hlen hack
    obtain ⟨r, hdone, hret⟩ := (resume_success (by decide) hb (.frame g)).mpr
      ⟨by rw [hsite]; rfl, (arrived_iff hb.1).mpr ⟨g, rfl, hends.1, hends.2.1⟩,
        frame_pcb (a := longCall) hb.1 hends.1 ▸ hends.2.2⟩
    refine hshown longCall s r (by decide) hstart ?_ hret
    show (nfcIso14443Transceive longCall).feed (s.resume longCall (.frame f)) [.frame g] = _
    rw [hnext]
    show (nfcIso14443Transceive longCall).feed (t.resume longCall (.frame g)) [] = _
    rw [hdone, Program.feed_done]

end

/-- Successful calls copy whole blocks with the right CRC_A only, and read frames with the right
CRC_A only, exactly if card and link can deliver no others, or nothing that ends a call: there is no
check on the way from the air. -/
theorem integrity_iff (chip : Registers → List UInt8 → Answer) (hchip : KeepsCrc chip)
    (regs : Registers) (vin5v : Bool) (link : Link) :
    (link.Always chip regs vin5v BlocksIntact ↔
      link.Mute ∨ ∀ f, link f → CarriesInf f → Whole f) ∧
    (link.Always chip regs vin5v FramesIntact ↔
      link.Mute ∨ ∀ f, link f → Passes f → intact f) := by
  constructor
  · constructor
    · intro h
      refine or_iff_not_imp_left.mpr fun hmute f hf hcarries => ?_
      obtain ⟨g, hg, hends⟩ : ∃ g, link g ∧ EndsCall g := by
        simpa [Link.Mute] using hmute
      exact blocksIntact_frames hchip regs vin5v h hf hg hends hcarries
    · intro h
      refine always_of_frames hchip regs vin5v (h.imp_right fun hgood a s f hd hf _ hcopies => ?_)
      obtain ⟨f', heq, hcarries⟩ := carriesInf_of_copies hd hcopies
      cases heq
      exact hgood f hf hcarries
  · constructor
    · intro h
      refine or_iff_not_imp_left.mpr fun hmute f hf hpasses => ?_
      obtain ⟨g, hg, hends⟩ : ∃ g, link g ∧ EndsCall g := by
        simpa [Link.Mute] using hmute
      exact framesIntact_frames hchip regs vin5v h hf hg hends hpasses
    · intro h
      exact always_of_frames hchip regs vin5v (h.imp_right fun hgood _ _ f _ hf hpasses _ =>
        hgood f hf hpasses)

/-- A chip that checks and removes the CRC unless `RX_CRC_N` is set. -/
def receiver (regs : Registers) (air : List UInt8) : Answer :=
  if regs regIsoCtrl &&& isoCtrlRxCrcN ≠ 0 then .frame air
  else if intact air then .frame (air.take (air.length - 2))
  else .error 0

theorem receiver_keepsCrc : KeepsCrc receiver := fun _ _ h => if_pos h

-- A link that delivers two blocks, both whole: every call over it is all right.
theorem integrity_two_blocks :
    let link : Link := (· ∈ [[0x12, 0x01, 0x08, 0xA9], [0x03, 0x02, 0xDA, 0x17]])
    link.Always receiver (fun _ => 0) false BlocksIntact ∧
      link.Always receiver (fun _ => 0) false FramesIntact := by
  intro link
  have hall : ∀ f, link f → Whole f := by
    show ∀ f ∈ [[0x12, 0x01, 0x08, 0xA9], [0x03, 0x02, 0xDA, 0x17]], Whole f
    decide +kernel
  have h := integrity_iff receiver receiver_keepsCrc (fun _ => 0) false link
  exact ⟨h.1.mpr (.inr fun f hf _ => hall f hf), h.2.mpr (.inr fun f hf _ => (hall f hf).2)⟩

/-- The two CRC bytes of the response are wrong: its payload is returned all the same. -/
theorem integrity_wrong_crc :
    let a := CallArgs.ofBytes [0x42] 8
    let answers := [Answer.frame [0x02, 0x55, 0xFF, 0xFF]].map
      (fromAir receiver (started (fun _ => 0) .rf14443a false))
    KeepsCrc receiver ∧ isTcl (activated 256) = true ∧ ¬ intact [0x02, 0x55, 0xFF, 0xFF] ∧
    (∃ r, (nfcIso14443Transceive a).feed (transceiveStart (activated 256) a) answers = .done r ∧
      r.ret = 1 ∧ r.final.rxdata.read 0 1 = [0x55]) ∧
    ¬ BlocksIntact (activated 256) a answers ∧ ¬ FramesIntact (activated 256) a answers := by
  intro a answers
  have hrun : ((nfcIso14443Transceive a).feed (transceiveStart (activated 256) a)
      answers).result.any
        (fun r => decide (r.ret = 1 ∧ r.final.rxdata.read 0 1 = [0x55])) = true := by decide +kernel
  have hcopied : ∃ x ∈ (nfcIso14443Transceive a).steps (transceiveStart (activated 256) a) answers,
      Copies a x.1 x.2 ∧ ¬ WholeFrame x.2 ∧ ¬ IntactFrame x.2 := by decide +kernel
  obtain ⟨r, hdone, hret, hbytes⟩ := Status.done_of_result hrun
  obtain ⟨x, hx, hcopy, hwhole, hintact⟩ := hcopied
  have hpos : 0 ≤ r.ret := by omega
  refine ⟨receiver_keepsCrc, (sized_activated (by decide) (by decide)).tcl, by decide +kernel,
    ⟨r, hdone, hret, hbytes⟩, ?_, ?_⟩
  · intro h
    exact hwhole (h r hdone hpos x hx hcopy)
  · intro h
    exact hintact (h r hdone hpos x hx trivial)

end NfceeFw.Trf797x
