import NfceeFw.Nfc.Bounds
import NfceeFw.Nfc.Open
import NfceeFw.Trf797x.Exchange

/-!
# Refinement — the protocol layers over the loops of the chip driver

`nfc_iso14443_transceive` and `nfc_iso14443_open`, down to the interrupts: on any sequence of
events, each does what it does on the answers that the chip has presented.  What is proved about
them for arbitrary answers so holds of the whole stack.
-/

namespace NfceeFw.Trf797x

open NfceeFw.Reasoning NfceeFw.Nfc

/-! ## 1. The protocol layers on what a device call leaves -/

/-- `nfc_iso14443_transceive` from the return of the open `l3.transceive` on. -/
def resumeBlock (a : CallArgs) (s : Locals) (res : DeviceResult) : Run :=
  let t := { s with buffer := res.area }
  match s.site with
  | .direct => .done ⟨res.ret, { s with rxdata := res.area }⟩
  | .chain =>
    if res.ret < 3 then t.fail
    else if isIblock t.pcb then t.fail
    else t.afterChain a
  | .chainWtx => if res.ret < 3 then t.fail else t.afterChain a
  | .last | .lastWtx => if res.ret < 3 then t.fail else t.afterLast res.ret

/-- The blocks are sent from `buffer` and received into it. -/
def blockLayer (a : CallArgs) : Program Locals DeviceExchange DeviceResult Returned where
  query s :=
    ⟨nfcIso14443aTransceive (s.query a), if s.site = .direct then s.rxdata else s.buffer⟩
  resume := resumeBlock a

/-- `nfc_iso14443a_open` from the return of the open exchange on; the anticollision frame is
received behind its first two bytes. -/
def resumeOpen (k : OpenStack) (s : OpenLocals) (res : DeviceResult) : OpenRun :=
  match s.site with
  | .wupa =>
    let t := { s with buf := res.area }
    if res.ret < 0 then t.fail (-enodev) else t.afterWupa k
  | .anticollision =>
    let t := { s with buf := s.buf.splice 2 res.area }
    if res.ret < 0 then t.fail (-eio) else t.afterAnticollision
  | .select =>
    let t := { s with sak := res.area }
    if res.ret < 0 then t.fail (-eio) else t.afterSelect k
  | .rats =>
    let t := { s with driver := { s.driver with ats := res.area } }
    if res.ret < 0 then t.fail res.ret else t.afterRats

def openArea (s : OpenLocals) : Mem UInt8 :=
  match s.site with
  | .wupa => s.buf
  | .anticollision => s.buf.tail 2
  | .select => s.sak
  | .rats => s.driver.ats

def activationLayer (k : OpenStack) : Program OpenLocals DeviceExchange DeviceResult Opened where
  query s := ⟨s.query, openArea s⟩
  resume := resumeOpen k

/-! ## 2. The same result -/

/-- All but the stack of a call that is over, and the area of a pass-through call that fails. -/
structure SameReturned (r r' : Returned) : Prop where
  ret : r.ret = r'.ret
  final : r.final = { r'.final with buffer := r.final.buffer, rxdata := r.final.rxdata }
  rxdata : 0 ≤ r.ret ∨ r.final.site ≠ .direct → r.final.rxdata = r'.final.rxdata

/-- Of the driver, all but the ATS of an open that fails. -/
def SameOpened (r r' : Opened) : Prop :=
  r.ret = r'.ret ∧ (r.ret = 0 → r = r') ∧
    r.final.driver = { r'.final.driver with ats := r.final.driver.ats }

theorem sameReturned_refl (r : Returned) : SameReturned r r := ⟨rfl, rfl, fun _ => rfl⟩

theorem sameOpened_refl (r : Opened) : SameOpened r r := ⟨rfl, fun _ => rfl, rfl⟩

/-! ## 3. One exchange -/

-- The receive iovec has the room that was asked for.
theorem rx_bytes {n : Nat} (h : n < 2 ^ 29) (area : Mem UInt8) :
    (RxIovec.mk (some area) (bytesField n)).bytes = n := by
  show (8 * (n % 2 ^ 29) + 7) % 2 ^ 32 / 8 = n
  omega

theorem resumeBlock_related (a : CallArgs) {s : Locals} {res : DeviceResult} {ans : Answer}
    (hd : s.site ≠ .direct) (h : Gives s.buffer (s.site.rxlen a) res ans) :
    (resumeBlock a s res).Related Eq SameReturned (s.resume a ans) := by
  by_cases hshort : res.ret < 3
  · have hfail : resumeBlock a s res = ({ s with buffer := res.area } : Locals).fail := by
      unfold resumeBlock
      cases hsite : s.site with
      | direct => exact absurd hsite hd
      | chain | chainWtx | last | lastWtx => exact if_pos hshort
    rw [hfail, resume_short a s ans hd (h.ret ▸ hshort)]
    exact ⟨rfl, rfl, fun _ => rfl⟩
  · have hstore : { s with buffer := res.area } = s.store a ans := by
      unfold Locals.store
      rw [h.area (by omega)]
    have hsame : resumeBlock a s res = s.resume a ans := by
      unfold resumeBlock Locals.resume
      rw [hstore, h.ret]
      cases hsite : s.site with
      | direct => exact absurd hsite hd
      | chain | chainWtx | last | lastWtx => rfl
    rw [hsame]
    exact related_refl sameReturned_refl _

-- The exchange of a pass-through call.
theorem resumeDirect_related (a : CallArgs) {s : Locals} {res : DeviceResult} {ans : Answer}
    (hd : s.site = .direct) (h : Gives s.rxdata a.rxlen res ans) :
    (resumeBlock a s res).Related Eq SameReturned (s.resume a ans) := by
  unfold resumeBlock Locals.resume
  rw [hd]
  refine ⟨h.ret, rfl, fun hok => h.area ?_⟩
  rcases hok with hret | hsite
  · exact hret
  · exact absurd rfl hsite

-- What each exchange of an activation has room for.
def openRoom (s : OpenLocals) : Nat :=
  match s.site with
  | .wupa => 8
  | .anticollision => 5
  | .select => 3
  | .rats => 7

theorem sameOpened_fail {s s' : OpenLocals} {n : Int} (hn : n < 0)
    (hdriver : s.driver = { s'.driver with ats := s.driver.ats }) :
    (s.fail n).Related Eq SameOpened (s'.fail n) := by
  refine ⟨rfl, fun h => ?_, hdriver⟩
  have hzero : n = 0 := h
  omega

theorem resumeOpen_related (k : OpenStack) {s : OpenLocals} {res : DeviceResult} {ans : Answer}
    (h : Gives (openArea s) (openRoom s) res ans) :
    (resumeOpen k s res).Related Eq SameOpened (s.resume k ans) := by
  obtain ⟨hret, harea⟩ := h
  unfold openArea at harea
  unfold openRoom at hret harea
  unfold resumeOpen OpenLocals.resume
  cases hsite : s.site with
  | wupa =>
    rw [hsite] at hret harea
    dsimp only at hret harea ⊢
    by_cases hneg : res.ret < 0
    · rw [if_pos hneg, if_pos (hret ▸ hneg)]
      exact sameOpened_fail (by decide) rfl
    · rw [if_neg hneg, if_neg (hret ▸ hneg), harea (by omega)]
      exact related_refl sameOpened_refl _
  | anticollision =>
    rw [hsite] at hret harea
    dsimp only at hret harea ⊢
    by_cases hneg : res.ret < 0
    · rw [if_pos hneg, if_pos (hret ▸ hneg)]
      exact sameOpened_fail (by decide) rfl
    · rw [if_neg hneg, if_neg (hret ▸ hneg), harea (by omega), Mem.splice_write]
      exact related_refl sameOpened_refl _
  | select =>
    rw [hsite] at hret harea
    dsimp only at hret harea ⊢
    by_cases hneg : res.ret < 0
    · rw [if_pos hneg, if_pos (hret ▸ hneg)]
      exact sameOpened_fail (by decide) rfl
    · rw [if_neg hneg, if_neg (hret ▸ hneg), harea (by omega)]
      exact related_refl sameOpened_refl _
  | rats =>
    rw [hsite] at hret harea
    dsimp only at hret harea ⊢
    by_cases hneg : res.ret < 0
    · rw [if_pos hneg, if_pos (hret ▸ hneg)]
      rw [hret]
      exact sameOpened_fail (hret ▸ hneg) rfl
    · rw [if_neg hneg, if_neg (hret ▸ hneg), harea (by omega)]
      exact related_refl sameOpened_refl _

/-! ## 4. Whole runs -/

-- What is promised within an exchange is what the upper layer goes on with.
theorem within_of_carried {σ ρ Q : Type} {p : Program σ DeviceExchange DeviceResult ρ}
    {q : Program σ Q Answer ρ} {F : ρ → ρ → Prop} {fuel junk : Nat} {s : σ}
    {log : List (TransceiveAt × IrqEvent)} {st : Status TransceiveAt (Option DeviceResult)}
    (h : Carried fuel junk (p.query s) log st)
    (hnext : ∀ res, Gives (p.query s).area (p.query s).rx.bytes res (heard log) →
      (p.resume s res).Related Eq F (q.resume s (heard log))) :
    p.Within q F (fun s log t => Underway fuel junk (p.query s) log t) (fun _ log => heard log) s
      log st := by
  cases st with
  | wait t => exact h
  | done res =>
    cases res with
    | none => exact h
    | some res => exact hnext res h

-- A frame of up to 125 bytes goes into the FIFO in one load, with or without its CRC.
theorem short_plain (m : Mem UInt8) {n : Nat} (rxlen fuel : Nat) (hlo : 0 < n) (hhi : n ≤ 125) :
    Short (fuel + 2) (transceive m n rxlen) where
  fuel := show 1 ≤ fuel + 2 by omega
  nonempty := List.cons_ne_nil _ _
  bits v hv := by
    rw [List.mem_singleton.mp hv]
    show 0 < bytesField n
    unfold bytesField
    omega
  bytes := by
    rw [transceive_bytes m rxlen (by omega), Mem.read_length]
    exact Nat.le_trans hhi (by decide)

theorem short_crc {q : Request} (fuel : Nat) (hlo : 0 < q.txlen) (hhi : q.txlen ≤ 125) :
    Short (fuel + 2) (nfcIso14443aTransceive q) where
  fuel := Nat.le_add_left 2 fuel
  nonempty := List.cons_ne_nil _ _
  bits v hv := by
    simp only [nfcIso14443aTransceive, List.mem_cons, List.not_mem_nil, or_false] at hv
    rcases hv with rfl | rfl
    · show 0 < bytesField q.txlen
      unfold bytesField
      omega
    · show 0 < bytesField 2
      decide
  bytes := by
    rw [nfcIso14443aTransceive_bytes _ (by omega), List.length_append, crcaBytes_length,
      Request.frame, Mem.read_length]
    unfold trf797xFifoSize
    omega

-- Every block of a T=CL call fits one load.
theorem short_block {d : Driver} {a : CallArgs} (hd : Sized d) {s : Locals}
    (h : Bounded d a (.wait s)) (fuel : Nat) :
    Short (fuel + 2) (nfcIso14443aTransceive (s.query a)) ∧
      (s.query a).rxlen = s.site.rxlen a ∧ (s.query a).rxlen ≤ maxFrameSize := by
  obtain ⟨htx, hrx, hsize⟩ := query_fits hd s h
  have hfsd := hd.fsd
  have hpos : 0 < (s.query a).txlen ∧ (s.query a).rxlen = s.site.rxlen a := by
    unfold Locals.query
    cases hsite : s.site with
    | direct => exact absurd hsite h.1
    | chain | chainWtx | last | lastWtx => exact ⟨Nat.succ_pos _, rfl⟩
  exact ⟨short_crc fuel hpos.1 (by omega), hpos.2, hrx⟩

/-- A T=CL call, or a pass-through call whose frame fits one load. -/
def Layered (d : Driver) (a : CallArgs) : Prop :=
  Sized d ∨ isTcl d = false ∧ 0 < a.txlen ∧ a.txlen ≤ 125 ∧ a.rxlen < 2 ^ 29

-- The open exchange of such a call.
def Waits (d : Driver) (a : CallArgs) (s : Locals) : Prop :=
  Sized d ∧ Bounded d a (.wait s) ∨
    s.site = .direct ∧ 0 < a.txlen ∧ a.txlen ≤ 125 ∧ a.rxlen < 2 ^ 29

theorem waits_start {d : Driver} {a : CallArgs} (h : Layered d a) {s : Locals}
    (hs : transceiveStart d a = .wait s) : Waits d a s := by
  rcases h with hd | ⟨htcl, hlen⟩
  · left
    rw [← hs]
    exact ⟨hd, bounded_start a hd.tcl⟩
  · right
    unfold transceiveStart at hs
    rw [htcl] at hs
    cases hs
    exact ⟨rfl, hlen⟩

theorem block_refines (d : Driver) {a : CallArgs} (hrx : a.rxlen < 2 ^ 32) (fuel junk : Nat) :
    (blockLayer a).Refines (device (fuel + 2) junk) (nfcIso14443Transceive a) SameReturned
      (Waits d a) (fun s log t => Underway (fuel + 2) junk ((blockLayer a).query s) log t)
      (fun _ log => heard log) where
  enter s hs := by
    apply device_enter junk
    rcases hs with ⟨hd, hs⟩ | ⟨hs, hlo, hhi, -⟩
    · exact (short_block hd hs fuel).1
    · show Short (fuel + 2) (nfcIso14443aTransceive (s.query a))
      unfold Locals.query
      rw [hs]
      exact short_crc fuel hlo hhi
  within s log t ev hs ht := by
    apply within_of_carried (device_within ht ev)
    intro res hres
    rcases hs with ⟨hd, hs⟩ | ⟨hs, -, -, hroom⟩
    · obtain ⟨-, hlen, hle⟩ := short_block hd hs fuel
      have hcap : ((blockLayer a).query s).rx.bytes = s.site.rxlen a := by
        rw [← hlen]
        exact rx_bytes (by unfold maxFrameSize at hle; omega) _
      have harea : ((blockLayer a).query s).area = s.buffer := if_neg hs.1
      rw [hcap, harea] at hres
      exact resumeBlock_related a hs.1 hres
    · have hcap : ((blockLayer a).query s).rx.bytes = a.rxlen := by
        have hlen : (s.query a).rxlen = a.rxlen := by
          unfold Locals.query
          rw [hs]
        rw [← hlen]
        exact rx_bytes (by rw [hlen]; exact hroom) _
      have harea : ((blockLayer a).query s).area = s.rxdata := if_pos hs
      rw [hcap, harea] at hres
      exact resumeDirect_related a hs hres
  next s ans s' hs hnext := by
    rcases hs with ⟨hd, hs⟩ | ⟨hs, -⟩
    · left
      rw [← hnext]
      exact ⟨hd, bounded_resume hrx s ans hs⟩
    · have hdone : (nfcIso14443Transceive a).resume s ans = s.resume a ans := rfl
      rw [hdone] at hnext
      unfold Locals.resume at hnext
      rw [hs] at hnext
      cases hnext

-- So does every frame of an activation.
theorem short_open (s : OpenLocals) (fuel : Nat) : Short (fuel + 2) s.query := by
  unfold OpenLocals.query
  cases s.site with
  | wupa =>
    refine ⟨show 1 ≤ fuel + 2 by omega, List.cons_ne_nil _ _, ?_, show 1 ≤ 127 by decide⟩
    intro v hv
    rw [List.mem_singleton.mp hv]
    show 0 < 7
    decide
  | anticollision =>
    apply short_plain
    · split <;> decide
    · split <;> decide
  | select => exact short_crc fuel (show 0 < 7 by decide) (show 7 ≤ 125 by decide)
  | rats => exact short_crc fuel (show 0 < 2 by decide) (show 2 ≤ 125 by decide)

theorem open_refines (k : OpenStack) (fuel junk : Nat) :
    (activationLayer k).Refines (device (fuel + 2) junk) (nfcIso14443aOpen k) SameOpened
      (fun _ => True)
      (fun s log t => Underway (fuel + 2) junk ((activationLayer k).query s) log t)
      (fun _ log => heard log) where
  enter s _ := device_enter junk (short_open s fuel)
  within s log t ev _ ht := by
    apply within_of_carried (device_within ht ev)
    intro res hres
    have hcap : ((activationLayer k).query s).rx.bytes = openRoom s := by
      show (RxIovec.mk (some (openArea s)) s.query.rxBits).bytes = _
      unfold OpenLocals.query openRoom
      cases s.site with
      | wupa => exact rx_bytes (show 8 < 2 ^ 29 by decide) _
      | anticollision => exact rx_bytes (show 5 < 2 ^ 29 by decide) _
      | select => exact rx_bytes (show 3 < 2 ^ 29 by decide) _
      | rats => exact rx_bytes (show 7 < 2 ^ 29 by decide) _
    rw [hcap] at hres
    exact resumeOpen_related k hres
  next _ _ _ _ _ := trivial

/-! ## 5. The stack -/

/-- `nfc_iso14443_transceive` down to the interrupts of the chip. -/
def transceiveStack (a : CallArgs) (fuel junk : Nat) :
    Program (Locals × TransceiveAt) Unit IrqEvent (Option Returned) :=
  (blockLayer a).onTop (device fuel junk)

/-- `nfc_iso14443_open` down to the interrupts of the chip. -/
def openStack (k : OpenStack) (fuel junk : Nat) :
    Program (OpenLocals × TransceiveAt) Unit IrqEvent (Option Opened) :=
  ((activationLayer k).map Opened.settle).onTop (device fuel junk)

/-- The answers of a history: frame by frame what the chip has presented, or the error. -/
def transceiveAnswers (a : CallArgs) (fuel junk : Nat)
    (log : List ((Locals × TransceiveAt) × IrqEvent)) : List Answer :=
  ((blockLayer a).tallied (device fuel junk) (fun _ log => heard log) log).answers

def openAnswers (k : OpenStack) (fuel junk : Nat)
    (log : List ((OpenLocals × TransceiveAt) × IrqEvent)) : List Answer :=
  (((activationLayer k).map Opened.settle).tallied (device fuel junk) (fun _ log => heard log)
    log).answers

-- A call that has returned, on the answers presented.
theorem transceive_ends {d : Driver} {a : CallArgs} (h : Layered d a) (hrx : a.rxlen < 2 ^ 32)
    {fuel junk : Nat} {events : List IrqEvent} {r : Returned}
    (hends : (transceiveStack a (fuel + 2) junk).feed ((blockLayer a).descend
      (device (fuel + 2) junk) (transceiveStart d a)) events = .done (some r)) :
    ∃ r', (nfcIso14443Transceive a).feed (transceiveStart d a) (transceiveAnswers a (fuel + 2) junk
        ((transceiveStack a (fuel + 2) junk).steps ((blockLayer a).descend
          (device (fuel + 2) junk) (transceiveStart d a)) events)) = .done r' ∧
      SameReturned r r' := by
  have hrun := (block_refines d hrx fuel junk).run
    (related_refl sameReturned_refl (transceiveStart d a)) (fun _ hs => waits_start h hs) events
  unfold transceiveStack at hends
  rw [hends] at hrun
  exact hrun

/-- A call of `nfc_iso14443_transceive`, wherever its interrupts have led: no array is left, each
frame goes into the FIFO whole and once, and the call stands or ends where the answers presented by
the chip lead it. -/
theorem transceive_refines (d : Driver) (a : CallArgs) (h : Layered d a) (hrx : a.rxlen < 2 ^ 32)
    (fuel junk : Nat) (events : List IrqEvent) :
    let stack := transceiveStack a (fuel + 2) junk
    let start := (blockLayer a).descend (device (fuel + 2) junk) (transceiveStart d a)
    let answers := transceiveAnswers a (fuel + 2) junk (stack.steps start events)
    (∀ s t, stack.feed start events = .wait (s, t) →
      (nfcIso14443Transceive a).feed (transceiveStart d a) answers = .wait s ∧
      LoadedAtOnce (fuel + 2) junk (nfcIso14443aTransceive (s.query a)) ∧
      ∀ u, t = .sending u → u.written = []) ∧
    (∀ r, stack.feed start events = .done (some r) →
      ∃ r', (nfcIso14443Transceive a).feed (transceiveStart d a) answers = .done r' ∧
        SameReturned r r') ∧
    stack.feed start events ≠ .done none := by
  intro stack start answers
  have hrun := (block_refines d hrx fuel junk).run
    (related_refl sameReturned_refl (transceiveStart d a)) (fun _ hs => waits_start h hs) events
  change Program.Stands _ _ _ _ _ _ (stack.feed start events) at hrun
  refine ⟨fun s t hst => ?_, fun r hr => ?_, fun hnone => ?_⟩
  · rw [hst] at hrun
    obtain ⟨hfeed, -, hunder⟩ := hrun
    exact ⟨hfeed, hunder.loaded, fun u hu => (hunder.sent u hu).2.2⟩
  · rw [hr] at hrun
    exact hrun
  · rw [hnone] at hrun
    exact hrun

-- A block out, TX, then its answer in two drains.
theorem transceive_refines_one_block :
    let a := CallArgs.ofBytes [0x42] 8
    let events := [IrqEvent.irq 0x80 ⟨[], false, by decide⟩,
      .irq 0x20 ⟨[0x02, 0x55], false, by decide⟩, .irq 0x40 ⟨[0x8B, 0x3A], false, by decide⟩]
    ∃ r r', (transceiveStack a 2 0).feed ((blockLayer a).descend (device 2 0)
        (transceiveStart (activated 256) a)) events = .done (some r) ∧
      (nfcIso14443Transceive a).feed (transceiveStart (activated 256) a)
        [.frame [0x02, 0x55, 0x8B, 0x3A]] = .done r' ∧ SameReturned r r' ∧ r.ret = 1 := by
  intro a events
  have hsized : Sized (activated 256) := sized_activated (by decide) (by decide)
  have hrx : a.rxlen < 2 ^ 32 := by decide
  have hrun := transceive_refines (activated 256) a (.inl hsized) hrx 0 0 events
  have hend : ((transceiveStack a 2 0).feed ((blockLayer a).descend (device 2 0)
      (transceiveStart (activated 256) a)) events).result.any
        (fun r => decide (r.map Returned.ret = some 1)) = true := by decide +kernel
  have hanswers : transceiveAnswers a 2 0 ((transceiveStack a 2 0).steps ((blockLayer a).descend
      (device 2 0) (transceiveStart (activated 256) a)) events) =
        [.frame [0x02, 0x55, 0x8B, 0x3A]] := by decide +kernel
  obtain ⟨q, hq, hret⟩ := Status.done_of_result hend
  obtain ⟨r, rfl, hone⟩ := Option.map_eq_some_iff.mp hret
  obtain ⟨r', hr', hsame⟩ := hrun.2.1 r hq
  rw [hanswers] at hr'
  exact ⟨r, r', hq, hr', hsame, hone⟩

theorem settle_same {r r' : Opened} (h : SameOpened r r') : SameOpened r.settle r'.settle := by
  obtain ⟨hret, hsame, hdriver⟩ := h
  refine ⟨hret, fun hzero => by rw [hsame hzero], ?_⟩
  unfold Opened.settle
  dsimp only
  rw [hret]
  by_cases hnonzero : (r'.ret != 0) = true
  · rw [if_pos hnonzero, if_pos hnonzero, hdriver]
  · rw [if_neg hnonzero, if_neg hnonzero, hdriver]

-- An activation that has returned.
theorem open_ends {k : OpenStack} {fuel junk : Nat} {events : List IrqEvent} {st : OpenRun}
    {r : Opened} (hends : (openStack k (fuel + 2) junk).feed (((activationLayer k).map
      Opened.settle).descend (device (fuel + 2) junk) st) events = .done (some r)) :
    ∃ r', (nfcIso14443Open k).feed st (openAnswers k (fuel + 2) junk
        ((openStack k (fuel + 2) junk).steps (((activationLayer k).map Opened.settle).descend
          (device (fuel + 2) junk) st) events)) = .done r' ∧ SameOpened r r' := by
  have hrun := ((open_refines k fuel junk).map (f := Opened.settle)
    fun _ _ => settle_same).run (related_refl sameOpened_refl st) (fun _ _ => trivial) events
  unfold openStack at hends
  rw [hends] at hrun
  exact hrun

/-- An activation, in the same way, on any chip and from any driver. -/
theorem openStack_refines (dev : Device) (k : OpenStack) (d : Driver) (fuel junk : Nat)
    (events : List IrqEvent) :
    let stack := openStack k (fuel + 2) junk
    let start := ((activationLayer k).map Opened.settle).descend (device (fuel + 2) junk)
      (nfcOpenStart dev k d)
    let answers := openAnswers k (fuel + 2) junk (stack.steps start events)
    (∀ s t, stack.feed start events = .wait (s, t) →
      (nfcIso14443Open k).feed (nfcOpenStart dev k d) answers = .wait s ∧
      LoadedAtOnce (fuel + 2) junk s.query ∧ ∀ u, t = .sending u → u.written = []) ∧
    (∀ r, stack.feed start events = .done (some r) →
      ∃ r', (nfcIso14443Open k).feed (nfcOpenStart dev k d) answers = .done r' ∧
        SameOpened r r') ∧
    stack.feed start events ≠ .done none := by
  intro stack start answers
  have hrun := ((open_refines k fuel junk).map (f := Opened.settle)
    fun _ _ => settle_same).run (related_refl sameOpened_refl (nfcOpenStart dev k d))
    (fun _ _ => trivial) events
  change Program.Stands _ _ _ _ _ _ (stack.feed start events) at hrun
  refine ⟨fun s t hst => ?_, fun r hr => ?_, fun hnone => ?_⟩
  · rw [hst] at hrun
    obtain ⟨hfeed, -, hunder⟩ := hrun
    exact ⟨hfeed, hunder.loaded, fun u hu => (hunder.sent u hu).2.2⟩
  · rw [hr] at hrun
    exact hrun
  · rw [hnone] at hrun
    exact hrun

end NfceeFw.Trf797x
