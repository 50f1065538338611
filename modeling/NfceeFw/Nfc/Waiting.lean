import NfceeFw.Nfc.Inf
import NfceeFw.Reasoning.Insertion

/-!
# Waiting — S(WTX) requests that a card inserts

A waiting time extension is answered out of the buffer that also holds the pending block or the
R(ACK).  What it overwrites there is overwritten again by the answer it put off.
-/

namespace NfceeFw.Nfc

open NfceeFw.Reasoning

/-! ## 1. Requests, replies, and what a call leaves -/

/-- A request for more time, of at least three bytes. -/
def WtxRequest : Answer → Prop
  | .frame (pcb :: _ :: _ :: _) => pcb = 0xF2
  | _ => False

instance : DecidablePred WtxRequest
  | .error _ | .frame [] | .frame [_] | .frame [_, _] => inferInstanceAs (Decidable False)
  | .frame (pcb :: _ :: _ :: _) => inferInstanceAs (Decidable (pcb = 0xF2))

-- An I-block has room for its header and CRC.
def HoldsBlock : Answer → Prop
  | .error _ => True
  | .frame bytes =>
    isIblock (bytes.headD 0) = true → sizeOfHeader (bytes.headD 0) + 2 ≤ bytes.length

instance : DecidablePred HoldsBlock
  | .error _ => inferInstanceAs (Decidable True)
  | .frame bytes => inferInstanceAs (Decidable (isIblock (bytes.headD 0) = true → _ ≤ bytes.length))

/-- A frame and how long its answer is waited for. -/
def Request.timed (q : Request) : List UInt8 × UInt32 := (q.frame, q.timeout)

/-- The reply to a request. -/
def wtxReply (fwt : UInt32) : Answer → List UInt8 × UInt32
  | .frame (_ :: wtxm :: _) => ([0xF2, wtxm &&& 0x3F], fwt * (wtxm &&& 0x3F).toUInt32)
  | _ => ([], 0)

/-- The returned value, if there is one yet, `rxdata`, and `driver->block`. -/
def effectOf : Run → Option Int × Mem UInt8 × UInt32
  | .wait s => (none, s.rxdata, s.driver.block)
  | .done r => (some r.ret, r.final.rxdata, r.final.driver.block)

/-! ## 2. The two runs -/

/-- At an open call: nothing differs but bytes of `buffer` that the call does not send and, once the
response is awaited, the answer does not leave. -/
structure SameCall (d : Driver) (a : CallArgs) (s t : Locals) : Prop where
  driver : KeepsDriver d (.wait s)
  tcl : Tcl (.wait s)
  rest : t = { s with buffer := t.buffer }
  chain : s.site.chaining = true → t.buffer = s.buffer
  sent : ∀ i, i < (s.query a).txlen → t.buffer i = s.buffer i

/-- Some requests later: of a pending block, all but the bytes of the last request. -/
structure HeldOff (d : Driver) (s t : Locals) : Prop where
  driver : KeepsDriver d (.wait s)
  tcl : Tcl (.wait s)
  rest : t = { s with buffer := t.buffer, site := t.site }
  site : t.site ≠ .direct ∧ t.site.chaining = s.site.chaining
  chain : s.site.chaining = true → ∀ i, 3 ≤ i → t.buffer i = s.buffer i

def SameEnd (r q : Returned) : Prop := effectOf (.done r) = effectOf (.done q)

abbrev SameRun (d : Driver) (a : CallArgs) : Run → Run → Prop :=
  Status.Related (SameCall d a) SameEnd

theorem sameRun_refl {d : Driver} (a : CallArgs) {st : Run} (hd : KeepsDriver d st) (ht : Tcl st) :
    SameRun d a st st := by
  cases st with
  | wait s => exact ⟨hd, ht, rfl, fun _ => rfl, fun _ _ => rfl⟩
  | done r => exact rfl

theorem SameCall.heldOff {d : Driver} {a : CallArgs} {s t : Locals} (h : SameCall d a s t) :
    HeldOff d s t := by
  have hsite : t.site = s.site := by rw [h.rest]
  refine ⟨h.driver, h.tcl, ?_, ?_, fun hs i _ => by rw [h.chain hs]⟩
  · rw [hsite]
    exact h.rest
  · rw [hsite]
    exact ⟨h.tcl, rfl⟩

theorem SameCall.timed {d : Driver} {a : CallArgs} {s t : Locals} (h : SameCall d a s t) :
    (t.query a).timed = (s.query a).timed := by
  have hsent := h.sent
  have htcl : s.site ≠ .direct := h.tcl
  have hread : ∀ n, (∀ i, i < n → t.buffer i = s.buffer i) →
      t.buffer.read 0 n = s.buffer.read 0 n := by
    intro n hn
    apply Mem.read_congr
    intro i hi
    rw [Nat.zero_add, hn i hi]
  rw [h.rest]
  unfold Request.timed Request.frame Locals.query at *
  dsimp only at *
  cases hs : s.site with
  | direct => exact absurd hs htcl
  | chain | last =>
    rw [hs] at hsent
    dsimp only at *
    rw [hread _ hsent]
  | chainWtx | lastWtx =>
    rw [hs] at hsent
    dsimp only at *
    rw [hread _ hsent, hsent 1 (by decide)]

/-! ## 3. One exchange -/

-- The room for an answer is three bytes at least, so the start of a request is stored.
theorem store_request (a : CallArgs) {t : Locals} (htcl : t.site ≠ .direct) (pcb wtxm crc : UInt8)
    (rest : List UInt8) :
    3 ≤ (Answer.frame (pcb :: wtxm :: crc :: rest)).ret (t.site.rxlen a) ∧
    (t.store a (.frame (pcb :: wtxm :: crc :: rest))).buffer 0 = pcb ∧
    (t.store a (.frame (pcb :: wtxm :: crc :: rest))).buffer 1 = wtxm := by
  have hroom := (Site.rxlen_bounds a htcl).1
  obtain ⟨n, hn⟩ := Nat.exists_eq_add_of_le' hroom
  have hstored : (t.store a (.frame (pcb :: wtxm :: crc :: rest))).buffer =
      t.buffer.write 0 (pcb :: wtxm :: crc :: rest.take n) := by
    show t.buffer.write 0 ((pcb :: wtxm :: crc :: rest).take (t.site.rxlen a)) = _
    rw [hn]
    rfl
  refine ⟨?_, ?_, ?_⟩
  · show (3 : Int) ≤ (min (rest.length + 3) (t.site.rxlen a) : Nat)
    omega
  · rw [hstored]
    exact Mem.write_at t.buffer 0 0 (pcb :: wtxm :: crc :: rest.take n) (by simp)
  · rw [hstored]
    exact Mem.write_at t.buffer 0 1 (pcb :: wtxm :: crc :: rest.take n) (by simp)

-- The reply is built over the request, of which it keeps the first byte.
theorem replyWtx_timed {a : CallArgs} {t : Locals} {site : Site} (htcl : site ≠ .direct)
    (hpcb : t.buffer 0 = 0xF2) :
    (Locals.query a { t with
      buffer := t.buffer.set 1 (t.buffer 1 &&& 0x3F), site := site.wtx }).timed =
      ([0xF2, t.buffer 1 &&& 0x3F], t.driver.fwt * (t.buffer 1 &&& 0x3F).toUInt32) := by
  have hframe : (t.buffer.set 1 (t.buffer 1 &&& 0x3F)).read 0 2 =
      [0xF2, t.buffer 1 &&& 0x3F] := by
    rw [Mem.read_succ, Mem.read_succ, Mem.read_zero, Mem.set_other _ _ _ _ (by decide), hpcb,
      Nat.zero_add, Mem.set_same]
  unfold Request.timed Request.frame Locals.query
  cases site with
  | direct => exact absurd rfl htcl
  | _ =>
    dsimp only [Site.wtx]
    rw [hframe, Mem.set_same]

-- A request for more time leads from one wait to another, whatever is pending.
theorem heldOff_pad {d : Driver} {a : CallArgs} {s t : Locals} {ans : Answer}
    (h : HeldOff d s t) (hpad : WtxRequest ans) :
    ∃ t', t.resume a ans = .wait t' ∧ HeldOff d s t' ∧
      (t'.query a).timed = wtxReply d.fwt ans := by
  match ans, hpad with
  | .frame (pcb :: wtxm :: crc :: rest), hpcb =>
    change pcb = 0xF2 at hpcb
    subst hpcb
    obtain ⟨htcl, hsame⟩ := h.site
    have hfwt : t.driver.fwt = d.fwt := by
      have hd : s.driver = { d with block := s.driver.block } := h.driver
      rw [h.rest, hd]
    obtain ⟨hi, hzero, hone⟩ := store_request a htcl 0xF2 wtxm crc rest
    have hw : isWtx (t.store a (.frame (0xF2 :: wtxm :: crc :: rest))).pcb = true := by
      rw [Locals.pcb, hzero]
      decide
    refine ⟨_, resume_wtx a t _ htcl hi hw, ⟨h.driver, h.tcl, ?_, ?_, ?_⟩, ?_⟩
    · rw [h.rest]
      rfl
    · exact ⟨t.site.wtx_ne_direct, t.site.chaining_wtx.trans hsame⟩
    · intro hs i hlo
      show (t.store a _).buffer.set 1 _ i = _
      rw [Mem.set_other _ _ _ _ (by omega), store_above a t _ (hsame.trans hs) hi hlo,
        h.chain hs i hlo]
    · rw [replyWtx_timed htcl hzero, hone]
      show (_, t.driver.fwt * _) = _
      rw [hfwt]
      rfl

-- The site matters to the chaining loop only in what a failed call leaves behind.
theorem afterChain_site (a : CallArgs) (u : Locals) (x : Site) :
    u.afterChain a = u.fail ∧ Locals.afterChain a { u with site := x } =
        Locals.fail { u with site := x } ∨
      Locals.afterChain a { u with site := x } = u.afterChain a := by
  have hnext : Locals.sendBlock a (Locals.nextChunk { u with site := x }) =
      u.nextChunk.sendBlock a := by
    show Locals.sendBlock a { u.nextChunk with site := x } = _
    unfold Locals.sendBlock
    dsimp only
    by_cases hmore : u.nextChunk.infSize < u.nextChunk.txlen
    · rw [if_pos hmore, if_pos hmore]
      rfl
    · rw [if_neg hmore, if_neg hmore]
      rfl
  unfold Locals.afterChain
  rw [hnext, show Locals.pcb { u with site := x } = u.pcb from rfl,
    show Locals.toggle { u with site := x } = u.toggle from rfl]
  cases isWtx u.pcb with
  | true => exact .inr rfl
  | false =>
    cases isAck u.pcb with
    | false => exact .inl ⟨rfl, rfl⟩
    | true =>
      cases togglebit u.pcb.toUInt32 != u.toggle with
      | true => exact .inr rfl
      | false => exact .inr rfl

-- In the chaining loop the answer restores the buffer.
theorem heldOff_chain {d : Driver} {a : CallArgs} {s t : Locals} {ans : Answer}
    (h : HeldOff d s t) (hs : s.site.chaining = true) :
    SameRun d a (s.resume a ans) (t.resume a ans) := by
  have ht : t.site.chaining = true := h.site.2.trans hs
  have hroom : t.site.rxlen a = s.site.rxlen a := by
    rw [Site.rxlen_chaining a hs, Site.rxlen_chaining a ht]
  rw [resume_chaining a t ans ht, hroom]
  by_cases hi : ans.ret (s.site.rxlen a) < 3
  · rw [resume_chaining a s ans hs, if_pos hi, if_pos hi, h.rest]
    exact rfl
  have hstored : t.store a ans = { s.store a ans with site := t.site } := by
    have hbuffer : t.buffer.write 0 (ans.received (s.site.rxlen a)) =
        s.buffer.write 0 (ans.received (s.site.rxlen a)) := by
      have hlen := ans.received_length (s.site.rxlen a) (by omega)
      funext i
      by_cases hlo : i < (ans.received (s.site.rxlen a)).length
      · have hat := fun m : Mem UInt8 => Mem.write_at m 0 i (ans.received (s.site.rxlen a)) hlo
        simp only [Nat.zero_add] at hat
        rw [hat, hat]
      · rw [Mem.write_above _ _ _ _ (by omega), Mem.write_above _ _ _ _ (by omega),
          h.chain hs i (by omega)]
    unfold Locals.store
    rw [hroom, hbuffer]
    conv_lhs => rw [h.rest]
  rcases afterChain_site a (s.store a ans) t.site with ⟨hfail, hfail'⟩ | hsame
  · rw [resume_chaining a s ans hs, if_neg hi, if_neg hi, hstored, hfail, hfail']
    exact rfl
  · have hres := resume_chaining a s ans hs
    rw [if_neg hi] at hres
    rw [if_neg hi, hstored, hsame, ← hres]
    exact sameRun_refl a (keepsDriver_resume a s ans h.driver) (tcl_resume a s ans h.tcl)

section

variable {u : Locals} {i : Int} {b : Mem UInt8} {x : Site}

-- The copy of an INF field sees the answer alone.
theorem countIblock_agree (hagree : ∀ j : Nat, (j : Int) < i → b j = u.buffer j)
    (hi : 3 ≤ i) (hlt : i < 2 ^ 32) (hcrc : (sizeOfHeader u.pcb + 2 : Int) ≤ i) :
    Locals.countIblock { u with buffer := b, site := x } i =
      { u.countIblock i with buffer := b, site := x } := by
  have hpcb : Locals.pcb { u with buffer := b, site := x } = u.pcb := hagree 0 (by omega)
  have hread : b.read (sizeOfHeader u.pcb) (min (sizeT (i - sizeOfHeader u.pcb - 2)) u.rxlen) =
      u.buffer.read (sizeOfHeader u.pcb)
        (min (sizeT (i - sizeOfHeader u.pcb - 2)) u.rxlen) := by
    apply Mem.read_congr
    intro j hj
    rw [sizeT_of_nonneg (by omega) (by omega)] at hj
    exact hagree _ (by omega)
  have hinf : Locals.readInf { u with buffer := b, site := x } i =
      { u.readInf i with buffer := b, site := x } := by
    unfold Locals.readInf
    dsimp only
    rw [hpcb, hread]
  unfold Locals.countIblock
  rw [hpcb, hinf, show Locals.toggle { u with buffer := b, site := x } = u.toggle from rfl]
  by_cases hcurrent : (togglebit u.pcb.toUInt32 == u.toggle) = true
  · rw [if_pos hcurrent, if_pos hcurrent]
    rfl
  · rw [if_neg hcurrent, if_neg hcurrent]
    rfl

-- Awaiting the response, the code past an answer reads no other byte of the buffer.
theorem afterLast_agree {d : Driver} {a : CallArgs} (hd : KeepsDriver d (u.afterLast i))
    (hagree : ∀ j : Nat, (j : Int) < i → b j = u.buffer j) (hi : 3 ≤ i) (hlt : i < 2 ^ 32)
    (hcrc : isIblock u.pcb = true → (sizeOfHeader u.pcb + 2 : Int) ≤ i) :
    SameRun d a (u.afterLast i) (Locals.afterLast { u with buffer := b, site := x } i) := by
  have hpcb : Locals.pcb { u with buffer := b, site := x } = u.pcb := hagree 0 (by omega)
  unfold Locals.afterLast at hd ⊢
  rw [hpcb]
  cases hw : isWtx u.pcb with
  | true =>
    rw [hw] at hd
    refine ⟨hd, Site.noConfusion, ?_, fun hs => Bool.noConfusion hs, fun j hj => ?_⟩
    · rfl
    · change j < 2 at hj
      show b.set 1 (b 1 &&& 0x3F) j = u.buffer.set 1 (u.buffer 1 &&& 0x3F) j
      by_cases hone : j = 1
      · rw [hone, Mem.set_same, Mem.set_same, hagree 1 (by omega)]
      · rw [Mem.set_other _ _ _ _ hone, Mem.set_other _ _ _ _ hone, hagree j (by omega)]
  | false =>
    cases hb : isIblock u.pcb with
    | false => exact rfl
    | true =>
      rw [hw, hb] at hd
      show SameRun d a (u.takeIblock i) (Locals.takeIblock { u with buffer := b, site := x } i)
      change KeepsDriver d (u.takeIblock i) at hd
      unfold Locals.takeIblock at hd ⊢
      rw [hpcb, countIblock_agree hagree hi hlt (hcrc hb)]
      by_cases hend : (u.pcb &&& 0x10 == 0) = true
      · rw [if_pos hend, if_pos hend]
        exact rfl
      · rw [if_neg hend] at hd
        rw [if_neg hend, if_neg hend]
        refine ⟨hd, Site.noConfusion, rfl, fun hs => Bool.noConfusion hs, fun j hj => ?_⟩
        have hzero : j = 0 := Nat.lt_one_iff.mp hj
        subst hzero
        show (b.set 0 0xA2).set 0 ((b.set 0 0xA2) 0 ||| (u.countIblock i).toggle) 0 =
          ((u.countIblock i).buffer.set 0 0xA2).set 0
            (((u.countIblock i).buffer.set 0 0xA2) 0 ||| (u.countIblock i).toggle) 0
        rw [Mem.set_same, Mem.set_same, Mem.set_same, Mem.set_same]

end

theorem heldOff_last {d : Driver} {a : CallArgs} {s t : Locals} {ans : Answer}
    (h : HeldOff d s t) (hs : s.site.chaining = false) (hans : HoldsBlock ans) :
    SameRun d a (s.resume a ans) (t.resume a ans) := by
  have ht : t.site.chaining = false := h.site.2.trans hs
  have hroom := Site.rxlen_waiting a h.tcl hs
  have hroom' := Site.rxlen_waiting a h.site.1 ht
  rw [resume_last a t ans h.site.1 ht, hroom']
  have hres := resume_last a s ans h.tcl hs
  have hkeeps := keepsDriver_resume a s ans h.driver
  rw [hres, hroom] at hkeeps
  rw [hres, hroom]
  by_cases hi : ans.ret maxFrameSize < 3
  · rw [if_pos hi, if_pos hi, h.rest]
    exact rfl
  rw [if_neg hi] at hkeeps
  rw [if_neg hi, if_neg hi]
  have hge := Int.not_lt.mp hi
  have hle : ans.ret maxFrameSize ≤ 256 := ret_le ans maxFrameSize
  have hlen := ans.received_length maxFrameSize (by omega)
  have hstored : t.store a ans = { s.store a ans with
      buffer := t.buffer.write 0 (ans.received maxFrameSize), site := t.site } := by
    unfold Locals.store
    rw [hroom']
    conv_lhs => rw [h.rest]
  rw [hstored]
  apply afterLast_agree hkeeps _ hge (by omega)
  · intro hb
    rw [pcb_store (by rw [hroom]; exact hge), hroom] at hb ⊢
    cases ans with
    | error code =>
      have hneg : Int.negSucc code < 3 := Int.lt_trans (Int.negSucc_lt_zero code) (by decide)
      exact absurd hge (Int.not_le.mpr hneg)
    | frame bytes =>
      have hhead : (bytes.take maxFrameSize).headD 0 = bytes.headD 0 := by cases bytes <;> rfl
      rw [Answer.received_frame, hhead] at hb ⊢
      have hbytes := hans hb
      have hsmall := (sizeOfHeader_le (bytes.headD 0)).2
      show _ ≤ ((min bytes.length 256 : Nat) : Int)
      omega
  · intro j hj
    show _ = s.buffer.write 0 (ans.received (s.site.rxlen a)) j
    have hat := fun m : Mem UInt8 => Mem.write_at m 0 j (ans.received maxFrameSize) (by omega)
    simp only [Nat.zero_add] at hat
    rw [hroom, hat, hat]

/-! ## 4. Whole runs -/

theorem transceive_transparent (d : Driver) (a : CallArgs) :
    Program.Transparent (nfcIso14443Transceive a) Request.timed (SameCall d a) (HeldOff d) SameEnd
      WtxRequest HoldsBlock (wtxReply d.fwt) where
  call _ _ h := h.timed
  within _ _ h := h.heldOff
  pad _ _ _ h hpad := heldOff_pad h hpad
  answer s _ _ h hans := by
    cases hs : s.site.chaining with
    | true => exact heldOff_chain h hs
    | false => exact heldOff_last h hs hans

theorem effectOf_eq {d : Driver} {a : CallArgs} {st st' : Run} (h : SameRun d a st st') :
    effectOf st' = effectOf st := by
  cases st with
  | done r =>
    cases st' with
    | done q => exact Eq.symm h
    | wait t => exact h.elim
  | wait s =>
    cases st' with
    | done q => exact h.elim
    | wait t =>
      have hrest := SameCall.rest h
      rw [hrest]
      rfl

/-- Requests for more time, in any number before any answer, leave a T=CL call's result, the bytes
it writes, its block numbers and its frames as they are; each is followed by its reply. -/
theorem wtx_transparent (d : Driver) (a : CallArgs) (htcl : isTcl d = true)
    (answers : List (List Answer × Answer))
    (hanswers : ∀ x ∈ answers, (∀ w ∈ x.1, WtxRequest w) ∧ HoldsBlock x.2) :
    let p := nfcIso14443Transceive a
    let start := transceiveStart d a
    effectOf (p.feed start (padded answers)) = effectOf (p.feed start (answers.map Prod.snd)) ∧
    (p.sent start (padded answers)).map Request.timed =
      weave ((p.sent start (answers.map Prod.snd)).map Request.timed)
        (answers.map fun x => x.1.map (wtxReply d.fwt)) := by
  have hstart := sameRun_refl a (keepsDriver_start d a) (tcl_start a htcl)
  have hrun := (transceive_transparent d a).run answers hanswers hstart
  exact ⟨effectOf_eq hrun.1, hrun.2⟩

-- A chained command with a request before its R(ACK), and two before the response.
theorem wtx_transparent_two_blocks :
    let p := nfcIso14443Transceive (CallArgs.ofBytes (List.replicate 20 0x07) 8)
    let start := transceiveStart (activated 16) (CallArgs.ofBytes (List.replicate 20 0x07) 8)
    let answers := [([Answer.frame [0xF2, 0x41, 0x91]], Answer.frame [0xA2, 0xE6, 0xD7]),
      ([.frame [0xF2, 0x02, 0x0A, 0x55], .frame [0xF2, 0x3F, 0x00]],
        .frame [0x03, 0x90, 0x00, 0x5D, 0x71])]
    effectOf (p.feed start (padded answers)) = effectOf (p.feed start (answers.map Prod.snd)) ∧
    (p.sent start (padded answers)).map Request.timed =
      weave ((p.sent start (answers.map Prod.snd)).map Request.timed)
        (answers.map fun x => x.1.map (wtxReply 80)) :=
  wtx_transparent (activated 16) _ (sized_activated (by decide) (by decide)).tcl _
    (by decide +kernel)

end NfceeFw.Nfc
