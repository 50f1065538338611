import NfceeFw.Nfc.RuleB

/-!
# Inf — the INF fields of a response

What a T=CL call copies from the answers to the caller.  The length of a copy is computed in `int`
and compared as `size_t`, so an answer too short for its own header and CRC is the case to watch.
-/

namespace NfceeFw.Nfc

open NfceeFw.Reasoning

/-! ## 1. The copies of a call -/

-- Between the header and the two CRC bytes.
def infField (bytes : List UInt8) : List UInt8 :=
  (bytes.drop (sizeOfHeader (bytes.headD 0))).take
    (bytes.length - sizeOfHeader (bytes.headD 0) - 2)

section

variable (a : CallArgs) (s : Locals) (ans : Answer)

-- An I-block of the response, under the reader's number.
def TakesInf : Prop := s.site.chaining = false ∧ CurrentIblock a s ans

instance : Decidable (TakesInf a s ans) := inferInstanceAs (Decidable (_ ∧ _))

/-- The `memcpy` for an answer in `buffer`: where it starts there, and its length. -/
def copyWindow : Nat × Nat :=
  (sizeOfHeader (s.store a ans).pcb,
    ((s.store a ans).readInf (ans.ret (s.site.rxlen a))).infSize)

/-- Every byte of the copy is in the answer, behind its header and before its CRC. -/
def InsideInf : Prop :=
  ∀ i, (copyWindow a s ans).1 ≤ i → i < (copyWindow a s ans).1 + (copyWindow a s ans).2 →
    (i : Int) < ans.ret (s.site.rxlen a) - 2

-- Nothing is missing of the header and the CRC.
def HoldsCrc : Prop :=
  (sizeOfHeader (s.store a ans).pcb + 2 : Int) ≤ ans.ret (s.site.rxlen a)

instance : Decidable (HoldsCrc a s ans) := inferInstanceAs (Decidable (_ ≤ _))

-- What an exchange should add to the response.
def infOf : List UInt8 :=
  if TakesInf a s ans then infField (ans.received (s.site.rxlen a)) else []

end

-- The copies a call has made into `rxdata`, latest first.
def writesOf : Run → List (Nat × Nat)
  | .wait s => s.writes
  | .done r => r.final.writes

/-- A run copies INF fields and nothing else, and a success returns them in order, cut at
`rxlen`. -/
structure ExtractsInf (a : CallArgs) (st : Run) (answers : List Answer) : Prop where
  copies : ∀ x ∈ (nfcIso14443Transceive a).steps st answers, TakesInf a x.1 x.2 →
    InsideInf a x.1 x.2
  others : ∀ x ∈ (nfcIso14443Transceive a).steps st answers, ¬ TakesInf a x.1 x.2 →
    writesOf (x.1.resume a x.2) = x.1.writes
  result : ∀ r, (nfcIso14443Transceive a).feed st answers = .done r → 0 ≤ r.ret →
    r.final.rxdata.read 0 r.ret.toNat =
      (((nfcIso14443Transceive a).steps st answers).flatMap fun x => infOf a x.1 x.2).take a.rxlen

/-! ## 2. One copy -/

section

variable {a : CallArgs} {s : Locals} {ans : Answer}

theorem not_takesInf_of {p : UInt8 → Bool} (h : p (s.store a ans).pcb = true)
    (hp : ∀ b, p b = true → isIblock b = false) : ¬ TakesInf a s ans := by
  intro ht
  have hb := ht.2.1
  unfold arrived at hb
  rw [hp _ h, Bool.and_false] at hb
  exact Bool.false_ne_true hb

-- The first byte of an answer is what the buffer then starts with.
theorem pcb_store (hi : 3 ≤ ans.ret (s.site.rxlen a)) :
    (s.store a ans).pcb = (ans.received (s.site.rxlen a)).headD 0 := by
  have hlen := (ans.received_length (s.site.rxlen a) (by omega)).1
  cases hrec : ans.received (s.site.rxlen a) with
  | nil =>
    rw [hrec, List.length_nil] at hlen
    omega
  | cons b bs =>
    show (s.buffer.write 0 (ans.received (s.site.rxlen a))) 0 = b
    rw [hrec]
    exact Mem.write_at s.buffer 0 0 (b :: bs) (by simp)

theorem sizeOfHeader_le (pcb : UInt8) : 1 ≤ sizeOfHeader pcb ∧ sizeOfHeader pcb ≤ 3 := by
  unfold sizeOfHeader
  split <;> split <;> omega

theorem copyWindow_length : (copyWindow a s ans).2 = min
    (sizeT (ans.ret (s.site.rxlen a) - sizeOfHeader (s.store a ans).pcb - 2)) s.rxlen := rfl

-- `i - size_of_header - 2` is taken for a length exactly if it is not negative.
theorem insideInf_iff (hret : ans.ret (s.site.rxlen a) < 2 ^ 32)
    (hi : 3 ≤ ans.ret (s.site.rxlen a)) :
    InsideInf a s ans ↔ HoldsCrc a s ans ∨ s.rxlen = 0 := by
  obtain ⟨hlo, hhi⟩ := sizeOfHeader_le (s.store a ans).pcb
  unfold InsideInf HoldsCrc
  rw [copyWindow_length]
  show (∀ i, sizeOfHeader (s.store a ans).pcb ≤ i → _) ↔ _
  constructor
  · intro hall
    by_contra hnot
    have hfirst := hall _ (Nat.le_refl (sizeOfHeader (s.store a ans).pcb)) (by
      have hwrap : 0 < sizeT
          (ans.ret (s.site.rxlen a) - sizeOfHeader (s.store a ans).pcb - 2) := by
        unfold sizeT
        omega
      show _ < sizeOfHeader (s.store a ans).pcb + _
      omega)
    omega
  · intro hcond i hge hlt
    rcases hcond with hcrc | hroom
    · rw [sizeT_of_nonneg (by omega) (by omega)] at hlt
      change i < sizeOfHeader (s.store a ans).pcb + _ at hlt
      omega
    · change i < sizeOfHeader (s.store a ans).pcb + _ at hlt
      omega

-- Then the copied bytes are those of the INF field that still fit.
theorem copied_inf (hret : ans.ret (s.site.rxlen a) < 2 ^ 32)
    (hi : 3 ≤ ans.ret (s.site.rxlen a)) (hcond : HoldsCrc a s ans ∨ s.rxlen = 0) :
    (s.store a ans).buffer.read (copyWindow a s ans).1 (copyWindow a s ans).2 =
      (infField (ans.received (s.site.rxlen a))).take s.rxlen := by
  have hlen := (ans.received_length (s.site.rxlen a) (by omega)).1
  unfold infField
  rw [copyWindow_length, List.take_take, ← pcb_store hi]
  show (s.buffer.write 0 _).read (sizeOfHeader (s.store a ans).pcb) _ = _
  rcases hcond with hcrc | hroom
  · unfold HoldsCrc at hcrc
    rw [sizeT_of_nonneg (by omega) (by omega)]
    have hwindow := Mem.read_write_window s.buffer 0 (sizeOfHeader (s.store a ans).pcb)
      (min (ans.ret (s.site.rxlen a) - sizeOfHeader (s.store a ans).pcb - 2).toNat s.rxlen)
      (ans.received (s.site.rxlen a)) (by omega)
    rw [Nat.zero_add] at hwindow
    rw [hwindow]
    congr 1
    omega
  · rw [hroom, Nat.min_zero, Nat.zero_min]
    rfl

end

/-! ## 3. The response so far -/

/-- `rxdata` holds what has been taken, as far as it fits. -/
structure InfSoFar (a : CallArgs) (got : List UInt8) (s : Locals) : Prop where
  rxOff : s.rxOff = min got.length a.rxlen
  rxlen : s.rxlen = a.rxlen - got.length
  data : s.rxdata.read 0 s.rxOff = got.take a.rxlen

def InfKept (a : CallArgs) (got : List UInt8) : Run → Prop
  | .wait s => Tcl (.wait s) ∧ InfSoFar a got s ∧ (s.site.chaining = true → got = []) ∧
      (s.site.chaining = false → s.received = s.rxOff)
  | .done r => 0 ≤ r.ret → r.final.rxdata.read 0 r.ret.toNat = got.take a.rxlen

theorem infSoFar_readInf {a : CallArgs} {got : List UInt8} {s : Locals} {ans : Answer}
    (h : InfSoFar a got s) (hret : ans.ret (s.site.rxlen a) < 2 ^ 32)
    (hi : 3 ≤ ans.ret (s.site.rxlen a)) (hcond : HoldsCrc a s ans ∨ s.rxlen = 0) :
    InfSoFar a (got ++ infField (ans.received (s.site.rxlen a)))
      ((s.store a ans).readInf (ans.ret (s.site.rxlen a))) := by
  have hcopy := copied_inf hret hi hcond
  have hlen : (copyWindow a s ans).2 =
      min (infField (ans.received (s.site.rxlen a))).length s.rxlen := by
    have hread := congrArg List.length hcopy
    rwa [Mem.read_length, List.length_take, Nat.min_comm] at hread
  have hoff := h.rxOff
  have hroom := h.rxlen
  refine ⟨?_, ?_, ?_⟩
  · show s.rxOff + (copyWindow a s ans).2 = _
    rw [List.length_append]
    omega
  · show s.rxlen - (copyWindow a s ans).2 = _
    rw [List.length_append]
    omega
  · have happend := Mem.read_append_clipped s.rxdata got
      (infField (ans.received (s.site.rxlen a))) a.rxlen (by rw [← hoff]; exact h.data)
    rw [← hoff, ← hroom, ← hcopy] at happend
    rw [← happend]
    show (s.rxdata.write s.rxOff _).read 0 (s.rxOff + (copyWindow a s ans).2) = _
    rw [List.length_append]
    congr 1
    omega

theorem ret_le (ans : Answer) (rxlen : Nat) : ans.ret rxlen ≤ rxlen := by
  cases ans with
  | error code =>
    exact Int.le_trans (Int.le_of_lt (Int.negSucc_lt_zero code)) (Int.natCast_nonneg _)
  | frame bytes =>
    show ((min bytes.length rxlen : Nat) : Int) ≤ rxlen
    omega

-- The loops of a T=CL call ask for 256 bytes at most.
theorem ret_le_maxFrameSize {a : CallArgs} {s : Locals} (hd : s.site ≠ .direct) (ans : Answer) :
    ans.ret (s.site.rxlen a) ≤ maxFrameSize := by
  have hle := ret_le ans (s.site.rxlen a)
  have hsite := (Site.rxlen_bounds a hd).2
  omega

/-! ## 4. One exchange -/

theorem infKept_fail (a : CallArgs) (got : List UInt8) (s : Locals) : InfKept a got s.fail :=
  fun hret => absurd (show (0 : Int) ≤ -eio from hret) (by decide)

theorem infKept_sendLast {a : CallArgs} {got : List UInt8} {s : Locals} (h : InfSoFar a got s)
    (hrec : s.received = s.rxOff) : InfKept a got s.sendLast :=
  ⟨Site.noConfusion, ⟨h.rxOff, h.rxlen, h.data⟩, fun hc => absurd hc Bool.false_ne_true,
    fun _ => hrec⟩

theorem infKept_sendBlock {a : CallArgs} {s : Locals} (h : InfSoFar a [] s) :
    InfKept a [] (s.sendBlock a) := by
  unfold Locals.sendBlock
  split
  · exact ⟨Site.noConfusion, ⟨h.rxOff, h.rxlen, h.data⟩, fun _ => rfl,
      fun hc => Bool.noConfusion hc⟩
  · have hoff := h.rxOff
    rw [List.length_nil, Nat.zero_min] at hoff
    exact infKept_sendLast (InfSoFar.mk h.rxOff h.rxlen h.data) hoff.symm

theorem infKept_takeIblock {a : CallArgs} {got : List UInt8} {s : Locals} {i : Int}
    (hrx : a.rxlen < 2 ^ 32) (h : InfSoFar a got (s.countIblock i))
    (hrec : (s.countIblock i).received = (s.countIblock i).rxOff) :
    InfKept a got (s.takeIblock i) := by
  unfold Locals.takeIblock
  generalize s.countIblock i = t at h hrec ⊢
  split
  · unfold InfKept
    dsimp only
    intro hret
    have hlt : t.received < 2 ^ 32 := by
      have hoff := h.rxOff
      omega
    rw [toInt_of_nonneg hlt hret, Int.toNat_natCast, hrec]
    exact h.data
  · exact infKept_sendLast (InfSoFar.mk h.rxOff h.rxlen h.data) hrec

-- What an answer adds is its INF field, if the copy stays inside it.
theorem infKept_resume {a : CallArgs} (hrx : a.rxlen < 2 ^ 32) {got : List UInt8} {s : Locals}
    {ans : Answer} (h : InfKept a got (.wait s))
    (hcond : TakesInf a s ans → HoldsCrc a s ans ∨ s.rxlen = 0) :
    InfKept a (got ++ infOf a s ans) (s.resume a ans) := by
  obtain ⟨hd, hgot, hnone, hrec⟩ := h
  have hstored : InfSoFar a got (s.store a ans) := ⟨hgot.rxOff, hgot.rxlen, hgot.data⟩
  have hret : ans.ret (s.site.rxlen a) < 2 ^ 32 := by
    have hle := ret_le_maxFrameSize (a := a) hd ans
    unfold maxFrameSize at hle
    omega
  have hex := resume_exchange a s ans hd
  generalize s.resume a ans = next at hex ⊢
  cases hex with
  | short | noAck | noIblock => exact infKept_fail a _ _
  | wtx hi hw =>
    rw [infOf, if_neg (not_takesInf_of hw isIblock_of_isWtx), List.append_nil]
    have hsame := s.site.chaining_wtx
    exact ⟨s.site.wtx_ne_direct, ⟨hgot.rxOff, hgot.rxlen, hgot.data⟩, fun hc => hnone (hsame ▸ hc),
      fun hc => hrec (hsame ▸ hc)⟩
  | again hi hs hk ht =>
    rw [infOf, if_neg (not_takesInf_of hk isIblock_of_isAck), List.append_nil]
    exact ⟨Site.noConfusion, ⟨hgot.rxOff, hgot.rxlen, hgot.data⟩, fun _ => hnone hs,
      fun hc => Bool.noConfusion hc⟩
  | ack hi hs hk ht =>
    rw [infOf, if_neg (not_takesInf_of hk isIblock_of_isAck), List.append_nil, hnone hs]
    rw [hnone hs] at hgot
    exact infKept_sendBlock ⟨hgot.rxOff, hgot.rxlen, hgot.data⟩
  | iblock hi hs hb =>
    have hreceived := hrec hs
    by_cases ht : TakesInf a s ans
    · have hread := infSoFar_readInf hgot hret hi (hcond ht)
      have hcurrent : togglebit (s.store a ans).pcb.toUInt32 == (s.store a ans).toggle := ht.2.2
      have hcount : (s.store a ans).countIblock (ans.ret (s.site.rxlen a)) =
          ((s.store a ans).readInf (ans.ret (s.site.rxlen a))).incBlock := by
        unfold Locals.countIblock
        rw [if_pos hcurrent]
      rw [infOf, if_pos ht]
      apply infKept_takeIblock hrx
      · rw [hcount]
        exact ⟨hread.rxOff, hread.rxlen, hread.data⟩
      · rw [hcount]
        show s.received + _ = s.rxOff + _
        rw [hreceived]
    · have hstale : ¬ (togglebit (s.store a ans).pcb.toUInt32 == (s.store a ans).toggle) = true :=
        fun hc => ht ⟨hs, by simp [arrived, hi, hb], hc⟩
      have hcount : (s.store a ans).countIblock (ans.ret (s.site.rxlen a)) =
          (s.store a ans).incBlock := by
        unfold Locals.countIblock
        rw [if_neg hstale]
      rw [infOf, if_neg ht, List.append_nil]
      apply infKept_takeIblock hrx
      · rw [hcount]
        exact ⟨hstored.rxOff, hstored.rxlen, hstored.data⟩
      · rw [hcount]
        exact hreceived

-- An answer that is not taken leaves the caller's area alone.
theorem writesOf_resume {a : CallArgs} {s : Locals} {ans : Answer} (hd : s.site ≠ .direct)
    (ht : ¬ TakesInf a s ans) : writesOf (s.resume a ans) = s.writes := by
  have hex := resume_exchange a s ans hd
  generalize s.resume a ans = next at hex ⊢
  cases hex with
  | short | noAck | noIblock | wtx | again => rfl
  | ack =>
    unfold Locals.sendBlock
    split
    · rfl
    · rfl
  | iblock hi hs hb =>
    have hstale : ¬ (togglebit (s.store a ans).pcb.toUInt32 == (s.store a ans).toggle) = true :=
      fun hc => ht ⟨hs, by simp [arrived, hi, hb], hc⟩
    unfold Locals.takeIblock Locals.countIblock
    rw [if_neg hstale]
    split
    · rfl
    · rfl

/-! ## 5. Whole runs -/

theorem infKept_start {d : Driver} (a : CallArgs) (htcl : isTcl d = true) :
    InfKept a [] (transceiveStart d a) := by
  unfold transceiveStart
  rw [htcl]
  exact infKept_sendBlock ⟨(Nat.zero_min _).symm, rfl, List.take_nil.symm⟩

/-- A T=CL call returns the INF fields of the current I-blocks and copies nothing else exactly if
each of these blocks holds its header and CRC, or comes when the caller's area is full. -/
theorem extractsInf_iff (d : Driver) (a : CallArgs) (htcl : isTcl d = true)
    (hrx : a.rxlen < 2 ^ 32) (answers : List Answer) :
    ExtractsInf a (transceiveStart d a) answers ↔
      ∀ x ∈ (nfcIso14443Transceive a).steps (transceiveStart d a) answers,
        TakesInf a x.1 x.2 → HoldsCrc a x.1 x.2 ∨ x.1.rxlen = 0 := by
  have hsites := Program.steps_invariant (nfcIso14443Transceive a) (I := Tcl)
    (fun s ans h => tcl_resume a s ans h) _ (tcl_start a htcl) answers
  have hinside : ∀ x ∈ (nfcIso14443Transceive a).steps (transceiveStart d a) answers,
      TakesInf a x.1 x.2 →
        (InsideInf a x.1 x.2 ↔ HoldsCrc a x.1 x.2 ∨ x.1.rxlen = 0) := by
    intro x hx ht
    have hle := ret_le_maxFrameSize (a := a) (hsites x hx) x.2
    unfold maxFrameSize at hle
    exact insideInf_iff (by omega) (arrived_ge ht.2.1)
  constructor
  · intro h x hx ht
    exact (hinside x hx ht).mp (h.copies x hx ht)
  · intro hcond
    refine ⟨fun x hx ht => (hinside x hx ht).mpr (hcond x hx ht),
      fun x hx ht => writesOf_resume (hsites x hx) ht, ?_⟩
    have hrun := Program.history_invariant (nfcIso14443Transceive a)
      (I := fun log st => InfKept a (log.flatMap fun x => infOf a x.1 x.2) st)
      (G := fun s ans => TakesInf a s ans → HoldsCrc a s ans ∨ s.rxlen = 0)
      (fun log s ans hlog hG => by
        rw [List.flatMap_append, List.flatMap_singleton]
        exact infKept_resume hrx hlog hG)
      (transceiveStart d a) (infKept_start a htcl) answers hcond
    intro r hr hret
    rw [hr] at hrun
    exact hrun hret

-- A chained response of two blocks, the second with a CID, into an area it overfills.
theorem extractsInf_two_parts :
    let a := CallArgs.ofBytes [0x42] 3
    ExtractsInf a (transceiveStart (activated 256) a)
      [.frame [0x12, 0x01, 0x02, 0x6A, 0x5B], .frame [0x0B, 0x07, 0x03, 0x04, 0x91, 0x2F]] :=
  (extractsInf_iff (activated 256) _ (sized_activated (by decide) (by decide)).tcl (by decide)
    _).mpr (by decide +kernel)

/-- An I-block of 3 bytes that announces a CID has no room for it and the CRC; the call returns the
8 bytes that the caller has room for, a CRC byte and what the buffer held. -/
theorem extractsInf_short_block :
    let a := CallArgs.ofBytes [0x42] 8
    let answers := [Answer.frame [0x0A, 0x90, 0x3C]]
    isTcl (activated 256) = true ∧
    infField [0x0A, 0x90, 0x3C] = [] ∧
    (∃ r, (nfcIso14443Transceive a).feed (transceiveStart (activated 256) a) answers = .done r ∧
      r.ret = 8 ∧ r.final.rxdata.read 0 8 = [0x3C, 0, 0, 0, 0, 0, 0, 0]) ∧
    ¬ ExtractsInf a (transceiveStart (activated 256) a) answers := by
  intro a answers
  have hrun : ((nfcIso14443Transceive a).feed (transceiveStart (activated 256) a)
      answers).result.any (fun r => decide (r.ret = 8 ∧
        r.final.rxdata.read 0 8 = [0x3C, 0, 0, 0, 0, 0, 0, 0])) = true := by decide +kernel
  have hinf : (((nfcIso14443Transceive a).steps (transceiveStart (activated 256) a)
      answers).flatMap fun x => infOf a x.1 x.2) = [] := by decide +kernel
  obtain ⟨r, hr, hret, hdata⟩ := Status.done_of_result hrun
  refine ⟨by decide +kernel, by decide +kernel, ⟨r, hr, hret, hdata⟩, fun h => ?_⟩
  have hres := h.result r hr (by omega)
  rw [hinf, hret] at hres
  cases hres

end NfceeFw.Nfc
