import NfceeFw.Nfc.RuleB

/-!
# Retransmit — what Rule 6/7 sends again

An R(ACK) with the other block number makes the chaining loop send `buffer` once more.  The answers
land in the same `buffer`, so what it holds then is not the block that was sent.
-/

namespace NfceeFw.Nfc

open NfceeFw.Reasoning

/-! ## 1. A chunk and its block -/

/-- The I-block of the chunk that is being sent. -/
def chunkFrame (a : CallArgs) (s : Locals) : List UInt8 :=
  (0x12 ||| s.toggle) :: a.txdata.read s.txOff s.infSize

-- An R(ACK) with the other number arrives while the block awaits its own.
def Resends (a : CallArgs) (s : Locals) (ans : Answer) : Prop :=
  s.site.chaining = true ∧ arrived a s ans isAck = true ∧ current a s ans = false

instance (a : CallArgs) (s : Locals) (ans : Answer) : Decidable (Resends a s ans) :=
  inferInstanceAs (Decidable (_ ∧ _ ∧ _))

-- What a call that has not ended sends next.
def nextFrame (a : CallArgs) : Run → Option (List UInt8)
  | .wait s => some (s.query a).frame
  | .done _ => none

def RepeatsBlock (a : CallArgs) (st : Run) (answers : List Answer) : Prop :=
  ∀ x ∈ (nfcIso14443Transceive a).steps st answers, Resends a x.1 x.2 →
    nextFrame a (x.1.resume a x.2) = some (chunkFrame a x.1)

section

variable (a : CallArgs) (s : Locals) (ans : Answer)

-- The block is sent as such when its chunk is read.
theorem sendBlock_frame {t : Locals} (h : s.sendBlock a = .wait t)
    (hs : t.site.chaining = true) : (t.query a).frame = chunkFrame a t := by
  unfold Locals.sendBlock at h
  split at h
  · cases h
    show ((s.buffer.set 0 (0x12 ||| s.toggle)).write 1 (a.txdata.read s.txOff s.infSize)).read 0
      (s.infSize + 1) = _
    have hread := Mem.read_header_payload s.buffer (0x12 ||| s.toggle)
      (a.txdata.read s.txOff s.infSize)
    rwa [Mem.read_length] at hread
  · cases h
    exact absurd hs Bool.false_ne_true

-- Rule 6/7 sends the buffer with the R(ACK) over its first bytes.
theorem nextFrame_resends (hd : s.site ≠ .direct) (h : Resends a s ans) :
    nextFrame a (s.resume a ans) = some ((s.store a ans).buffer.read 0 (s.infSize + 1)) := by
  obtain ⟨hs, hack, hother⟩ := h
  have hex := resume_exchange a s ans hd
  generalize s.resume a ans = next at hex ⊢
  unfold arrived at hack
  rw [Bool.and_eq_true] at hack
  cases hex with
  | short hi => exact absurd (of_decide_eq_true hack.1) (Int.not_le.mpr hi)
  | wtx hi hw => exact absurd (isAck_of_isWtx _ hw) (by simp [hack.2])
  | noAck hi _ hw hk => exact absurd hk (by simp [hack.2])
  | again => rfl
  | ack hi _ hk ht => exact absurd hother (by simp [current, ht])
  | noIblock hi hs' => exact absurd (hs'.symm.trans hs) Bool.false_ne_true
  | iblock hi hs' => exact absurd (hs'.symm.trans hs) Bool.false_ne_true

-- No R(ACK) starts like a block of the chain.
theorem resent_ne (hd : s.site ≠ .direct) (h : Resends a s ans) :
    nextFrame a (s.resume a ans) ≠ some (chunkFrame a s) := by
  have hack := h.2.1
  unfold arrived at hack
  rw [Bool.and_eq_true] at hack
  rw [nextFrame_resends a s ans hd h, Mem.read_succ]
  intro heq
  have hpcb : (s.store a ans).pcb = 0x12 ||| s.toggle := (List.cons.inj (Option.some.inj heq)).1
  have hnot : isAck (0x12 ||| s.toggle) = false := by
    rcases togglebit_cases s.driver.block with hb | hb <;> rw [Locals.toggle, hb] <;> decide
  rw [hpcb, hnot] at hack
  exact Bool.false_ne_true hack.2

end

/-! ## 2. The block first sent -/

-- The block of the chunk that awaits its R(ACK) is one of `frames`, or the one being sent.
def BlockSent (a : CallArgs) (frames : List (List UInt8)) : Run → Prop
  | .wait s => s.site.chaining = true → chunkFrame a s ∈ frames ++ [(s.query a).frame]
  | .done _ => True

theorem blockSent_sendBlock (a : CallArgs) (s : Locals) (frames : List (List UInt8)) :
    BlockSent a frames (s.sendBlock a) := by
  cases hsend : s.sendBlock a with
  | done r => trivial
  | wait t =>
    intro hs
    rw [sendBlock_frame a s hsend hs]
    exact List.mem_append_right _ (List.mem_singleton_self _)

-- Until it is acknowledged the chunk stays the same, whatever is sent.
theorem blockSent_resume {a : CallArgs} {s : Locals} (ans : Answer) {frames : List (List UInt8)}
    (hd : s.site ≠ .direct) (h : BlockSent a frames (.wait s)) :
    BlockSent a (frames ++ [(s.query a).frame]) (s.resume a ans) := by
  have hex := resume_exchange a s ans hd
  generalize s.resume a ans = next at hex ⊢
  cases hex with
  | short | noAck | noIblock => trivial
  | wtx => exact fun hs => List.mem_append_left _ (h (s.site.chaining_wtx.symm.trans hs))
  | again _ hs => exact fun _ => List.mem_append_left _ (h hs)
  | ack => exact blockSent_sendBlock a _ _
  | iblock =>
    unfold Locals.takeIblock
    split
    · trivial
    · exact fun hs => Bool.noConfusion hs

theorem blockSent_feed {a : CallArgs} {t : Locals} (answers : List Answer) {st : Run}
    {frames : List (List UInt8)} (htcl : Tcl st) (h : BlockSent a frames st)
    (hfeed : (nfcIso14443Transceive a).feed st answers = .wait t) (hs : t.site.chaining = true) :
    chunkFrame a t ∈ frames ++ ((nfcIso14443Transceive a).sent st answers).map Request.frame := by
  induction answers generalizing st frames with
  | nil =>
    rw [Program.feed_nil] at hfeed
    subst hfeed
    exact h hs
  | cons ans answers ih =>
    cases st with
    | done r =>
      rw [Program.feed_done] at hfeed
      cases hfeed
    | wait s =>
      have hrest := ih (tcl_resume a s ans htcl) (blockSent_resume ans htcl h) hfeed
      rwa [List.append_assoc] at hrest

/-- Whenever a chunk awaits its R(ACK), its block is among the frames sent so far. -/
theorem chunkFrame_sent {d : Driver} {a : CallArgs} {t : Locals} (htcl : isTcl d = true)
    (answers : List Answer)
    (hfeed : (nfcIso14443Transceive a).feed (transceiveStart d a) answers = .wait t)
    (hs : t.site.chaining = true) : chunkFrame a t ∈
      ((nfcIso14443Transceive a).sent (transceiveStart d a) answers).map Request.frame := by
  have hstart : BlockSent a [] (transceiveStart d a) := by
    unfold transceiveStart
    rw [htcl]
    exact blockSent_sendBlock a _ _
  exact blockSent_feed answers (tcl_start a htcl) hstart hfeed hs

/-! ## 3. What is left of the block -/

/-- The answers of the chaining loop have three bytes, so that the chunk is intact from its third
byte on. -/
def TailKept (a : CallArgs) : Run → Prop
  | .wait s => Tcl (.wait s) ∧ (s.site.chaining = true →
      ∀ i, 3 ≤ i → i ≤ s.infSize → s.buffer i = a.txdata (s.txOff + (i - 1)))
  | .done _ => True

theorem tailKept_sendBlock (a : CallArgs) (s : Locals) : TailKept a (s.sendBlock a) := by
  unfold Locals.sendBlock
  split
  · refine ⟨Site.noConfusion, fun _ i hlo hhi => ?_⟩
    obtain ⟨j, rfl⟩ := Nat.exists_eq_add_of_le' (show 1 ≤ i by omega)
    show (s.buffer.set 0 _).write 1 (a.txdata.read s.txOff s.infSize) (j + 1) = _
    rw [Nat.add_comm j 1, Mem.write_at _ _ _ _ (by rw [Mem.read_length]; exact hhi),
      Mem.read_getElem, Nat.add_sub_cancel_left]
  · exact ⟨Site.noConfusion, fun hc => Bool.noConfusion hc⟩

theorem tailKept_resume (a : CallArgs) (s : Locals) (ans : Answer) (h : TailKept a (.wait s)) :
    TailKept a (s.resume a ans) := by
  obtain ⟨hd, hkept⟩ := h
  have hex := resume_exchange a s ans hd
  generalize s.resume a ans = next at hex ⊢
  cases hex with
  | short | noAck | noIblock => trivial
  | wtx hi hw =>
    have hsame := s.site.chaining_wtx
    refine ⟨s.site.wtx_ne_direct, fun hs i hlo hhi => ?_⟩
    refine Eq.trans ?_ (hkept (hsame ▸ hs) i hlo hhi)
    show (s.store a ans).buffer.set 1 _ i = _
    rw [Mem.set_other _ _ _ _ (by omega), store_above a s ans (hsame ▸ hs) hi hlo]
  | again hi hs hk ht =>
    refine ⟨Site.noConfusion, fun _ i hlo hhi => ?_⟩
    exact (store_above a s ans hs hi hlo).trans (hkept hs i hlo hhi)
  | ack => exact tailKept_sendBlock a _
  | iblock =>
    unfold Locals.takeIblock
    split
    · trivial
    · exact ⟨Site.noConfusion, fun hc => Bool.noConfusion hc⟩

theorem tailKept_start {d : Driver} (a : CallArgs) (htcl : isTcl d = true) :
    TailKept a (transceiveStart d a) := by
  unfold transceiveStart
  rw [htcl]
  exact tailKept_sendBlock a _

/-- What Rule 6/7 sends: the three bytes of the R(ACK), then the block from its fourth byte on. -/
theorem resent_frame (d : Driver) (a : CallArgs) (hd : Sized d) (hrx : a.rxlen < 2 ^ 32)
    (answers : List Answer) :
    ∀ x ∈ (nfcIso14443Transceive a).steps (transceiveStart d a) answers, Resends a x.1 x.2 →
      nextFrame a (x.1.resume a x.2) = some (x.2.received 3 ++ (chunkFrame a x.1).drop 3) := by
  intro x hx hresend
  have htail := Program.steps_invariant (nfcIso14443Transceive a)
    (fun s ans h => tailKept_resume a s ans h) _ (tailKept_start a hd.tcl) answers x hx
  have hbounds := Program.steps_invariant (nfcIso14443Transceive a)
    (fun s ans h => bounded_resume hrx s ans h) _ (bounded_start a hd.tcl) answers x hx
  have hs := hresend.1
  have hinf : 13 ≤ x.1.infSize := by
    rw [(hbounds.2.1 hs).infSize]
    exact hd.infSizeOf_ge
  have hi : 3 ≤ x.2.ret (x.1.site.rxlen a) := arrived_ge hresend.2.1
  have hroom := Site.rxlen_chaining a hs
  have hlen := x.2.received_length (x.1.site.rxlen a) (by omega)
  rw [hroom] at hi hlen
  have hthree : (x.2.received 3).length = 3 := by omega
  obtain ⟨n, hn⟩ := Nat.exists_eq_add_of_le (show 3 ≤ x.1.infSize + 1 by omega)
  rw [nextFrame_resends a x.1 x.2 htail.1 hresend, hn, Mem.read_add]
  have hhead : (x.1.store a x.2).buffer.read 0 3 = x.2.received 3 := by
    have hread := Mem.read_write_same x.1.buffer 0 (x.2.received 3)
    rw [hthree] at hread
    show (x.1.buffer.write 0 (x.2.received (x.1.site.rxlen a))).read 0 3 = _
    rw [hroom, hread]
  have hrest : (x.1.store a x.2).buffer.read (0 + 3) n = (chunkFrame a x.1).drop 3 := by
    show _ = (a.txdata.read x.1.txOff x.1.infSize).drop 2
    rw [Mem.read_drop, show x.1.infSize - 2 = n by omega]
    apply Mem.read_congr
    intro i hin
    rw [store_above a x.1 x.2 hs (by rw [hroom]; exact hi) (by omega),
      htail.2 hs (0 + 3 + i) (by omega) (by omega)]
    congr 1
    omega
  rw [hhead, hrest]

/-! ## 4. Whole runs -/

/-- Every re-send of Rule 6/7 repeats its block exactly if there is none. -/
theorem repeatsBlock_iff (d : Driver) (a : CallArgs) (htcl : isTcl d = true)
    (answers : List Answer) :
    RepeatsBlock a (transceiveStart d a) answers ↔
      ∀ x ∈ (nfcIso14443Transceive a).steps (transceiveStart d a) answers,
        ¬ Resends a x.1 x.2 := by
  have hsites := Program.steps_invariant (nfcIso14443Transceive a) (I := Tcl)
    (fun s ans h => tcl_resume a s ans h) _ (tcl_start a htcl) answers
  constructor
  · intro h x hx hresend
    exact resent_ne a x.1 x.2 (hsites x hx) hresend (h x hx hresend)
  · intro hnone x hx hresend
    exact absurd hresend (hnone x hx)

-- Two chunks, the first acknowledged after a waiting time extension.
theorem repeatsBlock_extended :
    let a := CallArgs.ofBytes (List.replicate 20 0x07) 8
    RepeatsBlock a (transceiveStart (activated 16) a)
      [.frame [0xF2, 0x01, 0x91], .frame [0xA2, 0xE6, 0xD7]] :=
  (repeatsBlock_iff (activated 16) _ (sized_activated (by decide) (by decide)).tcl _).mpr
    (by decide +kernel)

/-- The card answers the first chunk with the R(ACK) of the block before it: what is sent again
begins with that R(ACK). -/
theorem repeatsBlock_previous_ack :
    let a := CallArgs.ofBytes (List.replicate 20 0x07) 8
    let answers := [Answer.frame [0xA3, 0x6F, 0xC6]]
    isTcl (activated 16) = true ∧
    ((nfcIso14443Transceive a).sent (transceiveStart (activated 16) a) answers).map Request.frame =
      [0x12 :: List.replicate 13 0x07, [0xA3, 0x6F, 0xC6] ++ List.replicate 11 0x07] ∧
    ¬ RepeatsBlock a (transceiveStart (activated 16) a) answers := by
  intro a answers
  have hlength : ((nfcIso14443Transceive a).steps (transceiveStart (activated 16) a)
      answers).length = 1 := by decide +kernel
  have hall : ∀ x ∈ (nfcIso14443Transceive a).steps (transceiveStart (activated 16) a) answers,
      Resends a x.1 x.2 ∧ nextFrame a (x.1.resume a x.2) ≠ some (chunkFrame a x.1) := by
    decide +kernel
  obtain ⟨x, hx⟩ := List.length_eq_one_iff.mp hlength
  have hmem : x ∈ (nfcIso14443Transceive a).steps (transceiveStart (activated 16) a) answers := by
    rw [hx]
    exact List.mem_cons_self ..
  obtain ⟨hresend, hne⟩ := hall x hmem
  exact ⟨by decide +kernel, by decide +kernel, fun h => hne (h x hmem hresend)⟩

end NfceeFw.Nfc
