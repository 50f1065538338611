import NfceeFw.Nfc.Session

/-!
# Reliable — sessions of T=CL calls with a card that keeps to the rules

Over a channel without loss every call succeeds.  Over a lossy one a call is right as long as no
earlier call lost more than a frame of the reader that the card can do without.
-/

namespace NfceeFw.Nfc

open NfceeFw.Reasoning

/-! ## 1. One call -/

-- The failing exchange lost the reader's frame, and that was the first of the call or an R(ACK).
def HarmlessLoss : List (List UInt8 × Loss) → Prop
  | (pcb :: _, .readerFrame) :: earlier => earlier = [] ∨ isAck pcb = true
  | _ => False

instance : DecidablePred HarmlessLoss
  | (_ :: _, .readerFrame) :: _ => inferInstanceAs (Decidable (_ ∨ _))
  | [] | ([], _) :: _ | (_ :: _, .nothing) :: _ | (_ :: _, .cardFrame) :: _ => .isFalse id

section

variable {card : Card} {loss : Nat → Loss} {d : Driver} {a : CallArgs} {air : Air}

/-- Reader, card and log at an open exchange of the call. -/
structure InStep (card : Card) (d : Driver) (a : CallArgs) (air : Air) (m : Nat × Nat) (s : Locals)
    (now : Air) : Prop where
  bounded : Bounded d a (.wait s)
  stage : Stage card a air.picc m s now.picc
  log : ∃ made, now.log = made ++ air.log ∧
    (made = [] → now.picc = air.picc ∧ s.driver.block = d.block)

/-- How the call ends: as it should, or with `-EIO` after a loss. -/
inductive Ended (card : Card) (loss : Nat → Loss) (a : CallArgs) (air : Air) (r : Returned)
    (now : Air) : Prop where
  | finished (h : Finished card a air.picc r now.picc)
  | lost (ret : r.ret = -eio) (fate : ∃ k, loss k ≠ .nothing)
      (synced : ∀ made, now.log = made ++ air.log → HarmlessLoss made →
        Synced r.final.driver now.picc)

-- A frame that is lost on its way to the card changes nothing there: the two are still in sync if
-- the card had not taken a part of the command.
theorem synced_of_harmless {m : Nat × Nat} {s : Locals} {now : Air} (hsync : Synced d air.picc)
    (h : InStep card d a air m s now) {made : List (List UInt8 × Loss)}
    (hmade : ((s.query a).frame, Loss.readerFrame) :: now.log = made ++ air.log)
    (hloss : HarmlessLoss made) : Synced s.driver now.picc := by
  obtain ⟨made', hlog, huntouched⟩ := h.log
  have hcons : made = ((s.query a).frame, Loss.readerFrame) :: made' := by
    rw [hlog, ← List.cons_append] at hmade
    exact (List.append_cancel_right hmade).symm
  -- a first frame that is lost leaves the card as the call found it
  have hfirst : made' = [] → Synced s.driver now.picc := by
    intro hnil
    obtain ⟨hpicc, hblock⟩ := huntouched hnil
    refine ⟨?_, ?_⟩
    · rw [hpicc, hblock]
      exact hsync.number
    · rw [hpicc]
      exact hsync.chain
  obtain ⟨pcb, inf, hframe, hack⟩ := h.stage.frame
  rw [hcons, hframe] at hloss
  rcases hloss with hnil | hisAck
  · exact hfirst hnil
  · exact ⟨(hack hisAck).1, (hack hisAck).2⟩

-- One exchange of a call, over the channel.
theorem inStep_exchange (hsz : Sized d) (hrx : a.rxlen < 2 ^ 32) (hsync : Synced d air.picc)
    {m : Nat × Nat} {s : Locals} {now : Air} (h : InStep card d a air m s now) :
    let reply := (channel card loss).respond now (s.query a)
    (∃ r, s.resume a reply.1 = .done r ∧ Ended card loss a air r reply.2) ∨
    (∃ m' s', s.resume a reply.1 = .wait s' ∧ Prod.Lex (· < ·) (· < ·) m' m ∧
      InStep card d a air m' s' reply.2) := by
  obtain ⟨made, hlog, -⟩ := h.log
  have hd := h.bounded.1
  have hshort : (Answer.error 0).ret (s.site.rxlen a) < 3 := by
    show Int.negSucc 0 < 3
    decide
  unfold channel
  dsimp only
  cases hfate : loss now.log.length with
  | nothing =>
    obtain ⟨blk, p', hreceive, hadvance⟩ := stage_exchange hsz h.bounded h.stage
    rw [hreceive]
    dsimp only
    rcases hadvance with ⟨r, hdone, hfin⟩ | ⟨m', s', hnext, hstage, hlt⟩
    · exact .inl ⟨r, hdone, .finished hfin⟩
    · refine .inr ⟨m', s', hnext, hlt, ?_, hstage, ?_⟩
      · rw [← hnext]
        exact bounded_resume hrx s _ h.bounded
      · refine ⟨((s.query a).frame, .nothing) :: made, ?_, by simp⟩
        rw [hlog, List.cons_append]
  | readerFrame =>
    left
    dsimp only
    rw [resume_short a s _ hd hshort]
    refine ⟨_, rfl, .lost rfl ⟨_, by rw [hfate]; decide⟩ fun made' hmade hloss => ?_⟩
    have hafter : Synced s.driver now.picc := synced_of_harmless hsync h hmade hloss
    exact hafter
  | cardFrame =>
    left
    dsimp only
    rw [resume_short a s _ hd hshort]
    refine ⟨_, rfl, .lost rfl ⟨_, by rw [hfate]; decide⟩ fun made' hmade hloss => ?_⟩
    rw [hlog, ← List.cons_append] at hmade
    rw [← List.append_cancel_right hmade] at hloss
    cases hframe : (s.query a).frame <;> rw [hframe] at hloss <;> exact absurd hloss id

-- A call made in sync ends, and ends as `Ended` says.
theorem call_ends (card : Card) (loss : Nat → Loss) (a : CallArgs) (hsz : Sized d)
    (hrx : a.rxlen < 2 ^ 32) (hsync : Synced d air.picc) :
    ∃ n r now, (nfcIso14443Transceive a).play (channel card loss) n (transceiveStart d a) air =
      (.done r, now) ∧ Ended card loss a air r now := by
  have hready : ReadyBounds d a (Locals.entry d a) :=
    ⟨rfl, Nat.zero_add _, rfl, rfl, rfl, rfl, rfl⟩
  have htaken : Taken a air.picc 0 air.picc := ⟨hsync.chain, rfl, by simp⟩
  obtain ⟨s, hsend, hdriver, hstage⟩ : ∃ s, (Locals.entry d a).sendBlock a = .wait s ∧
      s.driver = d ∧ Stage card a air.picc _ s air.picc :=
    stage_sendBlock hready hsync.number htaken
  have hstart : transceiveStart d a = .wait s := by
    unfold transceiveStart
    rw [hsz.tcl]
    exact hsend
  have hinit : InStep card d a air
      (2 * a.txlen + 2 * (response card a air.picc).parts.length + 2, 0) s air := by
    refine ⟨?_, hstage, [], rfl, fun _ => ⟨rfl, ?_⟩⟩
    · rw [← hstart]
      exact bounded_start a hsz.tcl
    · rw [hdriver]
  rw [hstart]
  exact Program.play_terminates _ _ (Prod.lex Nat.lt_wfRel Nat.lt_wfRel).wf
    (I := InStep card d a air) (fun m s now h => inStep_exchange hsz hrx hsync h) _ s air hinit

end

/-! ## 2. Sessions -/

theorem channel_log (card : Card) (loss : Nat → Loss) (air : Air) (q : Request) :
    ((channel card loss).respond air q).2.log = (q.frame, loss air.log.length) :: air.log := by
  unfold channel
  dsimp only
  cases loss air.log.length with
  | nothing => cases (air.picc.receive card q.frame).1 <;> rfl
  | readerFrame => rfl
  | cardFrame => rfl

-- What a call exchanged over the channel, latest first.
def CallRecord.exchanges (c : CallRecord) : List (List UInt8 × Loss) :=
  c.after.log.take (c.after.log.length - c.air.log.length)

section

variable {card : Card} {loss : Nat → Loss} {d : Driver} {a : CallArgs} {air now : Air} {n : Nat}
  {r : Returned}

theorem play_log (hplay : (nfcIso14443Transceive a).play (channel card loss) n (transceiveStart d a)
    air = (.done r, now)) : ∃ made, now.log = made ++ air.log := by
  have hlog := Program.play_invariant (nfcIso14443Transceive a) (channel card loss)
    (I := fun _ e => ∃ made, e.log = made ++ air.log)
    (fun s e ⟨made, h⟩ => ⟨_ :: made, by rw [channel_log, h, List.cons_append]⟩)
    n (transceiveStart d a) air ⟨[], rfl⟩
  rwa [hplay] at hlog

-- The sizes that bound a call also bound the next one.
theorem play_sized (hsz : Sized d) (hplay : (nfcIso14443Transceive a).play (channel card loss) n
    (transceiveStart d a) air = (.done r, now)) : Sized r.final.driver := by
  have hkeeps := Program.play_invariant (nfcIso14443Transceive a) (channel card loss)
    (I := fun st _ => KeepsDriver d st) (fun s e h => keepsDriver_resume a s _ h)
    n (transceiveStart d a) air (keepsDriver_start d a)
  rw [hplay] at hkeeps
  have hdriver : r.final.driver = { d with block := r.final.driver.block } := hkeeps
  rw [hdriver]
  exact ⟨hsz.tcl, hsz.fsd, hsz.fscLo, hsz.fscHi⟩

theorem play_ended (hsz : Sized d) (hrx : a.rxlen < 2 ^ 32) (hsync : Synced d air.picc)
    (hplay : (nfcIso14443Transceive a).play (channel card loss) n (transceiveStart d a) air =
      (.done r, now)) : Ended card loss a air r now := by
  obtain ⟨n', r', now', hplay', hended⟩ := call_ends card loss a hsz hrx hsync
  obtain ⟨hr, hnow⟩ := Program.play_unique _ _ hplay hplay'
  rwa [hr, hnow]

end

theorem Finished.delivered {card : Card} {c : CallRecord}
    (h : Finished card c.args c.air.picc c.returned c.after.picc) (hrx : c.args.rxlen < 2 ^ 32)
    (hret : 0 ≤ c.returned.ret) : Delivered card c := by
  have hvalue : c.returned.ret =
      (min (response card c.args c.air.picc).bytes.length c.args.rxlen : Nat) := by
    rw [h.ret] at hret ⊢
    exact toInt_of_nonneg (by omega) hret
  refine ⟨h.commands, h.heard, hvalue, ?_, ?_⟩
  · rw [hvalue, Int.toNat_natCast]
    exact h.rxdata
  · rw [hvalue, Int.toNat_natCast]
    exact h.kept

theorem synced_selected {d : Driver} (h : d.block = 0) : Synced d Picc.selected := by
  refine ⟨?_, rfl⟩
  rw [h]
  rfl

-- Over a channel without loss the calls of a session all end, and all succeed.
theorem lossless_session_from (card : Card) (calls : List CallArgs)
    (hrx : ∀ a ∈ calls, a.rxlen < 2 ^ 31) (d : Driver) (air : Air) (hsz : Sized d)
    (hsync : Synced d air.picc) :
    ∃ cs, cs.map CallRecord.args = calls ∧ Session card (fun _ => .nothing) d air cs ∧
      ∀ c ∈ cs, Delivered card c := by
  induction calls generalizing d air with
  | nil => exact ⟨[], rfl, trivial, by simp⟩
  | cons a calls ih =>
    have harx := hrx a (List.mem_cons_self ..)
    obtain ⟨n, r, now, hplay, hended⟩ :=
      call_ends card (fun _ => .nothing) a hsz (by omega) hsync
    cases hended with
    | lost ret fate =>
      obtain ⟨k, hk⟩ := fate
      exact absurd rfl hk
    | finished hfin =>
      obtain ⟨cs, hargs, hsession, hdelivered⟩ := ih (fun b hb => hrx b (List.mem_cons_of_mem _ hb))
        r.final.driver now (play_sized hsz hplay) hfin.synced
      refine ⟨⟨a, d, air, r, now⟩ :: cs, ?_, ?_, ?_⟩
      · rw [List.map_cons, hargs]
      · exact ⟨rfl, rfl, ⟨n, hplay⟩, hsession⟩
      · intro c hc
        rcases List.mem_cons.mp hc with rfl | hc
        · refine Finished.delivered hfin (show a.rxlen < 2 ^ 32 by omega) ?_
          show 0 ≤ r.ret
          rw [hfin.ret, toInt_of_lt (by omega)]
          omega
        · exact hdelivered c hc

/-- Reliable exchange: from a fresh selection, any number of calls with any data, cut and delayed by
the card as it likes. -/
theorem session_reliable (card : Card) (d : Driver) (hsz : Sized d) (hblock : d.block = 0)
    (calls : List CallArgs) (hrx : ∀ a ∈ calls, a.rxlen < 2 ^ 31) :
    ∃ cs, cs.map CallRecord.args = calls ∧
      Session card (fun _ => .nothing) d ⟨Picc.selected, []⟩ cs ∧ ∀ c ∈ cs, Delivered card c :=
  lossless_session_from card calls hrx d _ hsz (synced_selected hblock)

-- 14 bytes do not fit one block under an FSC of 16
def twoCalls : List CallArgs :=
  [CallArgs.ofBytes (List.replicate 14 0x07) 64, CallArgs.ofBytes [0x42] 64]

theorem session_reliable_two_calls :
    ∃ cs, cs.map CallRecord.args = twoCalls ∧
      Session Card.echo (fun _ => .nothing) (activated 16) ⟨Picc.selected, []⟩ cs ∧
      ∀ c ∈ cs, Delivered Card.echo c :=
  session_reliable Card.echo (activated 16) (sized_activated (by decide) (by decide)) rfl twoCalls
    (by decide)

-- A call leaves the two in sync if it succeeds, or fails by a loss that does no harm.
theorem Ended.synced {card : Card} {loss : Nat → Loss} {a : CallArgs} {air now : Air} {r : Returned}
    (h : Ended card loss a air r now) {made : List (List UInt8 × Loss)}
    (hlog : now.log = made ++ air.log) (hharmless : r.ret < 0 → HarmlessLoss made) :
    Synced r.final.driver now.picc := by
  cases h with
  | finished hfin => exact hfin.synced
  | lost ret fate hsynced => exact hsynced made hlog (hharmless (by rw [ret]; decide))

section

variable {card : Card} {loss : Nat → Loss} {d : Driver} {air : Air} {cs pre post : List CallRecord}
  {c e : CallRecord}

-- A call of a session is a run of its own, under the sizes of the first.
theorem session_mem (hsz : Sized d) (h : Session card loss d air cs) (hc : c ∈ cs) :
    Sized c.driver ∧ ∃ n, (nfcIso14443Transceive c.args).play (channel card loss) n
      (transceiveStart c.driver c.args) c.air = (.done c.returned, c.after) := by
  induction cs generalizing d air with
  | nil => cases hc
  | cons f fs ih =>
    obtain ⟨rfl, rfl, ⟨n, hplay⟩, hrest⟩ := h
    rcases List.mem_cons.mp hc with rfl | hc
    · exact ⟨hsz, n, hplay⟩
    · exact ih (play_sized hsz hplay) hrest hc

-- It starts where the one before it has left.
theorem session_next (h : Session card loss d air (pre ++ c :: e :: post)) :
    e.driver = c.returned.final.driver ∧ e.air = c.after := by
  induction pre generalizing d air with
  | nil => exact ⟨h.2.2.2.1, h.2.2.2.2.1⟩
  | cons f pre ih => exact ih h.2.2.2

theorem play_exchanges {n : Nat} (hplay : (nfcIso14443Transceive c.args).play (channel card loss) n
    (transceiveStart c.driver c.args) c.air = (.done c.returned, c.after)) :
    c.after.log = c.exchanges ++ c.air.log := by
  obtain ⟨made, hlog⟩ := play_log hplay
  unfold CallRecord.exchanges
  rw [hlog, List.length_append, Nat.add_sub_cancel, List.take_left]

/-- A call that finds the two in sync and succeeds is right. -/
theorem synced_delivered (hsz : Sized d) (h : Session card loss d air cs) (hc : c ∈ cs)
    (hrx : c.args.rxlen < 2 ^ 32) (hsync : Synced c.driver c.air.picc)
    (hret : 0 ≤ c.returned.ret) : Delivered card c := by
  obtain ⟨hcsz, n, hplay⟩ := session_mem hsz h hc
  cases play_ended hcsz hrx hsync hplay with
  | finished hfin => exact hfin.delivered hrx hret
  | lost ret => exact absurd (ret ▸ hret) (by decide)

/-- It leaves them so for the next one unless it fails by a loss that matters. -/
theorem synced_next (hsz : Sized d) (h : Session card loss d air (pre ++ c :: e :: post))
    (hrx : c.args.rxlen < 2 ^ 32) (hsync : Synced c.driver c.air.picc)
    (hloss : c.returned.ret < 0 → HarmlessLoss c.exchanges) : Synced e.driver e.air.picc := by
  obtain ⟨hcsz, n, hplay⟩ := session_mem hsz h (c := c) (by simp)
  obtain ⟨hdriver, hair⟩ := session_next h
  rw [hdriver, hair]
  exact (play_ended hcsz hrx hsync hplay).synced (play_exchanges hplay) hloss

theorem lossy_session_from (hsz : Sized d) (hsync : Synced d air.picc)
    (hsession : Session card loss d air (pre ++ c :: post))
    (hrx : ∀ e ∈ pre ++ c :: post, e.args.rxlen < 2 ^ 32)
    (hpre : ∀ e ∈ pre, e.returned.ret < 0 → HarmlessLoss e.exchanges)
    (hret : 0 ≤ c.returned.ret) : Delivered card c := by
  induction pre generalizing d air with
  | nil =>
    have hstart : Synced c.driver c.air.picc := by
      rw [hsession.1, hsession.2.1]
      exact hsync
    exact synced_delivered hsz hsession (by simp) (hrx c (by simp)) hstart hret
  | cons e pre ih =>
    obtain ⟨rfl, rfl, ⟨n, hplay⟩, hrest⟩ := hsession
    have hended := play_ended hsz (hrx e (by simp)) hsync hplay
    refine ih (play_sized hsz hplay) (hended.synced (play_exchanges hplay) ?_) hrest ?_ ?_
    · exact hpre e (List.mem_cons_self ..)
    · intro f hf
      exact hrx f (List.mem_cons_of_mem _ hf)
    · intro f hf
      exact hpre f (List.mem_cons_of_mem _ hf)

end

/-- Whatever was lost before: a call that finds reader and card in sync and succeeds is right, its
own command was delivered, and its bytes are those of the response to it.  They are in sync at
first, and stay so over a call that succeeds, or loses no more than a first frame or an R(ACK) of
the reader. -/
theorem session_no_mixup (card : Card) (loss : Nat → Loss) (d : Driver) (hsz : Sized d)
    (hblock : d.block = 0) (cs : List CallRecord)
    (hsession : Session card loss d ⟨Picc.selected, []⟩ cs)
    (hrx : ∀ c ∈ cs, c.args.rxlen < 2 ^ 32) :
    (∀ c ∈ cs, Synced c.driver c.air.picc → 0 ≤ c.returned.ret → Delivered card c) ∧
    (∀ c ∈ cs.head?, Synced c.driver c.air.picc) ∧
    ∀ pre c e post, cs = pre ++ c :: e :: post → Synced c.driver c.air.picc →
      (c.returned.ret < 0 → HarmlessLoss c.exchanges) → Synced e.driver e.air.picc := by
  refine ⟨?_, ?_, ?_⟩
  · intro c hc hsync hret
    exact synced_delivered hsz hsession hc (hrx c hc) hsync hret
  · cases cs with
    | nil =>
      intro c hc
      cases hc
    | cons f fs =>
      intro c hc
      obtain rfl : f = c := Option.some.inj hc
      rw [hsession.1, hsession.2.1]
      exact synced_selected hblock
  · rintro pre c e post rfl hsync hloss
    exact synced_next hsz hsession (hrx c (by simp)) hsync hloss

/-- What becomes of the exchange with number `k`, all others being carried. -/
def losesAt (k : Nat) (fate : Loss) (i : Nat) : Loss := if i = k then fate else .nothing

-- A card that sends the first 93 bytes of a command back in one block.
def Card.short : Card where
  respond _ command :=
    { parts := [command.take 93]
      nonempty := by simp
      fits := by
        intro part hpart
        rw [List.mem_singleton.mp hpart, show announcedFsd 127 = 96 by decide]
        have hlen : (command.take 93).length ≤ 93 := List.length_take_le _ _
        omega }
  wtx _ := []
  epd := Card.echo.epd

def callsUnder (card : Card) (loss : Nat → Loss) (calls : List CallArgs) :
    Option (List CallRecord) :=
  runSession card loss 16 (activated 16) ⟨Picc.selected, []⟩ calls

-- The answers of the first two calls are lost: the third is right.
theorem session_no_mixup_two_losses :
    ∃ cs, Session Card.short (fun k => if k < 2 then .cardFrame else .nothing) (activated 16)
        ⟨Picc.selected, []⟩ cs ∧
      ∃ c₁ c₂ c₃, cs = [c₁, c₂, c₃] ∧ c₁.returned.ret < 0 ∧ c₂.returned.ret < 0 ∧
        Delivered Card.short c₃ := by
  have hrun : (callsUnder Card.short (fun k => if k < 2 then .cardFrame else .nothing)
      (List.replicate 3 (CallArgs.ofBytes [0x42] 64))).any (fun cs => decide (cs.length = 3 ∧
        (∀ c ∈ cs.take 2, c.returned.ret < 0) ∧ (∀ c ∈ cs, c.args.rxlen < 2 ^ 32) ∧
        ∀ c ∈ cs.drop 2, 0 ≤ c.returned.ret ∧
          c.air.picc.number = togglebit c.driver.block ^^^ 1 ∧ c.air.picc.chain = [])) = true := by
    decide +kernel
  obtain ⟨cs, hcs, hany⟩ := (Option.any_eq_true ..).mp hrun
  have hsession := runSession_session hcs
  clear hcs hrun
  obtain ⟨hlen, hlost, hrx, hlast⟩ := of_decide_eq_true hany
  obtain ⟨c₁, c₂, c₃, rfl⟩ := List.length_eq_three.mp hlen
  obtain ⟨hret, hnumber, hchain⟩ := hlast c₃ (List.mem_cons_self ..)
  obtain ⟨hright, -, -⟩ := session_no_mixup Card.short _ _
    (sized_activated (by decide) (by decide)) rfl _ hsession hrx
  exact ⟨_, hsession, c₁, c₂, c₃, rfl, hlost c₁ (by simp), hlost c₂ (by simp),
    hright c₃ (by simp) ⟨hnumber, hchain⟩ hret⟩

/-- The last block of a chained command is lost: its first 13 bytes are still at the card, and go to
the application ahead of the next command, whose call succeeds.  Or an answer is lost: the next
call takes the answer to its own command for a block of the wrong number, and returns no bytes. -/
theorem session_mixup :
    Sized (activated 16) ∧ (activated 16).block = 0 ∧
    (∃ cs, Session Card.echo (losesAt 1 .readerFrame) (activated 16) ⟨Picc.selected, []⟩ cs ∧
      ∃ c ∈ cs, 0 ≤ c.returned.ret ∧ c.command = [0x42] ∧
        c.after.picc.commands = [List.replicate 13 0x07 ++ [0x42]] ∧ ¬ Delivered Card.echo c) ∧
    ∃ cs, Session Card.short (losesAt 0 .cardFrame) (activated 16) ⟨Picc.selected, []⟩ cs ∧
      ∃ c ∈ cs, c.returned.ret = 0 ∧ (Card.short.respond 1 c.command).bytes = [0x42] ∧
        ¬ Delivered Card.short c := by
  refine ⟨sized_activated (by decide) (by decide), rfl, ?_, ?_⟩
  · have hrun : (callsUnder Card.echo (losesAt 1 .readerFrame) twoCalls).any (fun cs =>
        cs.any fun c => decide (0 ≤ c.returned.ret ∧ c.command = [0x42] ∧
          c.air.picc.commands = [] ∧
          c.after.picc.commands = [List.replicate 13 0x07 ++ [0x42]])) = true := by
      decide +kernel
    obtain ⟨cs, hcs, hany⟩ := (Option.any_eq_true ..).mp hrun
    obtain ⟨c, hc, hfacts⟩ := List.any_eq_true.mp hany
    obtain ⟨hret, hcommand, hbefore, hafter⟩ := of_decide_eq_true hfacts
    refine ⟨cs, runSession_session hcs, c, hc, hret, hcommand, hafter, fun hdelivered => ?_⟩
    have hwrong := hdelivered.command
    rw [hafter, hbefore, hcommand] at hwrong
    exact absurd hwrong (by decide)
  · have hrun : (callsUnder Card.short (losesAt 0 .cardFrame)
        (List.replicate 2 (CallArgs.ofBytes [0x42] 64))).any (fun cs => cs.any fun c =>
          decide (c.returned.ret = 0 ∧ c.command = [0x42] ∧ c.args.rxlen = 64)) = true := by
      decide +kernel
    obtain ⟨cs, hcs, hany⟩ := (Option.any_eq_true ..).mp hrun
    obtain ⟨c, hc, hfacts⟩ := List.any_eq_true.mp hany
    obtain ⟨hret, hcommand, hrxlen⟩ := of_decide_eq_true hfacts
    refine ⟨cs, runSession_session hcs, c, hc, hret, ?_, fun hdelivered => ?_⟩
    · rw [hcommand]
      decide
    · have hbytes : (Card.short.respond c.air.picc.commands.length [0x42]).bytes = [0x42] := rfl
      have hwrong := hdelivered.ret
      rw [hret, hcommand, hrxlen, hbytes] at hwrong
      exact absurd hwrong (by decide)

end NfceeFw.Nfc
