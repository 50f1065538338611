import NfceeFw.Nfc.Reliable
import NfceeFw.Trf797x.Refinement

/-!
# Sessions — calls to a card, from the application down to the interrupts

`Reliable` is about the block protocol over a channel, `Refinement` about the block protocol over
the chip.  Here are the two together: a card, the channel to it, the chip that presents what comes
over the channel in any portions, and `nfc_iso14443_transceive` down to the driver's loops.
-/

namespace NfceeFw.Trf797x

open NfceeFw.Reasoning NfceeFw.Nfc

/-! ## 1. Calls over the chip -/

-- The channel does not say why it has lost a frame, and the block protocol does not ask.
def plainAnswer : Answer → Answer
  | .error _ => .error 0
  | .frame f => .frame f

/-- A call that has returned: its arguments, what it found, the events that the chip and the clock
have made of it, and what it left. -/
structure ChipCall where
  args : CallArgs
  driver : Driver
  air : Air
  events : List IrqEvent
  returned : Returned
  after : Air

def ChipCall.record (c : ChipCall) : CallRecord :=
  ⟨c.args, c.driver, c.air, c.returned, c.after⟩

section

variable (card : Card) (loss : Nat → Loss) (fuel junk : Nat)

def ChipCall.start (c : ChipCall) : Status (Locals × TransceiveAt) (Option Returned) :=
  (blockLayer c.args).descend (device fuel junk) (transceiveStart c.driver c.args)

-- What the chip has presented, exchange by exchange.
def ChipCall.answers (c : ChipCall) : List Answer :=
  (transceiveAnswers c.args fuel junk
    ((transceiveStack c.args fuel junk).steps (c.start fuel junk) c.events)).map plainAnswer

/-- The events end the call, and what they present is what comes over the channel. -/
structure ChipCall.Made (c : ChipCall) : Prop where
  ends : (transceiveStack c.args fuel junk).feed (c.start fuel junk) c.events =
    .done (some c.returned)
  hears : (nfcIso14443Transceive c.args).Hears (channel card loss)
    (transceiveStart c.driver c.args) c.air (c.answers fuel junk) c.after

-- Calls made one after the other on the open driver.
def ChipSession : Driver → Air → List ChipCall → Prop
  | _, _, [] => True
  | d, air, c :: cs =>
    c.driver = d ∧ c.air = air ∧ c.Made card loss fuel junk ∧
      ChipSession c.returned.final.driver c.after cs

/-- The same call of the block protocol, on the answers. -/
def ChipCall.above (c : ChipCall) : CallRecord :=
  { c.record with
    returned := ((nfcIso14443Transceive c.args).feed (transceiveStart c.driver c.args)
      (c.answers fuel junk)).result.getD c.returned }

end

/-! ## 2. One call -/

theorem resume_plain (a : CallArgs) {s : Locals} (hd : s.site ≠ .direct) (ans : Answer) :
    s.resume a (plainAnswer ans) = s.resume a ans := by
  cases ans with
  | frame f => rfl
  | error n =>
    have hshort : ∀ k, (Answer.error k).ret (s.site.rxlen a) < 3 := by
      intro k
      show Int.negSucc k < 3
      omega
    show s.resume a (.error 0) = _
    rw [resume_short a s _ hd (hshort 0), resume_short a s _ hd (hshort n)]
    rfl

theorem feed_plain {d : Driver} {a : CallArgs} (htcl : isTcl d = true) (hrx : a.rxlen < 2 ^ 32)
    (answers : List Answer) :
    (nfcIso14443Transceive a).feed (transceiveStart d a) (answers.map plainAnswer) =
      (nfcIso14443Transceive a).feed (transceiveStart d a) answers :=
  Program.feed_translated (nfcIso14443Transceive a) (fun s ans h => bounded_resume hrx s ans h)
    (fun _ ans h => resume_plain a h.1 ans) (bounded_start a htcl) answers

section

variable {card : Card} {loss : Nat → Loss} {fuel junk : Nat} {c : ChipCall}

/-- What the block protocol has returned is what the stack has returned. -/
theorem above_same (hsz : Sized c.driver) (hrx : c.args.rxlen < 2 ^ 32)
    (h : c.Made card loss (fuel + 2) junk) :
    SameReturned c.returned (c.above (fuel + 2) junk).returned ∧
      (nfcIso14443Transceive c.args).play (channel card loss) (c.answers (fuel + 2) junk).length
        (transceiveStart c.driver c.args) c.air =
          (.done (c.above (fuel + 2) junk).returned, c.after) := by
  obtain ⟨r, hfeed, hsame⟩ := transceive_ends (.inl hsz) hrx h.ends
  have hplain : (nfcIso14443Transceive c.args).feed (transceiveStart c.driver c.args)
      (c.answers (fuel + 2) junk) = .done r := (feed_plain hsz.tcl hrx _).trans hfeed
  have hreturned : (c.above (fuel + 2) junk).returned = r := by
    show (Status.result _).getD _ = r
    rw [hplain]
    rfl
  have hplay := h.hears.play
  rw [hplain] at hplay
  rw [hreturned]
  exact ⟨hsame, hplay⟩

theorem SameReturned.driver {r r' : Returned} (h : SameReturned r r') :
    r.final.driver = r'.final.driver := by
  rw [h.final]

/-- The same to the caller, but for the code of a failure. -/
structure Alike (r r' : Returned) : Prop where
  driver : r.final.driver = r'.final.driver
  fails : r.ret < 0 ↔ r'.ret < 0
  ret : 0 ≤ r.ret → r.ret = r'.ret
  rxdata : 0 ≤ r.ret → r.final.rxdata = r'.final.rxdata

theorem alike_refl (r : Returned) : Alike r r := ⟨rfl, Iff.rfl, fun _ => rfl, fun _ => rfl⟩

theorem Alike.trans {r r' r'' : Returned} (h : Alike r r') (h' : Alike r' r'') : Alike r r'' where
  driver := h.driver.trans h'.driver
  fails := h.fails.trans h'.fails
  ret hret := (h.ret hret).trans (h'.ret (h.ret hret ▸ hret))
  rxdata hret := (h.rxdata hret).trans (h'.rxdata (h.ret hret ▸ hret))

theorem SameReturned.alike {r r' : Returned} (h : SameReturned r r') : Alike r r' where
  driver := h.driver
  fails := by rw [h.ret]
  ret _ := h.ret
  rxdata hret := h.rxdata (.inl hret)

theorem Alike.delivered {e : CallRecord} {r : Returned} (h : Alike e.returned r)
    (hret : 0 ≤ e.returned.ret) (hdelivered : Delivered card { e with returned := r }) :
    Delivered card e where
  command := hdelivered.command
  heard := hdelivered.heard
  ret := (h.ret hret).trans hdelivered.ret
  rxdata := by
    rw [h.rxdata hret, h.ret hret]
    exact hdelivered.rxdata
  kept i hi := by
    rw [h.rxdata hret]
    exact hdelivered.kept i (h.ret hret ▸ hi)

-- Only a pass-through call returns the error of its exchange.
theorem exchange_plain (a : CallArgs) (s : Locals) (ans : Answer) :
    (s.resume a ans).Related Eq Alike (s.resume a (plainAnswer ans)) := by
  by_cases hd : s.site = .direct
  · cases ans with
    | frame f => exact related_refl alike_refl _
    | error code =>
      have hneg : ∀ n, (Answer.error n).ret a.rxlen < 0 := fun n => Int.negSucc_lt_zero n
      unfold plainAnswer Locals.resume
      rw [hd]
      exact ⟨rfl, iff_of_true (hneg code) (hneg 0), fun h => absurd (hneg code) (Int.not_lt.mpr h),
        fun _ => rfl⟩
  · rw [resume_plain a hd]
    exact related_refl alike_refl _

end

/-! ## 3. Sessions -/

section

variable {card : Card} {loss : Nat → Loss} {fuel junk : Nat}

theorem chipSession_above {cs : List ChipCall} {d : Driver} {air : Air} (hsz : Sized d)
    (hrx : ∀ c ∈ cs, c.args.rxlen < 2 ^ 32) (h : ChipSession card loss (fuel + 2) junk d air cs) :
    Session card loss d air (cs.map (ChipCall.above (fuel + 2) junk)) ∧
      ∀ c ∈ cs, SameReturned c.returned (c.above (fuel + 2) junk).returned := by
  induction cs generalizing d air with
  | nil => exact ⟨trivial, List.forall_mem_nil _⟩
  | cons c cs ih =>
    obtain ⟨rfl, rfl, hmade, hrest⟩ := h
    obtain ⟨hsame, hplay⟩ := above_same hsz (hrx c (List.mem_cons_self ..)) hmade
    rw [hsame.driver] at hrest
    obtain ⟨hsession, hall⟩ :=
      ih (play_sized hsz hplay) (fun e he => hrx e (List.mem_cons_of_mem _ he)) hrest
    exact ⟨⟨rfl, rfl, ⟨_, hplay⟩, hsession⟩, List.forall_mem_cons.mpr ⟨hsame, hall⟩⟩

-- Over a channel without loss no call fails.
theorem session_returns {cs : List CallRecord} {d : Driver} {air : Air} (hsz : Sized d)
    (hsync : Nfc.Synced d air.picc) (hloss : ∀ k, loss k = .nothing)
    (hrx : ∀ c ∈ cs, c.args.rxlen < 2 ^ 31) (h : Session card loss d air cs) :
    ∀ c ∈ cs, Delivered card c := by
  induction cs generalizing d air with
  | nil => exact List.forall_mem_nil _
  | cons c cs ih =>
    obtain ⟨rfl, rfl, ⟨n, hplay⟩, hrest⟩ := h
    have hroom := hrx c (List.mem_cons_self ..)
    cases play_ended hsz (by omega) hsync hplay with
    | lost ret fate =>
      obtain ⟨k, hk⟩ := fate
      exact absurd (hloss k) hk
    | finished hfin =>
      have hret : 0 ≤ c.returned.ret := by
        rw [hfin.ret, toInt_of_lt (by omega)]
        omega
      refine List.forall_mem_cons.mpr ⟨hfin.delivered (by omega) hret, ?_⟩
      exact ih (play_sized hsz hplay) hfin.synced
        (fun e he => hrx e (List.mem_cons_of_mem _ he)) hrest

end

/-- A card behind a channel, a chip that presents its frames in any portions: a call that succeeds
has delivered its command and returns the bytes of the response to it, as long as the calls that
have failed before it lost no more than a first frame or an R(ACK) of the reader. -/
theorem chipSession_right (card : Card) (loss : Nat → Loss) (d : Driver) (hsz : Sized d)
    (hblock : d.block = 0) (fuel junk : Nat) (pre post : List ChipCall) (c : ChipCall)
    (hsession : ChipSession card loss (fuel + 2) junk d ⟨Picc.selected, []⟩ (pre ++ c :: post))
    (hrx : ∀ e ∈ pre ++ c :: post, e.args.rxlen < 2 ^ 32)
    (hpre : ∀ e ∈ pre, e.returned.ret < 0 → HarmlessLoss e.record.exchanges)
    (hret : 0 ≤ c.returned.ret) : Delivered card c.record := by
  obtain ⟨habove, hsame⟩ := chipSession_above hsz hrx hsession
  have hc : SameReturned c.returned (c.above (fuel + 2) junk).returned := hsame c (by simp)
  rw [List.map_append, List.map_cons] at habove
  have hdelivered : Delivered card (c.above (fuel + 2) junk) := by
    refine lossy_session_from hsz (synced_selected hblock) habove ?_ ?_ (hc.ret ▸ hret)
    · intro e he
      rw [← List.map_cons, ← List.map_append] at he
      obtain ⟨e', he', rfl⟩ := List.mem_map.mp he
      exact hrx e' he'
    · intro e he hneg
      obtain ⟨e', he', rfl⟩ := List.mem_map.mp he
      have hret' := (hsame e' (List.mem_append_left _ he')).ret
      exact hpre e' he' (hret' ▸ hneg)
  exact hc.alike.delivered hret hdelivered

-- A frame of up to 127 bytes in one portion; a lost one is a time limit.
def presents : Answer → List IrqEvent
  | .error _ => [.irq irqStatusTx .empty, .timeout]
  | .frame f =>
    if h : f.length ≤ trf797xFifoSize then
      [.irq irqStatusTx .empty, .irq irqStatusSrx ⟨f, false, h⟩]
    else []

/-- The session of given calls, each with at most `n` exchanges. -/
def runChipSession (card : Card) (loss : Nat → Loss) (fuel junk n : Nat) :
    Driver → Air → List CallArgs → Option (List ChipCall)
  | _, _, [] => some []
  | d, air, a :: as =>
    let start := transceiveStart d a
    let heard := (nfcIso14443Transceive a).heard (channel card loss) n start air
    let after := ((nfcIso14443Transceive a).play (channel card loss) n start air).2
    let events := heard.flatMap presents
    match (transceiveStack a fuel junk).feed ((blockLayer a).descend (device fuel junk) start)
        events with
    | .done (some r) =>
      let c : ChipCall := ⟨a, d, air, events, r, after⟩
      if c.answers fuel junk = heard then
        (runChipSession card loss fuel junk n r.final.driver after as).map (c :: ·)
      else none
    | _ => none

theorem runChipSession_session {card : Card} {loss : Nat → Loss} {fuel junk n : Nat}
    {as : List CallArgs} {d : Driver} {air : Air} {cs : List ChipCall}
    (h : runChipSession card loss fuel junk n d air as = some cs) :
    ChipSession card loss fuel junk d air cs := by
  induction as generalizing d air cs with
  | nil =>
    cases h
    trivial
  | cons a as ih =>
    rw [runChipSession] at h
    split at h
    · rename_i r hends
      dsimp only at h
      split at h
      · rename_i hanswers
        obtain ⟨rest, hrest, rfl⟩ := Option.map_eq_some_iff.mp h
        refine ⟨rfl, rfl, ⟨hends, ?_⟩, ih hrest⟩
        rw [hanswers]
        exact Program.hears_heard _ _ _ _ _
      · cases h
    · cases h

-- Two calls, of which the first loses its first frame.
theorem chipSession_right_first_frame :
    ∃ cs, ChipSession Card.echo (losesAt 0 .readerFrame) 2 0 (activated 16)
        ⟨Picc.selected, []⟩ cs ∧
      ∃ c₁ c₂, cs = [c₁, c₂] ∧ c₁.returned.ret < 0 ∧ Delivered Card.echo c₂.record := by
  have hrun : (runChipSession Card.echo (losesAt 0 .readerFrame) 2 0 16 (activated 16)
      ⟨Picc.selected, []⟩ twoCalls).any (fun cs => decide (cs.length = 2 ∧
        (∀ c ∈ cs.take 1, c.returned.ret < 0 ∧ HarmlessLoss c.record.exchanges) ∧
        (∀ c ∈ cs.drop 1, 0 ≤ c.returned.ret) ∧ ∀ c ∈ cs, c.args.rxlen < 2 ^ 32)) = true := by
    decide +kernel
  obtain ⟨cs, hcs, hany⟩ := (Option.any_eq_true ..).mp hrun
  have hsession := runChipSession_session hcs
  clear hcs hrun
  obtain ⟨hlen, hlost, hret, hrx⟩ := of_decide_eq_true hany
  obtain ⟨c₁, c₂, rfl⟩ := List.length_eq_two.mp hlen
  obtain ⟨hneg, hharmless⟩ := hlost c₁ (List.mem_cons_self ..)
  refine ⟨_, hsession, c₁, c₂, rfl, hneg, ?_⟩
  refine chipSession_right Card.echo _ _ (sized_activated (by decide) (by decide)) rfl 0 0 [c₁] []
    c₂ hsession hrx ?_ (hret c₂ (List.mem_cons_self ..))
  intro e he _
  rw [List.mem_singleton.mp he]
  exact hharmless

/-! ## 4. A chip that raises its interrupts one by one -/

/-- The interrupts of an exchange, each alone in the status register: TX, then any number of FIFO
interrupts and SRX, at which the FIFO holds the portions of the frame.  Without a frame: TX and the
time limit. -/
inductive OneByOne : Answer → List IrqEvent → Prop
  | lost (atTx : Fifo) : OneByOne (.error 0) [.irq irqStatusTx atTx, .timeout]
  | frame (f : List UInt8) (atTx : Fifo) (portions : List Fifo) (last : Fifo)
      (whole : portions.flatMap Fifo.content ++ last.content = f) : OneByOne (.frame f)
      (.irq irqStatusTx atTx :: portions.map (.irq irqStatusFifo) ++ [.irq irqStatusSrx last])

/-- A way to present all that may come over the air, the answer to the `i`-th exchange included. -/
structure Presentation where
  events : Nat → Answer → List IrqEvent
  oneByOne : ∀ i ans, plainAnswer ans = ans → OneByOne ans (events i ans)

/-- The events of some exchanges, from the `i`-th on. -/
def Presentation.shows (chip : Presentation) : Nat → List Answer → List (List IrqEvent)
  | _, [] => []
  | i, ans :: rest => chip.events i ans :: chip.shows (i + 1) rest

-- The events of a call are those by which the chip presents its answers.
def ChipCall.ShownBy (fuel junk : Nat) (chip : Presentation) (c : ChipCall) : Prop :=
  c.events = (chip.shows c.air.log.length (c.answers fuel junk)).flatten

-- A FIFO interrupt for each byte.
def Presentation.bytewise : Presentation where
  events _
    | .error _ => [.irq irqStatusTx .empty, .timeout]
    | .frame f => .irq irqStatusTx .empty ::
        (f.map fun b => ⟨[b], false, show 1 ≤ 127 by decide⟩).map (.irq irqStatusFifo) ++
          [.irq irqStatusSrx .empty]
  oneByOne _ ans hplain := by
    cases ans with
    | error k =>
      cases hplain
      exact .lost _
    | frame f =>
      refine .frame f _ _ _ ?_
      rw [List.flatMap_map]
      exact (List.append_nil _).trans (List.flatMap_singleton' f)

theorem shows_oneByOne (chip : Presentation) (i : Nat) {answers : List Answer}
    (hplain : ∀ ans ∈ answers, plainAnswer ans = ans) :
    List.Forall₂ OneByOne answers (chip.shows i answers) := by
  induction answers generalizing i with
  | nil => exact .nil
  | cons ans answers ih =>
    obtain ⟨hans, hrest⟩ := List.forall_mem_cons.mp hplain
    exact .cons (chip.oneByOne i ans hans) (ih (i + 1) hrest)

section

variable {fuel junk : Nat} {x : DeviceExchange} {t : TransceiveAt}

theorem enter_sending (h : (device fuel junk).enter x = some t) : ∃ u, t = .sending u := by
  unfold device at h
  dsimp only at h
  unfold transceiveBegin at h
  split at h
  · rename_i t' hbegin
    cases h
    split at hbegin
    · cases hbegin
    · obtain ⟨u, -, hu⟩ := Option.map_eq_some_iff.mp hbegin
      cases hu
      exact ⟨u, rfl⟩
  · cases h

-- The portions of a frame before its last one.
theorem device_portions (fuel junk : Nat) (x : DeviceExchange) (portions : List Fifo)
    (area : Mem UInt8) (off n : Nat) :
    ∃ area' off' n', ((device fuel junk).program x).feed (.wait (.receiving ⟨some area, off, n⟩))
        (portions.map (.irq irqStatusFifo)) = .wait (.receiving ⟨some area', off', n'⟩) ∧
      (((device fuel junk).program x).steps (.wait (.receiving ⟨some area, off, n⟩))
        (portions.map (.irq irqStatusFifo))).flatMap presented = portions.flatMap Fifo.content := by
  induction portions generalizing area off n with
  | nil => exact ⟨area, off, n, rfl, rfl⟩
  | cons fifo portions ih =>
    obtain ⟨area₁, off₁, n₁, hnext⟩ : ∃ area₁ off₁ n₁, ((device fuel junk).program x).resume
        (.receiving ⟨some area, off, n⟩) (.irq irqStatusFifo fifo) =
          .wait (.receiving ⟨some area₁, off₁, n₁⟩) := ⟨_, _, _, rfl⟩
    have hpresented : presented (.receiving ⟨some area, off, n⟩, .irq irqStatusFifo fifo) =
        fifo.content := by
      show (if Drains irqStatusFifo then fifo.content else []) = _
      exact if_pos (by decide)
    obtain ⟨area', off', n', hfeed, hsteps⟩ := ih area₁ off₁ n₁
    refine ⟨area', off', n', ?_, ?_⟩
    · rw [List.map_cons, Program.feed_cons, hnext, hfeed]
    · rw [List.map_cons, Program.steps_cons, hnext, List.flatMap_cons, hsteps, hpresented,
        List.flatMap_cons]

-- With the frame loaded whole, TX leads to the receive loop.
theorem device_sent (henter : (device fuel junk).enter x = some t)
    (ht : Underway fuel junk x [] t) (atTx : Fifo) :
    ((device fuel junk).program x).feed (.wait t) [.irq irqStatusTx atTx] =
        .wait (.receiving x.rx.start) ∧
      (((device fuel junk).program x).steps (.wait t) [.irq irqStatusTx atTx]).flatMap presented =
        [] := by
  obtain ⟨u, rfl⟩ := enter_sending henter
  obtain ⟨hbytes, hlen, -⟩ := ht.sent u rfl
  have hsent : ((device fuel junk).program x).resume (.sending u) (.irq irqStatusTx atTx) =
      .wait (.receiving x.rx.start) := by
    show (resumeSending x.rx u (.irq irqStatusTx atTx)).map TransceiveEnd.result = _
    rw [resumeSending_short _ hbytes hlen]
    rfl
  rw [Program.feed_cons, Program.feed_nil, Program.steps_cons, Program.steps_nil]
  exact ⟨hsent, rfl⟩

/-- An exchange whose interrupts come one by one ends, and gives the frame. -/
theorem device_realized (henter : (device fuel junk).enter x = some t)
    (ht : Underway fuel junk x [] t) {ans : Answer} {events : List IrqEvent}
    (h : OneByOne ans events) :
    ∃ before b t' r, events = before ++ [b] ∧
      ((device fuel junk).program x).feed (.wait t) before = .wait t' ∧
      ((device fuel junk).program x).resume t' b = .done (some r) ∧
      plainAnswer
        (heard (((device fuel junk).program x).steps (.wait t) before ++ [(t', b)])) = ans := by
  cases h with
  | lost atTx =>
    obtain ⟨hfeed, -⟩ := device_sent henter ht atTx
    refine ⟨[.irq irqStatusTx atTx], .timeout, _, _, rfl, hfeed, rfl, ?_⟩
    unfold heard
    rw [List.getLast?_append]
    rfl
  | frame f atTx portions last whole =>
    obtain ⟨hfeed, hsteps⟩ := device_sent henter ht atTx
    obtain ⟨area, off, n, hfeed', hsteps'⟩ :=
      device_portions fuel junk x portions x.area 0 x.rx.bytes
    refine ⟨[.irq irqStatusTx atTx] ++ portions.map (.irq irqStatusFifo), .irq irqStatusSrx last,
      .receiving ⟨some area, off, n⟩, _, rfl, ?_, rfl, ?_⟩
    · rw [Program.feed_append, hfeed]
      exact hfeed'
    · have hpresented : presented (.receiving ⟨some area, off, n⟩, .irq irqStatusSrx last) =
          last.content := by
        show (if Drains irqStatusSrx then last.content else []) = _
        exact if_pos (by decide)
      have hrest : (((device fuel junk).program x).steps (.wait (.receiving x.rx.start))
          (portions.map (.irq irqStatusFifo))).flatMap presented =
            portions.flatMap Fifo.content := hsteps'
      have hall : ((((device fuel junk).program x).steps (.wait t)
          ([IrqEvent.irq irqStatusTx atTx] ++ portions.map (IrqEvent.irq irqStatusFifo))) ++
            [(TransceiveAt.receiving ⟨some area, off, n⟩, IrqEvent.irq irqStatusSrx last)]).flatMap
              presented = f := by
        rw [Program.steps_append, hfeed, List.flatMap_append, List.flatMap_append, hsteps, hrest,
          List.nil_append, List.flatMap_singleton, hpresented, whole]
      unfold heard
      rw [List.getLast?_append]
      show Answer.frame _ = _
      rw [hall]

end

/-! ## 5. Calls that return -/

section

variable {card : Card} {loss : Nat → Loss} {d : Driver} {a : CallArgs}

theorem channel_plain (card : Card) (loss : Nat → Loss) (air : Air) (q : Request) :
    plainAnswer ((channel card loss).respond air q).1 = ((channel card loss).respond air q).1 := by
  unfold channel
  dsimp only
  cases loss air.log.length with
  | readerFrame | cardFrame => rfl
  | nothing => cases (air.picc.receive card q.frame).1 <;> rfl

theorem heard_plain {σ Q ρ ε : Type} (program : Program σ Q Answer ρ) {env : Environment ε Q Answer}
    (henv : ∀ e q, plainAnswer (env.respond e q).1 = (env.respond e q).1) (n : Nat)
    (st : Status σ ρ) (e : ε) : ∀ ans ∈ program.heard env n st e, plainAnswer ans = ans :=
  (Program.heard_invariant program env (I := fun _ => True) (G := fun ans => plainAnswer ans = ans)
    (fun e q _ => ⟨henv e q, trivial⟩) n st e trivial).1

/-- Whatever the block protocol does over the channel, the stack does with a chip that presents it,
in any way. -/
theorem chipCall_made (chip : Presentation) (hsz : Sized d) (hrx : a.rxlen < 2 ^ 32)
    (fuel junk : Nat) {answers : List Answer} {air after : Air} {r : Returned}
    (hears : (nfcIso14443Transceive a).Hears (channel card loss) (transceiveStart d a) air answers
      after)
    (hplain : ∀ ans ∈ answers, plainAnswer ans = ans)
    (hdone : (nfcIso14443Transceive a).feed (transceiveStart d a) answers = .done r) :
    ∃ c : ChipCall, c.args = a ∧ c.driver = d ∧ c.air = air ∧ c.after = after ∧
      c.Made card loss (fuel + 2) junk ∧ c.ShownBy (fuel + 2) junk chip := by
  obtain ⟨r', hends, hanswers⟩ := (block_refines d hrx fuel junk).covers plainAnswer
    (exchange_plain a) alike_refl (fun s t ans _ _ henter ht hans => device_realized henter ht hans)
    (shows_oneByOne chip air.log.length hplain)
    (related_refl sameReturned_refl (transceiveStart d a))
    (fun _ hs => waits_start (.inl hsz) hs) hears hdone
  let c : ChipCall := ⟨a, d, air, (chip.shows air.log.length answers).flatten, r', after⟩
  have hsame : c.answers (fuel + 2) junk = answers := hanswers
  refine ⟨c, rfl, rfl, rfl, rfl, ⟨hends, ?_⟩, ?_⟩
  · rw [hsame]
    exact hears
  · show _ = (chip.shows _ (c.answers (fuel + 2) junk)).flatten
    rw [hsame]

theorem chipSession_made (card : Card) (chip : Presentation) (fuel junk : Nat)
    (calls : List CallArgs) (hrx : ∀ a ∈ calls, a.rxlen < 2 ^ 31) {d : Driver} {air : Air}
    (hsz : Sized d) (hsync : Nfc.Synced d air.picc) :
    ∃ cs, cs.map ChipCall.args = calls ∧
      ChipSession card (fun _ => .nothing) (fuel + 2) junk d air cs ∧
      ∀ c ∈ cs, c.ShownBy (fuel + 2) junk chip := by
  induction calls generalizing d air with
  | nil => exact ⟨[], rfl, trivial, List.forall_mem_nil _⟩
  | cons a calls ih =>
    obtain ⟨ha, hcalls⟩ := List.forall_mem_cons.mp hrx
    obtain ⟨n, r, now, hplay, hended⟩ :=
      call_ends card (fun _ => .nothing) a hsz (by omega) hsync
    cases hended with
    | lost ret fate =>
      obtain ⟨k, hk⟩ := fate
      exact absurd rfl hk
    | finished hfin =>
      have hears := Program.hears_heard (nfcIso14443Transceive a) (channel card fun _ => .nothing) n
        (transceiveStart d a) air
      have hdone := Program.play_eq_feed (nfcIso14443Transceive a)
        (channel card fun _ => .nothing) n (transceiveStart d a) air
      have hplain := heard_plain (nfcIso14443Transceive a) (channel_plain card fun _ => .nothing) n
        (transceiveStart d a) air
      rw [hplay] at hears hdone
      obtain ⟨c, rfl, rfl, rfl, rfl, hmade, hshown⟩ :=
        chipCall_made chip hsz (by omega) fuel junk hears hplain hdone.symm
      obtain ⟨hsame, hplay'⟩ := above_same hsz (by omega) hmade
      obtain ⟨rfl, -⟩ := Program.play_unique _ _ hplay hplay'
      obtain ⟨cs, hargs, hsession, hall⟩ := ih hcalls (play_sized hsz hplay) hfin.synced
      refine ⟨c :: cs, by rw [List.map_cons, hargs], ⟨rfl, rfl, hmade, ?_⟩,
        List.forall_mem_cons.mpr ⟨hshown, hall⟩⟩
      rw [hsame.driver]
      exact hsession

end

-- Over a channel without loss every call of a session is right.
theorem chipSession_delivers {card : Card} {d : Driver} {air : Air} {fuel junk : Nat}
    {cs : List ChipCall} (hsz : Sized d) (hsync : Nfc.Synced d air.picc)
    (hrx : ∀ c ∈ cs, c.args.rxlen < 2 ^ 31)
    (hsession : ChipSession card (fun _ => .nothing) (fuel + 2) junk d air cs) :
    ∀ c ∈ cs, Delivered card c.record := by
  intro c hc
  have hroom : ∀ c ∈ cs, c.args.rxlen < 2 ^ 32 := fun c hc => Nat.lt_trans (hrx c hc) (by decide)
  obtain ⟨habove, hsame⟩ := chipSession_above hsz hroom hsession
  have hrooms : ∀ e ∈ cs.map (ChipCall.above (fuel + 2) junk), e.args.rxlen < 2 ^ 31 := by
    intro e he
    obtain ⟨e', he', rfl⟩ := List.mem_map.mp he
    exact hrx e' he'
  have hdelivered := session_returns hsz hsync (fun _ => rfl) hrooms habove _
    (List.mem_map_of_mem hc)
  have hret : 0 ≤ c.returned.ret := by
    rw [(hsame c hc).ret, hdelivered.ret]
    omega
  exact (hsame c hc).alike.delivered hret hdelivered

/-- Over a channel that loses nothing, for any number of calls with any data: if the chip raises its
interrupts one by one, whatever the portions, all calls return; and every call that returns, having
heard what came over the channel, succeeds and is right. -/
theorem chipSession_reliable (card : Card) (d : Driver) (hsz : Sized d) (hblock : d.block = 0)
    (fuel junk : Nat) (calls : List CallArgs) (hrx : ∀ a ∈ calls, a.rxlen < 2 ^ 31) :
    (∀ chip : Presentation, ∃ cs, cs.map ChipCall.args = calls ∧
      ChipSession card (fun _ => .nothing) (fuel + 2) junk d ⟨Picc.selected, []⟩ cs ∧
      ∀ c ∈ cs, c.ShownBy (fuel + 2) junk chip) ∧
    ∀ cs, cs.map ChipCall.args = calls →
      ChipSession card (fun _ => .nothing) (fuel + 2) junk d ⟨Picc.selected, []⟩ cs →
      ∀ c ∈ cs, Delivered card c.record := by
  have hsync := synced_selected hblock
  constructor
  · intro chip
    exact chipSession_made card chip fuel junk calls hrx hsz hsync
  · rintro cs rfl hsession
    exact chipSession_delivers hsz hsync (fun c hc => hrx c.args (List.mem_map_of_mem hc)) hsession

theorem chipSession_reliable_two_calls :
    ∃ cs, cs.map ChipCall.args = twoCalls ∧
      ChipSession Card.echo (fun _ => .nothing) 2 0 (activated 16) ⟨Picc.selected, []⟩ cs ∧
      (∀ c ∈ cs, c.ShownBy 2 0 .bytewise) ∧ ∀ c ∈ cs, Delivered Card.echo c.record := by
  obtain ⟨hmade, hall⟩ := chipSession_reliable Card.echo (activated 16)
    (sized_activated (by decide) (by decide)) rfl 0 0 twoCalls (by decide)
  obtain ⟨cs, hargs, hsession, hshown⟩ := hmade .bytewise
  exact ⟨cs, hargs, hsession, hshown, hall cs hargs hsession⟩

end NfceeFw.Trf797x
