import NfceeFw.Reasoning.Machine
import NfceeFw.Trf797x.Receive

/-!
# Completion — the end-of-transmission and end-of-reception interrupts

The chip and the driver thread side by side.  The chip latches what it reports in its IRQ status
register, which the driver reads, and so clears, some time after it has been woken; what is reported
meanwhile is read along with it.
-/

namespace NfceeFw.Trf797x

open NfceeFw.Reasoning NfceeFw.Nfc

/-! ## 1. The chip and the thread -/

/-- The bits of the IRQ status register that the chip has latched. -/
structure Latched where
  fifo : Bool
  tx : Bool
  srx : Bool
  deriving DecidableEq, Repr

-- The register as it is read.
def Latched.value (i : Latched) : UInt8 :=
  (if i.fifo then irqStatusFifo else 0) ||| (if i.tx then irqStatusTx else 0) |||
    if i.srx then irqStatusSrx else 0

/-- What the chip does: it sends, then receives, then has reported both ends. -/
inductive ChipPhase where
  | sending
  | receiving
  | finished
  deriving DecidableEq, Repr

/-- The thread, between two passes or within one: in `chEvtWaitAnyTimeout`, past it, past
`chEvtGetAndClearFlags`. -/
inductive ThreadAt where
  | waiting
  | woken
  | flagsTaken
  deriving DecidableEq, Repr

/-- The event flags of the listener. -/
structure EventFlags where
  irq : Bool
  stop : Bool
  deriving DecidableEq, Repr

/-- Chip, events and driver; `event` is the pending event of the thread. -/
structure System where
  chip : ChipPhase
  latched : Latched
  flags : EventFlags
  event : Bool
  thread : ThreadAt
  driver : Status TransceiveAt TransceiveEnd

/-- The moves of the chip (a level of the FIFO is crossed, the transmission or the reception ends),
of the application, of the clock, and of the driver thread; a read of the register comes with what
the FIFO holds then, and with what lies behind the iovec array. -/
inductive Label where
  | fifo
  | tx
  | srx
  | stop
  | timeout
  | wake
  | takeFlags
  | readIrq (fifo : Fifo) (past : Iovec)

-- `tf797x_interrupt_hookI`
def System.interrupt (s : System) : System :=
  { s with flags := { s.flags with irq := true }, event := true }

/-- The chip latches a bit; each new one is an interrupt. -/
def System.latch (s : System) (next : Latched) : System :=
  if next = s.latched then s else { s with latched := next }.interrupt

-- `tx++` behind the last element: what lies there is taken for the next one.
def TxLocals.stepPast (s : TxLocals) (past : Iovec) : TxLocals :=
  { s with tx := [past], buf := past.base, off := 0, txBytes := iovecBytes past }

/-- The pass of a loop on an IRQ status.  The read of FIFO that leaves the array goes on with the
element `past`, and back to the wait. -/
def passIrq (rx : RxIovec) (status : UInt8) (fifo : Fifo) (past : Iovec) (u : TransceiveAt) :
    Status TransceiveAt TransceiveEnd :=
  match (trf797xInitiatorTransceive rx).resume u (.irq status fifo), u with
  | .done .overrun, .sending v => .wait (.sending ((v.stepPast past).refill fifo.status))
  | next, _ => next

/-- What a read leaves: a clear register, and a thread that waits or has returned. -/
def System.afterRead (s : System) (next : Status TransceiveAt TransceiveEnd) : System :=
  { s with latched := ⟨false, false, false⟩, thread := .waiting, driver := next }

/-- `read_irq`, which clears the register, and the pass of the loop after it. -/
def System.readIrq (rx : RxIovec) (s : System) (fifo : Fifo) (past : Iovec) : System :=
  match s.driver with
  | .done _ => s
  | .wait u => s.afterRead (passIrq rx s.latched.value fifo past u)

-- A driver in the receive loop; the wait of the transmit loop has no time limit.
def receivingAt : Status TransceiveAt TransceiveEnd → Option RxLocals
  | .wait (.receiving u) => some u
  | _ => none

def sendingAt : Status TransceiveAt TransceiveEnd → Option TxLocals
  | .wait (.sending u) => some u
  | _ => none

/-- One move; a label that is not enabled changes nothing. -/
def System.step (rx : RxIovec) (s : System) : Label → System
  | .fifo => s.latch { s.latched with fifo := true }
  | .tx =>
    if s.chip = .sending then
      { s with chip := .receiving }.latch { s.latched with tx := true }
    else s
  | .srx =>
    if s.chip = .receiving then
      { s with chip := .finished }.latch { s.latched with srx := true }
    else s
  | .stop => { s with flags := { s.flags with stop := true }, event := true }
  | .timeout =>
    if s.thread = .waiting ∧ s.event = false then
      match receivingAt s.driver with
      | some u => { s with driver := resumeReceiving u .timeout }
      | none => s
    else s
  | .wake =>
    if s.thread = .waiting ∧ s.event = true then { s with event := false, thread := .woken } else s
  | .takeFlags =>
    if s.thread = .woken then
      match s.driver with
      | .wait u =>
        if s.flags.stop then
          { s with
            flags := ⟨false, false⟩
            driver := (trf797xInitiatorTransceive rx).resume u .stop }
        else { s with flags := ⟨false, false⟩, thread := .flagsTaken }
      | .done _ => s
    else s
  | .readIrq fifo past => if s.thread = .flagsTaken then s.readIrq rx fifo past else s

/-- Past `trf797x_transmit`: the register and the flags were cleared before it, so that an earlier
stop is forgotten; the event of an earlier interrupt may still be pending. -/
def System.start (u : TxLocals) (event : Bool) : System where
  chip := .sending
  latched := ⟨false, false, false⟩
  flags := ⟨false, false⟩
  event := event
  thread := .waiting
  driver := .wait (.sending u)

/-! ## 2. Lost completions -/

/-- The chip has reported the end that the driver waits for, and no bit is pending. -/
def System.Lost (s : System) : Prop :=
  s.thread = .waiting ∧ s.latched = ⟨false, false, false⟩ ∧
    ((sendingAt s.driver).isSome = true ∧ s.chip ≠ .sending ∨
      (receivingAt s.driver).isSome = true ∧ s.chip = .finished)

instance (s : System) : Decidable s.Lost := inferInstanceAs (Decidable (_ ∧ _ ∧ (_ ∨ _)))

/-- A read that takes the bit its loop waits for finds no other with it. -/
def System.TakesAlone (s : System) : Label → Prop
  | .readIrq _ _ => s.thread = .flagsTaken →
      ((sendingAt s.driver).isSome = true → s.latched.tx = true →
        s.latched = ⟨false, true, false⟩) ∧
      ((receivingAt s.driver).isSome = true → s.latched.srx = true →
        s.latched = ⟨false, false, true⟩)
  | _ => True

/-! ## 3. One read -/

section

variable (i : Latched)

theorem value_fifo : (i.value &&& irqStatusFifo != 0) = i.fifo := by
  rcases i with ⟨_ | _, _ | _, _ | _⟩ <;> decide

theorem value_tx : (i.value != irqStatusTx) = !decide (i = ⟨false, true, false⟩) := by
  rcases i with ⟨_ | _, _ | _, _ | _⟩ <;> decide

theorem value_srx : (i.value != irqStatusSrx) = !decide (i = ⟨false, false, true⟩) := by
  rcases i with ⟨_ | _, _ | _, _ | _⟩ <;> decide

-- The chip is not modelled with errors.
theorem value_error : (i.value &&& irqStatusError != 0) = false := by
  rcases i with ⟨_ | _, _ | _, _ | _⟩ <;> decide

end

-- In the transmit loop, only TX alone ends the wait; a read past the array does not.
theorem passIrq_sending (rx : RxIovec) (u : TxLocals) (i : Latched) (fifo : Fifo) (past : Iovec) :
    i = ⟨false, true, false⟩ ∧
        passIrq rx i.value fifo past (.sending u) = .wait (.receiving rx.start) ∨
      i ≠ ⟨false, true, false⟩ ∧
        ∃ t, passIrq rx i.value fifo past (.sending u) = .wait (.sending t) := by
  have hresume : (trf797xInitiatorTransceive rx).resume (.sending u) = resumeSending rx u := rfl
  unfold passIrq
  rw [hresume]
  unfold resumeSending TxLocals.resume
  dsimp only
  rw [value_fifo, value_tx]
  cases hfifo : i.fifo with
  | true =>
    have hnot : i ≠ ⟨false, true, false⟩ := by
      rintro rfl
      exact Bool.false_ne_true hfifo
    rw [if_pos rfl, decide_eq_false hnot]
    cases u.advance with
    | none => exact .inr ⟨hnot, _, rfl⟩
    | some t => exact .inr ⟨hnot, _, rfl⟩
  | false =>
    rw [if_neg Bool.false_ne_true]
    by_cases halone : i = ⟨false, true, false⟩
    · rw [decide_eq_true halone]
      exact .inl ⟨halone, rfl⟩
    · rw [decide_eq_false halone]
      exact .inr ⟨halone, u, rfl⟩

-- In the receive loop, only SRX alone.
theorem passIrq_receiving (rx : RxIovec) (u : RxLocals) (i : Latched) (fifo : Fifo) (past : Iovec) :
    i = ⟨false, false, true⟩ ∧
        (∃ n t, passIrq rx i.value fifo past (.receiving u) = .done (.returned n t)) ∨
      i ≠ ⟨false, false, true⟩ ∧
        ∃ t, passIrq rx i.value fifo past (.receiving u) = .wait (.receiving t) := by
  have hresume : (trf797xInitiatorTransceive rx).resume (.receiving u) = resumeReceiving u := rfl
  unfold passIrq
  rw [hresume]
  unfold resumeReceiving RxLocals.resume
  dsimp only
  rw [value_error, value_srx, if_neg Bool.false_ne_true]
  by_cases halone : i = ⟨false, false, true⟩
  · rw [decide_eq_true halone]
    exact .inl ⟨halone, _, _, rfl⟩
  · rw [decide_eq_false halone]
    exact .inr ⟨halone, _, rfl⟩

section

variable (rx : RxIovec) (s : System) (fifo : Fifo) (past : Iovec)

theorem readIrq_wait {u : TransceiveAt} (h : s.driver = .wait u) :
    s.readIrq rx fifo past = s.afterRead (passIrq rx s.latched.value fifo past u) := by
  unfold System.readIrq
  rw [h]

theorem readIrq_done {r : TransceiveEnd} (h : s.driver = .done r) :
    s.readIrq rx fifo past = s := by
  unfold System.readIrq
  rw [h]

theorem readIrq_sending {u : TxLocals} (h : s.driver = .wait (.sending u)) :
    s.latched = ⟨false, true, false⟩ ∧
        s.readIrq rx fifo past = s.afterRead (.wait (.receiving rx.start)) ∨
      s.latched ≠ ⟨false, true, false⟩ ∧
        ∃ t, s.readIrq rx fifo past = s.afterRead (.wait (.sending t)) := by
  rw [readIrq_wait rx s fifo past h]
  rcases passIrq_sending rx u s.latched fifo past with ⟨halone, hnext⟩ | ⟨hmore, t, hnext⟩
  · rw [hnext]
    exact .inl ⟨halone, rfl⟩
  · rw [hnext]
    exact .inr ⟨hmore, t, rfl⟩

theorem readIrq_receiving {u : RxLocals} (h : s.driver = .wait (.receiving u)) :
    s.latched = ⟨false, false, true⟩ ∧
        (∃ r, s.readIrq rx fifo past = s.afterRead (.done r)) ∨
      s.latched ≠ ⟨false, false, true⟩ ∧
        ∃ t, s.readIrq rx fifo past = s.afterRead (.wait (.receiving t)) := by
  rw [readIrq_wait rx s fifo past h]
  rcases passIrq_receiving rx u s.latched fifo past with ⟨halone, n, t, hnext⟩ | ⟨hmore, t, hnext⟩
  · rw [hnext]
    exact .inl ⟨halone, _, rfl⟩
  · rw [hnext]
    exact .inr ⟨hmore, t, rfl⟩

end

/-! ## 4. Where the completion bits are -/

/-- While a loop waits, the end that it waits for is either still to come or latched. -/
structure Synced (s : System) : Prop where
  sending : ∀ u, s.driver = .wait (.sending u) →
    (s.latched.tx = true ↔ s.chip ≠ .sending) ∧ (s.latched.srx = true ↔ s.chip = .finished)
  receiving : ∀ u, s.driver = .wait (.receiving u) →
    s.chip ≠ .sending ∧ s.latched.tx = false ∧ (s.latched.srx = true ↔ s.chip = .finished)

theorem synced_done {s : System} {r : TransceiveEnd} (h : s.driver = .done r) : Synced s where
  sending u hu := by rw [h] at hu; cases hu
  receiving u hu := by rw [h] at hu; cases hu

@[simp] theorem latch_latched (s : System) (i : Latched) : (s.latch i).latched = i := by
  unfold System.latch
  split
  · rename_i h
    exact h.symm
  · rfl

@[simp] theorem latch_chip (s : System) (i : Latched) : (s.latch i).chip = s.chip := by
  unfold System.latch
  split <;> rfl

@[simp] theorem latch_driver (s : System) (i : Latched) : (s.latch i).driver = s.driver := by
  unfold System.latch
  split <;> rfl

@[simp] theorem latch_stop (s : System) (i : Latched) : (s.latch i).flags.stop = s.flags.stop := by
  unfold System.latch
  split <;> rfl

theorem sendingAt_eq {st : Status TransceiveAt TransceiveEnd} {u : TxLocals} :
    sendingAt st = some u ↔ st = .wait (.sending u) := by
  match st with
  | .wait (.sending v) => simp [sendingAt]
  | .wait (.receiving v) => simp [sendingAt]
  | .done r => simp [sendingAt]

theorem receivingAt_eq {st : Status TransceiveAt TransceiveEnd} {u : RxLocals} :
    receivingAt st = some u ↔ st = .wait (.receiving u) := by
  match st with
  | .wait (.sending v) => simp [receivingAt]
  | .wait (.receiving v) => simp [receivingAt]
  | .done r => simp [receivingAt]

theorem Synced.not_lost {s : System} (h : Synced s) : ¬ s.Lost := by
  rintro ⟨-, hclear, ⟨hsending, hchip⟩ | ⟨hreceiving, hchip⟩⟩
  · obtain ⟨u, hu⟩ := Option.isSome_iff_exists.mp hsending
    have htx := (h.sending u (sendingAt_eq.mp hu)).1.mpr hchip
    rw [hclear] at htx
    exact Bool.false_ne_true htx
  · obtain ⟨u, hu⟩ := Option.isSome_iff_exists.mp hreceiving
    have hsrx := (h.receiving u (receivingAt_eq.mp hu)).2.2.mpr hchip
    rw [hclear] at hsrx
    exact Bool.false_ne_true hsrx

-- Moves that touch neither the register, nor the chip, nor the driver.
theorem Synced.congr {s t : System} (h : Synced s) (hlatched : t.latched = s.latched)
    (hchip : t.chip = s.chip) (hdriver : t.driver = s.driver) : Synced t := by
  refine ⟨?_, ?_⟩
  · rw [hlatched, hchip, hdriver]
    exact h.sending
  · rw [hlatched, hchip, hdriver]
    exact h.receiving

-- The chip reports the end of the transmission.
theorem synced_tx {s : System} (h : Synced s) (hchip : s.chip = .sending) :
    Synced ({ s with chip := .receiving }.latch { s.latched with tx := true }) where
  sending u hu := by
    rw [latch_driver] at hu
    have hsrx := (h.sending u hu).2
    rw [hchip] at hsrx
    rw [latch_latched, latch_chip]
    exact ⟨iff_of_true rfl nofun, hsrx.trans (iff_of_false nofun nofun)⟩
  receiving u hu := by
    rw [latch_driver] at hu
    exact absurd hchip (h.receiving u hu).1

-- The chip reports the end of the reception.
theorem synced_srx {s : System} (h : Synced s) (hchip : s.chip = .receiving) :
    Synced ({ s with chip := .finished }.latch { s.latched with srx := true }) where
  sending u hu := by
    rw [latch_driver] at hu
    have htx := (h.sending u hu).1
    rw [hchip] at htx
    rw [latch_latched, latch_chip]
    exact ⟨htx.trans (iff_of_true nofun nofun), iff_of_true rfl rfl⟩
  receiving u hu := by
    rw [latch_driver] at hu
    have htx := (h.receiving u hu).2.1
    rw [latch_latched, latch_chip]
    exact ⟨nofun, htx, iff_of_true rfl rfl⟩

theorem synced_fifo {s : System} (h : Synced s) :
    Synced (s.latch { s.latched with fifo := true }) where
  sending u hu := by
    rw [latch_driver] at hu
    rw [latch_latched, latch_chip]
    exact h.sending u hu
  receiving u hu := by
    rw [latch_driver] at hu
    rw [latch_latched, latch_chip]
    exact h.receiving u hu

section

variable {rx : RxIovec} {s : System}

theorem takesAlone_sending {u : TxLocals} (h : s.driver = .wait (.sending u)) (fifo : Fifo)
    (past : Iovec) : s.TakesAlone (.readIrq fifo past) ↔
      (s.thread = .flagsTaken → s.latched.tx = true → s.latched = ⟨false, true, false⟩) := by
  unfold System.TakesAlone
  rw [h]
  exact forall_congr' fun _ => ⟨fun halone => halone.1 rfl, fun halone => ⟨fun _ => halone, nofun⟩⟩

theorem takesAlone_receiving {u : RxLocals} (h : s.driver = .wait (.receiving u)) (fifo : Fifo)
    (past : Iovec) : s.TakesAlone (.readIrq fifo past) ↔
      (s.thread = .flagsTaken → s.latched.srx = true → s.latched = ⟨false, false, true⟩) := by
  unfold System.TakesAlone
  rw [h]
  exact forall_congr' fun _ => ⟨fun halone => halone.2 rfl, fun halone => ⟨nofun, fun _ => halone⟩⟩

theorem takesAlone_done {r : TransceiveEnd} (h : s.driver = .done r) (fifo : Fifo) (past : Iovec) :
    s.TakesAlone (.readIrq fifo past) := by
  unfold System.TakesAlone
  rw [h]
  exact fun _ => ⟨nofun, nofun⟩

theorem synced_readIrq_sending (h : Synced s) (hthread : s.thread = .flagsTaken) {u : TxLocals}
    (hdriver : s.driver = .wait (.sending u)) (fifo : Fifo) (past : Iovec)
    (halone : s.TakesAlone (.readIrq fifo past)) : Synced (s.readIrq rx fifo past) := by
  have hsync := h.sending u hdriver
  rcases readIrq_sending rx s fifo past hdriver with ⟨honly, hnext⟩ | ⟨hmore, t, hnext⟩
  · rw [hnext]
    rw [honly] at hsync
    exact ⟨fun v hv => (by cases hv), fun v _ => ⟨hsync.1.mp rfl, rfl, hsync.2⟩⟩
  · rw [hnext]
    have hnone : s.latched.tx = false := by
      by_contra hset
      exact hmore ((takesAlone_sending hdriver fifo past).mp halone hthread
        (Bool.eq_true_of_not_eq_false hset))
    have hchip : s.chip = .sending := by
      by_contra hnot
      rw [hsync.1.mpr hnot] at hnone
      exact Bool.false_ne_true hnone.symm
    have hfin : s.chip ≠ .finished := by
      rw [hchip]
      exact nofun
    refine ⟨fun v _ => ?_, fun v hv => (by cases hv)⟩
    exact ⟨iff_of_false nofun (not_not_intro hchip), iff_of_false nofun hfin⟩

theorem synced_readIrq_receiving (h : Synced s) (hthread : s.thread = .flagsTaken) {u : RxLocals}
    (hdriver : s.driver = .wait (.receiving u)) (fifo : Fifo) (past : Iovec)
    (halone : s.TakesAlone (.readIrq fifo past)) : Synced (s.readIrq rx fifo past) := by
  have hsync := h.receiving u hdriver
  rcases readIrq_receiving rx s fifo past hdriver with ⟨-, r, hnext⟩ | ⟨hmore, t, hnext⟩
  · rw [hnext]
    exact synced_done rfl
  · rw [hnext]
    have hnone : s.latched.srx = false := by
      by_contra hset
      exact hmore ((takesAlone_receiving hdriver fifo past).mp halone hthread
        (Bool.eq_true_of_not_eq_false hset))
    rw [hnone] at hsync
    exact ⟨fun v hv => (by cases hv), fun v _ => ⟨hsync.1, rfl, hsync.2.2⟩⟩

/-- A read that takes the bit of its loop alone. -/
theorem synced_readIrq (h : Synced s) (hthread : s.thread = .flagsTaken) (fifo : Fifo)
    (past : Iovec) (halone : s.TakesAlone (.readIrq fifo past)) :
    Synced (s.readIrq rx fifo past) := by
  match hdriver : s.driver with
  | .done r =>
    rw [readIrq_done rx s fifo past hdriver]
    exact h
  | .wait (.sending u) => exact synced_readIrq_sending h hthread hdriver fifo past halone
  | .wait (.receiving u) => exact synced_readIrq_receiving h hthread hdriver fifo past halone

-- A move that is made only under a condition.
theorem holds_ite {P : System → Prop} {c : Prop} [Decidable c] {t : System} (h : P s)
    (ht : c → P t) : P (if c then t else s) := by
  split
  · rename_i hc
    exact ht hc
  · exact h

/-- A move that keeps to `TakesAlone`. -/
theorem synced_step (l : Label) (h : Synced s) (halone : s.TakesAlone l) :
    Synced (s.step rx l) := by
  cases l with
  | fifo => exact synced_fifo h
  | tx => exact holds_ite (P := Synced) h (synced_tx h)
  | srx => exact holds_ite (P := Synced) h (synced_srx h)
  | stop => exact h.congr rfl rfl rfl
  | timeout =>
    refine holds_ite (P := Synced) h fun _ => ?_
    -- the driver returns, if it is in the receive loop
    split
    · exact synced_done rfl
    · exact h
  | wake => exact holds_ite (P := Synced) h fun _ => h.congr rfl rfl rfl
  | takeFlags =>
    refine holds_ite (P := Synced) h fun _ => ?_
    match hdriver : s.driver with
    | .done r => exact h
    | .wait u =>
      dsimp only
      split
      · cases u with
        | sending u => exact synced_done rfl
        | receiving u => exact synced_done rfl
      · exact h.congr rfl rfl hdriver.symm
  | readIrq fifo past =>
    exact holds_ite (P := Synced) h fun hthread => synced_readIrq h hthread fifo past halone

/-- A read that takes the bit of its loop with another one: the loop goes on without it. -/
theorem lost_step (l : Label) (h : Synced s) (hmissed : ¬ s.TakesAlone l) :
    (s.step rx l).Lost := by
  cases l with
  | readIrq fifo past =>
    match hdriver : s.driver with
    | .done r => exact absurd (takesAlone_done hdriver fifo past) hmissed
    | .wait (.sending u) =>
      have hsync := h.sending u hdriver
      rw [takesAlone_sending hdriver, Classical.not_imp, Classical.not_imp] at hmissed
      obtain ⟨hthread, htx, hnot⟩ := hmissed
      have hstep : s.step rx (.readIrq fifo past) = s.readIrq rx fifo past := if_pos hthread
      rcases readIrq_sending rx s fifo past hdriver with ⟨honly, -⟩ | ⟨-, t, hnext⟩
      · exact absurd honly hnot
      · rw [hstep, hnext]
        exact ⟨rfl, rfl, .inl ⟨rfl, hsync.1.mp htx⟩⟩
    | .wait (.receiving u) =>
      have hsync := h.receiving u hdriver
      rw [takesAlone_receiving hdriver, Classical.not_imp, Classical.not_imp] at hmissed
      obtain ⟨hthread, hsrx, hnot⟩ := hmissed
      have hstep : s.step rx (.readIrq fifo past) = s.readIrq rx fifo past := if_pos hthread
      rcases readIrq_receiving rx s fifo past hdriver with ⟨honly, -⟩ | ⟨-, t, hnext⟩
      · exact absurd honly hnot
      · rw [hstep, hnext]
        exact ⟨rfl, rfl, .inr ⟨rfl, hsync.2.2.mp hsrx⟩⟩
  | fifo | tx | srx | stop | timeout | wake | takeFlags => exact absurd trivial hmissed

end

theorem synced_start (u : TxLocals) (event : Bool) : Synced (System.start u event) where
  sending _ _ := ⟨iff_of_false nofun (not_not_intro rfl), iff_of_false nofun nofun⟩
  receiving _ hv := by cases hv

/-- No completion is lost in a run exactly if every read that takes one takes it alone. -/
theorem completion_iff (rx : RxIovec) (u : TxLocals) (event : Bool) (labels : List Label) :
    (∀ t ∈ Machine.visited (System.step rx) (System.start u event) labels, ¬ t.Lost) ↔
      ∀ x ∈ Machine.moves (System.step rx) (System.start u event) labels, x.1.TakesAlone x.2 :=
  Machine.avoids_iff (System.step rx) (fun _ hs => hs.not_lost)
    (fun _ l hs halone => synced_step l hs halone)
    (fun _ l hs hmissed => lost_step l hs hmissed) _ (synced_start u event) labels

/-- A message of 40 bytes.  The FIFO falls below its low level and the transmission ends before the
thread reads the register; or, once TX has been read alone, the FIFO rises above its high level and
the reception ends before it does.  Of 128 bytes, the last goes with a refill; the read of FIFO and
TX then leaves the array, and TX is lost all the same. -/
theorem completion_coalesced :
    let message := fun n => [Iovec.ofBytes (Mem.ofList 0 (List.replicate n 0x5A)) n]
    let rx : RxIovec := ⟨some (Mem.ofList 0 []), 2048⟩
    let read := [Label.wake, .takeFlags, .readIrq .empty ⟨Mem.ofList 0 [], 8⟩]
    let early := [Label.fifo, .tx] ++ read
    let late := [Label.tx] ++ read ++ [.fifo, .srx] ++ read
    let refilled := [Label.fifo] ++ read ++ [.fifo, .tx] ++ read
    (∃ u, transceiveBegin 1 (message 40) rx 0 = some (.wait (.sending u)) ∧
      (∃ t ∈ Machine.visited (System.step rx) (System.start u false) early, t.Lost) ∧
      ∃ t ∈ Machine.visited (System.step rx) (System.start u false) late, t.Lost) ∧
    ∃ u, transceiveBegin 1 (message 128) rx 0 = some (.wait (.sending u)) ∧
      ∃ t ∈ Machine.visited (System.step rx) (System.start u false) refilled, t.Lost := by
  intro message rx read early late refilled
  have hruns : ∀ (n : Nat) (P : TxLocals → Prop) [DecidablePred P],
      (transceiveBegin 1 (message n) rx 0).any (fun st => (sendingAt st).any fun u =>
        decide (P u)) = true →
      ∃ u, transceiveBegin 1 (message n) rx 0 = some (.wait (.sending u)) ∧ P u := by
    intro n P _ hany
    obtain ⟨st, hst, hlost⟩ := (Option.any_eq_true _ _).mp hany
    obtain ⟨u, hu, hlost⟩ := (Option.any_eq_true _ _).mp hlost
    rw [sendingAt_eq.mp hu] at hst
    exact ⟨u, hst, of_decide_eq_true hlost⟩
  exact ⟨hruns 40 _ (by decide +kernel), hruns 128 _ (by decide +kernel)⟩

end NfceeFw.Trf797x
