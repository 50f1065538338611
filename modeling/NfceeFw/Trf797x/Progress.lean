import NfceeFw.Trf797x.Completion

/-!
# Progress — when an exchange can still end

`Completion` says when the end of a transmission or of a reception is lost.  Here are what a loss
leads to, and that nothing else can keep an exchange from ending.
-/

namespace NfceeFw.Trf797x

open NfceeFw.Reasoning NfceeFw.Nfc

/-! ## 1. Doomed loops -/

/-- The transmission is over, and the register does not hold TX alone, as a read would have to find
it. -/
def System.DoomedTx (s : System) : Prop :=
  (sendingAt s.driver).isSome = true ∧ s.chip ≠ .sending ∧ s.latched ≠ ⟨false, true, false⟩

/-- The reception is over, and the register does not hold SRX alone. -/
def System.DoomedRx (s : System) : Prop :=
  (receivingAt s.driver).isSome = true ∧ s.chip = .finished ∧ s.latched ≠ ⟨false, false, true⟩

instance (s : System) : Decidable s.DoomedTx := inferInstanceAs (Decidable (_ ∧ _ ∧ _))

instance (s : System) : Decidable s.DoomedRx := inferInstanceAs (Decidable (_ ∧ _ ∧ _))

theorem System.Lost.doomed {s : System} (h : s.Lost) : s.DoomedTx ∨ s.DoomedRx := by
  obtain ⟨-, hclear, ⟨hsending, hchip⟩ | ⟨hreceiving, hchip⟩⟩ := h
  · exact .inl ⟨hsending, hchip, by rw [hclear]; exact nofun⟩
  · exact .inr ⟨hreceiving, hchip, by rw [hclear]; exact nofun⟩

section

variable {rx : RxIovec} {s : System}

-- A call that has returned stays so.
theorem done_step {r : TransceiveEnd} (h : s.driver = .done r) (l : Label) :
    (s.step rx l).driver = .done r := by
  cases l with
  | fifo => exact (latch_driver s _).trans h
  | tx => exact holds_ite (P := (·.driver = .done r)) h fun _ => (latch_driver _ _).trans h
  | srx => exact holds_ite (P := (·.driver = .done r)) h fun _ => (latch_driver _ _).trans h
  | stop => exact h
  | timeout =>
    refine holds_ite (P := (·.driver = .done r)) h fun _ => ?_
    rw [h]
    exact h
  | wake => exact holds_ite (P := (·.driver = .done r)) h fun _ => h
  | takeFlags =>
    refine holds_ite (P := (·.driver = .done r)) h fun _ => ?_
    rw [h]
    exact h
  | readIrq fifo past =>
    refine holds_ite (P := (·.driver = .done r)) h fun _ => ?_
    rw [readIrq_done rx s fifo past h]
    exact h

-- Only the application stops a call.
theorem stop_step (h : s.flags.stop = false) {l : Label} (hl : l ≠ .stop) :
    (s.step rx l).flags.stop = false := by
  cases l with
  | fifo => exact (latch_stop s _).trans h
  | tx => exact holds_ite (P := (·.flags.stop = false)) h fun _ => (latch_stop _ _).trans h
  | srx => exact holds_ite (P := (·.flags.stop = false)) h fun _ => (latch_stop _ _).trans h
  | stop => exact absurd rfl hl
  | timeout =>
    refine holds_ite (P := (·.flags.stop = false)) h fun _ => ?_
    split <;> exact h
  | wake => exact holds_ite (P := (·.flags.stop = false)) h fun _ => h
  | takeFlags =>
    refine holds_ite (P := (·.flags.stop = false)) h fun _ => ?_
    split
    · split <;> rfl
    · exact h
  | readIrq fifo past =>
    refine holds_ite (P := (·.flags.stop = false)) h fun _ => ?_
    unfold System.readIrq
    split <;> exact h

theorem doomedTx_latch (h : s.DoomedTx) {c : ChipPhase} (hc : c ≠ .sending) {i : Latched}
    (hi : i ≠ ⟨false, true, false⟩) : ({ s with chip := c }.latch i).DoomedTx := by
  unfold System.DoomedTx
  rw [latch_driver, latch_chip, latch_latched]
  exact ⟨h.1, hc, hi⟩

/-- No move but a stop leads a doomed transmit loop anywhere else. -/
theorem doomedTx_step (h : s.DoomedTx) (hstop : s.flags.stop = false) {l : Label}
    (hl : l ≠ .stop) : (s.step rx l).DoomedTx := by
  obtain ⟨hsome, hchip, hlatched⟩ := h
  obtain ⟨u, hu⟩ := Option.isSome_iff_exists.mp hsome
  have hdriver := sendingAt_eq.mp hu
  cases l with
  | fifo => exact doomedTx_latch ⟨hsome, hchip, hlatched⟩ hchip nofun
  | tx =>
    rw [show s.step rx .tx = s from if_neg hchip]
    exact ⟨hsome, hchip, hlatched⟩
  | srx =>
    refine holds_ite (P := System.DoomedTx) ⟨hsome, hchip, hlatched⟩ fun _ => ?_
    apply doomedTx_latch ⟨hsome, hchip, hlatched⟩
    · exact nofun
    · exact fun heq => absurd (congrArg Latched.srx heq) nofun
  | stop => exact absurd rfl hl
  | timeout =>
    have hsame : s.step rx .timeout = s := by
      unfold System.step
      dsimp only
      rw [hdriver]
      exact ite_self s
    rw [hsame]
    exact ⟨hsome, hchip, hlatched⟩
  | wake =>
    exact holds_ite (P := System.DoomedTx) ⟨hsome, hchip, hlatched⟩ fun _ =>
      ⟨hsome, hchip, hlatched⟩
  | takeFlags =>
    refine holds_ite (P := System.DoomedTx) ⟨hsome, hchip, hlatched⟩ fun _ => ?_
    rw [hdriver]
    dsimp only
    rw [hstop, if_neg Bool.false_ne_true]
    exact ⟨rfl, hchip, hlatched⟩
  | readIrq fifo past =>
    refine holds_ite (P := System.DoomedTx) ⟨hsome, hchip, hlatched⟩ fun _ => ?_
    rcases readIrq_sending rx s fifo past hdriver with ⟨halone, -⟩ | ⟨-, t, hnext⟩
    · exact absurd halone hlatched
    · rw [hnext]
      exact ⟨rfl, hchip, nofun⟩

/-- A doomed receive loop goes on, or runs into its time limit. -/
theorem doomedRx_step (h : s.DoomedRx) (hstop : s.flags.stop = false) {l : Label}
    (hl : l ≠ .stop) : (s.step rx l).DoomedRx ∨
      l = .timeout ∧ ∃ r, (s.step rx l).driver = .done (.returned (-etimedout) r) := by
  obtain ⟨hsome, hchip, hlatched⟩ := h
  obtain ⟨u, hu⟩ := Option.isSome_iff_exists.mp hsome
  have hdriver := receivingAt_eq.mp hu
  cases l with
  | fifo =>
    left
    show (s.latch { s.latched with fifo := true }).DoomedRx
    unfold System.DoomedRx
    rw [latch_driver, latch_chip, latch_latched]
    exact ⟨hsome, hchip, nofun⟩
  | tx =>
    rw [show s.step rx .tx = s from if_neg (by rw [hchip]; exact nofun)]
    exact .inl ⟨hsome, hchip, hlatched⟩
  | srx =>
    rw [show s.step rx .srx = s from if_neg (by rw [hchip]; exact nofun)]
    exact .inl ⟨hsome, hchip, hlatched⟩
  | stop => exact absurd rfl hl
  | timeout =>
    unfold System.step
    dsimp only
    split
    · rw [hu]
      exact .inr ⟨rfl, u, rfl⟩
    · exact .inl ⟨hsome, hchip, hlatched⟩
  | wake =>
    left
    exact holds_ite (P := System.DoomedRx) ⟨hsome, hchip, hlatched⟩ fun _ =>
      ⟨hsome, hchip, hlatched⟩
  | takeFlags =>
    left
    refine holds_ite (P := System.DoomedRx) ⟨hsome, hchip, hlatched⟩ fun _ => ?_
    rw [hdriver]
    dsimp only
    rw [hstop, if_neg Bool.false_ne_true]
    exact ⟨rfl, hchip, hlatched⟩
  | readIrq fifo past =>
    left
    refine holds_ite (P := System.DoomedRx) ⟨hsome, hchip, hlatched⟩ fun _ => ?_
    rcases readIrq_receiving rx s fifo past hdriver with ⟨halone, -⟩ | ⟨-, t, hnext⟩
    · exact absurd halone hlatched
    · rw [hnext]
      exact ⟨rfl, hchip, nofun⟩

end

/-! ## 2. What always holds -/

/-- Without a stop. -/
structure Sound (s : System) : Prop where
  stop : s.flags.stop = false
  tx : s.latched.tx = true → s.chip ≠ .sending ∧ (s.chip = .finished → s.latched.srx = true)
  srx : s.latched.srx = true → s.chip = .finished
  receiving : ∀ u, s.driver = .wait (.receiving u) → s.chip ≠ .sending ∧ s.latched.tx = false
  event : s.thread = .waiting → s.latched ≠ ⟨false, false, false⟩ → s.event = true

section

variable {rx : RxIovec} {s : System}

theorem sound_latch {i : Latched} {c : ChipPhase} (h : Sound s)
    (htx : i.tx = true → c ≠ .sending ∧ (c = .finished → i.srx = true))
    (hsrx : i.srx = true → c = .finished)
    (hreceiving : ∀ u, s.driver = .wait (.receiving u) → c ≠ .sending ∧ i.tx = false) :
    Sound ({ s with chip := c }.latch i) where
  stop := by
    rw [latch_stop]
    exact h.stop
  tx := by
    rw [latch_latched, latch_chip]
    exact htx
  srx := by
    rw [latch_latched, latch_chip]
    exact hsrx
  receiving u hu := by
    rw [latch_latched, latch_chip]
    exact hreceiving u ((latch_driver { s with chip := c } i).symm.trans hu)
  event := by
    unfold System.latch
    split
    · exact h.event
    · exact fun _ _ => rfl

-- What a read leaves behind.
theorem sound_afterRead {next : Status TransceiveAt TransceiveEnd} (h : Sound s)
    (hreceiving : ∀ u, next = .wait (.receiving u) → s.chip ≠ .sending) :
    Sound (s.afterRead next) where
  stop := h.stop
  tx := nofun
  srx := nofun
  receiving u hu := ⟨hreceiving u hu, rfl⟩
  event _ hne := absurd rfl hne

theorem sound_readIrq (h : Sound s) (fifo : Fifo) (past : Iovec) :
    Sound (s.readIrq rx fifo past) := by
  match hdriver : s.driver with
  | .done r =>
    rw [readIrq_done rx s fifo past hdriver]
    exact h
  | .wait (.sending u) =>
    rcases readIrq_sending rx s fifo past hdriver with ⟨halone, hnext⟩ | ⟨-, t, hnext⟩
    · rw [hnext]
      exact sound_afterRead h fun _ _ => (h.tx (by rw [halone])).1
    · rw [hnext]
      exact sound_afterRead h fun v hv => (by cases hv)
  | .wait (.receiving u) =>
    have hchip := (h.receiving u hdriver).1
    rcases readIrq_receiving rx s fifo past hdriver with ⟨-, r, hnext⟩ | ⟨-, t, hnext⟩
    · rw [hnext]
      exact sound_afterRead h fun v hv => (by cases hv)
    · rw [hnext]
      exact sound_afterRead h fun _ _ => hchip

theorem sound_step (h : Sound s) {l : Label} (hl : l ≠ .stop) : Sound (s.step rx l) := by
  cases l with
  | fifo => exact sound_latch h h.tx h.srx h.receiving
  | tx =>
    refine holds_ite (P := Sound) h fun hchip => sound_latch h (fun _ => ⟨nofun, nofun⟩) ?_ ?_
    · exact fun hsrx => absurd (hchip.symm.trans (h.srx hsrx)) nofun
    · exact fun u hu => absurd hchip (h.receiving u hu).1
  | srx =>
    refine holds_ite (P := Sound) h fun _ => ?_
    exact sound_latch h (fun _ => ⟨nofun, fun _ => rfl⟩) (fun _ => rfl)
      fun u hu => ⟨nofun, (h.receiving u hu).2⟩
  | stop => exact absurd rfl hl
  | timeout =>
    refine holds_ite (P := Sound) h fun _ => ?_
    split
    · exact ⟨h.stop, h.tx, h.srx, fun u hu => (by cases hu), h.event⟩
    · exact h
  | wake =>
    exact holds_ite (P := Sound) h fun _ => ⟨h.stop, h.tx, h.srx, h.receiving, nofun⟩
  | takeFlags =>
    refine holds_ite (P := Sound) h fun _ => ?_
    split
    · rename_i u hdriver
      rw [h.stop, if_neg Bool.false_ne_true]
      exact ⟨rfl, h.tx, h.srx, h.receiving, nofun⟩
    · exact h
  | readIrq fifo past => exact holds_ite (P := Sound) h fun _ => sound_readIrq h fifo past

theorem sound_run (h : Sound s) {labels : List Label} (hlabels : ∀ l ∈ labels, l ≠ .stop) :
    Sound (labels.foldl (System.step rx) s) :=
  labels.foldlRecOn (System.step rx) h fun _ ht l hl => sound_step ht (hlabels l hl)

theorem sound_start (u : TxLocals) (event : Bool) : Sound (System.start u event) where
  stop := rfl
  tx := nofun
  srx := nofun
  receiving v hv := by cases hv
  event _ hne := absurd rfl hne

end

/-! ## 3. Runs to the end -/

-- Moves of the chip and of the thread.
def Label.Plain (l : Label) : Prop := l ≠ .stop ∧ l ≠ .timeout

def Leads (rx : RxIovec) (s t : System) : Prop :=
  ∃ labels : List Label, (∀ l ∈ labels, l.Plain) ∧ labels.foldl (System.step rx) s = t

def emptyIovec : Iovec := ⟨Mem.ofList 0 [], 0⟩

-- The call can still return.
def CanReturn (rx : RxIovec) (s : System) : Prop :=
  ∃ t, Leads rx s t ∧ t.driver.result.isSome = true

section

variable {rx : RxIovec} {s t : System}

theorem Leads.refl (s : System) : Leads rx s s := ⟨[], List.forall_mem_nil _, rfl⟩

theorem Leads.step (h : Leads rx s t) {l : Label} (hl : l.Plain) : Leads rx s (t.step rx l) := by
  obtain ⟨labels, hplain, hrun⟩ := h
  refine ⟨labels ++ [l], fun k hk => ?_, ?_⟩
  · rcases List.mem_append.mp hk with hk | hk
    · exact hplain k hk
    · exact List.mem_singleton.mp hk ▸ hl
  · rw [List.foldl_append, hrun]
    rfl

theorem Leads.canReturn (h : Leads rx s t) (hcan : CanReturn rx t) : CanReturn rx s := by
  obtain ⟨labels, hplain, hrun⟩ := h
  obtain ⟨u, ⟨labels', hplain', hrun'⟩, hresult⟩ := hcan
  refine ⟨u, ⟨labels ++ labels', fun k hk => ?_, ?_⟩, hresult⟩
  · exact (List.mem_append.mp hk).elim (hplain k) (hplain' k)
  · rw [List.foldl_append, hrun, hrun']

theorem Leads.sound (h : Leads rx s t) (hs : Sound s) : Sound t := by
  obtain ⟨labels, hplain, rfl⟩ := h
  exact sound_run hs fun l hl => (hplain l hl).1

variable (rx)

/-- A thread that waits with an event, or does not wait, comes to its read. -/
theorem leads_flagsTaken {u : TransceiveAt} (h : Sound s) (hdriver : s.driver = .wait u)
    (hevent : s.thread = .waiting → s.event = true) :
    ∃ t : System, Leads rx s t ∧ t.thread = .flagsTaken ∧ t.latched = s.latched ∧ t.chip = s.chip ∧
      t.driver = s.driver := by
  have hwoken : ∀ v : System, v.thread = .woken → v.driver = .wait u → v.flags.stop = false →
      v.step rx .takeFlags = { v with flags := ⟨false, false⟩, thread := .flagsTaken } := by
    intro v hthread hv hstop
    unfold System.step
    dsimp only
    rw [if_pos hthread, hv]
    dsimp only
    rw [hstop]
    rfl
  cases hthread : s.thread with
  | flagsTaken => exact ⟨s, Leads.refl s, hthread, rfl, rfl, rfl⟩
  | woken =>
    have hleads : Leads rx s (s.step rx .takeFlags) := (Leads.refl s).step ⟨nofun, nofun⟩
    refine ⟨_, hleads, ?_⟩
    rw [hwoken s hthread hdriver h.stop]
    exact ⟨rfl, rfl, rfl, rfl⟩
  | waiting =>
    have hwake : s.step rx .wake = { s with event := false, thread := .woken } :=
      if_pos ⟨hthread, hevent hthread⟩
    have hleads : Leads rx s (s.step rx .wake) := (Leads.refl s).step ⟨nofun, nofun⟩
    have htaken : Leads rx s ((s.step rx .wake).step rx .takeFlags) := hleads.step ⟨nofun, nofun⟩
    refine ⟨_, htaken, ?_⟩
    rw [hwake, hwoken { s with event := false, thread := .woken } rfl hdriver h.stop]
    exact ⟨rfl, rfl, rfl, rfl⟩

/-- And so to its next pass. -/
theorem leads_read {u : TransceiveAt} (h : Sound s) (hdriver : s.driver = .wait u)
    (hevent : s.thread = .waiting → s.event = true) (fifo : Fifo) (past : Iovec) :
    ∃ t : System, Leads rx s (t.readIrq rx fifo past) ∧ t.latched = s.latched ∧ t.chip = s.chip ∧
      t.driver = s.driver := by
  obtain ⟨t, hleads, hthread, hlatched, hchip, hsame⟩ := leads_flagsTaken rx h hdriver hevent
  refine ⟨t, ?_, hlatched, hchip, hsame⟩
  have hread : t.step rx (.readIrq fifo past) = t.readIrq rx fifo past := if_pos hthread
  exact hread ▸ hleads.step ⟨nofun, nofun⟩

-- SRX alone in the register: the next read ends the call.
theorem canReturn_srx {u : RxLocals} (h : Sound s) (hdriver : s.driver = .wait (.receiving u))
    (hlatched : s.latched = ⟨false, false, true⟩) : CanReturn rx s := by
  have hevent : s.thread = .waiting → s.event = true :=
    fun hthread => h.event hthread (by rw [hlatched]; exact nofun)
  obtain ⟨t, hleads, hregister, -, hsame⟩ := leads_read rx h hdriver hevent Fifo.empty emptyIovec
  refine ⟨_, hleads, ?_⟩
  rcases readIrq_receiving rx t Fifo.empty emptyIovec (hsame.trans hdriver) with
    ⟨-, r, hnext⟩ | ⟨hmore, -⟩
  · rw [hnext]
    rfl
  · exact absurd (hregister.trans hlatched) hmore

/-- A thread that has nothing to read waits, one that has something reads it first. -/
theorem leads_clear_receiving {u : RxLocals} (h : Sound s)
    (hdriver : s.driver = .wait (.receiving u)) (hchip : s.chip = .receiving) :
    ∃ (t : System) (v : RxLocals), Leads rx s t ∧ t.driver = .wait (.receiving v) ∧
      t.chip = .receiving ∧ t.latched = ⟨false, false, false⟩ := by
  by_cases hclear : s.latched = ⟨false, false, false⟩
  · exact ⟨s, u, Leads.refl s, hdriver, hchip, hclear⟩
  · obtain ⟨t, hleads, hregister, hphase, hsame⟩ :=
      leads_read rx h hdriver (fun hthread => h.event hthread hclear) Fifo.empty emptyIovec
    rcases readIrq_receiving rx t Fifo.empty emptyIovec (hsame.trans hdriver) with
      ⟨halone, -⟩ | ⟨-, v, hnext⟩
    · have hsrx := h.srx (by rw [← hregister, halone])
      exact absurd (hchip.symm.trans hsrx) nofun
    · exact ⟨_, v, hleads, by rw [hnext]; rfl, by rw [hnext]; exact hphase.trans hchip,
        by rw [hnext]; rfl⟩

theorem canReturn_receiving {u : RxLocals} (h : Sound s) (hdriver : s.driver = .wait (.receiving u))
    (hchip : s.chip = .receiving) : CanReturn rx s := by
  obtain ⟨t, v, hleads, hwaits, hphase, hclear⟩ := leads_clear_receiving rx h hdriver hchip
  have hsrx : t.step rx .srx =
      { t with chip := .finished }.latch { t.latched with srx := true } := if_pos hphase
  have hnext : Leads rx s (t.step rx .srx) := hleads.step ⟨nofun, nofun⟩
  refine hnext.canReturn (canReturn_srx rx (hnext.sound h) (u := v) ?_ ?_)
  · rw [hsrx, latch_driver]
    exact hwaits
  · rw [hsrx, latch_latched, hclear]

-- TX alone.
theorem canReturn_tx {u : TxLocals} (h : Sound s) (hdriver : s.driver = .wait (.sending u))
    (hlatched : s.latched = ⟨false, true, false⟩) : CanReturn rx s := by
  obtain ⟨hsent, hfin⟩ := h.tx (by rw [hlatched])
  have hphase : s.chip = .receiving := by
    cases hchip : s.chip with
    | sending => exact absurd hchip hsent
    | receiving => rfl
    | finished =>
      have hsrx := hfin hchip
      rw [hlatched] at hsrx
      cases hsrx
  have hevent : s.thread = .waiting → s.event = true :=
    fun hthread => h.event hthread (by rw [hlatched]; exact nofun)
  obtain ⟨t, hleads, hregister, hchip, hsame⟩ :=
    leads_read rx h hdriver hevent Fifo.empty emptyIovec
  rcases readIrq_sending rx t Fifo.empty emptyIovec (hsame.trans hdriver) with
    ⟨-, hnext⟩ | ⟨hmore, -⟩
  · refine hleads.canReturn (canReturn_receiving rx (hleads.sound h) (u := rx.start) ?_ ?_)
    · rw [hnext]
      rfl
    · rw [hnext]
      exact hchip.trans hphase
  · exact absurd (hregister.trans hlatched) hmore

theorem leads_clear_sending {u : TxLocals} (h : Sound s) (hdriver : s.driver = .wait (.sending u))
    (hchip : s.chip = .sending) : ∃ (t : System) (v : TxLocals), Leads rx s t ∧
      t.driver = .wait (.sending v) ∧ t.chip = .sending ∧ t.latched = ⟨false, false, false⟩ := by
  by_cases hclear : s.latched = ⟨false, false, false⟩
  · exact ⟨s, u, Leads.refl s, hdriver, hchip, hclear⟩
  · obtain ⟨t, hleads, hregister, hphase, hsame⟩ :=
      leads_read rx h hdriver (fun hthread => h.event hthread hclear) Fifo.empty emptyIovec
    rcases readIrq_sending rx t Fifo.empty emptyIovec (hsame.trans hdriver) with
      ⟨halone, -⟩ | ⟨-, v, hnext⟩
    · exact absurd hchip (h.tx (by rw [← hregister, halone])).1
    · exact ⟨_, v, hleads, by rw [hnext]; rfl, by rw [hnext]; exact hphase.trans hchip,
        by rw [hnext]; rfl⟩

theorem canReturn_sending {u : TxLocals} (h : Sound s) (hdriver : s.driver = .wait (.sending u))
    (hchip : s.chip = .sending) : CanReturn rx s := by
  obtain ⟨t, v, hleads, hwaits, hphase, hclear⟩ := leads_clear_sending rx h hdriver hchip
  have htx : t.step rx .tx =
      { t with chip := .receiving }.latch { t.latched with tx := true } := if_pos hphase
  have hnext : Leads rx s (t.step rx .tx) := hleads.step ⟨nofun, nofun⟩
  refine hnext.canReturn (canReturn_tx rx (hnext.sound h) (u := v) ?_ ?_)
  · rw [htx, latch_driver]
    exact hwaits
  · rw [htx, latch_latched, hclear]

end

/-! ## 4. When a call can still return -/

section

variable (rx : RxIovec) {s : System} {labels : List Label}

theorem doomedTx_run (h : s.DoomedTx) (hstop : s.flags.stop = false)
    (hlabels : ∀ l ∈ labels, l ≠ .stop) : (labels.foldl (System.step rx) s).DoomedTx := by
  have hboth := labels.foldlRecOn (motive := fun t => t.DoomedTx ∧ t.flags.stop = false)
    (System.step rx) ⟨h, hstop⟩ fun t ht l hl =>
      ⟨doomedTx_step ht.1 ht.2 (hlabels l hl), stop_step ht.2 (hlabels l hl)⟩
  exact hboth.1

/-- A receive loop that missed the end of its reception is left with a timeout only. -/
theorem doomedRx_run (h : s.DoomedRx) (hstop : s.flags.stop = false)
    (hlabels : ∀ l ∈ labels, l ≠ .stop) : (labels.foldl (System.step rx) s).DoomedRx ∨
      .timeout ∈ labels ∧
        ∃ r, (labels.foldl (System.step rx) s).driver = .done (.returned (-etimedout) r) := by
  have hboth := labels.foldlRecOn (motive := fun t => t.flags.stop = false ∧ (t.DoomedRx ∨
      .timeout ∈ labels ∧ ∃ r, t.driver = .done (.returned (-etimedout) r)))
    (System.step rx) ⟨hstop, .inl h⟩ fun t ht l hl => by
      refine ⟨stop_step ht.1 (hlabels l hl), ?_⟩
      rcases ht.2 with hdoomed | ⟨hmem, r, hr⟩
      · rcases doomedRx_step hdoomed ht.1 (hlabels l hl) with hnext | ⟨rfl, hret⟩
        · exact .inl hnext
        · exact .inr ⟨hl, hret⟩
      · exact .inr ⟨hmem, r, done_step hr l⟩
  exact hboth.2

theorem System.DoomedTx.not_canReturn (h : s.DoomedTx) (hstop : s.flags.stop = false) :
    ¬ CanReturn rx s := by
  rintro ⟨t, ⟨labels, hplain, rfl⟩, hresult⟩
  obtain ⟨hsome, -, -⟩ := doomedTx_run rx h hstop fun l hl => (hplain l hl).1
  obtain ⟨u, hu⟩ := Option.isSome_iff_exists.mp hsome
  rw [sendingAt_eq.mp hu] at hresult
  cases hresult

theorem System.DoomedRx.not_canReturn (h : s.DoomedRx) (hstop : s.flags.stop = false) :
    ¬ CanReturn rx s := by
  rintro ⟨t, ⟨labels, hplain, rfl⟩, hresult⟩
  rcases doomedRx_run rx h hstop fun l hl => (hplain l hl).1 with hdoomed | ⟨hmem, -⟩
  · obtain ⟨u, hu⟩ := Option.isSome_iff_exists.mp hdoomed.1
    rw [receivingAt_eq.mp hu] at hresult
    cases hresult
  · exact (hplain _ hmem).2 rfl

-- The loop the driver is in, and how far the chip is.
theorem canReturn_of_not_doomed (h : Sound s) (htx : ¬ s.DoomedTx) (hrx : ¬ s.DoomedRx) :
    CanReturn rx s := by
  match hdriver : s.driver with
  | .done r =>
    refine ⟨s, Leads.refl s, ?_⟩
    rw [hdriver]
    rfl
  | .wait (.sending u) =>
    by_cases hchip : s.chip = .sending
    · exact canReturn_sending rx h hdriver hchip
    · have halone : s.latched = ⟨false, true, false⟩ := by
        by_contra hmore
        exact htx ⟨by rw [hdriver]; rfl, hchip, hmore⟩
      exact canReturn_tx rx h hdriver halone
  | .wait (.receiving u) =>
    cases hchip : s.chip with
    | sending => exact absurd hchip (h.receiving u hdriver).1
    | receiving => exact canReturn_receiving rx h hdriver hchip
    | finished =>
      have halone : s.latched = ⟨false, false, true⟩ := by
        by_contra hmore
        exact hrx ⟨by rw [hdriver]; rfl, hchip, hmore⟩
      exact canReturn_srx rx h hdriver halone

end

/-- Wherever a run without a stop has come to, moves of chip and thread alone can still make the
call return, unless the end that its loop waits for is past and is not alone in the register. -/
theorem canReturn_iff (rx : RxIovec) (u : TxLocals) (event : Bool) (labels : List Label)
    (hlabels : ∀ l ∈ labels, l ≠ .stop) :
    let s := labels.foldl (System.step rx) (System.start u event)
    CanReturn rx s ↔ ¬ s.DoomedTx ∧ ¬ s.DoomedRx := by
  intro s
  have hsound : Sound s := sound_run (sound_start u event) hlabels
  constructor
  · intro hcan
    exact ⟨fun htx => htx.not_canReturn rx hsound.stop hcan,
      fun hrx => hrx.not_canReturn rx hsound.stop hcan⟩
  · rintro ⟨htx, hrx⟩
    exact canReturn_of_not_doomed rx hsound htx hrx

/-- A message of 40 bytes: FIFO read alone leaves the call to return, FIFO read with TX does not. -/
theorem canReturn_iff_coalesced :
    let tx := [Iovec.ofBytes (Mem.ofList 0 (List.replicate 40 0x5A)) 40]
    let rx : RxIovec := ⟨some (Mem.ofList 0 []), 2048⟩
    let read := [Label.wake, .takeFlags, .readIrq .empty emptyIovec]
    ∃ u, transceiveBegin 1 tx rx 0 = some (.wait (.sending u)) ∧
      CanReturn rx ((.fifo :: read).foldl (System.step rx) (System.start u false)) ∧
      ¬ CanReturn rx ((.fifo :: .tx :: read).foldl (System.step rx) (System.start u false)) := by
  intro tx rx read
  have hruns : (transceiveBegin 1 tx rx 0).any (fun st => (sendingAt st).any fun u =>
      decide (
        let s := (.fifo :: read).foldl (System.step rx) (System.start u false)
        let t := (.fifo :: .tx :: read).foldl (System.step rx) (System.start u false)
        (¬ s.DoomedTx ∧ ¬ s.DoomedRx) ∧ t.DoomedTx)) = true := by
    decide +kernel
  obtain ⟨st, hst, hends⟩ := (Option.any_eq_true _ _).mp hruns
  obtain ⟨u, hu, hends⟩ := (Option.any_eq_true _ _).mp hends
  obtain ⟨hfree, hdoomed⟩ := of_decide_eq_true hends
  rw [sendingAt_eq.mp hu] at hst
  refine ⟨u, hst, ?_, ?_⟩
  · exact (canReturn_iff rx u false _ (by simp [read])).mpr hfree
  · intro hcan
    exact ((canReturn_iff rx u false _ (by simp [read])).mp hcan).1 hdoomed

/-- After a lost end the call is past help: in the transmit loop it never returns, time limit or
not, and in the receive loop it can return -ETIMEDOUT at best.  For messages of any length. -/
theorem lost_forever (rx : RxIovec) (u : TxLocals) (event : Bool) (before after : List Label)
    (hbefore : ∀ l ∈ before, l ≠ .stop) (hafter : ∀ l ∈ after, l ≠ .stop)
    (hlost : (before.foldl (System.step rx) (System.start u event)).Lost) :
    let s := before.foldl (System.step rx) (System.start u event)
    let t := after.foldl (System.step rx) s
    ((sendingAt s.driver).isSome = true → (sendingAt t.driver).isSome = true) ∧
      ((receivingAt s.driver).isSome = true → (receivingAt t.driver).isSome = true ∨
        .timeout ∈ after ∧ ∃ r, t.driver = .done (.returned (-etimedout) r)) := by
  intro s t
  have hstop : s.flags.stop = false := before.foldlRecOn (motive := (·.flags.stop = false))
    (System.step rx) rfl fun _ ht l hl => stop_step ht (hbefore l hl)
  rcases hlost.doomed with hdoomed | hdoomed
  · refine ⟨fun _ => (doomedTx_run rx hdoomed hstop hafter).1, fun hother => ?_⟩
    obtain ⟨v, hv⟩ := Option.isSome_iff_exists.mp hdoomed.1
    rw [show s.driver = _ from sendingAt_eq.mp hv] at hother
    cases hother
  · refine ⟨fun hother => ?_, fun _ => ?_⟩
    · obtain ⟨v, hv⟩ := Option.isSome_iff_exists.mp hdoomed.1
      rw [show s.driver = _ from receivingAt_eq.mp hv] at hother
      cases hother
    · exact (doomedRx_run rx hdoomed hstop hafter).imp_left (·.1)

-- A message of 40 bytes whose TX is read with FIFO: neither SRX nor the clock helps.
theorem lost_forever_coalesced :
    let tx := [Iovec.ofBytes (Mem.ofList 0 (List.replicate 40 0x5A)) 40]
    let rx : RxIovec := ⟨some (Mem.ofList 0 []), 2048⟩
    let read := [Label.wake, .takeFlags, .readIrq .empty emptyIovec]
    ∃ u, transceiveBegin 1 tx rx 0 = some (.wait (.sending u)) ∧
      (sendingAt ([.srx, .wake, .takeFlags, .timeout].foldl (System.step rx)
        ((.fifo :: .tx :: read).foldl (System.step rx) (System.start u false))).driver).isSome =
          true := by
  intro tx rx read
  have hruns : (transceiveBegin 1 tx rx 0).any (fun st => (sendingAt st).any fun u =>
      let s := (.fifo :: .tx :: read).foldl (System.step rx) (System.start u false)
      decide (s.Lost ∧ (sendingAt s.driver).isSome = true)) = true := by
    decide +kernel
  obtain ⟨st, hst, hlost⟩ := (Option.any_eq_true _ _).mp hruns
  obtain ⟨u, hu, hlost⟩ := (Option.any_eq_true _ _).mp hlost
  obtain ⟨hlost, hsending⟩ := of_decide_eq_true hlost
  rw [sendingAt_eq.mp hu] at hst
  exact ⟨u, hst, (lost_forever rx u false _ _ (by simp [read]) (by simp) hlost).1 hsending⟩

end NfceeFw.Trf797x
