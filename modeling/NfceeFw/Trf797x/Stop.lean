import NfceeFw.Trf797x.Progress

/-!
# Stop — `trf797x_stop` during an exchange

`chEvtBroadcastFlags` sets a flag and an event, from any other thread and at any time.  The call
looks at its flags only between its wait and its read of the status register; a stop that comes
elsewhere has to be found there the next time.
-/

namespace NfceeFw.Trf797x

open NfceeFw.Reasoning NfceeFw.Nfc

/-! ## 1. A stop that is pending -/

def Canceled (r : TransceiveEnd) : Prop := ∃ t, r = .returned (-ecanceled) t

/-- After a stop that came during the call: it has ended as `Q` says, or the flag is set, the thread
is past its wait or will not stay in it, and it is where `ok` says. -/
inductive Heeds (ok : ThreadAt → Prop) (Q : TransceiveEnd → Prop) (s : System) : Prop where
  | ended (r : TransceiveEnd) (driver : s.driver = .done r) (as : Q r)
  | pending (u : TransceiveAt) (driver : s.driver = .wait u) (stop : s.flags.stop = true)
      (awake : s.thread = .woken ∨ s.event = true) (here : ok s.thread)

section

variable {rx : RxIovec} {s : System} {ok : ThreadAt → Prop} {Q : TransceiveEnd → Prop}

theorem resume_stop (u : TransceiveAt) :
    ∃ r, (trf797xInitiatorTransceive rx).resume u .stop = .done r ∧ Canceled r := by
  cases u with
  | sending u => exact ⟨_, rfl, _, rfl⟩
  | receiving u => exact ⟨_, rfl, _, rfl⟩

theorem takeFlags_stop (rx : RxIovec) {u : TransceiveAt} (hdriver : s.driver = .wait u)
    (hstop : s.flags.stop = true) (hthread : s.thread = .woken) :
    ∃ r, (s.step rx .takeFlags).driver = .done r ∧ Canceled r := by
  unfold System.step
  dsimp only
  rw [if_pos hthread, hdriver]
  dsimp only
  rw [if_pos hstop]
  exact resume_stop u

theorem heeds_latch {u : TransceiveAt} (hdriver : s.driver = .wait u) (hstop : s.flags.stop = true)
    (hawake : s.thread = .woken ∨ s.event = true) (hhere : ok s.thread) (c : ChipPhase)
    (i : Latched) : Heeds ok Q ({ s with chip := c }.latch i) := by
  unfold System.latch
  split
  · exact .pending u hdriver hstop hawake hhere
  · exact .pending u hdriver hstop (.inr rfl) hhere

/-- No move takes the stop back. -/
theorem heeds_step (h : Heeds ok Q s) (hwoken : ok .woken)
    (hwaiting : ok .flagsTaken → ok .waiting) (hcanceled : ∀ r, Canceled r → Q r)
    (hread : ok .flagsTaken → ∀ r, Q r) (l : Label) : Heeds ok Q (s.step rx l) := by
  cases h with
  | ended r hdriver hQ => exact .ended r (done_step hdriver l) hQ
  | pending u hdriver hstop hawake hhere =>
    have hsame : Heeds ok Q s := .pending u hdriver hstop hawake hhere
    cases l with
    | fifo => exact heeds_latch hdriver hstop hawake hhere s.chip _
    | tx =>
      exact holds_ite (P := Heeds ok Q) hsame fun _ =>
        heeds_latch hdriver hstop hawake hhere _ _
    | srx =>
      exact holds_ite (P := Heeds ok Q) hsame fun _ =>
        heeds_latch hdriver hstop hawake hhere _ _
    | stop => exact .pending u hdriver rfl (.inr rfl) hhere
    | timeout =>
      refine holds_ite (P := Heeds ok Q) hsame fun hlimit => ?_
      obtain ⟨hthread, hevent⟩ := hlimit
      -- the event of the stop is there before the time limit
      rcases hawake with hthread' | hevent'
      · exact absurd (hthread.symm.trans hthread') nofun
      · exact absurd (hevent.symm.trans hevent') nofun
    | wake =>
      exact holds_ite (P := Heeds ok Q) hsame fun _ =>
        .pending u hdriver hstop (.inl rfl) hwoken
    | takeFlags =>
      by_cases hthread : s.thread = .woken
      · obtain ⟨r, hr, hend⟩ := takeFlags_stop rx hdriver hstop hthread
        exact .ended r hr (hcanceled r hend)
      · rw [show s.step rx .takeFlags = s from if_neg hthread]
        exact hsame
    | readIrq fifo past =>
      refine holds_ite (P := Heeds ok Q) hsame fun hthread => ?_
      have hevent : s.event = true :=
        hawake.resolve_left fun hwoken' => absurd (hthread.symm.trans hwoken') nofun
      rw [hthread] at hhere
      rw [readIrq_wait rx s fifo past hdriver]
      cases passIrq rx s.latched.value fifo past u with
      | done r => exact .ended r rfl (hread hhere r)
      | wait t => exact .pending t rfl hstop (.inr hevent) (hwaiting hhere)

theorem heeds_run (h : Heeds ok Q s) (hwoken : ok .woken)
    (hwaiting : ok .flagsTaken → ok .waiting) (hcanceled : ∀ r, Canceled r → Q r)
    (hread : ok .flagsTaken → ∀ r, Q r) (labels : List Label) :
    Heeds ok Q (labels.foldl (System.step rx) s) :=
  labels.foldlRecOn (System.step rx) h fun _ ht l _ =>
    heeds_step ht hwoken hwaiting hcanceled hread l

theorem done_run {r : TransceiveEnd} (h : s.driver = .done r) (labels : List Label) :
    (labels.foldl (System.step rx) s).driver = .done r :=
  labels.foldlRecOn (motive := (·.driver = .done r)) (System.step rx) h fun _ ht l _ =>
    done_step ht l

/-! ## 2. From the stop to the end -/

-- The three places of the thread, from the last one on.
theorem heeds_woken (hcanceled : ∀ r, Canceled r → Q r) (h : Heeds (· = .woken) Q s)
    {labels : List Label} (hlabels : .takeFlags ∈ labels) :
    ∃ r, (labels.foldl (System.step rx) s).driver = .done r ∧ Q r := by
  obtain ⟨pre, post, rfl⟩ := List.append_of_mem hlabels
  have hpre : Heeds (· = .woken) Q (pre.foldl (System.step rx) s) :=
    heeds_run h rfl nofun hcanceled nofun pre
  rw [List.foldl_append, List.foldl_cons]
  cases hpre with
  | ended r hdriver hQ => exact ⟨r, done_run (done_step hdriver _) post, hQ⟩
  | pending u hdriver hstop hawake hhere =>
    obtain ⟨r, hr, hend⟩ := takeFlags_stop rx hdriver hstop hhere
    exact ⟨r, done_run hr post, hcanceled r hend⟩

theorem heeds_wake (h : Heeds (· ≠ .flagsTaken) Q s) :
    Heeds (· = .woken) Q (s.step rx .wake) := by
  cases h with
  | ended r hdriver hQ => exact .ended r (done_step hdriver _) hQ
  | pending u hdriver hstop hawake hhere =>
    cases hthread : s.thread with
    | flagsTaken => exact absurd hthread hhere
    | woken =>
      have hsame : s.step rx .wake = s := if_neg fun hwaits => by
        rw [hthread] at hwaits
        exact absurd hwaits.1 nofun
      rw [hsame]
      exact .pending u hdriver hstop hawake hthread
    | waiting =>
      have hevent := hawake.resolve_left fun hwoken => absurd (hthread.symm.trans hwoken) nofun
      have hwake : s.step rx .wake = { s with event := false, thread := .woken } :=
        if_pos ⟨hthread, hevent⟩
      rw [hwake]
      exact .pending u hdriver hstop (.inl rfl) rfl

theorem heeds_waiting (hcanceled : ∀ r, Canceled r → Q r) (h : Heeds (· ≠ .flagsTaken) Q s)
    {labels : List Label} (hlabels : [Label.wake, .takeFlags].Sublist labels) :
    ∃ r, (labels.foldl (System.step rx) s).driver = .done r ∧ Q r := by
  obtain ⟨first, rest, rfl, hwake, hrest⟩ := List.cons_sublist_iff.mp hlabels
  obtain ⟨pre, post, rfl⟩ := List.append_of_mem hwake
  have hpre : Heeds (· ≠ .flagsTaken) Q (pre.foldl (System.step rx) s) :=
    heeds_run h nofun (fun hne => absurd rfl hne) hcanceled (fun hne => absurd rfl hne) pre
  have hpost : Heeds (· = .woken) Q
      (post.foldl (System.step rx) ((pre.foldl (System.step rx) s).step rx .wake)) :=
    heeds_run (heeds_wake hpre) rfl nofun hcanceled nofun post
  rw [List.foldl_append, List.foldl_append, List.foldl_cons]
  exact heeds_woken hcanceled hpost (List.singleton_sublist.mp hrest)

-- A pass that was under way may end the call by itself.
theorem heeds_read (h : Heeds (fun _ => True) (fun _ => True) s) (fifo : Fifo) (past : Iovec) :
    Heeds (· ≠ .flagsTaken) (fun _ => True) (s.step rx (.readIrq fifo past)) := by
  cases h with
  | ended r hdriver hQ => exact .ended r (done_step hdriver _) hQ
  | pending u hdriver hstop hawake hhere =>
    by_cases hthread : s.thread = .flagsTaken
    · have hevent := hawake.resolve_left fun hwoken => absurd (hthread.symm.trans hwoken) nofun
      have hread : s.step rx (.readIrq fifo past) = s.readIrq rx fifo past := if_pos hthread
      rw [hread, readIrq_wait rx s fifo past hdriver]
      cases passIrq rx s.latched.value fifo past u with
      | done r => exact .ended r rfl trivial
      | wait t => exact .pending t rfl hstop (.inr hevent) nofun
    · have hsame : s.step rx (.readIrq fifo past) = s := if_neg hthread
      rw [hsame]
      exact .pending u hdriver hstop hawake hthread

theorem heeds_flagsTaken (h : Heeds (fun _ => True) (fun _ => True) s) {fifo : Fifo} {past : Iovec}
    {labels : List Label} (hlabels : [Label.readIrq fifo past, .wake, .takeFlags].Sublist labels) :
    ∃ r, (labels.foldl (System.step rx) s).driver = .done r := by
  obtain ⟨first, rest, rfl, hread, hrest⟩ := List.cons_sublist_iff.mp hlabels
  obtain ⟨pre, post, rfl⟩ := List.append_of_mem hread
  have hpre : Heeds (fun _ => True) (fun _ => True) (pre.foldl (System.step rx) s) :=
    heeds_run h trivial (fun _ => trivial) (fun _ _ => trivial) (fun _ _ => trivial) pre
  have hpost : Heeds (· ≠ .flagsTaken) (fun _ => True)
      (post.foldl (System.step rx) ((pre.foldl (System.step rx) s).step rx (.readIrq fifo past))) :=
    heeds_run (heeds_read hpre fifo past) nofun (fun hne => absurd rfl hne) (fun _ _ => trivial)
      (fun hne => absurd rfl hne) post
  rw [List.foldl_append, List.foldl_append, List.foldl_cons]
  obtain ⟨r, hr, -⟩ := heeds_waiting (fun _ _ => trivial) hpost hrest
  exact ⟨r, hr⟩

end

/-- What the thread does until it looks at its flags again. -/
def ThreadAt.untilFlags (fifo : Fifo) (past : Iovec) : ThreadAt → List Label
  | .waiting => [.wake, .takeFlags]
  | .woken => [.takeFlags]
  | .flagsTaken => [.readIrq fifo past, .wake, .takeFlags]

/-- A stop is never missed, in a doomed loop or elsewhere, whatever the chip does meanwhile: as soon
as the thread has looked at its flags again the call has returned, with -ECANCELED unless a pass was
under way. -/
theorem stop_cancels (rx : RxIovec) (u : TxLocals) (event : Bool) (before after : List Label)
    (fifo : Fifo) (past : Iovec) (v : TransceiveAt)
    (hopen : (before.foldl (System.step rx) (System.start u event)).driver = .wait v)
    (hafter : ((before.foldl (System.step rx) (System.start u event)).thread.untilFlags
      fifo past).Sublist after) :
    let s := before.foldl (System.step rx) (System.start u event)
    ∃ r, (after.foldl (System.step rx) (s.step rx .stop)).driver = .done r ∧
      (s.thread ≠ .flagsTaken → ∃ t, r = .returned (-ecanceled) t) := by
  intro s
  have hstopped : ∀ (ok : ThreadAt → Prop) (Q : TransceiveEnd → Prop), ok s.thread →
      Heeds ok Q (s.step rx .stop) :=
    fun _ _ hhere => .pending v hopen rfl (.inr rfl) hhere
  cases hthread : s.thread with
  | flagsTaken =>
    rw [hthread] at hafter
    obtain ⟨r, hr⟩ := heeds_flagsTaken (hstopped _ _ trivial) hafter
    exact ⟨r, hr, fun hne => absurd rfl hne⟩
  | woken =>
    rw [hthread] at hafter
    obtain ⟨r, hr, hcanceled⟩ :=
      heeds_woken (fun _ h => h) (hstopped (· = .woken) Canceled hthread)
        (List.singleton_sublist.mp hafter)
    exact ⟨r, hr, fun _ => hcanceled⟩
  | waiting =>
    rw [hthread] at hafter
    obtain ⟨r, hr, hcanceled⟩ := heeds_waiting (fun _ h => h)
      (hstopped (· ≠ .flagsTaken) Canceled (by rw [hthread]; exact nofun)) hafter
    exact ⟨r, hr, fun _ => hcanceled⟩

-- The run of 40 bytes that loses its TX: a stop ends it.
theorem stop_cancels_coalesced :
    let tx := [Iovec.ofBytes (Mem.ofList 0 (List.replicate 40 0x5A)) 40]
    let rx : RxIovec := ⟨some (Mem.ofList 0 []), 2048⟩
    let read := [Label.wake, .takeFlags, .readIrq .empty emptyIovec]
    ∃ u, transceiveBegin 1 tx rx 0 = some (.wait (.sending u)) ∧
      let s := (.fifo :: .tx :: read).foldl (System.step rx) (System.start u false)
      s.Lost ∧ ∃ r, ([.srx, .wake, .takeFlags].foldl (System.step rx) (s.step rx .stop)).driver =
        .done (.returned (-ecanceled) r) := by
  intro tx rx read
  have hruns : (transceiveBegin 1 tx rx 0).any (fun st => (sendingAt st).any fun u =>
      let s := (.fifo :: .tx :: read).foldl (System.step rx) (System.start u false)
      decide (s.Lost ∧ (sendingAt s.driver).isSome = true)) = true := by
    decide +kernel
  obtain ⟨st, hst, hlost⟩ := (Option.any_eq_true _ _).mp hruns
  obtain ⟨u, hu, hlost⟩ := (Option.any_eq_true _ _).mp hlost
  obtain ⟨hlost, hsending⟩ := of_decide_eq_true hlost
  rw [sendingAt_eq.mp hu] at hst
  refine ⟨u, hst, hlost, ?_⟩
  obtain ⟨v, hv⟩ := Option.isSome_iff_exists.mp hsending
  have hwaits := hlost.1
  obtain ⟨r, hr, hcanceled⟩ := stop_cancels rx u false (.fifo :: .tx :: read)
    [.srx, .wake, .takeFlags] .empty emptyIovec _ (sendingAt_eq.mp hv)
    (by rw [hwaits]; exact .cons _ (.refl _))
  obtain ⟨t, rfl⟩ := hcanceled (by rw [hwaits]; decide)
  exact ⟨t, hr⟩

end NfceeFw.Trf797x
