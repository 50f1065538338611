import NfceeFw.Trf797x.FirstLoad

/-!
# ContinuousTransmit — the refills of a message longer than the FIFO

The transmit loop goes on from the position that the first load hands to it.  It is followed through
any sequence of interrupts and FIFO levels: in which element it stands, at which offset, and what it
has written.
-/

namespace NfceeFw.Trf797x

open NfceeFw.Reasoning NfceeFw.Nfc

/-! ## 1. One pass of the loop -/

-- A FIFO interrupt.
def TxEvent.Fifo : TxEvent → Prop
  | .stop => False
  | .irq status _ => (status &&& irqStatusFifo != 0) = true

instance : DecidablePred TxEvent.Fifo
  | .stop => inferInstanceAs (Decidable False)
  | .irq status _ => inferInstanceAs (Decidable ((status &&& irqStatusFifo != 0) = true))

/-- The room in the FIFO that a pass would find. -/
def TxEvent.room : TxEvent → Nat
  | .stop => 0
  | .irq _ fifo => fifoRoom fifo

/-- What a pass writes to the FIFO. -/
def TxLocals.chunk (s : TxLocals) : TxEvent → List UInt8
  | .stop => []
  | .irq status fifo =>
    if status &&& irqStatusFifo != 0 then
      (s.advance.map fun t => trf797xFifoFill fifo (t.buf.read t.off t.txBytes)).getD []
    else []

theorem refill_eq (t : TxLocals) (fifo : UInt8) :
    t.refill fifo = { t with
      off := t.off + (trf797xFifoFill fifo (t.buf.read t.off t.txBytes)).length
      txBytes := t.txBytes - (trf797xFifoFill fifo (t.buf.read t.off t.txBytes)).length
      written := t.written ++ trf797xFifoFill fifo (t.buf.read t.off t.txBytes) } := by
  unfold TxLocals.refill
  by_cases hbytes : 0 < t.txBytes
  · rw [if_pos hbytes]
  · rw [if_neg hbytes, show t.txBytes = 0 by omega]
    cases t
    simp_all [trf797xFifoFill]

theorem fifoFill_length (fifo : UInt8) (m : Mem UInt8) (off len : Nat) :
    (trf797xFifoFill fifo (m.read off len)).length = min (fifoRoom fifo) len := by
  unfold trf797xFifoFill
  rw [List.length_take, Mem.read_length]

/-- The variables of the loop satisfy `I`, if it has not ended. -/
def Refilling (I : TxLocals → Prop) : Status TxLocals TxEnd → Prop
  | .wait s => I s
  | .done _ => True

-- Past a pass, the loop is where it was, or an element and a refill further.
theorem refilling_resume {I : TxLocals → Prop} {s : TxLocals} {ev : TxEvent} (hs : I s)
    (hfifo : ∀ status fifo t, ev = .irq status fifo → ev.Fifo → s.advance = some t →
      I (t.refill fifo)) : Refilling I (s.resume ev) := by
  cases ev with
  | stop => trivial
  | irq status fifo =>
    unfold TxLocals.resume
    dsimp only
    by_cases hbit : (status &&& irqStatusFifo != 0) = true
    · rw [if_pos hbit]
      cases hadvance : s.advance with
      | none => trivial
      | some t =>
        rw [Option.map_some]
        dsimp only
        split
        · exact hfifo status fifo t rfl hbit hadvance
        · trivial
    · rw [if_neg hbit]
      dsimp only
      split
      · exact hs
      · trivial

/-! ## 2. Sending a message once -/

/-- The bytes of the message before the next one that the loop would write. -/
def TxLocals.position (tx : List Iovec) (s : TxLocals) : Nat :=
  (message (tx.take (tx.length - s.tx.length))).length + s.off

/-- One pass sends the message once: it reads no element past the array, what it writes comes next
in its element, and the FIFO has been given a prefix of the message. -/
structure StepSends (tx : List Iovec) (loaded : List UInt8) (s : TxLocals) (ev : TxEvent) :
    Prop where
  within : ev.Fifo → s.advance.isSome
  inOrder : ∀ t, s.advance = some t → s.chunk ev ≠ [] →
    t.position tx = loaded.length + s.written.length ∧
    ∃ v ∈ t.tx.head?, t.off + (s.chunk ev).length ≤ iovecBytes v
  isPrefix : loaded ++ (s.written ++ s.chunk ev) <+: message tx

/-- In a run, the message is sent once; in particular nothing follows its last byte. -/
structure SendsOnce (tx : List Iovec) (loaded : List UInt8) (st : Status TxLocals TxEnd)
    (events : List TxEvent) : Prop where
  first : loaded <+: message tx
  steps : ∀ x ∈ transmitPhase.steps st events, StepSends tx loaded x.1 x.2
  complete : ∀ x ∈ transmitPhase.steps st events, loaded ++ x.1.written = message tx →
    x.1.chunk x.2 = []

/-- A FIFO interrupt finds the loop before the end of the last element, and if the hand-off was
wrong, it finds no room. -/
def Harmless (tx : List Iovec) (s : TxLocals) (ev : TxEvent) : Prop :=
  ev.Fifo → (s.txBytes ≠ 0 ∨ 1 < s.tx.length) ∧ (EndsAtLimit tx → ev.room = 0)

instance (tx : List Iovec) (s : TxLocals) (ev : TxEvent) : Decidable (Harmless tx s ev) :=
  inferInstanceAs (Decidable (_ → _ ∧ (_ → _)))

-- Nothing can follow a prefix that is everything.
theorem chunk_of_complete {tx : List Iovec} {loaded : List UInt8} {s : TxLocals} {ev : TxEvent}
    (h : StepSends tx loaded s ev) (hall : loaded ++ s.written = message tx) :
    s.chunk ev = [] := by
  have hle := h.isPrefix.length_le
  rw [← List.append_assoc, hall, List.length_append] at hle
  exact List.eq_nil_of_length_eq_zero (by omega)

theorem sendsOnce_iff_steps {tx : List Iovec} {loaded : List UInt8} (hfirst : loaded <+: message tx)
    (st : Status TxLocals TxEnd) (events : List TxEvent) :
    SendsOnce tx loaded st events ↔
      ∀ x ∈ transmitPhase.steps st events, StepSends tx loaded x.1 x.2 :=
  ⟨fun h => h.steps, fun h => ⟨hfirst, h, fun x hx => chunk_of_complete (h x hx)⟩⟩

/-! ## 3. A message that the first load takes whole -/

/-- All is loaded: the loop stands at the end of the last element and `txlen` is zero. -/
structure AllLoaded (tx : List Iovec) (loaded : List UInt8) (s : TxLocals) : Prop where
  txBytes : s.txBytes = 0
  txlen : s.txlen = 0
  loaded : loaded ++ s.written = message tx

theorem AllLoaded.advance {tx : List Iovec} {loaded : List UInt8} {s : TxLocals}
    (h : AllLoaded tx loaded s) : s.advance = some s := by
  unfold TxLocals.advance
  rw [if_neg (fun hc => hc.2 h.txlen)]

theorem AllLoaded.chunk {tx : List Iovec} {loaded : List UInt8} {s : TxLocals}
    (h : AllLoaded tx loaded s) (ev : TxEvent) : s.chunk ev = [] := by
  unfold TxLocals.chunk
  cases ev with
  | stop => rfl
  | irq status fifo =>
    dsimp only
    rw [h.advance, Option.map_some, Option.getD_some, h.txBytes, Mem.read_zero, trf797xFifoFill,
      List.take_nil, ite_self]

theorem AllLoaded.sends {tx : List Iovec} {loaded : List UInt8} {s : TxLocals}
    (h : AllLoaded tx loaded s) (ev : TxEvent) : StepSends tx loaded s ev where
  within _ := by rw [h.advance]; rfl
  inOrder _ _ hne := absurd (h.chunk ev) hne
  isPrefix := by
    rw [h.chunk ev, List.append_nil]
    exact ⟨[], (List.append_nil _).trans h.loaded⟩

theorem AllLoaded.resume {tx : List Iovec} {loaded : List UInt8} {s : TxLocals}
    (h : AllLoaded tx loaded s) (ev : TxEvent) :
    Refilling (AllLoaded tx loaded) (s.resume ev) := by
  apply refilling_resume h
  intro status fifo t hev hbit hadvance
  rw [h.advance, Option.some.injEq] at hadvance
  subst hadvance
  rw [refill_eq, h.txBytes, Mem.read_zero, show trf797xFifoFill fifo [] = [] from List.take_nil]
  exact ⟨rfl, h.txlen, by rw [List.append_nil]; exact h.loaded⟩

/-! ## 4. The position after a correct hand-off -/

/-- The loop stands in element `w`, which `pre` comes before: what was sent ends at its offset. -/
structure OnCourse (tx : List Iovec) (loaded : List UInt8) (pre : List Iovec) (w : Iovec)
    (rest : List Iovec) (s : TxLocals) : Prop where
  split : tx = pre ++ w :: rest
  stands : s.tx = w :: rest
  buf : s.buf = w.base
  bytes : s.off + s.txBytes = iovecBytes w
  txlen : s.txlen ≠ 0
  sent : loaded ++ s.written = message pre ++ w.base.read 0 s.off

section

variable {tx pre rest : List Iovec} {w : Iovec} {loaded : List UInt8} {s : TxLocals}

theorem OnCourse.position (h : OnCourse tx loaded pre w rest s) :
    s.position tx = loaded.length + s.written.length := by
  have hlen := congrArg List.length h.sent
  have hsplit := congrArg List.length h.split
  rw [List.length_append, List.length_append, Mem.read_length] at hlen
  rw [List.length_append] at hsplit
  unfold TxLocals.position
  rw [h.stands, hsplit, Nat.add_sub_cancel, h.split, List.take_left]
  omega

-- The part of the message up to the end of the element.
theorem OnCourse.isPrefix (h : OnCourse tx loaded pre w rest s) {n : Nat} (hn : n ≤ s.txBytes) :
    loaded ++ (s.written ++ s.buf.read s.off n) <+: message tx := by
  have hmore := h.bytes
  obtain ⟨k, hk⟩ := Nat.exists_eq_add_of_le hn
  have hread : w.base.read 0 s.off ++ w.base.read s.off n = w.base.read 0 (s.off + n) := by
    rw [Mem.read_add, Nat.zero_add]
  have hwhole : w.base.read 0 (iovecBytes w) =
      w.base.read 0 (s.off + n) ++ w.base.read (s.off + n) k := by
    rw [← hmore, hk, ← Nat.add_assoc, Mem.read_add, Nat.zero_add]
  rw [← List.append_assoc, h.sent, h.split, message_append, message_cons, h.buf, List.append_assoc,
    hread, hwhole, List.append_assoc]
  exact (List.prefix_append_right_inj _).mpr (List.prefix_append _ _)

theorem OnCourse.refill (h : OnCourse tx loaded pre w rest s) (fifo : UInt8) :
    OnCourse tx loaded pre w rest (s.refill fifo) := by
  have hmore := h.bytes
  rw [refill_eq]
  refine ⟨h.split, h.stands, h.buf, ?_, h.txlen, ?_⟩
  · dsimp only
    rw [fifoFill_length]
    omega
  · dsimp only
    rw [← List.append_assoc, h.sent, trf797xFifoFill, Mem.read_take, Mem.read_length, Mem.read_add,
      Nat.zero_add, h.buf, List.append_assoc]

-- At the end of an element the loop steps to the next, unless there is none.
theorem OnCourse.advance (h : OnCourse tx loaded pre w rest s) :
    ¬ (s.txBytes ≠ 0 ∨ 1 < s.tx.length) ∧ s.advance = none ∨
      (s.txBytes ≠ 0 ∨ 1 < s.tx.length) ∧ ∃ pre' w' rest' t, s.advance = some t ∧
        OnCourse tx loaded pre' w' rest' t ∧ t.written = s.written := by
  unfold TxLocals.advance
  by_cases hend : s.txBytes = 0
  · rw [if_pos ⟨hend, h.txlen⟩, h.stands, List.tail_cons]
    cases rest with
    | nil => exact .inl ⟨fun hc => hc.elim (fun hb => hb hend) (Nat.lt_irrefl 1), rfl⟩
    | cons v vs =>
      have hsent := h.sent
      have hmore := h.bytes
      refine .inr ⟨.inr (by simp), pre ++ [w], v, vs, _, rfl,
        ⟨?_, rfl, rfl, Nat.zero_add _, h.txlen, ?_⟩, rfl⟩
      · rw [h.split, List.append_assoc]
        rfl
      · rw [hsent, message_append, message_cons, ← hmore, hend]
        show _ = message pre ++ (w.base.read 0 s.off ++ []) ++ []
        rw [List.append_nil, List.append_nil]
  · rw [if_neg (fun hc => hend hc.1)]
    exact .inr ⟨.inl hend, pre, w, rest, s, rfl, h, rfl⟩

end

-- The loop is on course, in whichever element.
def Steady (tx : List Iovec) (loaded : List UInt8) (s : TxLocals) : Prop :=
  ∃ pre w rest, OnCourse tx loaded pre w rest s

theorem chunk_fifo {s t : TxLocals} {ev : TxEvent} (hfifo : ev.Fifo)
    (hadvance : s.advance = some t) :
    s.chunk ev = (t.buf.read t.off t.txBytes).take ev.room := by
  cases ev with
  | stop => exact hfifo.elim
  | irq status fifo =>
    have hbit : (status &&& irqStatusFifo != 0) = true := hfifo
    unfold TxLocals.chunk
    dsimp only
    rw [if_pos hbit, hadvance]
    rfl

theorem chunk_idle {s : TxLocals} {ev : TxEvent} (hfifo : ¬ ev.Fifo) : s.chunk ev = [] := by
  cases ev with
  | stop => rfl
  | irq status fifo =>
    have hbit : ¬ (status &&& irqStatusFifo != 0) = true := hfifo
    unfold TxLocals.chunk
    dsimp only
    rw [if_neg hbit]

-- On course, a pass goes wrong only past the last element.
theorem steady_sends {tx : List Iovec} {loaded : List UInt8} {s : TxLocals} {ev : TxEvent}
    (hlimit : ¬ EndsAtLimit tx) (h : Steady tx loaded s) :
    StepSends tx loaded s ev ↔ Harmless tx s ev := by
  obtain ⟨pre, w, rest, h⟩ := h
  by_cases hfifo : ev.Fifo
  · rcases h.advance with ⟨hend, hnone⟩ | ⟨hnext, pre', w', rest', t, hsome, ht, hwritten⟩
    · refine iff_of_false (fun hs => ?_) (fun hs => hend (hs hfifo).1)
      have hwithin := hs.within hfifo
      rw [hnone] at hwithin
      cases hwithin
    · have hmore := ht.bytes
      have hchunk := chunk_fifo hfifo hsome
      rw [Mem.read_take] at hchunk
      refine iff_of_true ⟨fun _ => by rw [hsome]; rfl, fun u hu _ => ?_, ?_⟩
        (fun _ => ⟨hnext, fun hc => absurd hc hlimit⟩)
      · rw [hsome, Option.some.injEq] at hu
        subst hu
        rw [ht.position, hwritten, hchunk, Mem.read_length, ht.stands]
        exact ⟨rfl, w', rfl, by omega⟩
      · rw [hchunk, ← hwritten]
        exact ht.isPrefix (Nat.min_le_right _ _)
  · refine iff_of_true ⟨fun hc => absurd hc hfifo, fun _ _ hne => absurd (chunk_idle hfifo) hne, ?_⟩
      (fun hc => absurd hc hfifo)
    rw [chunk_idle hfifo]
    exact h.isPrefix (n := 0) (Nat.zero_le _)

theorem steady_resume {tx : List Iovec} {loaded : List UInt8} {s : TxLocals} (ev : TxEvent)
    (h : Steady tx loaded s) : Refilling (Steady tx loaded) (s.resume ev) := by
  apply refilling_resume h
  intro status fifo t _ _ hadvance
  obtain ⟨pre, w, rest, hs⟩ := h
  rcases hs.advance with ⟨-, hnone⟩ | ⟨-, pre', w', rest', u, hsome, hu, -⟩
  · rw [hnone] at hadvance
    cases hadvance
  · rw [hsome, Option.some.injEq] at hadvance
    subst hadvance
    exact ⟨pre', w', rest', hu.refill fifo⟩

/-! ## 5. The position after a wrong hand-off -/

/-- The loop stands in an element of which nothing was sent, but not at its start, or past it. -/
structure OffCourse (tx : List Iovec) (loaded : List UInt8) (pre : List Iovec) (w : Iovec)
    (rest : List Iovec) (s : TxLocals) : Prop where
  split : tx = pre ++ w :: rest
  stands : s.tx = w :: rest
  unsent : loaded.length + s.written.length ≤ (message pre).length
  past : loaded.length + s.written.length < (message pre).length + s.off
  txlen : s.txlen ≠ 0
  sent : loaded ++ s.written <+: message tx

section

variable {tx pre rest : List Iovec} {w : Iovec} {loaded : List UInt8} {s : TxLocals}

theorem OffCourse.position (h : OffCourse tx loaded pre w rest s) :
    loaded.length + s.written.length < s.position tx := by
  have hsplit := congrArg List.length h.split
  rw [List.length_append] at hsplit
  unfold TxLocals.position
  rw [h.stands, hsplit, Nat.add_sub_cancel, h.split, List.take_left]
  exact h.past

theorem OffCourse.advance (hpos : ∀ v ∈ tx, 0 < iovecBytes v)
    (h : OffCourse tx loaded pre w rest s) :
    ¬ (s.txBytes ≠ 0 ∨ 1 < s.tx.length) ∧ s.advance = none ∨
      (s.txBytes ≠ 0 ∨ 1 < s.tx.length) ∧ ∃ pre' w' rest' t, s.advance = some t ∧
        OffCourse tx loaded pre' w' rest' t ∧ 0 < t.txBytes ∧ t.written = s.written := by
  unfold TxLocals.advance
  by_cases hend : s.txBytes = 0
  · rw [if_pos ⟨hend, h.txlen⟩, h.stands, List.tail_cons]
    cases rest with
    | nil => exact .inl ⟨fun hc => hc.elim (fun hb => hb hend) (Nat.lt_irrefl 1), rfl⟩
    | cons v vs =>
      have hunsent := h.unsent
      have hw := hpos w (by rw [h.split]; simp)
      have hv := hpos v (by rw [h.split]; simp)
      have hnext : (message (pre ++ [w])).length = (message pre).length + iovecBytes w := by
        rw [message_append, List.length_append, message_cons_length]
        rfl
      refine .inr ⟨.inr (by simp), pre ++ [w], v, vs, _, rfl, ⟨?_, rfl, ?_, ?_, h.txlen, h.sent⟩,
        hv, rfl⟩
      · rw [h.split, List.append_assoc]
        rfl
      · rw [hnext]
        exact Nat.le_trans hunsent (Nat.le_add_right _ _)
      · rw [hnext]
        show loaded.length + s.written.length < _ + 0
        omega
  · rw [if_neg (fun hc => hend hc.1)]
    exact .inr ⟨.inl hend, pre, w, rest, s, rfl, h, Nat.pos_of_ne_zero hend, rfl⟩

end

def Astray (tx : List Iovec) (loaded : List UInt8) (s : TxLocals) : Prop :=
  ∃ pre w rest, OffCourse tx loaded pre w rest s

-- Off course, a pass sends a wrong byte if it sends any.
theorem astray_sends {tx : List Iovec} {loaded : List UInt8} {s : TxLocals} {ev : TxEvent}
    (hpos : ∀ v ∈ tx, 0 < iovecBytes v) (hlimit : EndsAtLimit tx) (h : Astray tx loaded s) :
    StepSends tx loaded s ev ↔ Harmless tx s ev := by
  obtain ⟨pre, w, rest, h⟩ := h
  by_cases hfifo : ev.Fifo
  · rcases h.advance hpos with ⟨hend, hnone⟩ | ⟨hnext, pre', w', rest', t, hsome, ht, htx, hsame⟩
    · refine iff_of_false (fun hs => ?_) (fun hs => hend (hs hfifo).1)
      have hwithin := hs.within hfifo
      rw [hnone] at hwithin
      cases hwithin
    · have hchunk := chunk_fifo hfifo hsome
      have hlength := congrArg List.length hchunk
      rw [List.length_take, Mem.read_length] at hlength
      have hposition := ht.position
      constructor
      · intro hs _
        refine ⟨hnext, fun _ => ?_⟩
        by_contra hroom
        have hne : s.chunk ev ≠ [] := List.ne_nil_of_length_pos (by omega)
        have horder := (hs.inOrder t hsome hne).1
        rw [hsame] at hposition
        omega
      · intro hs
        have hempty : s.chunk ev = [] := List.eq_nil_of_length_eq_zero (by
          rw [hlength, (hs hfifo).2 hlimit, Nat.zero_min])
        refine ⟨fun _ => by rw [hsome]; rfl, fun _ _ hne => absurd hempty hne, ?_⟩
        rw [hempty, List.append_nil]
        exact h.sent
  · refine iff_of_true ⟨fun hc => absurd hc hfifo, fun _ _ hne => absurd (chunk_idle hfifo) hne, ?_⟩
      (fun hc => absurd hc hfifo)
    rw [chunk_idle hfifo, List.append_nil]
    exact h.sent

theorem astray_resume {tx : List Iovec} {loaded : List UInt8} {s : TxLocals} {ev : TxEvent}
    (hpos : ∀ v ∈ tx, 0 < iovecBytes v) (hlimit : EndsAtLimit tx) (h : Astray tx loaded s)
    (hharmless : Harmless tx s ev) : Refilling (Astray tx loaded) (s.resume ev) := by
  apply refilling_resume h
  intro status fifo t hev hfifo hadvance
  obtain ⟨pre, w, rest, hs⟩ := h
  rcases hs.advance hpos with ⟨-, hnone⟩ | ⟨-, pre', w', rest', u, hsome, hu, -⟩
  · rw [hnone] at hadvance
    cases hadvance
  · rw [hsome, Option.some.injEq] at hadvance
    subst hadvance
    -- without room the refill writes nothing and leaves the position
    have hroom : fifoRoom fifo = 0 := by
      have hzero := (hharmless hfifo).2 hlimit
      rw [hev] at hzero
      exact hzero
    have hempty : trf797xFifoFill fifo (u.buf.read u.off u.txBytes) = [] := by
      rw [trf797xFifoFill, hroom, List.take_zero]
    rw [refill_eq, hempty, List.append_nil]
    exact ⟨pre', w', rest', hu.split, hu.stands, hu.unsent, hu.past, hu.txlen, hu.sent⟩

/-! ## 6. Whole runs -/

-- `tx_bytes`, where the position is within its element.
theorem txBytes_start {v : Iovec} {sent : Nat} (h : sent ≤ iovecBytes v) :
    (iovecBytes v + 2 ^ 32 - sent) % 2 ^ 32 = iovecBytes v - sent := by
  have hlt : iovecBytes v < 2 ^ 32 := by
    unfold iovecBytes
    omega
  omega

section

variable {tx : List Iovec} {t : Transmitted} {l : Load} (htx : t.tx = l.tx) (hlen : t.len = l.len)
  (hsent : t.sent = l.sent) (hloaded : t.loaded = (message tx).take trf797xFifoSize)

include htx hlen hsent hloaded

theorem start_all {v : Iovec} (hfits : (message tx).length ≤ trf797xFifoSize)
    (hstop : l.tx = [v]) (hend : l.len = 0) (hwhole : l.sent = iovecBytes v) :
    ∃ s, transmitStart t = some s ∧ AllLoaded tx t.loaded s := by
  unfold transmitStart
  rw [htx, hstop, hlen, hend, hsent, hwhole]
  refine ⟨_, rfl, ?_, rfl, ?_⟩
  · dsimp only
    rw [txBytes_start (Nat.le_refl _), Nat.sub_self]
  · rw [hloaded, List.take_of_length_le hfits, List.append_nil]

theorem start_inside {pre post : List Iovec} {v : Iovec} (hsplit : tx = pre ++ v :: post)
    (hlo : (message pre).length < trf797xFifoSize)
    (hhi : trf797xFifoSize < (message pre).length + iovecBytes v) (hstop : l.tx = v :: post)
    (hrest : l.len = post.length + 1)
    (hoff : l.sent = trf797xFifoSize - (message pre).length) :
    ∃ s, transmitStart t = some s ∧ OnCourse tx t.loaded pre v post s := by
  have hwithin : trf797xFifoSize - (message pre).length ≤ iovecBytes v := by omega
  unfold transmitStart
  rw [htx, hstop, hlen, hrest, hsent, hoff]
  refine ⟨_, rfl, hsplit, rfl, rfl, ?_, Nat.succ_ne_zero _, ?_⟩
  · dsimp only
    rw [txBytes_start hwithin]
    omega
  · rw [hloaded, hsplit, message_append, message_cons, List.take_append,
      List.take_of_length_le (Nat.le_of_lt hlo), List.append_nil,
      List.take_append_of_le_length (by rw [Mem.read_length]; exact hwithin), Mem.read_take,
      Nat.min_eq_left hwithin]

theorem start_atEnd {pre post : List Iovec} {v : Iovec} (hsplit : tx = pre ++ v :: post)
    (hmore : post ≠ []) (hfull : (message pre).length + iovecBytes v = trf797xFifoSize)
    (hv : 0 < iovecBytes v) (hstop : l.tx = post) (hrest : l.len = post.length)
    (hoff : l.sent = iovecBytes v) :
    ∃ s, transmitStart t = some s ∧ Astray tx t.loaded s := by
  obtain ⟨w, ws, rfl⟩ := List.exists_cons_of_ne_nil hmore
  have hpre : (message (pre ++ [v])).length = trf797xFifoSize := by
    rw [message_append, List.length_append, message_cons_length]
    exact hfull
  have hsize : (t.loaded).length ≤ trf797xFifoSize := by
    rw [hloaded, List.length_take]
    exact Nat.min_le_left _ _
  unfold transmitStart
  rw [htx, hstop, hlen, hrest, hsent, hoff]
  refine ⟨_, rfl, pre ++ [v], w, ws, ?_, rfl, ?_, ?_, Nat.succ_ne_zero _, ?_⟩
  · rw [hsplit, List.append_assoc]
    rfl
  · rw [hpre]
    exact hsize
  · rw [hpre]
    show t.loaded.length + 0 < trf797xFifoSize + iovecBytes v
    omega
  · rw [hloaded, List.append_nil]
    exact List.take_prefix _ _

end

/-- The continuous transmit sends its message once exactly if the message fits the FIFO, or no FIFO
interrupt finds the loop at the end of it or, after a wrong hand-off, with room to fill. -/
theorem sendsOnce_iff (tx : List Iovec) (fuel junk : Nat) (hfuel : tx.length ≤ fuel) (hne : tx ≠ [])
    (hpos : ∀ v ∈ tx, 0 < v.bits) (hbits : bitSum tx < 2 ^ 31) :
    ∃ t s, trf797xTransmit fuel tx false junk = some t ∧ transmitStart t = some s ∧
      ∀ events, SendsOnce tx t.loaded (.wait s) events ↔
        (message tx).length ≤ trf797xFifoSize ∨
          ∀ x ∈ transmitPhase.steps (.wait s) events, Harmless tx x.1 x.2 := by
  have hlength := length_le_bitSum hpos
  have hbytes := iovecBytes_pos hpos hbits
  obtain ⟨t, ht, -, hloaded, hend⟩ := transmit_load false junk hfuel (by omega) hbits
  obtain ⟨l, hl, htx, hlen, hsent⟩ := hend hpos hne
  have hfirst : t.loaded <+: message tx := by
    rw [hloaded]
    exact List.take_prefix _ _
  cases hl with
  | all pre v hvs hfits hstop hcount hwhole =>
    rw [Nat.zero_add] at hfits
    obtain ⟨s, hs, hall⟩ := start_all htx hlen hsent hloaded hfits hstop hcount hwhole
    refine ⟨t, s, ht, hs, fun events => iff_of_true ?_ (.inl hfits)⟩
    rw [sendsOnce_iff_steps hfirst]
    intro x hx
    have hkept := Program.steps_invariant transmitPhase (I := Refilling (AllLoaded tx t.loaded))
      (fun u ev hu => AllLoaded.resume hu ev) (.wait s) hall events x hx
    exact AllLoaded.sends hkept x.2
  | inside pre v post hvs hlo hhi hstop hcount hoff =>
    rw [Nat.zero_add] at hlo hhi hoff
    have hlimit := endsAtLimit_inside hpos hbits hvs hlo hhi
    have hmore : ¬ (message tx).length ≤ trf797xFifoSize := by
      rw [hvs, message_append, List.length_append, message_cons_length]
      omega
    obtain ⟨s, hs, hcourse⟩ := start_inside htx hlen hsent hloaded hvs hlo hhi hstop hcount hoff
    refine ⟨t, s, ht, hs, fun events => ?_⟩
    rw [sendsOnce_iff_steps hfirst, or_iff_right hmore]
    exact Program.steps_iff transmitPhase (I := Refilling (Steady tx t.loaded))
      (P := StepSends tx t.loaded) (G := Harmless tx) (fun u ev hu => steady_sends hlimit hu)
      (fun u ev hu _ => steady_resume ev hu)
      (.wait s) (show Steady tx t.loaded s from ⟨pre, v, post, hcourse⟩) events
  | atEnd pre v post hvs hpost hfull hstop hcount hoff =>
    rw [Nat.zero_add] at hfull
    have hlimit := endsAtLimit_atEnd hvs hpost hfull
    have hv := hbytes v (by rw [hvs]; simp)
    have hmore : ¬ (message tx).length ≤ trf797xFifoSize :=
      fun hfits => endsAtLimit_all hpos hbits hfits hlimit
    obtain ⟨s, hs, hastray⟩ :=
      start_atEnd htx hlen hsent hloaded hvs hpost hfull hv hstop hcount hoff
    refine ⟨t, s, ht, hs, fun events => ?_⟩
    rw [sendsOnce_iff_steps hfirst, or_iff_right hmore]
    exact Program.steps_iff transmitPhase (I := Refilling (Astray tx t.loaded))
      (P := StepSends tx t.loaded) (G := Harmless tx) (fun u ev hu => astray_sends hbytes hlimit hu)
      (fun u ev hu hharmless => astray_resume hbytes hlimit hu hharmless) (.wait s) hastray events

-- A load and a run on fixed input are evaluated together.
theorem start_evaluated (load : Option Transmitted) (P : Transmitted → TxLocals → Prop)
    [∀ t s, Decidable (P t s)]
    (h : load.any (fun t => (transmitStart t).any fun s => decide (P t s)) = true) :
    ∃ t s, load = some t ∧ transmitStart t = some s ∧ P t s := by
  obtain ⟨t, ht, hany⟩ := (Option.any_eq_true _ _).mp h
  obtain ⟨s, hs, hP⟩ := (Option.any_eq_true _ _).mp hany
  exact ⟨t, s, ht, hs, of_decide_eq_true hP⟩

-- A message of 130 bytes, refilled once while it is being sent.
theorem sendsOnce_one_refill :
    let tx := [Iovec.ofBytes (Mem.ofList 0 (List.replicate 130 0x5A)) 130]
    ∃ t s, trf797xTransmit 1 tx false 0 = some t ∧ transmitStart t = some s ∧
      SendsOnce tx t.loaded (.wait s) [.irq 0x20 0x20, .irq 0x80 0x00] := by
  intro tx
  obtain ⟨t, s, ht, hs, hiff⟩ := sendsOnce_iff tx 1 0 (Nat.le_refl 1) (List.cons_ne_nil _ _)
    (by decide) (by decide)
  obtain ⟨t', s', ht', hs', hrun⟩ := start_evaluated (trf797xTransmit 1 tx false 0)
    (fun _ s => ∀ x ∈ transmitPhase.steps (.wait s) [.irq 0x20 0x20, .irq 0x80 0x00],
      Harmless tx x.1 x.2) (by decide +kernel)
  rw [ht, Option.some.injEq] at ht'
  subst ht'
  rw [hs, Option.some.injEq] at hs'
  subst hs'
  exact ⟨t, s, ht, hs, (hiff _).mpr (.inr hrun)⟩

/-- The FIFO asks for more after the last byte of a 128-byte message: the loop steps past the end of
the array, which `txlen` still counts as not sent. -/
theorem sendsOnce_overrun :
    let tx := [Iovec.ofBytes (Mem.ofList 0 (List.replicate 128 0x5A)) 128]
    let events := [TxEvent.irq 0x20 0x20, .irq 0x20 0x10]
    (∀ v ∈ tx, 0 < v.bits ∧ v.bits % 8 = 0) ∧ bitSum tx ≤ 8 * 4095 ∧
    ∃ t s, trf797xTransmit 1 tx false 0 = some t ∧ transmitStart t = some s ∧
      (∃ x ∈ transmitPhase.steps (.wait s) events,
        t.loaded ++ x.1.written = message tx ∧ x.1.advance.isSome = false) ∧
      ¬ SendsOnce tx t.loaded (.wait s) events := by
  intro tx events
  obtain ⟨t, s, ht, hs, hrun⟩ := start_evaluated (trf797xTransmit 1 tx false 0)
    (fun t s => ∃ x ∈ transmitPhase.steps (.wait s) events,
      x.2.Fifo ∧ t.loaded ++ x.1.written = message tx ∧ x.1.advance.isSome = false)
    (by decide +kernel)
  obtain ⟨x, hx, hfifo, hall, hnone⟩ := hrun
  refine ⟨by decide, by decide, t, s, ht, hs, ⟨x, hx, hall, hnone⟩, fun h => ?_⟩
  have hwithin := (h.steps x hx).within hfifo
  rw [hnone] at hwithin
  exact Bool.false_ne_true hwithin

end NfceeFw.Trf797x
