import NfceeFw.Nfc.Pcb
import NfceeFw.Trf797x.Initiator

/-!
# Receive — the frame that the continuous receive puts together

The receive loop drains the FIFO a part at a time, into an area that may fill up in the middle of a
part.  What a run has been presented is read off its history.
-/

namespace NfceeFw.Trf797x

open NfceeFw.Reasoning NfceeFw.Nfc

/-! ## 1. One drain -/

theorem Fifo.status_bytes (f : Fifo) : (f.status &&& 0x7f).toNat = f.content.length := by
  have hall : ∀ n : Fin 128, ∀ overflow : Bool,
      ((UInt8.ofNat n ||| if overflow then 0x80 else 0) &&& 0x7f).toNat = n := by
    decide +kernel
  exact hall ⟨f.content.length, Nat.lt_succ_of_le f.fits⟩ f.overflow

-- What is not stored is discarded: the FIFO is empty afterwards.
theorem drain_left (f : Fifo) (isNull : Bool) (len : Nat) :
    (trf797xFifoDrain f isNull len).2 = [] := by
  unfold trf797xFifoDrain fifoDrained
  dsimp only
  rw [f.status_bytes, List.drop_drop]
  exact List.drop_of_length_le (by omega)

theorem drain_stored (f : Fifo) {isNull : Bool} {len : Nat} (hnull : isNull = true → len = 0) :
    (trf797xFifoDrain f isNull len).1 = f.content.take len := by
  unfold trf797xFifoDrain fifoDrained
  dsimp only
  rw [f.status_bytes]
  cases len with
  | zero => simp
  | succ len =>
    have hbuf : isNull = false := by
      cases isNull with
      | false => rfl
      | true => exact absurd (hnull rfl) (Nat.succ_ne_zero len)
    rw [hbuf, if_pos (by simp), ← List.take_take, List.take_length]

/-! ## 2. What a run has been presented -/

-- An interrupt on which the receive loop empties the FIFO.
def Drains (status : UInt8) : Prop :=
  (status &&& irqStatusError != 0) = false ∧
    (status &&& (irqStatusFifo ||| irqStatusSrx) != 0) = true

instance (status : UInt8) : Decidable (Drains status) := inferInstanceAs (Decidable (_ ∧ _))

/-- The bytes that the chip presents in a step. -/
def presented : TransceiveAt × IrqEvent → List UInt8
  | (.receiving _, .irq status fifo) => if Drains status then fifo.content else []
  | _ => []

/-- A step of the receive phase without an error, which leaves nothing in a FIFO that it drains. -/
def Clean : TransceiveAt × IrqEvent → Prop
  | (.receiving s, .irq status fifo) => (status &&& irqStatusError != 0) = false ∧
      (Drains status → (trf797xFifoDrain fifo s.base.isNone s.rxBytes).2 = [])
  | _ => True

/-- The receive area has taken what fits of the bytes presented, in order. -/
structure InOrder (rx : RxIovec) (log : List (TransceiveAt × IrqEvent)) (s : RxLocals) : Prop where
  off : s.off = min (log.flatMap presented).length rx.bytes
  room : s.rxBytes = rx.bytes - (log.flatMap presented).length
  null : s.base.isNone = rx.base.isNone
  data : ∀ m, s.base = some m → m.read 0 s.off = (log.flatMap presented).take rx.bytes
  kept : ∀ m m₀, s.base = some m → rx.base = some m₀ → ∀ i, s.off ≤ i → m i = m₀ i
  clean : ∀ x ∈ log, Clean x

/-- A finished reception: `n` bytes, as many as were presented or as fit; nothing else changed. -/
structure Reassembled (rx : RxIovec) (log : List (TransceiveAt × IrqEvent)) (n : Int)
    (s : RxLocals) : Prop where
  count : n = (min (log.flatMap presented).length rx.bytes : Nat)
  null : s.base.isNone = rx.base.isNone
  data : ∀ m, s.base = some m → m.read 0 n.toNat = (log.flatMap presented).take n.toNat
  kept : ∀ m m₀, s.base = some m → rx.base = some m₀ → ∀ i, n.toNat ≤ i → m i = m₀ i
  clean : ∀ x ∈ log, Clean x
  last : ∃ u fifo, log.getLast? = some (.receiving u, .irq irqStatusSrx fifo)

theorem rxBytes_lt (rx : RxIovec) : rx.bytes < 2 ^ 31 := by
  unfold RxIovec.bytes
  omega

theorem inOrder_start (rx : RxIovec) : InOrder rx [] rx.start where
  off := (Nat.zero_min _).symm
  room := (Nat.sub_zero _).symm
  null := rfl
  data m _ := List.take_nil.symm
  kept m m₀ hm hm₀ i _ := by rw [Option.some.inj (hm.symm.trans hm₀)]
  clean _ hx := absurd hx List.not_mem_nil

section

variable {rx : RxIovec} {log : List (TransceiveAt × IrqEvent)} {s : RxLocals}

theorem InOrder.clean_snoc (h : InOrder rx log s) {x : TransceiveAt × IrqEvent} (hclean : Clean x) :
    ∀ y ∈ log ++ [x], Clean y := by
  intro y hy
  rcases List.mem_append.mp hy with hlog | hlast
  · exact h.clean y hlog
  · rw [List.mem_singleton.mp hlast]
    exact hclean

-- A step on which nothing is drained.
theorem InOrder.push (h : InOrder rx log s) {x : TransceiveAt × IrqEvent} (hclean : Clean x)
    (hnone : presented x = []) : InOrder rx (log ++ [x]) s := by
  have hgot : (log ++ [x]).flatMap presented = log.flatMap presented := by
    rw [List.flatMap_append, List.flatMap_singleton, hnone, List.append_nil]
  refine ⟨?_, ?_, h.null, ?_, h.kept, h.clean_snoc hclean⟩
  · rw [hgot]
    exact h.off
  · rw [hgot]
    exact h.room
  · rw [hgot]
    exact h.data

theorem InOrder.drain (h : InOrder rx log s) (hnull : rx.base = none → rx.bytes = 0)
    {status : UInt8} (hdrains : Drains status) (fifo : Fifo) :
    InOrder rx (log ++ [(.receiving s, .irq status fifo)]) (s.drain fifo) := by
  have hoff := h.off
  have hroom := h.room
  have hdata := h.data
  have hgot : (log ++ [(TransceiveAt.receiving s, IrqEvent.irq status fifo)]).flatMap presented =
      log.flatMap presented ++ fifo.content := by
    have hlast : presented (TransceiveAt.receiving s, IrqEvent.irq status fifo) = fifo.content :=
      if_pos hdrains
    rw [List.flatMap_append, List.flatMap_singleton, hlast]
  have hstored : (trf797xFifoDrain fifo s.base.isNone s.rxBytes).1 =
      fifo.content.take (rx.bytes - (log.flatMap presented).length) := by
    rw [← hroom]
    apply drain_stored
    intro hnone
    rw [h.null, Option.isNone_iff_eq_none] at hnone
    rw [hroom, hnull hnone, Nat.zero_sub]
  generalize log.flatMap presented = got at *
  have hlen : (fifo.content.take (rx.bytes - got.length)).length =
      min fifo.content.length (rx.bytes - got.length) := by
    rw [List.length_take, Nat.min_comm]
  have hnext : s.off + (fifo.content.take (rx.bytes - got.length)).length =
      min (got ++ fifo.content).length rx.bytes := by
    rw [hlen, List.length_append]
    omega
  unfold RxLocals.drain
  refine ⟨?_, ?_, ?_, ?_, ?_, h.clean_snoc ⟨hdrains.1, fun _ => drain_left _ _ _⟩⟩
  · dsimp only
    rw [hgot, hstored, hnext]
  · dsimp only
    rw [hgot, hstored, hlen, List.length_append]
    omega
  · dsimp only
    rw [Option.isNone_map]
    exact h.null
  · intro m hm
    dsimp only at hm ⊢
    obtain ⟨m', hm', rfl⟩ := Option.map_eq_some_iff.mp hm
    have hread := hdata m' hm'
    rw [hoff] at hread
    rw [hgot, hstored, hnext, hoff]
    exact Mem.read_append_clipped m' got fifo.content rx.bytes hread
  · intro m m₀ hm hm₀ i hi
    dsimp only at hm hi
    obtain ⟨m', hm', rfl⟩ := Option.map_eq_some_iff.mp hm
    rw [Mem.write_above _ _ _ _ hi, h.kept m' m₀ hm' hm₀ i (by omega)]

/-- The reception ends on SRX alone, and returns how far `rx_buf` has got. -/
theorem InOrder.finished {u : RxLocals} {fifo : Fifo}
    (h : InOrder rx (log ++ [(.receiving u, .irq irqStatusSrx fifo)]) s) :
    Reassembled rx (log ++ [(.receiving u, .irq irqStatusSrx fifo)]) (toInt s.off) s := by
  have hoff := h.off
  have hcap := rxBytes_lt rx
  have hret : toInt s.off = (s.off : Int) := toInt_of_lt (by omega)
  rw [hret]
  refine ⟨by rw [hoff], h.null, ?_, ?_, h.clean, u, fifo, ?_⟩
  · intro m hm
    rw [Int.toNat_natCast, h.data m hm, hoff, Nat.min_comm]
    exact List.take_eq_take_min
  · rw [Int.toNat_natCast]
    exact h.kept
  · rw [List.getLast?_append]
    rfl

end

/-! ## 3. Whole runs -/

/-- Where a run stands, and what it has made of the history. -/
def RxKept (rx : RxIovec) (log : List (TransceiveAt × IrqEvent)) :
    Status TransceiveAt TransceiveEnd → Prop
  | .wait (.sending _) => InOrder rx log rx.start
  | .wait (.receiving s) => InOrder rx log s
  | .done (.returned n s) => 0 ≤ n → Reassembled rx log n s
  | .done .overrun => True

theorem irq2error_neg (status : UInt8) :
    (status &&& irqStatusError != 0) = true → irq2error status < 0 := by
  revert status
  exact forallByte (by decide +kernel)

theorem rxKept_error {rx : RxIovec} {log : List (TransceiveAt × IrqEvent)} {n : Int} {s : RxLocals}
    (h : n < 0) : RxKept rx log (.done (.returned n s)) :=
  fun hn => absurd hn (Int.not_le.mpr h)

theorem rxKept_sending {rx : RxIovec} {log : List (TransceiveAt × IrqEvent)} {s : TxLocals}
    (h : InOrder rx log rx.start) (ev : IrqEvent) :
    RxKept rx (log ++ [(.sending s, ev)]) (resumeSending rx s ev) := by
  have hnext : InOrder rx (log ++ [(.sending s, ev)]) rx.start := h.push trivial rfl
  cases ev with
  | timeout => exact rxKept_error (by decide)
  | stop => exact rxKept_error (by decide)
  | irq status fifo =>
    unfold resumeSending
    dsimp only
    split
    · exact hnext
    · exact hnext
    · exact rxKept_error (by decide)
    · trivial

theorem rxKept_receiving {rx : RxIovec} (hnull : rx.base = none → rx.bytes = 0)
    {log : List (TransceiveAt × IrqEvent)} {s : RxLocals} (h : InOrder rx log s) (ev : IrqEvent) :
    RxKept rx (log ++ [(.receiving s, ev)]) (resumeReceiving s ev) := by
  cases ev with
  | timeout => exact rxKept_error (by decide)
  | stop => exact rxKept_error (by decide)
  | irq status fifo =>
    unfold resumeReceiving RxLocals.resume
    dsimp only
    by_cases herror : (status &&& irqStatusError != 0) = true
    · rw [if_pos herror]
      exact rxKept_error (irq2error_neg status herror)
    rw [if_neg herror]
    rw [Bool.not_eq_true] at herror
    by_cases hdrains : (status &&& (irqStatusFifo ||| irqStatusSrx) != 0) = true
    · have hnext := h.drain hnull ⟨herror, hdrains⟩ fifo
      rw [if_pos hdrains]
      by_cases hlast : (status != irqStatusSrx) = true
      · rw [if_pos hlast]
        exact hnext
      · rw [if_neg hlast]
        have hstatus : status = irqStatusSrx := by simpa using hlast
        subst hstatus
        exact fun _ => hnext.finished
    · have hidle : ¬ Drains status := fun hd => hdrains hd.2
      rw [if_neg hdrains]
      have hnext : InOrder rx (log ++ [(.receiving s, .irq status fifo)]) s :=
        h.push ⟨herror, fun hd => absurd hd hidle⟩ (if_neg hidle)
      have hmore : (status != irqStatusSrx) = true := by
        rw [bne_iff_ne]
        rintro rfl
        exact hdrains rfl
      rw [if_pos hmore]
      exact hnext

/-- A reception that succeeds returns the frame that the chip presented, cut at the capacity, with
nothing written past it, the FIFO emptied at every drain, and no error on the way to the SRX that
ends it. -/
theorem receive_reassembles (tx : List Iovec) (rx : RxIovec)
    (hnull : rx.base = none → rx.bytes = 0) (fuel junk : Nat)
    (st : Status TransceiveAt TransceiveEnd) (hst : transceiveBegin fuel tx rx junk = some st)
    (events : List IrqEvent) (n : Int) (s : RxLocals)
    (hend : (trf797xInitiatorTransceive rx).feed st events = .done (.returned n s)) (hn : 0 ≤ n) :
    Reassembled rx ((trf797xInitiatorTransceive rx).steps st events) n s := by
  have hstart : RxKept rx [] st := by
    unfold transceiveBegin at hst
    split at hst
    · rw [Option.some.injEq] at hst
      subst hst
      exact rxKept_error (by decide)
    · obtain ⟨u, -, rfl⟩ := Option.map_eq_some_iff.mp hst
      exact inOrder_start rx
  have hrun := Program.history_invariant (trf797xInitiatorTransceive rx) (I := RxKept rx)
    (G := fun _ _ => True)
    (fun log at_ ev hlog _ => by
      cases at_ with
      | sending u => exact rxKept_sending hlog ev
      | receiving u => exact rxKept_receiving hnull hlog ev)
    st hstart events (fun _ _ => trivial)
  rw [hend] at hrun
  exact hrun hn

-- Two drains into an area of four bytes, which is full in the middle of the second.
theorem receive_reassembles_clipped :
    let tx := [Iovec.ofBytes (Mem.ofList 0 [0x02, 0x6A, 0x5B]) 3]
    let rx : RxIovec := ⟨some (Mem.ofList 0 []), 32⟩
    let events := [IrqEvent.irq 0x80 ⟨[], false, by decide⟩,
      .irq 0x20 ⟨[0x02, 0x90, 0x00], false, by decide⟩, .irq 0x40 ⟨[0x3C, 0x1E], true, by decide⟩]
    ∃ st s, transceiveBegin 1 tx rx 0 = some st ∧
      (trf797xInitiatorTransceive rx).feed st events = .done (.returned 4 s) ∧
      Reassembled rx ((trf797xInitiatorTransceive rx).steps st events) 4 s := by
  intro tx rx events
  have hrun : (transceiveBegin 1 tx rx 0).any (fun st =>
      ((trf797xInitiatorTransceive rx).feed st events).result.any fun
        | .returned n _ => decide (n = 4)
        | .overrun => false) = true := by decide +kernel
  obtain ⟨st, hst, hend⟩ := (Option.any_eq_true _ _).mp hrun
  cases hfeed : (trf797xInitiatorTransceive rx).feed st events with
  | wait u =>
    rw [hfeed] at hend
    cases hend
  | done r =>
    rw [hfeed] at hend
    cases r with
    | overrun => cases hend
    | returned n s =>
      have hn : n = 4 := of_decide_eq_true hend
      subst hn
      exact ⟨st, s, hst, hfeed, receive_reassembles tx rx (by decide) 1 0 st hst events 4 s hfeed
        (by decide)⟩

end NfceeFw.Trf797x
