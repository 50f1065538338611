import NfceeFw.Reasoning.Layers
import NfceeFw.Trf797x.ContinuousTransmit
import NfceeFw.Trf797x.Receive

/-!
# Exchange — a call of `dev->transceive` as a run of the two loops

What the protocol layers take for granted of the device: an answer is an error, or the frame that
the chip has presented, in the receive area as far as it has room.  Here it is a fact about
`trf797x_initiator_transceive` under `nfc_device_transceive`, for frames that fit the FIFO.
-/

namespace NfceeFw.Trf797x

open NfceeFw.Reasoning NfceeFw.Nfc

/-! ## 1. The device -/

/-- A call of `dev->transceive`: its arguments, and what the receive area holds. -/
structure DeviceExchange where
  request : DevRequest
  area : Mem UInt8

/-- Its return value, and what it leaves in the receive area. -/
structure DeviceResult where
  ret : Int
  area : Mem UInt8

-- `_rx` of `nfc_device_transceive`
def DeviceExchange.rx (x : DeviceExchange) : RxIovec := ⟨some x.area, x.request.rxBits⟩

def TransceiveEnd.result : TransceiveEnd → Option DeviceResult
  | .returned ret s => s.base.map fun area => ⟨ret, area⟩
  | .overrun => none

/-- `nfc_device_transceive`; `fuel` passes of the load loop, `junk` as in `trf797x_transmit`. -/
def device (fuel junk : Nat) :
    Carrier DeviceExchange DeviceResult TransceiveAt Unit IrqEvent where
  enter x :=
    match transceiveBegin fuel (nfcDeviceTransceive x.request) x.rx junk with
    | some (.wait t) => some t
    | _ => none
  program x := (trf797xInitiatorTransceive x.rx).map TransceiveEnd.result

/-- What the layers above make of a finished exchange: the frame, if SRX alone has ended it. -/
def heard (log : List (TransceiveAt × IrqEvent)) : Answer :=
  match log.getLast? with
  | some (.receiving _, .irq status _) =>
    if status = irqStatusSrx then .frame (log.flatMap presented)
    else .error (-irq2error status - 1).toNat
  | some (_, .timeout) => .error (etimedout - 1).toNat
  | some (_, .stop) => .error (ecanceled - 1).toNat
  | _ => .error 0

/-- The result is what `ans` says; after an error the area may hold any part of a frame. -/
structure Gives (area : Mem UInt8) (cap : Nat) (res : DeviceResult) (ans : Answer) : Prop where
  ret : res.ret = ans.ret cap
  area : 0 ≤ res.ret → res.area = area.write 0 (ans.received cap)

/-! ## 2. The frame on its way out -/

/-- The whole frame is in the FIFO after the first load. -/
def LoadedAtOnce (fuel junk : Nat) (q : DevRequest) : Prop :=
  ∃ t, trf797xTransmit fuel (nfcDeviceTransceive q) false junk = some t ∧ t.loaded = q.bytes

-- An exchange whose frame one load takes.
structure Short (fuel : Nat) (q : DevRequest) : Prop where
  fuel : q.tx.length ≤ fuel
  nonempty : q.tx ≠ []
  bits : ∀ v ∈ q.tx, 0 < v.bits
  bytes : q.bytes.length ≤ trf797xFifoSize

/-- Within an exchange: nothing is left to send, and what was received is in order. -/
structure Underway (fuel junk : Nat) (x : DeviceExchange) (log : List (TransceiveAt × IrqEvent))
    (t : TransceiveAt) : Prop where
  loaded : LoadedAtOnce fuel junk x.request
  received : RxKept x.rx log (.wait t)
  sent : ∀ u, t = .sending u → u.txBytes = 0 ∧ u.txlen = 0 ∧ u.written = []

theorem nfcDeviceTransceive_eq (q : DevRequest) : nfcDeviceTransceive q = q.tx := by
  unfold nfcDeviceTransceive
  simp

theorem bitSum_le_bytes (tx : List Iovec) :
    bitSum tx ≤ 8 * (tx.flatMap fun v => v.base.read 0 ((v.bits + 7) / 8)).length := by
  induction tx with
  | nil => simp [bitSum]
  | cons v vs ih =>
    rw [bitSum_cons, List.flatMap_cons, List.length_append, Mem.read_length]
    omega

theorem message_of_bytes (q : DevRequest) (h : bitSum q.tx < 2 ^ 31) :
    message q.tx = q.bytes := by
  unfold message DevRequest.bytes
  apply List.flatMap_congr
  intro v hv
  have hle := List.single_le_sum (l := q.tx.map Iovec.bits) (by simp) v.bits
    (List.mem_map_of_mem hv)
  rw [iovecBytes_eq (by unfold bitSum at h; omega)]

theorem Short.message_eq {fuel : Nat} {q : DevRequest} (h : Short fuel q) :
    bitSum q.tx < 2 ^ 31 ∧ message q.tx = q.bytes := by
  have hbits : bitSum q.tx < 2 ^ 31 := by
    have hle := bitSum_le_bytes q.tx
    have hbytes := h.bytes
    unfold DevRequest.bytes trf797xFifoSize at hbytes
    omega
  exact ⟨hbits, message_of_bytes q hbits⟩

-- The first load takes the frame, and the transmit loop starts with nothing left.
theorem Short.start {fuel : Nat} {q : DevRequest} (h : Short fuel q) (junk : Nat) :
    ∃ t u, trf797xTransmit fuel q.tx false junk = some t ∧ transmitStart t = some u ∧
      t.loaded = q.bytes ∧ u.txBytes = 0 ∧ u.txlen = 0 ∧ u.written = [] := by
  obtain ⟨hbits, hmessage⟩ := h.message_eq
  have hfits : (message q.tx).length ≤ trf797xFifoSize := by
    rw [hmessage]
    exact h.bytes
  have hlen := length_le_bitSum h.bits
  obtain ⟨t, ht, -, hloaded, hend⟩ := transmit_load false junk h.fuel (by omega) hbits
  obtain ⟨l, hl, htx, hcnt, hsent⟩ := hend h.bits h.nonempty
  obtain ⟨v, hstop, hcount, hlast⟩ := hl.whole h.bits hbits hfits
  obtain ⟨u, hu, hall⟩ := start_all htx hcnt hsent hloaded hfits hstop hcount hlast
  have hwhole : t.loaded = q.bytes := by
    rw [hloaded, List.take_of_length_le hfits, hmessage]
  have hnone : u.written = [] := by
    have hsum := congrArg List.length hall.loaded
    rw [hwhole, hmessage, List.length_append] at hsum
    exact List.eq_nil_of_length_eq_zero (by omega)
  exact ⟨t, u, ht, hu, hwhole, hall.txBytes, hall.txlen, hnone⟩

theorem device_enter {fuel : Nat} (junk : Nat) {x : DeviceExchange} (h : Short fuel x.request) :
    ∃ t, (device fuel junk).enter x = some t ∧ Underway fuel junk x [] t := by
  obtain ⟨t, u, ht, hu, hwhole, hsent⟩ := h.start junk
  have hbegin : transceiveBegin fuel (nfcDeviceTransceive x.request) x.rx junk =
      some (.wait (.sending u)) := by
    unfold transceiveBegin
    rw [nfcDeviceTransceive_eq, if_neg (by simpa using h.nonempty), ht, Option.bind_some, hu]
    rfl
  refine ⟨.sending u, ?_, ⟨t, ?_, hwhole⟩, inOrder_start _, ?_⟩
  · unfold device
    dsimp only
    rw [hbegin]
  · rw [nfcDeviceTransceive_eq]
    exact ht
  · rintro w hw
    cases hw
    exact hsent

/-! ## 3. One event -/

-- With nothing left to send, the transmit loop only waits for TX.
theorem resumeSending_short (rx : RxIovec) {u : TxLocals} (hbytes : u.txBytes = 0)
    (hlen : u.txlen = 0) (status : UInt8) (fifo : Fifo) :
    resumeSending rx u (.irq status fifo) =
      if status != irqStatusTx then .wait (.sending u) else .wait (.receiving rx.start) := by
  have hadvance : u.advance = some u := by
    unfold TxLocals.advance
    rw [if_neg (by omega)]
  have hrefill : u.refill fifo.status = u := by
    unfold TxLocals.refill
    rw [if_neg (by omega)]
  unfold resumeSending TxLocals.resume
  dsimp only
  rw [hadvance, Option.map_some, hrefill, ite_self]
  dsimp only
  by_cases hmore : (status != irqStatusTx) = true
  · rw [if_pos hmore, if_pos hmore]
  · rw [if_neg hmore, if_neg hmore]

theorem error_ret {n : Int} (h : n < 0) (cap : Nat) :
    n = (Answer.error (-n - 1).toNat).ret cap := by
  show n = Int.negSucc (-n - 1).toNat
  omega

theorem gives_error {area m : Mem UInt8} {cap : Nat} {n : Int} (h : n < 0) {ans : Answer}
    (hans : ans = .error (-n - 1).toNat) : Gives area cap ⟨n, m⟩ ans where
  ret := by
    rw [hans]
    exact error_ret h cap
  area hn := absurd hn (Int.not_le.mpr h)

theorem heard_snoc (log : List (TransceiveAt × IrqEvent)) (x : TransceiveAt × IrqEvent) :
    heard (log ++ [x]) =
      match x with
      | (.receiving _, .irq status _) =>
        if status = irqStatusSrx then .frame ((log ++ [x]).flatMap presented)
        else .error (-irq2error status - 1).toNat
      | (_, .timeout) => .error (etimedout - 1).toNat
      | (_, .stop) => .error (ecanceled - 1).toNat
      | _ => .error 0 := by
  unfold heard
  rw [List.getLast?_concat]
  obtain ⟨t, ev⟩ := x
  cases t <;> cases ev <;> rfl

theorem gives_frame {x : DeviceExchange} {log : List (TransceiveAt × IrqEvent)} {n : Int}
    {s : RxLocals} {m : Mem UInt8} (hm : s.base = some m) (h : Reassembled x.rx log n s) :
    Gives x.area x.rx.bytes ⟨n, m⟩ (heard log) := by
  obtain ⟨u, fifo, hlast⟩ := h.last
  have hheard : heard log = .frame (log.flatMap presented) := by
    unfold heard
    rw [hlast]
    exact if_pos rfl
  have hread := h.data m hm
  have hkept := h.kept m x.area hm rfl
  have hcount := h.count
  rw [hheard]
  refine ⟨hcount, fun _ => ?_⟩
  rw [hcount, Int.toNat_natCast] at hread hkept
  have hlen : ((log.flatMap presented).take x.rx.bytes).length =
      min (log.flatMap presented).length x.rx.bytes := by
    rw [List.length_take, Nat.min_comm]
  have htake : (log.flatMap presented).take (min (log.flatMap presented).length x.rx.bytes) =
      (log.flatMap presented).take x.rx.bytes := by
    rw [Nat.min_comm]
    exact List.take_eq_take_min.symm
  apply Mem.eq_write
  · rw [Answer.received_frame, hlen, hread, htake]
  · intro i hi
    rw [Answer.received_frame, hlen] at hi
    apply hkept
    omega

/-- Still under way, or ended as `heard` says. -/
def Carried (fuel junk : Nat) (x : DeviceExchange) (log : List (TransceiveAt × IrqEvent)) :
    Status TransceiveAt (Option DeviceResult) → Prop
  | .wait t => Underway fuel junk x log t
  | .done (some res) => Gives x.area x.rx.bytes res (heard log)
  | .done none => False

section

variable {fuel junk : Nat} {x : DeviceExchange} {log : List (TransceiveAt × IrqEvent)}

theorem carried_sending {u : TxLocals} (h : Underway fuel junk x log (.sending u))
    (ev : IrqEvent) : Carried fuel junk x (log ++ [(.sending u, ev)])
      ((resumeSending x.rx u ev).map TransceiveEnd.result) := by
  obtain ⟨hbytes, hlen, hwritten⟩ := h.sent u rfl
  have hkept := rxKept_sending (s := u) h.received ev
  cases ev with
  | timeout => exact gives_error (by decide) (heard_snoc _ _)
  | stop => exact gives_error (by decide) (heard_snoc _ _)
  | irq status fifo =>
    rw [resumeSending_short _ hbytes hlen] at hkept ⊢
    by_cases hmore : (status != irqStatusTx) = true
    · rw [if_pos hmore] at hkept ⊢
      refine ⟨h.loaded, hkept, ?_⟩
      rintro w hw
      cases hw
      exact ⟨hbytes, hlen, hwritten⟩
    · rw [if_neg hmore] at hkept ⊢
      exact ⟨h.loaded, hkept, nofun⟩

-- A return, with the area where it is.
theorem result_returned {r : RxLocals} {m : Mem UInt8} (hm : r.base = some m) (n : Int) :
    (Status.done (.returned n r) : Status TransceiveAt TransceiveEnd).map TransceiveEnd.result =
      .done (some ⟨n, m⟩) := by
  show Status.done (r.base.map _) = _
  rw [hm]
  rfl

theorem carried_receiving {r : RxLocals} (h : Underway fuel junk x log (.receiving r))
    (ev : IrqEvent) : Carried fuel junk x (log ++ [(.receiving r, ev)])
      ((resumeReceiving r ev).map TransceiveEnd.result) := by
  have hinorder : InOrder x.rx log r := h.received
  have hbase : x.rx.base = none → x.rx.bytes = 0 := nofun
  have hkept := rxKept_receiving hbase hinorder ev
  obtain ⟨m, hm⟩ : ∃ m, r.base = some m := by
    rw [← Option.isSome_iff_exists, ← Option.not_isNone, hinorder.null]
    rfl
  cases ev with
  | timeout =>
    rw [show resumeReceiving r .timeout = .done (.returned (-etimedout) r) from rfl,
      result_returned hm]
    exact gives_error (by decide) (heard_snoc _ _)
  | stop =>
    rw [show resumeReceiving r .stop = .done (.returned (-ecanceled) r) from rfl,
      result_returned hm]
    exact gives_error (by decide) (heard_snoc _ _)
  | irq status fifo =>
    unfold resumeReceiving RxLocals.resume at hkept ⊢
    dsimp only at hkept ⊢
    by_cases herror : (status &&& irqStatusError != 0) = true
    · rw [if_pos herror]
      have hnot : status ≠ irqStatusSrx := by
        rintro rfl
        exact absurd herror (by decide)
      dsimp only
      rw [result_returned hm]
      apply gives_error (irq2error_neg status herror)
      rw [heard_snoc]
      exact if_neg hnot
    · rw [if_neg herror] at hkept ⊢
      by_cases hmore : (status != irqStatusSrx) = true
      · rw [if_pos hmore] at hkept ⊢
        exact ⟨h.loaded, hkept, nofun⟩
      · have hstatus : status = irqStatusSrx := by simpa using hmore
        subst hstatus
        have hdrains : Drains irqStatusSrx := by decide
        have hdrain := hinorder.drain hbase hdrains fifo
        rw [if_neg hmore, if_pos (by decide)]
        dsimp only
        rw [result_returned (m := m.write r.off _) (by unfold RxLocals.drain; rw [hm]; rfl)]
        exact gives_frame (by unfold RxLocals.drain; rw [hm]; rfl) hdrain.finished

/-- What an event makes of an exchange under way. -/
theorem device_within {t : TransceiveAt} (h : Underway fuel junk x log t) (ev : IrqEvent) :
    Carried fuel junk x (log ++ [(t, ev)]) (((device fuel junk).program x).resume t ev) := by
  cases t with
  | sending u => exact carried_sending h ev
  | receiving r => exact carried_receiving h ev

end

end NfceeFw.Trf797x
