import NfceeFw.Nfc.Bounds
import NfceeFw.Nfc.Crca
import NfceeFw.Trf797x.Initiator

/-!
# OneLoad — a T=CL block and its CRC_A are one load of the FIFO

From the requests of the block layer, through the two iovecs of the 14443-3 layer, to the load loop
and the transmit phase of the chip driver.
-/

namespace NfceeFw.Trf797x

open NfceeFw.Reasoning NfceeFw.Nfc

/-! ## 1. The load loop on two iovecs -/

theorem iovecBytes_ofBytes (base : Mem UInt8) {n : Nat} (h : n < 2 ^ 28) :
    iovecBytes (Iovec.ofBytes base n) = n := by
  show (8 * (n % 2 ^ 29) + 7) % 2 ^ 32 / 8 = n
  omega

theorem bits_ofBytes (base : Mem UInt8) {n : Nat} (h : n < 2 ^ 28) :
    (Iovec.ofBytes base n).bits = 8 * n := by
  show 8 * (n % 2 ^ 29) = 8 * n
  omega

theorem bmod_of_small {x : Int} (h0 : 0 ≤ x) (h : x < 2 ^ 31) : Int.bmod x (2 ^ 32) = x := by
  rw [Int.bmod_def]
  omega

theorem run_pass {s t : Load} (fuel : Nat) (hbits : 0 < s.bits) (hfifo : s.fifo < trf797xFifoSize)
    (hpass : s.pass = some t) : Load.run (fuel + 1) s = Load.run fuel t := by
  rw [Load.run, if_pos ⟨hbits, hfifo⟩, hpass, Option.bind_some]

theorem run_end {s : Load} (fuel : Nat) (hbits : s.bits ≤ 0) : Load.run fuel s = some s := by
  cases fuel <;> rw [Load.run, if_neg (by omega)]

section

variable {v : Iovec} {vs : List Iovec} {len fifo sent : Nat} {bits : Int}
  {chunks : List (List UInt8)} (fuel : Nat)

-- A pass that takes a whole element with others to come.
theorem run_next (hbits : 0 < bits) (hfifo : fifo < trf797xFifoSize)
    (hfits : fifo + iovecBytes v ≤ trf797xFifoSize) (hlen : 1 < len) (hmax : len < 2 ^ 32) :
    Load.run (fuel + 1) ⟨v :: vs, len, bits, fifo, sent, chunks⟩ =
      Load.run fuel ⟨vs, len - 1, Int.bmod (bits - v.bits) (2 ^ 32), fifo + iovecBytes v,
        iovecBytes v, chunks ++ [v.base.read 0 (iovecBytes v)]⟩ := by
  have hsent : min (iovecBytes v) (trf797xFifoSize - fifo) = iovecBytes v := by omega
  have hdec : (len + (2 ^ 32 - 1)) % 2 ^ 32 = len - 1 := by omega
  apply run_pass fuel hbits hfifo
  unfold Load.pass
  dsimp only
  rw [hsent, if_pos rfl, hdec, if_pos ⟨rfl, by omega⟩]

-- A pass that takes the last element whole: `tx` stays on it.
theorem run_last (hbits : 0 < bits) (hfifo : fifo < trf797xFifoSize)
    (hfits : fifo + iovecBytes v ≤ trf797xFifoSize) :
    Load.run (fuel + 1) ⟨v :: vs, 1, bits, fifo, sent, chunks⟩ =
      Load.run fuel ⟨v :: vs, 0, Int.bmod (bits - v.bits) (2 ^ 32), fifo + iovecBytes v,
        iovecBytes v, chunks ++ [v.base.read 0 (iovecBytes v)]⟩ := by
  have hsent : min (iovecBytes v) (trf797xFifoSize - fifo) = iovecBytes v := by omega
  have hdec : (1 + (2 ^ 32 - 1)) % 2 ^ 32 = 0 := by decide
  apply run_pass fuel hbits hfifo
  unfold Load.pass
  dsimp only
  rw [hsent, if_pos rfl, hdec, if_neg (by simp)]

end

-- Two iovecs that fit the FIFO together are loaded whole, and nothing is left for later.
theorem transmit_pair (b c : Mem UInt8) {n m : Nat} (hm : 0 < m) (h : n + m ≤ trf797xFifoSize)
    (fuel junk : Nat) :
    trf797xTransmit (fuel + 2) [Iovec.ofBytes b n, Iovec.ofBytes c m] false junk = some {
      tx := [Iovec.ofBytes c m]
      len := 0
      sent := m
      spi := [.send (transmitHeader (8 * (n + m) : Nat) false), .send (b.read 0 n),
        .send (c.read 0 m), .toggle] } := by
  have hsmall : n + m ≤ 127 := h
  have hn := iovecBytes_ofBytes b (n := n) (by omega)
  have hm' := iovecBytes_ofBytes c (n := m) (by omega)
  have hbits := bits_ofBytes b (n := n) (by omega)
  have hbits' := bits_ofBytes c (n := m) (by omega)
  have htotal : totalBits [Iovec.ofBytes b n, Iovec.ofBytes c m] = (8 * (n + m) : Nat) := by
    unfold totalBits
    rw [List.map_cons, List.map_cons, List.map_nil, hbits, hbits', List.sum_cons, List.sum_cons,
      List.sum_nil, bmod_of_small] <;> omega
  have hrest : Int.bmod (((8 * (n + m) : Nat) : Int) - (8 * n : Nat)) (2 ^ 32) = (8 * m : Nat) := by
    rw [bmod_of_small] <;> omega
  have hdone : Int.bmod (((8 * m : Nat) : Int) - (8 * m : Nat)) (2 ^ 32) = 0 := by
    rw [Int.sub_self]
    rfl
  unfold trf797xTransmit
  rw [htotal, show [Iovec.ofBytes b n, Iovec.ofBytes c m].length = 2 from rfl,
    run_next (fuel + 1) (by omega) (by decide) (by rw [hn]; omega) (by decide) (by decide), hn,
    hbits, hrest, Nat.zero_add,
    run_last fuel (by omega) (show n < 127 by omega) (by rw [hm']; omega), hm', hbits', hdone,
    run_end fuel (Int.le_refl 0)]
  rfl

/-! ## 2. The TX length registers -/

-- A whole number of bytes, up to the FIFO size, is announced as such.
theorem txLength_bytes {n : Nat} (h : n ≤ trf797xFifoSize) (crc : Bool) :
    ∃ length1 length2, transmitHeader (8 * n : Nat) crc =
        [command cmdResetFifo, command (if crc then cmdTx else cmdTxNoCrc),
          registerWriteByte regTxLength1 (2 + n), length1, length2] ∧
      txLengthBits length1 length2 = 8 * n := by
  have hsmall : n ≤ 127 := h
  refine ⟨UInt8.ofNat (n / 16), UInt8.ofNat (n % 16 * 16), ?_, ?_⟩
  · have hcount : min (trf797xFifoSize : Int) ((((8 * n : Nat) : Int) + 7).tdiv 8) = n := by
      rw [show (trf797xFifoSize : Int) = 127 from rfl, Int.tdiv_eq_ediv_of_nonneg (by omega)]
      omega
    have hhigh : ((((8 * n : Nat) : Int) / 2 ^ 7) % 256).toNat = n / 16 := by omega
    have hlow : ((2 * (((8 * n : Nat) : Int) % 256) +
        if ((8 * n : Nat) : Int) % 8 = 0 then 0 else 1) % 256).toNat = n % 16 * 16 := by
      rw [if_pos (by omega)]
      omega
    unfold transmitHeader
    rw [hcount, hhigh, hlow]
  · unfold txLengthBits
    rw [UInt8.toNat_ofNat', UInt8.toNat_ofNat', if_neg (by omega)]
    omega

/-! ## 3. The transmit phase after a whole load -/

-- With no byte left and no element to come, a pass of the loop changes nothing.
theorem resume_idle {s : TxLocals} (hbytes : s.txBytes = 0) (hlen : s.txlen = 0) (ev : TxEvent) :
    s.resume ev = .done .canceled ∨ s.resume ev = .wait s ∨ s.resume ev = .done (.sent s) := by
  cases ev with
  | stop => exact .inl rfl
  | irq status fifo =>
    have hadvance : s.advance = some s := by
      unfold TxLocals.advance
      rw [if_neg (by omega)]
    have hrefill : s.refill fifo = s := by
      unfold TxLocals.refill
      rw [if_neg (by omega)]
    unfold TxLocals.resume
    dsimp only
    rw [hadvance, Option.map_some, hrefill, ite_self]
    dsimp only
    by_cases htx : status = irqStatusTx
    · exact .inr (.inr (by simp [htx]))
    · exact .inr (.inl (by simp [htx]))

theorem feed_idle {s : TxLocals} (hbytes : s.txBytes = 0) (hlen : s.txlen = 0)
    (events : List TxEvent) :
    transmitPhase.feed (.wait s) events = .done .canceled ∨
      transmitPhase.feed (.wait s) events = .wait s ∨
      transmitPhase.feed (.wait s) events = .done (.sent s) := by
  have hrun := Program.feed_invariant transmitPhase
    (I := fun st => st = .done .canceled ∨ st = .wait s ∨ st = .done (.sent s))
    (fun t ev ht => by
      rcases ht with ht | ht | ht
      · cases ht
      · cases ht
        exact resume_idle hbytes hlen ev
      · cases ht)
    (.wait s) (.inr (.inl rfl)) events
  exact hrun

/-! ## 4. The blocks of a call -/

/-- Block `b` and its CRC_A reach the chip in one load: the FIFO gets the two and nothing more, the
length registers announce them, and no later interrupt makes the driver write or move on. -/
structure LoadedWhole (fuel junk : Nat) (q : Request) : Prop where
  iovecs : (nfcDeviceTransceive (nfcIso14443aTransceive q)).map
    (fun v => v.base.read 0 (iovecBytes v)) = [q.frame, crcaBytes q.frame]
  fits : (q.frame ++ crcaBytes q.frame).length ≤ trf797xFifoSize
  load : ∃ t length1 length2 s,
    trf797xTransmit fuel (nfcDeviceTransceive (nfcIso14443aTransceive q)) false junk = some t ∧
    t.loaded = q.frame ++ crcaBytes q.frame ∧
    t.spi.head? = some (.send [command cmdResetFifo, command cmdTxNoCrc,
      registerWriteByte regTxLength1 (2 + (q.frame.length + 2 : Nat)), length1, length2]) ∧
    txLengthBits length1 length2 = 8 * (q.frame.length + 2) ∧
    t.len = 0 ∧ transmitStart t = some s ∧ s.written = [] ∧
    ∀ events, transmitPhase.feed (.wait s) events = .done .canceled ∨
      transmitPhase.feed (.wait s) events = .wait s ∨
      transmitPhase.feed (.wait s) events = .done (.sent s)

theorem loadedWhole_of_fits (fuel junk : Nat) {d : Driver} (hfsd : d.fsd = deviceFrameSize)
    {q : Request} (hq : q.Fits d) : LoadedWhole (fuel + 2) junk q := by
  have hlen : q.frame.length = q.txlen := Mem.read_length ..
  have hfit : q.txlen + 2 ≤ 127 := by
    have h := hq.2.2
    have hsize : d.fsd = 127 := hfsd
    omega
  let crc := Mem.ofList 0 (crcaBytes q.frame)
  have hiovecs : nfcDeviceTransceive (nfcIso14443aTransceive q) =
      [Iovec.ofBytes q.tx q.txlen, Iovec.ofBytes crc 2] := rfl
  have hcrc : crc.read 0 2 = crcaBytes q.frame := Mem.ofList_read 0 (crcaBytes q.frame)
  have htransmit := transmit_pair q.tx crc (n := q.txlen) (m := 2) (by decide) hfit fuel junk
  obtain ⟨length1, length2, hheader, hbits⟩ := txLength_bytes (n := q.txlen + 2) hfit false
  refine ⟨?_, ?_, ?_⟩
  · rw [hiovecs, List.map_cons, List.map_cons, List.map_nil, iovecBytes_ofBytes _ (by omega),
      iovecBytes_ofBytes _ (by decide)]
    show [q.frame, crc.read 0 2] = _
    rw [hcrc]
  · rw [List.length_append, hlen]
    exact hfit
  · rw [hiovecs, hlen]
    refine ⟨_, length1, length2, ⟨[Iovec.ofBytes crc 2], crc, 2, 0, 0, []⟩, htransmit, ?_, ?_,
      hbits, rfl, ?_, rfl, feed_idle rfl rfl⟩
    · show q.frame ++ (crc.read 0 2 ++ []) = _
      rw [hcrc, List.append_nil]
    · rw [hheader]
      rfl
    · show some (TxLocals.mk _ _ _
        ((iovecBytes (Iovec.ofBytes crc 2) + 2 ^ 32 - 2) % 2 ^ 32) _ _) = _
      rw [iovecBytes_ofBytes _ (by decide), show (2 + 2 ^ 32 - 2) % 2 ^ 32 = 0 by decide]
      rfl

/-- Every block of a T=CL call is one load of the FIFO, whatever the card answers. -/
theorem blocks_loaded_whole (d : Driver) (a : CallArgs) (htcl : isTcl d = true)
    (hfsd : d.fsd = deviceFrameSize) (hlo : 16 ≤ d.fsc) (hhi : d.fsc ≤ 256)
    (hrx : a.rxlen < 2 ^ 32) (answers : List Answer) (fuel junk : Nat) :
    ∀ q ∈ (nfcIso14443Transceive a).sent (transceiveStart d a) answers,
      LoadedWhole (fuel + 2) junk q := by
  have hsized : Sized d := ⟨htcl, hfsd, hlo, hhi⟩
  have hfits := Program.sent_invariant (nfcIso14443Transceive a)
    (fun s ans h => bounded_resume hrx s ans h) (query_fits hsized) _ (bounded_start a htcl) answers
  intro q hq
  exact loadedWhole_of_fits fuel junk hfsd (hfits q hq)

-- Blocks of the largest size: 125 bytes and the CRC fill the FIFO.
theorem largest_blocks_loaded_whole :
    let a := CallArgs.ofBytes (List.replicate 300 0x5A) 0
    ∀ q ∈ (nfcIso14443Transceive a).sent (transceiveStart (activated 256) a)
        [.frame [0xA2, 0xE6, 0xD7], .frame [0xA3, 0x6F, 0xC6]], LoadedWhole 2 0 q :=
  blocks_loaded_whole (activated 256) _ (sized_activated (by decide) (by decide)).tcl rfl
    (by decide) (by decide) (by decide) _ 0 0

end NfceeFw.Trf797x
