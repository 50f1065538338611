import NfceeFw.Nfc.Pcb
import NfceeFw.Reasoning.Transducer
import NfceeFw.Trf797x.FirstLoad

/-!
# Framing — what the chip makes of the bytes and chip select edges on the bus

Nothing on the wires says where an access ends, except a rising edge: the chip follows the accesses
byte by byte.  Whatever the driver puts on the bus, call after call, is taken by the chip as the
accesses that were meant.
-/

namespace NfceeFw.Trf797x

open NfceeFw.Reasoning NfceeFw.Nfc

/-! ## 1. The wires -/

/-- An edge of the chip select, or a byte clocked while it is low. -/
inductive Wire where
  | fall
  | rise
  | byte (b : UInt8)
  deriving DecidableEq, Repr

/-- The wires during some transfers, after `k` bytes.  While the chip shifts out, the driver's line
is at whatever `line` has at the same byte. -/
def wire (line : Mem UInt8) : Nat → List Spi → List Wire
  | _, [] => []
  | k, .send bytes :: rest => bytes.map .byte ++ wire line (k + bytes.length) rest
  | k, .receive len :: rest => (line.read k len).map .byte ++ wire line (k + len) rest
  | k, .toggle :: rest => .rise :: .fall :: wire line k rest

/-! ## 2. The chip's grammar -/

/-- What the chip carries out: a command, or an access with its registers in order. -/
inductive Operation where
  | command (cmd : UInt8)
  | read (adrs : List UInt8)
  | write (regs : List (UInt8 × UInt8))
  deriving DecidableEq, Repr

-- The register after one in a continuous access; the FIFO stays.
def nextAdr (adr : UInt8) : UInt8 := if adr = regFifo then regFifo else adr + 1

/-- Where the chip stands in the stream: not selected, between two accesses, before the data byte of
an access, or in a continuous access with the registers that it has gone through. -/
inductive Framer where
  | deselected
  | ready
  | single (isRead : Bool) (adr : UInt8)
  | continuous (isRead : Bool) (adr : UInt8) (regs : List (UInt8 × UInt8))
  deriving DecidableEq, Repr

def Operation.access (isRead : Bool) (regs : List (UInt8 × UInt8)) : Operation :=
  if isRead then .read (regs.map Prod.fst) else .write regs

def framerStep : Framer → Wire → Option (Framer × List Operation)
  | .deselected, .fall => some (.ready, [])
  | .ready, .rise => some (.deselected, [])
  | .ready, .byte b =>
    if b &&& 0x80 != 0 then some (.ready, [.command (b &&& 0x1f)])
    else if b &&& 0x20 != 0 then some (.continuous (b &&& 0x40 != 0) (b &&& 0x1f) [], [])
    else some (.single (b &&& 0x40 != 0) (b &&& 0x1f), [])
  | .single isRead adr, .byte b => some (.ready, [.access isRead [(adr, b)]])
  | .continuous isRead adr regs, .byte b =>
    some (.continuous isRead (nextAdr adr) (regs ++ [(adr, b)]), [])
  | .continuous isRead _ regs, .rise => some (.deselected, [.access isRead regs])
  | _, _ => none

def framer : Transducer Framer Wire Operation := ⟨framerStep⟩

/-- A stream that leaves the chip deselected, as it found it. -/
def decode (stream : List Wire) : Option (List Operation) :=
  match framer.run .deselected stream with
  | some (.deselected, ops) => some ops
  | _ => none

/-! ## 3. The driver's calls -/

/-- A call between `trf797x_acquire_bus` and `trf797x_release_bus`, with the FIFO status that the
chip answers. -/
inductive Call where
  | command (cmd : UInt8)
  | registerRead (adr : UInt8) (len : Nat)
  | registerWrite (adr : UInt8) (data : List UInt8)
  | transmit (tx : List Iovec) (crc : Bool) (junk : Nat)
  | fifoFill (status : UInt8) (data : List UInt8)
  | fifoDrain (status : UInt8) (isNull : Bool) (len : Nat)

-- `none` if the load loop does not end.
def Call.spi : Call → Option (List Spi)
  | .command cmd => some (trf797xCommand cmd)
  | .registerRead adr len => some (trf797xRegisterRead adr len)
  | .registerWrite adr data => some (trf797xRegisterWrite adr data)
  | .transmit tx crc junk => (trf797xTransmit tx.length tx crc junk).map Transmitted.spi
  | .fifoFill status data => some (fifoFillSpi status data)
  | .fifoDrain status isNull len => some (fifoDrainSpi status isNull len)

def callsSpi : List Call → Option (List Spi)
  | [] => some []
  | c :: cs => c.spi.bind fun spi => (callsSpi cs).map (spi ++ ·)

/-- `trf797x_acquire_bus` selects the chip, `trf797x_release_bus` unselects it. -/
def sessionWire (line : Mem UInt8) (calls : List Call) : Option (List Wire) :=
  (callsSpi calls).map fun spi => .fall :: wire line 0 spi ++ [.rise]

/-- The registers of an access, from its first on. -/
def addresses : UInt8 → Nat → List UInt8
  | _, 0 => []
  | adr, n + 1 => adr :: addresses (nextAdr adr) n

def regTxLength2 : UInt8 := 0x1e

/-- The two TX length registers for `n` bits: whole bytes in the upper 12 bits, then the number of
bits of a broken byte and the flag that there is one. -/
def txLengthRegisters (n : Nat) : UInt8 × UInt8 :=
  (UInt8.ofNat (n / 8 / 16),
    UInt8.ofNat (n / 8 % 16 * 16 + n % 8 * 2 + if n % 8 = 0 then 0 else 1))

-- What a transmission is to the chip, with the bytes loaded into the FIFO.
def transmission (lengths : UInt8 × UInt8) (crc : Bool) (bytes : List UInt8) : List Operation :=
  [.command cmdResetFifo, .command (if crc then cmdTx else cmdTxNoCrc),
    .write ((regTxLength1, lengths.1) :: (regTxLength2, lengths.2) :: bytes.map (regFifo, ·))]

/-- The bytes in the FIFO, by its status: bit 7 tells of an overflow. -/
def fifoLevel (status : UInt8) : Nat := status.toNat % 128

/-- What a call is for: a transmission starts the message with as much of it as the FIFO holds, a
refill takes what there is room for, and a drain takes all, first what the caller has room for. -/
def Call.intended : Call → List Operation
  | .command cmd => [.command cmd]
  | .registerRead adr len =>
    -- the IRQ status is read with the register after it
    [.read (addresses adr (if adr = regIrqStatus ∧ len = 1 then 2 else len))]
  | .registerWrite adr data => [.write ((addresses adr data.length).zip data)]
  | .transmit tx crc _ =>
    transmission (txLengthRegisters (bitSum tx)) crc ((message tx).take trf797xFifoSize)
  | .fifoFill status data =>
    let bytes := data.take (trf797xFifoSize - fifoLevel status)
    .read [regFifoStatus] :: if 0 < bytes.length then [.write (bytes.map (regFifo, ·))] else []
  | .fifoDrain status isNull len =>
    let stored := if isNull then 0 else min len (fifoLevel status)
    let rest := fifoLevel status - stored
    .read [regFifoStatus] ::
      ((if 0 < stored then [.read (List.replicate stored regFifo)] else []) ++
        if 0 < rest then [.read (List.replicate rest regFifo)] else [])

/-- 5-bit codes, accesses of at least one register, and transmissions for whose bits an `int` is
enough, also in `bits + 7`. -/
def Call.Framed : Call → Prop
  | .command cmd => cmd < 32
  | .registerRead adr len => adr < 32 ∧ 1 ≤ len
  | .registerWrite adr data => adr < 32 ∧ 1 ≤ data.length
  | .transmit tx _ _ => tx.length < 2 ^ 32 ∧ bitSum tx + 7 < 2 ^ 31
  | .fifoFill _ _ => True
  | .fifoDrain _ _ _ => True

instance : (c : Call) → Decidable c.Framed
  | .command cmd => inferInstanceAs (Decidable (cmd < 32))
  | .registerRead adr len => inferInstanceAs (Decidable (adr < 32 ∧ 1 ≤ len))
  | .registerWrite adr data => inferInstanceAs (Decidable (adr < 32 ∧ 1 ≤ data.length))
  | .transmit tx _ _ => inferInstanceAs (Decidable (tx.length < 2 ^ 32 ∧ bitSum tx + 7 < 2 ^ 31))
  | .fifoFill _ _ => inferInstanceAs (Decidable True)
  | .fifoDrain _ _ _ => inferInstanceAs (Decidable True)

/-! ## 4. One access -/

-- The first byte of an access of `len` registers.
def accessByte (isRead : Bool) (adr : UInt8) (len : Int) : UInt8 :=
  if isRead then registerReadByte adr len else registerWriteByte adr len

theorem framerStep_access (isRead : Bool) {adr : UInt8} (hadr : adr < 32) (len : Int) :
    framerStep .ready (.byte (accessByte isRead adr len)) =
      some (if 1 < len then .continuous isRead adr [] else .single isRead adr, []) := by
  have hbyte : accessByte isRead adr len = accessByte isRead adr (if 1 < len then 2 else 1) := by
    unfold accessByte registerReadByte registerWriteByte register
    by_cases hlen : 1 < len
    · rw [if_pos hlen, if_pos hlen]
      rfl
    · rw [if_neg hlen, if_neg hlen]
      rfl
  have hcodes : ∀ adr : UInt8, adr < 32 →
      framerStep .ready (.byte (accessByte isRead adr 2)) =
          some (.continuous isRead adr [], []) ∧
        framerStep .ready (.byte (accessByte isRead adr 1)) = some (.single isRead adr, []) := by
    cases isRead <;> exact forallByte (by decide +kernel)
  rw [hbyte]
  by_cases hlen : 1 < len
  · rw [if_pos hlen, if_pos hlen]
    exact (hcodes adr hadr).1
  · rw [if_neg hlen, if_neg hlen]
    exact (hcodes adr hadr).2

theorem framer_command {cmd : UInt8} (hcmd : cmd < 32) :
    framer.step .ready (.byte (command cmd)) = some (.ready, [.command cmd]) := by
  have hcodes : ∀ cmd : UInt8, cmd < 32 →
      framerStep .ready (.byte (command cmd)) = some (.ready, [.command cmd]) :=
    forallByte (by decide +kernel)
  exact hcodes cmd hcmd

-- The data bytes of a continuous access, up to the edge that ends it.
theorem maps_data (isRead : Bool) (adr : UInt8) (regs : List (UInt8 × UInt8))
    (bytes : List UInt8) :
    framer.Maps (.continuous isRead adr regs) (bytes.map .byte ++ [.rise]) .deselected
      [.access isRead (regs ++ (addresses adr bytes.length).zip bytes)] := by
  induction bytes generalizing adr regs with
  | nil =>
    rw [List.zip_nil_right, List.append_nil]
    exact .emit rfl (.nil _)
  | cons b bytes ih =>
    have hrest := ih (nextAdr adr) (regs ++ [(adr, b)])
    rw [List.append_assoc] at hrest
    exact .silent rfl hrest

theorem maps_continuous (isRead : Bool) {adr : UInt8} (hadr : adr < 32) {len : Int} (hlen : 1 < len)
    (bytes : List UInt8) :
    framer.Maps .ready (.byte (accessByte isRead adr len) :: (bytes.map .byte ++ [.rise, .fall]))
      .ready [.access isRead ((addresses adr bytes.length).zip bytes)] := by
  have hfirst := framerStep_access isRead hadr len
  rw [if_pos hlen] at hfirst
  have hfall : framer.Maps .deselected [.fall] .ready [] := .silent rfl (.nil _)
  have hedges := (maps_data isRead adr [] bytes).append hfall
  rw [List.append_assoc] at hedges
  exact .silent hfirst hedges

/-- An access as the driver makes it: the edges follow if it is continuous. -/
theorem maps_access (isRead : Bool) {adr : UInt8} (hadr : adr < 32) {bytes : List UInt8}
    (hbytes : 1 ≤ bytes.length) :
    framer.Maps .ready (.byte (accessByte isRead adr bytes.length) ::
        (bytes.map .byte ++ if 1 < bytes.length then [.rise, .fall] else []))
      .ready [.access isRead ((addresses adr bytes.length).zip bytes)] := by
  by_cases hlen : 1 < bytes.length
  · rw [if_pos hlen]
    exact maps_continuous isRead hadr (by omega) bytes
  · obtain ⟨b, rfl⟩ := List.length_eq_one_iff.mp (show bytes.length = 1 by omega)
    have hfirst : framerStep .ready (.byte (accessByte isRead adr 1)) =
        some (.single isRead adr, []) := framerStep_access isRead hadr 1
    exact .silent hfirst (.emit rfl (.nil _))

/-! ## 5. One call -/

section

variable (line : Mem UInt8)

-- The bytes clocked by some transfers.
def clocked : List Spi → Nat
  | [] => 0
  | .send bytes :: rest => bytes.length + clocked rest
  | .receive len :: rest => len + clocked rest
  | .toggle :: rest => clocked rest

theorem wire_append (k : Nat) (a b : List Spi) :
    wire line k (a ++ b) = wire line k a ++ wire line (k + clocked a) b := by
  induction a generalizing k with
  | nil => rfl
  | cons x a ih =>
    cases x with
    | send bytes =>
      rw [List.cons_append, wire, wire, ih, clocked, List.append_assoc, Nat.add_assoc]
    | receive len =>
      rw [List.cons_append, wire, wire, ih, clocked, List.append_assoc, Nat.add_assoc]
    | toggle =>
      rw [List.cons_append, wire, wire, ih, clocked]
      rfl

theorem wire_endAccess (k len : Nat) :
    wire line k (endAccess len) = if 1 < len then [.rise, .fall] else [] := by
  unfold endAccess
  split <;> rfl

theorem wire_sends (k : Nat) (chunks : List (List UInt8)) :
    wire line k (chunks.map .send) = chunks.flatten.map .byte := by
  induction chunks generalizing k with
  | nil => rfl
  | cons c cs ih =>
    rw [List.map_cons, wire, ih, List.flatten_cons, List.map_append]

@[simp] theorem addresses_length (adr : UInt8) (n : Nat) : (addresses adr n).length = n := by
  induction n generalizing adr with
  | zero => rfl
  | succ n ih => rw [addresses, List.length_cons, ih]

theorem addresses_fifo (n : Nat) : addresses regFifo n = List.replicate n regFifo := by
  induction n with
  | zero => rfl
  | succ n ih =>
    rw [addresses, List.replicate_succ]
    exact congrArg _ ih

theorem zip_fifo (bytes : List UInt8) :
    (addresses regFifo bytes.length).zip bytes = bytes.map (regFifo, ·) := by
  rw [addresses_fifo]
  induction bytes with
  | nil => rfl
  | cons b bytes ih =>
    rw [List.length_cons, List.replicate_succ, List.zip_cons_cons, ih, List.map_cons]

-- What the driver's line holds during a read does not matter.
theorem access_read (adr : UInt8) {n : Nat} {bytes : List UInt8} (hbytes : bytes.length = n) :
    Operation.access true ((addresses adr n).zip bytes) = .read (addresses adr n) := by
  unfold Operation.access
  rw [if_pos rfl, List.map_fst_zip (by rw [addresses_length, hbytes])]

theorem maps_read (k : Nat) {adr : UInt8} (hadr : adr < 32) {len : Nat} (hlen : 1 ≤ len) :
    framer.Maps .ready
      (wire line k ([.send [registerReadByte adr len], .receive len] ++ endAccess len)) .ready
      [.read (addresses adr len)] := by
  have hread := Mem.read_length line (k + 1) len
  have hmaps := maps_access true hadr (show 1 ≤ (line.read (k + 1) len).length by omega)
  rw [hread, access_read adr hread, ← wire_endAccess line (k + 1 + len) len] at hmaps
  exact hmaps

theorem maps_registerWrite (k : Nat) {adr : UInt8} (hadr : adr < 32) {data : List UInt8}
    (hdata : 1 ≤ data.length) :
    framer.Maps .ready (wire line k (trf797xRegisterWrite adr data)) .ready
      [.write ((addresses adr data.length).zip data)] := by
  have hmaps := maps_access false hadr hdata
  rw [← wire_endAccess line (k + 1 + data.length) data.length] at hmaps
  exact hmaps

theorem maps_registerRead (k : Nat) {adr : UInt8} (hadr : adr < 32) {len : Nat} (hlen : 1 ≤ len) :
    framer.Maps .ready (wire line k (trf797xRegisterRead adr len)) .ready
      [.read (addresses adr (if adr = regIrqStatus ∧ len = 1 then 2 else len))] := by
  unfold trf797xRegisterRead
  by_cases hirq : adr = regIrqStatus ∧ len = 1
  · rw [if_pos hirq, if_pos hirq]
    exact maps_read line k hadr (show 1 ≤ 2 by decide)
  · rw [if_neg hirq, if_neg hirq]
    exact maps_read line k hadr hlen

theorem maps_fifoStatus (k : Nat) :
    framer.Maps .ready (wire line k (trf797xRegisterRead1 regFifoStatus)) .ready
      [.read [regFifoStatus]] :=
  maps_registerRead line k (show regFifoStatus < 32 by decide) (Nat.le_refl 1)

theorem level_eq (status : UInt8) : (status &&& 0x7f).toNat = fifoLevel status := by
  have hbytes : ∀ status : UInt8, (status &&& 0x7f).toNat = fifoLevel status :=
    forallByte (by decide +kernel)
  exact hbytes status

-- An access to the FIFO is left out if it has no byte.
theorem maps_fifoRead (k n : Nat) :
    framer.Maps .ready (wire line k (if 0 < n then trf797xRegisterRead regFifo n else [])) .ready
      (if 0 < n then [.read (List.replicate n regFifo)] else []) := by
  by_cases hn : 0 < n
  · have hmaps := maps_registerRead line k (show regFifo < 32 by decide) hn
    rw [if_neg (fun h => absurd h.1 (by decide)), addresses_fifo] at hmaps
    rw [if_pos hn, if_pos hn]
    exact hmaps
  · rw [if_neg hn, if_neg hn]
    exact .nil _

theorem maps_fifoWrite (k : Nat) (bytes : List UInt8) :
    framer.Maps .ready
      (wire line k (if 0 < bytes.length then trf797xRegisterWrite regFifo bytes else [])) .ready
      (if 0 < bytes.length then [.write (bytes.map (regFifo, ·))] else []) := by
  by_cases hbytes : 0 < bytes.length
  · rw [if_pos hbytes, if_pos hbytes, ← zip_fifo]
    exact maps_registerWrite line k (by decide) hbytes
  · rw [if_neg hbytes, if_neg hbytes]
    exact .nil _

theorem fifoRoom_eq (status : UInt8) : fifoRoom status = trf797xFifoSize - fifoLevel status :=
  congrArg (trf797xFifoSize - ·) (level_eq status)

-- With no room at the caller's, nothing is stored, as the first read of no bytes.
theorem fifoDrained_eq (status : UInt8) (isNull : Bool) (len : Nat) :
    fifoDrained status isNull len = (if isNull then 0 else min len (fifoLevel status),
      fifoLevel status - if isNull then 0 else min len (fifoLevel status)) := by
  unfold fifoDrained
  rw [level_eq]
  cases isNull with
  | true => rfl
  | false =>
    rcases Nat.eq_zero_or_pos len with rfl | hlen
    · rw [Nat.zero_min]
      rfl
    · rw [decide_eq_true hlen]
      rfl

theorem maps_fifoFill (k : Nat) (status : UInt8) (data : List UInt8) :
    framer.Maps .ready (wire line k (fifoFillSpi status data)) .ready
      (Call.fifoFill status data).intended := by
  have hbytes : trf797xFifoFill status data = data.take (trf797xFifoSize - fifoLevel status) :=
    congrArg data.take (fifoRoom_eq status)
  unfold fifoFillSpi
  rw [hbytes, wire_append]
  exact (maps_fifoStatus line k).append (maps_fifoWrite line _ _)

theorem maps_fifoDrain (k : Nat) (status : UInt8) (isNull : Bool) (len : Nat) :
    framer.Maps .ready (wire line k (fifoDrainSpi status isNull len)) .ready
      (Call.fifoDrain status isNull len).intended := by
  unfold fifoDrainSpi
  dsimp only
  rw [fifoDrained_eq, List.append_assoc, wire_append, wire_append]
  exact (maps_fifoStatus line k).append ((maps_fifoRead line _ _).append (maps_fifoRead line _ _))

-- From -14 bits on, the first byte of the write announces a continuous access.
theorem txBytes_nonneg {bits : Int} (hbits : -14 ≤ bits) : 0 ≤ (bits + 7).tdiv 8 := by
  by_cases hsign : 0 ≤ bits + 7
  · exact Int.tdiv_nonneg hsign (by decide)
  · have hzero : (-(bits + 7)).tdiv 8 = 0 := Int.tdiv_eq_zero_of_lt (by omega) (by omega)
    rw [← Int.neg_neg (bits + 7), Int.neg_tdiv, hzero]
    decide

-- The TX length bytes of the header.
def txLengthBytes (bits : Int) : UInt8 × UInt8 :=
  (UInt8.ofNat ((bits / 2 ^ 7) % 256).toNat,
    UInt8.ofNat ((2 * (bits % 256) + if bits % 8 = 0 then 0 else 1) % 256).toNat)

theorem txLengthBytes_eq (n : Nat) : txLengthBytes n = txLengthRegisters n := by
  have hfirst : ((n : Int) / 2 ^ 7 % 256).toNat = n / 8 / 16 % 256 := by omega
  have hsecond : ((2 * ((n : Int) % 256) + if (n : Int) % 8 = 0 then 0 else 1) % 256).toNat =
      (n / 8 % 16 * 16 + n % 8 * 2 + if n % 8 = 0 then 0 else 1) % 256 := by
    by_cases hwhole : n % 8 = 0
    · rw [if_pos hwhole, if_pos (by omega)]
      omega
    · rw [if_neg hwhole, if_neg (by omega)]
      omega
  unfold txLengthBytes txLengthRegisters
  rw [hfirst, hsecond]
  exact Prod.ext UInt8.ofNat_mod_size UInt8.ofNat_mod_size

/-- The composite access of `trf797x_transmit`: two commands, and one continuous write. -/
theorem maps_transmit (k : Nat) (tx : List Iovec) (crc : Bool) (chunks : List (List UInt8))
    (hbits : -14 ≤ totalBits tx) :
    framer.Maps .ready
      (wire line k (.send (transmitHeader (totalBits tx) crc) :: chunks.map .send ++ [.toggle]))
      .ready (transmission (txLengthBytes (totalBits tx)) crc chunks.flatten) := by
  have hcount := txBytes_nonneg hbits
  have hwrite := maps_continuous false (show regTxLength1 < 32 by decide)
    (show 1 < 2 + min (trf797xFifoSize : Int) ((totalBits tx + 7).tdiv 8) by omega)
    ((txLengthBytes (totalBits tx)).1 :: (txLengthBytes (totalBits tx)).2 :: chunks.flatten)
  have hcmd : (if crc then cmdTx else cmdTxNoCrc) < 32 := by cases crc <;> decide
  rw [List.cons_append, wire, wire_append, wire_sends]
  unfold transmission
  rw [← zip_fifo]
  have hreset : cmdResetFifo < 32 := by decide
  exact .emit (framer_command hreset) (.emit (framer_command hcmd) hwrite)

end

/-! ## 6. The load loop returns -/

theorem totalBits_cons (v : Iovec) (vs : List Iovec) :
    Int.bmod (totalBits (v :: vs) - v.bits) (2 ^ 32) = totalBits vs := by
  unfold totalBits
  have hsub : ((v.bits + (vs.map Iovec.bits).sum : Nat) : Int) - v.bits =
      ((vs.map Iovec.bits).sum : Nat) := by omega
  rw [List.map_cons, List.sum_cons, Int.bmod_sub_bmod, hsub]

/-- Once every element has been taken, the bits left are 0, whatever their sum is as an `int`. -/
theorem run_returns (vs : List Iovec) (fuel fifo sent : Nat) (chunks : List (List UInt8))
    (hfuel : vs.length ≤ fuel) (hlen : vs.length < 2 ^ 32) (hfifo : fifo ≤ trf797xFifoSize) :
    ∃ s, Load.run fuel ⟨vs, vs.length, totalBits vs, fifo, sent, chunks⟩ = some s := by
  induction vs generalizing fuel fifo sent chunks with
  | nil => exact ⟨_, run_end fuel (by dsimp only; decide)⟩
  | cons v vs ih =>
    obtain ⟨fuel, rfl⟩ := Nat.exists_eq_add_of_le' (show 1 ≤ fuel by
      rw [List.length_cons] at hfuel; omega)
    rw [List.length_cons] at hfuel hlen
    by_cases hstop : totalBits (v :: vs) ≤ 0
    · exact ⟨_, run_end _ (by dsimp only; exact hstop)⟩
    by_cases hfull : trf797xFifoSize ≤ fifo
    · exact ⟨_, run_full _ hfull⟩
    have hgo := Int.not_le.mp hstop
    have hroom := Nat.not_le.mp hfull
    by_cases hfits : fifo + iovecBytes v ≤ trf797xFifoSize
    · cases vs with
      | nil =>
        have hrun : Load.run (fuel + 1) ⟨[v], 1, totalBits [v], fifo, sent, chunks⟩ = _ :=
          run_last fuel hgo hroom hfits
        rw [totalBits_cons] at hrun
        exact ⟨_, hrun.trans (run_end fuel (by dsimp only; decide))⟩
      | cons w ws =>
        have hrun : Load.run (fuel + 1) ⟨v :: w :: ws, (w :: ws).length + 1,
            totalBits (v :: w :: ws), fifo, sent, chunks⟩ = _ :=
          run_next fuel hgo hroom hfits (by rw [List.length_cons]; omega) hlen
        rw [totalBits_cons, Nat.add_sub_cancel] at hrun
        obtain ⟨s, hs⟩ := ih fuel _ (iovecBytes v) _ (Nat.le_of_succ_le_succ hfuel) (by omega) hfits
        exact ⟨s, hrun.trans hs⟩
    · exact ⟨_, run_part fuel hgo hroom (Nat.not_le.mp hfits)⟩

/-- `trf797x_transmit` returns, and from -14 bits on the chip takes what it sends as one
transmission. -/
theorem transmit_maps (line : Mem UInt8) {tx : List Iovec} (crc : Bool) (junk : Nat)
    (hlen : tx.length < 2 ^ 32) (hbits : -14 ≤ totalBits tx) :
    ∃ t, trf797xTransmit tx.length tx crc junk = some t ∧
      ∀ k, framer.Maps .ready (wire line k t.spi) .ready
        (transmission (txLengthBytes (totalBits tx)) crc t.loaded) := by
  obtain ⟨s, hs⟩ := run_returns tx tx.length 0 junk [] (Nat.le_refl _) hlen (Nat.zero_le _)
  unfold trf797xTransmit
  rw [hs, Option.map_some]
  refine ⟨_, rfl, fun k => ?_⟩
  rw [loaded_sends]
  exact maps_transmit line k tx crc s.chunks hbits

/-! ## 7. Whole sessions -/

theorem maps_transmission (line : Mem UInt8) {tx : List Iovec} {crc : Bool} {junk : Nat}
    (h : (Call.transmit tx crc junk).Framed) :
    ∃ spi, (Call.transmit tx crc junk).spi = some spi ∧
      ∀ k, framer.Maps .ready (wire line k spi) .ready (Call.transmit tx crc junk).intended := by
  obtain ⟨hlen, hbits⟩ := h
  have htotal : totalBits tx = bitSum tx := totalBits_eq (by omega)
  obtain ⟨t, ht, hmaps⟩ := transmit_maps line crc junk hlen (by omega)
  obtain ⟨u, hu, -, hloaded, -⟩ := transmit_load crc junk (Nat.le_refl _) hlen (by omega)
  obtain rfl := Option.some.inj (ht.symm.trans hu)
  rw [htotal, txLengthBytes_eq, hloaded] at hmaps
  refine ⟨t.spi, ?_, hmaps⟩
  show (trf797xTransmit tx.length tx crc junk).map Transmitted.spi = _
  rw [ht, Option.map_some]

/-- A call is taken as what it is for, wherever it is in the stream, and leaves the chip ready for
the next one. -/
theorem maps_call (line : Mem UInt8) {c : Call} (h : c.Framed) :
    ∃ spi, c.spi = some spi ∧
      ∀ k, framer.Maps .ready (wire line k spi) .ready c.intended := by
  cases c with
  | command cmd => exact ⟨_, rfl, fun _ => .emit (framer_command h) (.nil _)⟩
  | registerRead adr len => exact ⟨_, rfl, fun k => maps_registerRead line k h.1 h.2⟩
  | registerWrite adr data => exact ⟨_, rfl, fun k => maps_registerWrite line k h.1 h.2⟩
  | transmit tx crc junk => exact maps_transmission line h
  | fifoFill status data => exact ⟨_, rfl, fun k => maps_fifoFill line k status data⟩
  | fifoDrain status isNull len =>
    exact ⟨_, rfl, fun k => maps_fifoDrain line k status isNull len⟩

/-- Calls one after the other, each with what the chip takes it for. -/
theorem maps_calls (line : Mem UInt8) (ops : Call → List Operation) {calls : List Call}
    (h : ∀ c ∈ calls, ∃ spi, c.spi = some spi ∧
      ∀ k, framer.Maps .ready (wire line k spi) .ready (ops c)) :
    ∃ spi, callsSpi calls = some spi ∧
      ∀ k, framer.Maps .ready (wire line k spi) .ready (calls.flatMap ops) := by
  induction calls with
  | nil => exact ⟨[], rfl, fun _ => .nil _⟩
  | cons c cs ih =>
    obtain ⟨spi, hspi, hmaps⟩ := h c (List.mem_cons_self ..)
    obtain ⟨rest, hrest, hmapsRest⟩ := ih fun d hd => h d (List.mem_cons_of_mem _ hd)
    refine ⟨spi ++ rest, ?_, fun k => ?_⟩
    · rw [callsSpi, hspi, Option.bind_some, hrest, Option.map_some]
    · rw [wire_append, List.flatMap_cons]
      exact (hmaps k).append (hmapsRest _)

/-- The chip takes a session as the operations that its calls are for, in order. -/
theorem session_decodes (line : Mem UInt8) (calls : List Call) (h : ∀ c ∈ calls, c.Framed) :
    ∃ stream, sessionWire line calls = some stream ∧
      decode stream = some (calls.flatMap Call.intended) := by
  obtain ⟨spi, hspi, hmaps⟩ :=
    maps_calls line Call.intended fun c hc => maps_call line (h c hc)
  refine ⟨.fall :: wire line 0 spi ++ [.rise], ?_, ?_⟩
  · rw [sessionWire, hspi, Option.map_some]
  · have hrise : framer.Maps .ready [.rise] .deselected [] := .silent rfl (.nil _)
    have hall : framer.Maps .deselected (.fall :: wire line 0 spi ++ [.rise]) .deselected
        (calls.flatMap Call.intended ++ []) := .silent rfl ((hmaps 0).append hrise)
    unfold decode
    rw [show framer.run .deselected _ = some (.deselected, _) from hall, List.append_nil]

-- An exchange: IRQ status, a short frame, a refill, two drains, and the line at FF during reads.
theorem session_decodes_exchange :
    let calls := [Call.registerRead regIrqStatus 1,
      .transmit [Iovec.ofBytes (Mem.ofList 0 [0x50, 0x00]) 2, ⟨Mem.ofList 0 [0x57], 7⟩] false 0,
      .fifoFill 0x7e [0xA0, 0xA1], .fifoDrain 0x83 false 2, .command 0x0f,
      .registerWrite 0x00 [0x20]]
    (∀ c ∈ calls, c.Framed) ∧ ∃ stream, sessionWire (fun _ => 0xFF) calls = some stream ∧
      decode stream = some (calls.flatMap Call.intended) ∧
      calls.flatMap Call.intended = [.read [0x0c, 0x0d], .command 0x0f, .command 0x10,
        .write [(0x1d, 0x00), (0x1e, 0x2f), (0x1f, 0x50), (0x1f, 0x00), (0x1f, 0x57)],
        .read [0x1c], .write [(0x1f, 0xA0)], .read [0x1c], .read [0x1f, 0x1f], .read [0x1f],
        .command 0x0f, .write [(0x00, 0x20)]] := by
  intro calls
  have hframed : ∀ c ∈ calls, c.Framed := by decide +kernel
  obtain ⟨stream, hstream, hdecode⟩ := session_decodes (fun _ => 0xFF) calls hframed
  exact ⟨hframed, stream, hstream, hdecode, by decide +kernel⟩

/-- An iovec of 2^31 bits: the `int` sum is negative, the write of the TX length is not continuous,
and its second byte is taken for the register of another access, which the edge cuts off. -/
theorem session_decodes_negative :
    let tx : List Iovec := [⟨Mem.ofList 0 [], 2 ^ 31⟩]
    1 ≤ bitSum tx ∧ ∃ stream, sessionWire (fun _ => 0xFF) [.transmit tx false 0] = some stream ∧
      stream = [.fall, .byte 0x8f, .byte 0x90, .byte 0x1d, .byte 0x00, .byte 0x00, .rise, .fall,
        .rise] ∧
      decode stream = none := by
  intro tx
  exact ⟨by decide, _, by decide +kernel, rfl, by decide +kernel⟩

end NfceeFw.Trf797x
