import NfceeFw.Nfc.Pcb
import NfceeFw.Reasoning.Program

/-!
# Transceive — `nfc_iso14443_transceive` as a program over `l3.transceive`

The function is cut at its five calls to `l3.transceive`.  `buffer` is one memory for the block to
send and for the answer that overwrites it, as in the source; offsets from 256 on are whatever
follows it on the stack.
-/

namespace NfceeFw.Nfc

open NfceeFw.Reasoning

def maxFrameSize : Nat := 256

/-- The arguments of a call; `stack` is what `buffer` holds before its first write. -/
structure CallArgs where
  txdata : Mem UInt8
  txlen : Nat
  rxdata : Mem UInt8
  rxlen : Nat
  timeout : UInt32
  stack : Mem UInt8

/-- A call with `data` to send and a cleared area for the response. -/
def CallArgs.ofBytes (data : List UInt8) (rxlen : Nat) : CallArgs where
  txdata := Mem.ofList 0 data
  txlen := data.length
  rxdata := Mem.ofList 0 []
  rxlen := rxlen
  timeout := 0
  stack := Mem.ofList 0 []

/-- Which call to `l3.transceive` is open: the pass-through one, those of the chaining loop (the
block, the S(WTX) reply), those of the last loop. -/
inductive Site where
  | direct
  | chain
  | chainWtx
  | last
  | lastWtx
  deriving DecidableEq, Repr

/-- Driver and variables at an open call.  `txdata` and `rxdata` have advanced by `txOff` and
`rxOff`; `reads` and `writes` log the `memcpy`s from the one and into the other, latest first. -/
structure Locals where
  driver : Driver
  buffer : Mem UInt8
  infSize : Nat
  txOff : Nat
  txlen : Nat
  rxdata : Mem UInt8
  rxOff : Nat
  rxlen : Nat
  received : Nat
  site : Site
  reads : List (Nat × Nat)
  writes : List (Nat × Nat)

/-- The returned value, with driver and variables as the call leaves them. -/
structure Returned where
  ret : Int
  final : Locals

abbrev Run := Status Locals Returned

/-- `goto error` -/
def Locals.fail (s : Locals) : Run := .done ⟨-eio, s⟩

def Locals.pcb (s : Locals) : UInt8 := s.buffer 0

def Locals.toggle (s : Locals) : UInt8 := togglebit s.driver.block

/-- `buffer[0] |= togglebit(driver->block)`, then the send at the head of the last loop. -/
def Locals.sendLast (s : Locals) : Run :=
  .wait { s with buffer := s.buffer.set 0 (s.buffer 0 ||| s.toggle), site := .last }

-- From the test of the chaining loop to the next send.
def Locals.sendBlock (a : CallArgs) (s : Locals) : Run :=
  if s.infSize < s.txlen then
    .wait { s with
      buffer := (s.buffer.set 0 (0x12 ||| s.toggle)).write 1 (a.txdata.read s.txOff s.infSize)
      reads := (s.txOff, s.infSize) :: s.reads
      site := .chain }
  else
    Locals.sendLast { s with
      buffer := (s.buffer.set 0 0x02).write 1 (a.txdata.read s.txOff s.txlen)
      reads := (s.txOff, s.txlen) :: s.reads
      received := 0 }

/-- The body of a `while(is_wtx(..))`: Rule 3. -/
def Locals.replyWtx (s : Locals) (site : Site) : Run :=
  .wait { s with buffer := s.buffer.set 1 (s.buffer 1 &&& 0x3F), site := site }

-- Rule B
def Locals.incBlock (s : Locals) : Locals :=
  { s with driver := { s.driver with block := s.driver.block + 1 } }

-- Past a chunk the card has acknowledged.
def Locals.nextChunk (s : Locals) : Locals :=
  ({ s with txOff := s.txOff + s.infSize, txlen := s.txlen - s.infSize } : Locals).incBlock

/-- The chaining loop from the test of `while(is_wtx(..))` on. -/
def Locals.afterChain (a : CallArgs) (s : Locals) : Run :=
  if isWtx s.pcb then s.replyWtx .chainWtx
  else if !isAck s.pcb then s.fail
  -- Rule 6/7: the buffer is sent again as the answers have left it
  else if togglebit s.pcb.toUInt32 != s.toggle then .wait { s with site := .chain }
  else s.nextChunk.sendBlock a

def sizeOfHeader (pcb : UInt8) : Nat :=
  1 + (if pcb &&& 0x08 != 0 then 1 else 0) + (if pcb &&& 0x04 != 0 then 1 else 0)

/-- "Read data from FIFO": `MIN(i - size_of_header - 2, rxlen)` compares as `size_t`. -/
def Locals.readInf (s : Locals) (i : Int) : Locals :=
  let infSize := min (sizeT (i - sizeOfHeader s.pcb - 2)) s.rxlen
  { s with
    infSize := infSize
    rxdata := s.rxdata.write s.rxOff (s.buffer.read (sizeOfHeader s.pcb) infSize)
    writes := (s.rxOff, infSize) :: s.writes
    rxOff := s.rxOff + infSize
    rxlen := s.rxlen - infSize
    received := s.received + infSize }

-- the INF field is read only under the current number; the counter advances in any case
def Locals.countIblock (s : Locals) (i : Int) : Locals :=
  (if togglebit s.pcb.toUInt32 == s.toggle then s.readInf i else s).incBlock

def Locals.takeIblock (s : Locals) (i : Int) : Run :=
  if s.pcb &&& 0x10 == 0 then .done ⟨toInt (s.countIblock i).received, s.countIblock i⟩
  else
    Locals.sendLast
      { s.countIblock i with buffer := (s.countIblock i).buffer.set 0 0xA2, txlen := 0 }

/-- The last loop from the test of `while(is_wtx(..))` on; `i` bytes were received. -/
def Locals.afterLast (s : Locals) (i : Int) : Run :=
  if isWtx s.pcb then s.replyWtx .lastWtx
  else if !isIblock s.pcb then s.fail
  else s.takeIblock i

-- The room for the answer that the open call asks for.
def Site.rxlen (a : CallArgs) : Site → Nat
  | .direct => a.rxlen
  | .chain | .chainWtx => 3
  | .last | .lastWtx => maxFrameSize

/-- The answer as `l3.transceive` leaves it at the start of `buffer`. -/
def Locals.store (s : Locals) (a : CallArgs) (ans : Answer) : Locals :=
  { s with buffer := s.buffer.write 0 (ans.received (s.site.rxlen a)) }

-- What the open call sends.
def Locals.query (a : CallArgs) (s : Locals) : Request :=
  match s.site with
  | .direct => ⟨a.txdata, a.txlen, a.rxlen, a.timeout⟩
  | .chain => ⟨s.buffer, s.infSize + 1, 3, s.driver.fwt⟩
  | .chainWtx => ⟨s.buffer, 2, 3, s.driver.fwt * (s.buffer 1).toUInt32⟩
  | .last => ⟨s.buffer, s.txlen + 1, maxFrameSize, s.driver.fwt⟩
  | .lastWtx => ⟨s.buffer, 2, maxFrameSize, s.driver.fwt * (s.buffer 1).toUInt32⟩

-- From the return of the open call to the next one, or to the end.
def Locals.resume (a : CallArgs) (s : Locals) (ans : Answer) : Run :=
  let i := ans.ret (s.site.rxlen a)
  let t := s.store a ans
  match s.site with
  | .direct => .done ⟨i, { s with rxdata := s.rxdata.write 0 (ans.received a.rxlen) }⟩
  | .chain =>
    if i < 3 then t.fail
    -- I-Blocks are not allowed during chaining
    else if isIblock t.pcb then t.fail
    else t.afterChain a
  | .chainWtx => if i < 3 then t.fail else t.afterChain a
  | .last | .lastWtx => if i < 3 then t.fail else t.afterLast i

def nfcIso14443Transceive (a : CallArgs) : Program Locals Request Answer Returned :=
  ⟨Locals.query a, Locals.resume a⟩

/-- `MIN(driver->fsd, MIN(driver->fsc, sizeof buffer)) - 3` -/
def infSizeOf (d : Driver) : Nat := sizeT (((min d.fsd (min d.fsc maxFrameSize) : Nat) : Int) - 3)

-- The variables on entry.
def Locals.entry (d : Driver) (a : CallArgs) : Locals where
  driver := d
  buffer := a.stack
  infSize := infSizeOf d
  txOff := 0
  txlen := a.txlen
  rxdata := a.rxdata
  rxOff := 0
  rxlen := a.rxlen
  received := 0
  site := .direct
  reads := []
  writes := []

-- The call, up to its first exchange.
def transceiveStart (d : Driver) (a : CallArgs) : Run :=
  if !isTcl d then .wait (Locals.entry d a) else (Locals.entry d a).sendBlock a

/-! ## What one exchange can do -/

-- The two loops: sending a chained command, and waiting for the response.
def Site.chaining : Site → Bool
  | .chain | .chainWtx => true
  | _ => false

def Site.wtx : Site → Site
  | .chain | .chainWtx => .chainWtx
  | _ => .lastWtx

theorem Site.chaining_wtx (t : Site) : t.wtx.chaining = t.chaining := by cases t <;> rfl

theorem Site.wtx_waiting {t : Site} (hd : t ≠ .direct) (h : t.chaining = false) :
    t.wtx = .lastWtx := by
  cases t with
  | direct => exact absurd rfl hd
  | chain | chainWtx => cases h
  | last | lastWtx => rfl

theorem Site.wtx_ne_direct (t : Site) : t.wtx ≠ .direct := by cases t <;> exact Site.noConfusion

-- The chaining loop makes room for three bytes.
theorem Site.rxlen_chaining {t : Site} (a : CallArgs) (h : t.chaining = true) : t.rxlen a = 3 := by
  cases t with
  | chain | chainWtx => rfl
  | direct | last | lastWtx => cases h

-- The waiting loop makes room for a whole frame.
theorem Site.rxlen_waiting {t : Site} (a : CallArgs) (hd : t ≠ .direct) (h : t.chaining = false) :
    t.rxlen a = maxFrameSize := by
  cases t with
  | direct => exact absurd rfl hd
  | chain | chainWtx => cases h
  | last | lastWtx => rfl

theorem Site.rxlen_bounds {t : Site} (a : CallArgs) (hd : t ≠ .direct) :
    3 ≤ t.rxlen a ∧ t.rxlen a ≤ maxFrameSize := by
  cases t with
  | direct => exact absurd rfl hd
  | chain | chainWtx | last | lastWtx => simp [Site.rxlen, maxFrameSize]

-- Of the block in `buffer`, its answers leave what is past these.
theorem store_above (a : CallArgs) (s : Locals) (ans : Answer) (hs : s.site.chaining = true)
    (hi : 3 ≤ ans.ret (s.site.rxlen a)) {i : Nat} (h : 3 ≤ i) :
    (s.store a ans).buffer i = s.buffer i := by
  have hroom := Site.rxlen_chaining a hs
  have hlen := (ans.received_length (s.site.rxlen a) (by omega)).2
  show s.buffer.write 0 (ans.received (s.site.rxlen a)) i = s.buffer i
  exact Mem.write_above _ _ _ _ (by omega)

/-- The outcomes of an exchange of a T=CL call, each with the condition it has. -/
inductive Exchange (a : CallArgs) (s : Locals) (ans : Answer) : Run → Prop where
  | short (hi : ans.ret (s.site.rxlen a) < 3) : Exchange a s ans (s.store a ans).fail
  | wtx (hi : 3 ≤ ans.ret (s.site.rxlen a)) (hw : isWtx (s.store a ans).pcb = true) :
      Exchange a s ans ((s.store a ans).replyWtx s.site.wtx)
  | noAck (hi : 3 ≤ ans.ret (s.site.rxlen a)) (hs : s.site.chaining = true)
      (hw : isWtx (s.store a ans).pcb = false) (hk : isAck (s.store a ans).pcb = false) :
      Exchange a s ans (s.store a ans).fail
  | again (hi : 3 ≤ ans.ret (s.site.rxlen a)) (hs : s.site.chaining = true)
      (hk : isAck (s.store a ans).pcb = true)
      (ht : togglebit (s.store a ans).pcb.toUInt32 ≠ s.toggle) :
      Exchange a s ans (.wait { s.store a ans with site := .chain })
  | ack (hi : 3 ≤ ans.ret (s.site.rxlen a)) (hs : s.site.chaining = true)
      (hk : isAck (s.store a ans).pcb = true)
      (ht : togglebit (s.store a ans).pcb.toUInt32 = s.toggle) :
      Exchange a s ans ((s.store a ans).nextChunk.sendBlock a)
  | noIblock (hi : 3 ≤ ans.ret (s.site.rxlen a)) (hs : s.site.chaining = false)
      (hw : isWtx (s.store a ans).pcb = false) (hb : isIblock (s.store a ans).pcb = false) :
      Exchange a s ans (s.store a ans).fail
  | iblock (hi : 3 ≤ ans.ret (s.site.rxlen a)) (hs : s.site.chaining = false)
      (hb : isIblock (s.store a ans).pcb = true) :
      Exchange a s ans ((s.store a ans).takeIblock (ans.ret (s.site.rxlen a)))

-- The check for I-blocks after a block repeats what the test for an R(ACK) does.
theorem afterChain_iblock (a : CallArgs) (s : Locals) (hb : isIblock s.pcb = true) :
    s.afterChain a = s.fail := by
  unfold Locals.afterChain
  rw [isWtx_of_isIblock _ hb, isAck_of_isIblock _ hb]
  rfl

-- Within a loop it makes no difference which of its two calls returns.
theorem resume_chaining (a : CallArgs) (s : Locals) (ans : Answer) (hs : s.site.chaining = true) :
    s.resume a ans = if ans.ret (s.site.rxlen a) < 3 then (s.store a ans).fail
      else (s.store a ans).afterChain a := by
  unfold Locals.resume
  cases hsite : s.site with
  | direct | last | lastWtx => rw [hsite] at hs; cases hs
  | chainWtx => rfl
  | chain =>
    dsimp only
    cases hb : isIblock (s.store a ans).pcb with
    | false => rfl
    | true =>
      rw [afterChain_iblock a _ hb]
      rfl

theorem resume_last (a : CallArgs) (s : Locals) (ans : Answer) (hd : s.site ≠ .direct)
    (hs : s.site.chaining = false) :
    s.resume a ans = if ans.ret (s.site.rxlen a) < 3 then (s.store a ans).fail
      else (s.store a ans).afterLast (ans.ret (s.site.rxlen a)) := by
  unfold Locals.resume
  cases hsite : s.site with
  | direct => exact absurd hsite hd
  | chain | chainWtx => rw [hsite] at hs; cases hs
  | last | lastWtx => rfl

theorem afterChain_exchange (a : CallArgs) (s : Locals) (ans : Answer)
    (hs : s.site.chaining = true) (hi : 3 ≤ ans.ret (s.site.rxlen a)) :
    Exchange a s ans ((s.store a ans).afterChain a) := by
  unfold Locals.afterChain
  cases hw : isWtx (s.store a ans).pcb
  · cases hk : isAck (s.store a ans).pcb
    · exact .noAck hi hs hw hk
    · rw [show (s.store a ans).toggle = s.toggle from rfl]
      by_cases ht : togglebit (s.store a ans).pcb.toUInt32 = s.toggle
      · simpa [ht] using Exchange.ack hi hs hk ht
      · simpa [ht] using Exchange.again hi hs hk ht
  · have hsite : s.site.wtx = .chainWtx := by
      cases h : s.site <;> simp_all [Site.chaining, Site.wtx]
    simpa only [if_true, hsite] using Exchange.wtx hi hw

theorem afterLast_exchange (a : CallArgs) (s : Locals) (ans : Answer)
    (hs : s.site.chaining = false) (hi : 3 ≤ ans.ret (s.site.rxlen a)) :
    Exchange a s ans ((s.store a ans).afterLast (ans.ret (s.site.rxlen a))) := by
  unfold Locals.afterLast
  cases hw : isWtx (s.store a ans).pcb
  · cases hb : isIblock (s.store a ans).pcb
    · exact .noIblock hi hs hw hb
    · exact .iblock hi hs hb
  · have hsite : s.site.wtx = .lastWtx := by
      cases h : s.site <;> simp_all [Site.chaining, Site.wtx]
    simpa only [if_true, hsite] using Exchange.wtx hi hw

-- Every exchange of a T=CL call has one of the seven outcomes.
theorem resume_exchange (a : CallArgs) (s : Locals) (ans : Answer) (hd : s.site ≠ .direct) :
    Exchange a s ans (s.resume a ans) := by
  cases hs : s.site.chaining with
  | true =>
    rw [resume_chaining a s ans hs]
    by_cases hi : ans.ret (s.site.rxlen a) < 3
    · rw [if_pos hi]
      exact .short hi
    · rw [if_neg hi]
      exact afterChain_exchange a s ans hs (Int.not_lt.mp hi)
  | false =>
    rw [resume_last a s ans hd hs]
    by_cases hi : ans.ret (s.site.rxlen a) < 3
    · rw [if_pos hi]
      exact .short hi
    · rw [if_neg hi]
      exact afterLast_exchange a s ans hs (Int.not_lt.mp hi)

/-! ## Of the driver, a call changes the block number alone -/

def KeepsDriver (d : Driver) : Run → Prop
  | .wait s => s.driver = { d with block := s.driver.block }
  | .done r => r.final.driver = { d with block := r.final.driver.block }

theorem keepsDriver_sendBlock {d : Driver} (a : CallArgs) {s : Locals}
    (h : s.driver = { d with block := s.driver.block }) : KeepsDriver d (s.sendBlock a) := by
  unfold Locals.sendBlock
  split
  · exact h
  · exact h

theorem incBlock_driver {d : Driver} {s : Locals}
    (h : s.driver = { d with block := s.driver.block }) :
    s.incBlock.driver = { d with block := s.incBlock.driver.block } := by
  show { s.driver with block := s.driver.block + 1 } = _
  rw [h]
  rfl

theorem keepsDriver_resume {d : Driver} (a : CallArgs) (s : Locals) (ans : Answer)
    (h : KeepsDriver d (.wait s)) : KeepsDriver d (s.resume a ans) := by
  have ht : (s.store a ans).driver = { d with block := (s.store a ans).driver.block } := h
  by_cases hd : s.site = .direct
  · unfold Locals.resume
    rw [hd]
    exact h
  have hex := resume_exchange a s ans hd
  generalize s.resume a ans = next at hex ⊢
  cases hex with
  | short | wtx | noAck | again | noIblock => exact h
  | ack => exact keepsDriver_sendBlock a (incBlock_driver ht)
  | iblock =>
    have hc : ∀ i, ((s.store a ans).countIblock i).driver =
        { d with block := ((s.store a ans).countIblock i).driver.block } := by
      intro i
      unfold Locals.countIblock
      split
      · exact incBlock_driver ht
      · exact incBlock_driver ht
    unfold Locals.takeIblock
    split
    · exact hc _
    · exact hc _

theorem keepsDriver_start (d : Driver) (a : CallArgs) : KeepsDriver d (transceiveStart d a) := by
  unfold transceiveStart
  split
  · rfl
  · exact keepsDriver_sendBlock a rfl

/-! ## What is done with an answer of a given kind -/

theorem countIblock_current {s : Locals} (h : togglebit s.pcb.toUInt32 = s.toggle) (i : Int) :
    s.countIblock i = (s.readInf i).incBlock := by
  unfold Locals.countIblock
  rw [h, beq_self_eq_true, if_pos rfl]

theorem countIblock_other {s : Locals} (h : togglebit s.pcb.toUInt32 ≠ s.toggle) (i : Int) :
    s.countIblock i = s.incBlock := by
  unfold Locals.countIblock
  rw [if_neg (by simpa using h)]

section

variable (a : CallArgs) (s : Locals) (ans : Answer)

theorem resume_short (hd : s.site ≠ .direct) (hi : ans.ret (s.site.rxlen a) < 3) :
    s.resume a ans = (s.store a ans).fail := by
  cases hs : s.site.chaining with
  | true => rw [resume_chaining a s ans hs, if_pos hi]
  | false => rw [resume_last a s ans hd hs, if_pos hi]

theorem resume_wtx (hd : s.site ≠ .direct) (hi : 3 ≤ ans.ret (s.site.rxlen a))
    (hw : isWtx (s.store a ans).pcb = true) :
    s.resume a ans = (s.store a ans).replyWtx s.site.wtx := by
  cases hs : s.site.chaining with
  | true =>
    rw [resume_chaining a s ans hs, if_neg (Int.not_lt.mpr hi), Locals.afterChain, if_pos hw]
    cases hsite : s.site with
    | chain | chainWtx => rfl
    | direct | last | lastWtx => rw [hsite] at hs; cases hs
  | false =>
    rw [resume_last a s ans hd hs, if_neg (Int.not_lt.mpr hi), Locals.afterLast, if_pos hw]
    cases hsite : s.site with
    | direct | last | lastWtx => rfl
    | chain | chainWtx => rw [hsite] at hs; cases hs

theorem resume_ack (hs : s.site.chaining = true) (hi : 3 ≤ ans.ret (s.site.rxlen a))
    (hk : isAck (s.store a ans).pcb = true)
    (ht : togglebit (s.store a ans).pcb.toUInt32 = s.toggle) :
    s.resume a ans = (s.store a ans).nextChunk.sendBlock a := by
  have ht' : togglebit (s.store a ans).pcb.toUInt32 = (s.store a ans).toggle := ht
  rw [resume_chaining a s ans hs, if_neg (Int.not_lt.mpr hi), Locals.afterChain,
    isWtx_of_isAck _ hk, hk, ht']
  simp

theorem resume_iblock (hd : s.site ≠ .direct) (hs : s.site.chaining = false)
    (hi : 3 ≤ ans.ret (s.site.rxlen a)) (hb : isIblock (s.store a ans).pcb = true) :
    s.resume a ans = (s.store a ans).takeIblock (ans.ret (s.site.rxlen a)) := by
  rw [resume_last a s ans hd hs, if_neg (Int.not_lt.mpr hi), Locals.afterLast,
    isWtx_of_isIblock _ hb, hb]
  rfl

end

end NfceeFw.Nfc
