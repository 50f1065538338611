import NfceeFw.Nfc.Bounds
import NfceeFw.Nfc.Picc

/-!
# Session — reader and card in step

The joint invariant of a T=CL call and the card it talks to: which block is in the buffer, which
number each side is at, how much of the command the card has and how much of the response the
reader has.  It is stated per kind of open exchange (`Stage`), with a rank that falls.
-/

namespace NfceeFw.Nfc

open NfceeFw.Reasoning

/-! ## 1. A block in the reader's buffer -/

theorem card_block_length (card : Card) (pcb : UInt8) (inf : List UInt8) :
    (card.block pcb inf).length = inf.length + 3 := by
  simp [Card.block]

theorem ret_block (card : Card) (pcb : UInt8) (inf : List UInt8) {rxlen : Nat} (h : 3 ≤ rxlen) :
    3 ≤ (Answer.frame (card.block pcb inf)).ret rxlen := by
  simp only [Answer.ret, card_block_length]
  omega

theorem store_block_pcb (card : Card) (a : CallArgs) (s : Locals) (pcb : UInt8) (inf : List UInt8)
    (hd : s.site ≠ .direct) : (s.store a (.frame (card.block pcb inf))).pcb = pcb := by
  obtain ⟨hlo, -⟩ := Site.rxlen_bounds a hd
  show s.buffer.write 0 ((card.block pcb inf).take (s.site.rxlen a)) 0 = pcb
  rw [← Nat.zero_add 0, Mem.write_at _ _ _ _ (by
    rw [List.length_take, card_block_length]; omega), List.getElem_take]
  rfl

-- A whole block in the buffer: its INF field starts behind the control byte.
theorem store_block_inf (card : Card) (a : CallArgs) (s : Locals) (pcb : UInt8) (inf : List UInt8)
    (n : Nat) (hs : s.site.rxlen a = maxFrameSize) (hfit : inf.length + 3 ≤ maxFrameSize)
    (hn : n ≤ inf.length) :
    (s.store a (.frame (card.block pcb inf))).buffer.read 1 n = inf.take n := by
  show (s.buffer.write 0 ((card.block pcb inf).take (s.site.rxlen a))).read 1 n = inf.take n
  rw [hs, List.take_of_length_le (by rw [card_block_length]; exact hfit)]
  have hwin := s.buffer.read_write_window 0 1 n (card.block pcb inf)
    (by rw [card_block_length]; omega)
  rw [Nat.zero_add] at hwin
  rw [hwin]
  simp only [Card.block, List.cons_append, List.drop_succ_cons, List.drop_zero]
  exact List.take_append_of_le_length hn

/-! ## 2. Stages of a call -/

section

variable (card : Card) (d : Driver) (a : CallArgs) (p₀ : Picc)

-- The response the card gives to the command of the call.
def response : Response := card.respond p₀.commands.length a.command

/-- The card has the first `n` bytes of the command, as an unfinished chain. -/
structure Taken (n : Nat) (p : Picc) : Prop where
  chain : p.chain = a.txdata.read 0 n
  commands : p.commands = p₀.commands
  heard : p.heard = p₀.heard ++ a.txdata.read 0 n

/-- The application has the command, the reader the parts `got` of the response. -/
structure Answering (got : List (List UInt8)) (s : Locals) (p : Picc) : Prop where
  chain : p.chain = []
  commands : p.commands = p₀.commands ++ [a.command]
  heard : p.heard = p₀.heard ++ a.command
  received : s.rxOff = min got.flatten.length a.rxlen
  rxdata : s.rxdata.read 0 s.rxOff = got.flatten.take a.rxlen

/-- What the reader is about to send, or the card about to answer behind S(WTX) requests; first the
rank: the number of blocks to come, then the S(WTX) requests to come. -/
inductive Stage : Nat × Nat → Locals → Picc → Prop where
  /-- A chained block of the command is in the buffer. -/
  | chunk {blocks : Nat} {s : Locals} {p : Picc} (site : s.site = .chain)
      (left : blocks = 2 * s.txlen + 2 * (response card a p₀).parts.length + 2)
      (frame : s.buffer.read 0 (s.infSize + 1) =
        iblockPcb s.toggle false :: a.txdata.read s.txOff s.infSize)
      (number : p.number = s.toggle ^^^ 1) (taken : Taken a p₀ s.txOff p) : Stage (blocks, 0) s p
  /-- The card has the block; its R(ACK) waits. -/
  | chunkHeld {blocks requests : Nat} {s : Locals} {p : Picc} (site : s.site = .chainWtx)
      (left : blocks = 2 * s.txlen + 2 * (response card a p₀).parts.length + 1)
      (requestsLeft : requests = p.wtxLeft.length + 1)
      (reply : s.buffer 0 = 0xF2)
      (number : p.number = s.toggle) (taken : Taken a p₀ (s.txOff + s.infSize) p)
      (held : p.held = some (card.block (0xA2 ||| s.toggle) [])) : Stage (blocks, requests) s p
  /-- The last block of the command is in the buffer. -/
  | command {blocks : Nat} {s : Locals} {p : Picc} (site : s.site = .last)
      (left : blocks = 2 * s.txlen + 2 * (response card a p₀).parts.length + 2)
      (total : s.txOff + s.txlen = a.txlen)
      (frame : s.buffer.read 0 (s.txlen + 1) =
        iblockPcb s.toggle true :: a.txdata.read s.txOff s.txlen)
      (fresh : s.rxOff = 0)
      (number : p.number = s.toggle ^^^ 1) (taken : Taken a p₀ s.txOff p) : Stage (blocks, 0) s p
  /-- An R(ACK) that asks for the next part is in the buffer. -/
  | ack {blocks : Nat} {s : Locals} {p : Picc} (got : List (List UInt8)) (site : s.site = .last)
      (left : blocks = 2 * p.rest.length) (txlen : s.txlen = 0)
      (reply : s.buffer 0 = 0xA2 ||| s.toggle)
      (number : p.number = s.toggle ^^^ 1) (answering : Answering a p₀ got s p)
      (more : p.rest ≠ []) (parts : (response card a p₀).parts = got ++ p.rest) :
      Stage (blocks, 0) s p
  /-- The I-block with the next part waits. -/
  | partHeld {blocks requests : Nat} {s : Locals} {p : Picc} (got : List (List UInt8))
      (part : List UInt8) (site : s.site = .lastWtx)
      (left : blocks = 2 * p.rest.length + 1) (requestsLeft : requests = p.wtxLeft.length + 1)
      (reply : s.buffer 0 = 0xF2)
      (number : p.number = s.toggle) (answering : Answering a p₀ got s p)
      (held : p.held = some (p.partBlock card part p.rest))
      (parts : (response card a p₀).parts = got ++ part :: p.rest) : Stage (blocks, requests) s p

/-- Between two calls: opposite numbers, and no unfinished command at the card. -/
structure Synced (d : Driver) (p : Picc) : Prop where
  number : p.number = togglebit d.block ^^^ 1
  chain : p.chain = []

/-- A successful end. -/
structure Finished (r : Returned) (p : Picc) : Prop where
  synced : Synced r.final.driver p
  commands : p.commands = p₀.commands ++ [a.command]
  heard : p.heard = p₀.heard ++ a.command
  ret : r.ret = toInt (min (response card a p₀).bytes.length a.rxlen)
  rxdata : r.final.rxdata.read 0 (min (response card a p₀).bytes.length a.rxlen) =
    (response card a p₀).bytes.take a.rxlen
  kept : ∀ i, min (response card a p₀).bytes.length a.rxlen ≤ i → r.final.rxdata i = a.rxdata i

end

/-! ## 3. The reader on the card's blocks -/

section

variable {card : Card} {d : Driver} {a : CallArgs} {p₀ : Picc}

theorem stage_sendBlock {s : Locals} {p : Picc} (hr : ReadyBounds d a s)
    (number : p.number = s.toggle ^^^ 1) (taken : Taken a p₀ s.txOff p) :
    ∃ s', s.sendBlock a = .wait s' ∧ s'.driver = s.driver ∧
      Stage card a p₀ (2 * s.txlen + 2 * (response card a p₀).parts.length + 2, 0) s' p := by
  unfold Locals.sendBlock
  by_cases hmore : s.infSize < s.txlen
  · rw [if_pos hmore]
    refine ⟨_, rfl, rfl, ?_⟩
    refine Stage.chunk ?_ ?_ ?_ ?_ ?_
    · rfl
    · rfl
    · have hread :=
        s.buffer.read_header_payload (0x12 ||| s.toggle) (a.txdata.read s.txOff s.infSize)
      rwa [Mem.read_length] at hread
    · exact number
    · exact taken
  · rw [if_neg hmore]
    refine ⟨_, rfl, rfl, ?_⟩
    refine Stage.command ?_ ?_ ?_ ?_ ?_ ?_ ?_
    · rfl
    · rfl
    · exact hr.total
    · show (((s.buffer.set 0 0x02).write 1 (a.txdata.read s.txOff s.txlen)).set 0
        (((s.buffer.set 0 0x02).write 1 (a.txdata.read s.txOff s.txlen)) 0 ||| s.toggle)).read 0
        (s.txlen + 1) = _
      rw [Mem.write_below _ _ _ _ Nat.one_pos, Mem.set_same, Mem.read_set_zero]
      have hread := (s.buffer.set 0 0x02).read_write_same 1 (a.txdata.read s.txOff s.txlen)
      rw [Mem.read_length] at hread
      rw [hread]
      rfl
    · exact hr.rxOff
    · exact number
    · exact taken

theorem site_ne_direct {s : Site} (hs : s.chaining = true) : s ≠ .direct := by
  intro h
  rw [h] at hs
  exact Bool.false_ne_true hs

theorem incBlock_toggle (s : Locals) : s.incBlock.toggle = s.toggle ^^^ 1 :=
  togglebit_succ s.driver.block

-- The R(ACK) for the chunk just sent: on to the next block of the command.
theorem ack_arrives {s : Locals} {p : Picc} (hsz : Sized d) (hs : s.site.chaining = true)
    (hb : ChainBounds d a s) (number : p.number = s.toggle)
    (taken : Taken a p₀ (s.txOff + s.infSize) p) :
    ∃ m s', s.resume a (.frame (card.block (0xA2 ||| s.toggle) [])) = .wait s' ∧
      Stage card a p₀ m s' p ∧ m.1 < 2 * s.txlen + 2 * (response card a p₀).parts.length + 1 := by
  have hbit := togglebit_cases s.driver.block
  have hd := site_ne_direct hs
  have hpcb := store_block_pcb card a s (0xA2 ||| s.toggle) [] hd
  have hmore := hb.more
  have htotal := hb.total
  have hinf := hb.infSize
  have hge := hsz.infSizeOf_ge
  rw [resume_ack a s _ hs (ret_block card _ _ (Site.rxlen_bounds a hd).1)
    (by rw [hpcb]; exact isAck_ack hbit) (by rw [hpcb]; exact togglebit_ack hbit)]
  let t := (s.store a (.frame (card.block (0xA2 ||| s.toggle) []))).nextChunk
  have hready : ReadyBounds d a t := by
    refine ⟨hb.infSize, ?_, hb.reads, hb.writes, hb.rxdata, hb.rxOff, hb.rxlen⟩
    show s.txOff + s.infSize + (s.txlen - s.infSize) = a.txlen
    omega
  have hnumber : p.number = t.toggle ^^^ 1 := by
    rw [show t.toggle = s.toggle ^^^ 1 from incBlock_toggle _, xor_one_xor_one, number]
  obtain ⟨s', hsend, -, hstage⟩ := stage_sendBlock hready hnumber taken
  refine ⟨_, s', hsend, hstage, ?_⟩
  show 2 * (s.txlen - s.infSize) + 2 * _ + 2 < _
  omega

-- An S(WTX) request: the reply is in the buffer, everything else as it was.
theorem wtx_arrives (card : Card) (a : CallArgs) (s : Locals) (w : UInt8) (hd : s.site ≠ .direct) :
    ∃ buffer : Mem UInt8, buffer 0 = 0xF2 ∧ s.resume a (.frame (card.block 0xF2 [w])) =
      .wait { s with buffer := buffer, site := s.site.wtx } := by
  have hpcb := store_block_pcb card a s 0xF2 [w] hd
  rw [resume_wtx a s _ hd (ret_block card _ _ (Site.rxlen_bounds a hd).1) (by rw [hpcb]; decide)]
  let t := s.store a (.frame (card.block 0xF2 [w]))
  exact ⟨_, (Mem.set_other t.buffer 1 0 (t.buffer 1 &&& 0x3F) (by decide)).trans hpcb, rfl⟩

-- "Read data from FIFO" on a whole I-block without CID and NAD.
theorem answering_readInf {s : Locals} {p : Picc} {got : List (List UInt8)} {part : List UInt8}
    {pcb : UInt8} (hs : s.site.rxlen a = maxFrameSize) (hd : s.site ≠ .direct)
    (hb : LastBounds d a s) (hans : Answering a p₀ got s p) (hhead : sizeOfHeader pcb = 1)
    (hfit : part.length + 3 ≤ maxFrameSize) :
    Answering a p₀ (got ++ [part])
      ((s.store a (.frame (card.block pcb part))).readInf
        ((Answer.frame (card.block pcb part)).ret (s.site.rxlen a))) p := by
  let t := s.store a (.frame (card.block pcb part))
  have hpcb : t.pcb = pcb := store_block_pcb card a s pcb part hd
  have hret : (Answer.frame (card.block pcb part)).ret (s.site.rxlen a) =
      (part.length + 3 : Nat) := by
    rw [hs]
    simp only [Answer.ret, card_block_length]
    rw [Nat.min_eq_left hfit]
  have hsize : sizeT ((part.length + 3 : Nat) - sizeOfHeader t.pcb - 2) = part.length := by
    rw [hpcb, hhead, show ((part.length + 3 : Nat) : Int) - (1 : Nat) - 2 = (part.length : Nat) by
      omega, sizeT_natCast (by unfold maxFrameSize at hfit; omega)]
  have hroom : s.rxlen = a.rxlen - got.flatten.length := by
    have htot := hb.total
    have hrec := hans.received
    omega
  have hinf : t.buffer.read (sizeOfHeader t.pcb) (min part.length s.rxlen) =
      part.take (a.rxlen - got.flatten.length) := by
    rw [hpcb, hhead, store_block_inf card a s pcb part _ hs hfit (Nat.min_le_left _ _), hroom,
      ← List.take_take]
    exact List.take_of_length_le (List.length_take_le' _ _)
  have hflat : (got ++ [part]).flatten = got.flatten ++ part := by simp
  have hoff : s.rxOff + min part.length s.rxlen = min (got ++ [part]).flatten.length a.rxlen := by
    have htot := hb.total
    have hrec := hans.received
    rw [hflat, List.length_append]
    omega
  rw [hret]
  refine ⟨hans.chain, hans.commands, hans.heard, ?_, ?_⟩
  · show s.rxOff + min (sizeT ((part.length + 3 : Nat) - sizeOfHeader t.pcb - 2)) s.rxlen = _
    rw [hsize, hoff]
  · show (s.rxdata.write s.rxOff (t.buffer.read (sizeOfHeader t.pcb)
      (min (sizeT ((part.length + 3 : Nat) - sizeOfHeader t.pcb - 2)) s.rxlen))).read 0
      (s.rxOff + min (sizeT ((part.length + 3 : Nat) - sizeOfHeader t.pcb - 2)) s.rxlen) = _
    rw [hsize, hinf, hoff, hans.received, hflat]
    apply Mem.read_append_clipped
    rw [← hans.received]
    exact hans.rxdata

theorem sizeOfHeader_iblockPcb {n : UInt8} (hn : n = 0 ∨ n = 1) (isLast : Bool) :
    sizeOfHeader (iblockPcb n isLast) = 1 := by
  rcases hn with rfl | rfl <;> cases isLast <;> decide

theorem Response.part_fits {r : Response} {got rest : List (List UInt8)} {part : List UInt8}
    (parts : r.parts = got ++ part :: rest) : part.length + 3 ≤ maxFrameSize := by
  have hmem : part ∈ r.parts := by
    rw [parts]
    simp
  have hfit := r.fits part hmem
  rw [show announcedFsd 127 = 96 by decide] at hfit
  unfold maxFrameSize
  omega

-- With all parts read, the call ends as it should.
theorem Answering.finished {got : List (List UInt8)} {s : Locals} {p : Picc}
    (hans : Answering a p₀ got s p) (hb : LastBounds d a s) (number : p.number = s.toggle)
    (parts : (response card a p₀).parts = got) :
    Finished card a p₀ ⟨toInt s.received, s.incBlock⟩ p := by
  have hlen : min (response card a p₀).bytes.length a.rxlen = s.rxOff := by
    unfold Response.bytes
    rw [parts, hans.received]
  have hbytes : (response card a p₀).bytes.take a.rxlen = got.flatten.take a.rxlen := by
    unfold Response.bytes
    rw [parts]
  refine ⟨⟨?_, hans.chain⟩, hans.commands, hans.heard, ?_, ?_, ?_⟩
  · show p.number = s.incBlock.toggle ^^^ 1
    rw [incBlock_toggle, xor_one_xor_one, number]
  · rw [hlen, hb.received]
  · rw [hlen, hbytes]
    exact hans.rxdata
  · rw [hlen]
    exact hb.kept

-- With parts to come, an R(ACK) is put into the buffer.
theorem Answering.acknowledged {got : List (List UInt8)} {s : Locals} {p : Picc}
    (hans : Answering a p₀ got s p) (number : p.number = s.toggle) (more : p.rest ≠ [])
    (parts : (response card a p₀).parts = got ++ p.rest) :
    ∃ s', Locals.sendLast { s.incBlock with buffer := s.incBlock.buffer.set 0 0xA2, txlen := 0 } =
      .wait s' ∧ Stage card a p₀ (2 * p.rest.length, 0) s' p := by
  refine ⟨_, rfl, ?_⟩
  refine Stage.ack got ?_ ?_ ?_ ?_ ?_ ?_ ?_ ?_
  · rfl
  · rfl
  · rfl
  · show (s.buffer.set 0 0xA2).set 0 ((s.buffer.set 0 0xA2) 0 ||| s.incBlock.toggle) 0 =
      0xA2 ||| s.incBlock.toggle
    rw [Mem.set_same, Mem.set_same]
  · show p.number = s.incBlock.toggle ^^^ 1
    rw [incBlock_toggle, xor_one_xor_one, number]
  · exact ⟨hans.chain, hans.commands, hans.heard, hans.received, hans.rxdata⟩
  · exact more
  · exact parts

-- An I-block with the next part of the response: the end of the call, or the R(ACK) for more.
theorem part_arrives {s : Locals} {p : Picc} {got : List (List UInt8)} {part : List UInt8}
    (hs : s.site.rxlen a = maxFrameSize) (hd : s.site ≠ .direct)
    (hc : s.site.chaining = false) (hb : LastBounds d a s) (hans : Answering a p₀ got s p)
    (number : p.number = s.toggle)
    (parts : (response card a p₀).parts = got ++ part :: p.rest) :
    (∃ r, s.resume a (.frame (p.partBlock card part p.rest)) = .done r ∧
      Finished card a p₀ r p) ∨
    (∃ s', s.resume a (.frame (p.partBlock card part p.rest)) = .wait s' ∧
      Stage card a p₀ (2 * p.rest.length, 0) s' p) := by
  have hbit : p.number = 0 ∨ p.number = 1 := by
    rw [number]
    exact togglebit_cases _
  let pcb := iblockPcb p.number p.rest.isEmpty
  let t := s.store a (.frame (card.block pcb part))
  let i := (Answer.frame (card.block pcb part)).ret (s.site.rxlen a)
  have hpcb : t.pcb = pcb := store_block_pcb card a s pcb part hd
  have hcurrent : togglebit t.pcb.toUInt32 = t.toggle := by
    rw [hpcb, togglebit_iblockPcb hbit, number]
    rfl
  have hread : Answering a p₀ (got ++ [part]) (t.readInf i) p :=
    answering_readInf hs hd hb hans (sizeOfHeader_iblockPcb hbit _) (Response.part_fits parts)
  have hbounds : LastBounds d a (t.readInf i) := (hb.store _).readInf i
  show (∃ r, s.resume a (.frame (card.block pcb part)) = .done r ∧ _) ∨
    (∃ s', s.resume a (.frame (card.block pcb part)) = .wait s' ∧ _)
  rw [resume_iblock a s _ hd hc (ret_block card _ _ (Site.rxlen_bounds a hd).1)
    (by rw [hpcb]; exact isIblock_iblockPcb hbit _)]
  unfold Locals.takeIblock
  rw [countIblock_current hcurrent, hpcb, chained_iblockPcb hbit]
  by_cases hmore : p.rest = []
  · left
    rw [if_pos (by rw [hmore]; rfl)]
    exact ⟨_, rfl, hread.finished hbounds number (by rw [parts, hmore])⟩
  · right
    rw [if_neg (by simpa using hmore)]
    exact hread.acknowledged number hmore (by rw [parts, List.append_assoc, List.singleton_append])

/-! ## 4. The card on the reader's blocks -/

theorem frame_chain {s : Locals} (site : s.site = .chain) :
    (s.query a).frame = s.buffer.read 0 (s.infSize + 1) := by
  unfold Locals.query
  rw [site]
  rfl

theorem frame_last {s : Locals} (site : s.site = .last) :
    (s.query a).frame = s.buffer.read 0 (s.txlen + 1) := by
  unfold Locals.query
  rw [site]
  rfl

theorem frame_wtx {s : Locals} (site : s.site = .chainWtx ∨ s.site = .lastWtx)
    (reply : s.buffer 0 = 0xF2) : (s.query a).frame = [0xF2, s.buffer 1] := by
  unfold Locals.query
  rcases site with site | site <;> rw [site, ← reply] <;> rfl

theorem isAck_iblockPcb {n : UInt8} (hn : n = 0 ∨ n = 1) (isLast : Bool) :
    isAck (iblockPcb n isLast) = false := by
  rcases hn with rfl | rfl <;> cases isLast <;> decide

-- The reader sends an R(ACK) only for a response: the card has no unfinished command then.
theorem Stage.frame {m : Nat × Nat} {s : Locals} {p : Picc} (h : Stage card a p₀ m s p) :
    ∃ pcb inf, (s.query a).frame = pcb :: inf ∧
      (isAck pcb = true → p.number = s.toggle ^^^ 1 ∧ p.chain = []) := by
  have hbit : s.toggle = 0 ∨ s.toggle = 1 := togglebit_cases _
  cases h with
  | chunk site left frame number taken =>
    refine ⟨_, _, (frame_chain site).trans frame, fun hack => ?_⟩
    rw [isAck_iblockPcb hbit] at hack
    exact absurd hack Bool.false_ne_true
  | chunkHeld site left requestsLeft reply number taken held =>
    exact ⟨_, _, frame_wtx (.inl site) reply, fun hack => absurd hack (by decide)⟩
  | command site left total frame fresh number taken =>
    refine ⟨_, _, (frame_last site).trans frame, fun hack => ?_⟩
    rw [isAck_iblockPcb hbit] at hack
    exact absurd hack Bool.false_ne_true
  | ack got site left txlen reply number answering more parts =>
    refine ⟨s.buffer 0, [], ?_, fun _ => ⟨number, answering.chain⟩⟩
    rw [frame_last site, txlen]
    rfl
  | partHeld got part site left requestsLeft reply number answering held parts =>
    exact ⟨_, _, frame_wtx (.inr site) reply, fun hack => absurd hack (by decide)⟩

theorem receive_chunk {n : UInt8} (hn : n = 0 ∨ n = 1) {p : Picc} (inf : List UInt8)
    (number : p.number = n ^^^ 1) :
    p.receive card (iblockPcb n false :: inf) =
      let q := { p with number := n, heard := p.heard ++ inf, chain := p.chain ++ inf }
      (some (q.answer card (card.block (0xA2 ||| n) [])).1,
        (q.answer card (card.block (0xA2 ||| n) [])).2) := by
  have hchained : (iblockPcb n false &&& 0x10 != 0) = true := by
    rw [bne, chained_iblockPcb hn]
    rfl
  unfold Picc.receive
  simp only [isIblock_iblockPcb hn, hchained, if_true, Picc.toggled, number, xor_one_xor_one]

theorem receive_command {n : UInt8} (hn : n = 0 ∨ n = 1) {p : Picc} (inf : List UInt8)
    (number : p.number = n ^^^ 1) :
    p.receive card (iblockPcb n true :: inf) =
      Picc.sendPart card { p with
        number := n
        heard := p.heard ++ inf
        chain := []
        commands := p.commands ++ [p.chain ++ inf]
        rest := (card.respond p.commands.length (p.chain ++ inf)).parts } := by
  have hchained : (iblockPcb n true &&& 0x10 != 0) = false := by
    rw [bne, chained_iblockPcb hn]
    rfl
  unfold Picc.receive
  simp only [isIblock_iblockPcb hn, hchained, if_true, Bool.false_eq_true, if_false, Picc.toggled,
    number, xor_one_xor_one]

theorem receive_ack {n : UInt8} (hn : n = 0 ∨ n = 1) {p : Picc} (number : p.number = n ^^^ 1) :
    p.receive card [0xA2 ||| n] = Picc.sendPart card { p with number := n } := by
  have hne : (n == n ^^^ 1) = false := by
    rcases hn with rfl | rfl <;> decide
  unfold Picc.receive
  simp only [isIblock_of_isAck _ (isAck_ack hn), isAck_ack hn, togglebit_ack hn, Picc.toggled,
    number, hne, xor_one_xor_one, Bool.false_eq_true, if_true, if_false]

theorem receive_wtxReply {p : Picc} {blk : List UInt8} (w : UInt8) (held : p.held = some blk) :
    p.receive card [0xF2, w] = match p.wtxLeft with
      | w' :: ws => (some (card.block 0xF2 [w']), { p with wtxLeft := ws })
      | [] => (some blk, { p with held := none, last := blk }) := by
  unfold Picc.receive
  simp only [held, show isIblock 0xF2 = false by decide, show isAck 0xF2 = false by decide,
    show isWtx 0xF2 = true by decide, Bool.false_eq_true, if_false, if_true]
  cases p.wtxLeft <;> rfl

/-! ## 5. One exchange in step -/

-- The outcome of an exchange without loss: the end of the call, or a stage of lower rank.
def Advances (card : Card) (a : CallArgs) (p₀ : Picc) (m : Nat × Nat) (next : Run) (p : Picc) :
    Prop :=
  (∃ r, next = .done r ∧ Finished card a p₀ r p) ∨
  (∃ m' s', next = .wait s' ∧ Stage card a p₀ m' s' p ∧ Prod.Lex (· < ·) (· < ·) m' m)

theorem lex_of_fst_lt {m m' : Nat × Nat} (h : m'.1 < m.1) : Prod.Lex (· < ·) (· < ·) m' m :=
  Prod.Lex.left _ _ h

-- The card has taken a chained block and acknowledges it.
theorem chunk_taken {s : Locals} {p : Picc} (hsz : Sized d) (hs : s.site.chaining = true)
    (hb : ChainBounds d a s) (number : p.number = s.toggle)
    (taken : Taken a p₀ (s.txOff + s.infSize) p) {m : Nat × Nat}
    (hm : 2 * s.txlen + 2 * (response card a p₀).parts.length + 1 < m.1) :
    let sent := Picc.answer card p (card.block (0xA2 ||| s.toggle) [])
    Advances card a p₀ m (s.resume a (.frame sent.1)) sent.2 := by
  right
  unfold Picc.answer
  cases card.wtx p.answers with
  | nil =>
    obtain ⟨m', s', hnext, hstage, hlt⟩ := ack_arrives (p := { p with
      answers := p.answers + 1, held := none, wtxLeft := [],
      last := card.block (0xA2 ||| s.toggle) [] }) hsz hs hb number
      ⟨taken.chain, taken.commands, taken.heard⟩
    exact ⟨m', s', hnext, hstage, lex_of_fst_lt (by omega)⟩
  | cons w ws =>
    obtain ⟨buffer, hreply, hnext⟩ := wtx_arrives card a s w (site_ne_direct hs)
    refine ⟨(2 * s.txlen + 2 * (response card a p₀).parts.length + 1, ws.length + 1), _, hnext, ?_,
      lex_of_fst_lt hm⟩
    refine Stage.chunkHeld ?_ rfl rfl hreply number ?_ rfl
    · cases hsite : s.site <;> rw [hsite] at hs <;> first | rfl | exact absurd hs (by decide)
    · exact ⟨taken.chain, taken.commands, taken.heard⟩

-- The card sends the next part of its response.
theorem part_taken {s : Locals} {p : Picc} (got : List (List UInt8))
    (hs : s.site.rxlen a = maxFrameSize) (hd : s.site ≠ .direct) (hc : s.site.chaining = false)
    (hb : LastBounds d a s) (hans : Answering a p₀ got s p) (number : p.number = s.toggle)
    (more : p.rest ≠ []) (parts : (response card a p₀).parts = got ++ p.rest) {m : Nat × Nat}
    (hm : 2 * p.rest.length ≤ m.1) :
    ∃ blk p', p.sendPart card = (some blk, p') ∧
      Advances card a p₀ m (s.resume a (.frame blk)) p' := by
  obtain ⟨part, rest, hrest⟩ := List.exists_cons_of_ne_nil more
  unfold Picc.sendPart
  rw [hrest, List.length_cons] at hm
  rw [hrest] at parts ⊢
  refine ⟨_, _, rfl, ?_⟩
  unfold Picc.answer
  dsimp only
  cases card.wtx p.answers with
  | nil =>
    have harr := part_arrives (p := { p with
      rest := rest, answers := p.answers + 1, held := none, wtxLeft := [],
      last := p.partBlock card part rest }) hs hd hc hb
      ⟨hans.chain, hans.commands, hans.heard, hans.received, hans.rxdata⟩ number parts
    rcases harr with hdone | ⟨s', hnext, hstage⟩
    · exact .inl hdone
    · exact .inr ⟨_, s', hnext, hstage, lex_of_fst_lt (by dsimp only; omega)⟩
  | cons w ws =>
    obtain ⟨buffer, hreply, hnext⟩ := wtx_arrives card a s w hd
    refine .inr ⟨(2 * rest.length + 1, ws.length + 1), _, hnext, ?_,
      lex_of_fst_lt (by dsimp only; omega)⟩
    refine Stage.partHeld got part ?_ rfl rfl hreply number ?_ rfl parts
    · exact Site.wtx_waiting hd hc
    · exact ⟨hans.chain, hans.commands, hans.heard, hans.received, hans.rxdata⟩

-- The reply to an S(WTX) request behind which an R(ACK) waits.
theorem chunkHeld_exchange {s : Locals} {p : Picc} {blocks requests : Nat} (hsz : Sized d)
    (hb : ChainBounds d a s) (site : s.site = .chainWtx)
    (left : blocks = 2 * s.txlen + 2 * (response card a p₀).parts.length + 1)
    (requestsLeft : requests = p.wtxLeft.length + 1) (number : p.number = s.toggle)
    (taken : Taken a p₀ (s.txOff + s.infSize) p)
    (held : p.held = some (card.block (0xA2 ||| s.toggle) [])) (w : UInt8) :
    ∃ blk p', p.receive card [0xF2, w] = (some blk, p') ∧
      Advances card a p₀ (blocks, requests) (s.resume a (.frame blk)) p' := by
  have hs : s.site.chaining = true := by rw [site]; rfl
  rw [receive_wtxReply _ held]
  cases hwtx : p.wtxLeft with
  | nil =>
    obtain ⟨m', s', hnext, hstage, hlt⟩ := ack_arrives (p := { p with
      held := none, wtxLeft := [], last := card.block (0xA2 ||| s.toggle) [] }) hsz hs hb number
      ⟨taken.chain, taken.commands, taken.heard⟩
    exact ⟨_, _, rfl, .inr ⟨m', s', hnext, hstage, lex_of_fst_lt (by rw [left]; exact hlt)⟩⟩
  | cons w' ws =>
    obtain ⟨buffer, hreply, hnext⟩ := wtx_arrives card a s w' (site_ne_direct hs)
    refine ⟨_, _, rfl, .inr ⟨(blocks, ws.length + 1), _, hnext, ?_, ?_⟩⟩
    · exact Stage.chunkHeld (by rw [site]; rfl) left rfl hreply number
        ⟨taken.chain, taken.commands, taken.heard⟩ held
    · apply Prod.Lex.right
      rw [requestsLeft, hwtx, List.length_cons]
      omega

-- The reply to an S(WTX) request behind which a part of the response waits.
theorem partHeld_exchange {s : Locals} {p : Picc} {blocks requests : Nat}
    {got : List (List UInt8)} {part : List UInt8} (hb : LastBounds d a s)
    (site : s.site = .lastWtx) (left : blocks = 2 * p.rest.length + 1)
    (requestsLeft : requests = p.wtxLeft.length + 1) (number : p.number = s.toggle)
    (answering : Answering a p₀ got s p) (held : p.held = some (p.partBlock card part p.rest))
    (parts : (response card a p₀).parts = got ++ part :: p.rest) (w : UInt8) :
    ∃ blk p', p.receive card [0xF2, w] = (some blk, p') ∧
      Advances card a p₀ (blocks, requests) (s.resume a (.frame blk)) p' := by
  have hd : s.site ≠ .direct := by
    rw [site]
    exact Site.noConfusion
  rw [receive_wtxReply _ held]
  cases hwtx : p.wtxLeft with
  | nil =>
    have harr := part_arrives (p := { p with
      held := none, wtxLeft := [], last := p.partBlock card part p.rest }) (by rw [site]; rfl) hd
      (by rw [site]; rfl) hb ⟨answering.chain, answering.commands, answering.heard,
        answering.received, answering.rxdata⟩ number parts
    refine ⟨_, _, rfl, ?_⟩
    rcases harr with hdone | ⟨s', hnext, hstage⟩
    · exact .inl hdone
    · exact .inr ⟨(2 * p.rest.length, 0), s', hnext, hstage,
        lex_of_fst_lt (by rw [left]; exact Nat.lt_succ_self _)⟩
  | cons w' ws =>
    obtain ⟨buffer, hreply, hnext⟩ := wtx_arrives card a s w' hd
    refine ⟨_, _, rfl, .inr ⟨(blocks, ws.length + 1), _, hnext, ?_, ?_⟩⟩
    · exact Stage.partHeld got part (by rw [site]; rfl) left rfl hreply number
        ⟨answering.chain, answering.commands, answering.heard, answering.received,
          answering.rxdata⟩ held parts
    · apply Prod.Lex.right
      rw [requestsLeft, hwtx, List.length_cons]
      omega

-- The last block of a command: the card's first part answers it.
theorem command_exchange {s : Locals} {p : Picc} {m : Nat × Nat} (hb : LastBounds d a s)
    (site : s.site = .last) (left : 2 * (response card a p₀).parts.length ≤ m.1)
    (total : s.txOff + s.txlen = a.txlen) (fresh : s.rxOff = 0)
    (number : p.number = s.toggle ^^^ 1) (taken : Taken a p₀ s.txOff p) :
    ∃ blk p', p.receive card (iblockPcb s.toggle true :: a.txdata.read s.txOff s.txlen) =
        (some blk, p') ∧ Advances card a p₀ m (s.resume a (.frame blk)) p' := by
  have hcommand : p.chain ++ a.txdata.read s.txOff s.txlen = a.command := by
    unfold CallArgs.command
    rw [taken.chain, ← total, Mem.read_add, Nat.zero_add]
  have hheard : p.heard ++ a.txdata.read s.txOff s.txlen = p₀.heard ++ a.command := by
    unfold CallArgs.command
    rw [taken.heard, List.append_assoc, ← total, Mem.read_add, Nat.zero_add]
  have hbit : s.toggle = 0 ∨ s.toggle = 1 := togglebit_cases _
  rw [receive_command hbit _ number, hcommand, hheard, taken.commands]
  refine part_taken [] (by rw [site]; rfl) (by rw [site]; exact Site.noConfusion)
    (by rw [site]; rfl) hb ?_ ?_ ?_ ?_ ?_
  · refine ⟨rfl, rfl, rfl, ?_, ?_⟩
    · rw [fresh, List.flatten_nil, List.length_nil, Nat.zero_min]
    · rw [fresh, List.flatten_nil, List.take_nil, Mem.read_zero]
  · rfl
  · exact (response card a p₀).nonempty
  · rfl
  · exact left

-- In step, the card answers what the reader has in its buffer, and the two stay in step.
theorem stage_exchange (hsz : Sized d) {m : Nat × Nat} {s : Locals} {p : Picc}
    (hb : Bounded d a (.wait s)) (hst : Stage card a p₀ m s p) :
    ∃ blk p', p.receive card (s.query a).frame = (some blk, p') ∧
      Advances card a p₀ m (s.resume a (.frame blk)) p' := by
  obtain ⟨hd, hchain, hlast⟩ := hb
  have hbit : s.toggle = 0 ∨ s.toggle = 1 := togglebit_cases _
  cases hst with
  | chunk site left frame number taken =>
    have hs : s.site.chaining = true := by rw [site]; rfl
    rw [frame_chain site, frame, receive_chunk hbit _ number, left]
    refine ⟨_, _, rfl, ?_⟩
    refine chunk_taken hsz hs (hchain hs) ?_ ?_ (Nat.lt_succ_self _)
    · rfl
    · refine ⟨?_, taken.commands, ?_⟩
      · show p.chain ++ _ = _
        rw [taken.chain, Mem.read_add, Nat.zero_add]
      · show p.heard ++ _ = _
        rw [taken.heard, Mem.read_add, Nat.zero_add, List.append_assoc]
  | chunkHeld site left requestsLeft reply number taken held =>
    rw [frame_wtx (.inl site) reply]
    exact chunkHeld_exchange hsz (hchain (by rw [site]; rfl)) site left requestsLeft number taken
      held _
  | command site left total frame fresh number taken =>
    rw [frame_last site, frame]
    exact command_exchange (hlast (by rw [site]; rfl)) site (by rw [left]; omega) total fresh number
      taken
  | ack got site left txlen reply number answering more parts =>
    have hc : s.site.chaining = false := by rw [site]; rfl
    have hframe : (s.query a).frame = [0xA2 ||| s.toggle] := by
      rw [frame_last site, txlen, ← reply]
      rfl
    rw [hframe, receive_ack hbit number]
    exact part_taken (p := { p with number := s.toggle }) got (by rw [site]; rfl) hd hc
      (hlast hc) ⟨answering.chain, answering.commands, answering.heard, answering.received,
        answering.rxdata⟩ rfl more parts (Nat.le_of_eq left.symm)
  | partHeld got part site left requestsLeft reply number answering held parts =>
    rw [frame_wtx (.inr site) reply]
    exact partHeld_exchange (hlast (by rw [site]; rfl)) site left requestsLeft number answering held
      parts _

end

end NfceeFw.Nfc
