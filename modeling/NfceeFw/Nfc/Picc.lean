import NfceeFw.Nfc.Crca
import NfceeFw.Nfc.Transceive

/-!
# Picc — the other end of the block protocol

A card that keeps to the PICC rules, the channel to it, and sessions of `nfc_iso14443_transceive`
calls over that channel.  Nothing here is translated from the source.  What a card is free to choose
is in `Card`: the responses and how they are cut, the S(WTX) requests, the two trailing bytes.
-/

namespace NfceeFw.Nfc

open NfceeFw.Reasoning

-- The FSD the reader announces in RATS; its code stands for a size as that of the FSC does.
def announcedFsd (fsd : Nat) : Nat := fsci2fsc (fsd2fsdi fsd)

/-- A response, cut into the INF fields of the I-blocks that carry it. -/
structure Response where
  parts : List (List UInt8)
  nonempty : parts ≠ []
  fits : ∀ part ∈ parts, part.length + 3 ≤ announcedFsd 127

def Response.bytes (r : Response) : List UInt8 := r.parts.flatten

/-- The choices of a card: its response to the `k`-th command, the WTXM bytes of the S(WTX) requests
before its `k`-th answer, the two bytes that end a block. -/
structure Card where
  respond : Nat → List UInt8 → Response
  wtx : Nat → List UInt8
  epd : List UInt8 → UInt8 × UInt8

/-- The state of a card.  `chain` holds the unfinished command, `rest` the parts of the response to
come, `held` the answer that waits behind S(WTX) requests; `commands` and `heard` are what the
application got and every INF byte received, for the statements. -/
structure Picc where
  number : UInt8
  chain : List UInt8
  rest : List (List UInt8)
  held : Option (List UInt8)
  wtxLeft : List UInt8
  last : List UInt8
  answers : Nat
  commands : List (List UInt8)
  heard : List UInt8

-- A card on selection.
def Picc.selected : Picc where
  number := 1
  chain := []
  rest := []
  held := none
  wtxLeft := []
  last := []
  answers := 0
  commands := []
  heard := []

-- A card that sends the first 186 bytes of a command back, in two blocks.
def Card.echo : Card where
  respond _ command :=
    { parts := [command.take 93, (command.drop 93).take 93]
      nonempty := by simp
      fits := by
        intro part hpart
        rw [show announcedFsd 127 = 96 by decide]
        simp only [List.mem_cons, List.not_mem_nil, or_false] at hpart
        have hlen : part.length ≤ 93 := by
          rcases hpart with rfl | rfl
          · exact List.length_take_le _ _
          · exact List.length_take_le _ _
        omega }
  wtx n := if n % 2 = 0 then [] else [0x01]
  epd blk := ((crca blk &&& 0xff).toUInt8, (crca blk >>> 8).toUInt8)

def Card.block (card : Card) (pcb : UInt8) (inf : List UInt8) : List UInt8 :=
  pcb :: inf ++ [(card.epd (pcb :: inf)).1, (card.epd (pcb :: inf)).2]

namespace Picc

-- Send a block, or the first of the S(WTX) requests that come before it.
def answer (card : Card) (p : Picc) (blk : List UInt8) : List UInt8 × Picc :=
  match card.wtx p.answers with
  | [] => (blk, { p with answers := p.answers + 1, held := none, wtxLeft := [], last := blk })
  | w :: ws =>
    (card.block 0xF2 [w], { p with answers := p.answers + 1, held := some blk, wtxLeft := ws })

-- The I-block for the next part, chained unless it is the last one.
def partBlock (card : Card) (p : Picc) (part : List UInt8) (more : List (List UInt8)) :
    List UInt8 :=
  card.block (iblockPcb p.number more.isEmpty) part

def sendPart (card : Card) (p : Picc) : Option (List UInt8) × Picc :=
  match p.rest with
  | [] => (none, p)
  | part :: more =>
    let sent := answer card { p with rest := more } (p.partBlock card part more)
    (some sent.1, sent.2)

def toggled (p : Picc) : Picc := { p with number := p.number ^^^ 1 }

/-- The card's reaction to a block of the reader; `none` is silence. -/
def receive (card : Card) (p : Picc) : List UInt8 → Option (List UInt8) × Picc
  | [] => (none, p)
  | pcb :: inf =>
    if isIblock pcb then
      let q := { p.toggled with heard := p.heard ++ inf }
      if pcb &&& 0x10 != 0 then
        let sent :=
          answer card { q with chain := p.chain ++ inf } (card.block (0xA2 ||| q.number) [])
        (some sent.1, sent.2)
      else
        let command := p.chain ++ inf
        sendPart card { q with
          chain := []
          commands := p.commands ++ [command]
          rest := (card.respond p.commands.length command).parts }
    else if isAck pcb then
      -- under the card's own number the last block is sent again
      if togglebit pcb.toUInt32 == p.number then (some p.last, p) else sendPart card p.toggled
    else if isWtx pcb then
      match p.held, p.wtxLeft with
      | some _, w :: ws => (some (card.block 0xF2 [w]), { p with wtxLeft := ws })
      | some blk, [] => (some blk, { p with held := none, last := blk })
      | none, _ => (none, p)
    else (none, p)

end Picc

/-! ## Channel and sessions -/

/-- What the channel loses of an exchange. -/
inductive Loss where
  | nothing
  | readerFrame
  | cardFrame
  deriving DecidableEq, Repr

/-- The card at the other end, and the frames sent so far with what became of them, latest first. -/
structure Air where
  picc : Picc
  log : List (List UInt8 × Loss)

/-- The channel; `loss k` is the fate of the `k`-th exchange.  A frame that does not arrive, either
way, is a negative return value of `l3.transceive`. -/
def channel (card : Card) (loss : Nat → Loss) : Environment Air Request Answer where
  respond air q :=
    let fate := loss air.log.length
    let log := (q.frame, fate) :: air.log
    let reply := air.picc.receive card q.frame
    match fate with
    | .readerFrame => (.error 0, ⟨air.picc, log⟩)
    | .cardFrame => (.error 0, ⟨reply.2, log⟩)
    | .nothing =>
      match reply.1 with
      | some blk => (.frame blk, ⟨reply.2, log⟩)
      | none => (.error 0, ⟨reply.2, log⟩)

-- The bytes a call is to deliver.
def CallArgs.command (a : CallArgs) : List UInt8 := a.txdata.read 0 a.txlen

/-- A finished call: its arguments, what it found and what it left. -/
structure CallRecord where
  args : CallArgs
  driver : Driver
  air : Air
  returned : Returned
  after : Air

def CallRecord.command (c : CallRecord) : List UInt8 := c.args.command

-- Calls made one after the other on the open driver, each run to its end.
def Session (card : Card) (loss : Nat → Loss) : Driver → Air → List CallRecord → Prop
  | _, _, [] => True
  | d, air, c :: cs =>
    c.driver = d ∧ c.air = air ∧
    (∃ n, (nfcIso14443Transceive c.args).play (channel card loss) n (transceiveStart d c.args) air =
      (.done c.returned, c.after)) ∧
    Session card loss c.returned.final.driver c.after cs

/-- The session of given calls, each with at most `fuel` exchanges. -/
def runSession (card : Card) (loss : Nat → Loss) (fuel : Nat) :
    Driver → Air → List CallArgs → Option (List CallRecord)
  | _, _, [] => some []
  | d, air, a :: as =>
    match (nfcIso14443Transceive a).play (channel card loss) fuel (transceiveStart d a) air with
    | (.done r, after) =>
      (runSession card loss fuel r.final.driver after as).map (⟨a, d, air, r, after⟩ :: ·)
    | (.wait _, _) => none

theorem runSession_session {card : Card} {loss : Nat → Loss} {fuel : Nat} {as : List CallArgs}
    {d : Driver} {air : Air} {cs : List CallRecord}
    (h : runSession card loss fuel d air as = some cs) : Session card loss d air cs := by
  induction as generalizing d air cs with
  | nil =>
    cases h
    trivial
  | cons a as ih =>
    rw [runSession] at h
    split at h
    · rename_i r after hplay
      obtain ⟨rest, hrest, rfl⟩ := Option.map_eq_some_iff.mp h
      exact ⟨rfl, rfl, ⟨fuel, hplay⟩, ih hrest⟩
    · cases h

/-- The call handed its own command, and nothing else, to the card's application, and returned the
bytes of the response to it that fit. -/
structure Delivered (card : Card) (c : CallRecord) : Prop where
  command : c.after.picc.commands = c.air.picc.commands ++ [c.command]
  heard : c.after.picc.heard = c.air.picc.heard ++ c.command
  ret : c.returned.ret =
    (min (card.respond c.air.picc.commands.length c.command).bytes.length c.args.rxlen : Nat)
  rxdata : c.returned.final.rxdata.read 0 c.returned.ret.toNat =
    (card.respond c.air.picc.commands.length c.command).bytes.take c.args.rxlen
  kept : ∀ i, c.returned.ret.toNat ≤ i → c.returned.final.rxdata i = c.args.rxdata i

end NfceeFw.Nfc
