import NfceeFw.Nfc.Crca
import NfceeFw.Nfc.Pcb
import NfceeFw.Reasoning.Program

/-!
# Open — `nfc_iso14443a_open` and `nfc_iso14443_open` as programs over `dev->transceive`

WUPA, then an anticollision and a SELECT per cascade level, then RATS for a T=CL card.  The
arrays on the stack start with whatever is there: `OpenStack`.
-/

namespace NfceeFw.Nfc

open NfceeFw.Reasoning

def defaultTimeout : UInt32 := 15

def isBccValid (c : Mem UInt8) (off : Nat) (bcc : UInt8) : Bool :=
  (c off ^^^ c (off + 1) ^^^ c (off + 2) ^^^ c (off + 3)) == bcc

/-- `transceive` of `iso14443a.c`; its callers all pass `DEFAULT_TIMEOUT`. -/
def transceive (tx : Mem UInt8) (txlen rxlen : Nat) : DevRequest where
  tx := [Iovec.ofBytes tx txlen]
  rxBits := bytesField rxlen
  timeout := defaultTimeout

theorem transceive_bytes (tx : Mem UInt8) {txlen : Nat} (rxlen : Nat) (h : txlen < 2 ^ 29) :
    (transceive tx txlen rxlen).bytes = tx.read 0 txlen := by
  simp only [DevRequest.bytes, transceive, Iovec.ofBytes, List.flatMap_cons, List.flatMap_nil,
    List.append_nil]
  rw [bytesField_bytes h]

def transceiveShort (tx : UInt8) (rxlen : Nat) : DevRequest where
  tx := [⟨Mem.ofList 0 [tx], 7⟩]
  rxBits := bytesField rxlen
  timeout := defaultTimeout

def atqaOf (buf : Mem UInt8) : UInt16 := (buf 0).toUInt16 ||| (buf 1).toUInt16 <<< 8

def uidSizeOf (buf : Mem UInt8) : Nat := ((buf 0 >>> 6) &&& 0x03).toNat + 1

/-- `memcpy(nfcid.data + nfcid.len, ..)` with the advance of `len`. -/
def Nfcid.append (id : Nfcid) (bytes : List UInt8) : Nfcid where
  len := id.len + bytes.length.toUInt8
  data := id.data.write id.len.toNat bytes

/-- What `buf`, and the array `sak` of each pass of the loop, hold before they are written. -/
structure OpenStack where
  buf : Mem UInt8
  sak : Nat → Mem UInt8

/-- Which exchange is open. -/
inductive OpenSite where
  | wupa
  | anticollision
  | select
  | rats
  deriving DecidableEq, Repr

/-- Driver and variables at an open exchange; `uidWrites` logs the `memcpy`s into `nfcid.data`,
latest first. -/
structure OpenLocals where
  driver : Driver
  buf : Mem UInt8
  sak : Mem UInt8
  level : Nat
  uidSize : Nat
  site : OpenSite
  uidWrites : List (Nat × Nat)

structure Opened where
  ret : Int
  final : OpenLocals

abbrev OpenRun := Status OpenLocals Opened

namespace OpenLocals

def fail (s : OpenLocals) (ret : Int) : OpenRun := .done ⟨ret, s⟩

-- Retrieve UID CLn
def passHead (k : OpenStack) (s : OpenLocals) : OpenLocals :=
  { s with
    sak := k.sak s.level
    buf := (s.buf.set 0 (0x93 + 2 * s.level.toUInt8)).set 1 0x20
    site := .anticollision }

-- The test of the cascade loop, and on to the next exchange or the end.
def cascade (k : OpenStack) (s : OpenLocals) : OpenRun :=
  if s.level < s.uidSize then
    .wait (s.passHead k)
  -- T=CL compliant?
  else if (s.driver.sak &&& 0x24) == 0x20 then .wait { s with site := .rats }
  else .done ⟨0, s⟩

def afterWupa (k : OpenStack) (s : OpenLocals) : OpenRun :=
  let t := { s with driver := { s.driver with atqa := atqaOf s.buf } }
  -- Not 14443-3 compliant?
  if atqaOf s.buf &&& 0x1F == 0 then t.fail (-eproto)
  else if 3 < uidSizeOf s.buf then t.fail (-eio)
  else cascade k { t with
    driver := { t.driver with nfcid := { t.driver.nfcid with len := 0 } }
    uidSize := uidSizeOf s.buf
    level := 0 }

def afterAnticollision (s : OpenLocals) : OpenRun :=
  if !isBccValid s.buf 2 (s.buf (2 + 4)) then s.fail (-eio)
  -- Close cascade level n
  else .wait { s with buf := s.buf.set 1 0x70, site := .select }

/-- `memcpy` of `len` bytes of `buf` to the end of the identifier, and the end of the pass. -/
def takeUid (off len : Nat) (s : OpenLocals) : OpenLocals :=
  { s with
    driver := { s.driver with nfcid := s.driver.nfcid.append (s.buf.read off len) }
    uidWrites := (s.driver.nfcid.len.toNat, len) :: s.uidWrites
    level := s.level + 1 }

def afterSelect (k : OpenStack) (s : OpenLocals) : OpenRun :=
  if s.sak 0 &&& 0x04 == 0 then
    if (crca [s.sak 0]).toNat != (s.sak 1).toNat + (s.sak 2).toNat <<< 8 then s.fail (-eio)
    else cascade k (takeUid 2 4 { s with driver := { s.driver with sak := s.sak 0 } })
  else cascade k (takeUid 3 3 s)

end OpenLocals

-- The parameters read from the ATS.
def Driver.readAts (d : Driver) : Driver :=
  let fwi : UInt8 :=
    if 1 < d.ats 0 ∧ d.ats 1 &&& 0x20 != 0 then
      d.ats (if d.ats 1 &&& 0x10 != 0 then 3 else 2) >>> 4
    else 8
  { d with
    fsc := if 1 < d.ats 0 then fsci2fsc (d.ats 1 &&& 0x0F) else d.fsc
    fwt := fwi2fw fwi }

namespace OpenLocals

def afterRats (s : OpenLocals) : OpenRun := .done ⟨0, { s with driver := s.driver.readAts }⟩

-- What the open exchange sends.
def query (s : OpenLocals) : DevRequest :=
  match s.site with
  | .wupa => transceiveShort 0x52 8
  | .anticollision => transceive s.buf (if s.level = 0 then 2 else 7) 5
  | .select => nfcIso14443aTransceive ⟨s.buf, 7, 3, defaultTimeout⟩
  | .rats =>
    nfcIso14443aTransceive
      ⟨Mem.ofList 0 [0xE0, fsd2fsdi (toInt s.driver.fsd) <<< 4], 2, 7, defaultTimeout⟩

def resume (k : OpenStack) (s : OpenLocals) (ans : Answer) : OpenRun :=
  match s.site with
  | .wupa =>
    if ans.ret 8 < 0 then s.fail (-enodev)
    else afterWupa k { s with buf := s.buf.write 0 (ans.received 8) }
  | .anticollision =>
    if ans.ret 5 < 0 then s.fail (-eio)
    else afterAnticollision { s with buf := s.buf.write 2 (ans.received 5) }
  | .select =>
    if ans.ret 3 < 0 then s.fail (-eio)
    else afterSelect k { s with sak := s.sak.write 0 (ans.received 3) }
  | .rats =>
    if ans.ret 7 < 0 then s.fail (ans.ret 7)
    else afterRats { s with
      driver := { s.driver with ats := s.driver.ats.write 0 (ans.received 7) } }

-- The variables on entry.
def entry (k : OpenStack) (d : Driver) : OpenLocals where
  driver := d
  buf := k.buf
  sak := k.sak 0
  level := 0
  uidSize := 0
  site := .wupa
  uidWrites := []

end OpenLocals

def nfcIso14443aOpen (k : OpenStack) : Program OpenLocals DevRequest Answer Opened :=
  ⟨OpenLocals.query, OpenLocals.resume k⟩

/-- The call on driver `d`, at its first exchange. -/
def openStart (k : OpenStack) (d : Driver) : OpenRun := .wait (OpenLocals.entry k d)

/-! ## `nfc_iso14443_open` -/

/-- What `dev->open` returns, and the frame size that `dev->ioctl` stores. -/
structure Device where
  open_ : NfcDigital → Int
  frameSize : Nat

/-- The driver after `l3.open` returned. -/
def Opened.settle (r : Opened) : Opened :=
  { r with
    final := { r.final with
      driver :=
        if r.ret != 0 then { r.final.driver with state := .powerOff }
        else { r.final.driver with state := .selected, block := 0 } } }

def nfcIso14443Open (k : OpenStack) : Program OpenLocals DevRequest Answer Opened :=
  (nfcIso14443aOpen k).map Opened.settle

/-- The call with a type A driver `d`, up to its first exchange. -/
def nfcOpenStart (dev : Device) (k : OpenStack) (d : Driver) : OpenRun :=
  match d.state with
  | .powerOff =>
    if dev.open_ d.tech != 0 then .done ⟨dev.open_ d.tech, OpenLocals.entry k d⟩
    else (openStart k { d with fsd := dev.frameSize, state := .idle }).map Opened.settle
  | .idle | .halted => (openStart k d).map Opened.settle
  | .selected => .done ⟨0, OpenLocals.entry k d⟩

end NfceeFw.Nfc
