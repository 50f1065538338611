import NfceeFw.Nfc.Transceive

/-!
# Bounds — the buffers of a T=CL call against any card

Whatever lengths and headers the card answers with, the blocks fit the buffer and the frame size,
and the accesses to the caller's two areas are windows laid end to end.
-/

namespace NfceeFw.Nfc

open NfceeFw.Reasoning

/-- What the block layer is promised about the sizes: `fsd` as the device reports it, `fsc` a value
of `fsci2fsc`. -/
structure Sized (d : Driver) : Prop where
  tcl : isTcl d = true
  fsd : d.fsd = 127
  fscLo : 16 ≤ d.fsc
  fscHi : d.fsc ≤ 256

theorem Sized.infSizeOf_add {d : Driver} (h : Sized d) : infSizeOf d + 3 = min d.fsd d.fsc := by
  obtain ⟨-, hfsd, hlo, hhi⟩ := h
  unfold infSizeOf maxFrameSize
  rw [sizeT_of_nonneg (by omega) (by omega)]
  omega

theorem Sized.infSizeOf_le {d : Driver} (h : Sized d) : infSizeOf d ≤ 124 := by
  have hadd := h.infSizeOf_add
  rw [h.fsd] at hadd
  omega

theorem Sized.infSizeOf_ge {d : Driver} (h : Sized d) : 13 ≤ infSizeOf d := by
  have hadd := h.infSizeOf_add
  have hlo := h.fscLo
  rw [h.fsd] at hadd
  omega

-- A type A driver after the open of a T=CL card with the given FSC.
def activated (fsc : Nat) : Driver where
  tech := .rf14443a
  nfcid := ⟨0, Mem.ofList 0 []⟩
  state := .selected
  fsc := fsc
  fsd := 127
  fwt := 80
  block := 0
  sak := 0x20
  atqa := 0x04
  ats := Mem.ofList 0 []
  atqb := Mem.ofList 0 []

theorem sized_activated {fsc : Nat} (hlo : 16 ≤ fsc) (hhi : fsc ≤ 256) : Sized (activated fsc) where
  tcl := show ((0x20 &&& 0x24 : UInt8) == 0x20) = true by decide
  fsd := rfl
  fscLo := hlo
  fscHi := hhi

/-! ## 1. The invariant of the two loops -/

/-- While a chunk is being sent: it has been read, and nothing was written to `rxdata` yet. -/
structure ChainBounds (d : Driver) (a : CallArgs) (s : Locals) : Prop where
  infSize : s.infSize = infSizeOf d
  more : s.infSize < s.txlen
  total : s.txOff + s.txlen = a.txlen
  reads : Tiles s.reads (s.txOff + s.infSize)
  writes : s.writes = []
  rxdata : s.rxdata = a.rxdata
  rxOff : s.rxOff = 0
  rxlen : s.rxlen = a.rxlen

/-- While the response is being received: the command has been read to its end. -/
structure LastBounds (d : Driver) (a : CallArgs) (s : Locals) : Prop where
  fits : s.txlen ≤ infSizeOf d
  reads : Tiles s.reads a.txlen
  writes : Tiles s.writes s.rxOff
  total : s.rxOff + s.rxlen = a.rxlen
  received : s.received = s.rxOff
  kept : ∀ i, s.rxOff ≤ i → s.rxdata i = a.rxdata i

/-- The accesses of a run so far. -/
structure AccessBounds (a : CallArgs) (s : Locals) : Prop where
  reads : ∃ n, n ≤ a.txlen ∧ Tiles s.reads n
  writes : ∃ n, n ≤ a.rxlen ∧ Tiles s.writes n ∧ ∀ i, n ≤ i → s.rxdata i = a.rxdata i

def Bounded (d : Driver) (a : CallArgs) : Run → Prop
  | .wait s =>
    s.site ≠ .direct ∧ (s.site.chaining = true → ChainBounds d a s) ∧
      (s.site.chaining = false → LastBounds d a s)
  | .done r => AccessBounds a r.final ∧ (0 ≤ r.ret → Tiles r.final.writes r.ret.toNat)

theorem ChainBounds.access {d : Driver} {a : CallArgs} {s : Locals} (h : ChainBounds d a s) :
    AccessBounds a s where
  reads := ⟨_, by have ht := h.total; have hm := h.more; omega, h.reads⟩
  writes := ⟨0, Nat.zero_le _, by rw [h.writes]; rfl, fun i _ => by rw [h.rxdata]⟩

theorem LastBounds.access {d : Driver} {a : CallArgs} {s : Locals} (h : LastBounds d a s) :
    AccessBounds a s where
  reads := ⟨_, Nat.le_refl _, h.reads⟩
  writes := ⟨_, by have ht := h.total; omega, h.writes, h.kept⟩

theorem LastBounds.store {d : Driver} {a : CallArgs} {s : Locals} (h : LastBounds d a s)
    (ans : Answer) : LastBounds d a (s.store a ans) :=
  ⟨h.fits, h.reads, h.writes, h.total, h.received, h.kept⟩

theorem Bounded.access {d : Driver} {a : CallArgs} {s : Locals} (h : Bounded d a (.wait s)) :
    AccessBounds a s := by
  obtain ⟨-, hchain, hlast⟩ := h
  cases hs : s.site.chaining with
  | true => exact (hchain hs).access
  | false => exact (hlast hs).access

theorem bounded_fail {d : Driver} {a : CallArgs} {s : Locals} (h : AccessBounds a s) :
    Bounded d a s.fail :=
  ⟨h, fun hneg => absurd (show (0 : Int) ≤ -eio from hneg) (by decide)⟩

-- The head of the last loop keeps the bounds: the block in the buffer is not longer than a chunk.
theorem bounded_sendLast {d : Driver} {a : CallArgs} {s : Locals} (h : LastBounds d a s) :
    Bounded d a s.sendLast :=
  ⟨by simp, by simp [Site.chaining],
    fun _ => ⟨h.fits, h.reads, h.writes, h.total, h.received, h.kept⟩⟩

/-- The accesses are in order at the test of the chaining loop. -/
structure ReadyBounds (d : Driver) (a : CallArgs) (s : Locals) : Prop where
  infSize : s.infSize = infSizeOf d
  total : s.txOff + s.txlen = a.txlen
  reads : Tiles s.reads s.txOff
  writes : s.writes = []
  rxdata : s.rxdata = a.rxdata
  rxOff : s.rxOff = 0
  rxlen : s.rxlen = a.rxlen

theorem bounded_sendBlock {d : Driver} {a : CallArgs} {s : Locals} (h : ReadyBounds d a s) :
    Bounded d a (s.sendBlock a) := by
  unfold Locals.sendBlock
  by_cases hmore : s.infSize < s.txlen
  · rw [if_pos hmore]
    exact ⟨by simp, fun _ => ⟨h.infSize, hmore, h.total, h.reads.cons _, h.writes, h.rxdata,
      h.rxOff, h.rxlen⟩, by simp [Site.chaining]⟩
  · rw [if_neg hmore]
    apply bounded_sendLast
    refine ⟨?_, ?_, ?_, ?_, ?_, ?_⟩
    · have hinf := h.infSize
      show s.txlen ≤ _
      omega
    · have hreads := h.reads.cons s.txlen
      rwa [h.total] at hreads
    · show Tiles s.writes s.rxOff
      rw [h.writes, h.rxOff]
      rfl
    · show s.rxOff + s.rxlen = a.rxlen
      rw [h.rxOff, h.rxlen, Nat.zero_add]
    · exact h.rxOff.symm
    · intro i _
      show s.rxdata i = a.rxdata i
      rw [h.rxdata]

/-! ## 2. One exchange -/

theorem LastBounds.readInf {d : Driver} {a : CallArgs} {s : Locals} (h : LastBounds d a s)
    (i : Int) : LastBounds d a (s.readInf i) := by
  have hle : min (sizeT (i - sizeOfHeader s.pcb - 2)) s.rxlen ≤ s.rxlen := Nat.min_le_right _ _
  have ht := h.total
  refine ⟨h.fits, h.reads, h.writes.cons _, ?_, ?_, ?_⟩
  · show s.rxOff + min _ s.rxlen + (s.rxlen - min _ s.rxlen) = a.rxlen
    omega
  · show s.received + min _ s.rxlen = s.rxOff + min _ s.rxlen
    rw [h.received]
  · intro j hj
    change s.rxOff + min _ s.rxlen ≤ j at hj
    show s.rxdata.write s.rxOff _ j = a.rxdata j
    rw [Mem.write_above _ _ _ _ (by rw [Mem.read_length]; exact hj), h.kept j (by omega)]

theorem LastBounds.countIblock {d : Driver} {a : CallArgs} {s : Locals} (h : LastBounds d a s)
    (i : Int) : LastBounds d a (s.countIblock i) := by
  unfold Locals.countIblock
  split
  · have hr := h.readInf i
    exact ⟨hr.fits, hr.reads, hr.writes, hr.total, hr.received, hr.kept⟩
  · exact ⟨h.fits, h.reads, h.writes, h.total, h.received, h.kept⟩

theorem bounded_takeIblock {d : Driver} {a : CallArgs} {s : Locals} (h : LastBounds d a s)
    (hrx : a.rxlen < 2 ^ 32) (i : Int) : Bounded d a (s.takeIblock i) := by
  have hc := h.countIblock i
  unfold Locals.takeIblock
  split
  · refine ⟨hc.access, fun hret => ?_⟩
    have ht := hc.total
    have hr := hc.received
    dsimp only at hret ⊢
    rw [toInt_of_nonneg (by omega) hret, Int.toNat_natCast, hr]
    exact hc.writes
  · apply bounded_sendLast
    exact ⟨Nat.zero_le _, hc.reads, hc.writes, hc.total, hc.received, hc.kept⟩

theorem bounded_resume {d : Driver} {a : CallArgs} (hrx : a.rxlen < 2 ^ 32) (s : Locals)
    (ans : Answer) (h : Bounded d a (.wait s)) : Bounded d a (s.resume a ans) := by
  have hacc : AccessBounds a (s.store a ans) := ⟨h.access.reads, h.access.writes⟩
  obtain ⟨hd, hchain, hlast⟩ := h
  have hex := resume_exchange a s ans hd
  generalize s.resume a ans = next at hex ⊢
  cases hex with
  | short hi => exact bounded_fail hacc
  | noAck hi hs hw hk => exact bounded_fail hacc
  | noIblock hi hs hw hk => exact bounded_fail hacc
  | wtx hi hw =>
    have hsame := s.site.chaining_wtx
    refine ⟨s.site.wtx_ne_direct, fun hs => ?_, fun hs => ?_⟩
    · have hb := hchain (hsame ▸ hs)
      exact ⟨hb.infSize, hb.more, hb.total, hb.reads, hb.writes, hb.rxdata, hb.rxOff, hb.rxlen⟩
    · have hb := hlast (hsame ▸ hs)
      exact ⟨hb.fits, hb.reads, hb.writes, hb.total, hb.received, hb.kept⟩
  | again hi hs hk ht =>
    have hb := hchain hs
    exact ⟨by simp, fun _ => ⟨hb.infSize, hb.more, hb.total, hb.reads, hb.writes, hb.rxdata,
      hb.rxOff, hb.rxlen⟩, by simp [Site.chaining]⟩
  | ack hi hs hk ht =>
    have hb := hchain hs
    apply bounded_sendBlock
    refine ⟨hb.infSize, ?_, hb.reads, hb.writes, hb.rxdata, hb.rxOff, hb.rxlen⟩
    have htot := hb.total
    have hmore := hb.more
    show s.txOff + s.infSize + (s.txlen - s.infSize) = a.txlen
    omega
  | iblock hi hs hk =>
    exact bounded_takeIblock ((hlast hs).store ans) hrx _

theorem bounded_start {d : Driver} (a : CallArgs) (htcl : isTcl d = true) :
    Bounded d a (transceiveStart d a) := by
  unfold transceiveStart
  rw [htcl]
  exact bounded_sendBlock ⟨rfl, Nat.zero_add _, rfl, rfl, rfl, rfl, rfl⟩

/-! ## 3. Whole runs -/

-- A block fits the buffer and, with its CRC, the frame size of both sides.
def Request.Fits (d : Driver) (q : Request) : Prop :=
  q.txlen ≤ maxFrameSize ∧ q.rxlen ≤ maxFrameSize ∧ q.txlen + 2 ≤ min d.fsd d.fsc

theorem query_fits {d : Driver} {a : CallArgs} (hd : Sized d) (s : Locals)
    (h : Bounded d a (.wait s)) : (s.query a).Fits d := by
  obtain ⟨hdir, hchain, hlast⟩ := h
  have hadd := hd.infSizeOf_add
  have hge := hd.infSizeOf_ge
  have hle := hd.infSizeOf_le
  unfold Request.Fits Locals.query maxFrameSize
  cases hs : s.site with
  | direct => exact absurd hs hdir
  | chain =>
    have hinf := (hchain (by rw [hs]; rfl)).infSize
    dsimp only
    omega
  | chainWtx => dsimp only; omega
  | last =>
    have hfits := (hlast (by rw [hs]; rfl)).fits
    dsimp only
    omega
  | lastWtx => dsimp only; omega

/-- Against any answers, of any length and content: every block lies in the buffer and, with its
two CRC bytes, is within both frame sizes; `txdata` is read in consecutive chunks up to its end at
most, `rxdata` written in consecutive ones up to `rxlen` at most, and a non-negative return value
counts the bytes written. -/
theorem transceive_bounds (d : Driver) (a : CallArgs) (hd : Sized d) (hrx : a.rxlen < 2 ^ 32)
    (answers : List Answer) :
    let p := nfcIso14443Transceive a
    (∀ q ∈ p.sent (transceiveStart d a) answers, q.Fits d) ∧
    match p.feed (transceiveStart d a) answers with
    | .wait s => AccessBounds a s
    | .done r => AccessBounds a r.final ∧ (0 ≤ r.ret → Tiles r.final.writes r.ret.toNat) := by
  have hstep : ∀ s ans, Bounded d a (.wait s) → Bounded d a (s.resume a ans) :=
    fun s ans => bounded_resume hrx s ans
  refine ⟨Program.sent_invariant _ hstep (query_fits hd) _ (bounded_start a hd.tcl) answers, ?_⟩
  have hrun := Program.feed_invariant (nfcIso14443Transceive a) hstep _ (bounded_start a hd.tcl)
    answers
  split
  · rename_i s hs
    rw [hs] at hrun
    exact hrun.access
  · rename_i r hr
    rw [hr] at hrun
    exact hrun

theorem transceive_bounds_two_blocks :
    let a := CallArgs.ofBytes (List.replicate 14 0x07) 1
    ∀ q ∈ (nfcIso14443Transceive a).sent (transceiveStart (activated 16) a)
        [.frame [0xA2, 0xE6, 0xD7], .frame [0x0B, 0x01, 0x90, 0x00]], q.Fits (activated 16) :=
  (transceive_bounds (activated 16) _ (sized_activated (by decide) (by decide)) (by decide) _).1

end NfceeFw.Nfc
