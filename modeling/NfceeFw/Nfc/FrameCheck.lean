import NfceeFw.Nfc.Cascade
import NfceeFw.Reasoning.ShiftRegister

/-!
# FrameCheck — CRC_A as a shift register, and the errors it shows

`crca` takes a byte at a time.  Here it is shown to be the register of ISO/IEC 14443-3, which takes
a bit at a time; what the trailer of a frame is, and which errors it shows, are then facts about the
register.
-/

namespace NfceeFw.Nfc

open NfceeFw.Reasoning

/-! ## 1. The register -/

-- The bits of a byte, the lowest first.
def bitsOf (b : UInt8) : List Bool := (List.range 8).map b.toBitVec.getLsbD

/-- The bits of a frame in the order in which they are sent. -/
def transmitted (data : List UInt8) : List Bool := data.flatMap bitsOf

-- The polynomial, reflected.
def crcaPoly : BitVec 16 := 0x8408

/-- The CRC_A register, bit by bit. -/
def crcaRegister (data : List UInt8) : BitVec 16 :=
  ShiftRegister.run crcaPoly 0x6363 (transmitted data)

@[simp] theorem bitsOf_length (b : UInt8) : (bitsOf b).length = 8 := rfl

theorem transmitted_length (data : List UInt8) : (transmitted data).length = 8 * data.length := by
  induction data with
  | nil => rfl
  | cons b data ih =>
    rw [show transmitted (b :: data) = bitsOf b ++ transmitted data from rfl, List.length_append,
      bitsOf_length, ih, List.length_cons]
    omega

theorem bitsOf_getD (b : UInt8) (i : Nat) : (bitsOf b).getD i false = b.toBitVec.getLsbD i := by
  by_cases hi : i < 8
  · rw [List.getD_eq_getElem _ _ (show i < (bitsOf b).length from hi)]
    simp [bitsOf]
  · rw [List.getD_eq_default _ _ (show (bitsOf b).length ≤ i by rw [bitsOf_length]; omega),
      BitVec.getLsbD_of_ge _ _ (by omega)]

/-! ## 2. A byte at a time -/

-- The part of a pass that depends on `ch`.
def crcaFold (ch : UInt8) : UInt16 :=
  let ch := ch ^^^ (ch <<< 4)
  (ch.toUInt16 <<< 8) ^^^ (ch.toUInt16 <<< 3) ^^^ (ch >>> 4).toUInt16

theorem crcaByte_eq (crc : UInt16) (b : UInt8) :
    crcaByte crc b = (crc >>> 8) ^^^ crcaFold (b ^^^ crc.toUInt8) := by
  unfold crcaByte crcaFold
  rw [UInt16.xor_assoc, UInt16.xor_assoc, UInt16.xor_assoc]

theorem load_bitsOf (b : UInt8) : ShiftRegister.load 16 (bitsOf b) = b.toBitVec.setWidth 16 := by
  apply BitVec.eq_of_getLsbD_eq
  intro i hi
  rw [ShiftRegister.getLsbD_load, BitVec.getLsbD_setWidth, bitsOf_getD]

-- Eight steps on a register with an empty high byte.
theorem run_low (ch : UInt8) :
    ShiftRegister.run crcaPoly (ch.toBitVec.setWidth 16) (List.replicate 8 false) =
      (crcaFold ch).toBitVec := by
  revert ch
  exact forallByte (by decide +kernel)

/-- A pass of the loop is eight steps of the register: the high byte is shifted out, the low one,
with the byte that enters, is folded. -/
theorem crcaByte_run (crc : UInt16) (b : UInt8) :
    (crcaByte crc b).toBitVec = ShiftRegister.run crcaPoly crc.toBitVec (bitsOf b) := by
  have hhigh : (crc.toBitVec ^^^ b.toBitVec.setWidth 16) >>> 8 = crc.toBitVec >>> 8 := by
    apply BitVec.eq_of_getLsbD_eq
    intro i _
    rw [BitVec.getLsbD_ushiftRight, BitVec.getLsbD_xor, BitVec.getLsbD_setWidth,
      BitVec.getLsbD_of_ge b.toBitVec _ (by omega), Bool.and_false, Bool.xor_false,
      BitVec.getLsbD_ushiftRight]
  have hlow : (crc.toBitVec ^^^ b.toBitVec.setWidth 16).setWidth 8 =
      (b ^^^ crc.toUInt8).toBitVec := by
    apply BitVec.eq_of_getLsbD_eq
    intro i hi
    rw [BitVec.getLsbD_setWidth, BitVec.getLsbD_xor, BitVec.getLsbD_setWidth, UInt8.toBitVec_xor,
      BitVec.getLsbD_xor, UInt16.toBitVec_toUInt8, BitVec.getLsbD_setWidth, decide_eq_true hi,
      decide_eq_true (show i < 16 by omega), Bool.true_and, Bool.true_and, Bool.true_and,
      Bool.xor_comm]
  have hfits : (bitsOf b).length ≤ 16 := show 8 ≤ 16 by decide
  rw [ShiftRegister.run_load crcaPoly _ _ hfits, load_bitsOf, bitsOf_length,
    ShiftRegister.run_split, hhigh, hlow, run_low, crcaByte_eq, UInt16.toBitVec_xor]
  rfl

/-- `crca` is the register of the standard, for every start. -/
theorem crca_run (crc : UInt16) (data : List UInt8) :
    (data.foldl crcaByte crc).toBitVec =
      ShiftRegister.run crcaPoly crc.toBitVec (transmitted data) := by
  induction data generalizing crc with
  | nil => rfl
  | cons b data ih =>
    rw [List.foldl_cons, ih, crcaByte_run,
      show transmitted (b :: data) = bitsOf b ++ transmitted data from rfl,
      ShiftRegister.run_append]

theorem crca_append (data trailer : List UInt8) :
    (crca (data ++ trailer)).toBitVec =
      ShiftRegister.run crcaPoly (crca data).toBitVec (transmitted trailer) := by
  unfold crca
  rw [List.foldl_append, crca_run]

/-! ## 3. The trailer -/

theorem load_bitsOf_pair (lo hi : UInt8) :
    ShiftRegister.load 16 (transmitted [lo, hi]) = hi.toBitVec ++ lo.toBitVec := by
  apply BitVec.eq_of_getLsbD_eq
  intro i hi'
  rw [ShiftRegister.getLsbD_load, decide_eq_true hi', Bool.true_and, BitVec.getLsbD_append]
  show (bitsOf lo ++ (bitsOf hi ++ [])).getD i false = _
  rw [List.append_nil]
  by_cases hlow : i < 8
  · rw [List.getD_append _ _ _ _ hlow, bitsOf_getD, if_pos hlow]
  · rw [List.getD_append_right _ _ _ _ (show (bitsOf lo).length ≤ i by rw [bitsOf_length]; omega),
      bitsOf_length, bitsOf_getD, if_neg hlow]

theorem crcaBytes_eq_iff (data : List UInt8) (lo hi : UInt8) :
    crcaBytes data = [lo, hi] ↔ hi.toBitVec ++ lo.toBitVec = (crca data).toBitVec := by
  have hpair : (hi.toBitVec ++ lo.toBitVec).toNat = lo.toNat + hi.toNat <<< 8 := by
    rw [BitVec.toNat_append, UInt8.toNat_toBitVec, UInt8.toNat_toBitVec,
      ← Nat.shiftLeft_add_eq_or_of_lt lo.toNat_lt, Nat.add_comm]
  rw [← BitVec.toNat_inj, hpair, eq_comm (a := lo.toNat + _), UInt16.toNat_toBitVec, bytes_eq_iff]
  simp [crcaBytes, eq_comm]

-- The register is zero behind its own contents, and behind no other two bytes.
theorem crca_trailer (data : List UInt8) (lo hi : UInt8) :
    crca (data ++ [lo, hi]) = 0 ↔ crcaBytes data = [lo, hi] := by
  rw [crcaBytes_eq_iff, ← load_bitsOf_pair, ← UInt16.toBitVec_inj, crca_append]
  exact ShiftRegister.run_eq_zero_iff crcaPoly (by decide) _ _ (Nat.le_refl 16)

theorem intact_iff (frame : List UInt8) : intact frame ↔ 2 ≤ frame.length ∧ crca frame = 0 := by
  apply and_congr_right
  intro hlen
  have htrailer : (frame.drop (frame.length - 2)).length = 2 := by
    rw [List.length_drop]
    omega
  obtain ⟨lo, hi, hpair⟩ := List.length_eq_two.mp htrailer
  have hframe : frame = frame.take (frame.length - 2) ++ [lo, hi] := by
    rw [← hpair, List.take_append_drop]
  rw [hpair, eq_comm, ← crca_trailer, ← hframe]

/-! ## 4. The code against the register -/

-- The bytes of the second iovec of a frame.
def DevRequest.trailer (q : DevRequest) : Option (List UInt8) :=
  q.tx[1]?.map fun v => v.base.read 0 ((v.bits + 7) / 8)

theorem trailer_transceive (q : Request) :
    (nfcIso14443aTransceive q).trailer = some (crcaBytes q.frame) := by
  have hread : (Mem.ofList 0 (crcaBytes q.frame)).read 0 ((bytesField 2 + 7) / 8) = _ :=
    Mem.ofList_read 0 (crcaBytes q.frame)
  exact congrArg some hread

-- The SAK check, on a frame of three bytes.
theorem resume_sak (k : OpenStack) (s : OpenLocals) (a b c : UInt8) :
    let t := { s with site := .select, sak := s.sak.write 0 [a, b, c] }
    OpenLocals.resume k { s with site := .select } (.frame [a, b, c]) =
      if a &&& 0x04 != 0 then OpenLocals.cascade k (OpenLocals.takeUid 3 3 t)
      else if crca [a, b, c] = 0 then OpenLocals.cascade k
        (OpenLocals.takeUid 2 4 { t with driver := { t.driver with sak := a } })
      else t.fail (-eio) := by
  intro t
  have hcrc : intact [a, b, c] ↔ crca [a, b, c] = 0 :=
    (intact_iff [a, b, c]).trans (and_iff_right (show 2 ≤ 3 by decide))
  have hselect : OpenLocals.resume k { s with site := .select } (.frame [a, b, c]) =
      t.afterSelect k := rfl
  rw [hselect, afterSelect_eq]
  show (if cascades a then _ else if intact [a, b, c] then _ else _) = _
  rw [if_congr hcrc rfl rfl]
  rfl

/-- `crca` is the register of the standard, the trailer of a frame the only two bytes that bring it
back to zero, and the SAK check the same as asking for zero behind the three bytes. -/
theorem crca_correct :
    (∀ data, (crca data).toBitVec = crcaRegister data) ∧
    (∀ q : Request, ∃ lo hi, (nfcIso14443aTransceive q).trailer = some [lo, hi] ∧
      lo = (crca q.frame &&& 0xff).toUInt8 ∧ hi = (crca q.frame >>> 8).toUInt8 ∧
      ∀ x y, crca (q.frame ++ [x, y]) = 0 ↔ x = lo ∧ y = hi) ∧
    ∀ (k : OpenStack) (s : OpenLocals) (a b c : UInt8),
      let t := { s with site := .select, sak := s.sak.write 0 [a, b, c] }
      OpenLocals.resume k { s with site := .select } (.frame [a, b, c]) =
        if a &&& 0x04 != 0 then OpenLocals.cascade k (OpenLocals.takeUid 3 3 t)
        else if crca [a, b, c] = 0 then OpenLocals.cascade k
          (OpenLocals.takeUid 2 4 { t with driver := { t.driver with sak := a } })
        else t.fail (-eio) := by
  refine ⟨fun data => ?_, fun q => ⟨_, _, trailer_transceive q, rfl, rfl, fun x y => ?_⟩,
    resume_sak⟩
  · exact crca_run 0x6363 data
  · rw [crca_trailer, eq_comm]
    unfold crcaBytes
    rw [List.cons.injEq, List.cons.injEq, and_iff_left rfl]

/-! ## 5. Bursts -/

theorem transmitted_injective {as bs : List UInt8} (hlen : as.length = bs.length)
    (h : transmitted as = transmitted bs) : as = bs := by
  induction as generalizing bs with
  | nil =>
    rw [List.length_nil] at hlen
    exact (List.length_eq_zero_iff.mp hlen.symm).symm
  | cons a as ih =>
    match bs with
    | b :: bs =>
      obtain ⟨hhead, htail⟩ := List.append_inj (show bitsOf a ++ transmitted as =
        bitsOf b ++ transmitted bs from h) rfl
      have hbyte : a = b := by
        apply UInt8.toBitVec_inj.mp
        apply BitVec.eq_of_getLsbD_eq
        intro i _
        rw [← bitsOf_getD, ← bitsOf_getD, hhead]
      rw [hbyte, ih (Nat.succ.inj hlen) htail]

/-- A burst of at most 16 bits in a frame shows: what is received in the place of the trailer is not
the CRC_A of what is received before it. -/
theorem burst_shows (m g : List UInt8) (hlen : g.length = (m ++ crcaBytes m).length)
    (hne : g ≠ m ++ crcaBytes m) (p : Nat)
    (hburst : ∀ i, (transmitted g)[i]? ≠ (transmitted (m ++ crcaBytes m))[i]? →
      p ≤ i ∧ i < p + 16) :
    g.drop (g.length - 2) ≠ crcaBytes (g.take (g.length - 2)) := by
  intro hcheck
  have hreceived : crca g = 0 := by
    rw [List.length_append, crcaBytes_length] at hlen
    exact ((intact_iff g).mp ⟨by omega, hcheck⟩).2
  have hsent : crca (m ++ crcaBytes m) = 0 := (crca_trailer m _ _).mpr rfl
  have hregister : ShiftRegister.run crcaPoly 0x6363 (transmitted g) =
      ShiftRegister.run crcaPoly 0x6363 (transmitted (m ++ crcaBytes m)) := by
    have hg := crca_run 0x6363 g
    have hf := crca_run 0x6363 (m ++ crcaBytes m)
    rw [show g.foldl crcaByte 0x6363 = 0 from hreceived] at hg
    rw [show (m ++ crcaBytes m).foldl crcaByte 0x6363 = 0 from hsent] at hf
    exact hg.symm.trans hf
  have hbits : transmitted g = transmitted (m ++ crcaBytes m) := by
    apply ShiftRegister.burst_detected crcaPoly (by decide) 0x6363 _ p hburst hregister
    rw [transmitted_length, transmitted_length, hlen]
  exact hne (transmitted_injective hlen hbits)

-- The burst is 16 bits long and reaches from the message into the trailer.
theorem burst_shows_boundary :
    [0x12, 0x35, 0xA6, 0xCF].drop 2 ≠ crcaBytes ([0x12, 0x35, 0xA6, 0xCF].take 2) := by
  have hwindow : ∀ i < 32, (transmitted [0x12, 0x35, 0xA6, 0xCF])[i]? ≠
      (transmitted ([0x12, 0x34] ++ crcaBytes [0x12, 0x34]))[i]? → 8 ≤ i ∧ i < 8 + 16 := by
    decide
  apply burst_shows [0x12, 0x34] [0x12, 0x35, 0xA6, 0xCF] rfl (by decide) 8
  intro i hi
  by_cases hend : i < 32
  · exact hwindow i hend hi
  · have hge : 32 ≤ i := Nat.not_lt.mp hend
    exact absurd ((List.getElem?_eq_none hge).trans (List.getElem?_eq_none hge).symm) hi

end NfceeFw.Nfc
