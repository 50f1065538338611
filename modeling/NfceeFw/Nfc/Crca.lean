import NfceeFw.Nfc.Driver

/-! The frame check sequence CRC_A, as the reader computes and sends it. -/

namespace NfceeFw.Nfc

open NfceeFw.Reasoning

/-- One pass of the loop of `crca`: `ch` is truncated to 8 bits, the register to 16. -/
def crcaByte (crc : UInt16) (data : UInt8) : UInt16 :=
  let ch := data ^^^ crc.toUInt8
  let ch := ch ^^^ (ch <<< 4)
  (crc >>> 8) ^^^ (ch.toUInt16 <<< 8) ^^^ (ch.toUInt16 <<< 3) ^^^ (ch >>> 4).toUInt16

def crca (data : List UInt8) : UInt16 := data.foldl crcaByte 0x6363

/-- `uint8_t crc[]` of `nfc_iso14443a_transceive`: low byte first. -/
def crcaBytes (data : List UInt8) : List UInt8 :=
  [(crca data &&& 0xff).toUInt8, (crca data >>> 8).toUInt8]

@[simp] theorem crcaBytes_length (data : List UInt8) : (crcaBytes data).length = 2 := rfl

/-- `nfc_iso14443a_transceive`: the frame, then its CRC_A, handed to the device in one call whose
return value is passed on as it is. -/
def nfcIso14443aTransceive (q : Request) : DevRequest where
  tx := [Iovec.ofBytes q.tx q.txlen, Iovec.ofBytes (Mem.ofList 0 (crcaBytes q.frame)) 2]
  rxBits := bytesField q.rxlen
  timeout := q.timeout

-- The bytes that the transmit iovecs hold.
def DevRequest.bytes (q : DevRequest) : List UInt8 :=
  q.tx.flatMap fun v => v.base.read 0 ((v.bits + 7) / 8)

theorem nfcIso14443aTransceive_bytes (q : Request) (h : q.txlen < 2 ^ 29) :
    (nfcIso14443aTransceive q).bytes = q.frame ++ crcaBytes q.frame := by
  have hcrc : (bytesField 2 + 7) / 8 = (crcaBytes q.frame).length := by
    rw [crcaBytes_length]
    decide
  simp only [DevRequest.bytes, nfcIso14443aTransceive, Iovec.ofBytes, List.flatMap_cons,
    List.flatMap_nil, List.append_nil]
  rw [bytesField_bytes h, hcrc, Mem.ofList_read]
  rfl

-- Two bytes that give a checksum, low byte first.
theorem bytes_eq_iff (crc : UInt16) (lo hi : UInt8) :
    crc.toNat = lo.toNat + hi.toNat <<< 8 ↔
      lo = (crc &&& 0xff).toUInt8 ∧ hi = (crc >>> 8).toUInt8 := by
  have hc := crc.toNat_lt
  have hlo := lo.toNat_lt
  have hhi := hi.toNat_lt
  have h0 : (crc &&& 0xff).toUInt8.toNat = crc.toNat % 256 := by
    simp only [UInt16.toNat_toUInt8, UInt16.toNat_and]
    rw [show (0xff : UInt16).toNat = 2 ^ 8 - 1 from rfl, Nat.and_two_pow_sub_one_eq_mod]
    omega
  have h1 : (crc >>> 8).toUInt8.toNat = crc.toNat / 256 := by
    simp only [UInt16.toNat_toUInt8, UInt16.toNat_shiftRight]
    rw [show (8 : UInt16).toNat % 16 = 8 from rfl, Nat.shiftRight_eq_div_pow]
    omega
  rw [← UInt8.toNat_inj, ← UInt8.toNat_inj, h0, h1, Nat.shiftLeft_eq]
  omega

-- The last two bytes are the CRC_A of the bytes before them.
def intact (frame : List UInt8) : Prop :=
  2 ≤ frame.length ∧ frame.drop (frame.length - 2) = crcaBytes (frame.take (frame.length - 2))

instance (frame : List UInt8) : Decidable (intact frame) := inferInstanceAs (Decidable (_ ∧ _))

theorem take_trailer (frame : List UInt8) :
    (frame ++ crcaBytes frame).take ((frame ++ crcaBytes frame).length - 2) = frame := by
  rw [List.length_append, crcaBytes_length, Nat.add_sub_cancel, List.take_left']
  rfl

theorem intact_trailer (frame : List UInt8) : intact (frame ++ crcaBytes frame) := by
  refine ⟨?_, ?_⟩
  · rw [List.length_append, crcaBytes_length]
    omega
  · rw [take_trailer, List.length_append, crcaBytes_length, Nat.add_sub_cancel, List.drop_left']
    rfl

example : crcaBytes [0x00, 0x00] = [0xA0, 0x1E] ∧ crcaBytes [0x12, 0x34] = [0x26, 0xCF] := by
  decide

end NfceeFw.Nfc
