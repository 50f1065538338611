import Mathlib.Algebra.Order.BigOperators.Group.List
import Mathlib.Algebra.Order.Group.Nat
import NfceeFw.Trf797x.OneLoad

/-!
# FirstLoad — what `trf797x_transmit` loads, announces and hands on

The header counts bits over the whole array, the load loop counts bytes element by element, and the
caller goes on from the position that the loop leaves.  The three accounts are compared here for any
way of cutting a message into elements.
-/

namespace NfceeFw.Trf797x

open NfceeFw.Reasoning NfceeFw.Nfc

/-! ## 1. Messages -/

/-- The bytes of an array of iovecs, end to end. -/
def message (tx : List Iovec) : List UInt8 := tx.flatMap fun v => v.base.read 0 (iovecBytes v)

def bitSum (tx : List Iovec) : Nat := (tx.map Iovec.bits).sum

-- Only the last element with any bits may end within a byte.
def WholeButLast : List Iovec → Prop
  | [] => True
  | v :: vs => (v.bits % 8 = 0 ∨ bitSum vs = 0) ∧ WholeButLast vs

theorem message_cons (v : Iovec) (vs : List Iovec) :
    message (v :: vs) = v.base.read 0 (iovecBytes v) ++ message vs := List.flatMap_cons

theorem message_append (us vs : List Iovec) : message (us ++ vs) = message us ++ message vs :=
  List.flatMap_append

theorem message_cons_length (v : Iovec) (vs : List Iovec) :
    (message (v :: vs)).length = iovecBytes v + (message vs).length := by
  rw [message_cons, List.length_append, Mem.read_length]

theorem bitSum_cons (v : Iovec) (vs : List Iovec) : bitSum (v :: vs) = v.bits + bitSum vs :=
  List.sum_cons

theorem iovecBytes_eq {v : Iovec} (h : v.bits < 2 ^ 31) : iovecBytes v = (v.bits + 7) / 8 := by
  unfold iovecBytes
  omega

theorem totalBits_eq {tx : List Iovec} (h : bitSum tx < 2 ^ 31) : totalBits tx = bitSum tx :=
  bmod_of_small (Int.natCast_nonneg _) (Int.ofNat_lt.mpr h)

-- Without a bit there is no byte.
theorem message_eq_nil {tx : List Iovec} (h : bitSum tx = 0) : message tx = [] := by
  induction tx with
  | nil => rfl
  | cons v vs ih =>
    rw [bitSum_cons] at h
    have hv : iovecBytes v = 0 := by
      rw [iovecBytes_eq (by omega)]
      omega
    rw [message_cons, hv, Mem.read_zero, List.nil_append]
    exact ih (by omega)

-- The bytes of the elements add up to those of the bits.
theorem message_length {tx : List Iovec} (hwhole : WholeButLast tx) (h : bitSum tx < 2 ^ 31) :
    (message tx).length = (bitSum tx + 7) / 8 := by
  induction tx with
  | nil => rfl
  | cons v vs ih =>
    obtain ⟨hv, hvs⟩ := hwhole
    rw [bitSum_cons] at h
    rw [message_cons_length, bitSum_cons, iovecBytes_eq (by omega)]
    rcases hv with hbits | hempty
    · rw [ih hvs (by omega)]
      omega
    · rw [message_eq_nil hempty, hempty]
      rfl

/-! ## 2. The load loop -/

theorem run_full {s : Load} (fuel : Nat) (hfifo : trf797xFifoSize ≤ s.fifo) :
    Load.run fuel s = some s := by
  cases fuel <;> rw [Load.run, if_neg (by omega)]

-- A pass that fills the FIFO within an element, the last one.
theorem run_part {v : Iovec} {vs : List Iovec} {len fifo sent : Nat} {bits : Int}
    {chunks : List (List UInt8)} (fuel : Nat) (hbits : 0 < bits) (hfifo : fifo < trf797xFifoSize)
    (hmore : trf797xFifoSize < fifo + iovecBytes v) :
    Load.run (fuel + 1) ⟨v :: vs, len, bits, fifo, sent, chunks⟩ =
      some ⟨v :: vs, len, Int.bmod (bits - v.bits) (2 ^ 32), trf797xFifoSize,
        trf797xFifoSize - fifo, chunks ++ [v.base.read 0 (trf797xFifoSize - fifo)]⟩ := by
  have hsent : min (iovecBytes v) (trf797xFifoSize - fifo) = trf797xFifoSize - fifo := by omega
  rw [← run_full fuel (Nat.le_refl _)]
  apply run_pass fuel hbits hfifo
  unfold Load.pass
  dsimp only
  rw [hsent, if_neg (by omega), if_neg (by omega), show fifo + (trf797xFifoSize - fifo) =
    trf797xFifoSize by omega]

-- What fits of a message, with its first element whole and without.
theorem message_take_cons {v : Iovec} {n : Nat} (vs : List Iovec) (h : iovecBytes v ≤ n) :
    (message (v :: vs)).take n =
      v.base.read 0 (iovecBytes v) ++ (message vs).take (n - iovecBytes v) := by
  have hread := Mem.read_length v.base 0 (iovecBytes v)
  rw [message_cons, List.take_append, hread, List.take_of_length_le (by omega)]

theorem message_take_part {v : Iovec} {n : Nat} (vs : List Iovec) (h : n ≤ iovecBytes v) :
    (message (v :: vs)).take n = v.base.read 0 n := by
  have hread := Mem.read_length v.base 0 (iovecBytes v)
  rw [message_cons, List.take_append_of_le_length (by omega), Mem.read_take, Nat.min_eq_left h]

/-- Where the load loop stops, for elements `vs` and a FIFO that holds `fifo` bytes before them: all
is loaded, the FIFO is full within an element, or it is full at the end of one with others to
come. -/
inductive LoadEnd (vs : List Iovec) (fifo : Nat) (s : Load) : Prop where
  | all (pre : List Iovec) (v : Iovec) (hvs : vs = pre ++ [v])
      (hfits : fifo + (message vs).length ≤ trf797xFifoSize) (htx : s.tx = [v]) (hlen : s.len = 0)
      (hsent : s.sent = iovecBytes v)
  | inside (pre : List Iovec) (v : Iovec) (post : List Iovec) (hvs : vs = pre ++ v :: post)
      (hlo : fifo + (message pre).length < trf797xFifoSize)
      (hhi : trf797xFifoSize < fifo + (message pre).length + iovecBytes v)
      (htx : s.tx = v :: post) (hlen : s.len = post.length + 1)
      (hsent : s.sent = trf797xFifoSize - (fifo + (message pre).length))
  | atEnd (pre : List Iovec) (v : Iovec) (post : List Iovec) (hvs : vs = pre ++ v :: post)
      (hmore : post ≠ []) (hfull : fifo + (message pre).length + iovecBytes v = trf797xFifoSize)
      (htx : s.tx = post) (hlen : s.len = post.length) (hsent : s.sent = iovecBytes v)

-- The same stop, seen from an element earlier.
theorem LoadEnd.cons {v : Iovec} {vs : List Iovec} {fifo : Nat} {s : Load}
    (h : LoadEnd vs (fifo + iovecBytes v) s) : LoadEnd (v :: vs) fifo s := by
  cases h with
  | all pre w hvs hfits htx hlen hsent =>
    refine .all (v :: pre) w (by rw [hvs]; rfl) ?_ htx hlen hsent
    rw [message_cons_length]
    omega
  | inside pre w post hvs hlo hhi htx hlen hsent =>
    have hpre := message_cons_length v pre
    exact .inside (v :: pre) w post (by rw [hvs]; rfl) (by omega) (by omega) htx hlen (by omega)
  | atEnd pre w post hvs hmore hfull htx hlen hsent =>
    have hpre := message_cons_length v pre
    exact .atEnd (v :: pre) w post (by rw [hvs]; rfl) hmore (by omega) htx hlen hsent

/-- What has been done when the loop, with elements `vs` to come, has stopped at `s`: it has loaded
what fits of their bytes, and without empty elements has stopped as `LoadEnd` says. -/
structure Loads (vs : List Iovec) (fifo : Nat) (chunks : List (List UInt8)) (s : Load) : Prop where
  loaded : s.chunks.flatten = chunks.flatten ++ (message vs).take (trf797xFifoSize - fifo)
  stop : (∀ v ∈ vs, 0 < v.bits) → vs ≠ [] → fifo < trf797xFifoSize → LoadEnd vs fifo s

section

variable {v : Iovec} {vs : List Iovec} {fifo : Nat} {chunks : List (List UInt8)} {s : Load}

-- Only empty elements are left.
theorem Loads.empty (hzero : bitSum vs = 0) (hs : s.chunks = chunks) : Loads vs fifo chunks s where
  loaded := by rw [message_eq_nil hzero, List.take_nil, List.append_nil, hs]
  stop hpos hne := by
    obtain ⟨v, vs, rfl⟩ := List.exists_cons_of_ne_nil hne
    have hv := hpos v (List.mem_cons_self ..)
    rw [bitSum_cons] at hzero
    omega

theorem Loads.full (hfull : fifo = trf797xFifoSize) (hs : s.chunks = chunks) :
    Loads vs fifo chunks s where
  loaded := by rw [hfull, Nat.sub_self, List.take_zero, List.append_nil, hs]
  stop _ _ hlt := absurd hfull (Nat.ne_of_lt hlt)

-- The last element fits.
theorem Loads.last (hfits : fifo + iovecBytes v ≤ trf797xFifoSize) (htx : s.tx = [v])
    (hlen : s.len = 0) (hsent : s.sent = iovecBytes v)
    (hs : s.chunks = chunks ++ [v.base.read 0 (iovecBytes v)]) : Loads [v] fifo chunks s where
  loaded := by
    rw [hs, List.flatten_append, List.flatten_singleton, message_take_cons [] (by omega),
      show message [] = [] from rfl, List.take_nil, List.append_nil]
  stop _ _ _ := by
    refine .all [] v rfl ?_ htx hlen hsent
    rw [message_cons_length]
    exact hfits

-- An element fits, and with it the FIFO is full.
theorem Loads.atEnd (hne : vs ≠ []) (hnow : fifo + iovecBytes v = trf797xFifoSize)
    (htx : s.tx = vs) (hlen : s.len = vs.length) (hsent : s.sent = iovecBytes v)
    (hs : s.chunks = chunks ++ [v.base.read 0 (iovecBytes v)]) :
    Loads (v :: vs) fifo chunks s where
  loaded := by
    rw [hs, List.flatten_append, List.flatten_singleton, message_take_cons vs (by omega),
      show trf797xFifoSize - fifo - iovecBytes v = 0 by omega, List.take_zero, List.append_nil]
  stop _ _ _ := by
    refine .atEnd [] v vs rfl hne ?_ htx hlen hsent
    rw [show message [] = [] from rfl, List.length_nil]
    exact hnow

-- An element fits, and the loop goes on with the next.
theorem Loads.cons (hne : vs ≠ []) (hfits : fifo + iovecBytes v < trf797xFifoSize)
    (h : Loads vs (fifo + iovecBytes v) (chunks ++ [v.base.read 0 (iovecBytes v)]) s) :
    Loads (v :: vs) fifo chunks s where
  loaded := by
    rw [h.loaded, List.flatten_append, List.flatten_singleton, message_take_cons vs (by omega),
      List.append_assoc, Nat.sub_sub]
  stop hpos _ _ := (h.stop (fun u hu => hpos u (List.mem_cons_of_mem _ hu)) hne hfits).cons

-- The FIFO is full within an element.
theorem Loads.inside (hlo : fifo < trf797xFifoSize)
    (hhi : trf797xFifoSize < fifo + iovecBytes v) (htx : s.tx = v :: vs)
    (hlen : s.len = vs.length + 1) (hsent : s.sent = trf797xFifoSize - fifo)
    (hs : s.chunks = chunks ++ [v.base.read 0 (trf797xFifoSize - fifo)]) :
    Loads (v :: vs) fifo chunks s where
  loaded := by
    rw [hs, List.flatten_append, List.flatten_singleton, message_take_part vs (by omega)]
  stop _ _ _ := .inside [] v vs rfl hlo hhi htx hlen hsent

end

/-- The loop ends within the array. -/
theorem run_loads (vs : List Iovec) (fuel fifo sent : Nat) (chunks : List (List UInt8))
    (hfuel : vs.length ≤ fuel) (hlen : vs.length < 2 ^ 32) (hbits : bitSum vs < 2 ^ 31)
    (hfifo : fifo ≤ trf797xFifoSize) :
    ∃ s, Load.run fuel ⟨vs, vs.length, bitSum vs, fifo, sent, chunks⟩ = some s ∧
      Loads vs fifo chunks s := by
  induction vs generalizing fuel fifo sent chunks with
  | nil => exact ⟨_, run_end fuel (Int.le_refl 0), .empty rfl rfl⟩
  | cons v vs ih =>
    obtain ⟨fuel, rfl⟩ := Nat.exists_eq_add_of_le' (show 1 ≤ fuel by
      rw [List.length_cons] at hfuel; omega)
    rw [List.length_cons] at hfuel hlen
    have hsum := bitSum_cons v vs
    have hbytes := iovecBytes_eq (v := v) (by omega)
    by_cases hzero : bitSum (v :: vs) = 0
    · exact ⟨_, run_end _ (by dsimp only; omega), .empty hzero rfl⟩
    by_cases hfull : fifo = trf797xFifoSize
    · exact ⟨_, run_full _ (by dsimp only; omega), .full hfull rfl⟩
    have hrest : Int.bmod (((bitSum (v :: vs) : Nat) : Int) - v.bits) (2 ^ 32) = bitSum vs := by
      rw [bmod_of_small (by omega) (by omega)]
      omega
    have hgo : (0 : Int) < (bitSum (v :: vs) : Nat) := by omega
    have hroom : fifo < trf797xFifoSize := by omega
    by_cases hfits : fifo + iovecBytes v ≤ trf797xFifoSize
    · cases vs with
      | nil =>
        have hrun : Load.run (fuel + 1) ⟨[v], 1, bitSum [v], fifo, sent, chunks⟩ = _ :=
          run_last fuel hgo hroom hfits
        rw [hrest] at hrun
        exact ⟨_, hrun.trans (run_end fuel (Int.le_refl 0)), .last hfits rfl rfl rfl rfl⟩
      | cons w ws =>
        have hne : w :: ws ≠ [] := List.cons_ne_nil w ws
        have hrun : Load.run (fuel + 1) ⟨v :: w :: ws, (w :: ws).length + 1, bitSum (v :: w :: ws),
            fifo, sent, chunks⟩ = _ :=
          run_next fuel hgo hroom hfits (by rw [List.length_cons]; omega) hlen
        rw [hrest, Nat.add_sub_cancel] at hrun
        by_cases hnow : fifo + iovecBytes v = trf797xFifoSize
        · exact ⟨_, hrun.trans (run_full fuel (Nat.le_of_eq hnow.symm)),
            .atEnd hne hnow rfl rfl rfl rfl⟩
        · obtain ⟨s, hs, hloads⟩ := ih fuel (fifo + iovecBytes v) (iovecBytes v)
            (chunks ++ [v.base.read 0 (iovecBytes v)]) (by omega) (by omega) (by omega) hfits
          exact ⟨s, hrun.trans hs, hloads.cons hne (by omega)⟩
    · have hmore := Nat.not_le.mp hfits
      exact ⟨_, run_part fuel hgo hroom hmore, .inside hroom hmore rfl rfl rfl rfl⟩

/-! ## 3. The TX length registers -/

/-- The two TX length registers as the chip reads them: whole bytes in 12 bits, then the bits of a
broken byte and the flag that there is one. -/
structure TxLength where
  bytes : Nat
  residual : Nat
  broken : Bool
  deriving DecidableEq, Repr

def txLength (length1 length2 : UInt8) : TxLength where
  bytes := 16 * length1.toNat + length2.toNat / 16
  residual := length2.toNat / 2 % 8
  broken := length2.toNat % 2 == 1

-- The bit that `bits << 1` shifts out of the second register is the low one of the first.
theorem transmitHeader_length {n : Nat} (h : n ≤ 32767) (crc : Bool) :
    ∃ length1 length2, transmitHeader n crc =
        [command cmdResetFifo, command (if crc then cmdTx else cmdTxNoCrc),
          registerWriteByte regTxLength1 (2 + min (trf797xFifoSize : Int) ((n + 7 : Nat) / 8)),
          length1, length2] ∧
      txLength length1 length2 = ⟨n / 8, n % 8, decide (n % 8 ≠ 0)⟩ := by
  refine ⟨UInt8.ofNat (n / 128), UInt8.ofNat (n % 128 * 2 + if n % 8 = 0 then 0 else 1), ?_, ?_⟩
  · have hcount : ((n : Int) + 7).tdiv 8 = ((n + 7 : Nat) : Int) / 8 := by
      rw [Int.tdiv_eq_ediv_of_nonneg (by omega)]
      rfl
    have hhigh : (((n : Int) / 2 ^ 7) % 256).toNat = n / 128 := by omega
    have hlow : ((2 * ((n : Int) % 256) + if (n : Int) % 8 = 0 then 0 else 1) % 256).toNat =
        n % 128 * 2 + if n % 8 = 0 then 0 else 1 := by
      by_cases hwhole : n % 8 = 0
      · rw [if_pos (by omega), if_pos hwhole]
        omega
      · rw [if_neg (by omega), if_neg hwhole]
        omega
    unfold transmitHeader
    rw [hcount, hhigh, hlow]
  · have hsecond : (UInt8.ofNat (n % 128 * 2 + if n % 8 = 0 then 0 else 1)).toNat =
        n % 128 * 2 + if n % 8 = 0 then 0 else 1 := by
      rw [UInt8.toNat_ofNat']
      split
      · omega
      · omega
    have hfirst : (UInt8.ofNat (n / 128)).toNat = n / 128 := by
      rw [UInt8.toNat_ofNat']
      omega
    unfold txLength
    rw [hfirst, hsecond]
    by_cases hwhole : n % 8 = 0
    · rw [if_pos hwhole, TxLength.mk.injEq]
      refine ⟨by omega, by omega, ?_⟩
      rw [show (n % 128 * 2 + 0) % 2 = 0 by omega]
      simp [hwhole]
    · rw [if_neg hwhole, TxLength.mk.injEq]
      refine ⟨by omega, by omega, ?_⟩
      rw [show (n % 128 * 2 + 1) % 2 = 1 by omega]
      simp [hwhole]

/-! ## 4. The first load -/

theorem loaded_sends (tx : List Iovec) (len sent : Nat) (header : List UInt8)
    (chunks : List (List UInt8)) :
    (Transmitted.mk tx len sent (.send header :: chunks.map .send ++ [.toggle])).loaded =
      chunks.flatten := by
  induction chunks with
  | nil => rfl
  | cons c cs ih => exact congrArg (c ++ ·) ih

-- The load loop from the arguments of a transmission.
theorem transmit_load {tx : List Iovec} (crc : Bool) {fuel : Nat} (junk : Nat)
    (hfuel : tx.length ≤ fuel) (hlen : tx.length < 2 ^ 32) (hbits : bitSum tx < 2 ^ 31) :
    ∃ t, trf797xTransmit fuel tx crc junk = some t ∧
      t.spi.head? = some (.send (transmitHeader (bitSum tx) crc)) ∧
      t.loaded = (message tx).take trf797xFifoSize ∧
      ((∀ v ∈ tx, 0 < v.bits) → tx ≠ [] →
        ∃ s, LoadEnd tx 0 s ∧ t.tx = s.tx ∧ t.len = s.len ∧ t.sent = s.sent) := by
  obtain ⟨s, hs, ⟨hchunks, hend⟩⟩ := run_loads tx fuel 0 junk [] hfuel hlen hbits (Nat.zero_le _)
  unfold trf797xTransmit
  rw [totalBits_eq hbits, hs, Option.map_some]
  refine ⟨_, rfl, rfl, ?_, fun hpos hne => ⟨s, hend hpos hne (by decide), rfl, rfl, rfl⟩⟩
  rw [loaded_sends, hchunks, List.flatten_nil, List.nil_append, Nat.sub_zero]

/-- The load loop reads no element past the array; the header announces the bits of the message, and
the FIFO gets the first bytes of it, as many as it holds. -/
theorem transmit_announces (tx : List Iovec) (crc : Bool) (fuel junk : Nat)
    (hfuel : tx.length ≤ fuel) (hlen : tx.length < 2 ^ 32) (hwhole : WholeButLast tx)
    (hlo : 1 ≤ bitSum tx) (hhi : bitSum tx ≤ 32767) :
    ∃ t length1 length2, trf797xTransmit fuel tx crc junk = some t ∧
      t.spi.head? = some (.send [command cmdResetFifo,
        command (if crc then cmdTx else cmdTxNoCrc),
        registerWriteByte regTxLength1
          (2 + min (trf797xFifoSize : Int) ((bitSum tx + 7 : Nat) / 8)), length1, length2]) ∧
      txLength length1 length2 =
        ⟨bitSum tx / 8, bitSum tx % 8, decide (bitSum tx % 8 ≠ 0)⟩ ∧
      t.loaded = (message tx).take (min trf797xFifoSize ((bitSum tx + 7) / 8)) ∧
      (message tx).length = (bitSum tx + 7) / 8 := by
  have hbits : bitSum tx < 2 ^ 31 := by omega
  obtain ⟨t, ht, hheader, hloaded, -⟩ := transmit_load crc junk hfuel hlen hbits
  obtain ⟨length1, length2, hbytes, hlength⟩ := transmitHeader_length hhi crc
  have hmessage := message_length hwhole hbits
  refine ⟨t, length1, length2, ht, ?_, hlength, ?_, hmessage⟩
  · rw [hheader, hbytes]
  · rw [hloaded, ← hmessage, ← List.take_take, List.take_length]

-- Three bytes, an empty element, and a short frame of seven bits.
theorem transmit_announces_short :
    let tx := [Iovec.ofBytes (Mem.ofList 0 [0x93, 0x70, 0x88]) 3, ⟨Mem.ofList 0 [], 0⟩,
      ⟨Mem.ofList 0 [0x26], 7⟩]
    ∃ t length1 length2, trf797xTransmit 3 tx false 0 = some t ∧
      t.spi.head? = some (.send [command cmdResetFifo, command cmdTxNoCrc,
        registerWriteByte regTxLength1 (2 + min (trf797xFifoSize : Int) ((31 + 7 : Nat) / 8)),
        length1, length2]) ∧
      txLength length1 length2 = ⟨3, 7, true⟩ ∧
      t.loaded = (message tx).take (min trf797xFifoSize 4) ∧ (message tx).length = 4 :=
  transmit_announces _ false 3 0 (Nat.le_refl 3) (by decide)
    ⟨.inl (by decide), .inl (by decide), .inr rfl, trivial⟩ (by decide) (by decide)

/-! ## 5. The hand-off to the refill loop -/

/-- `*tx` from offset `sent` and the elements after it, `*len` of them in all, are what has not been
loaded. -/
def HandsOff (tx : List Iovec) (t : Transmitted) : Prop :=
  ∃ v rest, t.tx = v :: rest ∧ t.sent ≤ iovecBytes v ∧
    v.base.read t.sent (iovecBytes v - t.sent) ++ message (rest.take (t.len - 1)) =
      (message tx).drop t.loaded.length

/-- An element other than the last ends with the last byte that the FIFO holds. -/
def EndsAtLimit (tx : List Iovec) : Prop :=
  ∃ n, n < tx.length ∧ (message (tx.take n)).length = trf797xFifoSize

instance (tx : List Iovec) : Decidable (EndsAtLimit tx) :=
  inferInstanceAs (Decidable (∃ n, n < tx.length ∧ _))

section

variable {tx : List Iovec} (hpos : ∀ v ∈ tx, 0 < v.bits)

include hpos

theorem length_le_bitSum : tx.length ≤ bitSum tx := by
  have hle := List.length_le_sum_of_one_le (tx.map Iovec.bits) (by
    intro n hn
    obtain ⟨v, hv, rfl⟩ := List.mem_map.mp hn
    exact hpos v hv)
  rwa [List.length_map] at hle

theorem iovecBytes_pos (hbits : bitSum tx < 2 ^ 31) (v : Iovec) (hv : v ∈ tx) :
    0 < iovecBytes v := by
  have hle : v.bits ≤ bitSum tx := List.le_sum_of_mem (List.mem_map_of_mem hv)
  have hnonempty := hpos v hv
  rw [iovecBytes_eq (by omega)]
  omega

-- Each element adds to what comes before the next.
theorem message_take_lt (hbits : bitSum tx < 2 ^ 31) {n m : Nat} (h : n < m)
    (hm : m ≤ tx.length) : (message (tx.take n)).length < (message (tx.take m)).length := by
  obtain ⟨k, rfl⟩ := Nat.exists_eq_add_of_lt h
  have hn : n < tx.length := by omega
  have hv := iovecBytes_pos hpos hbits tx[n] (List.getElem_mem hn)
  rw [Nat.add_assoc, List.take_add, message_append, List.length_append,
    List.drop_eq_getElem_cons hn, List.take_succ_cons, message_cons_length]
  omega

theorem endsAtLimit_all (hbits : bitSum tx < 2 ^ 31)
    (hfits : (message tx).length ≤ trf797xFifoSize) : ¬ EndsAtLimit tx := by
  rintro ⟨n, hn, hfull⟩
  have hlt := message_take_lt hpos hbits hn (Nat.le_refl _)
  rw [List.take_length] at hlt
  omega

theorem endsAtLimit_inside (hbits : bitSum tx < 2 ^ 31) {pre post : List Iovec} {v : Iovec}
    (htx : tx = pre ++ v :: post) (hlo : (message pre).length < trf797xFifoSize)
    (hhi : trf797xFifoSize < (message pre).length + iovecBytes v) : ¬ EndsAtLimit tx := by
  rintro ⟨n, hn, hfull⟩
  have hpre : tx.take pre.length = pre := by rw [htx, List.take_left]
  have hnext : tx.take (pre.length + 1) = pre ++ [v] := by
    rw [htx, List.take_add, List.take_left, List.drop_left]
    rfl
  have hlen : tx.length = pre.length + (post.length + 1) := by
    rw [htx, List.length_append, List.length_cons]
  rcases Nat.lt_trichotomy n pre.length with hlt | heq | hgt
  · have hmono := message_take_lt hpos hbits hlt (by omega)
    rw [hpre] at hmono
    omega
  · rw [heq, hpre] at hfull
    omega
  · have hstep : (message (tx.take (pre.length + 1))).length ≤ (message (tx.take n)).length := by
      rcases Nat.eq_or_lt_of_le hgt with hsame | hmore
      · rw [← hsame]
      · exact Nat.le_of_lt (message_take_lt hpos hbits hmore (by omega))
    rw [hnext, message_append, List.length_append, message_cons_length] at hstep
    omega

end

theorem endsAtLimit_atEnd {tx pre post : List Iovec} {v : Iovec} (htx : tx = pre ++ v :: post)
    (hmore : post ≠ []) (hfull : (message pre).length + iovecBytes v = trf797xFifoSize) :
    EndsAtLimit tx := by
  have hpost := List.length_pos_iff.mpr hmore
  refine ⟨pre.length + 1, ?_, ?_⟩
  · rw [htx, List.length_append, List.length_cons]
    omega
  · rw [htx, List.take_add, List.take_left, List.drop_left]
    show (message (pre ++ [v])).length = _
    rw [message_append, List.length_append, message_cons_length]
    exact hfull

-- A message that fits leaves the loop at the end of its last element.
theorem LoadEnd.whole {tx : List Iovec} {s : Load} (h : LoadEnd tx 0 s)
    (hpos : ∀ v ∈ tx, 0 < v.bits) (hbits : bitSum tx < 2 ^ 31)
    (hfits : (message tx).length ≤ trf797xFifoSize) :
    ∃ v, s.tx = [v] ∧ s.len = 0 ∧ s.sent = iovecBytes v := by
  cases h with
  | all pre v hvs hfits' htx hlen hsent => exact ⟨v, htx, hlen, hsent⟩
  | inside pre v post hvs hlo hhi htx hlen hsent =>
    rw [hvs, message_append, List.length_append, message_cons_length] at hfits
    omega
  | atEnd pre v post hvs hmore hfull htx hlen hsent =>
    rw [Nat.zero_add] at hfull
    exact absurd (endsAtLimit_atEnd hvs hmore hfull) (endsAtLimit_all hpos hbits hfits)

/-- The caller of `trf797x_transmit` goes on at the first byte that was not loaded exactly if no
element but the last ends where the FIFO is full. -/
theorem handsOff_iff (tx : List Iovec) (crc : Bool) (fuel junk : Nat) (hfuel : tx.length ≤ fuel)
    (hne : tx ≠ []) (hpos : ∀ v ∈ tx, 0 < v.bits) (hbits : bitSum tx < 2 ^ 31) :
    ∃ t, trf797xTransmit fuel tx crc junk = some t ∧ (HandsOff tx t ↔ ¬ EndsAtLimit tx) := by
  have hlen := length_le_bitSum hpos
  obtain ⟨t, ht, -, hloaded, hend⟩ := transmit_load crc junk hfuel (by omega) hbits
  obtain ⟨s, hs, htx, hcount, hsent⟩ := hend hpos hne
  refine ⟨t, ht, ?_⟩
  unfold HandsOff
  rw [htx, hcount, hsent, hloaded, List.length_take]
  cases hs with
  | all pre v hvs hfits htx' hlen' hsent' =>
    rw [Nat.zero_add] at hfits
    refine iff_of_true ⟨v, [], htx', Nat.le_of_eq hsent', ?_⟩ (endsAtLimit_all hpos hbits hfits)
    rw [hsent', Nat.sub_self, Mem.read_zero, List.take_nil, Nat.min_eq_right hfits,
      List.drop_length]
    rfl
  | inside pre v post hvs hlo hhi htx' hlen' hsent' =>
    rw [Nat.zero_add] at hlo hhi hsent'
    refine iff_of_true ⟨v, post, htx', by omega, ?_⟩ (endsAtLimit_inside hpos hbits hvs hlo hhi)
    have hmessage : message tx = message pre ++ (v.base.read 0 (iovecBytes v) ++ message post) := by
      rw [hvs, message_append, message_cons]
    have hread := Mem.read_length v.base 0 (iovecBytes v)
    rw [hlen', Nat.add_sub_cancel, List.take_length, hmessage, List.length_append,
      List.length_append, hread, Nat.min_eq_left (by omega), List.drop_append,
      List.drop_of_length_le (by omega), List.nil_append, List.drop_append_of_le_length (by omega),
      Mem.read_drop, Nat.zero_add, hsent']
  | atEnd pre v post hvs hmore hfull htx' hlen' hsent' =>
    rw [Nat.zero_add] at hfull
    refine iff_of_false ?_ (not_not.mpr (endsAtLimit_atEnd hvs hmore hfull))
    rintro ⟨w, rest, hrest, hle, hbytes⟩
    rw [hrest] at htx'
    have hlength := congrArg List.length hbytes
    have hmessage := congrArg (fun us => (message us).length) hvs
    have hv := iovecBytes_pos hpos hbits v (by rw [hvs]; simp)
    rw [message_append, List.length_append, message_cons_length, ← htx', message_cons_length]
      at hmessage
    rw [hlen', ← htx', List.length_cons, Nat.add_sub_cancel, List.take_length, List.length_append,
      Mem.read_length, List.length_drop] at hlength
    omega

-- A message of 50 and 100 bytes: the FIFO is full within the second element.
theorem handsOff_fifty_hundred :
    let tx := [Iovec.ofBytes (Mem.ofList 0 (List.replicate 50 0x11)) 50,
      Iovec.ofBytes (Mem.ofList 0 (List.replicate 100 0x22)) 100]
    ∃ t, trf797xTransmit 2 tx false 0 = some t ∧ HandsOff tx t := by
  intro tx
  obtain ⟨t, ht, hiff⟩ := handsOff_iff tx false 2 0 (Nat.le_refl 2) (List.cons_ne_nil _ _)
    (by decide) (by decide)
  exact ⟨t, ht, hiff.mpr (by decide +kernel)⟩

/-- A frame of 127 bytes and its CRC: the FIFO is full at the end of the first element, and the
position handed on is 127 bytes into the two of the CRC. -/
theorem handsOff_full_frame :
    let tx := [Iovec.ofBytes (Mem.ofList 0 (List.replicate 127 0x5A)) 127,
      Iovec.ofBytes (Mem.ofList 0 [0x12, 0x34]) 2]
    (∀ v ∈ tx, 0 < v.bits ∧ v.bits % 8 = 0) ∧ bitSum tx ≤ 8 * 4095 ∧
    ∃ t, trf797xTransmit 2 tx false 0 = some t ∧
      t.tx.map iovecBytes = [2] ∧ t.len = 1 ∧ t.sent = 127 ∧ ¬ HandsOff tx t := by
  intro tx
  have hload : (trf797xTransmit 2 tx false 0).any (fun t =>
      decide (t.tx.map iovecBytes = [2] ∧ t.len = 1 ∧ t.sent = 127)) = true := by decide +kernel
  obtain ⟨t, ht, hstop⟩ := (Option.any_eq_true _ _).mp hload
  obtain ⟨hmap, hlen, hsent⟩ := of_decide_eq_true hstop
  refine ⟨by decide, by decide, t, ht, hmap, hlen, hsent, ?_⟩
  rintro ⟨v, rest, htx, hle, -⟩
  rw [htx, List.map_cons, List.cons.injEq] at hmap
  omega

end NfceeFw.Trf797x
