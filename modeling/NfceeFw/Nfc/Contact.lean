import NfceeFw.Nfc.Selection

/-!
# Contact — `nfc_iso14443_transceive` with a tag in the field

Down to the device a T=CL call is the call over the channel to the tag's application.  A call that
finds a tag without T=CL is one exchange, and one that finds no tag in its protocol fails.
-/

namespace NfceeFw.Nfc

open NfceeFw.Reasoning

/-- A call on the device. -/
def deviceTransceive (a : CallArgs) : Program Locals DevRequest Answer Returned :=
  (nfcIso14443Transceive a).via nfcIso14443aTransceive

-- A call that goes on after a failed exchange does not exist.
theorem transceive_error (a : CallArgs) (s : Locals) (code : Nat) :
    ∃ r : Returned, s.resume a (.error code) = .done r ∧ r.ret < 0 ∧ r.final.driver = s.driver := by
  have hneg : (Answer.error code).ret (s.site.rxlen a) < 0 := Int.negSucc_lt_zero code
  by_cases hd : s.site = .direct
  · unfold Locals.resume
    rw [hd] at hneg ⊢
    exact ⟨_, rfl, hneg, rfl⟩
  · rw [resume_short a s (.error code) hd (by omega)]
    exact ⟨_, rfl, show -eio < 0 by decide, rfl⟩

-- The bits of a request with a CRC_A are whole bytes.
theorem trailed_bits (q : Request) : (nfcIso14443aTransceive q).bits ≠ 7 := by
  show bytesField q.txlen + (bytesField 2 + 0) ≠ 7
  unfold bytesField
  omega

theorem start_wait (d : Driver) (a : CallArgs) : ∃ s, transceiveStart d a = .wait s ∧
    s.driver = d := by
  unfold transceiveStart
  split
  · exact ⟨_, rfl, rfl⟩
  · unfold Locals.sendBlock
    split
    · exact ⟨_, rfl, rfl⟩
    · exact ⟨_, rfl, rfl⟩

-- No answer comes back, and the tag has had the frame or has not; or the reply does.
theorem respond_cases (fate : Loss) {f : Field} {q : DevRequest} {reply : Option (List UInt8)}
    {state : TagState} (h : f.react q = (reply, state)) :
    ((f.respond fate q).1 = .error 0 ∧
      ((f.respond fate q).2.state = f.state ∨ (f.respond fate q).2.state = state)) ∨
    ∃ bytes, reply = some bytes ∧ (f.respond fate q).1 = .frame bytes ∧
      (f.respond fate q).2.state = state := by
  unfold Field.respond
  rw [h]
  cases fate with
  | readerFrame => exact .inl ⟨rfl, .inl rfl⟩
  | cardFrame => exact .inl ⟨rfl, .inr rfl⟩
  | nothing =>
    cases reply with
    | none => exact .inl ⟨rfl, .inr rfl⟩
    | some bytes => exact .inr ⟨bytes, rfl, rfl, rfl⟩

section

variable {t : Tag} {loss : Nat → Loss} {d : Driver} {a : CallArgs} {f f' : Field} {n : Nat}
  {r : Returned}

/-! ## 1. No tag in its protocol -/

theorem idle_react (hidle : f.state = .idle) (q : Request) :
    f.react (nfcIso14443aTransceive q) = (none, .idle) := by
  unfold Field.react
  cases f.tag with
  | none => rw [hidle]
  | some t =>
    have hbits := trailed_bits q
    rw [hidle]
    simp [Tag.receive, hbits]

theorem contact_idle (hidle : f.state = .idle)
    (hplay : (deviceTransceive a).play (field loss) n (transceiveStart d a) f = (.done r, f')) :
    r.ret < 0 ∧ r.final.driver = d ∧ f'.state = .idle := by
  obtain ⟨s, hstart, hdriver⟩ := start_wait d a
  have hreact := idle_react hidle (s.query a)
  have hanswer : ((field loss).respond f ((deviceTransceive a).query s)).1 = .error 0 ∧
      ((field loss).respond f ((deviceTransceive a).query s)).2.state = .idle := by
    rcases respond_cases (loss f.log.length) hreact with ⟨herror, hstate⟩ | ⟨bytes, hnone, -⟩
    · exact ⟨herror, hstate.elim (·.trans hidle) id⟩
    · cases hnone
  obtain ⟨r', hdone, hneg, hkept⟩ := transceive_error a s 0
  rw [hstart] at hplay
  match n with
  | 0 => cases hplay
  | n + 1 =>
    have hnext : (deviceTransceive a).resume s
        ((field loss).respond f ((deviceTransceive a).query s)).1 = .done r' := by
      rw [hanswer.1]
      exact hdone
    rw [Program.play, hnext, Program.play_done] at hplay
    cases hplay
    exact ⟨hneg, hkept.trans hdriver, hanswer.2⟩

/-! ## 2. A tag without T=CL -/

/-- The tag had the command, and the call returned the bytes of its reply that fit. -/
structure Replied (t : Tag) (commands : List (List UInt8)) (a : CallArgs) (r : Returned)
    (reply : List UInt8) : Prop where
  answered : t.plain commands a.command = some reply
  ret : r.ret = (min reply.length a.rxlen : Nat)
  rxdata : r.final.rxdata.read 0 r.ret.toNat = reply.take a.rxlen
  kept : ∀ i, r.ret.toNat ≤ i → r.final.rxdata i = a.rxdata i

-- The single exchange of such a call.
theorem direct_resume (hraw : isTcl d = false) : ∃ s, transceiveStart d a = .wait s ∧
    s.query a = ⟨a.txdata, a.txlen, a.rxlen, a.timeout⟩ ∧
    ∀ ans, ∃ r, s.resume a ans = .done r ∧ r.ret = ans.ret a.rxlen ∧ r.final.driver = d ∧
      r.final.rxdata = a.rxdata.write 0 (ans.received a.rxlen) := by
  refine ⟨Locals.entry d a, ?_, rfl, fun ans => ⟨_, rfl, rfl, rfl, rfl⟩⟩
  unfold transceiveStart
  rw [hraw]
  rfl

theorem plain_react {commands : List (List UInt8)} (htag : f.tag = some t)
    (hstate : f.state = .active commands) (hplain : tclSak t.id.sak = false) (q : Request)
    (hlen : q.txlen < 2 ^ 29) : f.react (nfcIso14443aTransceive q) =
      (t.plain commands q.frame, .active (commands ++ [q.frame])) := by
  have hbits := nfcIso14443aTransceive_bits q hlen
  unfold Field.react
  rw [htag, hstate]
  dsimp only [Tag.receive]
  rw [nfcIso14443aTransceive_bytes q hlen] at hbits ⊢
  rw [if_pos ⟨hbits, intact_trailer _⟩, stripped_trailer]
  unfold Tag.activeReceive
  rw [hplain]
  rfl

theorem contact_plain {commands : List (List UInt8)} (htag : f.tag = some t)
    (hstate : f.state = .active commands) (hplain : tclSak t.id.sak = false)
    (hraw : isTcl d = false) (hlen : a.txlen < 2 ^ 29)
    (hplay : (deviceTransceive a).play (field loss) n (transceiveStart d a) f = (.done r, f')) :
    r.final.driver = d ∧ f'.tag = some t ∧ (∃ commands', f'.state = .active commands') ∧
      (0 ≤ r.ret → f'.state = .active (commands ++ [a.command]) ∧
        ∃ reply, Replied t commands a r reply) := by
  obtain ⟨s, hstart, hquery, hresume⟩ := direct_resume (a := a) hraw
  have hreact := plain_react htag hstate hplain (s.query a) (by rw [hquery]; exact hlen)
  have hframe : (s.query a).frame = a.command := by
    rw [hquery]
    rfl
  rw [hframe] at hreact
  obtain ⟨r', hdone, hret, hdriver, hrxdata⟩ :=
    hresume ((field loss).respond f ((deviceTransceive a).query s)).1
  rw [hstart] at hplay
  match n with
  | 0 => cases hplay
  | n + 1 =>
    have hnext : (deviceTransceive a).resume s
        ((field loss).respond f ((deviceTransceive a).query s)).1 = .done r' := hdone
    rw [Program.play, hnext, Program.play_done] at hplay
    cases hplay
    refine ⟨hdriver, (respond_tag _ f _).trans htag, ?_⟩
    have hanswer := respond_cases (loss f.log.length) hreact
    change r.ret = (f.respond (loss f.log.length)
      (nfcIso14443aTransceive (s.query a))).1.ret a.rxlen at hret
    change r.final.rxdata = a.rxdata.write 0 ((f.respond (loss f.log.length)
      (nfcIso14443aTransceive (s.query a))).1.received a.rxlen) at hrxdata
    rcases hanswer with ⟨herror, hafter⟩ | ⟨reply, hreply, hframe, hafter⟩
    · rw [herror] at hret
      have hneg : r.ret = Int.negSucc 0 := hret
      refine ⟨?_, fun h => absurd h (by rw [hneg]; decide)⟩
      exact hafter.elim (fun h => ⟨_, h.trans hstate⟩) fun h => ⟨_, h⟩
    · rw [hframe] at hret hrxdata
      have hvalue : r.ret = (min reply.length a.rxlen : Nat) := hret
      have hcount : (reply.take a.rxlen).length = r.ret.toNat := by
        rw [hvalue, Int.toNat_natCast, List.length_take, Nat.min_comm]
      rw [Answer.received_frame] at hrxdata
      refine ⟨⟨_, hafter⟩, fun _ => ⟨hafter, reply, hreply, hvalue, ?_, fun i hi => ?_⟩⟩
      · rw [hrxdata, ← hcount, Mem.read_write_same]
      · rw [hrxdata, Mem.write_above _ _ _ _ (by omega)]

end

/-! ## 3. A tag in the block protocol -/

-- A frame without its CRC_A, and what became of it.
def unframed (x : List UInt8 × Loss) : List UInt8 × Loss := (stripped x.1, x.2)

/-- The channel to the tag's application. -/
def Field.air (f : Field) (p : Picc) : Air := ⟨p, f.log.map unframed⟩

-- The CRC_A does not matter to what a loss does.
theorem harmlessLoss_unframed {made : List (List UInt8 × Loss)}
    (h : ∀ x ∈ made, stripped x.1 ≠ []) :
    HarmlessLoss (made.map unframed) ↔ HarmlessLoss made := by
  match made with
  | [] => exact Iff.rfl
  | (bytes, fate) :: earlier =>
    have hne := h _ (List.mem_cons_self ..)
    cases bytes with
    | nil => exact absurd rfl hne
    | cons pcb rest =>
      obtain ⟨inf, hinf⟩ : ∃ inf, stripped (pcb :: rest) = pcb :: inf := by
        cases hstrip : stripped (pcb :: rest) with
        | nil => exact absurd hstrip hne
        | cons b inf =>
          have hhead := congrArg List.head? hstrip
          unfold stripped at hhead
          rw [List.head?_take] at hhead
          split at hhead
          · cases hhead
          · cases hhead
            exact ⟨inf, rfl⟩
      rw [List.map_cons]
      unfold unframed
      dsimp only
      rw [hinf]
      cases fate with
      | nothing | cardFrame => exact Iff.rfl
      | readerFrame =>
        show (earlier.map _ = [] ∨ _) ↔ (earlier = [] ∨ _)
        rw [List.map_eq_nil_iff]

/-- The field stands for the channel: its tag is in the protocol, and the frames are the same. -/
structure Meets (t : Tag) (f₀ : Field) (air : Air) (f : Field) : Prop where
  tag : f.tag = some t
  state : f.state = .protocol air.picc
  log : air.log = f.log.map unframed
  made : ∃ made, f.log = made ++ f₀.log ∧ ∀ x ∈ made, stripped x.1 ≠ []

theorem protocol_react {t : Tag} {p : Picc} {f : Field} (htag : f.tag = some t)
    (hstate : f.state = .protocol p) (q : Request) (hlen : q.txlen < 2 ^ 29) :
    f.react (nfcIso14443aTransceive q) =
      ((p.receive t.card q.frame).1, .protocol (p.receive t.card q.frame).2) := by
  have hbits := nfcIso14443aTransceive_bits q hlen
  unfold Field.react
  rw [htag, hstate]
  dsimp only [Tag.receive]
  rw [nfcIso14443aTransceive_bytes q hlen] at hbits ⊢
  rw [if_pos ⟨hbits, intact_trailer _⟩, stripped_trailer]

-- One exchange, over the field and over the channel.
theorem meets_respond {t : Tag} {loss : Nat → Loss} {f₀ f : Field} {air : Air}
    (h : Meets t f₀ air f) (q : Request) (hlo : 0 < q.txlen) (hhi : q.txlen < 2 ^ 29) :
    ((field loss).respond f (nfcIso14443aTransceive q)).1 =
        ((channel t.card loss).respond air q).1 ∧
      Meets t f₀ ((channel t.card loss).respond air q).2
        ((field loss).respond f (nfcIso14443aTransceive q)).2 := by
  obtain ⟨made, hmade, hne⟩ := h.made
  have hreact := protocol_react h.tag h.state q hhi
  have hlength : air.log.length = f.log.length := by rw [h.log, List.length_map]
  have hstrip : stripped (nfcIso14443aTransceive q).bytes = q.frame := by
    rw [nfcIso14443aTransceive_bytes q hhi, stripped_trailer]
  have hframe : stripped (nfcIso14443aTransceive q).bytes ≠ [] := by
    rw [hstrip, ne_eq, ← List.length_eq_zero_iff, Request.frame, Mem.read_length]
    omega
  have hlog : (q.frame, loss f.log.length) :: air.log =
      (((nfcIso14443aTransceive q).bytes, loss f.log.length) :: f.log).map unframed := by
    rw [List.map_cons, ← h.log, unframed, hstrip]
  have hnew : ∃ made', ((nfcIso14443aTransceive q).bytes, loss f.log.length) :: f.log =
      made' ++ f₀.log ∧ ∀ x ∈ made', stripped x.1 ≠ [] :=
    ⟨_ :: made, by rw [hmade, List.cons_append], List.forall_mem_cons.mpr ⟨hframe, hne⟩⟩
  show (f.respond (loss f.log.length) _).1 = _ ∧ Meets t f₀ _ (f.respond (loss f.log.length) _).2
  unfold channel Field.respond
  rw [hreact]
  dsimp only
  rw [hlength]
  cases hfate : loss f.log.length with
  | readerFrame =>
    rw [hfate] at hlog hnew
    exact ⟨rfl, h.tag, h.state, hlog, hnew⟩
  | cardFrame =>
    rw [hfate] at hlog hnew
    exact ⟨rfl, h.tag, rfl, hlog, hnew⟩
  | nothing =>
    rw [hfate] at hlog hnew
    cases (air.picc.receive t.card q.frame).1 with
    | none => exact ⟨rfl, h.tag, rfl, hlog, hnew⟩
    | some bytes => exact ⟨rfl, h.tag, rfl, hlog, hnew⟩

section

variable {t : Tag} {loss : Nat → Loss} {d : Driver} {a : CallArgs} {p : Picc} {f f' : Field}
  {n : Nat} {r : Returned}

/-- A T=CL call with the tag, exchange by exchange the call over the channel. -/
theorem blocks_play (loss : Nat → Loss) (hsz : Sized d) (hrx : a.rxlen < 2 ^ 32)
    (htag : f.tag = some t) (hstate : f.state = .protocol p) (n : Nat) :
    ((deviceTransceive a).play (field loss) n (transceiveStart d a) f).1 =
        ((nfcIso14443Transceive a).play (channel t.card loss) n (transceiveStart d a)
          (f.air p)).1 ∧
      Meets t f
        ((nfcIso14443Transceive a).play (channel t.card loss) n (transceiveStart d a)
          (f.air p)).2
        ((deviceTransceive a).play (field loss) n (transceiveStart d a) f).2 := by
  have hmeets : Meets t f (f.air p) f := ⟨htag, hstate, rfl, [], rfl, List.forall_mem_nil _⟩
  apply Program.play_via (I := Bounded d a)
  · exact fun s ans => bounded_resume hrx s ans
  · intro s air g hs hg
    have hfits := query_fits hsz s hs
    have hsmall : (s.query a).txlen ≤ 256 := hfits.1
    have hsome : 0 < (s.query a).txlen := by
      unfold Locals.query
      cases hsite : s.site with
      | direct => exact absurd hsite hs.1
      | chain | chainWtx | last | lastWtx => exact Nat.succ_pos _
    exact meets_respond hg (s.query a) hsome (by omega)
  · exact bounded_start a hsz.tcl
  · exact hmeets

-- A T=CL call that has ended, as a call over the channel.
theorem contact_blocks (hsz : Sized d) (hrx : a.rxlen < 2 ^ 32) (htag : f.tag = some t)
    (hstate : f.state = .protocol p)
    (hplay : (deviceTransceive a).play (field loss) n (transceiveStart d a) f = (.done r, f')) :
    ∃ now, (nfcIso14443Transceive a).play (channel t.card loss) n (transceiveStart d a) (f.air p) =
      (.done r, now) ∧ Meets t f now f' := by
  obtain ⟨hstatus, hmeets⟩ := blocks_play loss hsz hrx htag hstate n
  rw [hplay] at hstatus hmeets
  exact ⟨_, Prod.ext hstatus.symm rfl, hmeets⟩

/-- Without losses, a call made in step returns the response. -/
theorem contact_delivers (hsz : Sized d) (hrx : a.rxlen < 2 ^ 31) (hsync : Synced d p)
    (htag : f.tag = some t) (hstate : f.state = .protocol p)
    (hquiet : ∀ i, f.log.length ≤ i → loss i = .nothing) :
    ∃ n r f', (deviceTransceive a).play (field loss) n (transceiveStart d a) f = (.done r, f') ∧
      0 ≤ r.ret := by
  have hrx' : a.rxlen < 2 ^ 32 := by omega
  have hsync' : Synced d (f.air p).picc := hsync
  obtain ⟨n, r, now, hplay, hended⟩ := call_ends t.card noLoss a hsz hrx' hsync'
  obtain ⟨hstatus, -⟩ := blocks_play noLoss hsz hrx' htag hstate n
  rw [hplay] at hstatus
  refine ⟨n, r, ((deviceTransceive a).play (field noLoss) n (transceiveStart d a) f).2, ?_, ?_⟩
  · rw [play_quiet _ _ _ _ hquiet]
    exact Prod.ext hstatus rfl
  · cases hended with
    | lost ret fate =>
      obtain ⟨i, hi⟩ := fate
      exact absurd rfl hi
    | finished hfin =>
      rw [hfin.ret, toInt_of_lt (by omega)]
      omega

end

end NfceeFw.Nfc
