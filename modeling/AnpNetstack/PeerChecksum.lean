import AnpNetstack.PeerRuns
import AnpNetstack.TcpChecksum

/-! Which segments of one instance another takes: with room in the counter of do_csum the checksum
test of tcp_rx comes down to the address of the sender. -/
namespace AnpNetstack
open OnesComplement Packed Runs Duplex

theorem doCsum_zero (bytes : List UInt8) (start : UInt32) :
    doCsum bytes start = 0 ↔
      (start + sumEvery16bits bytes).toNat % 65535 = 0 ∧
        (start + sumEvery16bits bytes).toNat ≠ 0 := by
  have hones : ~~~ sum [0xffff] = 0 := by decide
  have hiff := doCsum_eq_iff bytes start [0xffff]
  have htotal : total [0xffff] = 65535 := by decide
  rw [hones, htotal] at hiff
  rw [hiff]
  omega

/-- The stored checksum is the negative of what it was taken over. -/
theorem doCsum_mod (bytes : List UInt8) (start : UInt32) :
    ((doCsum bytes start).toNat + (start + sumEvery16bits bytes).toNat) % 65535 = 0 := by
  rw [doCsum]
  generalize start + sumEvery16bits bytes = S
  obtain ⟨hmod, -, -⟩ := foldCarries_mod 2 S
  have hlt := (carry_eq_zero _).mp (foldCarries_done S)
  have hsize : UInt32.size = 2 ^ 32 := rfl
  rw [UInt32.toNat_toUInt16, UInt32.toNat_not]
  omega

def TcpHdr.front (h : TcpHdr) : List UInt8 :=
  be16 h.srcPort ++ be16 h.dstPort ++ be32 h.seqNum ++ be32 h.ackNum ++ [h.dataOffset,
    h.flags] ++ be16 h.windowSize

theorem TcpHdr.bytes_front (h : TcpHdr) :
    h.bytes = h.front ++ (le16 (htons h.checksum) ++ be16 h.urgentPtr) := by
  rw [Wire.le16_eq, ntohs_htons, TcpHdr.bytes, TcpHdr.front, List.append_assoc]

theorem sum_checksum (h : TcpHdr) (text : List UInt8) :
    sumEvery16bits (h.bytes ++ text) =
      sumEvery16bits ({ h with checksum := 0 }.bytes ++ text) + (htons h.checksum).toUInt32 := by
  have hfront : h.front.length % 2 = 0 := by simp [TcpHdr.front, be16, be32]
  have hzero : (htons 0).toUInt32 = 0 := rfl
  have hsplit := TcpHdr.bytes_front { h with checksum := 0 }
  have hsame : { h with checksum := 0 }.front = h.front := rfl
  rw [h.bytes_front, hsplit, hsame]
  simp only [List.append_assoc]
  rw [sumEvery16bits_append hfront, sumEvery16bits_append hfront, Wire.sum_le16,
    Wire.sum_le16, hzero, UInt32.zero_add]
  ac_rfl

/-- A segment of create_tcp_packet passes the checksum test of tcp_rx exactly when the two
pseudo-headers agree. The counters have room for a whole segment. -/
theorem csumValid_iff {tcb : Tcb} {data : List UInt8} {n : UInt32} {flags : UInt8} {pkt : Packet}
    {pad : List UInt8} (hlen : (data.take n.toNat).length = n.toNat) (hn : n.toNat ≤ 1460)
    (hpkt : pkt.tcp = { (createTcpPacket tcb data n flags).1 with
      data := data.take n.toNat ++ pad })
    (hip : ipPayloadLen pkt.ip = 20 + n.toNat)
    (hsend : senderPseudo tcb (20 + n.toNat) < 2 ^ 32 - 2 ^ 26)
    (hrecv : receiverPseudo pkt.ip < 2 ^ 32 - 2 ^ 26) (hpos : 0 < receiverPseudo pkt.ip) :
    csumValid pkt = true ↔ senderPseudo tcb (20 + n.toNat) ≡ receiverPseudo pkt.ip [MOD 65535] := by
  set seg := (createTcpPacket tcb data n flags).1
  have hbytes : (pkt.tcp.hdr.bytes ++ pkt.tcp.data).take (ipPayloadLen pkt.ip).toNat =
      seg.hdr.bytes ++ data.take n.toNat := by
    have hhdr : seg.hdr.bytes.length = 20 := rfl
    have hnat : (20 + (n.toNat : Int)).toNat = (seg.hdr.bytes ++ data.take n.toNat).length := by
      rw [List.length_append, hhdr, hlen]
      omega
    rw [hip, hnat, hpkt]
    dsimp only
    rw [← List.append_assoc, List.take_left]
  have hzeroed : ({ seg.hdr with checksum := 0 }.bytes ++ seg.data).take (20 + n.toNat) =
      { seg.hdr with checksum := 0 }.bytes ++ data.take n.toNat := by
    have hdata : seg.data = data.take n.toNat := rfl
    rw [hdata]
    refine List.take_of_length_le ?_
    rw [List.length_append, hlen]
    exact Nat.le_refl _
  have hcsum := createTcpPacket_checksum tcb data n flags
  dsimp only at hcsum
  rw [hzeroed] at hcsum
  set zeroed := { seg.hdr with checksum := 0 }.bytes ++ data.take n.toNat
  -- the counters of both sides over the same words
  have htotal := total_leWords_le zeroed
  have hwords := sumEvery16bits_toNat zeroed
  have hzlen : zeroed.length = 20 + n.toNat := by
    rw [List.length_append, hlen]
    rfl
  have hc := doCsum_mod zeroed (UInt32.ofNat (senderPseudo tcb (20 + n.toNat)))
  have hclt := (doCsum zeroed (UInt32.ofNat (senderPseudo tcb (20 + n.toNat)))).toNat_lt
  have hfield : htons seg.hdr.checksum =
      doCsum zeroed (UInt32.ofNat (senderPseudo tcb (20 + n.toNat))) := by
    rw [hcsum]
    exact ntohs_htons _
  rw [csumValid_eq, hbytes, beq_iff_eq, doCsum_zero, sum_checksum, hfield]
  generalize doCsum zeroed (UInt32.ofNat (senderPseudo tcb (20 + n.toNat))) = c at *
  have hroom : (sumEvery16bits zeroed).toNat + 65536 ≤ 2 ^ 26 := by omega
  have hfits {a : Nat} (ha : a < 2 ^ 32 - 2 ^ 26) :
      (UInt32.ofNat a + sumEvery16bits zeroed).toNat = a + (sumEvery16bits zeroed).toNat := by
    rw [UInt32.toNat_add, UInt32.toNat_ofNat', Nat.mod_eq_of_lt (a := a) (by omega),
      Nat.mod_eq_of_lt (by omega)]
  have hlast : (UInt32.ofNat (receiverPseudo pkt.ip) + (sumEvery16bits zeroed + c.toUInt32)).toNat =
      receiverPseudo pkt.ip + (sumEvery16bits zeroed).toNat + c.toNat := by
    rw [← UInt32.add_assoc, UInt32.toNat_add, hfits hrecv, UInt16.toNat_toUInt32,
      Nat.mod_eq_of_lt (by omega)]
  rw [hfits hsend] at hc
  rw [hlast, Nat.ModEq]
  omega

structure Facing (own other : Tcb) : Prop where
  localPort : own.localPort = other.remotePort
  remotePort : own.remotePort = other.localPort
  localIp : own.localIp = ntohl other.remoteIp
  remoteIp : own.remoteIp = ntohl other.localIp

/-- Neither pseudo-header comes near the end of the counter of do_csum. -/
def SmallAddresses (tcb : Tcb) : Prop :=
  (htonl tcb.localIp).toNat + (htonl tcb.remoteIp).toNat < 2 ^ 32 - 2 ^ 27 ∧
    tcb.localIp.toNat + (htonl tcb.remoteIp).toNat < 2 ^ 32 - 2 ^ 27

def AddressTaken (addr : UInt32) : Prop := (htonl addr).toNat + 6 ≡ addr.toNat + 1536 [MOD 65535]

instance (tcb : Tcb) : Decidable (SmallAddresses tcb) := inferInstanceAs (Decidable (_ ∧ _))

instance (addr : UInt32) : Decidable (AddressTaken addr) := inferInstanceAs (Decidable (_ = _))

/-- One address in 257 is taken: the one whose two words add up to 6. -/
theorem addressTaken_iff (addr : UInt32) :
    AddressTaken addr ↔ (addr.toNat / 65536 + addr.toNat % 65536) % 257 = 6 := by
  have hlt := addr.toNat_lt
  have hbytes : addr.toNat = 16777216 * (addr.toNat / 16777216) + 65536 *
      (addr.toNat / 65536 % 256) +
      256 * (addr.toNat / 256 % 256) + addr.toNat % 256 := by omega
  rw [AddressTaken, Nat.ModEq, htonl_toNat]
  omega

theorem getTcbMatch_facing {own other : Tcb} (h : Facing other own) {seg : TcpSegment}
    (hports : seg.hdr.srcPort = own.localPort ∧ seg.hdr.dstPort = own.remotePort)
    (pad : List UInt8) :
    getTcbMatch other (padded (wirePacket own seg) pad) = true := by
  simp only [getTcbMatch, padded, wirePacket, hports.1, hports.2, h.localPort, h.remotePort,
    h.localIp, h.remoteIp, beq_self_eq_true, Bool.and_self]

/-- Another instance takes the segments of a connection, all of them or none, depending on the
address of the sender. -/
theorem accepted_wirePacket {own other : Tcb} {x : Sent} (hx : x.Built own.ends)
    (hface : Facing other own) (hroom : SmallAddresses own) (pad : List UInt8) :
    accepted other (padded (wirePacket own x.seg) pad) = true ↔ AddressTaken own.localIp := by
  have hcarries := carries_wirePacket hx own pad
  obtain ⟨tcb, data, n, flags, hends, hlen, hseg⟩ := hx.packet
  obtain ⟨hlp, hrp, hli, hri⟩ : tcb.localPort = own.localPort ∧ tcb.remotePort = own.remotePort ∧
      tcb.localIp = own.localIp ∧ tcb.remoteIp = own.remoteIp := by
    simpa only [Tcb.ends, Prod.mk.injEq] using hends
  have hsize := hx.size
  have hdata : x.seg.data = data.take n.toNat := by rw [hseg, createTcpPacket_data]
  have hports : x.seg.hdr.srcPort = own.localPort ∧ x.seg.hdr.dstPort = own.remotePort := by
    rw [hseg]
    exact ⟨hlp, hrp⟩
  have hmatch := getTcbMatch_facing hface hports pad
  have hshort := hcarries.not_tooShort
  have hip : ipPayloadLen (padded (wirePacket own x.seg) pad).ip = 20 + n.toNat := by
    have hl := hcarries.len
    rw [hdata, hlen] at hl
    rw [ipPayloadLen, hl, hcarries.ihl]
    have h5 : (5 : UInt8).toNat = 5 := rfl
    omega
  have hlocal : tcb.localIp = ntohl (padded (wirePacket own x.seg) pad).ip.saddr := by
    rw [hli]
    exact (ntohl_htonl own.localIp).symm
  have hback : ntohl (ntohl own.localIp) = own.localIp := ntohl_htonl own.localIp
  have hprotos : (htons (htons ippTcp.toUInt16)).toNat = 6 ∧
      (htons (ntohs (ippTcp.toUInt16 <<< 8))).toNat = 1536 := by decide
  have hl := (htons (UInt16.ofInt (20 + n.toNat))).toNat_lt
  have hsend : senderPseudo tcb (20 + n.toNat) < 2 ^ 32 - 2 ^ 26 := by
    have h := hroom.1
    rw [senderPseudo, pseudoSum, hprotos.1, hli, hri]
    omega
  have hrecv : receiverPseudo (padded (wirePacket own x.seg) pad).ip =
      own.localIp.toNat + (htonl own.remoteIp).toNat + 1536 +
        (htons (UInt16.ofInt (20 + n.toNat))).toNat := by
    rw [receiverPseudo, pseudoSum, hip]
    dsimp only [padded, wirePacket]
    rw [hback, hprotos.2]
    rfl
  have hsmall := hroom.2
  have htcp : (padded (wirePacket own x.seg) pad).tcp =
      { (createTcpPacket tcb data n flags).1 with data := data.take n.toNat ++ pad } := by
    rw [← hdata, ← hseg]
    rfl
  have hcsum :=
    csumValid_iff hlen (by rw [← hlen, ← hdata]; exact hsize) htcp hip hsend (by omega) (by omega)
  rw [← hip, pseudo_agree_iff hlocal hri.symm rfl] at hcsum
  have hsaddr : (padded (wirePacket own x.seg) pad).ip.saddr = htonl own.localIp := rfl
  have hround : htonl (htonl own.localIp) = own.localIp := ntohl_htonl own.localIp
  rw [hsaddr, hround] at hcsum
  rw [accepted, hshort, hmatch, Bool.not_false, Bool.true_and, Bool.and_true]
  exact hcsum

section Runs

theorem Facing.of_ends {own other own' : Tcb} (h : Facing own other)
    (hends : own'.ends = own.ends) :
    Facing own' other := by
  obtain ⟨hlp, hrp, hli, hri⟩ : own'.localPort = own.localPort ∧ own'.remotePort = own.remotePort ∧
      own'.localIp = own.localIp ∧ own'.remoteIp = own.remoteIp := by
    simpa only [Tcb.ends, Prod.mk.injEq] using hends
  exact ⟨hlp.trans h.localPort, hrp.trans h.remotePort, hli.trans h.localIp, hri.trans h.remoteIp⟩

theorem Facing.symm {own other : Tcb} (h : Facing own other) : Facing other own := by
  refine ⟨h.remotePort.symm, h.localPort.symm, ?_, ?_⟩
  · rw [h.remoteIp]
    exact (ntohl_htonl other.localIp).symm
  · rw [h.localIp]
    exact (ntohl_htonl other.remoteIp).symm

theorem ends_of_run (near far : PeerBlock) (es : List (Move Event (List UInt8))) (s : Side) :
    ((run (Duplex.step peer) (peersOf near far) es).party s).tcb.ends =
      ((peersOf near far).party s).tcb.ends :=
  party_run (I := fun c => c.tcb.ends = ((peersOf near far).party s).tcb.ends)
    (fun c e h => (ends_step c e).trans h) s es rfl

theorem facing_run {near far : PeerBlock} (h : Facing near.conn.tcb far.conn.tcb)
    (es : List (Move Event (List UInt8))) (s : Side) :
    Facing ((run (Duplex.step peer) (peersOf near far) es).party s).tcb
      ((run (Duplex.step peer) (peersOf near far) es).party s.other).tcb := by
  have hstart : Facing ((peersOf near far).party s).tcb ((peersOf near far).party s.other).tcb := by
    cases s
    · exact h
    · exact h.symm
  exact ((hstart.of_ends (ends_of_run near far es s)).symm.of_ends
    (ends_of_run near far es s.other)).symm

theorem SmallAddresses.of_ends {tcb tcb' : Tcb} (h : SmallAddresses tcb)
    (hends : tcb'.ends = tcb.ends) :
    SmallAddresses tcb' := by
  obtain ⟨-, -, hli, hri⟩ : tcb'.localPort = tcb.localPort ∧ tcb'.remotePort = tcb.remotePort ∧
      tcb'.localIp = tcb.localIp ∧ tcb'.remoteIp = tcb.remoteIp := by
    simpa only [Tcb.ends, Prod.mk.injEq] using hends
  rw [SmallAddresses, hli, hri]
  exact h

theorem localIp_of_run (near far : PeerBlock) (es : List (Move Event (List UInt8))) (s : Side) :
    ((run (Duplex.step peer) (peersOf near far) es).party s).tcb.localIp =
      ((peersOf near far).party s).tcb.localIp :=
  congrArg (fun ends => ends.2.2.1) (ends_of_run near far es s)

/-- What is on the medium is taken by the other side or not, depending on the sender's address. -/
theorem says_accepted {near far : PeerBlock} (hface : Facing near.conn.tcb far.conn.tcb) {s : Side}
    (hsmall : SmallAddresses ((peersOf near far).party s).tcb) (es : List (Move Event (List UInt8)))
    {pkt : Packet} (hpkt : pkt ∈ (run (Duplex.step peer) (peersOf near far) es).medium s)
    (pad : List UInt8) :
    accepted ((run (Duplex.step peer) (peersOf near far) es).party s.other).tcb
      (padded pkt pad) = true ↔
      AddressTaken ((peersOf near far).party s).tcb.localIp := by
  obtain ⟨x, hx, hbuilt, rfl⟩ := (peers_run near far es).2 s pkt hpkt
  have hfacing := (facing_run hface es s).symm
  have hiff := accepted_wirePacket hbuilt hfacing (hsmall.of_ends (ends_of_run near far es s)) pad
  rw [localIp_of_run] at hiff
  exact hiff

/-- Who does not hear the other side does not leave SYN_SENT. -/
theorem early_unheard {near far : PeerBlock} (hface : Facing near.conn.tcb far.conn.tcb) {s : Side}
    (hsmall : SmallAddresses ((peersOf near far).party s).tcb)
    (huntaken : ¬ AddressTaken ((peersOf near far).party s).tcb.localIp)
    (es : List (Move Event (List UInt8))) (e : Move Event (List UInt8))
    (h : Early ((run (Duplex.step peer) (peersOf near far) es).party s.other)) :
    Early ((Duplex.step peer (run (Duplex.step peer) (peersOf near far) es) e).party s.other) := by
  set n := run (Duplex.step peer) (peersOf near far) es
  have hk : ControlInv (n.party s.other).control :=
    ((peers_run near far es).1 s.other).solo.reached.inv
  cases e with
  | act t e =>
    by_cases ht : s.other = t
    · subst ht
      rw [act_self]
      change Early (peerAct (n.party s.other) e)
      obtain he | ⟨he, hseg⟩ := peerAct_cases (n.party s.other) e
      · rw [he]
        exact h
      · rw [he]
        by_contra hlate
        obtain ⟨pkt, rfl⟩ := early_end hk h hlate
        exact hseg pkt rfl
    · rw [act_ne peer n ht]
      exact h
  | deliver t i pad =>
    by_cases ht : s.other = t
    · subst ht
      cases hm : (n.medium s.other.other)[i]? with
      | none =>
        simp only [Duplex.step, hm]
        exact h
      | some pkt =>
        rw [deliver_self peer n hm]
        rw [Side.other_other] at hm
        have hacc : accepted (n.party s.other).tcb (padded pkt pad) = false := by
          rw [← Bool.not_eq_true, says_accepted hface hsmall es (List.mem_of_getElem? hm)]
          exact huntaken
        have hsame : step (n.party s.other) (.segment (padded pkt pad)) = n.party s.other := by
          simp only [step, tcpRxSwitch, hacc, Bool.not_false, Bool.true_or, if_true, ite_self]
        change Early (step (n.party s.other) (.segment (padded pkt pad)))
        rw [hsame]
        exact h
    · rw [deliver_ne peer n ht]
      exact h

/-- The address of a side decides over its whole connection: the other side takes every packet that
is ever sent, or it takes none and does not leave SYN_SENT. -/
theorem address_decides (near far : PeerBlock)
    (hface : Facing near.conn.tcb far.conn.tcb) (s : Side)
    (hsmall : SmallAddresses ((peersOf near far).party s).tcb)
    (es : List (Move Event (List UInt8))) :
    let last := run (Duplex.step peer) (peersOf near far) es
    let addr := ((peersOf near far).party s).tcb.localIp
    (∀ pkt ∈ last.medium s, ∀ pad, accepted (last.party s.other).tcb (padded pkt pad) = true ↔
        (addr.toNat / 65536 + addr.toNat % 65536) % 257 = 6) ∧
      ((addr.toNat / 65536 + addr.toNat % 65536) % 257 ≠ 6 → Early (last.party s.other)) := by
  intro last addr
  constructor
  · intro pkt hpkt pad
    rw [says_accepted hface hsmall es hpkt]
    exact addressTaken_iff addr
  · intro hne
    have huntaken : ¬ AddressTaken addr := fun ht => hne ((addressTaken_iff addr).mp ht)
    -- on the run, from its end
    have hrun : ∀ es, Early ((run (Duplex.step peer) (peersOf near far) es).party s.other) := by
      intro es
      induction es using List.reverseRecOn with
      | nil =>
        cases s
        · exact Or.inl rfl
        · exact Or.inl rfl
      | append_singleton es e ih =>
        rw [run_append]
        exact early_unheard hface hsmall huntaken es e ih
    exact hrun es

theorem sample_facing : Facing sampleNear.conn.tcb sampleFar.conn.tcb :=
  ⟨by decide, by decide, by decide, by decide⟩

theorem address_decides_sample :
    let last := run (Duplex.step peer) (peersOf sampleNear sampleFar) sampleOpening
    ∀ pkt ∈ last.medium .far, ∀ pad, accepted (last.party Side.far.other).tcb
      (padded pkt pad) = true :=
  fun pkt hpkt pad =>
    ((address_decides sampleNear sampleFar sample_facing .far
      (by decide) sampleOpening).1 pkt hpkt pad).mpr
      (by decide)

end Runs

end AnpNetstack
