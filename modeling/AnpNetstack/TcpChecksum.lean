import AnpNetstack.OnesComplement
import AnpNetstack.Sockets
import AnpNetstack.Route

/-! The TCP checksum and its pseudo-header. do_tcp_csum adds whole 32-bit addresses into the
32-bit counter of do_csum; RFC 1071 adds 16-bit words with end-around carry. The two agree as
long as the counter loses no carry. -/
namespace AnpNetstack
open OnesComplement

def leWords : List UInt8 → List UInt16
  | [] => []
  | [b] => [b.toUInt16]
  | b :: b' :: bs => (b.toUInt16 + 256 * b'.toUInt16) :: leWords bs

def halves (x : UInt32) : List UInt16 := [(x >>> 16).toUInt16, x.toUInt16]

/-- The four terms that do_tcp_csum adds up, as an unbounded number. -/
def pseudoSum (length : Int) (protocol : UInt16) (saddr daddr : UInt32) : Nat :=
  saddr.toNat + daddr.toNat + (htons protocol).toNat + (htons (UInt16.ofInt length)).toNat

theorem doTcpCsum_eq (data : List UInt8) (length : Int) (protocol : UInt16) (saddr daddr : UInt32) :
    doTcpCsum data length protocol saddr daddr =
      doCsum (data.take length.toNat) (UInt32.ofNat (pseudoSum length protocol saddr daddr)) := by
  have hsum : saddr + daddr + (htons protocol).toUInt32 + (htons (UInt16.ofInt length)).toUInt32 =
      UInt32.ofNat (pseudoSum length protocol saddr daddr) := by
    rw [← UInt32.toNat_inj]
    simp only [pseudoSum, UInt32.toNat_add, UInt16.toNat_toUInt32, UInt32.toNat_ofNat']
    omega
  rw [doTcpCsum, hsum]

section Words

theorem total_halves (x : UInt32) : total (halves x) = x.toNat / 65536 + x.toNat % 65536 := by
  have hx := x.toNat_lt
  simp [halves, Nat.shiftRight_eq_div_pow]
  omega

theorem total_leWords_le (bytes : List UInt8) :
    total (leWords bytes) ≤ 65535 * ((bytes.length + 1) / 2) := by
  induction bytes using leWords.induct with
  | case1 => simp [leWords]
  | case2 b =>
    have hb := b.toNat_lt
    simp [leWords]
    omega
  | case3 b b' bs ih =>
    have hw := (b.toUInt16 + 256 * b'.toUInt16).toNat_lt
    simp only [leWords, total_cons, List.length_cons]
    omega

/-- The counter of sum_every_16bits is the total of the words, modulo its size. -/
theorem sumEvery16bits_toNat (bytes : List UInt8) :
    (sumEvery16bits bytes).toNat = total (leWords bytes) % 2 ^ 32 := by
  induction bytes using leWords.induct with
  | case1 => rfl
  | case2 b =>
    have hb := b.toNat_lt
    simp [leWords, sumEvery16bits]
  | case3 b b' bs ih =>
    have hb := b.toNat_lt
    have hb' := b'.toNat_lt
    have h32 : (256 : UInt32).toNat = 256 := rfl
    have h16 : (256 : UInt16).toNat = 256 := rfl
    simp only [leWords, sumEvery16bits, total_cons, UInt32.toNat_add, UInt32.toNat_mul,
      UInt16.toNat_add, UInt16.toNat_mul, UInt8.toNat_toUInt32, UInt8.toNat_toUInt16, h32, h16, ih]
    omega

end Words

theorem ofInt_length (bytes : List UInt8) :
    UInt16.ofInt (bytes.length : Int) = UInt16.ofNat bytes.length := by
  rw [← UInt16.toNat_inj, UInt16.ofInt, UInt16.toNat_ofNat', UInt16.toNat_ofNat']
  omega

def tcpWords (data : List UInt8) (protocol : UInt16) (saddr daddr : UInt32) : List UInt16 :=
  halves saddr ++ halves daddr ++ [htons protocol, htons (UInt16.ofNat data.length)] ++ leWords data

theorem total_tcpWords (data : List UInt8) (protocol : UInt16) (saddr daddr : UInt32) :
    let T := pseudoSum data.length protocol saddr daddr + total (leWords data)
    total (tcpWords data protocol saddr daddr) % 65535 = T % 65535 ∧
      (total (tcpWords data protocol saddr daddr) = 0 ↔ T = 0) := by
  simp only [tcpWords, pseudoSum, total_append, total_cons, total_nil, total_halves, ofInt_length]
  omega

theorem not_toUInt16_inj {f : UInt32} (hf : f.toNat < 65536) (w : UInt16) :
    (~~~ f).toUInt16 = ~~~ w ↔ f.toNat = w.toNat := by
  have hw := w.toNat_lt
  have hsize : UInt32.size = 2 ^ 32 := rfl
  have hsize' : UInt16.size = 2 ^ 16 := rfl
  rw [← UInt16.toNat_inj, UInt32.toNat_toUInt16, UInt32.toNat_not, UInt16.toNat_not]
  omega

/-- do_csum is the complement of a sum of words when its counter agrees with their total. -/
theorem doCsum_eq_iff (bytes : List UInt8) (start : UInt32) (ws : List UInt16) :
    doCsum bytes start = ~~~ (sum ws) ↔
      (start + sumEvery16bits bytes).toNat % 65535 = total ws % 65535 ∧
        ((start + sumEvery16bits bytes).toNat = 0 ↔ total ws = 0) := by
  rw [doCsum]
  generalize start + sumEvery16bits bytes = S
  obtain ⟨hmod, hle, hpos⟩ := foldCarries_mod 2 S
  have hlt := (carry_eq_zero _).mp (foldCarries_done S)
  obtain ⟨hsum, hzero⟩ := sum_spec ws
  have hs := (sum ws).toNat_lt
  rw [not_toUInt16_inj hlt]
  omega

/-- do_tcp_csum is the RFC 1071 checksum exactly when its counter does not overflow. -/
theorem tcp_checksum (data : List UInt8) (protocol : UInt16) (saddr daddr : UInt32)
    (hlen : data.length ≤ 65515) :
    doTcpCsum data data.length protocol saddr daddr =
      ~~~ (sum (tcpWords data protocol saddr daddr)) ↔
      saddr.toNat + daddr.toNat + (htons protocol).toNat +
        (htons (UInt16.ofNat data.length)).toNat +
        total (leWords data) < 2 ^ 32 := by
  have htotal := total_tcpWords data protocol saddr daddr
  have hle := total_leWords_le data
  have hcount : (UInt32.ofNat (pseudoSum data.length protocol saddr daddr) +
      sumEvery16bits data).toNat =
      (pseudoSum data.length protocol saddr daddr + total (leWords data)) % 2 ^ 32 := by
    rw [UInt32.toNat_add, UInt32.toNat_ofNat', sumEvery16bits_toNat]
    omega
  -- the counter can lose one carry or two, each of which is worth 1 modulo 65535
  have hbound : pseudoSum data.length protocol saddr daddr ≤ 2 * 4294967295 + 2 * 65535 := by
    have hs := saddr.toNat_lt
    have hd := daddr.toNat_lt
    have hp := (htons protocol).toNat_lt
    have hl := (htons (UInt16.ofInt data.length)).toNat_lt
    simp only [pseudoSum]
    omega
  have hgoal : saddr.toNat + daddr.toNat + (htons protocol).toNat +
      (htons (UInt16.ofNat data.length)).toNat = pseudoSum data.length protocol saddr daddr := by
    rw [pseudoSum, ofInt_length]
  rw [doTcpCsum_eq, Int.toNat_natCast, List.take_length, doCsum_eq_iff, hcount, hgoal]
  generalize pseudoSum data.length protocol saddr daddr = P at *
  omega

theorem tcp_checksum_sample :
    doTcpCsum [0xc0, 0x03, 0x50] 3 0x0600 0x0a000004 0x0500000a =
      ~~~ (sum (tcpWords [0xc0, 0x03, 0x50] 0x0600 0x0a000004 0x0500000a)) :=
  (tcp_checksum [0xc0, 0x03, 0x50] 0x0600 0x0a000004 0x0500000a (by decide)).mpr (by decide)

/-- The addresses of 192.168.1.200 and 10.0.0.200 together do not fit into 32 bits. -/
theorem tcp_checksum_carry_lost :
    doTcpCsum [0xc0, 0x03, 0x50] 3 6 0xc801a8c0 0xc800000a = 0xba23 ∧
      ~~~ (sum (tcpWords [0xc0, 0x03, 0x50] 6 0xc801a8c0 0xc800000a)) = 0xba22 := by
  decide

section PseudoHeader

def senderPseudo (tcb : Tcb) (length : Int) : Nat :=
  pseudoSum length (htons ippTcp.toUInt16) (htonl tcb.localIp) (htonl tcb.remoteIp)

def receiverPseudo (ip : IpHdr) : Nat :=
  pseudoSum (ipPayloadLen ip) (ntohs (ip.proto.toUInt16 <<< 8)) (ntohl ip.saddr) (ntohl ip.daddr)

theorem createTcpPacket_checksum (tcb : Tcb) (data : List UInt8) (n : UInt32) (flags : UInt8) :
    let seg := (createTcpPacket tcb data n flags).1
    seg.hdr.checksum =
      htons (doCsum (({ seg.hdr with checksum := 0 }.bytes ++ seg.data).take (20 + n.toNat))
        (UInt32.ofNat (senderPseudo tcb (20 + n.toNat)))) := by
  intro seg
  simp only [seg, createTcpPacket, doTcpCsum_eq]
  rfl

theorem csumValid_eq (pkt : Packet) :
    csumValid pkt = (doCsum ((pkt.tcp.hdr.bytes ++ pkt.tcp.data).take (ipPayloadLen pkt.ip).toNat)
      (UInt32.ofNat (receiverPseudo pkt.ip)) == 0) := by
  rw [csumValid, doTcpCsum_eq]
  rfl

/-- The sender has the address of the device in host order and the protocol in network order, the
receiver the other way round. -/
theorem pseudo_agree_iff {tcb : Tcb} {ip : IpHdr} (hlocal : tcb.localIp = ntohl ip.saddr)
    (hremote : ip.daddr = tcb.remoteIp) (hproto : ip.proto = ippTcp) :
    senderPseudo tcb (ipPayloadLen ip) ≡ receiverPseudo ip [MOD 65535] ↔
      ip.saddr.toNat + 6 ≡ (htonl ip.saddr).toNat + 1536 [MOD 65535] := by
  have hsend : (htons (htons ippTcp.toUInt16)).toNat = 6 := by decide
  have hrecv : (htons (ntohs (ippTcp.toUInt16 <<< 8))).toNat = 1536 := by decide
  have hback : htonl (htonl ip.saddr) = ip.saddr := ntohl_htonl ip.saddr
  simp only [senderPseudo, receiverPseudo, pseudoSum, hlocal, hremote, hproto, hsend, hrecv,
    hback, ntohl, Nat.ModEq]
  omega

theorem routeLookup_dev {daddr : UInt32} {rt : RtEntry}
    (h : routeLookup daddr routeInit = some rt) :
    rt.dev = if daddr &&& 0xff000000 = 0x7f000000 then cdevLo else cdevExt := by
  have hlo : cdevLo.addr &&& 0xff000000 = 0x7f000000 := by decide
  simp only [routeInit, routeLookup, hlo] at h
  split_ifs at h ⊢ with h1 h2
  · exact congrArg RtEntry.dev (Option.some.inj h).symm
  · exact congrArg RtEntry.dev (Option.some.inj h).symm
  · exact congrArg RtEntry.dev (Option.some.inj h).symm

/-- Both sides agree on the pseudo-header of a connection unless it goes over the loopback
device. -/
theorem pseudo_headers_agree (self : Nat) (localPort remotePort : UInt16) (remoteIp rand : UInt32)
    (msgs : List TcpMessage) (rt : RtEntry) (hrt : routeLookup remoteIp routeInit = some rt)
    (ihl : UInt8) (len : UInt16) :
    let tcb := (connectBlock self localPort remotePort (ntohl rt.dev.addr) remoteIp rand msgs).tcb
    let ip : IpHdr :=
      { ihl := ihl, len := len, proto := ippTcp, saddr := rt.dev.addr, daddr := remoteIp }
    senderPseudo tcb (ipPayloadLen ip) ≡ receiverPseudo ip [MOD 65535] ↔
      remoteIp &&& 0xff000000 ≠ 0x7f000000 := by
  intro tcb ip
  rw [pseudo_agree_iff rfl rfl rfl]
  have hdev : ip.saddr = rt.dev.addr := rfl
  rw [hdev, routeLookup_dev hrt]
  split_ifs with hlo
  · have hne : ¬ (cdevLo.addr.toNat + 6 ≡ (htonl cdevLo.addr).toNat + 1536 [MOD 65535]) := by decide
    simp [hne, hlo]
  · have heq : cdevExt.addr.toNat + 6 ≡ (htonl cdevExt.addr).toNat + 1536 [MOD 65535] := by decide
    simp [heq, hlo]

theorem pseudo_headers_agree_sample :
    let tcb := (connectBlock 1 49155 43211 (ntohl 0x0a000004) 0x0a000005 1000 []).tcb
    let ip : IpHdr :=
      { ihl := 5, len := 43, proto := ippTcp, saddr := 0x0a000004, daddr := 0x0a000005 }
    senderPseudo tcb (ipPayloadLen ip) ≡ receiverPseudo ip [MOD 65535] :=
  (pseudo_headers_agree 1 49155 43211 0x0a000005 1000 [] _ rfl 5 43).mpr (by decide)

/-- A segment of 23 bytes to 127.0.0.1 over the loopback device. -/
theorem pseudo_headers_differ :
    let tcb := (connectBlock 1 49155 43211 (ntohl 0x7f000001) 0x7f000001 1000 []).tcb
    let ip : IpHdr :=
      { ihl := 5, len := 43, proto := ippTcp, saddr := 0x7f000001, daddr := 0x7f000001 }
    (routeLookup 0x7f000001 routeInit).map (fun rt => rt.dev.addr) = some 0x7f000001 ∧
      senderPseudo tcb (ipPayloadLen ip) % 65535 = 38790 ∧ receiverPseudo ip % 65535 = 8190 := by
  decide

end PseudoHeader

end AnpNetstack
