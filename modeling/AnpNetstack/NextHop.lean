import AnpNetstack.ArpAgreement
import AnpNetstack.RoundTrip

/-! Where ip_output sends a packet. The route is the longest that matches, although the table is not
kept in that order, and one frame goes out: to the next hop, or as a request for its address. -/
namespace AnpNetstack.Wire
open Packed FixedBuffer

section Routes
variable {daddr : UInt32} {rt : RtEntry}

def Matches (rt : RtEntry) (daddr : UInt32) : Prop := daddr &&& rt.netmask = rt.dst &&& rt.netmask

def maskLen (netmask : UInt32) : Nat := (List.range 32).countP netmask.toNat.testBit

structure LongestMatch (routes : List RtEntry) (daddr : UInt32) (rt : RtEntry) : Prop where
  mem : rt ∈ routes
  matches_addr : Matches rt daddr
  longest : ∀ other ∈ routes, Matches other daddr → maskLen other.netmask ≤ maskLen rt.netmask

def OnLink (daddr : UInt32) : Prop :=
  daddr &&& 0xff000000 = 0x7f000000 ∨ daddr &&& 0xffffff00 = 0x0a000000

instance (daddr : UInt32) : Decidable (OnLink daddr) := inferInstanceAs (Decidable (_ ∨ _))

/-- No address is in both networks, so the shorter mask may stand first. -/
theorem loopback_not_local (h : daddr &&& 0xff000000 = 0x7f000000) :
    daddr &&& 0xffffff00 ≠ 0x0a000000 := by
  intro hlocal
  have hmask : (0xffffff00 : UInt32) &&& 0xff000000 = 0xff000000 := by decide
  have hboth : (0x0a000000 : UInt32) &&& 0xff000000 = 0x7f000000 := by
    rw [← hlocal, UInt32.and_assoc, hmask]
    exact h
  exact absurd hboth (by decide)

theorem routeLookup_longest (daddr : UInt32) :
    ∃ rt, routeLookup daddr routeInit = some rt ∧ LongestMatch routeInit daddr rt ∧
      nextHop rt daddr = if OnLink daddr then daddr else 0x0a000005 := by
  have hlo : cdevLo.addr &&& 0xff000000 = 0x7f000000 := by decide
  have hext : cdevExt.addr &&& 0xffffff00 = 0x0a000000 := by decide
  have hgw : daddr &&& 0 = 0 &&& 0 := by rw [UInt32.and_zero, UInt32.and_zero]
  by_cases hloop : daddr &&& 0xff000000 = 0x7f000000
  · refine ⟨_, if_pos (hloop.trans hlo.symm), ⟨by simp [routeInit], hloop.trans hlo.symm, ?_⟩, ?_⟩
    · simp only [routeInit, List.forall_mem_cons, List.not_mem_nil, false_implies,
        implies_true, and_true]
      exact ⟨fun _ => le_refl _, fun h => absurd (h.trans hext) (loopback_not_local hloop),
        fun _ => by decide⟩
    · rw [if_pos (.inl hloop)]
      rfl
  · by_cases hlocal : daddr &&& 0xffffff00 = 0x0a000000
    · refine ⟨_, (if_neg fun h => hloop (h.trans hlo)).trans (if_pos (hlocal.trans hext.symm)),
        ⟨by simp [routeInit], hlocal.trans hext.symm, ?_⟩, ?_⟩
      · simp only [routeInit, List.forall_mem_cons, List.not_mem_nil, false_implies,
          implies_true, and_true]
        exact ⟨fun _ => by decide, fun _ => le_refl _, fun _ => by decide⟩
      · rw [if_pos (.inr hlocal)]
        rfl
    · have hoff : ¬ OnLink daddr := fun h => h.elim hloop hlocal
      refine ⟨_, (if_neg fun h => hloop (h.trans hlo)).trans
        (if_neg fun h => hlocal (h.trans hext)),
        ⟨by simp [routeInit], hgw, ?_⟩, ?_⟩
      · simp only [routeInit, List.forall_mem_cons, List.not_mem_nil, false_implies,
          implies_true, and_true]
        exact ⟨fun h => absurd (h.trans hlo) hloop, fun h => absurd (h.trans hext) hlocal,
          fun _ => le_refl _⟩
      · rw [if_neg hoff]
        rfl

theorem routeInit_alloc (h : rt ∈ routeInit) :
    ∃ hw : Buffer UInt8 6, hw.cells = rt.dev.hwaddr ∧
      rt.dev = netdevAlloc rt.dev.addr hw rt.dev.mtu := by
  simp only [routeInit, List.mem_cons, List.not_mem_nil, or_false] at h
  rcases h with rfl | rfl | rfl
  · exact ⟨⟨cdevLo.hwaddr, rfl⟩, rfl, rfl⟩
  · exact ⟨⟨cdevExt.hwaddr, rfl⟩, rfl, rfl⟩
  · exact ⟨⟨cdevExt.hwaddr, rfl⟩, rfl, rfl⟩

end Routes

section Transmit

structure TxSub where
  sub : Subuff
  room : ethHdrLen + ipHdrLen ≤ sub.data
  inside : sub.data + sub.len.toNat ≤ sub.buf.length
  size : sub.buf.length < 2 ^ 32

def sampleTxSub : TxSub where
  sub := {
    buf := List.replicate 57 0, data := 34, len := 23, protocol := ippTcp.toUInt16, dlen := 3 }
  room := by decide
  inside := by decide
  size := by decide

theorem overwrite_behind {pre buf bytes : List UInt8} (k : Nat) :
    overwrite (pre.length + k) bytes (pre ++ buf) = pre ++ overwrite k bytes buf := by
  have htake : (pre ++ buf).take (pre.length + k) = pre ++ buf.take k :=
    List.take_length_add_append k
  have hdrop : (pre ++ buf).drop (pre.length + (k + bytes.length)) = buf.drop (k + bytes.length) :=
    List.drop_length_add_append _
  rw [overwrite, overwrite, Nat.add_assoc, htake, hdrop, List.append_assoc, List.append_assoc,
    List.append_assoc]

/-- netdev_transmit does not look at what stands in front of the Ethernet header. -/
theorem netdevTransmit_behind {dev : NetDev} {sub : Subuff} {pre buf mac : List UInt8}
    {ethertype : UInt16} (hbuf : sub.buf = pre ++ buf) (hdata : sub.data = pre.length + ethHdrLen) :
    netdevTransmit dev sub mac ethertype =
      netdevTransmit dev { sub with buf := buf, data := ethHdrLen } mac ethertype := by
  have hzero (bytes buf : List UInt8) : overwrite pre.length bytes (pre ++ buf) =
      pre ++ overwrite 0 bytes buf :=
    overwrite_behind 0
  simp only [netdevTransmit, subPush, hbuf, hdata, Nat.add_sub_cancel, Nat.sub_self, hzero,
    overwrite_behind, Nat.zero_add, List.drop_left, List.drop_zero]

/-- The frame is as long as the packet and its two headers, and begins with the Ethernet header. -/
theorem netdevTransmit_header {dev : NetDev} {sub : Subuff} {mac : List UInt8} {ethertype : UInt16}
    (hroom : ethHdrLen ≤ sub.data) (hin : sub.data + sub.len.toNat ≤ sub.buf.length)
    (hmax : sub.buf.length < 2 ^ 32) (haddr : dev.addrLen = 6) (hhw : dev.hwaddr.length = 6)
    (hmac : mac.length = 6) :
    netdevTransmit dev sub mac ethertype = mac ++ (dev.hwaddr ++ (le16 (htons ethertype) ++
      (sub.buf.drop sub.data).take sub.len.toNat)) := by
  let pre := sub.buf.take (sub.data - ethHdrLen)
  let tail := sub.buf.drop (sub.data - ethHdrLen)
  let body := (sub.buf.drop sub.data).take sub.len.toNat
  have hpre : pre.length = sub.data - ethHdrLen := by
    rw [List.length_take]
    omega
  have hbody : body.length = sub.len.toNat := by
    rw [List.length_take, List.length_drop]
    omega
  have hrest : tail.drop ethHdrLen = body ++ (sub.buf.drop sub.data).drop sub.len.toNat := by
    rw [List.take_append_drop, List.drop_drop]
    congr 1
    omega
  have htail : tail = tail.take ethHdrLen ++
      (body ++ (sub.buf.drop sub.data).drop sub.len.toNat) := by
    rw [← hrest, List.take_append_drop]
  have heth : (tail.take ethHdrLen).length = 14 := by
    rw [List.length_take, List.length_drop]
    simp only [ethHdrLen] at *
    omega
  have hdata : sub.data = pre.length + ethHdrLen := by omega
  rw [netdevTransmit_behind (List.take_append_drop _ _).symm hdata]
  refine netdevTransmit_eq htail heth rfl hbody.symm ?_ haddr hhw hmac
  rw [hbody]
  simp only [ethHdrLen] at *
  omega

end Transmit

section Delivery

def tdevWrites (dev : NetDev) : Output → List (List UInt8)
  | .noRoute => []
  | .again src dst => [arpRequest src dst dev]
  | .written frame => [frame]

/-- The IP header and the packet behind it, where they are put in front of each other without a
gap. -/
def ipPacket (dev : NetDev) (daddr : UInt32) (sub : Subuff) : List UInt8 :=
  ipMem (outIphdr dev daddr (sub.len + 20).toUInt16 sub.protocol.toUInt8
    (readIp (sub.buf.drop ethHdrLen)).id) ++
    (sub.buf.drop sub.data).take sub.len.toNat

/-- The buffer in front of the IP header, the room for that header, and what is behind it. -/
theorem TxSub.split (p : TxSub) :
    let eth := p.sub.buf.take ethHdrLen
    let old := (p.sub.buf.drop ethHdrLen).take 20
    let rest := (p.sub.buf.drop ethHdrLen).drop 20
    p.sub.buf = eth ++ (old ++ rest) ∧ eth.length = ethHdrLen ∧ old.length = 20 := by
  intro eth old rest
  have hroom := p.room
  have hinside := p.inside
  simp only [ethHdrLen, ipHdrLen] at hroom
  refine ⟨?_, ?_, ?_⟩
  · rw [List.take_append_drop, List.take_append_drop]
  · rw [List.length_take, ethHdrLen]
    omega
  · rw [List.length_take, List.length_drop, ethHdrLen]
    omega

theorem TxSub.frame (p : TxSub) {dev : NetDev} {mac : List UInt8} (haddr : dev.addrLen = 6)
    (hhw : dev.hwaddr.length = 6) (hmac : mac.length = 6) (daddr : UInt32) :
    ∃ packet, netdevTransmit dev (sentSub dev daddr p.sub) mac ethPIp =
        mac ++ (dev.hwaddr ++ (le16 (htons ethPIp) ++ packet)) ∧
      packet.length = ipHdrLen + p.sub.len.toNat ∧
      (p.sub.data = ethHdrLen + ipHdrLen → packet = ipPacket dev daddr p.sub) := by
  obtain ⟨hbuf, heth, hold⟩ := p.split
  have hroom := p.room
  have hinside := p.inside
  have hsize := p.size
  simp only [ethHdrLen, ipHdrLen] at hroom
  let eth := p.sub.buf.take ethHdrLen
  let rest := (p.sub.buf.drop ethHdrLen).drop 20
  let sent := outIphdr dev daddr (p.sub.len + 20).toUInt16 p.sub.protocol.toUInt8
    (readIp (p.sub.buf.drop ethHdrLen)).id
  let sub : Subuff := { subPush p.sub ipHdrLen with buf := eth ++ (ipMem sent ++ rest) }
  have hlen : sub.len.toNat = ipHdrLen + p.sub.len.toNat := by
    have h20 : (UInt32.ofNat ipHdrLen).toNat = 20 := rfl
    have hsum : sub.len.toNat = (p.sub.len.toNat + 20) % 2 ^ 32 := by
      rw [← h20]
      exact UInt32.toNat_add _ _
    rw [hsum, ipHdrLen]
    omega
  have hsub : sub.buf.length = p.sub.buf.length := by
    rw [hbuf]
    simp only [sub, eth, rest, List.length_append, ipMem_length, hold]
  have hdata : sub.data = p.sub.data - 20 := rfl
  have hframe : netdevTransmit dev sub mac ethPIp =
      mac ++ (dev.hwaddr ++ (le16 (htons ethPIp) ++ (sub.buf.drop sub.data).take sub.len.toNat)) :=
    netdevTransmit_header (by rw [hdata, ethHdrLen]; omega)
      (by rw [hsub, hlen, hdata, ipHdrLen]; omega) (by rw [hsub]; exact hsize) haddr hhw hmac
  refine ⟨(sub.buf.drop sub.data).take sub.len.toNat, ?_, ?_, fun h34 => ?_⟩
  · rw [sentSub_buf dev daddr hbuf heth hold]
    exact hframe
  · rw [List.length_take, List.length_drop, hsub, hlen, hdata, ipHdrLen]
    omega
  · have hfront : sub.buf.drop sub.data = ipMem sent ++ rest := by
      rw [hdata, h34]
      exact drop_middle heth
    have hbehind : p.sub.buf.drop p.sub.data = rest := by
      rw [h34, ← List.drop_drop]
      rfl
    have hmem : (ipMem sent).length = ipHdrLen := ipMem_length sent
    rw [hfront, hlen, ipPacket, hbehind, ← hmem]
    exact List.take_length_add_append _

theorem next_hop_delivery (cache : List ArpCacheEntry) (daddr : UInt32) (p : TxSub) :
    ∃ rt, routeLookup daddr routeInit = some rt ∧ LongestMatch routeInit daddr rt ∧
      let hop := if OnLink daddr then daddr else 0x0a000005
      let out := ipOutput routeInit cache daddr p.sub
      match arpGetHwaddr cache hop with
      | some mac =>
        ∃ packet, out = .written (mac ++ (rt.dev.hwaddr ++ (le16 (htons ethPIp) ++ packet))) ∧
          tdevWrites rt.dev out = [mac ++ (rt.dev.hwaddr ++ (le16 (htons ethPIp) ++ packet))] ∧
          packet.length = ipHdrLen + p.sub.len.toNat ∧
          (p.sub.data = ethHdrLen + ipHdrLen → packet = ipPacket rt.dev daddr p.sub)
      | none => out = .again rt.dev.addr hop ∧ ∃ hw : Buffer UInt8 6, hw.cells = rt.dev.hwaddr ∧
          tdevWrites rt.dev out = [arpFrame broadcastHw hw.cells arpRequestOp
            { srcMac := hw, srcIp := rt.dev.addr, dstMac := broadcastMac, dstIp := hop }] := by
  obtain ⟨rt, hrt, hlong, hhop⟩ := routeLookup_longest daddr
  obtain ⟨haddr, hhw⟩ := routeInit_dev hlong.mem
  refine ⟨rt, hrt, hlong, ?_⟩
  intro hop out
  have hout : out = match arpGetHwaddr cache hop with
      | some mac => .written (netdevTransmit rt.dev (sentSub rt.dev daddr p.sub) mac ethPIp)
      | none => .again rt.dev.addr hop := by
    obtain ⟨hbuf, heth, hold⟩ := p.split
    have h := ipOutput_eq cache hrt hbuf heth hold
    rw [hhop] at h
    exact h
  cases hmac : arpGetHwaddr cache hop with
  | none =>
    simp only [hmac] at hout
    obtain ⟨hw, hcells, hdev⟩ := routeInit_alloc hlong.mem
    refine ⟨hout, hw, hcells, ?_⟩
    have hreq := arpRequest_eq rt.dev.addr hop rt.dev.addr hw rt.dev.mtu
    rw [← hdev] at hreq
    rw [hout, tdevWrites, hreq]
    rfl
  | some mac =>
    obtain ⟨packet, hframe, hlen, hpacket⟩ := p.frame haddr hhw (arpGetHwaddr_length hmac) daddr
    simp only [hmac, hframe] at hout
    exact ⟨packet, hout, by rw [hout, tdevWrites], hlen, hpacket⟩

theorem next_hop_delivery_sample :
    ∃ packet, ipOutput routeInit sampleCache 0x0a000105 sampleTxSub.sub =
        .written ([1, 2, 3, 4, 5, 6] ++ (cdevExt.hwaddr ++ (le16 (htons ethPIp) ++ packet))) ∧
      packet = ipPacket cdevExt 0x0a000105 sampleTxSub.sub := by
  obtain ⟨rt, hrt, -, hout⟩ := next_hop_delivery sampleCache 0x0a000105 sampleTxSub
  have hdev : rt.dev = cdevExt := by
    have hroute : (routeLookup 0x0a000105 routeInit).map RtEntry.dev = some cdevExt := by
      decide +kernel
    rw [hrt] at hroute
    exact Option.some.inj hroute
  obtain ⟨packet, hwritten, -, -, hpacket⟩ := hout
  rw [hdev] at hwritten hpacket
  exact ⟨packet, hwritten, hpacket rfl⟩

end Delivery
end AnpNetstack.Wire
