import AnpNetstack.Arp

/-! Two stacks resolve each other's address. A request is read by the other side as it was built,
the reply that is written over it is read by the first side in the same way, and both caches take
the sender's pair of addresses whatever they held before. -/
namespace AnpNetstack.Wire
open Packed FixedBuffer Runs

section Mem

@[simp] theorem readArpHdr_mem (h : ArpHdr) (rest : List UInt8) :
    readArpHdr (arpHdrMem h ++ rest) = h := by
  simp [readArpHdr, arpHdrMem, le16]

theorem readMac_append (mac : Buffer UInt8 6) (rest : List UInt8) :
    readMac (mac.cells ++ rest) = mac := by
  rw [readMac, List.take_left' mac.size]
  exact Buffer.copyTo_whole _ mac

@[simp] theorem readArpIpv4_mem (d : ArpIpv4) (rest : List UInt8) :
    readArpIpv4 (arpIpv4Mem d ++ rest) = d := by
  have h6 : (arpIpv4Mem d ++ rest).drop 6 =
      le32 d.srcIp ++ (d.dstMac.cells ++ (le32 d.dstIp ++ rest)) := by
    simp only [arpIpv4Mem, List.append_assoc]
    exact drop_middle d.srcMac.size
  have h10 : (arpIpv4Mem d ++ rest).drop 10 = d.dstMac.cells ++ (le32 d.dstIp ++ rest) := by
    rw [← List.drop_drop (i := 4) (j := 6), h6]
    rfl
  have h16 : (arpIpv4Mem d ++ rest).drop 16 = le32 d.dstIp ++ rest := by
    rw [← List.drop_drop (i := 6) (j := 10), h10]
    exact drop_middle d.dstMac.size
  have hsrc : readMac (arpIpv4Mem d ++ rest) = d.srcMac := by
    simp only [arpIpv4Mem, List.append_assoc]
    exact readMac_append d.srcMac _
  simp only [readArpIpv4, h6, h10, h16, hsrc, readMac_append]
  simp [le32]

@[simp] theorem arpHdrMem_length (h : ArpHdr) : (arpHdrMem h).length = 8 := rfl

@[simp] theorem arpIpv4Mem_length (d : ArpIpv4) : (arpIpv4Mem d).length = 20 := by
  simp [arpIpv4Mem, d.srcMac.size, d.dstMac.size, le32]

end Mem

def arpPacket (opcode : UInt16) (d : ArpIpv4) : List UInt8 :=
  arpHdrMem { hwtype := htons arpEthernet, protype := htons arpIpv4, hwsize := 6, prosize := 4
              opcode := htons opcode } ++
    arpIpv4Mem { d with srcIp := htonl d.srcIp, dstIp := htonl d.dstIp }

def arpFrame (dmac smac : List UInt8) (opcode : UInt16) (d : ArpIpv4) : List UInt8 :=
  dmac ++ (smac ++ (le16 (htons ethPArp) ++ arpPacket opcode d))

@[simp] theorem arpPacket_length (opcode : UInt16) (d : ArpIpv4) :
    (arpPacket opcode d).length = 28 := by
  simp [arpPacket]

theorem storeArpHdr_buf {sub : Subuff} {eth old rest : List UInt8}
    (hbuf : sub.buf = eth ++ (old ++ rest)) (heth : eth.length = ethHdrLen) (hold : old.length = 8)
    (h : ArpHdr) :
    storeArpHdr sub h = { sub with buf := eth ++ (arpHdrMem h ++ rest) } := by
  simp only [storeArpHdr, hbuf]
  rw [overwrite_middle heth (by simp [hold])]

theorem storeArpIpv4_buf {sub : Subuff} {eth hdr old rest : List UInt8}
    (hbuf : sub.buf = eth ++ (hdr ++ (old ++ rest))) (heth : eth.length = ethHdrLen)
    (hhdr : hdr.length = arpHdrLen) (hold : old.length = 20) (d : ArpIpv4) :
    storeArpIpv4 sub d = { sub with buf := eth ++ (hdr ++ (arpIpv4Mem d ++ rest)) } := by
  have hfront : (eth ++ hdr).length = ethHdrLen + arpHdrLen := by simp [heth, hhdr]
  simp only [storeArpIpv4, hbuf]
  rw [← List.append_assoc, overwrite_middle hfront (by simp [hold]), List.append_assoc]

theorem netdevTransmit_arp {addr : UInt32} {hw mac : Buffer UInt8 6} {mtu : UInt32} {sub : Subuff}
    {eth rest : List UInt8} {opcode : UInt16} {d : ArpIpv4}
    (hbuf : sub.buf = eth ++ (arpPacket opcode d ++ rest)) (heth : eth.length = ethHdrLen)
    (hdata : sub.data = 14) (hlen : sub.len = 28) :
    netdevTransmit (netdevAlloc addr hw mtu) sub mac.cells ethPArp =
      arpFrame mac.cells hw.cells opcode d := by
  refine netdevTransmit_eq hbuf heth hdata ?_ ?_ rfl hw.size mac.size
  · rw [hlen, arpPacket_length]
    rfl
  · rw [arpPacket_length]
    decide

def broadcastMac : Buffer UInt8 6 := ⟨broadcastHw, rfl⟩

theorem arpRequest_eq (srcIp dstIp addr : UInt32) (hw : Buffer UInt8 6) (mtu : UInt32) :
    arpRequest srcIp dstIp (netdevAlloc addr hw mtu) =
      arpFrame broadcastMac.cells hw.cells arpRequestOp
      { srcMac := hw, srcIp := srcIp, dstMac := broadcastMac, dstIp := dstIp } := by
  have hn : (netdevAlloc addr hw mtu).addrLen.toNat = 6 := rfl
  have hhw : (netdevAlloc addr hw mtu).hwaddr.take 6 = hw.cells :=
    List.take_of_length_le (by rw [← hw.size]; rfl)
  have hcast : broadcastHw.take 6 = broadcastMac.cells := rfl
  let d : ArpIpv4 := { srcMac := hw, srcIp := srcIp, dstMac := broadcastMac, dstIp := dstIp }
  let h : ArpHdr :=
    { opcode := htons arpRequestOp, hwtype := htons arpEthernet, protype := htons ethPIp,
      hwsize := 6, prosize := 4 }
  let sub := subPush (subPush allocArpSub arpDataLen) arpHdrLen
  have hbuf : sub.buf = List.replicate 14 0 ++
      (List.replicate 8 0 ++ (List.replicate 20 0 ++ [])) := rfl
  have hstore : storeArpIpv4 (storeArpHdr sub h) { d with
      srcIp := htonl srcIp, dstIp := htonl dstIp } =
      { sub with buf := List.replicate 14 0 ++ (arpPacket arpRequestOp d ++ []) } := by
    rw [storeArpHdr_buf hbuf rfl rfl, storeArpIpv4_buf rfl rfl rfl rfl, arpPacket,
      List.append_assoc]
    rfl
  have hreq : arpRequest srcIp dstIp (netdevAlloc addr hw mtu) =
      netdevTransmit (netdevAlloc addr hw mtu)
        (storeArpIpv4 (storeArpHdr sub h) { d with srcIp := htonl srcIp, dstIp := htonl dstIp })
          broadcastMac.cells
        ethPArp := by
    simp only [arpRequest, hn, hhw, hcast, Buffer.copyTo_whole]
    rfl
  rw [hreq, hstore]
  exact netdevTransmit_arp rfl rfl rfl rfl

theorem arpReply_eq {sub : Subuff} {eth rest : List UInt8} {h : ArpHdr} {d : ArpIpv4}
    (hbuf : sub.buf = eth ++ (arpHdrMem h ++ (arpIpv4Mem d ++ rest)))
    (heth : eth.length = ethHdrLen) (hdata : sub.data = 0) (hlen : sub.len = 0)
    (hhw : h.hwtype = arpEthernet) (hpro : h.protype = arpIpv4) (hhs : h.hwsize = 6)
    (hps : h.prosize = 4) (addr : UInt32) (hw : Buffer UInt8 6) (mtu : UInt32) :
    arpReply sub (netdevAlloc addr hw mtu) = arpFrame d.srcMac.cells hw.cells arpReplyOp
      { srcMac := hw, srcIp := addr, dstMac := d.srcMac, dstIp := d.srcIp } := by
  let d' : ArpIpv4 := { srcMac := hw, srcIp := addr, dstMac := d.srcMac, dstIp := d.srcIp }
  let h' : ArpHdr :=
    { opcode := htons arpReplyOp, hwtype := htons arpEthernet, protype := htons arpIpv4,
      hwsize := 6, prosize := 4 }
  let sub' := subPush (subReserve sub (ethHdrLen + arpHdrLen + arpDataLen)) (arpHdrLen + arpDataLen)
  have hcopy : (netdevAlloc addr hw mtu).hwaddr.take 6 = hw.cells :=
    List.take_of_length_le (by rw [← hw.size]; rfl)
  have hhdr : readArpHdr (sub.buf.drop ethHdrLen) = h := by
    rw [hbuf, drop_middle heth, readArpHdr_mem]
  have hread : readArpIpv4 (sub'.buf.drop (ethHdrLen + arpHdrLen)) = d := by
    have hfront : (eth ++ arpHdrMem h).length = ethHdrLen + arpHdrLen := by simp [heth, arpHdrLen]
    have hbuf' : sub'.buf = eth ++ arpHdrMem h ++ (arpIpv4Mem d ++ rest) := by
      rw [List.append_assoc]
      exact hbuf
    rw [hbuf', drop_middle hfront, readArpIpv4_mem]
  have hstore : storeArpIpv4 (storeArpHdr sub' h') { d' with
      srcIp := htonl addr, dstIp := htonl d.srcIp } =
      { sub' with buf := eth ++ (arpPacket arpReplyOp d' ++ rest) } := by
    have hbuf' : sub'.buf = eth ++ (arpHdrMem h ++ (arpIpv4Mem d ++ rest)) := hbuf
    rw [storeArpHdr_buf hbuf' heth (arpHdrMem_length h),
      storeArpIpv4_buf rfl heth rfl (arpIpv4Mem_length d), arpPacket, List.append_assoc]
  have hreply : arpReply sub (netdevAlloc addr hw mtu) =
      netdevTransmit (netdevAlloc addr hw mtu)
        (storeArpIpv4 (storeArpHdr sub' h') { d' with srcIp := htonl addr, dstIp := htonl d.srcIp })
        d.srcMac.cells ethPArp := by
    simp only [arpReply, hhdr, hhw, hpro, hhs, hps]
    rw [hread]
    simp only [hcopy, Buffer.copyTo_whole]
    rfl
  rw [hreply, hstore]
  refine netdevTransmit_arp rfl heth ?_ ?_
  · simp [sub', subPush, subReserve, hdata, ethHdrLen, arpHdrLen, arpDataLen]
  · simp [sub', subPush, subReserve, hlen, arpHdrLen, arpDataLen]

/-- arp_rx on a packet between Ethernet and IPv4 addresses: the sender goes into the cache, and a
request for the stack's own address is answered. -/
theorem arpRx_packet {sub : Subuff} {eth rest : List UInt8} {opcode : UInt16} {d : ArpIpv4}
    (hbuf : sub.buf = eth ++ (arpPacket opcode d ++ rest)) (heth : eth.length = ethHdrLen)
    (hdata : sub.data = 0) (hlen : sub.len = 0) (cache : List ArpCacheEntry) (addr : UInt32)
    (hw : Buffer UInt8 6) (mtu : UInt32) :
    arpRx (netdevAlloc addr hw mtu) cache sub =
      (processArpEntry d cache,
        if opcode = arpRequestOp ∧ addr = d.dstIp then
          [arpFrame d.srcMac.cells hw.cells arpReplyOp
            { srcMac := hw, srcIp := addr, dstMac := d.srcMac, dstIp := d.srcIp }]
        else []) := by
  let h : ArpHdr :=
    { hwtype := htons arpEthernet, protype := htons arpIpv4, hwsize := 6, prosize := 4,
      opcode := htons opcode }
  let h' : ArpHdr :=
    { hwtype := arpEthernet, protype := arpIpv4, hwsize := 6, prosize := 4, opcode := opcode }
  let n : ArpIpv4 := { d with srcIp := htonl d.srcIp, dstIp := htonl d.dstIp }
  have hmem : sub.buf = eth ++ (arpHdrMem h ++ (arpIpv4Mem n ++ rest)) := by
    rw [hbuf, arpPacket, List.append_assoc]
  have hfront : (eth ++ arpHdrMem h').length = ethHdrLen + arpHdrLen := by simp [heth, arpHdrLen]
  have hhdr : readArpHdr (sub.buf.drop ethHdrLen) = h := by
    rw [hmem, drop_middle heth, readArpHdr_mem]
  have hstore := storeArpHdr_buf hmem heth rfl h'
  have hread : readArpIpv4 ((storeArpHdr sub h').buf.drop (ethHdrLen + arpHdrLen)) = n := by
    rw [hstore, ← List.append_assoc, drop_middle hfront, readArpIpv4_mem]
  have hhost : storeArpIpv4 (storeArpHdr sub h') d =
      { sub with buf := eth ++ (arpHdrMem h' ++ (arpIpv4Mem d ++ rest)) } := by
    rw [hstore]
    exact storeArpIpv4_buf rfl heth rfl (arpIpv4Mem_length n) d
  let host : Subuff := { sub with buf := eth ++ (arpHdrMem h' ++ (arpIpv4Mem d ++ rest)) }
  have hreply : arpReply host (netdevAlloc addr hw mtu) =
      arpFrame d.srcMac.cells hw.cells arpReplyOp
      { srcMac := hw, srcIp := addr, dstMac := d.srcMac, dstIp := d.srcIp } := by
    have hmem' : host.buf = eth ++ (arpHdrMem h' ++ (arpIpv4Mem d ++ rest)) := rfl
    exact arpReply_eq hmem' heth hdata hlen rfl rfl rfl rfl addr hw mtu
  have haddr : (netdevAlloc addr hw mtu).addr = addr := rfl
  have hhw : ntohs h.hwtype = arpEthernet := ntohs_htons _
  have hpro : ntohs h.protype = arpIpv4 := ntohs_htons _
  have hop : ntohs h.opcode = opcode := ntohs_htons _
  have hsrc : ntohl n.srcIp = d.srcIp := ntohl_htonl _
  have hdst : ntohl n.dstIp = d.dstIp := ntohl_htonl _
  simp only [arpRx, hhdr, hhw, hpro, hop, ne_eq, not_true_eq_false, if_false]
  rw [hread]
  simp only [hsrc, hdst]
  have hd : ArpIpv4.mk n.srcMac d.srcIp n.dstMac d.dstIp = d := rfl
  rw [hd, hhost, hreply, haddr]
  by_cases hreq : opcode = arpRequestOp
  · by_cases hip : addr = d.dstIp
    · rw [if_pos hip, if_pos hreq, if_pos ⟨hreq, hip⟩]
    · rw [if_neg hip, if_pos hreq, if_neg fun h => hip h.2]
  · rw [if_neg hreq, if_neg fun h => hreq h.1]

theorem arpInput_frame (cache : List ArpCacheEntry) {dmac smac : List UInt8} (hd : dmac.length = 6)
    (hs : smac.length = 6) (opcode : UInt16) (d : ArpIpv4) (addr : UInt32) (hw : Buffer UInt8 6)
    (mtu : UInt32) :
    arpInput (netdevAlloc addr hw mtu) cache (arpFrame dmac smac opcode d) =
      (processArpEntry d cache,
        if opcode = arpRequestOp ∧ addr = d.dstIp then
          [arpFrame d.srcMac.cells hw.cells arpReplyOp
            { srcMac := hw, srcIp := addr, dstMac := d.srcMac, dstIp := d.srcIp }]
        else []) := by
  have hframe : (arpFrame dmac smac opcode d).length = 42 := by
    simp only [arpFrame, List.length_append, hd, hs, arpPacket_length]
    rfl
  have hmacs : (dmac ++ smac).length = 12 := by simp [hd, hs]
  have heth : (dmac ++ smac ++ le16 ethPArp).length = ethHdrLen := by
    rw [List.length_append, hmacs]
    rfl
  have hbytes (rest : List UInt8) : arpFrame dmac smac opcode d ++ rest =
      dmac ++ smac ++ (le16 (htons ethPArp) ++ (arpPacket opcode d ++ rest)) := by
    simp only [arpFrame, List.append_assoc]
  simp only [arpInput, read_frame (by rw [hframe]; decide), hbytes, ethHdr_frame hmacs, if_true]
  exact arpRx_packet (List.append_assoc _ _ _).symm heth rfl rfl cache addr hw mtu

section Cache
variable {cache : List ArpCacheEntry}

def Resolved (cache : List ArpCacheEntry) : Prop := ∀ entry ∈ cache, entry.state = .resolved

theorem Resolved.processArpEntry (h : Resolved cache) (d : ArpIpv4) :
    Resolved (processArpEntry d cache) := by
  induction cache with
  | nil => simp [Resolved, Wire.processArpEntry]
  | cons entry cache ih =>
    have hentry := h entry (by simp)
    have hrest : Resolved cache := fun x hx => h x (List.mem_cons_of_mem entry hx)
    simp only [Wire.processArpEntry]
    split_ifs
    · intro x hx
      cases List.mem_cons.mp hx with
      | inl hx => exact hx ▸ hentry
      | inr hx => exact hrest x hx
    · intro x hx
      cases List.mem_cons.mp hx with
      | inl hx => exact hx ▸ hentry
      | inr hx => exact ih hrest x hx

theorem Resolved.arpInput (h : Resolved cache) (netdev : NetDev) (frame : List UInt8) :
    Resolved (arpInput netdev cache frame).1 := by
  simp only [Wire.arpInput, arpRx]
  split_ifs
  · exact h
  · exact h
  · exact h.processArpEntry _
  · exact h.processArpEntry _
  · exact h.processArpEntry _
  · exact h

theorem resolved_cacheAfter (netdev : NetDev) (frames : List (List UInt8)) :
    Resolved (cacheAfter netdev frames) := by
  refine run_invariant _ (P := fun _ _ => True) (fun cache frame h _ => h.arpInput netdev frame) ?_
    (along_of_forall _ (fun _ _ _ => trivial) _)
  simp [Resolved]

theorem arpGetHwaddr_same (h : Resolved cache) (d : ArpIpv4) :
    arpGetHwaddr (processArpEntry d cache) d.srcIp = some d.srcMac.cells := by
  induction cache with
  | nil => simp [processArpEntry, arpGetHwaddr]
  | cons entry cache ih =>
    have hentry := h entry (by simp)
    have hrest : Resolved cache := fun x hx => h x (List.mem_cons_of_mem entry hx)
    by_cases hip : entry.srcIp = d.srcIp
    · simp [processArpEntry, arpGetHwaddr, hip, hentry]
    · simp [processArpEntry, arpGetHwaddr, hip, ih hrest]

theorem arpGetHwaddr_other (d : ArpIpv4) {ip : UInt32} (hip : ip ≠ d.srcIp) :
    arpGetHwaddr (processArpEntry d cache) ip = arpGetHwaddr cache ip := by
  induction cache with
  | nil => simp [processArpEntry, arpGetHwaddr, Ne.symm hip]
  | cons entry cache ih =>
    by_cases hentry : entry.srcIp = d.srcIp
    · have hne : entry.srcIp ≠ ip := by
        rw [hentry]
        exact Ne.symm hip
      simp [processArpEntry, arpGetHwaddr, hentry, Ne.symm hip]
    · simp [processArpEntry, arpGetHwaddr, hentry, ih]

end Cache

/-- A request and its reply leave each side with the address of the other and all else as it was.
`heardA` and `heardB` are the frames that have made the caches what they are. -/
theorem arp_resolution (addrA addrB : UInt32) (hwA hwB : Buffer UInt8 6) (mtuA mtuB : UInt32)
    (heardA heardB : List (List UInt8)) :
    let devA := netdevAlloc addrA hwA mtuA
    let devB := netdevAlloc addrB hwB mtuB
    let cacheA := cacheAfter devA heardA
    let cacheB := cacheAfter devB heardB
    let b := arpInput devB cacheB (arpRequest addrA addrB devA)
    ∃ reply, b.2 = [reply] ∧
      reply = arpFrame hwA.cells hwB.cells arpReplyOp
        { srcMac := hwB, srcIp := addrB, dstMac := hwA, dstIp := addrA } ∧
      let a := arpInput devA cacheA reply
      a.2 = [] ∧ arpGetHwaddr a.1 addrB = some hwB.cells ∧ arpGetHwaddr b.1 addrA = some hwA.cells ∧
      (∀ ip, ip ≠ addrB → arpGetHwaddr a.1 ip = arpGetHwaddr cacheA ip) ∧
      ∀ ip, ip ≠ addrA → arpGetHwaddr b.1 ip = arpGetHwaddr cacheB ip := by
  intro devA devB cacheA cacheB b
  let request : ArpIpv4 := { srcMac := hwA, srcIp := addrA, dstMac := broadcastMac, dstIp := addrB }
  let answer : ArpIpv4 := { srcMac := hwB, srcIp := addrB, dstMac := hwA, dstIp := addrA }
  have hb : b = (processArpEntry request cacheB,
      [arpFrame hwA.cells hwB.cells arpReplyOp answer]) := by
    simp only [b, devA, devB, arpRequest_eq]
    rw [arpInput_frame cacheB broadcastMac.size hwA.size]
    simp only [request, answer, and_self, if_true]
  have hnot : ¬ (arpReplyOp = arpRequestOp ∧ addrA = answer.dstIp) :=
    fun h => absurd h.1 (by decide)
  have ha := arpInput_frame cacheA hwA.size hwB.size arpReplyOp answer addrA hwA mtuA
  rw [if_neg hnot] at ha
  refine ⟨arpFrame hwA.cells hwB.cells arpReplyOp answer, by rw [hb], rfl, ?_⟩
  intro a
  have ha : a = (processArpEntry answer cacheA, []) := ha
  rw [ha, hb]
  exact ⟨rfl, arpGetHwaddr_same (resolved_cacheAfter devA heardA) answer,
    arpGetHwaddr_same (resolved_cacheAfter devB heardB) request,
    fun ip hip => arpGetHwaddr_other answer hip, fun ip hip => arpGetHwaddr_other request hip⟩

end AnpNetstack.Wire
