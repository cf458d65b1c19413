import AnpNetstack.Wire
import AnpNetstack.ReceiveStream

/-! A frame that is sent decodes to what was put into it. The headers are read back from the bytes
they were stored in, each field swapped as often on one side as on the other, and the sum that
ip_send_check stores makes the sum over the header come out as zero. -/
namespace AnpNetstack.Wire
open Packed FixedBuffer

section ByteOrder

theorem le16_htons (x : UInt16) : le16 (htons x) = be16 x := by
  have hx := x.toNat_lt
  have hhigh : (htons x).toNat / 256 = x.toNat % 256 := by
    rw [htons_toNat]
    omega
  simp only [le16, be16, List.cons.injEq, and_true]
  constructor
  · rw [← UInt8.toNat_inj]
    simp [htons_toNat, Nat.shiftRight_eq_div_pow]
  · rw [← UInt8.toNat_inj]
    simp [hhigh, Nat.shiftRight_eq_div_pow]

theorem le32_htonl (x : UInt32) : le32 (htonl x) = be32 x := by
  have hx := x.toNat_lt
  obtain ⟨h0, h1, h2, h3⟩ := htonl_bytes x
  simp only [le32, be32, List.cons.injEq, and_true]
  refine ⟨?_, ?_, ?_, ?_⟩
  · rw [← UInt8.toNat_inj]
    simp [Nat.shiftRight_eq_div_pow, h0]
    omega
  · rw [← UInt8.toNat_inj]
    simp [Nat.shiftRight_eq_div_pow, h1]
  · rw [← UInt8.toNat_inj]
    simp [Nat.shiftRight_eq_div_pow, h2]
  · rw [← UInt8.toNat_inj]
    simp [Nat.shiftRight_eq_div_pow, h3]

theorem le16_eq (x : UInt16) : le16 x = be16 (ntohs x) := by
  rw [← le16_htons]
  exact congrArg le16 (ntohs_htons x).symm

theorem le32_eq (x : UInt32) : le32 x = be32 (ntohl x) := by
  rw [← le32_htonl]
  exact congrArg le32 (ntohl_htonl x).symm

end ByteOrder

section Headers

@[simp] theorem tcpMem_length (h : TcpHdr) : (tcpMem h).length = 20 := rfl

@[simp] theorem ipMem_length (ih : Iphdr) : (ipMem ih).length = 20 := rfl

@[simp] theorem readTcp_tcpMem (h : TcpHdr) (rest : List UInt8) :
    readTcp (tcpMem h ++ rest) = h := by
  simp [readTcp, tcpMem, le16, le32]

@[simp] theorem readIp_ipMem (ih : Iphdr) (rest : List UInt8) : readIp (ipMem ih ++ rest) = ih := by
  have hv := ih.version.isLt
  have hi := ih.ihl.isLt
  have hlow : (ih.version.val * 16 + ih.ihl.val) % 256 % 16 = ih.ihl.val := by omega
  have hhigh : (ih.version.val * 16 + ih.ihl.val) % 256 / 16 = ih.version.val := by omega
  simp [readIp, ipMem, le16, le32, hlow, hhigh]

theorem tcpMem_eq (h : TcpHdr) : tcpMem h = (hostTcp h).bytes := by
  simp only [tcpMem, TcpHdr.bytes, hostTcp, le16_eq, le32_eq]

end Headers

section HeaderChecksum

theorem sum_le16 (x : UInt16) (rest : List UInt8) :
    sumEvery16bits (le16 x ++ rest) = x.toUInt32 + sumEvery16bits rest := by
  have hx := x.toNat_lt
  have hword : x.toUInt8.toUInt32 + (256 : UInt32) * (x >>> 8).toUInt8.toUInt32 = x.toUInt32 := by
    rw [← UInt32.toNat_inj]
    simp [Nat.shiftRight_eq_div_pow]
    omega
  simp only [le16, List.cons_append, List.nil_append, sumEvery16bits, hword]

/-- With the sum over a zero field stored in that field, everything sums up to zero. -/
theorem doCsum_stored {pre : List UInt8} (hpre : pre.length % 2 = 0) (post : List UInt8) :
    doCsum (pre ++ (le16 (doCsum (pre ++ (le16 0 ++ post)) 0) ++ post)) 0 = 0 := by
  have hfield (c : UInt16) : sumEvery16bits (pre ++ (le16 c ++ post)) =
      sumEvery16bits (pre ++ (le16 0 ++ post)) + c.toUInt32 := by
    have hzero : (0 : UInt16).toUInt32 = 0 := rfl
    rw [sumEvery16bits_append hpre, sumEvery16bits_append hpre, sum_le16, sum_le16, hzero,
      UInt32.zero_add]
    ac_rfl
  rw [doCsum, hfield]
  simp only [doCsum, UInt32.zero_add]
  exact csum_complement _

/-- With the sum that ip_send_check stores, the header sums up to zero. -/
theorem doCsum_header (ih : Iphdr) (h : ih.csum = 0) :
    doCsum (ipMem { ih with csum := doCsum (ipMem ih) 0 }) 0 = 0 := by
  obtain ⟨pre, post, hpre, hmem⟩ : ∃ pre post : List UInt8, pre.length % 2 = 0 ∧
      ∀ c, ipMem { ih with csum := c } = pre ++ (le16 c ++ post) :=
    ⟨(ipMem ih).take 10, (ipMem ih).drop 12, by simp, fun c => rfl⟩
  have hih : ipMem ih = pre ++ (le16 0 ++ post) := by rw [← hmem, ← h]
  rw [hmem, hih]
  exact doCsum_stored hpre post

end HeaderChecksum

section Send

def txHeader (tcb : Tcb) (flags : UInt8) : TcpHdr where
  srcPort := htons tcb.localPort
  dstPort := htons tcb.remotePort
  seqNum := htonl tcb.sndNxt
  ackNum := htonl tcb.rcvNxt
  dataOffset := tcpMinDataOffset
  flags := flags
  windowSize := htons (htons 65535)
  checksum := 0
  urgentPtr := 0

def txCsum (tcb : Tcb) (text : List UInt8) (flags : UInt8) : UInt16 :=
  doTcpCsum (tcpMem (txHeader tcb flags) ++ text) (20 + text.length) (htons ippTcp.toUInt16)
    (htonl tcb.localIp) (htonl tcb.remoteIp)

theorem hostTcp_txHeader (tcb : Tcb) (flags : UInt8) (csum : UInt16) :
    hostTcp { txHeader tcb flags with checksum := csum } =
      { srcPort := tcb.localPort, dstPort := tcb.remotePort, seqNum := tcb.sndNxt
        ackNum := tcb.rcvNxt, dataOffset := tcpMinDataOffset, flags := flags, windowSize := 65535
        checksum := htons csum, urgentPtr := 0 } := by
  have hw : ntohs (htons (htons 65535)) = 65535 := by decide
  have hu : ntohs 0 = 0 := by decide
  simp [hostTcp, txHeader, hw, hu]
  rfl

/-- The segment of create_tcp_packet stands at the end of its buffer, in network order. -/
theorem createTcpPacket_sub (tcb : Tcb) (data : List UInt8) (dataLen : UInt32) (flags : UInt8)
    (hlen : dataLen.toNat ≤ data.length) :
    let text := data.take dataLen.toNat
    (createTcpPacket tcb data dataLen flags).1 =
      { buf := List.replicate 34 0 ++
          (tcpMem { txHeader tcb flags with checksum := txCsum tcb text flags } ++ text)
        data := 34, len := 20 + dataLen, protocol := ippTcp.toUInt16, dlen := dataLen } := by
  intro text
  have hn : text.length = dataLen.toNat := by simpa [text] using hlen
  have htake : data.take dataLen.toNat = text := rfl
  clear_value text
  have hsize : ethHdrLen + ipHdrLen + tcpHdrLen + dataLen.toNat = 34 + (20 + dataLen.toNat) := by
    simp only [ethHdrLen, ipHdrLen, tcpHdrLen]
    omega
  have hbuf : List.replicate (34 + (20 + dataLen.toNat)) (0 : UInt8) =
      List.replicate 34 0 ++ (List.replicate 20 0 ++ List.replicate dataLen.toNat 0) := by
    simp [List.replicate_add]
  have hdata : 0 + (34 + (20 + dataLen.toNat)) - (tcpHdrLen + dataLen.toNat) = 34 := by
    simp only [tcpHdrLen]
    omega
  have hstore {old rest : List UInt8} (hold : old.length = 20) (h : TcpHdr) :
      overwrite 34 (tcpMem h) (List.replicate 34 0 ++ (old ++ rest)) =
        List.replicate 34 0 ++ (tcpMem h ++ rest) :=
    overwrite_middle (by simp) (by simp [hold])
  have htext (h : TcpHdr) :
      overwrite (34 + tcpHdrLen) text (List.replicate 34 0 ++
        (tcpMem h ++ List.replicate dataLen.toNat 0)) =
        List.replicate 34 0 ++ (tcpMem h ++ text) := by
    have hpre : (List.replicate 34 0 ++ tcpMem h).length = 34 + tcpHdrLen := by simp [tcpHdrLen]
    have hold : text.length = (List.replicate dataLen.toNat (0 : UInt8)).length := by simpa using hn
    simpa using overwrite_middle (b := []) hpre hold
  have hdrop (h : TcpHdr) :
      (List.replicate 34 0 ++ (tcpMem h ++ text)).drop 34 = tcpMem h ++ text :=
        drop_middle (by simp)
  simp only [createTcpPacket, hsize, subPush, subReserve, allocSub, hbuf, hdata, storeTcp,
    htake, hstore, List.length_replicate, htext, hdrop, txCsum, hn]
  rfl

theorem storeIp_buf {sub : Subuff} {eth old rest : List UInt8}
    (hbuf : sub.buf = eth ++ (old ++ rest)) (heth : eth.length = ethHdrLen) (hold : old.length = 20)
    (ih : Iphdr) :
    storeIp sub ih = { sub with buf := eth ++ (ipMem ih ++ rest) } := by
  simp only [storeIp, hbuf]
  rw [overwrite_middle heth (by simp [hold])]

theorem ipSendCheck_buf {sub : Subuff} {eth rest : List UInt8} {ih : Iphdr}
    (hbuf : sub.buf = eth ++ (ipMem ih ++ rest)) (heth : eth.length = ethHdrLen)
    (hihl : ih.ihl = 5) :
    ipSendCheck sub =
      { sub with buf := eth ++ (ipMem { ih with csum := doCsum (ipMem ih) 0 } ++ rest) } := by
  have hdrop : sub.buf.drop ethHdrLen = ipMem ih ++ rest := by
    rw [hbuf]
    exact drop_middle heth
  have htake : (ipMem ih ++ rest).take (ih.ihl.val * 4) = ipMem ih := by
    rw [hihl]
    exact List.take_left' (ipMem_length ih)
  simp only [ipSendCheck, hdrop, readIp_ipMem, htake]
  exact storeIp_buf hbuf heth (ipMem_length ih) _

theorem arpGetHwaddr_length {cache : List ArpCacheEntry} {lookupIp : UInt32} {mac : List UInt8}
    (h : arpGetHwaddr cache lookupIp = some mac) : mac.length = 6 := by
  induction cache with
  | nil => simp [arpGetHwaddr] at h
  | cons entry cache ih =>
    simp only [arpGetHwaddr] at h
    split_ifs at h with hentry
    · cases h
      exact entry.srcMac.size
    · exact ih h

def outIphdr (dev : NetDev) (dstIpAddr : UInt32) (len : UInt16) (proto : UInt8) (id : UInt16) :
    Iphdr :=
  let ih := { txIphdr dev dstIpAddr len proto with id := htons id }
  { ih with csum := doCsum (ipMem ih) 0 }

def sentSub (dev : NetDev) (dstIpAddr : UInt32) (sub : Subuff) : Subuff :=
  ipSendCheck (storeIp (subPush sub ipHdrLen)
    { txIphdr dev dstIpAddr (sub.len + 20).toUInt16 sub.protocol.toUInt8 with
      id := htons (readIp (sub.buf.drop ethHdrLen)).id })

/-- The new header takes the place of what stood behind the Ethernet header. -/
theorem sentSub_buf {sub : Subuff} {eth old rest : List UInt8} (dev : NetDev) (dstIpAddr : UInt32)
    (hbuf : sub.buf = eth ++ (old ++ rest)) (heth : eth.length = ethHdrLen)
    (hold : old.length = 20) :
    sentSub dev dstIpAddr sub =
      { subPush sub ipHdrLen with
        buf := eth ++ (ipMem (outIphdr dev dstIpAddr (sub.len + 20).toUInt16 sub.protocol.toUInt8
          (readIp (sub.buf.drop ethHdrLen)).id) ++ rest) } := by
  have hpushed : (subPush sub ipHdrLen).buf = eth ++ (old ++ rest) := hbuf
  rw [sentSub, storeIp_buf hpushed heth hold]
  exact ipSendCheck_buf rfl heth rfl

/-- ip_output asks the cache for the next hop of the packet it has built. -/
theorem ipOutput_eq {routes : List RtEntry} {dstIpAddr : UInt32} {sub : Subuff}
    {eth old rest : List UInt8} {rt : RtEntry} (cache : List ArpCacheEntry)
    (hrt : routeLookup dstIpAddr routes = some rt) (hbuf : sub.buf = eth ++ (old ++ rest))
    (heth : eth.length = ethHdrLen) (hold : old.length = 20) :
    ipOutput routes cache dstIpAddr sub =
      match arpGetHwaddr cache (nextHop rt dstIpAddr) with
      | some mac => .written (netdevTransmit rt.dev (sentSub rt.dev dstIpAddr sub) mac ethPIp)
      | none => .again rt.dev.addr (nextHop rt dstIpAddr) := by
  let sent := outIphdr rt.dev dstIpAddr (sub.len + 20).toUInt16 sub.protocol.toUInt8
    (readIp (sub.buf.drop ethHdrLen)).id
  have hhead : ipOutput routes cache dstIpAddr sub =
      dstNeighOutput cache rt (sentSub rt.dev dstIpAddr sub) := by
    simp only [ipOutput, hrt]
    rfl
  have hread : readIp ((sentSub rt.dev dstIpAddr sub).buf.drop ethHdrLen) = sent := by
    rw [sentSub_buf rt.dev dstIpAddr hbuf heth hold, drop_middle heth, readIp_ipMem]
  have hdst : ntohl sent.daddr = dstIpAddr := ntohl_htonl dstIpAddr
  have hsrc : ntohl sent.saddr = rt.dev.addr := ntohl_htonl rt.dev.addr
  rw [hhead]
  simp only [dstNeighOutput, hread, hdst, hsrc]
  rfl

theorem ipOutput_written {routes : List RtEntry} {cache : List ArpCacheEntry} {dstIpAddr : UInt32}
    {sub : Subuff} {seg mac : List UInt8} {rt : RtEntry}
    (hrt : routeLookup dstIpAddr routes = some rt)
    (hmac : arpGetHwaddr cache (nextHop rt dstIpAddr) = some mac) (haddr : rt.dev.addrLen = 6)
    (hhw : rt.dev.hwaddr.length = 6) (hbuf : sub.buf = List.replicate 34 0 ++ seg)
    (hdata : sub.data = 34) (hlen : sub.len.toNat = seg.length) (hmax : seg.length < 2 ^ 15) :
    ipOutput routes cache dstIpAddr sub = .written (mac ++ (rt.dev.hwaddr ++ (le16 (htons ethPIp) ++
      (ipMem (sentIphdr rt.dev dstIpAddr (sub.len + 20).toUInt16 sub.protocol.toUInt8) ++
        seg)))) := by
  let sent := sentIphdr rt.dev dstIpAddr (sub.len + 20).toUInt16 sub.protocol.toUInt8
  have hbuf' : sub.buf = List.replicate 14 0 ++ (List.replicate 20 0 ++ seg) := hbuf
  have hid : (readIp (sub.buf.drop ethHdrLen)).id = 0 := by
    rw [hbuf']
    rfl
  have hsub := sentSub_buf rt.dev dstIpAddr hbuf' (by simp [ethHdrLen]) (by simp)
  rw [hid] at hsub
  rw [ipOutput_eq cache hrt hbuf' (by simp [ethHdrLen]) (by simp), hsub]
  simp only [hmac]
  have hnone : List.replicate 14 0 ++ (ipMem sent ++ seg) =
      List.replicate 14 0 ++ (ipMem sent ++ seg ++ []) := by
    rw [List.append_nil]
  refine congrArg Output.written (netdevTransmit_eq hnone rfl ?_ ?_ ?_ haddr hhw
    (arpGetHwaddr_length hmac))
  · simp [subPush, hdata, ipHdrLen]
  · have h20 : (UInt32.ofNat ipHdrLen).toNat = 20 := rfl
    simp only [subPush, UInt32.toNat_add, hlen, h20, List.length_append, ipMem_length]
    omega
  · simp only [List.length_append, ipMem_length]
    omega

end Send

section Receive

theorem netdevRx_eq {frame : List UInt8} (h : frame.length ≤ anpMtu15MaxSize) :
    netdevRx frame =
      processPacket (frame ++ List.replicate (anpMtu15MaxSize - frame.length) 0) := by
  simp only [netdevRx, read_frame h]

theorem processPacket_ip {macs rest : List UInt8} (h : macs.length = 12) :
    processPacket (macs ++ (le16 (htons ethPIp) ++ rest)) =
      ipRx (macs ++ (le16 ethPIp ++ rest)) := by
  have harp : ethPIp ≠ ethPArp := by decide
  simp only [processPacket, ethHdr_frame h, harp, if_false, if_true]

/-- ip_rx takes a header that passes its tests and hands the packet on. -/
theorem ipRx_tcp {eth data : List UInt8} {ih : Iphdr} {h : TcpHdr} (heth : eth.length = ethHdrLen)
    (hversion : ih.version = ippNumIpInIp) (hihl : ih.ihl = 5) (httl : ih.ttl ≠ 0)
    (hcsum : doCsum (ipMem ih) 0 = 0) (hproto : ih.proto = ippTcp) :
    ipRx (eth ++ (ipMem ih ++ (tcpMem h ++ data))) = .tcp
      { ip := { ihl := 5, len := ntohs ih.len, proto := ippTcp, saddr := ntohl ih.saddr
                daddr := ntohl ih.daddr }
        tcp := { hdr := hostTcp h, data := data } } := by
  have hdrop : (eth ++ (ipMem ih ++ (tcpMem h ++ data))).drop ethHdrLen =
      ipMem ih ++ (tcpMem h ++ data) := drop_middle heth
  have htake : (ipMem ih ++ (tcpMem h ++ data)).take ((5 : Fin 16).val * 4) = ipMem ih :=
    List.take_left' (ipMem_length ih)
  have hicmp : ippTcp ≠ ippNumIcmp := by decide
  have hstore (ih' : Iphdr) : overwrite ethHdrLen (ipMem ih')
      (eth ++ (ipMem ih ++ (tcpMem h ++ data))) =
      eth ++ (ipMem ih' ++ (tcpMem h ++ data)) := overwrite_middle heth (by simp)
  have htcp (ih' : Iphdr) : (eth ++ (ipMem ih' ++ (tcpMem h ++ data))).drop (ethHdrLen + ipHdrLen) =
      tcpMem h ++ data := by
    rw [← List.append_assoc]
    exact drop_middle (by simp [heth, ipHdrLen])
  have hdata (ih' : Iphdr) :
      (eth ++ (ipMem ih' ++ (tcpMem h ++ data))).drop
        (ethHdrLen + ipHdrLen + tcpHdrLen) = data := by
    rw [← List.drop_drop, htcp]
    exact drop_middle (by simp [tcpHdrLen])
  simp only [ipRx, hdrop, readIp_ipMem, hversion, hihl, httl, htake, hcsum, hproto, hicmp, ne_eq,
    not_true_eq_false, if_false, if_true, hstore, tcpPacket, htcp, hdata, readTcp_tcpMem]
  rfl

end Receive

/-- The devices that a route can lead to. -/
theorem routeInit_dev {rt : RtEntry} (h : rt ∈ routeInit) :
    rt.dev.addrLen = 6 ∧ rt.dev.hwaddr.length = 6 := by
  have hall : ∀ rt ∈ routeInit, rt.dev.addrLen = 6 ∧ rt.dev.hwaddr.length = 6 := by decide
  exact hall rt h

/-- The bytes of a frame are decoded to the packet that tcp_rx gets. -/
theorem netdevRx_frame {mac hw text : List UInt8} (ih : Iphdr) (h : TcpHdr) (hmac : mac.length = 6)
    (hhw : hw.length = 6) (htext : text.length ≤ 1460) (hversion : ih.version = ippNumIpInIp)
    (hihl : ih.ihl = 5) (httl : ih.ttl ≠ 0) (hcsum : doCsum (ipMem ih) 0 = 0)
    (hproto : ih.proto = ippTcp) :
    ∃ pad, netdevRx (mac ++ (hw ++ (le16 (htons ethPIp) ++ (ipMem ih ++ (tcpMem h ++ text))))) =
      .tcp
      { ip := { ihl := 5, len := ntohs ih.len, proto := ippTcp, saddr := ntohl ih.saddr
                daddr := ntohl ih.daddr }
        tcp := { hdr := hostTcp h, data := text ++ pad } } := by
  set frame := mac ++ (hw ++ (le16 (htons ethPIp) ++ (ipMem ih ++ (tcpMem h ++ text)))) with hframe
  have hfit : frame.length ≤ anpMtu15MaxSize := by
    simp only [hframe, List.length_append, hmac, hhw, ipMem_length, tcpMem_length, anpMtu15MaxSize]
    have htwo : (le16 (htons ethPIp)).length = 2 := rfl
    omega
  let pad : List UInt8 := List.replicate (anpMtu15MaxSize - frame.length) 0
  have hmacs : (mac ++ hw).length = 12 := by simp [hmac, hhw]
  have heth : (mac ++ hw ++ le16 ethPIp).length = ethHdrLen := by
    rw [List.length_append, hmacs]
    rfl
  have hbytes : frame ++ pad =
      mac ++ hw ++ (le16 (htons ethPIp) ++ (ipMem ih ++ (tcpMem h ++ (text ++ pad)))) := by
    simp only [hframe, List.append_assoc]
  refine ⟨pad, ?_⟩
  rw [netdevRx_eq hfit, hbytes, processPacket_ip hmacs, ← List.append_assoc]
  exact ipRx_tcp heth hversion hihl httl hcsum hproto

def sentTcpHdr (tcb : Tcb) (text : List UInt8) (flags : UInt8) : TcpHdr :=
  { txHeader tcb flags with checksum := txCsum tcb text flags }

/-- The bytes that leave for a segment. -/
theorem segment_written {tcb : Tcb} {flags : UInt8} {payload : List UInt8}
    {cache : List ArpCacheEntry} {rt : RtEntry} {mac : List UInt8} (hlen : payload.length ≤ 1460)
    (hrt : routeLookup tcb.remoteIp routeInit = some rt)
    (hmac : arpGetHwaddr cache (nextHop rt tcb.remoteIp) = some mac) :
    ipOutput routeInit cache tcb.remoteIp
        (createTcpPacket tcb payload (UInt32.ofNat payload.length) flags).1 =
      .written (mac ++ (rt.dev.hwaddr ++ (le16 (htons ethPIp) ++
        (ipMem (sentIphdr rt.dev tcb.remoteIp (UInt16.ofNat (40 + payload.length)) ippTcp) ++
          (tcpMem (sentTcpHdr tcb payload flags) ++ payload))))) := by
  obtain ⟨haddr, hhw⟩ := routeInit_dev (routeLookup_mem hrt)
  have hn : (UInt32.ofNat payload.length).toNat = payload.length := by
    rw [UInt32.toNat_ofNat']
    omega
  have h20 : (20 : UInt32).toNat = 20 := rfl
  have hsub := createTcpPacket_sub tcb payload (UInt32.ofNat payload.length) flags (by omega)
  simp only [hn, List.take_length] at hsub
  generalize (createTcpPacket tcb payload (UInt32.ofNat payload.length) flags).1 = sub at hsub ⊢
  have hseg : sub.len.toNat = (tcpMem (sentTcpHdr tcb payload flags) ++ payload).length := by
    simp only [hsub, UInt32.toNat_add, hn, h20, List.length_append, tcpMem_length]
    omega
  have hlen16 : (sub.len + 20).toUInt16 = UInt16.ofNat (40 + payload.length) := by
    simp only [← UInt16.toNat_inj, hsub, UInt32.toNat_toUInt16, UInt32.toNat_add, hn, h20,
      UInt16.toNat_ofNat']
    omega
  have hproto : sub.protocol.toUInt8 = ippTcp := by
    rw [hsub]
    rfl
  have hout := ipOutput_written hrt hmac haddr hhw (by rw [hsub]; rfl) (by rw [hsub]) hseg
    (by simp only [List.length_append, tcpMem_length]; omega)
  rw [hlen16, hproto] at hout
  exact hout

/-- The segment that was built is the one that is received, as far as its header goes. -/
theorem hostTcp_sent (tcb : Tcb) (payload : List UInt8) (flags : UInt8)
    (hlen : payload.length ≤ 1460) :
    hostTcp (sentTcpHdr tcb payload flags) =
      (AnpNetstack.createTcpPacket tcb payload (UInt32.ofNat payload.length) flags).1.hdr := by
  have hn : (UInt32.ofNat payload.length).toNat = payload.length := by
    rw [UInt32.toNat_ofNat']
    omega
  have hhost := hostTcp_txHeader tcb flags 0
  have hmem : tcpMem (txHeader tcb flags) = _ := (tcpMem_eq (txHeader tcb flags)).trans
    (congrArg TcpHdr.bytes hhost)
  have hcsum : htons 0 = 0 := by decide
  rw [sentTcpHdr, hostTcp_txHeader, txCsum, hmem, hcsum]
  simp only [AnpNetstack.createTcpPacket, hn, List.take_length]

/-- The packet that tcp_rx gets for a segment; `pad` is the rest of the buffer it came in. -/
def rxPacket (dev : NetDev) (tcb : Tcb) (payload pad : List UInt8) (flags : UInt8) : Packet where
  ip := { ihl := 5, len := UInt16.ofNat (40 + payload.length), proto := ippTcp, saddr := dev.addr
          daddr := tcb.remoteIp }
  tcp := { hdr := (AnpNetstack.createTcpPacket tcb payload
    (UInt32.ofNat payload.length) flags).1.hdr
           data := payload ++ pad }

theorem rxPacket_carries (dev : NetDev) (tcb : Tcb) {payload : List UInt8} (pad : List UInt8)
    (flags : UInt8) (hlen : payload.length ≤ 1460) :
    Carries (rxPacket dev tcb payload pad flags) payload where
  ihl := rfl
  offset := by
    have hoffset : tcpMinDataOffset >>> 4 = 5 := by decide
    exact hoffset
  len := by
    simp only [rxPacket, UInt16.toNat_ofNat']
    omega
  prefix_data := List.prefix_append payload pad

theorem segment_received {mac : List UInt8} (dev : NetDev) (tcb : Tcb) {payload : List UInt8}
    (flags : UInt8) (hmac : mac.length = 6) (hhw : dev.hwaddr.length = 6)
    (hlen : payload.length ≤ 1460) :
    ∃ pad, netdevRx (mac ++ (dev.hwaddr ++ (le16 (htons ethPIp) ++
        (ipMem (sentIphdr dev tcb.remoteIp (UInt16.ofNat (40 + payload.length)) ippTcp) ++
          (tcpMem (sentTcpHdr tcb payload flags) ++ payload))))) =
      .tcp (rxPacket dev tcb payload pad flags) := by
  have httl : (64 : UInt8) ≠ 0 := by decide
  have hzero : htons 0 = 0 := by decide
  have hcsum : doCsum (ipMem (sentIphdr dev tcb.remoteIp
      (UInt16.ofNat (40 + payload.length)) ippTcp)) 0 = 0 :=
    doCsum_header (txIphdr dev tcb.remoteIp (UInt16.ofNat (40 + payload.length)) ippTcp) hzero
  obtain ⟨pad, hrx⟩ := netdevRx_frame
    (sentIphdr dev tcb.remoteIp (UInt16.ofNat (40 + payload.length)) ippTcp)
    (sentTcpHdr tcb payload flags) hmac hhw hlen rfl rfl httl hcsum rfl
  refine ⟨pad, ?_⟩
  rw [hrx, hostTcp_sent tcb payload flags hlen]
  simp only [sentIphdr, txIphdr, ntohs_htons, ntohl_htonl, rxPacket]

/-- Whatever is sent, a frame leaves, and tcp_rx gets the segment from which it was built. -/
theorem frame_received {tcb : Tcb} (flags : UInt8) {payload : List UInt8}
    {cache : List ArpCacheEntry} (hlen : payload.length ≤ 1460)
    (hcache : ∀ rt, routeLookup tcb.remoteIp routeInit = some rt →
      (arpGetHwaddr cache (nextHop rt tcb.remoteIp)).isSome = true) :
    ∃ rt frame pad, routeLookup tcb.remoteIp routeInit = some rt ∧
      ipOutput routeInit cache tcb.remoteIp
        (createTcpPacket tcb payload (UInt32.ofNat payload.length) flags).1 = .written frame ∧
      netdevRx frame = .tcp (rxPacket rt.dev tcb payload pad flags) := by
  obtain ⟨rt, hrt⟩ : ∃ rt, routeLookup tcb.remoteIp routeInit = some rt :=
    routeLookup_some tcb.remoteIp _ _
  obtain ⟨-, hhw⟩ := routeInit_dev (routeLookup_mem hrt)
  obtain ⟨mac, hmac⟩ := Option.isSome_iff_exists.mp (hcache rt hrt)
  obtain ⟨pad, hrx⟩ := segment_received rt.dev tcb flags (arpGetHwaddr_length hmac) hhw hlen
  exact ⟨rt, _, pad, hrt, segment_written hlen hrt hmac, hrx⟩

/-- tcp_rx looks for the block with what it has decoded. -/
theorem getTcbMatch_decoded {pkt : Packet} {d : Decoded} (h : tcpRxDecode pkt = some d)
    (tcb : Tcb) :
    getTcbMatch tcb pkt = true ↔ tcb.localPort = d.hdr.dstPort ∧ tcb.localIp = d.daddr ∧
      tcb.remotePort = d.hdr.srcPort ∧ tcb.remoteIp = d.saddr := by
  simp only [tcpRxDecode] at h
  split_ifs at h
  cases h
  simp [getTcbMatch, and_assoc]

theorem rxPacket_decoded (dev : NetDev) (tcb : Tcb) {payload : List UInt8} (pad : List UInt8)
    (flags : UInt8) (hlen : payload.length ≤ 1460) :
    tcpRxDecode (rxPacket dev tcb payload pad flags) = some
      { saddr := dev.addr
        daddr := ntohl tcb.remoteIp
        hdr := (AnpNetstack.createTcpPacket tcb payload (UInt32.ofNat payload.length) flags).1.hdr
        segmentLen := UInt32.ofNat payload.length
        text := payload } := by
  have hcarries := rxPacket_carries dev tcb pad flags hlen
  have hsegment : segmentLen (rxPacket dev tcb payload pad flags) =
      UInt32.ofNat payload.length := by
    rw [← UInt32.toNat_inj, hcarries.segmentLen_toNat, UInt32.toNat_ofNat']
    omega
  simp only [tcpRxDecode, hcarries.not_tooShort, Bool.false_eq_true, if_false, ← hcarries.eq_take]
  rw [hsegment]
  rfl

/-- The second swap is the one connect makes: a block for the other direction, with the address of
its device in local_ip as connect stores it, is the one that is found. -/
theorem rxPacket_match (dev : NetDev) {tcb peer : Tcb} {payload : List UInt8} (pad : List UInt8)
    (flags : UInt8) (hlen : payload.length ≤ 1460) (hport : peer.localPort = tcb.remotePort)
    (hip : peer.localIp = ntohl tcb.remoteIp) (hremote : peer.remotePort = tcb.localPort)
    (hdev : peer.remoteIp = dev.addr) :
    getTcbMatch peer (rxPacket dev tcb payload pad flags) = true := by
  rw [getTcbMatch_decoded (rxPacket_decoded dev tcb pad flags hlen)]
  exact ⟨hport, hip, hremote, hdev⟩

/-- The bytes of a frame are decoded to what was put into them. Only the destination does not come
out as it went in: tcp_rx has it in network order. -/
theorem frame_round_trip (tcb : Tcb) (flags : UInt8) (payload : List UInt8)
    (cache : List ArpCacheEntry) (hlen : payload.length ≤ 1460)
    (hcache : ∀ rt, routeLookup tcb.remoteIp routeInit = some rt →
      (arpGetHwaddr cache (nextHop rt tcb.remoteIp)).isSome = true) :
    ∃ rt frame pkt d, routeLookup tcb.remoteIp routeInit = some rt ∧
      ipOutput routeInit cache tcb.remoteIp
        (createTcpPacket tcb payload (UInt32.ofNat payload.length) flags).1 = .written frame ∧
      netdevRx frame = .tcp pkt ∧ pkt.ip.saddr = rt.dev.addr ∧ pkt.ip.daddr = tcb.remoteIp ∧
      tcpRxDecode pkt = some d ∧ d.saddr = rt.dev.addr ∧ d.daddr = ntohl tcb.remoteIp ∧
      d.hdr.srcPort = tcb.localPort ∧ d.hdr.dstPort = tcb.remotePort ∧
      d.hdr.seqNum = tcb.sndNxt ∧ d.hdr.ackNum = tcb.rcvNxt ∧ d.hdr.flags = flags ∧
      d.hdr.windowSize = 65535 ∧ d.segmentLen.toNat = payload.length ∧ d.text = payload := by
  obtain ⟨rt, frame, pad, hrt, hout, hrx⟩ := frame_received flags hlen hcache
  have hdecode := rxPacket_decoded rt.dev tcb pad flags hlen
  have hn : (UInt32.ofNat payload.length).toNat = payload.length := by
    rw [UInt32.toNat_ofNat']
    omega
  exact ⟨rt, frame, rxPacket rt.dev tcb payload pad flags, _, hrt, hout, hrx, rfl, rfl, hdecode,
    rfl, rfl, rfl, rfl, rfl, rfl, rfl, rfl, hn, rfl⟩

def sampleBlock : Tcb := (connectBlock 1 49155 43211 0x0400000a 0x0a000005 1000 []).tcb

def sampleCache : List ArpCacheEntry :=
  [{ state := .resolved, srcIp := 0x0a000005, srcMac := ⟨[1, 2, 3, 4, 5, 6], rfl⟩ }]

theorem sampleCache_resolves :
    ∀ rt, routeLookup sampleBlock.remoteIp routeInit = some rt →
      (arpGetHwaddr sampleCache (nextHop rt sampleBlock.remoteIp)).isSome = true := by
  intro rt hrt
  have hall : ∀ rt ∈ routeLookup sampleBlock.remoteIp routeInit,
      (arpGetHwaddr sampleCache (nextHop rt sampleBlock.remoteIp)).isSome = true := by decide
  exact hall rt hrt

theorem frame_round_trip_sample :
    ∃ rt frame pkt d, routeLookup sampleBlock.remoteIp routeInit = some rt ∧
      ipOutput routeInit sampleCache sampleBlock.remoteIp
        (createTcpPacket sampleBlock [7, 8, 9] (UInt32.ofNat 3) 0x18).1 = .written frame ∧
      netdevRx frame = .tcp pkt ∧ pkt.ip.saddr = rt.dev.addr ∧ pkt.ip.daddr = sampleBlock.remoteIp ∧
      tcpRxDecode pkt = some d ∧ d.saddr = rt.dev.addr ∧ d.daddr = ntohl sampleBlock.remoteIp ∧
      d.hdr.srcPort = sampleBlock.localPort ∧ d.hdr.dstPort = sampleBlock.remotePort ∧
      d.hdr.seqNum = sampleBlock.sndNxt ∧ d.hdr.ackNum = sampleBlock.rcvNxt ∧ d.hdr.flags = 0x18 ∧
      d.hdr.windowSize = 65535 ∧ d.segmentLen.toNat = 3 ∧ d.text = [7, 8, 9] :=
  frame_round_trip sampleBlock 0x18 [7, 8, 9] sampleCache (by decide) sampleCache_resolves

/-- 10.0.0.5 is decoded by tcp_rx as 5.0.0.10. -/
theorem destination_swapped_twice :
    ∃ frame pkt d, ipOutput routeInit sampleCache sampleBlock.remoteIp
        (createTcpPacket sampleBlock [7, 8, 9] (UInt32.ofNat 3) 0x18).1 = .written frame ∧
      netdevRx frame = .tcp pkt ∧ tcpRxDecode pkt = some d ∧ sampleBlock.remoteIp = 0x0a000005 ∧
      d.daddr = 0x0500000a ∧ d.daddr ≠ sampleBlock.remoteIp := by
  have hlen : ([7, 8, 9] : List UInt8).length ≤ 1460 := by decide
  obtain ⟨rt, frame, pad, -, hout, hrx⟩ := frame_received 0x18 hlen sampleCache_resolves
  have hdecode := rxPacket_decoded rt.dev sampleBlock pad 0x18 hlen
  have hswap : ntohl sampleBlock.remoteIp = 0x0500000a := by decide
  have hne : ntohl sampleBlock.remoteIp ≠ sampleBlock.remoteIp := by decide
  exact ⟨frame, _, _, hout, hrx, hdecode, rfl, hswap, hne⟩

end AnpNetstack.Wire
