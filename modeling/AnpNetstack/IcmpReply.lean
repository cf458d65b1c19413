import AnpNetstack.IcmpChecksum
import AnpNetstack.InsideBuffer

/-! The answer to an echo request. It is built where the request stands and tried again from the
timer: every try finds the message as icmp_reply left it, whatever header ip_output has put in
front. -/
namespace AnpNetstack.Wire
open Packed

section Runs

structure IcmpRun where
  sub : Subuff
  status : Output

/-- Where the frame begins that ip_output hands to tdev_write, counted from head: two headers in
front of the data pointer. -/
def IcmpRun.start (run : IcmpRun) : Int := run.sub.data - ipHdrLen - ethHdrLen

def icmpReset (icmpLen : UInt16) (sub : Subuff) : Subuff :=
  { sub with len := icmpLen.toUInt32, data := ethHdrLen + ipHdrLen }

def icmpReplyRunsAt (env : Env) (destAddr : UInt32) (icmpLen : UInt16) :
    Nat → Subuff → Option (List IcmpRun)
  | 0, sub => do
    let (status, _) ← icmpReplyTryAt env destAddr icmpLen 0 sub
    return [{ sub := icmpReset icmpLen sub, status := status }]
  | retries + 1, sub => do
    let (status, next) ← icmpReplyTryAt env destAddr icmpLen (retries + 1) sub
    match status with
    | .again src dst => do
      let runs ← icmpReplyRunsAt env destAddr icmpLen retries next
      return { sub := icmpReset icmpLen sub, status := .again src dst } :: runs
    | status => return [{ sub := icmpReset icmpLen sub, status := status }]

def runFrames (runs : List IcmpRun) : List (List UInt8) := runs.flatMap fun run => run.status.frames

theorem icmpReplyHandlerAt_runs (env : Env) (destAddr : UInt32) (icmpLen : UInt16) (retries : Nat)
    (sub : Subuff) :
    icmpReplyHandlerAt env destAddr icmpLen retries sub =
      (icmpReplyRunsAt env destAddr icmpLen retries sub).map runFrames := by
  induction retries generalizing sub with
  | zero =>
    rw [icmpReplyHandlerAt, icmpReplyRunsAt]
    cases icmpReplyTryAt env destAddr icmpLen 0 sub with
    | none => rfl
    | some out => simp [runFrames]
  | succ retries ih =>
    rw [icmpReplyHandlerAt, icmpReplyRunsAt]
    cases icmpReplyTryAt env destAddr icmpLen (retries + 1) sub with
    | none => rfl
    | some out =>
      obtain ⟨status, next⟩ := out
      cases status with
      | again src dst =>
        simp only [Option.bind_eq_bind, Option.bind_some, ih]
        cases icmpReplyRunsAt env destAddr icmpLen retries next with
        | none => rfl
        | some runs => simp [runFrames, Output.frames]
      | noRoute => rfl
      | written frame => rfl

def icmpReplySub (ip : IpHdr) (sub : Subuff) : Option Subuff := do
  let icmpLen := UInt16.ofInt (ipPayloadLen ip)
  let sub := subPush (subReserve sub (ethHdrLen + ipHdrLen + icmpLen.toNat)) icmpLen.toNat
  let buf := overwrite sub.data [icmpV4Reply, 0, 0, 0] sub.buf
  let csum ← doCsumAt buf sub.data icmpLen.toNat 0
  return { sub with
    buf := overwrite (sub.data + 2) (le16 csum) buf
    protocol := ippNumIcmp.toUInt16
    len := icmpLen.toUInt32 }

def icmpReplyRuns (env : Env) (ip : IpHdr) (sub : Subuff) : Option (List IcmpRun) := do
  let sub ← icmpReplySub ip sub
  if env.alloc then
    icmpReplyRunsAt env ip.saddr (UInt16.ofInt (ipPayloadLen ip)) icmpRetryCount sub
  else return []

theorem icmpReplyAt_runs (env : Env) (ip : IpHdr) (sub : Subuff) :
    icmpReplyAt env ip sub = (icmpReplyRuns env ip sub).map runFrames := by
  simp only [icmpReplyAt, icmpReplyRuns, icmpReplySub, Option.bind_eq_bind, icmpReplyHandlerAt_runs]
  generalize doCsumAt _ _ _ _ = csum
  cases csum with
  | none => rfl
  | some csum =>
    simp only [Option.bind_some]
    split_ifs <;> rfl

end Runs

section Request

def rxMemory (frame beyond : List UInt8) : List UInt8 := (ethHdr (rxBuf frame ++ beyond)).2

/-- A frame with an echo request that gets past every test of ip_rx and icmp_rx; `beyond` is the
memory behind the receive buffer. -/
structure EchoRequest where
  frame : List UInt8
  beyond : List UInt8
  size : frame.length ≤ anpMtu15MaxSize
  ethertype : (ethHdr (rxBuf frame ++ beyond)).1 = ethPIp
  accepted : ipRx (rxMemory frame beyond) = .icmp
  ihl : (rxIphdr (rxMemory frame beyond)).ihl.val = 5
  whole : ethHdrLen + (rxIphdr (rxMemory frame beyond)).len.toNat ≤ frame.length
  payload : ipHdrLen + icmpHdrSize.toNat ≤ (rxIphdr (rxMemory frame beyond)).len.toNat
  csum : icmpRxCsum (rxMemory frame beyond) = some 0
  echo : (rxMemory frame beyond)[ethHdrLen + ipHdrLen]? = some icmpV4Echo

namespace EchoRequest
variable (r : EchoRequest)

def hdr : Iphdr := hostIp (readIp (r.frame.drop ethHdrLen))

def icmpLen : Nat := r.hdr.len.toNat - ipHdrLen

def message : List UInt8 := (r.frame.drop (ethHdrLen + ipHdrLen)).take r.icmpLen

end EchoRequest

theorem rxMemory_drop {frame : List UInt8} (beyond : List UInt8) {k : Nat}
    (h : frame.length ≤ anpMtu15MaxSize) (hk : ethHdrLen ≤ k) (hin : k ≤ frame.length) :
    (rxMemory frame beyond).drop k =
      frame.drop k ++ (List.replicate (anpMtu15MaxSize - frame.length) 0 ++ beyond) := by
  have hbuf : rxBuf frame = frame ++ List.replicate (anpMtu15MaxSize - frame.length) 0 :=
    read_frame h
  have hlen : 12 ≤ (rxBuf frame ++ beyond).length := by
    rw [List.length_append, rxBuf_length]
    exact le_trans (by decide) (Nat.le_add_right _ _)
  have hkeep : (rxMemory frame beyond).drop k = (rxBuf frame ++ beyond).drop k :=
    drop_overwrite hlen hk
  rw [hkeep, hbuf, List.append_assoc, List.drop_append_of_le_length hin]

namespace EchoRequest
variable (r : EchoRequest)

def mem : List UInt8 := rxMemory r.frame r.beyond

theorem frame_long : ethHdrLen + ipHdrLen + 4 ≤ r.frame.length := by
  have hwhole := r.whole
  have hpayload := r.payload
  have h4 : icmpHdrSize.toNat = 4 := rfl
  omega

theorem rxIphdr_eq : rxIphdr r.mem = r.hdr := by
  have hlong := r.frame_long
  rw [rxIphdr, hdr, mem, rxMemory_drop r.beyond r.size (Nat.le_refl _) (by omega),
    ← readIp_take (_ ++ _), List.take_append_of_le_length (by rw [List.length_drop]; omega),
      readIp_take]

theorem len_eq : r.hdr.len.toNat = ipHdrLen + r.icmpLen := by
  have hpayload := r.payload
  have hrx : (rxIphdr (rxMemory r.frame r.beyond)).len = r.hdr.len :=
    congrArg Iphdr.len r.rxIphdr_eq
  rw [hrx] at hpayload
  rw [icmpLen]
  omega

theorem icmpLen_bounds :
    4 ≤ r.icmpLen ∧ ethHdrLen + ipHdrLen + r.icmpLen ≤ r.frame.length ∧ r.icmpLen ≤ 1488 := by
  have hlen := r.len_eq
  have hsize := r.size
  have hwhole := r.whole
  have hpayload := r.payload
  have hrx : (rxIphdr (rxMemory r.frame r.beyond)).len = r.hdr.len :=
    congrArg Iphdr.len r.rxIphdr_eq
  have h4 : icmpHdrSize.toNat = 4 := rfl
  rw [hrx] at hwhole hpayload
  simp only [ethHdrLen, ipHdrLen, anpMtu15MaxSize] at *
  omega

theorem message_length : r.message.length = r.icmpLen := by
  obtain ⟨-, hin, -⟩ := r.icmpLen_bounds
  rw [message, List.length_take, List.length_drop]
  omega

/-- The Ethernet header, twenty bytes, the message and the rest of the memory. -/
theorem mem_split : ∃ eth old tail : List UInt8, r.mem = eth ++ (old ++ (r.message ++ tail)) ∧
    eth.length = ethHdrLen ∧ old.length = 20 ∧ anpMtu15MaxSize ≤ r.mem.length := by
  obtain ⟨-, hin, -⟩ := r.icmpLen_bounds
  have hlong : anpMtu15MaxSize ≤ r.mem.length := by
    refine le_trans ?_ (le_overwrite_length _ _ _)
    rw [List.length_append, rxBuf_length]
    exact Nat.le_add_right _ _
  let tail := (r.frame.drop (ethHdrLen + ipHdrLen)).drop r.icmpLen ++
    (List.replicate (anpMtu15MaxSize - r.frame.length) 0 ++ r.beyond)
  have hrest : (r.mem.drop ethHdrLen).drop 20 = r.message ++ tail := by
    rw [List.drop_drop, ← List.append_assoc, message, List.take_append_drop]
    exact rxMemory_drop r.beyond r.size (by decide) (by simp only [ipHdrLen] at hin; omega)
  refine ⟨r.mem.take ethHdrLen, (r.mem.drop ethHdrLen).take 20, tail, ?_, ?_, ?_, hlong⟩
  · rw [← hrest, List.take_append_drop, List.take_append_drop]
  · rw [List.length_take]
    exact Nat.min_eq_left (le_trans (by decide) hlong)
  · rw [List.length_take, List.length_drop]
    simp only [anpMtu15MaxSize, ethHdrLen] at *
    omega

def ip : IpHdr := (tcpPacket r.hdr (overwrite ethHdrLen (ipMem r.hdr) r.mem)).ip

theorem ipPayloadLen_eq : ipPayloadLen r.ip = r.icmpLen := by
  have hihl : r.hdr.ihl.val = 5 := by
    rw [← r.rxIphdr_eq]
    exact r.ihl
  have hlen := r.len_eq
  simp only [ipPayloadLen, ip, tcpPacket, hihl]
  simp only [ipHdrLen] at hlen
  rw [hlen]
  simp

theorem icmpLen16 : (UInt16.ofInt (ipPayloadLen r.ip)).toNat = r.icmpLen := by
  obtain ⟨-, -, hmax⟩ := r.icmpLen_bounds
  rw [ipPayloadLen_eq, UInt16.ofInt, UInt16.toNat_ofNat']
  omega

end EchoRequest

/-- An echo request of four bytes in a frame of its own length. -/
instance : Nonempty EchoRequest := ⟨{
  frame := trailedEcho.take 38
  beyond := []
  size := by decide
  ethertype := by decide +kernel
  accepted := by decide +kernel
  ihl := by decide +kernel
  whole := by decide +kernel
  payload := by decide +kernel
  csum := by decide +kernel
  echo := by decide +kernel }⟩

end Request

section Reply

def replyMessage (message : List UInt8) : List UInt8 :=
  [icmpV4Reply, 0] ++ le16 (doCsum ([icmpV4Reply, 0, 0, 0] ++ message.drop 4) 0) ++ message.drop 4

theorem replyMessage_length {message : List UInt8} (h : 4 ≤ message.length) :
    (replyMessage message).length = message.length := by
  have hword (x : UInt16) : (le16 x).length = 2 := rfl
  simp only [replyMessage, List.length_append, List.length_cons, List.length_nil,
    List.length_drop, hword]
  omega

theorem replyMessage_verifies {message : List UInt8} (hmin : 4 ≤ message.length)
    (hmax : message.length ≤ 1488) :
    Verifies (replyMessage message) := by
  have hlen := replyMessage_length hmin
  have htype : [icmpV4Reply, 0].length % 2 = 0 := rfl
  rw [← doCsum_zero_iff (by omega)]
  exact doCsum_stored htype (message.drop 4)

structure EchoReply (r : EchoRequest) (frame : List UInt8) : Prop where
  length : frame.length = ethHdrLen + ipHdrLen + r.icmpLen
  type_code : (frame.drop (ethHdrLen + ipHdrLen)).take 2 = [icmpV4Reply, 0]
  rest : (frame.drop (ethHdrLen + ipHdrLen)).drop 4 = r.message.drop 4
  checksum : Verifies (frame.drop (ethHdrLen + ipHdrLen))
  daddr : ntohl (readIp (frame.drop ethHdrLen)).daddr = r.hdr.saddr
  saddr : ∃ rt, routeLookup r.hdr.saddr routeInit = some rt ∧
    ntohl (readIp (frame.drop ethHdrLen)).saddr = rt.dev.addr
  total : (ntohs (readIp (frame.drop ethHdrLen)).len).toNat = ipHdrLen + r.icmpLen
  accepted : ipRx frame = .icmp

/-- ip_rx takes a header that passes its tests and hands the packet to icmp_rx. -/
theorem ipRx_icmp {eth data : List UInt8} {ih : Iphdr} (heth : eth.length = ethHdrLen)
    (hversion : ih.version = ippNumIpInIp) (hihl : ih.ihl = 5) (httl : ih.ttl ≠ 0)
    (hcsum : doCsum (ipMem ih) 0 = 0) (hproto : ih.proto = ippNumIcmp) :
    ipRx (eth ++ (ipMem ih ++ data)) = .icmp := by
  have hdrop : (eth ++ (ipMem ih ++ data)).drop ethHdrLen = ipMem ih ++ data := drop_middle heth
  have htake : (ipMem ih ++ data).take ((5 : Fin 16).val * 4) = ipMem ih :=
    List.take_left' (ipMem_length ih)
  simp only [ipRx, hdrop, readIp_ipMem, hversion, hihl, httl, htake, hcsum, hproto, ne_eq,
    not_true_eq_false, if_false, if_true]
  rfl

theorem echoReply_frame (r : EchoRequest) {rt : RtEntry} {eth : List UInt8} {id : UInt16}
    (hrt : routeLookup r.hdr.saddr routeInit = some rt) (heth : eth.length = ethHdrLen)
    {len : UInt16} (hlen : len.toNat = ipHdrLen + r.icmpLen) :
    EchoReply r (eth ++ (ipMem (outIphdr rt.dev r.hdr.saddr len ippNumIcmp id) ++
      replyMessage r.message)) := by
  let ih := outIphdr rt.dev r.hdr.saddr len ippNumIcmp id
  obtain ⟨hmin, -, hmax⟩ := r.icmpLen_bounds
  have hmsg := r.message_length
  have hip : (eth ++ (ipMem ih ++ replyMessage r.message)).drop ethHdrLen =
      ipMem ih ++ replyMessage r.message :=
    drop_middle heth
  have hreply : (eth ++ (ipMem ih ++ replyMessage r.message)).drop (ethHdrLen + ipHdrLen) =
      replyMessage r.message := by
    rw [← List.drop_drop, hip]
    exact drop_middle (ipMem_length ih)
  have hread : readIp ((eth ++ (ipMem ih ++ replyMessage r.message)).drop ethHdrLen) = ih := by
    rw [hip, readIp_ipMem]
  refine ⟨?_, ?_, ?_, ?_, ?_, ⟨rt, hrt, ?_⟩, ?_, ?_⟩
  · rw [List.length_append, List.length_append, heth, ipMem_length,
      replyMessage_length (by omega), hmsg, Nat.add_assoc]
    rfl
  · rw [hreply]
    rfl
  · rw [hreply]
    rfl
  · rw [hreply]
    exact replyMessage_verifies (by omega) (by omega)
  · rw [hread]
    exact ntohl_htonl _
  · rw [hread]
    exact ntohl_htonl _
  · rw [hread]
    exact (congrArg UInt16.toNat (ntohs_htons len)).trans hlen
  · have hzero : htons 0 = 0 := rfl
    have httl : (64 : UInt8) ≠ 0 := by decide
    exact ipRx_icmp heth rfl rfl httl (doCsum_header {
      txIphdr rt.dev r.hdr.saddr len ippNumIcmp with id := htons id } hzero) rfl

end Reply

section Tries
variable (r : EchoRequest)

structure Ready (sub : Subuff) : Prop where
  protocol : sub.protocol = ippNumIcmp.toUInt16
  buf : ∃ eth old tail : List UInt8, sub.buf = eth ++ (old ++ (replyMessage r.message ++ tail)) ∧
    eth.length = ethHdrLen ∧ old.length = 20 ∧ anpMtu15MaxSize ≤ sub.buf.length

def Answers (status : Output) : Prop :=
  (∃ src dst, status = .again src dst) ∨ ∃ frame, status = .written frame ∧ EchoReply r frame

theorem answers_output {given : Subuff} (h : Ready r given)
    (hdata : given.data = ethHdrLen + ipHdrLen) (hlen : given.len.toNat = r.icmpLen)
    (cache : List ArpCacheEntry) :
    Answers r (ipOutput routeInit cache r.hdr.saddr given) := by
  obtain ⟨eth, old, tail, hbuf, heth, hold, -⟩ := h.buf
  obtain ⟨hmin, -, hmax⟩ := r.icmpLen_bounds
  obtain ⟨rt, hrt⟩ : ∃ rt, routeLookup r.hdr.saddr routeInit = some rt := routeLookup_some _ _ _
  obtain ⟨haddr, hhw⟩ := routeInit_dev (routeLookup_mem hrt)
  rw [ipOutput_eq cache hrt hbuf heth hold]
  cases hmac : arpGetHwaddr cache (nextHop rt r.hdr.saddr) with
  | none => exact .inl ⟨_, _, rfl⟩
  | some mac =>
    have hproto : given.protocol.toUInt8 = ippNumIcmp := by
      rw [h.protocol]
      rfl
    have hsent := sentSub_buf rt.dev r.hdr.saddr hbuf heth hold
    rw [hproto] at hsent
    let sent := outIphdr rt.dev r.hdr.saddr (given.len + 20).toUInt16 ippNumIcmp
      (readIp (given.buf.drop ethHdrLen)).id
    let body := ipMem sent ++ replyMessage r.message
    have hsum : (given.len + 20).toNat = ipHdrLen + r.icmpLen := by
      have h20 : (20 : UInt32).toNat = 20 := rfl
      rw [UInt32.toNat_add, hlen, h20, ipHdrLen]
      omega
    have hsum16 : (given.len + 20).toUInt16.toNat = ipHdrLen + r.icmpLen := by
      rw [UInt32.toNat_toUInt16, hsum, ipHdrLen]
      omega
    have hbody : body.length = ipHdrLen + r.icmpLen := by
      have hmsg : 4 ≤ r.message.length := by rw [r.message_length]; exact hmin
      rw [List.length_append, ipMem_length, replyMessage_length hmsg, r.message_length]
      rfl
    have hmem : (sentSub rt.dev r.hdr.saddr given).buf = eth ++ (body ++ tail) := by
      rw [hsent, List.append_assoc]
    have hstart : (sentSub rt.dev r.hdr.saddr given).data = 14 := by
      rw [hsent, subPush, hdata]
      rfl
    have hcount : (sentSub rt.dev r.hdr.saddr given).len.toNat = body.length := by
      rw [hsent, hbody]
      exact hsum
    have hframe : netdevTransmit rt.dev (sentSub rt.dev r.hdr.saddr given) mac ethPIp =
        mac ++ (rt.dev.hwaddr ++ (le16 (htons ethPIp) ++ body)) :=
      netdevTransmit_eq hmem heth hstart hcount (by rw [hbody, ipHdrLen]; omega) haddr hhw
        (arpGetHwaddr_length hmac)
    have hfront : (mac ++ (rt.dev.hwaddr ++ le16 (htons ethPIp))).length = ethHdrLen := by
      rw [List.length_append, List.length_append, arpGetHwaddr_length hmac, hhw]
      rfl
    refine .inr ⟨_, rfl, ?_⟩
    rw [hframe, ← List.append_assoc rt.dev.hwaddr, ← List.append_assoc mac]
    exact echoReply_frame r hrt hfront hsum16

theorem Ready.attempt {sub : Subuff} (h : Ready r sub) (env : Env) (henv : env.routes = routeInit)
    {icmpLen : UInt16} (hlen : icmpLen.toNat = r.icmpLen) (retries : Nat) :
    ∃ status next, icmpReplyTryAt env r.hdr.saddr icmpLen retries sub = some (status, next) ∧
      Ready r next ∧ Answers r status := by
  let given := icmpReset icmpLen sub
  have hgiven : Ready r given := ⟨h.protocol, h.buf⟩
  have hgivenLen : given.len.toNat = r.icmpLen := (UInt16.toNat_toUInt32 icmpLen).trans hlen
  obtain ⟨eth, old, tail, hbuf, heth, hold, hlong⟩ := hgiven.buf
  obtain ⟨-, -, hmax⟩ := r.icmpLen_bounds
  obtain ⟨rt, hrt⟩ : ∃ rt, routeLookup r.hdr.saddr routeInit = some rt := routeLookup_some _ _ _
  obtain ⟨next, hout, hnextLong, hnext⟩ :=
    ipOutputAt_inside routeInit (env.cache retries) r.hdr.saddr hlong rfl (by omega)
  have hsent := sentSub_buf rt.dev r.hdr.saddr hbuf heth hold
  refine ⟨ipOutput routeInit (env.cache retries) r.hdr.saddr given, next, ?_, ⟨?_, ?_⟩,
    answers_output r hgiven rfl hgivenLen _⟩
  · rw [icmpReplyTryAt, henv]
    exact hout
  · rw [hnext rt hrt, hsent]
    exact h.protocol
  · rw [hnext rt hrt, hsent] at hnextLong ⊢
    exact ⟨eth, _, tail, rfl, heth, ipMem_length _, hnextLong⟩

/-- Every run starts at head, and only the last can have written a frame. -/
theorem Ready.runs {sub : Subuff} (h : Ready r sub) (env : Env) (henv : env.routes = routeInit)
    {icmpLen : UInt16} (hlen : icmpLen.toNat = r.icmpLen) (retries : Nat) :
    ∃ runs, icmpReplyRunsAt env r.hdr.saddr icmpLen retries sub = some runs ∧
      runs.length ≤ retries + 1 ∧
      (runFrames runs).length ≤ 1 ∧ ∀ run ∈ runs, run.start = 0 ∧ Answers r run.status := by
  have hstart (sub : Subuff) (status : Output) :
      IcmpRun.start { sub := icmpReset icmpLen sub, status := status } = 0 := rfl
  have hone (status : Output) : status.frames.length ≤ 1 := by
    cases status <;> simp [Output.frames]
  induction retries generalizing sub with
  | zero =>
    obtain ⟨status, next, hout, -, hans⟩ := h.attempt r env henv hlen 0
    refine ⟨[{ sub := icmpReset icmpLen sub, status := status }], ?_, le_refl _, ?_, ?_⟩
    · rw [icmpReplyRunsAt, hout]
      rfl
    · simpa [runFrames] using hone status
    · intro run hrun
      rw [List.mem_singleton.mp hrun]
      exact ⟨hstart sub status, hans⟩
  | succ retries ih =>
    obtain ⟨status, next, hout, hnext, hans⟩ := h.attempt r env henv hlen (retries + 1)
    obtain ⟨src, dst, rfl⟩ | ⟨frame, rfl, hframe⟩ := hans
    · obtain ⟨runs, hruns, hcount, hframes, hall⟩ := ih hnext
      refine ⟨{ sub := icmpReset icmpLen sub, status := .again src dst } :: runs, ?_,
        Nat.succ_le_succ hcount, hframes, ?_⟩
      · rw [icmpReplyRunsAt, hout]
        show (icmpReplyRunsAt env r.hdr.saddr icmpLen retries next >>= fun runs => _) = _
        rw [hruns]
        rfl
      · intro run hrun
        cases List.mem_cons.mp hrun with
        | inl hrun =>
          rw [hrun]
          exact ⟨hstart sub _, .inl ⟨src, dst, rfl⟩⟩
        | inr hrun => exact hall run hrun
    · refine ⟨[{ sub := icmpReset icmpLen sub, status := .written frame }],
        ?_, by simp, le_refl _, ?_⟩
      · rw [icmpReplyRunsAt, hout]
        rfl
      · intro run hrun
        rw [List.mem_singleton.mp hrun]
        exact ⟨hstart sub _, .inr ⟨frame, rfl, hframe⟩⟩

end Tries

section Answer
variable (r : EchoRequest)

theorem icmpReplySub_ready :
    ∃ sub, icmpReplySub r.ip { allocSub anpMtu15MaxSize with
      buf := overwrite ethHdrLen (ipMem r.hdr) r.mem } =
      some sub ∧ Ready r sub := by
  obtain ⟨eth, old, tail, hbuf, heth, hold, hlong⟩ := r.mem_split
  obtain ⟨hmin, -, hmax⟩ := r.icmpLen_bounds
  have hmsg := r.message_length
  let pre := eth ++ ipMem r.hdr
  let four := r.message.take 4
  let rest := r.message.drop 4
  let zeros := [icmpV4Reply, 0, 0, 0]
  let csum := doCsum (zeros ++ rest) 0
  let n := (UInt16.ofInt (ipPayloadLen r.ip)).toNat
  have hn : n = r.icmpLen := r.icmpLen16
  have hpre : pre.length = ethHdrLen + ipHdrLen := by
    rw [List.length_append, heth, ipMem_length]
    rfl
  have hfour : four.length = zeros.length := by
    rw [List.length_take, hmsg]
    exact Nat.min_eq_left hmin
  have hall : (zeros ++ rest).length = n := by
    rw [List.length_append, List.length_drop, hmsg, hn]
    exact Nat.add_sub_cancel' hmin
  have hstored : overwrite ethHdrLen (ipMem r.hdr) r.mem = pre ++ (four ++ (rest ++ tail)) := by
    rw [hbuf, overwrite_middle heth (by rw [ipMem_length, hold]), ← List.append_assoc eth,
      ← List.append_assoc four, List.take_append_drop]
  have hzeroed : overwrite (ethHdrLen + ipHdrLen) zeros (pre ++ (four ++ (rest ++ tail))) =
      pre ++ (zeros ++ (rest ++ tail)) := overwrite_middle hpre hfour.symm
  have hcsum : doCsumAt (pre ++ (zeros ++ (rest ++ tail))) (ethHdrLen + ipHdrLen) n 0 =
      some csum := by
    have hin : ethHdrLen + ipHdrLen + n ≤ (pre ++ (zeros ++ (rest ++ tail))).length := by
      rw [List.length_append, hpre, ← List.append_assoc, List.length_append, hall]
      omega
    rw [doCsumAt_inside _ _ _ _ hin, drop_middle hpre, ← List.append_assoc zeros, Int.toNat_natCast,
      List.take_left' hall]
  have hfilled : overwrite (ethHdrLen + ipHdrLen + 2) (le16 csum)
      (pre ++ (zeros ++ (rest ++ tail))) =
      eth ++ (ipMem r.hdr ++ (replyMessage r.message ++ tail)) := by
    have hfront : (pre ++ [icmpV4Reply, 0]).length = ethHdrLen + ipHdrLen + 2 := by
      rw [List.length_append, hpre]
      rfl
    have hword : (le16 csum).length = ([0, 0] : List UInt8).length := rfl
    have hmid := overwrite_middle (b := rest ++ tail) hfront hword
    have hsame : pre ++ (zeros ++ (rest ++ tail)) =
        pre ++ [icmpV4Reply, 0] ++ ([0, 0] ++ (rest ++ tail)) := by
      rw [List.append_assoc pre]
      rfl
    rw [hsame, hmid, List.append_assoc pre, List.append_assoc eth]
    rfl
  have hdata : 0 + (ethHdrLen + ipHdrLen + n) - n = ethHdrLen + ipHdrLen := by omega
  refine ⟨{ allocSub anpMtu15MaxSize with
      buf := eth ++ (ipMem r.hdr ++ (replyMessage r.message ++ tail))
      data := ethHdrLen + ipHdrLen
      protocol := ippNumIcmp.toUInt16
      len := (UInt16.ofInt (ipPayloadLen r.ip)).toUInt32 }, ?_, rfl, eth, ipMem r.hdr, tail, rfl,
        heth, ipMem_length _, ?_⟩
  · simp only [icmpReplySub, subPush, subReserve, allocSub, hstored]
    rw [hdata, hzeroed, hcsum]
    simp only [Option.bind_eq_bind, Option.bind_some, hfilled]
    rfl
  · have hreply := replyMessage_length (by rw [hmsg]; exact hmin : 4 ≤ r.message.length)
    rw [hbuf] at hlong
    simp only [List.length_append, hold, ipMem_length, hreply] at hlong ⊢
    exact hlong

theorem processPacketAt_request (env : Env) :
    processPacketAt env (rxBuf r.frame ++ r.beyond) =
      icmpReplyAt env r.ip { allocSub anpMtu15MaxSize with
        buf := overwrite ethHdrLen (ipMem r.hdr) r.mem } := by
  let stored := overwrite ethHdrLen (ipMem r.hdr) r.mem
  obtain ⟨eth, old, tail, -, -, -, hlong⟩ := r.mem_split
  have hbuf : anpMtu15MaxSize ≤ (rxBuf r.frame ++ r.beyond).length := by
    rw [List.length_append, rxBuf_length]
    exact Nat.le_add_right _ _
  have harp : ethPIp ≠ ethPArp := by decide
  have hrx : ipRx r.mem = .icmp := r.accepted
  have hrxAt := ipRxAt_eq env hlong
  rw [hrx] at hrxAt
  have hicmp := icmpRxAt_csum env r.mem
  have hcsum : icmpRxCsum r.mem = some 0 := r.csum
  have hpayload : ¬ ipPayloadLen r.ip < icmpHdrSize := by
    have hmin := r.icmpLen_bounds.1
    have h4 : icmpHdrSize = 4 := rfl
    rw [r.ipPayloadLen_eq, h4]
    omega
  have htype : stored[ethHdrLen + ipHdrLen]? = some icmpV4Echo := by
    have hkeep : stored.drop (ethHdrLen + ipHdrLen) = r.mem.drop (ethHdrLen + ipHdrLen) :=
      drop_overwrite (le_trans (by decide) hlong) (Nat.le_refl _)
    have hfirst := congrArg (fun m : List UInt8 => m[0]?) hkeep
    simp only [List.getElem?_drop, Nat.add_zero] at hfirst
    rw [hfirst]
    exact r.echo
  rw [processPacketAt_eq env hbuf, r.ethertype, if_neg harp, if_pos rfl]
  refine hrxAt.trans ?_
  show icmpRxAt env (tcpPacket (rxIphdr r.mem)
      (overwrite ethHdrLen (ipMem (rxIphdr r.mem)) r.mem)).ip
    { allocSub anpMtu15MaxSize with buf := overwrite ethHdrLen (ipMem (rxIphdr r.mem)) r.mem } = _
  refine hicmp.trans ?_
  rw [r.rxIphdr_eq, hcsum]
  show (if ipPayloadLen r.ip < icmpHdrSize then some [] else _) = _
  rw [if_neg hpayload]
  simp only [Option.bind_eq_bind, Option.bind_some, ne_eq, not_true_eq_false, if_false,
    stored] at htype ⊢
  rw [htype]
  rfl

/-- However often the next hop is missing from the cache, at most one frame answers the request,
after four runs of icmp_reply_handler at most. -/
theorem echo_reply_correct (env : Env) (r : EchoRequest) :
    ∃ runs,
      icmpReplyRuns { env with routes := routeInit } r.ip
        { allocSub anpMtu15MaxSize with buf := overwrite ethHdrLen (ipMem r.hdr) r.mem } =
          some runs ∧
      processPacketAt { env with routes := routeInit } (rxBuf r.frame ++ r.beyond) =
        some (runFrames runs) ∧
      runs.length ≤ 4 ∧ (runFrames runs).length ≤ 1 ∧
      ∀ run ∈ runs, run.start = 0 ∧ ∀ frame, run.status = .written frame → EchoReply r frame := by
  let env' := { env with routes := routeInit }
  let sub : Subuff :=
    { allocSub anpMtu15MaxSize with buf := overwrite ethHdrLen (ipMem r.hdr) r.mem }
  obtain ⟨sub', hsub, hready⟩ := icmpReplySub_ready r
  obtain ⟨runs, hruns, hcount, hframes, hall⟩ : ∃ runs, icmpReplyRuns env' r.ip sub = some runs ∧
      runs.length ≤ 4 ∧ (runFrames runs).length ≤ 1 ∧ ∀ run ∈ runs, run.start = 0 ∧
        Answers r run.status := by
    have hrest : icmpReplyRuns env' r.ip sub =
        if env'.alloc then icmpReplyRunsAt env' r.hdr.saddr
          (UInt16.ofInt (ipPayloadLen r.ip)) icmpRetryCount sub'
        else some [] := by
      rw [icmpReplyRuns, hsub]
      rfl
    rw [hrest]
    split_ifs
    · exact hready.runs r env' rfl r.icmpLen16 icmpRetryCount
    · exact ⟨[], rfl, by simp, by simp [runFrames], by simp⟩
  refine ⟨runs, hruns, ?_, hcount, hframes,
    fun run hrun => ⟨(hall run hrun).1, fun frame hframe => ?_⟩⟩
  · rw [processPacketAt_request, icmpReplyAt_runs, hruns]
    rfl
  · obtain ⟨src, dst, hstatus⟩ | ⟨frame', hstatus, hreply⟩ := (hall run hrun).2
    · rw [hstatus] at hframe
      cases hframe
    · rw [hstatus] at hframe
      cases hframe
      exact hreply

end Answer
end AnpNetstack.Wire
