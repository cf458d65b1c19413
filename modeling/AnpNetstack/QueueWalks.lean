import AnpNetstack.ListWalk
import AnpNetstack.QueueBytes

/-! stop_retransmit and tcp_retransmit_handler in memory. Both walk over messages_array with
list_for_each, which reads the link of an entry after the body, and both free entries in the body.
Here a freed node or packet is gone, so that any access to it stops the walk. -/
namespace AnpNetstack.Wire
open LinkRing Allocation
open Packed hiding load

/-- struct tcp_message. tcp_ptr points `tcpPtr` bytes into the buffer of the packet `packet`. -/
structure QueueEntry where
  tcb : Nat
  sub : Nat
  packet : Nat
  tcpPtr : Nat
  tcpLen : UInt32
  tcpDataLen : UInt32
  retries : UInt32
  deriving DecidableEq, Repr

def QueueEntry.message (number : Nat) (entry : QueueEntry) (sub : Subuff) : Message where
  number := number
  tcb := entry.tcb
  sub := sub
  tcpPtr := entry.tcpPtr
  tcpLen := entry.tcpLen
  tcpDataLen := entry.tcpDataLen
  retries := entry.retries
  freed := none

/-- The links are those of the list_head in each entry, and of messages_array itself. A packet is
struct subuff with its buffer, which free_sub frees together. -/
structure QueueMem where
  links : Links Nat
  entries : Store Nat QueueEntry
  subs : Store Nat Subuff

namespace QueueMem

def putSub (m : QueueMem) (a : Nat) (sub : Subuff) : QueueMem := { m with subs := put m.subs a sub }

def freeSub (m : QueueMem) (a : Nat) : Except Nat QueueMem :=
  (free m.subs a).map fun subs => { m with subs := subs }

def unlink (m : QueueMem) (x : Nat) : Except Nat QueueMem :=
  (listDel m.links x).map fun links => { m with links := links }

def freeEntry (m : QueueMem) (x : Nat) : Except Nat QueueMem := do
  let entries ← free m.entries x
  let links ← free m.links x
  return { m with entries := entries, links := links }

def setEntry (m : QueueMem) (x : Nat) (entry : QueueEntry) : Except Nat QueueMem :=
  (store m.entries x entry).map fun entries => { m with entries := entries }

def getSeqNum (m : QueueMem) (entry : QueueEntry) : Except Nat UInt32 :=
  (load m.subs entry.packet).map fun sub => read32 (sub.buf.drop (entry.tcpPtr + 4))

def setSeqNum (m : QueueMem) (entry : QueueEntry) (seq : UInt32) : Except Nat QueueMem :=
  (load m.subs entry.packet).map fun sub =>
    m.putSub entry.packet { sub with buf := overwrite (entry.tcpPtr + 4) (le32 seq) sub.buf }

/-- An entry that is acknowledged in part. calloc puts the new packet at `malloc m`; alloc_sub never
returns NULL. -/
def repack (malloc : QueueMem → Nat) (tcb : Tcb) (m : QueueMem) (x : Nat) (entry : QueueEntry)
    (seq : UInt32) :
    Except Nat QueueMem := do
  let old ← load m.subs entry.packet
  let bytesAcked := tcb.sndUna - seq
  let newSize := entry.tcpDataLen - bytesAcked
  let newSub :=
    (createTcpPacket tcb (old.buf.drop (entry.tcpPtr + tcpHdrLen + bytesAcked.toNat))
      newSize tcpAck).1
  let m' ← (m.putSub (malloc m) { newSub with dlen := newSize }).freeSub entry.sub
  m'.setEntry x { entry with sub := malloc m }

def acked (malloc : QueueMem → Nat) (tcb : Tcb) (m : QueueMem) (x : Nat) (entry : QueueEntry)
    (seq : UInt32) :
    Except Nat QueueMem :=
  if seq + entry.tcpDataLen > tcb.sndUna then m.repack malloc tcb x entry seq
  else do
    let m ← m.freeSub entry.sub
    let m ← m.unlink x
    m.freeEntry x

def stopEntry (malloc : QueueMem → Nat) (self : Nat) (tcb : Tcb) (x : Nat) (m : QueueMem) :
    Except Nat QueueMem := do
  let entry ← load m.entries x
  if entry.tcb = self then
    let m ← m.setSeqNum entry (ntohl (← m.getSeqNum entry))
    let seq ← m.getSeqNum entry
    let m ← if seq < tcb.sndUna then m.acked malloc tcb x entry seq else pure m
    m.setSeqNum entry (htonl (← m.getSeqNum entry))
  else return m

def stopRetransmit (malloc : QueueMem → Nat) (self : Nat) (tcb : Tcb) (messagesArray : Nat)
    (fuel : Nat) (m : QueueMem) : Outcome Nat (List Nat × QueueMem) :=
  listForEach messagesArray links (fun x m => .of (m.stopEntry malloc self tcb x)) fuel m

def reset (m : QueueMem) (entry : QueueEntry) : Except Nat QueueMem :=
  (load m.subs entry.sub).map fun sub =>
    m.putSub entry.sub { sub with data := entry.tcpPtr, len := entry.tcpLen }

/-- ip_output on the packet of an entry, and whether its result is -EAGAIN. The IP header goes to
the front of that packet, the Ethernet header to where the data pointer is. -/
def ipOutput (m : QueueMem) (entry : QueueEntry) (cache : List ArpCacheEntry) (dstIpAddr : UInt32) :
    Except Nat (Bool × QueueMem) := do
  let sub ← load m.subs entry.sub
  match routeLookup dstIpAddr routeInit with
  | none => return (false, m)
  | some rt =>
    let sub := sentSub rt.dev dstIpAddr sub
    let m := m.putSub entry.sub sub
    let ih := readIp (sub.buf.drop ethHdrLen)
    let dstAddr := if rt.flags &&& rtGateway != 0 then rt.gateway else ntohl ih.daddr
    match arpGetHwaddr cache dstAddr with
    | none => return (true, m)
    | some mac =>
      let packet ← load m.subs entry.packet
      let sent := transmittedSub rt.dev { sub with buf := packet.buf } mac ethPIp
      let m := m.putSub entry.packet { packet with buf := sent.buf }
      let sub ← load m.subs entry.sub
      return (false, m.putSub entry.sub { sub with data := sent.data, len := sent.len })

/-- The loop around ip_output; every attempt finds the next state of the ARP cache. -/
def waitOutput (entry : QueueEntry) (dstIpAddr : UInt32) :
    List (List ArpCacheEntry) → QueueMem → Outcome Nat QueueMem
  | [], m => .running m
  | cache :: caches, m =>
    match (do (← m.reset entry).ipOutput entry cache dstIpAddr) with
    | .error a => .fault a
    | .ok (true, m) => waitOutput entry dstIpAddr caches m
    | .ok (false, m) => .done m

def remove (m : QueueMem) (x : Nat) (entry : QueueEntry) : Except Nat QueueMem := do
  let m ← m.unlink x
  let m ← m.freeSub entry.sub
  m.freeEntry x

def countDown (m : QueueMem) (x : Nat) (entry : QueueEntry) : Except Nat QueueMem :=
  if entry.retries = UInt32.ofInt retriesSendonce then m.remove x entry
  else if entry.retries = UInt32.ofInt retriesInfinite then .ok m
  else do
    let m ← m.setEntry x { entry with retries := entry.retries - 1 }
    if entry.retries - 1 = 0 then m.remove x entry else return m

def retransmitEntry (remoteIp : Nat → UInt32) (caches : Nat → List (List ArpCacheEntry)) (x : Nat)
    (m : QueueMem) :
    Outcome Nat QueueMem :=
  match load m.entries x with
  | .error a => .fault a
  | .ok entry =>
    match waitOutput entry (remoteIp entry.tcb) (caches x) m with
    | .done m => .of (m.countDown x entry)
    | out => out

def tcpRetransmitHandler (remoteIp : Nat → UInt32) (caches : Nat → List (List ArpCacheEntry))
    (messagesArray : Nat) (fuel : Nat) (m : QueueMem) : Outcome Nat (List Nat × QueueMem) :=
  listForEach messagesArray links (retransmitEntry remoteIp caches) fuel m

def addMsgToArr (m : QueueMem) (messagesArray x self sub : Nat) (retries : Int) :
    Except Nat QueueMem := do
  let links ← listInit (put m.links x ⟨0, 0⟩) x
  let given ← load m.subs sub
  let links ← listAddTail links x messagesArray
  return { m with
    links := links
    entries := put m.entries x
      { tcb := self, sub := sub, packet := sub, tcpPtr := given.data, tcpLen := given.len,
        tcpDataLen := given.dlen, retries := UInt32.ofInt retries } }

end QueueMem

/-- A well-formed messages_array: every entry has a packet of its own, with its segment behind the
room for the other headers. -/
structure MessagesArray where
  mem : QueueMem
  head : Nat
  items : List Nat
  entry : Nat → QueueEntry
  sub : Nat → Subuff
  ring : Ring mem.links head items
  entries : ∀ x ∈ items, mem.entries x = some (entry x)
  subs : ∀ x ∈ items, mem.subs (entry x).sub = some (sub x)
  packet : ∀ x ∈ items, (entry x).packet = (entry x).sub
  room : ∀ x ∈ items, ethHdrLen + ipHdrLen ≤ (entry x).tcpPtr
  inside : ∀ x ∈ items, (entry x).tcpPtr + tcpHdrLen ≤ (sub x).buf.length
  apart : ∀ x ∈ items, ∀ y ∈ items, (entry x).sub = (entry y).sub → x = y

def MessagesArray.seqNum (q : MessagesArray) (x : Nat) : UInt32 :=
  ntohl (read32 ((q.sub x).buf.drop ((q.entry x).tcpPtr + 4)))

def getsOut (dstIpAddr : UInt32) (cache : List ArpCacheEntry) : Bool :=
  (routeLookup dstIpAddr routeInit).all fun rt => (arpGetHwaddr cache (nextHop rt dstIpAddr)).isSome

def MessagesArray.getsOut (q : MessagesArray) (remoteIp : Nat → UInt32)
    (caches : Nat → List (List ArpCacheEntry)) (x : Nat) : Bool :=
  (caches x).any (Wire.getsOut (remoteIp (q.entry x).tcb))

section Accesses
open QueueMem
variable {m m' : QueueMem} {entry : QueueEntry} {sub : Subuff} {x : Nat} {seq : UInt32} {tcb : Tcb}
  {self : Nat} {malloc : QueueMem → Nat}

@[simp] theorem putSub_same (m : QueueMem) (a : Nat) (sub : Subuff) :
    (m.putSub a sub).subs a = some sub :=
  put_same m.subs a sub

theorem putSub_other {a b : Nat} (h : b ≠ a) (sub : Subuff) : (m.putSub a sub).subs b = m.subs b :=
  put_other h sub

theorem putSub_putSub (m : QueueMem) (a : Nat) (sub sub' : Subuff) :
    (m.putSub a sub).putSub a sub' = m.putSub a sub' := by
  rw [putSub, putSub, put_put]
  rfl

theorem putSub_self {a : Nat} (h : m.subs a = some sub) : m.putSub a sub = m := by
  rw [putSub, put_load h]

theorem getSeqNum_ok (h : m.subs entry.packet = some sub) :
    m.getSeqNum entry = .ok (read32 (sub.buf.drop (entry.tcpPtr + 4))) := by
  rw [getSeqNum, load_ok h]
  rfl

theorem setSeqNum_ok (h : m.subs entry.packet = some sub) (seq : UInt32) : m.setSeqNum entry seq =
    .ok (m.putSub entry.packet { sub with
      buf := overwrite (entry.tcpPtr + 4) (le32 seq) sub.buf }) := by
  rw [setSeqNum, load_ok h]
  rfl

theorem getSeqNum_error (h : m.subs entry.packet = none) :
    m.getSeqNum entry = .error entry.packet := by
  rw [getSeqNum, load_error h]
  rfl

theorem freeSub_gone {a : Nat} (h : m.freeSub a = .ok m') : m'.subs a = none := by
  obtain ⟨subs, hfree, rfl⟩ := map_ok h
  rw [free_eq hfree]
  exact drop_same m.subs a

theorem unlink_subs (h : m.unlink x = .ok m') : m'.subs = m.subs := by
  obtain ⟨links, -, rfl⟩ := map_ok h
  rfl

theorem setEntry_subs (h : m.setEntry x entry = .ok m') : m'.subs = m.subs := by
  obtain ⟨entries, -, rfl⟩ := map_ok h
  rfl

theorem freeEntry_gone (h : m.freeEntry x = .ok m') : m'.subs = m.subs ∧ m'.links x = none := by
  obtain ⟨entries, -, h⟩ := bind_ok h
  obtain ⟨links, hfree, h⟩ := bind_ok h
  cases h
  rw [free_eq hfree]
  exact ⟨rfl, drop_same m.links x⟩

/-- An entry of the connection has its sequence number in host order while it is looked at; where it
is not acknowledged, that number is swapped back. -/
theorem stopEntry_own (he : m.entries x = some entry) (hs : m.subs entry.packet = some sub)
    (hin : entry.tcpPtr + tcpHdrLen ≤ sub.buf.length) (htcb : entry.tcb = self) :
    let first := ntohl (read32 (sub.buf.drop (entry.tcpPtr + 4)))
    let swapped :=
      m.putSub entry.packet { sub with buf := overwrite (entry.tcpPtr + 4) (le32 first) sub.buf }
    m.stopEntry malloc self tcb x =
      if first < tcb.sndUna then do
        let m ← swapped.acked malloc tcb x entry first
        m.setSeqNum entry (htonl (← m.getSeqNum entry))
      else .ok m := by
  intro first swapped
  have hlen : entry.tcpPtr + 4 + 4 ≤ sub.buf.length := by
    simp only [tcpHdrLen] at hin
    omega
  have hfour {v : UInt32} : (le32 v).length = 4 := rfl
  let host : Subuff := { sub with buf := overwrite (entry.tcpPtr + 4) (le32 first) sub.buf }
  have hhost : (m.putSub entry.packet host).subs entry.packet = some host := putSub_same ..
  have hread : read32 (host.buf.drop (entry.tcpPtr + 4)) = first := read32_overwrite hlen first
  have hback : { host with buf := overwrite (entry.tcpPtr + 4) (le32 (htonl first)) host.buf } =
    sub := by
    have hcover : overwrite (entry.tcpPtr + 4) (le32 (read32 (sub.buf.drop (entry.tcpPtr + 4))))
        (overwrite (entry.tcpPtr + 4) (le32 first) sub.buf) =
          overwrite (entry.tcpPtr + 4) (le32 (read32 (sub.buf.drop (entry.tcpPtr + 4)))) sub.buf :=
      overwrite_overwrite (by rw [hfour]; omega) rfl
    rw [htonl_ntohl, hcover, overwrite_read32 hlen]
  simp only [QueueMem.stopEntry, load_ok he, if_pos htcb, getSeqNum_ok hs, setSeqNum_ok hs, bind,
    Except.bind]
  rw [getSeqNum_ok hhost]
  simp only [hread]
  split_ifs with hacked
  · rfl
  · simp only [pure, Except.pure]
    rw [getSeqNum_ok hhost, hread]
    simp only
    rw [setSeqNum_ok hhost, hback, putSub_putSub, putSub_self hs]

theorem stopEntry_kept (he : m.entries x = some entry) (hs : m.subs entry.packet = some sub)
    (hin : entry.tcpPtr + tcpHdrLen ≤ sub.buf.length)
    (hseq : entry.tcb = self → ¬ ntohl (read32 (sub.buf.drop (entry.tcpPtr + 4))) < tcb.sndUna) :
    m.stopEntry malloc self tcb x = .ok m := by
  by_cases htcb : entry.tcb = self
  · rw [stopEntry_own he hs hin htcb, if_neg (hseq htcb)]
  · simp only [QueueMem.stopEntry, load_ok he, if_neg htcb, bind, Except.bind]
    rfl

theorem acked_gone (h : m.acked malloc tcb x entry seq = .ok m') : m'.subs entry.sub = none := by
  unfold acked at h
  split_ifs at h with hpart
  · obtain ⟨old, -, h⟩ := bind_ok h
    obtain ⟨freed, hfree, h⟩ := bind_ok h
    rw [setEntry_subs h]
    exact freeSub_gone hfree
  · obtain ⟨freed, hfree, h⟩ := bind_ok h
    obtain ⟨unlinked, hunlink, h⟩ := bind_ok h
    rw [(freeEntry_gone h).1, unlink_subs hunlink]
    exact freeSub_gone hfree

/-- The sequence number of an acknowledged entry is written back to a packet that is gone. -/
theorem stopEntry_acked (he : m.entries x = some entry) (hs : m.subs entry.packet = some sub)
    (hpacket : entry.packet = entry.sub) (hin : entry.tcpPtr + tcpHdrLen ≤ sub.buf.length)
    (htcb : entry.tcb = self)
    (hseq : ntohl (read32 (sub.buf.drop (entry.tcpPtr + 4))) < tcb.sndUna) :
    ∃ a, m.stopEntry malloc self tcb x = .error a := by
  rw [stopEntry_own he hs hin htcb, if_pos hseq]
  cases hdone : QueueMem.acked malloc tcb _ x entry _ with
  | error a => exact ⟨a, rfl⟩
  | ok m' =>
    have hgone : m'.subs entry.packet = none := hpacket ▸ acked_gone hdone
    exact ⟨entry.packet, by simp only [getSeqNum_error hgone, bind, Except.bind]⟩

theorem remove_gone (h : m.remove x entry = .ok m') : m'.links x = none := by
  obtain ⟨unlinked, -, h⟩ := bind_ok h
  obtain ⟨freed, -, h⟩ := bind_ok h
  exact (freeEntry_gone h).2

theorem countDown_kept (he : m.entries x = some entry)
    (hsend : entry.retries ≠ UInt32.ofInt retriesSendonce) (hlast : entry.retries ≠ 1) :
    ∃ m' k, m.countDown x entry = .ok m' ∧ retriesLeft entry.retries = some k ∧
      m'.links = m.links ∧ m'.subs = m.subs ∧ m'.entries x = some { entry with retries := k } ∧
      ∀ y, y ≠ x → m'.entries y = m.entries y := by
  unfold countDown retriesLeft
  rw [if_neg hsend, if_neg hsend]
  split_ifs with hinf hzero
  · exact ⟨m, entry.retries, rfl, rfl, rfl, rfl, he, fun _ _ => rfl⟩
  · have hone : entry.retries = 1 := by grind
    exact absurd hone hlast
  · have hsome : (m.entries x).isSome := by
      rw [he]
      rfl
    refine ⟨{ m with entries := put m.entries x { entry with retries := entry.retries - 1 } },
      entry.retries - 1, ?_, rfl, rfl, rfl, put_same .., fun y hy => put_other hy _⟩
    rw [setEntry, store_ok hsome]
    rfl

theorem countDown_removed
    (hret : ¬ (entry.retries ≠ UInt32.ofInt retriesSendonce ∧ entry.retries ≠ 1))
    (h : m.countDown x entry = .ok m') : m'.links x = none := by
  unfold countDown at h
  split_ifs at h with hsend hinf hzero
  · exact remove_gone h
  · exact absurd ⟨hsend, by rw [hinf]; decide⟩ hret
  · obtain ⟨m₁, -, h⟩ := bind_ok h
    exact remove_gone h
  · exact absurd ⟨hsend, fun hlast => hzero (by rw [hlast]; rfl)⟩ hret

theorem transmittedSub_longer (dev : NetDev) (sub : Subuff) (mac : List UInt8)
    (ethertype : UInt16) :
    sub.buf.length ≤ (transmittedSub dev sub mac ethertype).buf.length :=
  (le_overwrite_length _ _ _).trans ((le_overwrite_length _ _ _).trans (le_overwrite_length _ _ _))

/-- An attempt changes the packet of the entry as ip_output does in the queue of messages, and
nothing else. -/
theorem attempt_eq (hs : m.subs entry.sub = some sub) (hpacket : entry.packet = entry.sub)
    (hlen : ethHdrLen + ipHdrLen ≤ sub.buf.length) (cache : List ArpCacheEntry) (dstIpAddr : UInt32)
    (number : Nat) :
    ∃ out sub', (do (← m.reset entry).ipOutput entry cache dstIpAddr) =
        .ok (!getsOut dstIpAddr cache, m.putSub entry.sub sub') ∧
      (entry.message number sub).reset.ipOutput routeInit cache dstIpAddr =
        (out, entry.message number sub') ∧
      sub.buf.length ≤ sub'.buf.length ∧
      (getsOut dstIpAddr cache = false ↔ ∃ src dst, out = .again src dst) := by
  obtain ⟨rt, hrt⟩ : ∃ rt, routeLookup dstIpAddr routeInit = some rt := routeLookup_some _ _ _
  let given : Subuff := { sub with data := entry.tcpPtr, len := entry.tcpLen }
  have hgiven : ethHdrLen + ipHdrLen ≤ given.buf.length := hlen
  obtain ⟨eth, old, rest, hbuf, heth, hold⟩ := split_at hgiven
  have hdaddr : ntohl (readIp ((sentSub rt.dev dstIpAddr given).buf.drop ethHdrLen)).daddr =
      dstIpAddr := by
    rw [sentSub_buf rt.dev dstIpAddr hbuf heth hold, drop_middle heth, readIp_ipMem]
    exact ntohl_htonl dstIpAddr
  have hsent : sub.buf.length ≤ (sentSub rt.dev dstIpAddr given).buf.length :=
    (sentSub_behind hgiven rt.dev dstIpAddr).1.ge
  have hreset : m.reset entry = .ok (m.putSub entry.sub given) := by
    rw [reset, load_ok hs]
    rfl
  have hmessage : (entry.message number sub).reset =
      { entry.message number sub with sub := given } := rfl
  have hout : getsOut dstIpAddr cache = (arpGetHwaddr cache (nextHop rt dstIpAddr)).isSome := by
    rw [getsOut, hrt]
    rfl
  have hfound {a : Subuff} : load (m.putSub entry.sub a).subs entry.sub = .ok a :=
    load_ok (putSub_same ..)
  have hhop : (if rt.flags &&& rtGateway != 0 then rt.gateway else dstIpAddr) =
      nextHop rt dstIpAddr := rfl
  rw [hout, hmessage]
  simp only [hreset, QueueMem.ipOutput, Message.ipOutput, hfound, hrt, hpacket, putSub_putSub,
    hdaddr, hhop, bind, Except.bind]
  cases arpGetHwaddr cache (nextHop rt dstIpAddr) with
  | none =>
    exact ⟨_, sentSub rt.dev dstIpAddr given, rfl, rfl, hsent, fun _ => ⟨_, _, rfl⟩, fun _ => rfl⟩
  | some mac =>
    refine ⟨_, _, rfl, rfl, ?_, fun h => absurd h.symm Bool.false_ne_true, ?_⟩
    · exact hsent.trans (transmittedSub_longer rt.dev _ mac ethPIp)
    · rintro ⟨src, dst, h⟩
      cases h

/-- The wait is over with the first attempt that finds the next hop in the cache. -/
theorem waitOutput_eq (hs : m.subs entry.sub = some sub) (hpacket : entry.packet = entry.sub)
    (hlen : ethHdrLen + ipHdrLen ≤ sub.buf.length) (caches : List (List ArpCacheEntry))
    (dstIpAddr : UInt32) :
    ∃ sub', waitOutput entry dstIpAddr caches m =
      if caches.any (getsOut dstIpAddr) then .done (m.putSub entry.sub sub') else
        .running (m.putSub entry.sub sub') := by
  induction caches generalizing m sub with
  | nil => exact ⟨sub, by rw [putSub_self hs]; rfl⟩
  | cons cache caches ih =>
    obtain ⟨-, sub', hattempt, -, hlonger, -⟩ := attempt_eq hs hpacket hlen cache dstIpAddr 0
    rw [waitOutput, hattempt, List.any_cons]
    cases hout : getsOut dstIpAddr cache with
    | true => exact ⟨sub', rfl⟩
    | false =>
      obtain ⟨sub'', hwait⟩ := ih (putSub_same m entry.sub sub') (hlen.trans hlonger)
      refine ⟨sub'', ?_⟩
      rw [putSub_putSub] at hwait
      rw [Bool.false_or]
      exact hwait

end Accesses

section Walks
open QueueMem
variable (q : MessagesArray)

variable {q} in
theorem MessagesArray.long {x : Nat} (hx : x ∈ q.items) :
    ethHdrLen + ipHdrLen ≤ (q.sub x).buf.length :=
  (q.room x hx).trans ((Nat.le_add_right _ _).trans (q.inside x hx))

/-- calloc, list_init and list_add_tail together put `x` at the end. -/
theorem MessagesArray.link_last {x : Nat} (hx : x ∉ q.head :: q.items) :
    ∃ s s', listInit (put q.mem.links x ⟨0, 0⟩) x = .ok s ∧ listAddTail s x q.head = .ok s' ∧
      Ring s' q.head (q.items ++ [x]) := by
  have hcalloc : (put q.mem.links x ⟨0, 0⟩ x).isSome := by
    rw [put_same]
    rfl
  obtain ⟨s, hinit, hself, hframe⟩ := listInit_ring hcalloc
  have hring : Ring s q.head q.items := q.ring.congr fun b hb => by
    have hne : b ≠ x := ne_of_mem_of_not_mem hb hx
    rw [hframe b hne, put_other hne]
  obtain ⟨s', hadd, hring', -⟩ := listAddTail_ring hring hx (hself.allocated List.mem_cons_self)
  exact ⟨s, s', hinit, hadd, hring'⟩

theorem addMsgToArr_wellFormed {x a : Nat} (hx : x ∉ q.head :: q.items)
    (ha : ∀ y ∈ q.items, (q.entry y).sub ≠ a) {tcb : Tcb} {data : List UInt8} {flags : UInt8}
    (hsub : q.mem.subs a = some (createTcpPacket tcb data (UInt32.ofNat data.length) flags).1)
    (self : Nat) (retries : Int) :
    ∃ q' : MessagesArray, q.mem.addMsgToArr q.head x self a retries = .ok q'.mem ∧
      q'.head = q.head ∧
      q'.items = q.items ++ [x] := by
  have hlen : (UInt32.ofNat data.length).toNat ≤ data.length := by
    rw [UInt32.toNat_ofNat']
    exact Nat.mod_le _ _
  have hpacket := createTcpPacket_sub tcb data (UInt32.ofNat data.length) flags hlen
  generalize (createTcpPacket tcb data (UInt32.ofNat data.length) flags).1 = given at hsub hpacket
  have hxi : x ∉ q.items := fun hin => hx (List.mem_cons_of_mem q.head hin)
  obtain ⟨s, s', hinit, hadd, hring⟩ := q.link_last hx
  let entry : QueueEntry :=
    { tcb := self, sub := a, packet := a, tcpPtr := given.data, tcpLen := given.len,
      tcpDataLen := given.dlen, retries := UInt32.ofInt retries }
  have hnew : Function.update q.entry x entry x = entry := Function.update_self x entry q.entry
  have hgiven : Function.update q.sub x given x = given := Function.update_self x given q.sub
  have hold {y : Nat} (hy : y ∈ q.items) : y ≠ x ∧ Function.update q.entry x entry y = q.entry y ∧
      Function.update q.sub x given y = q.sub y := by
    have hne : y ≠ x := ne_of_mem_of_not_mem hy hxi
    exact ⟨hne, Function.update_of_ne hne entry q.entry, Function.update_of_ne hne given q.sub⟩
  have hitems {P : Nat → Prop} (hq : ∀ y ∈ q.items, P y) (hlast : P x) :
      ∀ y ∈ q.items ++ [x], P y :=
    List.forall_mem_append.mpr ⟨hq, List.forall_mem_singleton.mpr hlast⟩
  refine ⟨{
    mem := { links := s', entries := put q.mem.entries x entry, subs := q.mem.subs }
    head := q.head
    items := q.items ++ [x]
    entry := Function.update q.entry x entry
    sub := Function.update q.sub x given
    ring := hring
    entries := hitems (fun y hy => ?_) ?_
    subs := hitems (fun y hy => ?_) ?_
    packet := hitems (fun y hy => ?_) ?_
    room := hitems (fun y hy => ?_) ?_
    inside := hitems (fun y hy => ?_) ?_
    apart :=
      hitems (fun y hy => hitems (fun z hz => ?_) ?_) (hitems (fun z hz => ?_) ?_) }, ?_, rfl, rfl⟩
  · rw [(hold hy).2.1]
    exact (put_other (hold hy).1 entry).trans (q.entries y hy)
  · rw [hnew]
    exact put_same q.mem.entries x entry
  · rw [(hold hy).2.1, (hold hy).2.2]
    exact q.subs y hy
  · rw [hnew, hgiven]
    exact hsub
  · rw [(hold hy).2.1]
    exact q.packet y hy
  · rw [hnew]
  · rw [(hold hy).2.1]
    exact q.room y hy
  · rw [hnew]
    exact (congrArg Subuff.data hpacket).ge
  · rw [(hold hy).2.1, (hold hy).2.2]
    exact q.inside y hy
  · rw [hnew, hgiven]
    have hdata : given.data = 34 := congrArg Subuff.data hpacket
    have hbuf := congrArg (fun sub => sub.buf.length) hpacket
    simp only [List.length_append, List.length_replicate, tcpMem_length] at hbuf
    simp only [entry, hdata, tcpHdrLen]
    omega
  · rw [(hold hy).2.1, (hold hz).2.1]
    exact q.apart y hy z hz
  · rw [(hold hy).2.1, hnew]
    exact fun he => absurd he (ha y hy)
  · rw [(hold hz).2.1, hnew]
    exact fun he => absurd he.symm (ha z hz)
  · exact fun _ => rfl
  · simp only [QueueMem.addMsgToArr, hinit, load_ok hsub, hadd, bind, Except.bind]
    rfl

structure Unchanged (todo : List Nat) (m : QueueMem) : Prop where
  mem : m = q.mem
  suffix : ∃ front, q.items = front ++ todo

variable {q} in
theorem Unchanged.next {self : Nat} {tcb : Tcb} {x : Nat} {rest : List Nat} {m : QueueMem}
    (h : Unchanged q (x :: rest) m) (malloc : QueueMem → Nat)
    (hseq : (q.entry x).tcb = self → ¬ q.seqNum x < tcb.sndUna) :
    ∃ m', Outcome.of (m.stopEntry malloc self tcb x) = .done m' ∧ Unchanged q rest m' ∧
      nextOf m'.links x = (rest ++ [q.head]).head? := by
  obtain ⟨rfl, front, hitems⟩ := h
  have hx : x ∈ q.items := hitems ▸ List.mem_append_right front List.mem_cons_self
  have hpacket : q.mem.subs (q.entry x).packet = some (q.sub x) := q.packet x hx ▸ q.subs x hx
  have hring : Ring q.mem.links q.head (front ++ x :: rest) := hitems ▸ q.ring
  refine ⟨q.mem, ?_, ⟨rfl, front ++ [x], by rw [hitems, List.append_assoc]; rfl⟩, hring.next⟩
  rw [stopEntry_kept (q.entries x hx) hpacket (q.inside x hx) hseq]
  rfl

/-- stop_retransmit comes through the queue when it has nothing to take out or to replace. -/
theorem stopRetransmit_iff (malloc : QueueMem → Nat) (self : Nat) (tcb : Tcb) :
    WalksAll (fun fuel => QueueMem.stopRetransmit malloc self tcb q.head fuel q.mem) q.items
      (fun _ => True) ↔
      ∀ x ∈ q.items, (q.entry x).tcb = self → ¬ q.seqNum x < tcb.sndUna := by
  refine listForEach_all_iff (I := Unchanged q) (fun x rest m h hseq => h.next malloc hseq)
    (fun x rest m h hseq => ?_)
    ⟨rfl, [], rfl⟩ q.ring
  obtain ⟨rfl, front, hitems⟩ := h
  have hx : x ∈ q.items := hitems ▸ List.mem_append_right front List.mem_cons_self
  have hpacket : q.mem.subs (q.entry x).packet = some (q.sub x) := q.packet x hx ▸ q.subs x hx
  obtain ⟨htcb, hacked⟩ := Classical.not_imp.mp hseq
  have hfault : ∃ a, q.mem.stopEntry malloc self tcb x = .error a :=
    stopEntry_acked (q.entries x hx) hpacket (q.packet x hx) (q.inside x hx) htcb
      (Classical.not_not.mp hacked)
  obtain ⟨a, ha⟩ := hfault
  exact .inl ⟨a, by rw [ha]; rfl⟩

structure Ahead (todo : List Nat) (m : QueueMem) : Prop where
  links : m.links = q.mem.links
  suffix : ∃ front, q.items = front ++ todo
  entries : ∀ x ∈ todo, m.entries x = some (q.entry x)
  subs : ∀ x ∈ todo, m.subs (q.entry x).sub = some (q.sub x)

variable {q} {remoteIp : Nat → UInt32} {caches : Nat → List (List ArpCacheEntry)} {x : Nat}
  {rest : List Nat} {m : QueueMem}

theorem Ahead.mem (h : Ahead q (x :: rest) m) : x ∈ q.items ∧ ∀ y ∈ rest, y ∈ q.items ∧ y ≠ x := by
  obtain ⟨front, hitems⟩ := h.suffix
  have hapart : x ∉ q.head :: (front ++ rest) := (middle_apart (hitems ▸ q.ring.nodup)).1
  have hx : x ∉ front ++ rest := fun hin => hapart (List.mem_cons_of_mem q.head hin)
  rw [hitems]
  refine ⟨List.mem_append_right front List.mem_cons_self, fun y hy => ⟨?_, ?_⟩⟩
  · exact List.mem_append_right front (List.mem_cons_of_mem x hy)
  · exact ne_of_mem_of_not_mem (List.mem_append_right front hy) hx

/-- Until it is out, an entry changes at most in its packet. -/
theorem Ahead.wait (h : Ahead q (x :: rest) m) (remoteIp : Nat → UInt32)
    (caches : Nat → List (List ArpCacheEntry)) :
    ∃ sub', QueueMem.retransmitEntry remoteIp caches x m =
      if q.getsOut remoteIp caches x then Outcome.of
        ((m.putSub (q.entry x).sub sub').countDown x (q.entry x))
      else .running (m.putSub (q.entry x).sub sub') := by
  obtain ⟨sub', hwait⟩ :=
    waitOutput_eq (h.subs x List.mem_cons_self) (q.packet x h.mem.1) (q.long h.mem.1) (caches x)
      (remoteIp (q.entry x).tcb)
  refine ⟨sub', ?_⟩
  cases hout : q.getsOut remoteIp caches x with
  | true =>
    have hany : (caches x).any (Wire.getsOut (remoteIp (q.entry x).tcb)) = true := hout
    rw [hany, if_pos rfl] at hwait
    simp only [QueueMem.retransmitEntry, load_ok (h.entries x List.mem_cons_self), hwait, if_true]
  | false =>
    have hany : (caches x).any (Wire.getsOut (remoteIp (q.entry x).tcb)) = false := hout
    rw [hany, if_neg Bool.false_ne_true] at hwait
    simp only [QueueMem.retransmitEntry, load_ok (h.entries x List.mem_cons_self), hwait,
      Bool.false_eq_true, if_false]

theorem Ahead.next (h : Ahead q (x :: rest) m) (hout : q.getsOut remoteIp caches x = true)
    (hsend : (q.entry x).retries ≠ UInt32.ofInt retriesSendonce) (hlast : (q.entry x).retries ≠ 1) :
    ∃ m', QueueMem.retransmitEntry remoteIp caches x m = .done m' ∧ Ahead q rest m' ∧
      nextOf m'.links x = (rest ++ [q.head]).head? := by
  obtain ⟨sub', hwait⟩ := h.wait remoteIp caches
  obtain ⟨front, hitems⟩ := h.suffix
  have hentry : (m.putSub (q.entry x).sub sub').entries x = some (q.entry x) :=
    h.entries x List.mem_cons_self
  obtain ⟨m', -, hdone, -, hlinks, hsubs, -, hentries⟩ := countDown_kept hentry hsend hlast
  rw [if_pos hout, hdone] at hwait
  have hsame : m'.links = q.mem.links := hlinks.trans h.links
  have hring : Ring m'.links q.head (front ++ x :: rest) := hsame ▸ hitems ▸ q.ring
  refine ⟨m', hwait, ⟨hsame, ⟨front ++ [x], by rw [hitems, List.append_assoc]; rfl⟩, fun y hy => ?_,
    fun y hy => ?_⟩, hring.next⟩
  · rw [hentries y (h.mem.2 y hy).2]
    exact h.entries y (List.mem_cons_of_mem x hy)
  · have hne : (q.entry y).sub ≠ (q.entry x).sub := fun he =>
      (h.mem.2 y hy).2 (q.apart y (h.mem.2 y hy).1 x h.mem.1 he)
    rw [hsubs, putSub_other hne]
    exact h.subs y (List.mem_cons_of_mem x hy)

/-- An entry whose counter has run out is freed before list_for_each reads its link. -/
theorem Ahead.freed (h : Ahead q (x :: rest) m) (hout : q.getsOut remoteIp caches x = true)
    (hret : ¬ ((q.entry x).retries ≠ UInt32.ofInt retriesSendonce ∧ (q.entry x).retries ≠ 1)) :
    (∃ a, QueueMem.retransmitEntry remoteIp caches x m = .fault a) ∨
      ∃ m', QueueMem.retransmitEntry remoteIp caches x m = .done m' ∧ m'.links x = none := by
  obtain ⟨sub', hwait⟩ := h.wait remoteIp caches
  rw [if_pos hout] at hwait
  cases hdone : (m.putSub (q.entry x).sub sub').countDown x (q.entry x) with
  | error a => exact .inl ⟨a, by rw [hwait, hdone]; rfl⟩
  | ok m' => exact .inr ⟨m', by rw [hwait, hdone]; rfl, countDown_removed hret hdone⟩

/-- tcp_retransmit_handler comes through the queue as long as no counter runs out. -/
theorem tcpRetransmitHandler_iff (q : MessagesArray) (remoteIp : Nat → UInt32)
    (caches : Nat → List (List ArpCacheEntry)) :
    WalksAll (fun fuel => QueueMem.tcpRetransmitHandler remoteIp caches q.head fuel q.mem) q.items
        (fun x => q.getsOut remoteIp caches x = true) ↔
      ∀ x ∈ q.items.takeWhile (q.getsOut remoteIp caches),
        (q.entry x).retries ≠ UInt32.ofInt retriesSendonce ∧ (q.entry x).retries ≠ 1 := by
  have hsame : (fun x => decide (q.getsOut remoteIp caches x = true)) = q.getsOut remoteIp caches :=
    funext fun x => Bool.decide_eq_true
  refine Iff.trans (listForEach_iff (I := Ahead q)
    (Q := fun x => (q.entry x).retries ≠ UInt32.ofInt retriesSendonce ∧ (q.entry x).retries ≠ 1)
    (fun x rest m h hout hQ => h.next hout hQ.1 hQ.2) (fun x rest m h hout => ?_)
    (fun x rest m h hout hQ => h.freed hout hQ) ⟨rfl, ⟨[], rfl⟩, q.entries,
      q.subs⟩ q.ring) (by rw [hsame])
  obtain ⟨sub', hwait⟩ := h.wait remoteIp caches
  rw [if_neg hout] at hwait
  exact ⟨_, hwait⟩

/-- Both walks are right exactly as long as they free nothing: what stop_retransmit has freed it
still writes to, and what tcp_retransmit_handler has freed list_for_each still reads. -/
theorem queue_walks (q : MessagesArray) :
    (∀ (malloc : QueueMem → Nat) (self : Nat) (tcb : Tcb),
      WalksAll (fun fuel => QueueMem.stopRetransmit malloc self tcb q.head fuel q.mem) q.items
        (fun _ => True) ↔
        ∀ x ∈ q.items, (q.entry x).tcb = self → ¬ q.seqNum x < tcb.sndUna) ∧
    ∀ (remoteIp : Nat → UInt32) (caches : Nat → List (List ArpCacheEntry)),
      WalksAll (fun fuel => QueueMem.tcpRetransmitHandler remoteIp caches q.head fuel q.mem) q.items
          (fun x => q.getsOut remoteIp caches x = true) ↔
        ∀ x ∈ q.items.takeWhile (q.getsOut remoteIp caches),
          (q.entry x).retries ≠ UInt32.ofInt retriesSendonce ∧ (q.entry x).retries ≠ 1 :=
  ⟨stopRetransmit_iff q, tcpRetransmitHandler_iff q⟩

end Walks

section Sample

def ackBlock : Tcb where
  state := .established
  localPort := 49155
  remotePort := 43211
  localIp := 0x0400000a
  remoteIp := 0x0a000005
  rcvNxt := 5001
  irs := 5000
  rcvBuffLen := 0
  rcvBuff := FixedBuffer.fill tcpRcvMax.toNat 0
  sndUna := 1001
  sndNxt := 1001
  sndWnd := 500
  iss := 1000

def ackQueue : MessagesArray where
  mem :=
    { links := fun a => if a = 0 then some ⟨1, 1⟩ else if a = 1 then some ⟨0, 0⟩ else none
      entries := fun a =>
        if a = 1 then
          some { tcb := 5, sub := 2, packet := 2, tcpPtr := 34, tcpLen := 20, tcpDataLen := 0,
                 retries := UInt32.ofInt retriesSendonce }
        else none
      subs := fun a => if a = 2 then some (createTcpPacket ackBlock [] 0 tcpAck).1 else none }
  head := 0
  items := [1]
  entry _ :=
    { tcb := 5, sub := 2, packet := 2, tcpPtr := 34, tcpLen := 20, tcpDataLen := 0,
      retries := UInt32.ofInt retriesSendonce }
  sub _ := (createTcpPacket ackBlock [] 0 tcpAck).1
  ring := ⟨by decide, .cons_cons ⟨rfl, rfl⟩ (.cons_cons ⟨rfl, rfl⟩ (.singleton 0))⟩
  entries := List.forall_mem_singleton.mpr rfl
  subs := List.forall_mem_singleton.mpr rfl
  packet := List.forall_mem_singleton.mpr rfl
  room := List.forall_mem_singleton.mpr (by decide)
  inside := List.forall_mem_singleton.mpr (by decide +kernel)
  apart := List.forall_mem_singleton.mpr (List.forall_mem_singleton.mpr fun _ => rfl)

def gatewayKnown : List ArpCacheEntry :=
  [{ state := .resolved, srcIp := 0x0a000005, srcMac := FixedBuffer.fill 6 1 }]

/-- The packet is freed before its sequence number is swapped back, and the entry before its link is
read. -/
theorem queue_walks_freed :
    QueueMem.stopRetransmit (fun _ => 3) 5 { ackBlock with
      sndUna := 1004, sndNxt := 1004 } ackQueue.head 2
        ackQueue.mem = .fault 2 ∧
    QueueMem.tcpRetransmitHandler (fun _ => 0x0a000005) (fun _ => [gatewayKnown]) ackQueue.head 2
        ackQueue.mem = .fault 1 := by
  constructor
  · rfl
  · rfl

end Sample

end AnpNetstack.Wire
