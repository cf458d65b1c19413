import AnpNetstack.FrameBytes
import AnpNetstack.PeerCalls

/-! Two instances of the stack with everything down to the frames: the queue with its bytes, the ARP
cache, the receive thread, and a pass of tcp_retransmit_handler that holds msg_arr_lock from attempt
to attempt. What is on the wire is frames; other stations may put frames of their own there. -/
namespace AnpNetstack.Wire
open Packed FixedBuffer Runs Duplex

section Queue

def queueTx (alloc : Bool) (c : Conn) (data : List UInt8) (n : UInt32) (flags : UInt8)
    (retries : Int) :
    List QueueEvent :=
  let text := data.take n.toNat
  if h : text.length ≤ tcpMaxSegSize.toNat ∧ retriesValid retries = true then
    [.add { self := c.self, tcb := c.tcb, data := text, flags := flags, retries := retries,
            size := h.1, valid := h.2 } alloc]
  else []

def rxStops (c : Conn) (pkt : Packet) : List QueueEvent :=
  let h := pkt.tcp.hdr
  if !accepted c.tcb pkt || c.tcbLock then []
  else match c.tcb.state with
    | .synSent => if hasFlag h.flags tcpSyn then [.stop c.self (takeSyn c.tcb h)] else []
    | .synReceived =>
      if hasFlag h.flags tcpAck && ackAdvances c.tcb h then [.stop c.self c.tcb] else []
    | .established =>
      if hasFlag h.flags tcpAck && ackAdvances c.tcb h then [.stop c.self (takeAck c.tcb h)] else []
    | _ => []

def queueOps (c : Conn) : Event → List QueueEvent
  | .connect => if c.fresh then queueTx true c [] 0 tcpSyn retriesConnMax else []
  | .sendRound i alloc =>
    match c.calls[i]? with
    | none => []
    | some call =>
      if call.result.isSome || !decide (call.dataSent ≤ call.dataSize) then []
      else queueTx alloc c (call.data.drop call.dataSent.toNat)
        (nxtSegSize c.tcb call.dataSize call.dataSent)
        call.flags call.retries
  | .segment pkt => if c.rx.isEmpty then rxStops c pkt else []
  | .rxStep =>
    match c.rx with
    | .tx flags retries :: _ => queueTx true c [] 0 flags retries
    | _ => []
  | .closeFin => if c.closing then queueTx true c [] 0 tcpFinAck retriesSendonce else []
  | .closeTimer => if c.closeTimers = 0 ∨ c.tcbLock then [] else [.stop c.self c.tcb]
  | _ => []

def WireQueue.outputVia (q : WireQueue) (routes : List RtEntry) (remoteIp : Nat → UInt32) :
    WireQueue × List (List UInt8) :=
  match q.todo with
  | [] => (q, [])
  | m :: rest =>
    let m := m.reset
    let r := m.ipOutput routes q.cache (remoteIp m.tcb)
    match r.1 with
    | .again src dst =>
      ({ q with todo := r.2 :: rest, log := q.log ++ [.again m.number] },
        ((routeLookup (remoteIp m.tcb) routes).map fun rt => arpRequest src dst rt.dev).toList)
    | out =>
      let left := retriesLeft m.retries
      ({ q with
          passed := q.passed ++ (left.map fun k => { r.2 with retries := k }).toList
          todo := rest
          log := q.log ++ writeNotes m out ++
            [.visited { number := m.number, removed := left.isNone,
                        signalled := if expires m.retries then some m.tcb else none }] },
        out.frames)

/-- With the routes of config.h this is the step of the queue alone. -/
theorem outputVia_output (q : WireQueue) (remoteIp : Nat → UInt32) :
    (q.outputVia routeInit remoteIp).1 = q.output remoteIp := by
  cases htodo : q.todo with
  | nil => simp only [WireQueue.outputVia, WireQueue.output, htodo]
  | cons m rest =>
    obtain ⟨out, m', hr⟩ : ∃ out m', m.reset.ipOutput routeInit q.cache (remoteIp m.reset.tcb) =
        (out, m') :=
      ⟨_, _, rfl⟩
    simp only [WireQueue.outputVia, WireQueue.output, htodo, hr]
    cases out <;> rfl

end Queue

section Host

/-- One instance. `waiting` is a packet with which the receive thread stands at msg_arr_lock; the
messages_array of `conn` is history, the entries themselves are in `queue`. -/
structure Host where
  ext : NetDev
  routes : List RtEntry
  conn : Conn
  queue : WireQueue
  waiting : Option Packet

/-- `call` is what applications, timers and the rest of tcp_rx do; the others are steps of
tcp_retransmit_handler, and `resume` that the receive thread gets the lock. -/
inductive HostEvent where
  | call (e : Event)
  | begin
  | output
  | finish
  | resume

namespace Host
variable (h : Host)

def remoteIp (_ : Nat) : UInt32 := h.conn.tcb.remoteIp

def blocked (e : Event) : Bool := h.queue.busy && !(queueOps h.conn e).isEmpty

def perform (e : Event) : Host :=
  { h with
    conn := step h.conn e
    queue := run (queueStep h.remoteIp) h.queue (queueOps h.conn e) }

/-- What the instance does on its own, and the frames it writes with that. The pass is counted where
it begins: until it ends no one else gets at the queue. -/
def act : HostEvent → Host × List (List UInt8)
  | .call (.segment _) => (h, [])
  | .call .retransmit => (h, [])
  | .call e => if h.blocked e then (h, []) else (h.perform e, [])
  | .begin =>
    if h.queue.busy then (h, [])
    else ({ h with conn := retransmit h.conn, queue := h.queue.begin }, [])
  | .output =>
    if h.queue.busy then
      let r := h.queue.outputVia h.routes h.remoteIp
      ({ h with queue := r.1 }, r.2)
    else (h, [])
  | .finish => ({ h with queue := h.queue.finish }, [])
  | .resume =>
    match h.waiting with
    | none => (h, [])
    | some pkt =>
      if h.queue.busy then (h, []) else ({ h with waiting := none }.perform (.segment pkt), [])

/-- One round of netdev_rx_loop. The thread does not read while it is still in tcp_rx. What
icmp_reply writes is left to the other stations of the network: it is no TCP. -/
def take (frame : List UInt8) : Host × List (List UInt8) :=
  if h.waiting.isSome || !h.conn.rx.isEmpty then (h, [])
  else match netdevRx frame with
    | .tcp pkt =>
      (if h.blocked (.segment pkt) then { h with waiting := some pkt } else
        h.perform (.segment pkt), [])
    | .arp =>
      let r := arpInput h.ext h.queue.cache frame
      ({ h with queue := { h.queue with cache := r.1 } }, r.2)
    | _ => (h, [])

end Host

end Host

section Ether

structure Foreign where
  bytes : List UInt8
  noTcp : ∀ pkt, netdevRx bytes ≠ .tcp pkt

/-- A frame that is delivered may have been changed on its way as a router does it: what it carries
is the same. -/
inductive EtherMove where
  | act (s : Side) (e : HostEvent)
  | deliver (s : Side) (i : Nat) (frame : List UInt8)
  | foreign (s : Side) (frame : Foreign)

def carryOut (n : Net Host (List UInt8)) (s : Side) (r : Host × List (List UInt8)) :
    Net Host (List UInt8) where
  party := Function.update n.party s r.1
  medium := Function.update n.medium s (n.medium s ++ r.2)

def etherStep (n : Net Host (List UInt8)) : EtherMove → Net Host (List UInt8)
  | .act s e => carryOut n s ((n.party s).act e)
  | .deliver s i frame =>
    match (n.medium s.other)[i]? with
    | none => n
    | some sent => if netdevRx frame = netdevRx sent then carryOut n s
      ((n.party s).take frame) else n
  | .foreign s frame => carryOut n s ((n.party s).take frame.bytes)

/-- config.h of an instance, its ARP cache and the block of its connection, with the local address
that connect takes from the route. -/
structure Station where
  addr : UInt32
  hwaddr : Buffer UInt8 6
  gateway : UInt32
  cache : List ArpCacheEntry
  block : PeerBlock
  alone : block.msgs = []
  source : ∀ rt, routeLookup block.remoteIp
    (routeInitFor (netdevAlloc addr hwaddr 1500) gateway) = some rt →
    block.localIp = ntohl rt.dev.addr

namespace Station
variable (st : Station)

def ext : NetDev := netdevAlloc st.addr st.hwaddr 1500

def routes : List RtEntry := routeInitFor st.ext st.gateway

def host : Host where
  ext := st.ext
  routes := st.routes
  conn := st.block.conn
  queue := emptyQueue st.cache
  waiting := none

end Station

def etherOf (near far : Station) : Net Host (List UInt8) where
  party
    | .near => near.host
    | .far => far.host
  medium _ := []

end Ether

end AnpNetstack.Wire
