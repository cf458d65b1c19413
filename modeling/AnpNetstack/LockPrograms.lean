import AnpNetstack.LockTrace
import AnpNetstack.SocketTable

/-! What each function of tcp.c and anpwrapper.c does with the mutexes. Where other threads
have a say, as on the window of a later round of tcp_tx, there is a trace for each thing they
may have done. timer_oneshot only takes the timer's own mutex, for a moment. -/
namespace AnpNetstack
open LockTrace

inductive Mutex where
  | fdLock
  | portLock
  | tcbLock (b : Nat)
  | sendLock (b : Nat)
  | msgArrLock
  deriving DecidableEq, Repr

def Mutex.rank : Mutex → Nat
  | .fdLock => 0
  | .portLock => 0
  | .tcbLock _ => 1
  | .sendLock _ => 2
  | .msgArrLock => 3

abbrev Ops := List (Op Mutex)

/-- add_msg_to_arr returns before it takes the mutex when calloc fails. -/
def addMsgToArrOps (alloc : Bool) : Ops :=
  if alloc then [.lock .msgArrLock, .unlock .msgArrLock] else []

def windowFull (tcb : Tcb) : Bool := decide (tcb.sndNxt - tcb.sndUna ≥ tcb.sndWnd)

/-- tcp_tx from the round on that starts with `sent` bytes sent. `seen` is the block as the
round finds it; create_tcp_packet cannot fail, since alloc_sub never returns NULL. -/
inductive TcpTxOps (b : Nat) (dataSize : UInt32) (flags : UInt8) : UInt32 → Ops → Prop where
  | past {sent : UInt32} (h : ¬ sent ≤ dataSize) : TcpTxOps b dataSize flags sent []
  | last {sent : UInt32} (seen : Tcb) (alloc : Bool) (hle : sent ≤ dataSize)
      (h : sent + nxtSegSize seen dataSize sent = dataSize) :
      TcpTxOps b dataSize flags sent
        (.lock (.sendLock b) :: addMsgToArrOps alloc ++ [.unlock (.sendLock b)])
  | more {sent : UInt32} {ops : Ops} (seen : Tcb) (alloc : Bool) (hle : sent ≤ dataSize)
      (h : sent + nxtSegSize seen dataSize sent ≠ dataSize)
      (rest : TcpTxOps b dataSize flags (sent + nxtSegSize seen dataSize sent) ops) :
      TcpTxOps b dataSize flags sent
        (.lock (.sendLock b) :: addMsgToArrOps alloc ++
          (if windowFull { seen with
              sndNxt := seen.sndNxt + ctlLen flags + nxtSegSize seen dataSize sent }
            then [.wait (.sendLock b)] else []) ++ [.unlock (.sendLock b)] ++ ops)

def tcpTxEmptyOps (b : Nat) (alloc : Bool) : Ops :=
  .lock (.sendLock b) :: addMsgToArrOps alloc ++ [.unlock (.sendLock b)]

def stopRetransmitOps : Ops := [.lock .msgArrLock, .unlock .msgArrLock]

structure RxLocals where
  tcb : Nat
  unlockedTcb : Bool
  unlockedSend : Bool

def dropPktOps (l : RxLocals) : Ops :=
  (if l.unlockedTcb = false then [.unlock (.tcbLock l.tcb)] else []) ++
    (if l.unlockedSend = false then [.unlock (.sendLock l.tcb)] else [])

def finOps (alloc : Bool) (b : Nat) (tcb : Tcb) (pkt : Packet) : Ops :=
  if tcb.state = .closed ∨ tcb.state = .synSent then
    dropPktOps { tcb := b, unlockedTcb := false, unlockedSend := true }
  else if hasFlag pkt.tcp.hdr.flags tcpFin then
    if tcb.state = .finWait1 ∨ tcb.state = .finWait2 then
      tcpTxEmptyOps b alloc ++ [.unlock (.tcbLock b)]
    else []
  else [.unlock (.tcbLock b)]

/-- tcp_rx after the switch: the text and the FIN bit. `alloc i` is the outcome of calloc in
the call's tcp_tx number `i`. -/
def textOps (alloc : Nat → Bool) (b : Nat) (tcb : Tcb) (pkt : Packet) : Ops :=
  if segmentLen pkt ≠ 0 then
    if pkt.tcp.hdr.seqNum ≠ tcb.rcvNxt then
      dropPktOps { tcb := b, unlockedTcb := false, unlockedSend := true }
    else
      (if finalCopySize tcb (segmentLen pkt) > 0 then tcpTxEmptyOps b (alloc 1) else []) ++
        finOps (alloc 2) b tcb pkt
  else finOps (alloc 2) b tcb pkt

def switchOps (alloc : Nat → Bool) (b : Nat) (tcb : Tcb) (pkt : Packet) : Ops :=
  let h := pkt.tcp.hdr
  let drop := dropPktOps { tcb := b, unlockedTcb := false, unlockedSend := false }
  if tcb.state = .closed then drop
  else if tcb.state = .synSent then
    if hasFlag h.flags tcpSyn then
      stopRetransmitOps ++ [.unlock (.sendLock b)] ++ tcpTxEmptyOps b (alloc 0) ++
        [.unlock (.tcbLock b)]
    else drop
  else if hasFlag h.flags tcpAck = false then drop
  else match tcb.state with
    | .synReceived =>
      if ackAdvances tcb h then
        stopRetransmitOps ++ [.unlock (.sendLock b)] ++ tcpTxEmptyOps b (alloc 0) ++
          textOps alloc b { tcb with state := .established } pkt
      else drop
    | .established =>
      (if ackAdvances tcb h then stopRetransmitOps else []) ++ [.unlock (.sendLock b)] ++
        textOps alloc b (takeAck tcb h) pkt
    | .finWait1 => [.unlock (.sendLock b)] ++ textOps alloc b { tcb with state := .finWait2 } pkt
    | _ => drop

/-- tcp_rx. The jumps before the initializers leave the local variables as `stale`. -/
def tcpRxOps (alloc : Nat → Bool) (stale : RxLocals) (found : Option Nat) (seen : Tcb)
    (pkt : Packet) :
    Ops :=
  if tooShort pkt then dropPktOps stale
  else if !csumValid pkt then dropPktOps stale
  else match found with
    | none => dropPktOps { tcb := 0, unlockedTcb := false, unlockedSend := false }
    | some b => [.lock (.tcbLock b), .lock (.sendLock b)] ++ switchOps alloc b seen pkt

def lookup (cache : List (Nat × Tcb)) (pkt : Packet) : Option Nat :=
  (cache.find? (fun x => getTcbMatch x.2 pkt)).map Prod.fst

def isAnpSockfdOps : Ops := [.lock .fdLock, .unlock .fdLock]

/-- get_port keeps the mutex when it finds the ports exhausted. -/
def getPortOps (availablePort : UInt16) : Ops :=
  if availablePort.toUInt32 > portsEnding then [.lock .portLock] else
    [.lock .portLock, .unlock .portLock]

def readBytesOps (b : Nat) (empty : Bool) : Ops :=
  .lock (.tcbLock b) :: [] ++ (if empty then [.wait (.tcbLock b)] else []) ++ [.unlock (.tcbLock b)]

def connectBlockOps (b : Nat) (tx : Ops) : Ops :=
  [.init (.tcbLock b), .init (.sendLock b), .lock (.tcbLock b)] ++ tx ++
    [.wait (.tcbLock b), .unlock (.tcbLock b)]

/-- The part of close that works on the block. The unlock at the end comes after the free of the
block, which is taken to keep its contents. -/
def closeBlockOps (b : Nat) (seen : Tcb) (tx : Ops) : Ops :=
  if seen.state ≠ .established then [.lock (.tcbLock b)]
  else .lock (.tcbLock b) :: tx ++ [.wait (.tcbLock b)] ++ [.unlock (.tcbLock b)]

def closeConnectionOps (b : Nat) : Ops :=
  .lock (.tcbLock b) :: stopRetransmitOps ++ [.unlock (.tcbLock b)]

/-- One entry in a pass of tcp_retransmit_handler; `pause` is its loop around ip_output. -/
def retransmitEntryOps (entry : TcpMessage) : Ops :=
  if entry.retries = UInt32.ofInt retriesSendonce then [.pause]
  else if entry.retries = UInt32.ofInt retriesInfinite then [.pause]
  else if entry.retries - 1 = 0 then
    [.pause, .lock (.tcbLock entry.tcb), .unlock (.tcbLock entry.tcb)]
  else [.pause]

def retransmitOps (msgs : List TcpMessage) : Ops :=
  .lock .msgArrLock :: msgs.flatMap retransmitEntryOps ++ [.unlock .msgArrLock]

/-- A call with its arguments and what it finds: the tables, and the block once the call
has got to it. -/
inductive Call where
  | tcpRx (cache : List (Nat × Tcb)) (seen : Tcb) (pkt : Packet)
  | connect (t : Table) (fd : Int) (sinPort : UInt16) (sinAddr : UInt32) (alloc : Bool)
  | send (t : Table) (fd : Int) (len : UInt32) (seen : Tcb)
  | recv (t : Table) (fd : Int) (seen : Tcb)
  | close (t : Table) (fd : Int) (seen : Tcb)
  | closeConnection (b : Nat)
  | retransmit (msgs : List TcpMessage)

inductive Traces : Call → Ops → Prop where
  | tcpRx (cache : List (Nat × Tcb)) (seen : Tcb) (pkt : Packet) (alloc : Nat → Bool)
      (stale : RxLocals) :
      Traces (.tcpRx cache seen pkt) (tcpRxOps alloc stale (lookup cache pkt) seen pkt)
  | connectLibc {t : Table} {fd : Int} {sinPort : UInt16} {sinAddr : UInt32} {alloc : Bool}
      (h : (connectAttach t fd sinPort sinAddr alloc).2 = .libc) :
      Traces (.connect t fd sinPort sinAddr alloc) isAnpSockfdOps
  | connectNoSocket {t : Table} {fd : Int} {sinPort : UInt16} {sinAddr : UInt32} {alloc : Bool}
      (h : (connectAttach t fd sinPort sinAddr alloc).2 = .error .ebadf) :
      Traces (.connect t fd sinPort sinAddr alloc) isAnpSockfdOps
  | connectNoMemory {t : Table} {fd : Int} {sinPort : UInt16} {sinAddr : UInt32} {alloc : Bool}
      (h : (connectAttach t fd sinPort sinAddr alloc).2 = .error .enomem) :
      -- free_anp_socket clears the descriptor under fd_lock
      Traces (.connect t fd sinPort sinAddr alloc)
        (isAnpSockfdOps ++ [.lock .fdLock, .unlock .fdLock])
  | connectNoRoute {t : Table} {fd : Int} {sinPort : UInt16} {sinAddr : UInt32} {alloc : Bool}
      {b : Nat} (availablePort : UInt16)
      (h : (connectAttach t fd sinPort sinAddr alloc).2 = .conn b)
      (hr : routeLookup (ntohl sinAddr) routeInit = none) :
      Traces (.connect t fd sinPort sinAddr alloc) (isAnpSockfdOps ++ getPortOps availablePort)
  | connect {t : Table} {fd : Int} {sinPort : UInt16} {sinAddr : UInt32} {alloc : Bool}
      {b : Nat} {rt : RtEntry} {tx : Ops} (availablePort : UInt16)
      (h : (connectAttach t fd sinPort sinAddr alloc).2 = .conn b)
      (hr : routeLookup (ntohl sinAddr) routeInit = some rt) (htx : TcpTxOps b 0 tcpSyn 0 tx) :
      Traces (.connect t fd sinPort sinAddr alloc)
        (isAnpSockfdOps ++ getPortOps availablePort ++ connectBlockOps b tx)
  | sendFails {t : Table} {fd : Int} {len : UInt32} {seen : Tcb}
      (h : ∀ b, withConnInfo t fd = .conn b → seen.state ≠ .established) :
      Traces (.send t fd len seen) isAnpSockfdOps
  | send {t : Table} {fd : Int} {len : UInt32} {seen : Tcb} {b : Nat} {tx : Ops}
      (h : withConnInfo t fd = .conn b) (hs : seen.state = .established)
      (htx : TcpTxOps b len tcpAck 0 tx) : Traces (.send t fd len seen) (isAnpSockfdOps ++ tx)
  | recvFails {t : Table} {fd : Int} {seen : Tcb} (h : ∀ b, withConnInfo t fd ≠ .conn b) :
      Traces (.recv t fd seen) isAnpSockfdOps
  | recv {t : Table} {fd : Int} {seen : Tcb} {b : Nat} (h : withConnInfo t fd = .conn b) :
      Traces (.recv t fd seen) (isAnpSockfdOps ++ readBytesOps b (seen.rcvBuffLen == 0))
  | closeFails {t : Table} {fd : Int} {seen : Tcb} (h : ∀ b, withConnInfo t fd ≠ .conn b) :
      Traces (.close t fd seen) isAnpSockfdOps
  | close {t : Table} {fd : Int} {seen : Tcb} {b : Nat} {tx : Ops}
      (h : withConnInfo t fd = .conn b) (htx : TcpTxOps b 0 tcpFinAck 0 tx) :
      Traces (.close t fd seen) (isAnpSockfdOps ++ closeBlockOps b seen tx)
  | closeConnection (b : Nat) : Traces (.closeConnection b) (closeConnectionOps b)
  | retransmit (msgs : List TcpMessage) : Traces (.retransmit msgs) (retransmitOps msgs)

end AnpNetstack
