import AnpNetstack.TcpReceive
import AnpNetstack.Runs

/-! connect, send, recv and close of anpwrapper.c on one connection block, and the machine
that interleaves them with the receive thread, the retransmit passes and the timer. An
event that a thread cannot take, because tcb_lock is taken or there is nothing to do,
leaves the connection as it is. -/
namespace AnpNetstack
open FixedBuffer

/-- The block as connect has set it up before it takes tcb_lock; `rand` is the
initial sequence number and `msgs` what other connections have queued. -/
def connectBlock (self : Nat) (localPort remotePort : UInt16) (localIp remoteIp rand : UInt32)
    (msgs : List TcpMessage) : Conn where
  self := self
  tcb :=
    { state := .closed, localPort := localPort, remotePort := remotePort,
      localIp := localIp, remoteIp := remoteIp,
      rcvNxt := 0, irs := 0, rcvBuffLen := 0, rcvBuff := fill tcpRcvMax.toNat 0,
      sndUna := rand - 1, sndNxt := rand, sndWnd := 0, iss := rand }
  messagesArray := msgs
  calls := []
  rx := []
  tcbLock := false
  closing := false
  fresh := true
  closeTimers := 0
  sent := []
  read := []
  fins := []
  scheduled := 0

def connect (c : Conn) : Conn :=
  if c.fresh then
    let c := tcpTxEmpty c tcpSyn retriesConnMax
    { c with tcb := { c.tcb with state := .synSent }, fresh := false, tcbLock := false }
  else c

/-- send: tcp_tx takes the length as a uint32_t. -/
def send (c : Conn) (buf : List UInt8) : Conn :=
  if c.tcb.state = .established then
    { c with
      calls := c.calls ++
        [TxCall.start (buf.take (buf.length % 2 ^ 32))
          (Nat.lt_of_le_of_lt (List.length_take_le _ _) (Nat.mod_lt _ (by decide)))
          tcpAck retriesInfinite] }
  else c

def sendRound (c : Conn) (i : Nat) (alloc : Bool) : Conn :=
  match c.calls[i]? with
  | none => c
  | some call =>
    if call.result.isSome then c
    else
      let r := tcpTxSection alloc c (some i) call
      { r.1 with calls := r.1.calls.set i r.2 }

/-- close up to its tcp_tx. In any state but ESTABLISHED it returns with tcb_lock taken. -/
def close (c : Conn) : Conn :=
  if c.tcbLock then c
  else if c.tcb.state = .established then
    { c with tcb := { c.tcb with state := .finWait1 }, tcbLock := true, closing := true }
  else { c with tcbLock := true }

/-- close's tcp_tx and its wait, which releases tcb_lock. -/
def closeFin (c : Conn) : Conn :=
  if c.closing then
    { tcpTxEmpty c tcpFinAck retriesSendonce with closing := false, tcbLock := false }
  else c

def retransmit (c : Conn) : Conn :=
  { c with messagesArray := tcpRetransmitHandler c.messagesArray }

inductive Event where
  | connect
  | send (buf : List UInt8)
  | sendRound (i : Nat) (alloc : Bool)
  | recv (len : UInt32)
  | segment (pkt : Packet)
  | rxStep
  | retransmit
  | close
  | closeFin
  | closeTimer

/-- There is one receive thread: it takes a segment only when it is done with the last. -/
def step (c : Conn) : Event → Conn
  | .connect => connect c
  | .send buf => send c buf
  | .sendRound i alloc => sendRound c i alloc
  | .recv len => readBytes c len
  | .segment pkt => if c.rx.isEmpty then tcpRxSwitch c pkt else c
  | .rxStep => rxStep c
  | .retransmit => retransmit c
  | .close => close c
  | .closeFin => closeFin c
  | .closeTimer => closeConnection c

def sampleConn (iss : UInt32) : Conn :=
  connect (connectBlock 1 49155 43211 0x0400000a 0x0a000005 iss [])

def samplePeer (seq ack : UInt32) (flags : UInt8) (window : UInt16) (text : List UInt8) : Packet :=
  peerPacket (sampleConn 0).tcb seq ack flags window text

def sampleOpen (iss : UInt32) (window : UInt16) : Conn :=
  Runs.run step (connectBlock 1 49155 43211 0x0400000a 0x0a000005 iss [])
    [.connect, .segment (samplePeer 5000 (iss + 1) tcpSynAck window []), .rxStep, .rxStep]

end AnpNetstack
