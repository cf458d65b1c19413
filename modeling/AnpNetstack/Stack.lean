import AnpNetstack.LockPrograms

/-! tcp_rx among several connections: the sockets, the blocks with their mutexes and the queue they
share. What it does once get_tcb has found a block is tcpRxSwitch and rxStep on that block. -/
namespace AnpNetstack

structure Block where
  tcb : Tcb
  tcbLock : Bool
  sendLock : Bool

structure Stack where
  sockets : List AnpSocket
  blocks : Nat → Option Block
  null : blocks 0 = none
  messagesArray : List TcpMessage

def Stack.modify (s : Stack) (b : Nat) (f : Block → Block) : Stack where
  sockets := s.sockets
  blocks a := if a = b then (s.blocks a).map f else s.blocks a
  null := by simp [s.null]
  messagesArray := s.messagesArray

def Stack.getTcb (s : Stack) (e : Endpoint) : Option Nat :=
  (cacheBlocks s.sockets).find? (fun b => (s.blocks b).any (fun blk => blk.tcb.endpoint = e))

/-- pthread_mutex_unlock on a mutex of the block at `b`, which stays free if it was. Where there is
no block, as at NULL, the access ends the process. -/
def Stack.unlock (s : Stack) (b : Nat) (f : Block → Block) : Except Nat Stack :=
  match s.blocks b with
  | none => .error b
  | some _ => .ok (s.modify b f)

def Stack.unlockTcb (s : Stack) (b : Nat) : Except Nat Stack :=
  s.unlock b (fun blk => { blk with tcbLock := false })

def Stack.unlockSend (s : Stack) (b : Nat) : Except Nat Stack :=
  s.unlock b (fun blk => { blk with sendLock := false })

def Stack.dropPkt (s : Stack) (l : RxLocals) : Except Nat Stack :=
  Except.bind (if l.unlockedTcb = false then s.unlockTcb l.tcb else .ok s) fun s =>
    if l.unlockedSend = false then s.unlockSend l.tcb else .ok s

/-- The connection of a block as tcp_rx sees it; it reads nothing of the calls on it. -/
def Stack.conn (s : Stack) (b : Nat) (blk : Block) : Conn where
  self := b
  tcb := blk.tcb
  messagesArray := s.messagesArray
  calls := []
  rx := []
  tcbLock := blk.tcbLock
  closing := false
  fresh := false
  closeTimers := 0
  sent := []
  read := []
  fins := []
  scheduled := 0

/-- send_lock is free between the acts of tcp_rx. -/
def Stack.put (s : Stack) (b : Nat) (c : Conn) : Stack :=
  { s.modify b (fun _ => { tcb := c.tcb, tcbLock := c.tcbLock, sendLock := false }) with
    messagesArray := c.messagesArray }

inductive RxExit where
  | short
  | checksum
  | noBlock
  | block (b : Nat)
  deriving DecidableEq, Repr

def Stack.rxExit (s : Stack) (pkt : Packet) : RxExit :=
  if tooShort pkt then .short
  else if !csumValid pkt then .checksum
  else match s.getTcb pkt.endpoint with
    | none => .noBlock
    | some b => .block b

/-- tcp_rx up to its act number `n`, from a moment on at which it does not have to wait for the
mutexes. A jump to drop_pkt before the initializers leaves the local variables as `stale`; when
get_tcb has found nothing, drop_pkt goes through NULL. -/
def Stack.rx (s : Stack) (stale : RxLocals) (pkt : Packet) (n : Nat) : Except Nat Stack :=
  match s.rxExit pkt with
  | .short => s.dropPkt stale
  | .checksum => s.dropPkt stale
  | .noBlock => s.dropPkt { tcb := 0, unlockedTcb := false, unlockedSend := false }
  | .block b =>
    match s.blocks b with
    | none => .error b
    | some blk =>
      if blk.tcbLock || blk.sendLock then .ok s
      else .ok (s.put b (rxStep^[n] (tcpRxSwitch (s.conn b blk) pkt)))

end AnpNetstack
