import AnpNetstack.Route
import AnpNetstack.Sockets

/-! The tables of anpwrapper.c: the descriptors in use, the socket cache and the local
ports, with what socket, connect, send, recv and close do to them. connect is cut between
its stores into the new block, which the cache shows to other threads from the first on.
What the calls do to a connection is not part of this; how they end comes in as input. -/
namespace AnpNetstack

def fdStartVal : Int := 1000000
def fdMaxVal : Int := 1048575
def portsStarting : UInt16 := 49154
def portsEnding : UInt32 := 65535

structure Endpoint where
  localPort : UInt16
  localIp : UInt32
  remotePort : UInt16
  remoteIp : UInt32
  deriving DecidableEq, Repr

def Tcb.endpoint (tcb : Tcb) : Endpoint where
  localPort := tcb.localPort
  localIp := tcb.localIp
  remotePort := tcb.remotePort
  remoteIp := tcb.remoteIp

def Packet.endpoint (pkt : Packet) : Endpoint where
  localPort := pkt.tcp.hdr.dstPort
  localIp := ntohl pkt.ip.daddr
  remotePort := pkt.tcp.hdr.srcPort
  remoteIp := pkt.ip.saddr

theorem getTcbMatch_iff (tcb : Tcb) (pkt : Packet) :
    getTcbMatch tcb pkt = true ↔ tcb.endpoint = pkt.endpoint := by
  simp [getTcbMatch, Tcb.endpoint, Packet.endpoint, and_assoc]

structure AnpSocket where
  fd : Int
  connInfo : Option Nat
  deriving DecidableEq, Repr

inductive Fill where
  | localPort
  | remotePort (sinPort : UInt16)
  | remoteIp (sinAddr : UInt32)
  | localIp
  deriving DecidableEq, Repr

structure ConnectCall where
  block : Nat
  todo : List Fill
  deriving DecidableEq, Repr

inductive Life where
  | opened
  | closed
  | dropped
  deriving DecidableEq, Repr

/-- `fdInUse` is the memory of which the array fd_in_use takes the cells from 0 on, `blocks`
the memory of the connection blocks, handed out in order. `closers` are the sockets on which
a close waits. `ports` and `life` record history. -/
structure Table where
  fdInUse : Int → Bool
  sockets : List AnpSocket
  availablePort : UInt16
  blocks : Nat → Endpoint
  nextBlock : Nat
  calls : List ConnectCall
  closers : List Int
  ports : List UInt16
  life : List (Int × Life)

def Table.log (t : Table) (fd : Int) (x : Life) : Table := { t with life := t.life ++ [(fd, x)] }

/-- The library as it is loaded; the cells around the array hold anything. -/
def initTable (outside : Int → Bool) : Table where
  fdInUse i := if 0 ≤ i ∧ i < fdMaxVal - fdStartVal then false else outside i
  sockets := []
  availablePort := portsStarting
  blocks _ := { localPort := 0, localIp := 0, remotePort := 0, remoteIp := 0 }
  nextBlock := 0
  calls := []
  closers := []
  ports := []
  life := []

def nextFree (inUse : Int → Bool) : Nat → Nat → Option Nat
  | _, 0 => none
  | i, n + 1 => if inUse i then nextFree inUse (i + 1) n else some i

def getNextFd (t : Table) : Table × Int :=
  match nextFree t.fdInUse 0 (fdMaxVal - fdStartVal).toNat with
  | some i => ({ t with fdInUse := Function.update t.fdInUse i true }, i + fdStartVal)
  | none => (t, -1)

/-- There is no test of the index. -/
def isAnpSockfd (t : Table) (fd : Int) : Bool := t.fdInUse (fd - fdStartVal)

def getAnpSocket (t : Table) (fd : Int) : Option AnpSocket := t.sockets.find? (fun s => s.fd = fd)

def setConnInfo (fd : Int) (conn : Option Nat) : List AnpSocket → List AnpSocket
  | [] => []
  | s :: rest => if s.fd = fd then { s with connInfo := conn } :: rest else
    s :: setConnInfo fd conn rest

def freeAnpSocket (t : Table) (sock : AnpSocket) : Table :=
  { t with
    fdInUse := Function.update t.fdInUse (sock.fd - fdStartVal) false
    sockets := t.sockets.eraseP (fun s => s.fd = sock.fd) }

/-- The new value of available_port and the port returned. The comparison is made in
unsigned int. -/
def getPort (availablePort : UInt16) : UInt16 × UInt16 :=
  if availablePort.toUInt32 > portsEnding then (availablePort, UInt16.ofInt (-1))
  else (availablePort + 1, availablePort + 1)

def cacheBlocks (sockets : List AnpSocket) : List Nat := sockets.filterMap AnpSocket.connInfo

def getTcb (t : Table) (e : Endpoint) : Option Nat :=
  (cacheBlocks t.sockets).find? (fun b => t.blocks b = e)

def isSocketSupported (domain type protocol : Int32) : Bool :=
  domain == 2 && type &&& 1 != 0 && (protocol == 0 || protocol == 6)

inductive Errno where
  | enomem | emfile | ebadf | enotconn
  deriving DecidableEq, Repr

/-- What a call comes to: libc has it, it fails at once, or it goes on with a block. -/
inductive Reply where
  | libc
  | error (errno : Errno)
  | fd (fd : Int)
  | conn (block : Nat)
  deriving DecidableEq, Repr

def socket (t : Table) (domain type protocol : Int32) (alloc : Bool) : Table × Reply :=
  if !isSocketSupported domain type protocol then (t, .libc)
  else if !alloc then (t, .error .enomem)
  else
    let r := getNextFd t
    if r.2 = -1 then (t, .error .emfile)
    else (Table.log { r.1 with
      sockets := r.1.sockets ++ [{ fd := r.2, connInfo := none }] } r.2 .opened,
      .fd r.2)

/-- connect up to the store of the zeroed block into the socket. -/
def connectAttach (t : Table) (fd : Int) (sinPort : UInt16) (sinAddr : UInt32) (alloc : Bool) :
    Table × Reply :=
  if !isAnpSockfd t fd then (t, .libc)
  else match getAnpSocket t fd with
    | none => (t, .error .ebadf)
    | some sock =>
      if !alloc then (Table.log (freeAnpSocket t sock) fd .dropped, .error .enomem)
      else
        ({ t with
            sockets := setConnInfo fd (some t.nextBlock) t.sockets
            blocks := Function.update t.blocks t.nextBlock
              { localPort := 0, localIp := 0, remotePort := 0, remoteIp := 0 }
            nextBlock := t.nextBlock + 1
            calls := t.calls ++ [{
              block := t.nextBlock
              todo := [.localPort, .remotePort sinPort, .remoteIp sinAddr, .localIp] }] },
          .conn t.nextBlock)

/-- One store of connect. Without a route, which routeInit excludes, it gives up with
ENETUNREACH and leaves the block as it is. -/
def fillStep (t : Table) (b : Nat) : Fill → Table
  | .localPort =>
    let p := getPort t.availablePort
    { t with
      availablePort := p.1
      ports := t.ports ++ [p.2]
      blocks := Function.update t.blocks b { t.blocks b with localPort := p.2 } }
  | .remotePort sinPort =>
    { t with blocks := Function.update t.blocks b { t.blocks b with remotePort := ntohs sinPort } }
  | .remoteIp sinAddr =>
    { t with blocks := Function.update t.blocks b { t.blocks b with remoteIp := ntohl sinAddr } }
  | .localIp =>
    match routeLookup (t.blocks b).remoteIp routeInit with
    | none => t
    | some rt => { t with
        blocks := Function.update t.blocks b { t.blocks b with localIp := ntohl rt.dev.addr } }

def connectFill (t : Table) (i : Nat) : Table :=
  match t.calls[i]? with
  | some { block := b, todo := f :: rest } =>
    fillStep { t with calls := t.calls.set i { block := b, todo := rest } } b f
  | _ => t

def withConnInfo (t : Table) (fd : Int) : Reply :=
  if !isAnpSockfd t fd then .libc
  else match getAnpSocket t fd with
    | none => .error .ebadf
    | some sock => match sock.connInfo with
      | none => .error .enotconn
      | some b => .conn b

/-- close up to its wait; `established` is what it finds once it has tcb_lock. -/
def closeWait (t : Table) (fd : Int) (established : Bool) : Table × Reply :=
  match withConnInfo t fd with
  | .conn b =>
    if established then ({ t with closers := t.closers ++ [fd] }, .conn b) else
      (t, .error .enotconn)
  | r => (t, r)

/-- The end of the close number `i`; `done` says that the state is CLOSED. -/
def closeReturn (t : Table) (i : Nat) (done : Bool) : Table :=
  match t.closers[i]? with
  | none => t
  | some fd =>
    let t := { t with closers := t.closers.eraseIdx i }
    if done then Table.log { t with sockets := setConnInfo fd none t.sockets } fd .closed else t

inductive TableEvent where
  | socket (domain type protocol : Int32) (alloc : Bool)
  | connect (fd : Int) (sinPort : UInt16) (sinAddr : UInt32) (alloc : Bool)
  | connectFill (i : Nat)
  | send (fd : Int)
  | recv (fd : Int)
  | close (fd : Int) (established : Bool)
  | closeReturn (i : Nat) (done : Bool)

def tableStep (t : Table) : TableEvent → Table
  | .socket domain type protocol alloc => (socket t domain type protocol alloc).1
  | .connect fd sinPort sinAddr alloc => (connectAttach t fd sinPort sinAddr alloc).1
  | .connectFill i => connectFill t i
  | .send _ => t
  | .recv _ => t
  | .close fd established => (closeWait t fd established).1
  | .closeReturn i done => closeReturn t i done

@[simp] theorem setConnInfo_fds (fd : Int) (conn : Option Nat) (sockets : List AnpSocket) :
    (setConnInfo fd conn sockets).map AnpSocket.fd = sockets.map AnpSocket.fd := by
  induction sockets with
  | nil => rfl
  | cons s rest ih =>
    simp only [setConnInfo]
    split_ifs
    · rfl
    · rw [List.map_cons, List.map_cons, ih]

theorem getAnpSocket_isSome (t : Table) (fd : Int) :
    (getAnpSocket t fd).isSome = true ↔ fd ∈ t.sockets.map AnpSocket.fd := by
  simp [getAnpSocket, List.find?_isSome]

/-- available_port fits in 16 bits, so the test for exhausted ports never holds. -/
theorem not_exhausted (p : UInt16) : ¬ p.toUInt32 > portsEnding := by
  have hlt := p.toNat_lt
  have hend : portsEnding.toNat = 65535 := rfl
  rw [gt_iff_lt, UInt32.lt_iff_toNat_lt, UInt16.toNat_toUInt32]
  omega

theorem getPort_eq (p : UInt16) : getPort p = (p + 1, p + 1) := by
  simp only [getPort, not_exhausted p, if_false]

end AnpNetstack
