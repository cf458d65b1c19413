import AnpNetstack.TcpQueue

/-! One connection block with the threads that work on it, cut at the boundaries of
send_lock: the tcp_tx calls in progress, what the receive thread still has to do for the
segment at hand, and tcb_lock. The last four fields record history; no step reads them. -/
namespace AnpNetstack

/-- A call of tcp_tx. data_size is a uint32_t, which bounds the text. -/
structure TxCall where
  data : List UInt8
  size : data.length < 2 ^ 32
  flags : UInt8
  retries : Int
  dataSent : UInt32
  result : Option UInt32

def TxCall.dataSize (call : TxCall) : UInt32 := UInt32.ofNat call.data.length

def TxCall.start (data : List UInt8) (size : data.length < 2 ^ 32) (flags : UInt8) (retries : Int) :
    TxCall :=
  { data := data, size := size, flags := flags, retries := retries, dataSent := 0, result := none }

inductive RxAct where
  | tx (flags : UInt8) (retries : Int)
  | text (pkt : Packet)
  | fin (pkt : Packet)
  | unlock
  | timer
  deriving DecidableEq

/-- A segment handed to add_msg_to_arr: by which call (none for connect, close and
tcp_rx), the block as it stood then, and how many bytes read_bytes had returned. -/
structure Sent where
  call : Option Nat
  seg : TcpSegment
  tcb : Tcb
  taken : Nat

/-- `closing`: close has entered FIN_WAIT_1 and not yet queued its FIN. `fresh`: connect
has not yet queued its SYN. `closeTimers`: timers that will run close_connection. -/
structure Conn where
  self : Nat
  tcb : Tcb
  messagesArray : List TcpMessage
  calls : List TxCall
  rx : List RxAct
  tcbLock : Bool
  closing : Bool
  fresh : Bool
  closeTimers : Nat
  sent : List Sent
  read : List UInt8
  fins : List (Packet × UInt32)
  scheduled : Nat

def Conn.delivered (c : Conn) : List UInt8 :=
  c.read ++ c.tcb.rcvBuff.cells.take c.tcb.rcvBuffLen.toNat

def Sent.stored (x : Sent) : Nat := x.taken + x.tcb.rcvBuffLen.toNat

def retriesValid (retries : Int) : Bool :=
  retries == retriesInfinite || retries == retriesConnMax || retries == retriesSendonce

def nxtSegSize (tcb : Tcb) (dataSize dataSent : UInt32) : UInt32 :=
  anpMin tcb.sndWnd (anpMin tcpMaxSegSize (dataSize - dataSent))

def txSegment (alloc : Bool) (c : Conn) (who : Option Nat) (data : List UInt8) (n : UInt32)
    (flags : UInt8) (retries : Int) : Conn :=
  let p := createTcpPacket c.tcb data n flags
  let tcb := { p.2 with sndNxt := p.2.sndNxt + n }
  { c with
    tcb := tcb
    messagesArray := addMsgToArr alloc c.self p.1 n retries c.messagesArray
    sent := c.sent ++ [{ call := who, seg := p.1, tcb := tcb, taken := c.read.length }] }

/-- One round of tcp_tx under send_lock. The wait on send_cond at its end may be left on
any wake-up, so the next round can follow at any later time. -/
def tcpTxSection (alloc : Bool) (c : Conn) (who : Option Nat) (call : TxCall) : Conn × TxCall :=
  if !retriesValid call.retries then
    (c, { call with result := some (UInt32.ofInt (-1)) })
  else if call.dataSent ≤ call.dataSize then
    let n := nxtSegSize c.tcb call.dataSize call.dataSent
    (txSegment alloc c who (call.data.drop call.dataSent.toNat) n call.flags call.retries,
      { call with
        dataSent := call.dataSent + n
        result := if call.dataSent + n = call.dataSize then some (call.dataSent + n) else none })
  else (c, { call with result := some call.dataSent })

def tcpTxEmpty (c : Conn) (flags : UInt8) (retries : Int) : Conn :=
  (tcpTxSection true c none (TxCall.start [] (by decide) flags retries)).1

/-- Sequence numbers taken by the control bits: create_tcp_packet counts SYN and FIN. -/
def ctlLen (flags : UInt8) : UInt32 :=
  if hasFlag flags tcpSyn || hasFlag flags tcpFin then 1 else 0

theorem createTcpPacket_block (tcb : Tcb) (data : List UInt8) (n : UInt32) (flags : UInt8) :
    (createTcpPacket tcb data n flags).2 = { tcb with sndNxt := tcb.sndNxt + ctlLen flags } := by
  unfold createTcpPacket ctlLen
  split_ifs <;> simp

theorem txSegment_eq (alloc : Bool) (c : Conn) (who : Option Nat) (data : List UInt8) (n : UInt32)
    (flags : UInt8) (retries : Int) :
    txSegment alloc c who data n flags retries =
      let sub := (createTcpPacket c.tcb data n flags).1
      let tcb := { c.tcb with sndNxt := c.tcb.sndNxt + ctlLen flags + n }
      { c with
        tcb := tcb
        messagesArray := addMsgToArr alloc c.self sub n retries c.messagesArray
        sent := c.sent ++ [{ call := who, seg := sub, tcb := tcb, taken := c.read.length }] } := by
  simp only [txSegment, createTcpPacket_block]

theorem nxtSegSize_self (tcb : Tcb) (n : UInt32) : nxtSegSize tcb n n = 0 := by
  simp only [nxtSegSize, anpMin, tcpMaxSegSize, UInt32.sub_self]
  split_ifs <;> grind

theorem tcpTxEmpty_eq (c : Conn) (flags : UInt8) {retries : Int} (h : retriesValid retries = true) :
    tcpTxEmpty c flags retries = txSegment true c none [] 0 flags retries := by
  have hn := nxtSegSize_self c.tcb 0
  simp [tcpTxEmpty, tcpTxSection, TxCall.start, TxCall.dataSize, h, hn]

/-- A tcp_tx without text does nothing or queues one segment without text. -/
theorem tcpTxEmpty_cases (c : Conn) (flags : UInt8) (retries : Int) :
    tcpTxEmpty c flags retries = c ∨
      tcpTxEmpty c flags retries = txSegment true c none [] 0 flags retries := by
  by_cases h : retriesValid retries = true
  · exact Or.inr (tcpTxEmpty_eq c flags h)
  · exact Or.inl (by simp [tcpTxEmpty, tcpTxSection, TxCall.start, h])

end AnpNetstack
