import AnpNetstack.RecvPart
import AnpNetstack.SendPart
import AnpNetstack.StateMachine

/-! What rcv_nxt and the acknowledgements we send count: the bytes stored, and one FIN at
most. This holds whatever the peer sends and in whatever order. -/
namespace AnpNetstack
open Runs

def Conn.stored (c : Conn) : Nat := c.read.length + c.tcb.rcvBuffLen.toNat

/-- A FIN has been consumed: the connection is at its end, or tcp_rx has returned with
tcb_lock taken and no thread gets past it any more. -/
def FinDone (k : Control) : Prop :=
  Ending k ∨ k.state = .established ∧ k.lock = true ∧ k.rx = [] ∧ k.closing = false

theorem FinDone.step {k k' : Control} {e : Event} (h : FinDone k) (hinv : ControlInv k)
    (hk : ControlStep k e k') : FinDone k' := by
  obtain hs | ⟨hs, hl, hx, hc⟩ := h
  · exact Or.inl (hs.step hinv hk)
  · -- every step needs a free tcb_lock, an act of tcp_rx or a call of connect or close
    cases hk with
    | connect hf => simp [hinv.not_fresh (by simp [hs])] at hf
    | closeFin hc' => simp [hc] at hc'
    | _ => simp_all

/-- Once a FIN has been consumed no packet waits for its text or its FIN. -/
theorem FinDone.no_packet {k : Control} (h : FinDone k) (hinv : ControlInv k) (pkt : Packet) :
    RxAct.text pkt ∉ k.rx ∧ RxAct.fin pkt ∉ k.rx := by
  obtain (hs | hs) | ⟨-, -, hx, -⟩ := h
  · have hp := hinv.phase
    rw [hs] at hp
    generalize k.rx = rx at hp
    generalize k.lock = lock at hp
    cases hp <;> simp_all
  · simp [hinv.over_rx_nil hs.1 hs.2]
  · simp [hx]

/-- The acknowledgement covers the bytes stored when it was queued, and one more number
only for a FIN that had been consumed right behind them. -/
def AcksReceived (c : Conn) (x : Sent) : Prop :=
  x.seg.hdr.ackNum = c.tcb.irs + 1 + UInt32.ofNat x.stored ∨
    ∃ f ∈ c.fins, x.seg.hdr.ackNum = f.2 + 1 ∧ f.2 = c.tcb.irs + 1 + UInt32.ofNat x.stored

theorem AcksReceived.mono {c c' : Conn} {x : Sent} (h : AcksReceived c x)
    (hirs : c'.tcb.irs = c.tcb.irs) (hfins : ∀ f ∈ c.fins, f ∈ c'.fins) : AcksReceived c' x := by
  unfold AcksReceived at h ⊢
  rw [hirs]
  cases h with
  | inl ha => exact Or.inl ha
  | inr ha =>
    obtain ⟨f, hf, ha⟩ := ha
    exact Or.inr ⟨f, hfins f hf, ha⟩

structure EarlyRecv (c : Conn) : Prop where
  stored : c.stored = 0
  fins : c.fins = []
  calls : c.calls = []
  sent : ∀ x ∈ c.sent, hasFlag x.seg.hdr.flags tcpAck = false

structure Counted (c : Conn) : Prop where
  buff : c.tcb.rcvBuffLen ≤ tcpRcvMax
  nxt : c.tcb.rcvNxt = c.tcb.irs + 1 + UInt32.ofNat c.stored + UInt32.ofNat c.fins.length
  fins : c.fins = [] ∨
    ∃ f, c.fins = [f] ∧ f.2 = c.tcb.irs + 1 + UInt32.ofNat c.stored ∧ FinDone c.control

theorem stored_congr {c c' : Conn} (h : c'.recvSide = c.recvSide) : c'.stored = c.stored := by
  have hread : c'.read = c.read := congrArg RecvSide.read h
  have hlen : c'.tcb.rcvBuffLen = c.tcb.rcvBuffLen := congrArg RecvSide.rcvBuffLen h
  rw [Conn.stored, Conn.stored, hread, hlen]

/-- recv takes bytes out of rcv_buff and hands them on, so the count stays. -/
theorem stored_read {c c' : Conn} {n : UInt32} (hb : c.tcb.rcvBuffLen ≤ tcpRcvMax)
    (hn : n ≤ c.tcb.rcvBuffLen)
    (hread : c'.read = c.read ++ c.tcb.rcvBuff.cells.take n.toNat)
    (hlen : c'.tcb.rcvBuffLen = c.tcb.rcvBuffLen - n) : c'.stored = c.stored := by
  have hsize := c.tcb.rcvBuff.size
  have hsub := UInt32.toNat_sub_of_le _ _ hn
  rw [UInt32.le_iff_toNat_le] at hb hn
  rw [Conn.stored, Conn.stored, hread, hlen, List.length_append, List.length_take, hsub, hsize]
  omega

theorem stored_readBytes (c : Conn) (len : UInt32) (hb : c.tcb.rcvBuffLen ≤ tcpRcvMax) :
    (readBytes c len).stored = c.stored := by
  cases recvStep_readBytes c len with
  | quiet hside => exact stored_congr hside
  | read _ n hl hn hside =>
    exact stored_read hb hn (congrArg RecvSide.read hside) (congrArg RecvSide.rcvBuffLen hside)

theorem stored_text {c c' : Conn} {n : UInt32} (hb : c.tcb.rcvBuffLen ≤ tcpRcvMax)
    (hn : n ≤ tcpRcvMax - c.tcb.rcvBuffLen) (hread : c'.read = c.read)
    (hlen : c'.tcb.rcvBuffLen = c.tcb.rcvBuffLen + n) :
    c'.stored = c.stored + n.toNat ∧ c'.tcb.rcvBuffLen ≤ tcpRcvMax := by
  have hsub := UInt32.toNat_sub_of_le _ _ hb
  have hmax : tcpRcvMax.toNat = 65535 := rfl
  rw [UInt32.le_iff_toNat_le] at hb hn
  rw [UInt32.le_iff_toNat_le, Conn.stored, Conn.stored, hread, hlen, UInt32.toNat_add]
  omega

theorem finDone_step {c : Conn} (h : FinDone c.control) (hk : ControlInv c.control) (e : Event) :
    FinDone (step c e).control := by
  cases control_step c e with
  | inl he =>
    rw [he]
    exact h
  | inr hs => exact h.step hk hs

theorem finDone_rxFin {c : Conn} (hk : ControlInv c.control) {pkt : Packet} {rest : List RxAct}
    (hx : c.rx = .fin pkt :: rest) (hf : hasFlag pkt.tcp.hdr.flags tcpFin = true) :
    FinDone (rxFin c pkt).control := by
  have hp : RxPhase c.tcb.state c.tcbLock c.rx := hk.phase
  rw [hx] at hp
  obtain ⟨hl, hs, -⟩ := hp.of_fin
  have hclosing : c.closing = false := by
    by_contra hn
    have hnil : c.rx = [] := (hk.closing (Bool.not_eq_false _ ▸ hn)).2.2
    simp [hx] at hnil
  cases hs with
  | inl hs => simp [rxFin, hs, hf, FinDone, Ending, Conn.control, hl, hclosing]
  | inr hs => simp [rxFin, hs, hf, FinDone, Ending, Conn.control]

theorem Counted.congr {c c' : Conn} (h : Counted c) (hbuff : c'.tcb.rcvBuffLen ≤ tcpRcvMax)
    (hnxt : c'.tcb.rcvNxt = c.tcb.rcvNxt) (hirs : c'.tcb.irs = c.tcb.irs)
    (hstored : c'.stored = c.stored) (hfins : c'.fins = c.fins)
    (hdone : FinDone c.control → FinDone c'.control) : Counted c' := by
  refine ⟨hbuff, ?_, ?_⟩
  · rw [hnxt, hirs, hstored, hfins]
    exact h.nxt
  · rw [hfins, hirs, hstored]
    obtain hnil | ⟨f, hf, hpos, hd⟩ := h.fins
    · exact Or.inl hnil
    · exact Or.inr ⟨f, hf, hpos, hdone hd⟩

/-- While a packet waits for its text or its FIN, no FIN has been consumed. -/
theorem Counted.fins_nil {c : Conn} (h : Counted c) (hk : ControlInv c.control) (pkt : Packet)
    (hx : RxAct.text pkt ∈ c.rx ∨ RxAct.fin pkt ∈ c.rx) : c.fins = [] := by
  obtain hnil | ⟨f, -, -, hd⟩ := h.fins
  · exact hnil
  · have hno := hd.no_packet hk pkt
    cases hx with
    | inl ht => exact absurd ht hno.1
    | inr hf => exact absurd hf hno.2

theorem finalCopySize_le (tcb : Tcb) (dlen : UInt32) :
    finalCopySize tcb dlen ≤ tcpRcvMax - tcb.rcvBuffLen := by
  rw [UInt32.le_iff_toNat_le, finalCopySize, anpMin_toNat]
  exact Nat.min_le_right _ _

theorem Counted.text {c c' : Conn} (h : Counted c) (hk : ControlInv c.control) {pkt : Packet}
    {rest : List RxAct} (hx : c.rx = .text pkt :: rest)
    (hside : c'.recvSide = { c.recvSide with
      rcvNxt := c.tcb.rcvNxt + finalCopySize c.tcb (segmentLen pkt)
      rcvBuffLen := c.tcb.rcvBuffLen + finalCopySize c.tcb (segmentLen pkt) }) : Counted c' := by
  have hnil := h.fins_nil hk pkt (Or.inl (by simp [hx]))
  have hnxt : c'.tcb.rcvNxt = c.tcb.rcvNxt + finalCopySize c.tcb (segmentLen pkt) :=
    congrArg RecvSide.rcvNxt hside
  have hirs : c'.tcb.irs = c.tcb.irs := congrArg RecvSide.irs hside
  have hfins : c'.fins = c.fins := congrArg RecvSide.fins hside
  obtain ⟨hstored, hbuff⟩ := stored_text h.buff (finalCopySize_le c.tcb (segmentLen pkt))
    (congrArg RecvSide.read hside) (congrArg RecvSide.rcvBuffLen hside)
  refine ⟨hbuff, ?_, Or.inl (hfins.trans hnil)⟩
  rw [hnxt, hirs, hstored, hfins, h.nxt, hnil, UInt32.ofNat_add, UInt32.ofNat_toNat]
  grind

theorem Counted.fin {c c' : Conn} (h : Counted c) (hk : ControlInv c.control) {pkt : Packet}
    {rest : List RxAct} (hx : c.rx = .fin pkt :: rest) (hd : FinDone c'.control)
    (hside : c'.recvSide = { c.recvSide with
      rcvNxt := c.tcb.rcvNxt + 1, fins := c.fins ++ [(pkt, c.tcb.rcvNxt)] }) : Counted c' := by
  have hnil := h.fins_nil hk pkt (Or.inr (by simp [hx]))
  have hnxt : c'.tcb.rcvNxt = c.tcb.rcvNxt + 1 := congrArg RecvSide.rcvNxt hside
  have hirs : c'.tcb.irs = c.tcb.irs := congrArg RecvSide.irs hside
  have hlen : c'.tcb.rcvBuffLen = c.tcb.rcvBuffLen := congrArg RecvSide.rcvBuffLen hside
  have hread : c'.read = c.read := congrArg RecvSide.read hside
  have hfins : c'.fins = c.fins ++ [(pkt, c.tcb.rcvNxt)] := congrArg RecvSide.fins hside
  have hstored : c'.stored = c.stored := by rw [Conn.stored, Conn.stored, hread, hlen]
  have hpos : c.tcb.rcvNxt = c.tcb.irs + 1 + UInt32.ofNat c.stored := by
    rw [h.nxt, hnil]
    exact UInt32.add_zero _
  rw [hnil, List.nil_append] at hfins
  refine ⟨hlen ▸ h.buff, ?_, Or.inr ⟨_, hfins, ?_, hd⟩⟩
  · rw [hnxt, hirs, hstored, hfins, hpos]
    rfl
  · rw [hirs, hstored]
    exact hpos

theorem Counted.step {c : Conn} (h : Counted c) (hk : ControlInv c.control)
    (hs : c.tcb.state ≠ .synSent) (e : Event) : Counted (step c e) := by
  have hdone : FinDone c.control → FinDone (AnpNetstack.step c e).control :=
    fun hd => finDone_step hd hk e
  cases recv_step c e with
  | quiet hside =>
    have hlen : (AnpNetstack.step c e).tcb.rcvBuffLen = c.tcb.rcvBuffLen :=
      congrArg RecvSide.rcvBuffLen hside
    exact h.congr (hlen ▸ h.buff) (congrArg RecvSide.rcvNxt hside) (congrArg RecvSide.irs hside)
      (stored_congr hside) (congrArg RecvSide.fins hside) hdone
  | syn pkt hsyn => exact absurd hsyn hs
  | read len n hl hn hside =>
    have hstored := stored_readBytes c len h.buff
    have hbuff : (AnpNetstack.step c (.recv len)).tcb.rcvBuffLen ≤ tcpRcvMax :=
      readBytes_buffLen_le c len h.buff
    exact h.congr hbuff (congrArg RecvSide.rcvNxt hside) (congrArg RecvSide.irs hside) hstored
      (congrArg RecvSide.fins hside) hdone
  | stored pkt rest hx hlen hseq hside => exact h.text hk hx hside
  | fin pkt rest hx hf hside =>
    have he : AnpNetstack.step c .rxStep = rxFin c pkt := rxStep_fin hx
    exact h.fin hk hx (he ▸ finDone_rxFin hk hx hf) hside

theorem Counted.acks {c : Conn} (h : Counted c) (who : Option Nat) (data : List UInt8) (n : UInt32)
    (flags : UInt8) : AcksReceived c (sentRecord c who data n flags) := by
  have hack : (sentRecord c who data n flags).seg.hdr.ackNum = c.tcb.rcvNxt := rfl
  have hstored : (sentRecord c who data n flags).stored = c.stored := rfl
  rw [AcksReceived, hack, hstored, h.nxt]
  obtain hnil | ⟨f, hf, hpos, -⟩ := h.fins
  · left
    rw [hnil]
    exact UInt32.add_zero _
  · refine Or.inr ⟨f, by simp [hf], ?_, hpos⟩
    rw [hpos, hf]
    rfl

theorem recv_frame {c : Conn} (hs : c.tcb.state ≠ .synSent) (e : Event) :
    (step c e).tcb.irs = c.tcb.irs ∧ c.fins <+: (step c e).fins := by
  cases recv_step c e with
  | quiet hside =>
    have hfins : (step c e).fins = c.fins := congrArg RecvSide.fins hside
    exact ⟨congrArg RecvSide.irs hside, hfins ▸ List.prefix_refl _⟩
  | syn pkt hsyn => exact absurd hsyn hs
  | read len n hl hn hside =>
    have hfins : (step c (.recv len)).fins = c.fins := congrArg RecvSide.fins hside
    exact ⟨congrArg RecvSide.irs hside, hfins ▸ List.prefix_refl _⟩
  | stored pkt rest hx hlen hseq hside =>
    have hfins : (step c .rxStep).fins = c.fins := congrArg RecvSide.fins hside
    exact ⟨congrArg RecvSide.irs hside, hfins ▸ List.prefix_refl _⟩
  | fin pkt rest hx hf hside =>
    have hfins : (step c .rxStep).fins = c.fins ++ [(pkt, c.tcb.rcvNxt)] :=
      congrArg RecvSide.fins hside
    rw [hfins]
    exact ⟨congrArg RecvSide.irs hside, List.prefix_append _ _⟩

inductive RecvPhase (c : Conn) : Prop where
  | early (hearly : Early c) (h : EarlyRecv c)
  | synced (hsyn : ¬ Early c) (h : Counted c)
      (acks : ∀ x ∈ c.sent, hasFlag x.seg.hdr.flags tcpAck = true → AcksReceived c x)

theorem RecvPhase.buff {c : Conn} (h : RecvPhase c) : c.tcb.rcvBuffLen ≤ tcpRcvMax := by
  cases h with
  | early hearly h =>
    have hs := h.stored
    unfold Conn.stored at hs
    rw [UInt32.le_iff_toNat_le]
    omega
  | synced hsyn h acks => exact h.buff

theorem EarlyRecv.same {c c' : Conn} (h : EarlyRecv c) (hearly : Early c)
    (hk : c'.control.fresh = c.control.fresh ∧ c'.control.state = c.control.state)
    (hstored : c'.stored = c.stored) (hfins : c'.fins = c.fins) (hcalls : c'.calls = c.calls)
    (hsent : c'.sent = c.sent) : RecvPhase c' := by
  refine .early ?_ ⟨hstored.trans h.stored, hfins.trans h.fins, hcalls.trans h.calls,
    hsent ▸ h.sent⟩
  cases hearly with
  | inl hf => exact Or.inl (hk.1.trans hf)
  | inr hs => exact Or.inr (hk.2.trans hs)

theorem EarlyRecv.connect {c : Conn} (h : EarlyRecv c) (hf : c.fresh = true) :
    RecvPhase (connect c) := by
  have he : tcpTxEmpty c tcpSyn retriesConnMax = txSegment true c none [] 0 tcpSyn retriesConnMax :=
    tcpTxEmpty_eq c tcpSyn (by decide)
  refine .early (Or.inr ?_) ⟨?_, ?_, ?_, ?_⟩ <;>
    simp only [AnpNetstack.connect, hf, if_true, he, txSegment_eq]
  · exact h.stored
  · exact h.fins
  · exact h.calls
  · intro x hx
    cases List.mem_append.mp hx with
    | inl hx => exact h.sent x hx
    | inr hx =>
      have hflag : hasFlag tcpSyn tcpAck = false := by decide
      rw [List.mem_singleton.mp hx]
      exact hflag

/-- The peer's SYN sets irs and rcv_nxt, with nothing stored yet. -/
theorem EarlyRecv.syn {c c' : Conn} (h : EarlyRecv c) (hsyn : ¬ Early c') (seq : UInt32)
    (hside : c'.recvSide = { c.recvSide with rcvNxt := seq + 1, irs := seq })
    (hsent : c'.sent = c.sent) : RecvPhase c' := by
  have hnxt : c'.tcb.rcvNxt = seq + 1 := congrArg RecvSide.rcvNxt hside
  have hirs : c'.tcb.irs = seq := congrArg RecvSide.irs hside
  have hlen : c'.tcb.rcvBuffLen = c.tcb.rcvBuffLen := congrArg RecvSide.rcvBuffLen hside
  have hread : c'.read = c.read := congrArg RecvSide.read hside
  have hfins : c'.fins = [] := (congrArg RecvSide.fins hside).trans h.fins
  have hstored : c'.stored = 0 := by
    rw [Conn.stored, hread, hlen]
    exact h.stored
  refine .synced hsyn ⟨?_, ?_, Or.inl hfins⟩ ?_
  · rw [UInt32.le_iff_toNat_le]
    unfold Conn.stored at hstored
    omega
  · rw [hnxt, hirs, hstored, hfins]
    simp
  · intro x hx hf
    rw [hsent] at hx
    simp [h.sent x hx] at hf

theorem EarlyRecv.step {c : Conn} (h : EarlyRecv c) (hearly : Early c) (hk : ControlInv c.control)
    (e : Event) : RecvPhase (step c e) := by
  have hstep := hearly.step hk e
  generalize AnpNetstack.step c e = c' at hstep
  cases hstep with
  | same => exact .early hearly h
  | connect hf => exact h.connect hf
  | sendRound i alloc =>
    rw [sendRound_idle alloc (by simp [h.calls])]
    exact .early hearly h
  | recv len =>
    have hk' := control_readBytes c len
    have hb : c.tcb.rcvBuffLen ≤ tcpRcvMax := by
      have hs := h.stored
      unfold Conn.stored at hs
      rw [UInt32.le_iff_toNat_le]
      omega
    have hstored := stored_readBytes c len hb
    exact h.same hearly ⟨congrArg Control.fresh hk', congrArg Control.state hk'⟩ hstored
      (readBytes_frame Conn.fins (fun _ _ _ _ => rfl) c len)
      (readBytes_frame Conn.calls (fun _ _ _ _ => rfl) c len)
      (readBytes_frame Conn.sent (fun _ _ _ _ => rfl) c len)
  | taken pkt ht =>
    have hsyn := hearly.taken hk ht
    have hs := hearly.state hk
    cases ht with
    | establish hs' hf hu => exact h.syn hsyn pkt.tcp.hdr.seqNum rfl rfl
    | cross hs' hf hu => exact h.syn hsyn pkt.tcp.hdr.seqNum rfl rfl
    | confirm hs' hf ha => simp [hs'] at hs
    | ack hs' hf => simp [hs'] at hs
    | finWait hs' hf => simp [hs'] at hs
  | unlock => exact h.same hearly ⟨rfl, rfl⟩ rfl rfl rfl rfl
  | retransmit => exact h.same hearly ⟨rfl, rfl⟩ rfl rfl rfl rfl
  | lock => exact h.same hearly ⟨rfl, rfl⟩ rfl rfl rfl rfl

theorem RecvPhase.step {c : Conn} (h : RecvPhase c) (hk : ControlInv c.control) (e : Event) :
    RecvPhase (step c e) := by
  cases h with
  | early hearly h => exact h.step hearly hk e
  | synced hsyn h acks =>
    have hs : c.tcb.state ≠ .synSent := fun hs => hsyn (Or.inr hs)
    obtain ⟨hirs, hfins⟩ := recv_frame hs e
    have hkeep {x : Sent} (hx : AcksReceived c x) : AcksReceived (AnpNetstack.step c e) x :=
      hx.mono hirs (fun f hf => hfins.subset hf)
    refine .synced (fun hearly => hsyn (early_of_step e hearly)) (h.step hk hs e) ?_
    intro x hx hf
    obtain hsent | ⟨who, data, n, flags, hsent⟩ := sent_step c e
    · rw [hsent] at hx
      exact hkeep (acks x hx hf)
    · rw [hsent] at hx
      cases List.mem_append.mp hx with
      | inl hx => exact hkeep (acks x hx hf)
      | inr hx =>
        rw [List.mem_singleton.mp hx]
        exact hkeep (h.acks who data n flags)

theorem connectBlock_recvPhase (self : Nat) (localPort remotePort : UInt16)
    (localIp remoteIp rand : UInt32) (msgs : List TcpMessage) :
    RecvPhase (connectBlock self localPort remotePort localIp remoteIp rand msgs) :=
  .early (Or.inl rfl) ⟨rfl, rfl, rfl, by simp [connectBlock]⟩

theorem recvPhase_run {c : Conn} (h : RecvPhase c) (hk : Reached c.control) (es : List Event) :
    RecvPhase (run step c es) := by
  induction es generalizing c with
  | nil => exact h
  | cons e es ih => exact ih (h.step hk.inv e) (reached_step hk e)

end AnpNetstack
