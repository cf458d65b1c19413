import AnpNetstack.AckReplay
import AnpNetstack.Duplex
import AnpNetstack.RoundTrip
import AnpNetstack.SendLog

/-! Two instances of the stack with one connection block each and a network between them that loses,
repeats and reorders packets. A pass of tcp_retransmit_handler puts the queued segments on the wire,
and tcp_rx of the other side gets them as create_tcp_packet built them. -/
namespace AnpNetstack
open Runs Duplex

/-- What the other side's tcp_rx gets for a segment: ip_rx has taken off what ip_output put around
it. -/
def wirePacket (tcb : Tcb) (seg : TcpSegment) : Packet where
  ip := { ihl := 5, len := UInt16.ofNat (40 + seg.data.length), proto := ippTcp,
          saddr := ntohl tcb.localIp, daddr := tcb.remoteIp }
  tcp := seg

def padded (pkt : Packet) (pad : List UInt8) : Packet :=
  { pkt with tcp := { pkt.tcp with data := pkt.tcp.data ++ pad } }

def transmitted (c : Conn) : List Packet :=
  (c.messagesArray.filter (fun m => m.tcb == c.self)).map (fun m => wirePacket c.tcb m.tcpPtr)

def peerAct (c : Conn) : Event → Conn
  | .segment _ => c
  | e => step c e

def peerEmits (c : Conn) : Event → List Packet
  | .retransmit => transmitted c
  | _ => []

def peer : Party Conn Event Packet (List UInt8) where
  act := peerAct
  emits := peerEmits
  take c pkt pad := step c (.segment (padded pkt pad))

def peersStart (near far : Conn) : Net Conn Packet where
  party
    | .near => near
    | .far => far
  medium _ := []

theorem peerAct_cases (c : Conn) (e : Event) :
    peerAct c e = c ∨ peerAct c e = step c e ∧ ∀ pkt, e ≠ .segment pkt := by
  cases e with
  | segment pkt => exact Or.inl rfl
  | _ => exact Or.inr ⟨rfl, by simp⟩

theorem peerAct_keeps {I : Conn → Prop} (h : ∀ c e, I c → I (step c e)) {c : Conn} (hc : I c)
    (e : Event) :
    I (peerAct c e) := by
  cases peerAct_cases c e with
  | inl he =>
    rw [he]
    exact hc
  | inr he =>
    rw [he.1]
    exact h c e hc

/-- The bytes that leave for a segment are taken apart to this packet by the other side. -/
theorem wirePacket_received {tcb : Tcb} (flags : UInt8) {payload : List UInt8}
    {cache : List Wire.ArpCacheEntry} (hlen : payload.length ≤ 1460)
    (hlocal : ∀ rt, routeLookup tcb.remoteIp routeInit = some rt → tcb.localIp = ntohl rt.dev.addr)
    (hcache : ∀ rt, routeLookup tcb.remoteIp routeInit = some rt →
      (Wire.arpGetHwaddr cache (Wire.nextHop rt tcb.remoteIp)).isSome = true) :
    ∃ frame pad, Wire.ipOutput routeInit cache tcb.remoteIp
        (Wire.createTcpPacket tcb payload (UInt32.ofNat payload.length) flags).1 = .written frame ∧
      Wire.netdevRx frame =
        .tcp (padded (wirePacket tcb (createTcpPacket tcb payload
          (UInt32.ofNat payload.length) flags).1) pad) := by
  obtain ⟨rt, frame, pad, hrt, hout, hrx⟩ := Wire.frame_received flags hlen hcache
  have hn : (UInt32.ofNat payload.length).toNat = payload.length := by
    rw [UInt32.toNat_ofNat']
    omega
  have htwice : ntohl (ntohl rt.dev.addr) = rt.dev.addr := ntohl_htonl rt.dev.addr
  have hpkt : Wire.rxPacket rt.dev tcb payload pad flags =
      padded (wirePacket tcb (createTcpPacket tcb payload
        (UInt32.ofNat payload.length) flags).1) pad := by
    simp only [Wire.rxPacket, padded, wirePacket, createTcpPacket_data, hn, List.take_length,
      hlocal rt hrt, htwice]
  exact ⟨frame, pad, hout, hpkt ▸ hrx⟩

section Built

structure Sent.Built (ends : UInt16 × UInt16 × UInt32 × UInt32) (x : Sent) : Prop where
  packet : ∃ tcb data n flags, tcb.ends = ends ∧ (data.take n.toNat).length = n.toNat ∧
    x.seg = (createTcpPacket tcb data n flags).1
  size : x.seg.data.length ≤ 1460

theorem built_empty (c : Conn) (flags : UInt8) : (sentRecord c none [] 0 flags).Built c.tcb.ends :=
  ⟨⟨c.tcb, [], 0, flags, rfl, rfl, rfl⟩, Nat.zero_le _⟩

theorem built_step {c : Conn} (h : ∀ x ∈ c.sent, x.Built c.tcb.ends) (e : Event) :
    ∀ x ∈ (step c e).sent, x.Built (step c e).tcb.ends := by
  have hends := ends_step c e
  have hkeep (hs : (step c e).sent = c.sent) : ∀ x ∈ (step c e).sent,
      x.Built (step c e).tcb.ends := by
    rw [hs, hends]
    exact h
  have hsnoc {x : Sent} (hs : (step c e).sent = c.sent ++ [x]) (hx : x.Built c.tcb.ends) :
      ∀ x ∈ (step c e).sent, x.Built (step c e).tcb.ends := by
    rw [hs, hends]
    intro y hy
    cases List.mem_append.mp hy with
    | inl hy => exact h y hy
    | inr hy => exact List.mem_singleton.mp hy ▸ hx
  cases send_step c e with
  | quiet hs hc hn => exact hkeep hs
  | call buf data size hs hc hn => exact hkeep hs
  | fails i alloc call r hi hbad hs hc hn => exact hkeep hs
  | cross pkt hst hs hc hn => exact hkeep hs
  | empty flags hf hs hc hn => exact hsnoc hs (built_empty c flags)
  | round i alloc call n hi hr hv hle hsize hs hc hn =>
    have hlen := round_length c hle
    have hmin := nxtSegSize_toNat c.tcb hle
    have hmax : tcpMaxSegSize.toNat = 1460 := rfl
    rw [← hsize] at hlen hmin
    refine hsnoc hs ⟨⟨c.tcb, _, n, call.flags, rfl, hlen, rfl⟩, ?_⟩
    have hdata : (sentRecord c (some i)
        (call.data.drop call.dataSent.toNat) n call.flags).seg.data.length =
        n.toNat := hlen
    rw [hdata]
    omega

theorem Sent.Built.offset {ends : UInt16 × UInt16 × UInt32 × UInt32} {x : Sent} (h : x.Built ends) :
    x.seg.hdr.dataOffset = tcpMinDataOffset := by
  obtain ⟨tcb, data, n, flags, -, -, hseg⟩ := h.packet
  rw [hseg]
  rfl

def CarriesSent (xs : List Sent) (pkt : Packet) : Prop :=
  ∃ x ∈ xs, pkt.tcp.hdr = x.seg.hdr ∧ Carries pkt x.seg.data

theorem CarriesSent.mono {xs ys : List Sent} {pkt : Packet} (h : CarriesSent xs pkt)
    (hsub : xs <+: ys) :
    CarriesSent ys pkt := by
  obtain ⟨x, hx, hpkt⟩ := h
  exact ⟨x, hsub.subset hx, hpkt⟩

theorem carries_wirePacket {ends : UInt16 × UInt16 × UInt32 × UInt32} {x : Sent}
    (h : x.Built ends) (tcb : Tcb) (pad : List UInt8) :
    Carries (padded (wirePacket tcb x.seg) pad) x.seg.data where
  ihl := rfl
  offset := by
    have hshift : tcpMinDataOffset >>> 4 = 5 := by decide
    rw [← hshift, ← h.offset]
    rfl
  len := by
    have hsize := h.size
    simp only [padded, wirePacket, UInt16.toNat_ofNat']
    omega
  prefix_data := List.prefix_append _ _

end Built

section Queue

inductive QueueStep (c c' : Conn) : Event → Prop where
  | same {e : Event} (hs : c'.sent = c.sent) (hq : c'.messagesArray = c.messagesArray) :
    QueueStep c c' e
  | empty {e : Event} (x : Sent) (retries : Int) (hx : x.seg.data = [])
    (hs : c'.sent = c.sent ++ [x])
      (hq : c'.messagesArray = addMsgToArr true c.self x.seg 0 retries c.messagesArray) :
        QueueStep c c' e
  | round (i : Nat) (alloc : Bool) (call : TxCall) (x : Sent) (n : UInt32)
    (hi : c.calls[i]? = some call)
      (hlen : x.seg.data.length = n.toNat) (hs : c'.sent = c.sent ++ [x])
      (hq : c'.messagesArray = addMsgToArr alloc c.self x.seg n call.retries c.messagesArray) :
      QueueStep c c' (.sendRound i alloc)
  | stops {e : Event} (tcb : Tcb) (hs : c'.sent = c.sent) (hu : tcb.sndUna = c'.tcb.sndUna)
      (hq : c'.messagesArray = stopRetransmit c.self tcb c.messagesArray) : QueueStep c c' e
  | passes (hs : c'.sent = c.sent) (hq : c'.messagesArray = tcpRetransmitHandler c.messagesArray) :
      QueueStep c c' .retransmit

variable {c c' : Conn}

theorem queueStep_txEmpty {c d c' : Conn} {e : Event} {flags : UInt8} {retries : Int}
    (hsent : d.sent = c.sent) (hself : d.self = c.self) (hmsgs : d.messagesArray = c.messagesArray)
    (hs : c'.sent = (tcpTxEmpty d flags retries).sent)
    (hq : c'.messagesArray = (tcpTxEmpty d flags retries).messagesArray) : QueueStep c c' e := by
  cases tcpTxEmpty_cases d flags retries with
  | inl he =>
    rw [he] at hs hq
    exact .same (hs.trans hsent) (hq.trans hmsgs)
  | inr he =>
    rw [he, txSegment_eq] at hs hq
    dsimp only at hs hq
    rw [hsent] at hs
    rw [hself, hmsgs] at hq
    exact .empty _ retries rfl hs hq

theorem queueStep_sendRound (c : Conn) (i : Nat) (alloc : Bool) :
    QueueStep c (sendRound c i alloc) (.sendRound i alloc) := by
  by_cases hrun : ∃ call, c.calls[i]? = some call ∧ call.result = none
  · obtain ⟨call, hi, hr⟩ := hrun
    by_cases hok : retriesValid call.retries = true ∧ call.dataSent ≤ call.dataSize
    · rw [sendRound_round alloc hi hr hok.1 hok.2]
      simp only [txSegment_eq]
      refine .round i alloc call (sentRecord c (some i) (call.data.drop call.dataSent.toNat)
        (nxtSegSize c.tcb call.dataSize call.dataSent) call.flags) _ hi
          (round_length c hok.2) ?_ rfl
      rfl
    · obtain ⟨r, ht⟩ := tcpTxSection_fails alloc c (some i) hok
      simp only [sendRound, hi, hr, Option.isSome_none, Bool.false_eq_true, if_false, ht]
      exact .same rfl rfl
  · rw [sendRound_idle alloc (fun call hi hr => hrun ⟨call, hi, hr⟩)]
    exact .same rfl rfl

theorem queueStep_switch (c : Conn) (pkt : Packet) :
    QueueStep c (tcpRxSwitch c pkt) (.segment pkt) := by
  cases tcpRxSwitch_cases c pkt with
  | inl he =>
    rw [he]
    exact .same rfl rfl
  | inr ht =>
    obtain ⟨c', he, -, -, ht⟩ := ht
    rw [he]
    cases ht with
    | establish hs hf hu => exact .stops _ rfl rfl rfl
    | cross hs hf hu => exact .stops (takeSyn c.tcb pkt.tcp.hdr) rfl rfl rfl
    | confirm hs hf ha => exact .stops _ rfl rfl rfl
    | ack hs hf =>
      by_cases ha : ackAdvances c.tcb pkt.tcp.hdr = true
      · refine .stops (takeAck c.tcb pkt.tcp.hdr) rfl rfl ?_
        simp only [ackEstablished, ha, if_true]
      · exact .same rfl (by simp only [ackEstablished, ha, if_false, Bool.false_eq_true])
    | finWait hs hf => exact .same rfl rfl

theorem queueStep_rxStep (c : Conn) : QueueStep c (rxStep c) .rxStep := by
  cases hx : c.rx with
  | nil =>
    rw [rxStep_nil hx]
    exact .same rfl rfl
  | cons a rest =>
    cases a with
    | tx flags retries =>
      rw [rxStep_tx hx]
      exact queueStep_txEmpty (d := { c with rx := rest }) rfl rfl rfl rfl rfl
    | text pkt =>
      rw [rxStep_text hx]
      have hstep := rxText_step c pkt rest
      generalize rxText c pkt rest = c' at hstep ⊢
      cases hstep <;> exact .same rfl rfl
    | fin pkt =>
      rw [rxStep_fin hx]
      have hstep := rxFin_step c pkt
      generalize rxFin c pkt = c' at hstep ⊢
      cases hstep <;> exact .same rfl rfl
    | unlock =>
      rw [rxStep_unlock hx]
      exact .same rfl rfl
    | timer =>
      rw [rxStep_timer hx]
      exact .same rfl rfl

theorem self_txEmpty (c : Conn) (flags : UInt8) (retries : Int) :
    (tcpTxEmpty c flags retries).self = c.self := by
  cases tcpTxEmpty_cases c flags retries with
  | inl he => rw [he]
  | inr he => rw [he, txSegment_eq]

theorem self_rxStep (c : Conn) : (rxStep c).self = c.self := by
  cases hx : c.rx with
  | nil => rw [rxStep_nil hx]
  | cons a rest =>
    cases a with
    | tx flags retries => rw [rxStep_tx hx, self_txEmpty]
    | text pkt =>
      rw [rxStep_text hx]
      have hstep := rxText_step c pkt rest
      generalize rxText c pkt rest = c' at hstep ⊢
      cases hstep <;> rfl
    | fin pkt =>
      rw [rxStep_fin hx]
      have hstep := rxFin_step c pkt
      generalize rxFin c pkt = c' at hstep ⊢
      cases hstep <;> rfl
    | unlock => rw [rxStep_unlock hx]
    | timer => rw [rxStep_timer hx]

theorem self_step (c : Conn) (e : Event) : (step c e).self = c.self := by
  cases e with
  | connect =>
    simp only [step, connect]
    split_ifs
    · exact self_txEmpty c tcpSyn retriesConnMax
    · rfl
  | send buf =>
    simp only [step, send]
    split_ifs <;> rfl
  | sendRound i alloc =>
    simp only [step, sendRound]
    split
    · rfl
    · unfold tcpTxSection
      split_ifs
      · rfl
      · rfl
      · simp only [txSegment_eq]
      · rfl
  | recv len => exact readBytes_frame Conn.self (fun _ _ _ _ => rfl) c len
  | segment pkt =>
    simp only [step]
    split_ifs
    · cases tcpRxSwitch_cases c pkt with
      | inl he => rw [he]
      | inr ht =>
        obtain ⟨c', he, -, -, ht⟩ := ht
        rw [he]
        cases ht <;> rfl
    · rfl
  | rxStep => exact self_rxStep c
  | retransmit => rfl
  | close =>
    simp only [step, close]
    split_ifs <;> rfl
  | closeFin =>
    simp only [step, closeFin]
    split_ifs
    · exact self_txEmpty _ _ _
    · rfl
  | closeTimer =>
    simp only [step, closeConnection]
    split_ifs <;> rfl

theorem queue_step (c : Conn) (e : Event) : QueueStep c (step c e) e := by
  cases e with
  | connect =>
    simp only [step, connect]
    split_ifs
    · exact queueStep_txEmpty (d := c) rfl rfl rfl rfl rfl
    · exact .same rfl rfl
  | send buf =>
    simp only [step, send]
    split_ifs <;> exact .same rfl rfl
  | sendRound i alloc => exact queueStep_sendRound c i alloc
  | recv len =>
    exact .same (readBytes_frame Conn.sent (fun _ _ _ _ => rfl) c len)
      (readBytes_frame Conn.messagesArray (fun _ _ _ _ => rfl) c len)
  | segment pkt =>
    simp only [step]
    split_ifs
    · exact queueStep_switch c pkt
    · exact .same rfl rfl
  | rxStep => exact queueStep_rxStep c
  | retransmit => exact .passes rfl rfl
  | close =>
    simp only [step, close]
    split_ifs <;> exact .same rfl rfl
  | closeFin =>
    simp only [step, closeFin]
    split_ifs
    · exact queueStep_txEmpty (d := c) rfl rfl rfl rfl rfl
    · exact .same rfl rfl
  | closeTimer =>
    simp only [step, closeConnection]
    split_ifs
    · exact .same rfl rfl
    · exact .stops c.tcb rfl rfl rfl

theorem stopEntry_keeps {self : Nat} {tcb : Tcb} {m m' : TcpMessage}
    (h : stopEntry self tcb m = some m') :
    m.tcb = m'.tcb ∧ m.tcpPtr = m'.tcpPtr := by
  unfold stopEntry at h
  grind

theorem retransmitEntry_keeps {m m' : TcpMessage} (h : retransmitEntry m = some m') :
    m.tcb = m'.tcb ∧ m.tcpPtr = m'.tcpPtr := by
  unfold retransmitEntry at h
  grind

def QueuedSent (c : Conn) : Prop :=
  ∀ m ∈ c.messagesArray, m.tcb = c.self → ∃ x ∈ c.sent, x.seg = m.tcpPtr

theorem QueuedSent.added {c c' : Conn} {alloc : Bool} {x : Sent} {n : UInt32} {retries : Int}
    (h : QueuedSent c) (hself : c'.self = c.self) (hs : c'.sent = c.sent ++ [x])
    (hq : c'.messagesArray = addMsgToArr alloc c.self x.seg n retries c.messagesArray) :
    QueuedSent c' := by
  intro m hm hown
  rw [hq, addMsgToArr] at hm
  rw [hs]
  have hold (hm : m ∈ c.messagesArray) : ∃ y ∈ c.sent ++ [x], y.seg = m.tcpPtr := by
    obtain ⟨y, hy, hseg⟩ := h m hm (hown.trans hself)
    exact ⟨y, List.mem_append_left _ hy, hseg⟩
  split_ifs at hm
  · cases List.mem_append.mp hm with
    | inl hm => exact hold hm
    | inr hm =>
      rw [List.mem_singleton.mp hm]
      exact ⟨x, List.mem_append_right _ List.mem_cons_self, rfl⟩
  · exact hold hm

/-- A walk over the queue that drops entries or keeps their packet. -/
theorem QueuedSent.walk {c c' : Conn} {f : TcpMessage → Option TcpMessage} (h : QueuedSent c)
    (hself : c'.self = c.self) (hs : c'.sent = c.sent)
    (hq : c'.messagesArray = c.messagesArray.filterMap f)
    (hf : ∀ m m', f m = some m' → m.tcb = m'.tcb ∧ m.tcpPtr = m'.tcpPtr) : QueuedSent c' := by
  intro m' hm' hown
  rw [hq] at hm'
  obtain ⟨m, hm, hfm⟩ := List.mem_filterMap.mp hm'
  obtain ⟨htcb, hptr⟩ := hf m m' hfm
  rw [hs, ← hptr]
  exact h m hm (htcb.trans (hown.trans hself))

theorem QueuedSent.step (h : QueuedSent c) (e : Event) : QueuedSent (step c e) := by
  have hself := self_step c e
  cases queue_step c e with
  | same hs hq =>
    intro m hm hown
    rw [hs]
    rw [hq] at hm
    exact h m hm (hown.trans hself)
  | empty x retries hx hs hq => exact h.added hself hs hq
  | round i alloc call x n hi hlen hs hq => exact h.added hself hs hq
  | stops tcb hs hu hq => exact h.walk hself hs hq (fun m m' => stopEntry_keeps)
  | passes hs hq => exact h.walk hself hs hq (fun m m' => retransmitEntry_keeps)

def Says (c : Conn) (pkt : Packet) : Prop :=
  ∃ x ∈ c.sent, x.Built c.tcb.ends ∧ pkt = wirePacket c.tcb x.seg

theorem wirePacket_of_ends {tcb tcb' : Tcb} (h : tcb'.ends = tcb.ends) (seg : TcpSegment) :
    wirePacket tcb' seg = wirePacket tcb seg := by
  obtain ⟨-, -, hli, hri⟩ : tcb'.localPort = tcb.localPort ∧ tcb'.remotePort = tcb.remotePort ∧
      tcb'.localIp = tcb.localIp ∧ tcb'.remoteIp = tcb.remoteIp := by
    simpa only [Tcb.ends, Prod.mk.injEq] using h
  simp only [wirePacket, hli, hri]

theorem Says.step {pkt : Packet} (h : Says c pkt) (e : Event) :
    Says (AnpNetstack.step c e) pkt := by
  obtain ⟨x, hx, hb, rfl⟩ := h
  have hends := ends_step c e
  exact ⟨x, (sent_grows c e).subset hx, hends ▸ hb, (wirePacket_of_ends hends x.seg).symm⟩

theorem says_transmitted (hq : QueuedSent c) (hb : ∀ x ∈ c.sent, x.Built c.tcb.ends) {pkt : Packet}
    (h : pkt ∈ transmitted c) : Says c pkt := by
  obtain ⟨m, hm, rfl⟩ := List.mem_map.mp h
  obtain ⟨hm, hself⟩ := List.mem_filter.mp hm
  obtain ⟨x, hx, hseg⟩ := hq m hm (by simpa using hself)
  exact ⟨x, hx, hb x hx, by rw [hseg]⟩

theorem Says.carries {pkt : Packet} (h : Says c pkt) (pad : List UInt8) :
    CarriesSent c.sent (padded pkt pad) := by
  obtain ⟨x, hx, hb, rfl⟩ := h
  exact ⟨x, hx, rfl, carries_wirePacket hb c.tcb pad⟩

end Queue

end AnpNetstack
