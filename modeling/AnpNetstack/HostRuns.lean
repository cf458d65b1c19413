import AnpNetstack.Hosts

/-! Every run of the two instances on their frames is a run of the two connections on packets: a
pass over the bytes sends what a pass over the segments sends, and what the wire brings is a segment
of the other side or nothing for the connection. -/
namespace AnpNetstack.Wire
open Packed FixedBuffer Runs Duplex

section Ops

def segmentsOf : QueueEvent → List SegmentEvent
  | .add seg alloc => if alloc then [.add seg] else []
  | .stop self tcb => [.stop self tcb]
  | _ => []

theorem segmentsOf_idle {q : WireQueue} (h : q.busy = false) {e : QueueEvent} (he : e ≠ .finish) :
    q.segmentEvents e = segmentsOf e := by
  cases e with
  | add seg alloc => cases alloc <;> simp [WireQueue.segmentEvents, segmentsOf, h]
  | stop self tcb => simp [WireQueue.segmentEvents, segmentsOf, h]
  | finish => exact absurd rfl he
  | _ => rfl

variable {c : Conn}

theorem queueTx_segments (alloc : Bool) {data : List UInt8} {n : UInt32} {flags : UInt8}
    {retries : Int} (hlen : (data.take n.toNat).length = n.toNat) (hmax : n.toNat ≤ 1460)
    (hv : retriesValid retries = true) (msgs : List TcpMessage) :
    run segmentStep msgs ((queueTx alloc c data n flags retries).flatMap segmentsOf) =
      AnpNetstack.addMsgToArr alloc c.self
        (AnpNetstack.createTcpPacket c.tcb data n flags).1 n retries msgs := by
  have hsize : tcpMaxSegSize.toNat = 1460 := rfl
  have hok : (data.take n.toNat).length ≤ tcpMaxSegSize.toNat ∧ retriesValid retries = true :=
    ⟨by omega, hv⟩
  have hn : UInt32.ofNat (data.take n.toNat).length = n := by rw [hlen, UInt32.ofNat_toNat]
  have hsame : AnpNetstack.createTcpPacket c.tcb (data.take n.toNat) n flags =
      AnpNetstack.createTcpPacket c.tcb data n flags := by
    simp only [AnpNetstack.createTcpPacket, List.take_take, Nat.min_self]
  simp only [queueTx, hok, and_self, dite_true, List.flatMap_cons, List.flatMap_nil,
    List.append_nil, segmentsOf]
  cases alloc with
  | true =>
    simp only [if_true, run, segmentStep, hn, hsame]
  | false => rfl

theorem queueTx_invalid (alloc : Bool) {data : List UInt8} {n : UInt32} {flags : UInt8}
    {retries : Int} (hv : ¬ retriesValid retries = true) :
    queueTx alloc c data n flags retries = [] :=
  dif_neg fun h => hv h.2

theorem tcpTxEmpty_segments (c : Conn) (flags : UInt8) (retries : Int) :
    (tcpTxEmpty c flags retries).messagesArray =
      run segmentStep c.messagesArray ((queueTx true c [] 0 flags retries).flatMap segmentsOf) := by
  by_cases hv : retriesValid retries = true
  · rw [queueTx_segments true rfl (Nat.zero_le _) hv, tcpTxEmpty_eq c flags hv, txSegment_eq]
  · rw [queueTx_invalid true hv]
    simp only [tcpTxEmpty, tcpTxSection, TxCall.start, hv, Bool.not_false, if_true]
    rfl

theorem rxStops_segments (c : Conn) (pkt : Packet) :
    (tcpRxSwitch c pkt).messagesArray =
      run segmentStep c.messagesArray ((rxStops c pkt).flatMap segmentsOf) := by
  unfold tcpRxSwitch rxStops
  by_cases hg : (!accepted c.tcb pkt || c.tcbLock) = true
  · simp only [hg, if_true]
    rfl
  · simp only [hg, Bool.false_eq_true, if_false]
    cases c.tcb.state with
    | synSent =>
      dsimp only
      split_ifs <;> rfl
    | synReceived =>
      dsimp only
      split_ifs <;> rfl
    | established =>
      dsimp only
      by_cases hf : hasFlag pkt.tcp.hdr.flags tcpAck = true
      · by_cases ha : ackAdvances c.tcb pkt.tcp.hdr = true
        · simp only [hf, ha, Bool.and_self, if_true, ackEstablished]
          rfl
        · simp only [hf, ha, Bool.and_false, Bool.false_eq_true, if_false, if_true, ackEstablished]
          rfl
      · simp only [hf, Bool.false_and, Bool.false_eq_true, if_false]
        rfl
    | finWait1 =>
      dsimp only
      split_ifs <;> rfl
    | _ => rfl

theorem sendRound_segments (c : Conn) (i : Nat) (alloc : Bool) :
    (sendRound c i alloc).messagesArray =
      run segmentStep c.messagesArray ((queueOps c (.sendRound i alloc)).flatMap segmentsOf) := by
  simp only [queueOps]
  cases hi : c.calls[i]? with
  | none =>
    simp only [sendRound, hi]
    rfl
  | some call =>
    by_cases hr : call.result = none
    · by_cases hle : call.dataSent ≤ call.dataSize
      · simp only [hr, Option.isSome_none, hle, decide_true, Bool.not_true, Bool.or_self,
          Bool.false_eq_true, if_false]
        by_cases hv : retriesValid call.retries = true
        · have hmin := nxtSegSize_toNat c.tcb hle
          have hmax : tcpMaxSegSize.toNat = 1460 := rfl
          rw [queueTx_segments alloc (round_length c hle) (by omega) hv,
            sendRound_round alloc hi hr hv hle]
          simp only [txSegment_eq]
        · rw [queueTx_invalid alloc hv]
          obtain ⟨r, ht⟩ := tcpTxSection_fails alloc c (some i) (fun h => hv h.1)
          simp only [sendRound, hi, hr, Option.isSome_none, Bool.false_eq_true, if_false, ht]
          rfl
      · obtain ⟨r, ht⟩ := tcpTxSection_fails alloc c (some i) (fun h => hle h.2)
        simp only [sendRound, hi, hr, Option.isSome_none, Bool.false_eq_true, if_false, ht, hle,
          decide_false, Bool.not_false, Bool.or_true, if_true]
        rfl
    · have hs : call.result.isSome = true := Option.isSome_iff_ne_none.mpr hr
      simp only [sendRound, hi, hs, Bool.true_or, if_true]
      rfl

/-- Of the acts of tcp_rx behind the switch only tcp_tx concerns the queue. -/
theorem rxStep_segments (c : Conn) :
    (rxStep c).messagesArray =
      run segmentStep c.messagesArray ((queueOps c .rxStep).flatMap segmentsOf) := by
  simp only [queueOps]
  cases hx : c.rx with
  | nil =>
    rw [rxStep_nil hx]
    rfl
  | cons a rest =>
    cases a with
    | tx flags retries =>
      rw [rxStep_tx hx]
      exact tcpTxEmpty_segments { c with rx := rest } flags retries
    | text pkt =>
      rw [rxStep_text hx]
      have hstep := rxText_step c pkt rest
      generalize rxText c pkt rest = c' at hstep ⊢
      cases hstep <;> rfl
    | fin pkt =>
      rw [rxStep_fin hx]
      have hstep := rxFin_step c pkt
      generalize rxFin c pkt = c' at hstep ⊢
      cases hstep <;> rfl
    | unlock =>
      rw [rxStep_unlock hx]
      rfl
    | timer =>
      rw [rxStep_timer hx]
      rfl

/-- What the connection does to its messages_array, its operations do to the queue of segments. -/
theorem queueOps_segments (c : Conn) {e : Event} (he : e ≠ .retransmit) :
    (step c e).messagesArray =
      run segmentStep c.messagesArray ((queueOps c e).flatMap segmentsOf) := by
  cases e with
  | connect =>
    simp only [step, connect, queueOps]
    split_ifs
    · exact tcpTxEmpty_segments c tcpSyn retriesConnMax
    · rfl
  | send buf =>
    simp only [step, send]
    split_ifs <;> rfl
  | sendRound i alloc => exact sendRound_segments c i alloc
  | recv len => exact readBytes_frame Conn.messagesArray (fun _ _ _ _ => rfl) c len
  | segment pkt =>
    simp only [step, queueOps]
    split_ifs
    · exact rxStops_segments c pkt
    · rfl
  | rxStep => exact rxStep_segments c
  | retransmit => exact absurd rfl he
  | close =>
    simp only [step, close]
    split_ifs <;> rfl
  | closeFin =>
    simp only [step, closeFin, queueOps]
    split_ifs
    · exact tcpTxEmpty_segments c tcpFinAck retriesSendonce
    · rfl
  | closeTimer =>
    simp only [step, closeConnection, queueOps]
    split_ifs <;> rfl

inductive OwnOp (c : Conn) : QueueEvent → Prop where
  | add (seg : NewSegment) (alloc : Bool) (h : seg.self = c.self) : OwnOp c (.add seg alloc)
  | stop (tcb : Tcb) : OwnOp c (.stop c.self tcb)

theorem queueTx_own (alloc : Bool) (c : Conn) (data : List UInt8) (n : UInt32) (flags : UInt8)
    (retries : Int) :
    ∀ op ∈ queueTx alloc c data n flags retries, OwnOp c op := by
  intro op hop
  simp only [queueTx] at hop
  split_ifs at hop
  · rw [List.mem_singleton.mp hop]
    exact .add _ alloc rfl
  · exact absurd hop List.not_mem_nil

theorem rxStops_own (c : Conn) (pkt : Packet) : ∀ op ∈ rxStops c pkt, OwnOp c op := by
  have hone (b : Bool) (tcb : Tcb) : ∀ op ∈ (if b = true then [QueueEvent.stop c.self tcb] else []),
      OwnOp c op := by
    intro op hop
    split_ifs at hop
    · rw [List.mem_singleton.mp hop]
      exact .stop tcb
    · exact absurd hop List.not_mem_nil
  have hnil : ∀ op ∈ ([] : List QueueEvent), OwnOp c op := fun op hop => absurd hop List.not_mem_nil
  unfold rxStops
  by_cases hg : (!accepted c.tcb pkt || c.tcbLock) = true
  · simp only [hg, if_true]
    exact hnil
  · simp only [hg, Bool.false_eq_true, if_false]
    cases c.tcb.state with
    | synSent => exact hone _ _
    | synReceived => exact hone _ _
    | established => exact hone _ _
    | _ => exact hnil

theorem queueOps_own (c : Conn) (e : Event) : ∀ op ∈ queueOps c e, OwnOp c op := by
  have hnil : ∀ op ∈ ([] : List QueueEvent), OwnOp c op := fun op hop => absurd hop List.not_mem_nil
  cases e with
  | connect =>
    simp only [queueOps]
    split_ifs
    · exact queueTx_own _ _ _ _ _ _
    · exact hnil
  | sendRound i alloc =>
    simp only [queueOps]
    split
    · exact hnil
    · split_ifs
      · exact hnil
      · exact queueTx_own _ _ _ _ _ _
  | segment pkt =>
    simp only [queueOps]
    split_ifs
    · exact rxStops_own c pkt
    · exact hnil
  | rxStep =>
    simp only [queueOps]
    split
    · exact queueTx_own _ _ _ _ _ _
    · exact hnil
  | closeFin =>
    simp only [queueOps]
    split_ifs
    · exact queueTx_own _ _ _ _ _ _
    · exact hnil
  | closeTimer =>
    simp only [queueOps]
    split_ifs
    · exact hnil
    · intro op hop
      rw [List.mem_singleton.mp hop]
      exact .stop c.tcb
  | _ => exact hnil

end Ops

section Invariant

structure OwnEntry (rt : RtEntry) (c : Conn) (m : Message) : Prop where
  tcb : m.tcb = c.self
  framed : Framed rt.dev c.tcb.remoteIp m

/-- The queue with its bytes is the queue of the connection. While a pass is on, `conn` has it
behind itself already. -/
structure HostInv (rt : RtEntry) (h : Host) : Prop where
  ext : NetDev.Ethernet h.ext
  route : routeLookup h.conn.tcb.remoteIp h.routes = some rt
  dev : NetDev.Ethernet rt.dev
  source : h.conn.tcb.localIp = ntohl rt.dev.addr
  entries : ∀ m ∈ h.queue.messagesArray, OwnEntry rt h.conn m
  queue : ∃ msgs, Refines h.queue msgs ∧
    h.conn.messagesArray = if h.queue.busy then tcpRetransmitHandler msgs else msgs

variable {rt : RtEntry} {h : Host} {c : Conn}

theorem addresses_of_ends {tcb tcb' : Tcb} (h : tcb'.ends = tcb.ends) :
    tcb'.localIp = tcb.localIp ∧ tcb'.remoteIp = tcb.remoteIp := by
  obtain ⟨-, -, hli, hri⟩ : tcb'.localPort = tcb.localPort ∧ tcb'.remotePort = tcb.remotePort ∧
      tcb'.localIp = tcb.localIp ∧ tcb'.remoteIp = tcb.remoteIp := by
    simpa only [Tcb.ends, Prod.mk.injEq] using h
  exact ⟨hli, hri⟩

theorem OwnEntry.congr {c' : Conn} {m : Message} (h : OwnEntry rt c m) (hself : c'.self = c.self)
    (hip : c'.tcb.remoteIp = c.tcb.remoteIp) : OwnEntry rt c' m :=
  ⟨h.tcb.trans hself.symm, hip ▸ h.framed⟩

theorem OwnEntry.stop {self : Nat} {tcb : Tcb} {m m' : Message} (h : OwnEntry rt c m)
    (hs : Message.stop self tcb m = some m') : OwnEntry rt c m' := by
  refine ⟨?_, h.framed.stop hs⟩
  obtain rfl | ⟨sub, rfl⟩ := Message.stop_some h.framed.shaped.room hs
  · exact h.tcb
  · exact h.tcb

theorem ownOp_step {q : WireQueue} {msgs : List TcpMessage} (hidle : q.busy = false)
    (hr : Refines q msgs) (he : ∀ m ∈ q.messagesArray, OwnEntry rt c m) {op : QueueEvent}
    (hop : OwnOp c op) (ip : Nat → UInt32) :
    (queueStep ip q op).busy = false ∧ Refines (queueStep ip q op)
      (run segmentStep msgs (segmentsOf op)) ∧
      ∀ m ∈ (queueStep ip q op).messagesArray, OwnEntry rt c m := by
  have hne : op ≠ .finish := by
    intro hf
    rw [hf] at hop
    cases hop
  have hstep := hr.step ip op
  rw [segmentsOf_idle hidle hne] at hstep
  have htodo := (hr.idle hidle).1
  refine ⟨?_, hstep, ?_⟩
  · cases hop with
    | add seg alloc h => cases alloc <;> simp [queueStep, WireQueue.addMsgToArr, hidle]
    | stop tcb => simp [queueStep, WireQueue.stopRetransmit, hidle]
  · intro m hm
    cases hop with
    | add seg alloc h =>
      cases alloc with
      | false =>
        have hsame : queueStep ip q (.add seg false) = q := by
          simp [queueStep, WireQueue.addMsgToArr]
        rw [hsame] at hm
        exact he m hm
      | true =>
        have hnew : (queueStep ip q (.add seg true)).messagesArray =
            q.passed ++ [q.newMessage seg] ++ q.todo := by
          simp [queueStep, WireQueue.addMsgToArr, WireQueue.messagesArray, hidle]
        rw [hnew] at hm
        cases WireQueue.mem_between hm with
        | inl hm =>
          rw [List.mem_singleton.mp hm]
          exact ⟨h, framed_newMessage q seg rt.dev c.tcb.remoteIp⟩
        | inr hm => exact he m hm
    | stop tcb =>
      have hwalk : (queueStep ip q (.stop c.self tcb)).messagesArray =
          q.passed.filterMap (Message.stop c.self tcb) := by
        simp [queueStep, WireQueue.stopRetransmit, WireQueue.messagesArray, hidle, htodo]
      rw [hwalk] at hm
      obtain ⟨m', hm', hs⟩ := List.mem_filterMap.mp hm
      exact (he m' (List.mem_append_left _ hm')).stop hs

theorem ownOps_run {q : WireQueue} {msgs : List TcpMessage} (hidle : q.busy = false)
    (hr : Refines q msgs) (he : ∀ m ∈ q.messagesArray, OwnEntry rt c m) {ops : List QueueEvent}
    (hops : ∀ op ∈ ops, OwnOp c op) (ip : Nat → UInt32) :
    (run (queueStep ip) q ops).busy = false ∧
      Refines (run (queueStep ip) q ops) (run segmentStep msgs (ops.flatMap segmentsOf)) ∧
      ∀ m ∈ (run (queueStep ip) q ops).messagesArray, OwnEntry rt c m := by
  induction ops generalizing q msgs with
  | nil => exact ⟨hidle, hr, he⟩
  | cons op ops ih =>
    obtain ⟨hidle', hr', he'⟩ := ownOp_step hidle hr he (hops op List.mem_cons_self) ip
    rw [List.flatMap_cons, run_append]
    exact ih hidle' hr' he' (fun o ho => hops o (List.mem_cons_of_mem op ho))

/-- An event that gets msg_arr_lock if it needs it leaves the two queues the same. -/
theorem HostInv.perform (hi : HostInv rt h) {e : Event} (he : e ≠ .retransmit)
    (hfree : h.blocked e = false) :
    HostInv rt (h.perform e) ∧ (h.perform e).queue.busy = h.queue.busy ∧
      (h.queue.busy = true → (h.perform e).queue = h.queue) := by
  obtain ⟨msgs, hr, hmsgs⟩ := hi.queue
  obtain ⟨hli, hri⟩ := addresses_of_ends (ends_step h.conn e)
  have hself := self_step h.conn e
  have hcongr {m : Message} (hm : OwnEntry rt h.conn m) : OwnEntry rt (step h.conn e) m :=
    hm.congr hself hri
  have hseg := queueOps_segments h.conn he
  have hown := queueOps_own h.conn e
  have hconn : (h.perform e).conn = step h.conn e := rfl
  have hkeep (q : WireQueue) (hq : (h.perform e).queue = q)
      (hentries : ∀ m ∈ q.messagesArray, OwnEntry rt h.conn m)
      (hqueue : ∃ msgs, Refines q msgs ∧
        (step h.conn e).messagesArray = if q.busy then tcpRetransmitHandler msgs else msgs) :
      HostInv rt (h.perform e) :=
    { ext := hi.ext
      route := by
        rw [hconn, hri]
        exact hi.route
      dev := hi.dev
      source := by
        rw [hconn, hli]
        exact hi.source
      entries := fun m hm => hcongr (hentries m (hq ▸ hm))
      queue := hq ▸ hqueue }
  cases hb : h.queue.busy with
  | true =>
    -- a pass is on: the event has nothing to do with the queue
    have hnil : queueOps h.conn e = [] := by simpa [Host.blocked, hb] using hfree
    have hq : (h.perform e).queue = h.queue := by
      simp only [Host.perform, hnil]
      rfl
    rw [hnil] at hseg
    exact ⟨hkeep h.queue hq hi.entries ⟨msgs, hr, hseg.trans hmsgs⟩, by rw [hq, hb], fun _ => hq⟩
  | false =>
    rw [hb, if_neg Bool.false_ne_true] at hmsgs
    obtain ⟨hq, hr', he'⟩ := ownOps_run hb hr hi.entries hown h.remoteIp
    refine ⟨hkeep _ rfl he' ⟨_, hr', ?_⟩, hq, fun hb' => absurd hb' Bool.false_ne_true⟩
    have hidle : (h.perform e).queue.busy = false := hq
    rw [hseg, hmsgs, if_neg (by rw [hidle]; exact Bool.false_ne_true)]

theorem HostInv.begin (hi : HostInv rt h) (hidle : h.queue.busy = false) :
    HostInv rt { h with conn := retransmit h.conn, queue := h.queue.begin } := by
  obtain ⟨msgs, hr, hmsgs⟩ := hi.queue
  have hstep : Refines h.queue.begin msgs := hr.step h.remoteIp .begin
  have hbegin : h.queue.begin =
      { h.queue with
        passed := [], todo := h.queue.passed, busy := true, log :=
          h.queue.log ++ [.began h.queue.passed] } := by
    simp [WireQueue.begin, hidle]
  have hbusy : h.queue.begin.busy = true := by rw [hbegin]
  refine { hi with entries := ?_, queue := ⟨msgs, hstep, ?_⟩ }
  · intro m hm
    have hall : h.queue.begin.messagesArray = h.queue.passed := by
      rw [hbegin]
      rfl
    exact (hi.entries m (List.mem_append_left _ (hall ▸ hm))).congr rfl rfl
  · rw [hidle, if_neg Bool.false_ne_true] at hmsgs
    rw [if_pos hbusy, ← hmsgs]
    rfl

theorem HostInv.finish (hi : HostInv rt h) : HostInv rt { h with queue := h.queue.finish } := by
  obtain ⟨msgs, hr, hmsgs⟩ := hi.queue
  have hstep : Refines h.queue.finish (run segmentStep msgs (h.queue.segmentEvents .finish)) :=
    hr.step h.remoteIp .finish
  by_cases hend : (h.queue.busy && h.queue.todo.isEmpty) = true
  · have hfinish : h.queue.finish = { h.queue with
        busy := false, log := h.queue.log ++ [.ended h.queue.passed] } := by
      simp only [WireQueue.finish, hend, if_true]
    have hpass : h.queue.segmentEvents .finish = [.pass] := by
      simp only [WireQueue.segmentEvents, hend, if_true]
    have hidle : h.queue.finish.busy = false := by rw [hfinish]
    rw [hpass] at hstep
    rw [if_pos (Bool.and_eq_true_iff.mp hend).1] at hmsgs
    refine { hi with entries := ?_, queue := ⟨_, hstep, ?_⟩ }
    · intro m hm
      have hall : h.queue.finish.messagesArray = h.queue.messagesArray := by
        rw [hfinish]
        rfl
      exact hi.entries m (hall ▸ hm)
    · rw [hmsgs, if_neg (by rw [hidle]; exact Bool.false_ne_true)]
      rfl
  · have hsame : h.queue.finish = h.queue := by
      simp only [WireQueue.finish, hend, Bool.false_eq_true, if_false]
    rw [hsame]
    exact hi

structure Attempted (rt : RtEntry) (c : Conn) (m m' : Message) : Prop where
  own : OwnEntry rt c m'
  entry : m'.entry = m.entry

theorem HostInv.attempt (hi : HostInv rt h) {m m' : Message} {out : Output}
    (hm : OwnEntry rt h.conn m)
    (hout : m.reset.ipOutput h.routes h.queue.cache h.conn.tcb.remoteIp = (out, m')) :
    Attempted rt h.conn m m' ∧ ∀ frame, out = .written frame →
      (∃ pad, netdevRx frame = .tcp (padded (wirePacket h.conn.tcb m.entry.tcpPtr) pad)) ∨
        netdevRx frame = .dropped .notIp := by
  obtain ⟨hframed, hsame, hframes⟩ :=
    hm.framed.output hi.route hi.dev h.queue.cache hi.source rfl
  rw [hout] at hframed hsame hframes
  dsimp only at hframed hsame hframes
  have htcb : m'.tcb = h.conn.self := (congrArg Message.tcb hsame.rest :).trans hm.tcb
  exact ⟨⟨⟨htcb, hframed⟩, (hsame.entry hm.framed.shaped).2⟩,
    fun frame hf => (hframes frame hf).imp_right And.right⟩

section Walk
variable {m m' : Message} {rest : List Message}

theorem HostInv.gone (hi : HostInv rt h) (hbusy : h.queue.busy = true)
    (htodo : h.queue.todo = m :: rest) (ha : Attempted rt h.conn m m') (log : List Note) :
    HostInv rt { h with queue := { h.queue with
      passed := h.queue.passed ++
        ((retriesLeft m.retries).map fun k => { m' with retries := k }).toList
      todo := rest
      log := log } } := by
  obtain ⟨msgs, hr, hmsgs⟩ := hi.queue
  have hs := ha.own.framed.shaped
  refine { hi with entries := ?_, queue := ⟨msgs, hr.out hbusy htodo hs ha.entry log, ?_⟩ }
  · intro x hx
    cases WireQueue.mem_between hx with
    | inl hx =>
      obtain ⟨k, -, rfl⟩ := Option.map_eq_some_iff.mp (Option.mem_toList.mp hx)
      have hf := ha.own.framed
      exact ⟨ha.own.tcb, ⟨hs.tcpPtr, hs.tcpBuf, hs.sub, hs.size⟩, hf.tcpLen, hf.protocol, hf.area⟩
    | inr hx => exact hi.entries x (WireQueue.mem_others htodo hx)
  · rw [hmsgs, if_pos hbusy]

theorem HostInv.again (hi : HostInv rt h) (hbusy : h.queue.busy = true)
    (htodo : h.queue.todo = m :: rest) (ha : Attempted rt h.conn m m') (log : List Note) :
    HostInv rt { h with queue := { h.queue with todo := m' :: rest, log := log } } := by
  obtain ⟨msgs, hr, hmsgs⟩ := hi.queue
  have hagain := hr.again hbusy htodo ha.own.framed.shaped ha.entry log
  refine { hi with entries := ?_, queue := ⟨msgs, hagain, ?_⟩ }
  · intro x hx
    rcases WireQueue.mem_swapped hx with rfl | hx
    · exact ha.own
    · exact hi.entries x (WireQueue.mem_others htodo hx)
  · rw [hmsgs, if_pos hbusy]

end Walk

/-- A call of ip_output: the invariant is kept, and what leaves is a segment of the entry, a packet
without header, or an ARP request. -/
theorem HostInv.output (hi : HostInv rt h) (hbusy : h.queue.busy = true) :
    let r := h.queue.outputVia h.routes h.remoteIp
    HostInv rt { h with queue := r.1 } ∧ r.1.busy = true ∧
      (∀ m ∈ r.1.todo, ∃ m' ∈ h.queue.todo, m.entry = m'.entry) ∧
      ∀ f ∈ r.2,
        (∃ m ∈ h.queue.todo, ∃ pad,
          netdevRx f = .tcp (padded (wirePacket h.conn.tcb m.entry.tcpPtr) pad)) ∨
        netdevRx f = .dropped .notIp ∨ ∃ src dst, f = arpRequest src dst rt.dev := by
  intro r
  cases htodo : h.queue.todo with
  | nil =>
    have hsame : r = (h.queue, []) := by simp only [r, WireQueue.outputVia, htodo]
    rw [hsame]
    refine ⟨hi, hbusy, ?_, fun f hf => absurd hf List.not_mem_nil⟩
    intro m hm
    rw [htodo] at hm
    exact absurd hm List.not_mem_nil
  | cons m rest =>
    obtain ⟨out, m', hout⟩ :
        ∃ out m', m.reset.ipOutput h.routes h.queue.cache h.conn.tcb.remoteIp = (out, m') :=
      ⟨_, _, rfl⟩
    obtain ⟨ha, hframes⟩ := hi.attempt (hi.entries m (WireQueue.mem_current htodo)) hout
    have hip : h.remoteIp m.reset.tcb = h.conn.tcb.remoteIp := rfl
    have hreq : routeLookup h.conn.tcb.remoteIp h.routes = some rt := hi.route
    have hrest : ∀ x ∈ rest, ∃ y ∈ m :: rest, x.entry = y.entry :=
      fun x hx => ⟨x, List.mem_cons_of_mem m hx, rfl⟩
    cases out with
    | again src dst =>
      have hr' : r =
          ({ h.queue with todo := m' :: rest, log := h.queue.log ++ [.again m.number] },
            [arpRequest src dst rt.dev]) := by
        simp only [r, WireQueue.outputVia, htodo, hip, hout, hreq]
        rfl
      rw [hr']
      refine ⟨hi.again hbusy htodo ha _, hbusy, ?_, ?_⟩
      · intro x hx
        cases List.mem_cons.mp hx with
        | inl hx => exact ⟨m, List.mem_cons_self, by rw [hx, ha.entry]⟩
        | inr hx => exact hrest x hx
      · exact fun f hf => Or.inr (Or.inr ⟨src, dst, List.mem_singleton.mp hf⟩)
    | noRoute =>
      have hr' : r.1 = { h.queue with
          passed := h.queue.passed ++
            ((retriesLeft m.retries).map fun k => { m' with retries := k }).toList
          todo := rest
          log := r.1.log } ∧ r.2 = [] := by
        simp only [r, WireQueue.outputVia, htodo, hip, hout]
        exact ⟨rfl, rfl⟩
      rw [hr'.2, hr'.1]
      exact ⟨hi.gone hbusy htodo ha _, hbusy, hrest, fun f hf => absurd hf List.not_mem_nil⟩
    | written frame =>
      have hr' : r.1 = { h.queue with
          passed := h.queue.passed ++
            ((retriesLeft m.retries).map fun k => { m' with retries := k }).toList
          todo := rest
          log := r.1.log } ∧ r.2 = [frame] := by
        simp only [r, WireQueue.outputVia, htodo, hip, hout]
        exact ⟨rfl, rfl⟩
      rw [hr'.2, hr'.1]
      refine ⟨hi.gone hbusy htodo ha _, hbusy, hrest, fun f hf => ?_⟩
      rw [List.mem_singleton.mp hf]
      cases hframes frame rfl with
      | inl hpad => exact Or.inl ⟨m, List.mem_cons_self, hpad⟩
      | inr hblank => exact Or.inr (Or.inl hblank)

end Invariant

section Arp

theorem netdevRx_arp {dev : NetDev} {sub : Subuff} {mac : List UInt8} (hdev : NetDev.Ethernet dev)
    (hmac : mac.length = 6) (hdata : sub.data = 14) (hlen : sub.len = 28)
    (hbuf : 42 ≤ sub.buf.length) :
    netdevRx (netdevTransmit dev sub mac ethPArp) = .arp := by
  have h28 : (28 : UInt32).toNat = 28 := rfl
  obtain ⟨eth, body, rest, hsplit, heth, hbody⟩ := @split_at 14 28 _ hbuf
  have hframe : netdevTransmit dev sub mac ethPArp =
      mac ++ (dev.hwaddr ++ (le16 (htons ethPArp) ++ body)) :=
    netdevTransmit_eq hsplit heth hdata (by rw [hlen, h28, hbody])
      (by rw [hbody]; decide) hdev.1 hdev.2 hmac
  have htwo : (le16 (htons ethPArp)).length = 2 := rfl
  have hfit : (mac ++ (dev.hwaddr ++ (le16 (htons ethPArp) ++ body))).length ≤ anpMtu15MaxSize := by
    simp only [List.length_append, hmac, hdev.2, htwo, hbody]
    decide
  have hmacs : (mac ++ dev.hwaddr).length = 12 := by rw [List.length_append, hmac, hdev.2]
  have hbytes (pad : List UInt8) : mac ++ (dev.hwaddr ++ (le16 (htons ethPArp) ++ body)) ++ pad =
      mac ++ dev.hwaddr ++ (le16 (htons ethPArp) ++ (body ++ pad)) := by
    simp only [List.append_assoc]
  rw [hframe, netdevRx_eq hfit, hbytes]
  simp only [processPacket, ethHdr_frame hmacs, if_true]

theorem netdevRx_arpRequest {dev : NetDev} (hdev : NetDev.Ethernet dev) (src dst : UInt32) :
    netdevRx (arpRequest src dst dev) = .arp := by
  have hroom : (subPush (subPush allocArpSub arpDataLen) arpHdrLen).buf.length = 42 := rfl
  refine netdevRx_arp hdev rfl rfl rfl ?_
  refine Nat.le_trans ?_ (le_overwrite_length _ _ _)
  exact hroom.symm.le.trans (le_overwrite_length _ _ _)

theorem netdevRx_arpReply {dev : NetDev} (hdev : NetDev.Ethernet dev) {sub : Subuff}
    (hdata : sub.data = 0) (hlen : sub.len = 0) (hbuf : 42 ≤ sub.buf.length) :
    netdevRx (arpReply sub dev) = .arp := by
  refine netdevRx_arp hdev (Buffer.size _) ?_ ?_ ?_
  · simp [storeArpIpv4, storeArpHdr, subPush, subReserve, hdata, ethHdrLen, arpHdrLen, arpDataLen]
  · simp [storeArpIpv4, storeArpHdr, subPush, subReserve, hlen, arpHdrLen, arpDataLen]
  · refine Nat.le_trans ?_ (le_overwrite_length _ _ _)
    exact hbuf.trans (le_overwrite_length _ _ _)

theorem netdevRx_arpInput {dev : NetDev} (hdev : NetDev.Ethernet dev) (cache : List ArpCacheEntry)
    (frame : List UInt8) : ∀ f ∈ (arpInput dev cache frame).2, netdevRx f = .arp := by
  intro f hf
  have hroom : 42 ≤ (overwrite (allocSub anpMtu15MaxSize).data (frame.take anpMtu15MaxSize)
      (allocSub anpMtu15MaxSize).buf).length := by
    refine Nat.le_trans ?_ (le_overwrite_length _ _ _)
    have hsize : (allocSub anpMtu15MaxSize).buf.length = anpMtu15MaxSize := List.length_replicate
    rw [hsize]
    decide
  unfold arpInput at hf
  dsimp only [ethHdr] at hf
  split_ifs at hf
  · unfold arpRx at hf
    dsimp only at hf
    split_ifs at hf
    · exact absurd hf List.not_mem_nil
    · exact absurd hf List.not_mem_nil
    · rw [List.mem_singleton.mp hf]
      refine netdevRx_arpReply hdev rfl rfl ?_
      refine Nat.le_trans ?_ (le_overwrite_length _ _ _)
      refine Nat.le_trans ?_ (le_overwrite_length _ _ _)
      exact hroom.trans (le_overwrite_length _ _ _)
    · exact absurd hf List.not_mem_nil
    · exact absurd hf List.not_mem_nil
  · exact absurd hf List.not_mem_nil

end Arp

section Simulation

def Brings (sent : List Packet) (frame : List UInt8) : Prop :=
  ∀ pkt, netdevRx frame = .tcp pkt → ∃ p ∈ sent, ∃ pad, pkt = padded p pad

structure HostSim (rt : RtEntry) (h : Host) (c : Conn) (sent heard : List Packet) : Prop where
  conn : h.conn = c
  inv : HostInv rt h
  todo : ∀ m ∈ h.queue.todo, wirePacket h.conn.tcb m.entry.tcpPtr ∈ sent
  waiting : ∀ pkt, h.waiting = some pkt → ∃ p ∈ heard, ∃ pad, pkt = padded p pad

structure EtherSim (rts : Side → RtEntry) (n : Net Host (List UInt8)) (a : Net Conn Packet) :
    Prop where
  host : ∀ s, HostSim (rts s) (n.party s) (a.party s) (a.medium s) (a.medium s.other)
  wire : ∀ s, ∀ f ∈ n.medium s, Brings (a.medium s) f

variable {rts : Side → RtEntry} {n : Net Host (List UInt8)} {a a' : Net Conn Packet} {s : Side}

theorem Brings.mono {sent sent' : List Packet} {frame : List UInt8} (h : Brings sent frame)
    (hgrow : ∀ p ∈ sent, p ∈ sent') : Brings sent' frame := by
  intro pkt hpkt
  obtain ⟨p, hp, hpad⟩ := h pkt hpkt
  exact ⟨p, hgrow p hp, hpad⟩

theorem brings_of_ne {sent : List Packet} {frame : List UInt8}
    (h : ∀ pkt, netdevRx frame ≠ .tcp pkt) :
    Brings sent frame := fun pkt hpkt => absurd hpkt (h pkt)

theorem HostSim.mono {rt : RtEntry} {h : Host} {c : Conn} {sent heard sent' heard' : List Packet}
    (hs : HostSim rt h c sent heard) (hsent : ∀ p ∈ sent, p ∈ sent')
    (hheard : ∀ p ∈ heard, p ∈ heard') :
    HostSim rt h c sent' heard' where
  conn := hs.conn
  inv := hs.inv
  todo := fun m hm => hsent _ (hs.todo m hm)
  waiting := by
    intro pkt hpkt
    obtain ⟨p, hp, hpad⟩ := hs.waiting pkt hpkt
    exact ⟨p, hheard p hp, hpad⟩

/-- One side and what it writes; for the other nothing changes but that packets are added. -/
theorem EtherSim.party (h : EtherSim rts n a) {r : Host × List (List UInt8)}
    (hparty : ∀ t, t ≠ s → a'.party t = a.party t) (hgrow : ∀ t, ∀ p ∈ a.medium t, p ∈ a'.medium t)
    (hs : HostSim (rts s) r.1 (a'.party s) (a'.medium s) (a'.medium s.other))
    (hframes : ∀ f ∈ r.2, Brings (a'.medium s) f) : EtherSim rts (carryOut n s r) a' := by
  constructor
  · intro t
    by_cases ht : t = s
    · subst ht
      have hput : (carryOut n t r).party t = r.1 := Function.update_self ..
      rw [hput]
      exact hs
    · have hput : (carryOut n s r).party t = n.party t := Function.update_of_ne ht _ _
      rw [hput, hparty t ht]
      exact (h.host t).mono (hgrow t) (hgrow t.other)
  · intro t f hf
    by_cases ht : t = s
    · subst ht
      have hput : (carryOut n t r).medium t = n.medium t ++ r.2 := Function.update_self ..
      rw [hput] at hf
      cases List.mem_append.mp hf with
      | inl hf => exact (h.wire t f hf).mono (hgrow t)
      | inr hf => exact hframes f hf
    · have hput : (carryOut n s r).medium t = n.medium t := Function.update_of_ne ht _ _
      rw [hput] at hf
      exact (h.wire t f hf).mono (hgrow t)

theorem EtherSim.quiet (h : EtherSim rts n a) {r : Host × List (List UInt8)}
    (hs : HostSim (rts s) r.1 (a.party s) (a.medium s) (a.medium s.other))
    (hframes : ∀ f ∈ r.2, Brings (a.medium s) f) : EtherSim rts (carryOut n s r) a :=
  h.party (fun _ _ => rfl) (fun _ _ hp => hp) hs hframes

theorem HostSim.perform {rt : RtEntry} {h : Host} {c : Conn} {sent heard : List Packet}
    (hs : HostSim rt h c sent heard) {e : Event} (he : e ≠ .retransmit)
    (hfree : h.blocked e = false) :
    HostSim rt (h.perform e) (step c e) sent heard := by
  obtain ⟨hinv, hbusy, hsame⟩ := hs.inv.perform he hfree
  have hconn : (h.perform e).conn = step h.conn e := rfl
  have hwait : (h.perform e).waiting = h.waiting := rfl
  refine ⟨by rw [hconn, hs.conn], hinv, ?_, hwait ▸ hs.waiting⟩
  intro m hm
  rw [hconn, wirePacket_of_ends (ends_step h.conn e)]
  cases hb : h.queue.busy with
  | true =>
    rw [hsame hb] at hm
    exact hs.todo m hm
  | false =>
    obtain ⟨msgs, hr, -⟩ := hinv.queue
    rw [(hr.idle (hbusy.trans hb)).1] at hm
    exact absurd hm List.not_mem_nil

/-- What a call of the instance is: nothing, or an event of the connection. -/
theorem act_call (h : Host) (e : Event) : h.act (.call e) = (h, []) ∨
    (∀ pkt, e ≠ .segment pkt) ∧ e ≠ .retransmit ∧ h.blocked e = false ∧
      h.act (.call e) = (h.perform e, []) := by
  cases e with
  | segment pkt => exact Or.inl rfl
  | retransmit => exact Or.inl rfl
  | _ =>
    simp only [Host.act]
    split_ifs with hb
    · exact Or.inl rfl
    · exact Or.inr ⟨by simp, by simp, by simpa using hb, rfl⟩

def OneCallerOn (n : Net Host (List UInt8)) : EtherMove → Prop
  | .act s (.call e) => OneCaller (n.party s).conn e
  | _ => True

instance (n : Net Host (List UInt8)) : (e : EtherMove) → Decidable (OneCallerOn n e)
  | .act s (.call e) => inferInstanceAs (Decidable (OneCaller (n.party s).conn e))
  | .act _ .begin | .act _ .output | .act _ .finish | .act _ .resume | .deliver _ _ _
  | .foreign _ _ =>
    inferInstanceAs (Decidable True)

theorem EtherSim.call (h : EtherSim rts n a) (s : Side) (e : Event) :
    ∃ ms, EtherSim rts (etherStep n (.act s (.call e))) (run (Duplex.step peer) a ms) ∧
      (OneCallerOn n (.act s (.call e)) → Along (Duplex.step peer) OneCallerEach a ms) := by
  have hs := h.host s
  obtain hact | ⟨hseg, hret, hfree, hact⟩ := act_call (n.party s) e
  · refine ⟨[], ?_, fun _ => trivial⟩
    simp only [etherStep, hact]
    exact h.quiet hs (fun f hf => absurd hf List.not_mem_nil)
  · have hpeer : peerAct (a.party s) e = step (a.party s) e := by
      cases peerAct_cases (a.party s) e with
      | inl hp =>
        cases e with
        | segment pkt => exact absurd rfl (hseg pkt)
        | _ => rfl
      | inr hp => exact hp.1
    have hemits : peerEmits (a.party s) e = [] := by
      cases e with
      | retransmit => exact absurd rfl hret
      | _ => rfl
    have hmed (t : Side) : (Duplex.step peer a (.act s e)).medium t = a.medium t := by
      by_cases ht : t = s
      · subst ht
        rw [act_medium]
        change a.medium t ++ peerEmits (a.party t) e = a.medium t
        rw [hemits, List.append_nil]
      · exact Function.update_of_ne ht _ _
    refine ⟨[.act s e], ?_, fun hone => ⟨?_, trivial⟩⟩
    · simp only [etherStep, hact, run]
      refine h.party (fun t ht => act_ne peer a ht e) (fun t p hp => (hmed t).symm ▸ hp) ?_
        (fun f hf => absurd hf List.not_mem_nil)
      rw [act_self, hmed, hmed]
      change HostSim (rts s) ((n.party s).perform e) (peerAct (a.party s) e) (a.medium s)
          (a.medium s.other)
      rw [hpeer]
      exact hs.perform hret hfree
    · change OneCaller (a.party s) e
      rw [← hs.conn]
      exact hone

theorem EtherSim.segment (h : EtherSim rts n a) {s : Side} {x : Host} {pkt : Packet}
    (hx : HostSim (rts s) x (a.party s) (a.medium s) (a.medium s.other))
    (hpkt : ∃ p ∈ a.medium s.other, ∃ pad, pkt = padded p pad)
    (hfree : x.blocked (.segment pkt) = false) :
    ∃ ms, EtherSim rts (carryOut n s (x.perform (.segment pkt), [])) (run (Duplex.step peer) a ms) ∧
      Along (Duplex.step peer) OneCallerEach a ms := by
  obtain ⟨p, hp, pad, rfl⟩ := hpkt
  obtain ⟨j, hj⟩ := List.mem_iff_getElem?.mp hp
  have hmed (t : Side) : (Duplex.step peer a (.deliver s j pad)).medium t = a.medium t := by
    simp only [Duplex.step, hj]
  refine ⟨[.deliver s j pad], ?_, trivial, trivial⟩
  simp only [run]
  refine h.party (fun t ht => deliver_ne peer a ht j pad) (fun t p hp => (hmed t).symm ▸ hp) ?_
    (fun f hf => absurd hf List.not_mem_nil)
  rw [deliver_self peer a hj, hmed, hmed]
  refine hx.perform ?_ hfree
  intro he
  cases he

/-- A pass begins; the packet network sends all it is going to send at once. -/
theorem EtherSim.begin (h : EtherSim rts n a) (s : Side) :
    ∃ ms, EtherSim rts (etherStep n (.act s .begin)) (run (Duplex.step peer) a ms) ∧
      Along (Duplex.step peer) OneCallerEach a ms := by
  have hs := h.host s
  cases hb : (n.party s).queue.busy with
  | true =>
    have hact : (n.party s).act .begin = (n.party s, []) := by simp only [Host.act, hb, if_true]
    refine ⟨[], ?_, trivial⟩
    simp only [etherStep, hact]
    exact h.quiet hs (fun f hf => absurd hf List.not_mem_nil)
  | false =>
    have hact : (n.party s).act .begin =
        ({ n.party s with conn := retransmit (n.party s).conn, queue := (n.party s).queue.begin },
          []) := by
      simp only [Host.act, hb, Bool.false_eq_true, if_false]
    have hmed : (Duplex.step peer a (.act s .retransmit)).medium s =
        a.medium s ++ transmitted (a.party s) :=
      act_medium peer a s .retransmit
    have hgrow (t : Side) : ∀ p ∈ a.medium t,
        p ∈ (Duplex.step peer a (.act s .retransmit)).medium t := by
      intro p hp
      by_cases ht : t = s
      · subst ht
        rw [hmed]
        exact List.mem_append_left _ hp
      · have hsame : (Duplex.step peer a (.act s .retransmit)).medium t = a.medium t :=
          Function.update_of_ne ht _ _
        exact hsame.symm ▸ hp
    refine ⟨[.act s .retransmit], ?_, trivial, trivial⟩
    simp only [etherStep, hact, run]
    refine h.party (fun t ht => act_ne peer a ht .retransmit) hgrow ?_
      (fun f hf => absurd hf List.not_mem_nil)
    rw [act_self]
    refine ⟨congrArg retransmit hs.conn, hs.inv.begin hb, ?_, ?_⟩
    · intro m hm
      obtain ⟨msgs, hr, hmsgs⟩ := hs.inv.queue
      rw [hb, if_neg Bool.false_ne_true] at hmsgs
      have htodo : (n.party s).queue.begin.todo = (n.party s).queue.passed := by
        simp [WireQueue.begin, hb]
      rw [htodo] at hm
      have hentry : m.entry ∈ (n.party s).conn.messagesArray := by
        rw [hmsgs, ← (hr.idle hb).2]
        exact List.mem_map_of_mem hm
      have hown : m.entry.tcb = (n.party s).conn.self :=
        (hs.inv.entries m (List.mem_append_left _ hm)).tcb
      rw [hmed]
      refine List.mem_append_right _ ?_
      rw [← hs.conn]
      exact List.mem_map.mpr ⟨m.entry, List.mem_filter.mpr ⟨hentry, by simp [hown]⟩, rfl⟩
    · intro pkt hpkt
      obtain ⟨p, hp, hpad⟩ := hs.waiting pkt hpkt
      exact ⟨p, hgrow s.other p hp, hpad⟩

theorem EtherSim.output (h : EtherSim rts n a) (s : Side) :
    EtherSim rts (etherStep n (.act s .output)) a := by
  have hs := h.host s
  cases hb : (n.party s).queue.busy with
  | false =>
    have hact : (n.party s).act .output = (n.party s, []) := by
      simp only [Host.act, hb, Bool.false_eq_true, if_false]
    simp only [etherStep, hact]
    exact h.quiet hs (fun f hf => absurd hf List.not_mem_nil)
  | true =>
    let r := (n.party s).queue.outputVia (n.party s).routes (n.party s).remoteIp
    have hact : (n.party s).act .output = ({ n.party s with queue := r.1 }, r.2) := by
      simp only [Host.act, hb, if_true]
      rfl
    obtain ⟨hinv, -, htodo, hframes⟩ := hs.inv.output hb
    simp only [etherStep, hact]
    refine h.quiet ⟨hs.conn, hinv, ?_, hs.waiting⟩ ?_
    · intro m hm
      obtain ⟨m', hm', he⟩ := htodo m hm
      rw [he]
      exact hs.todo m' hm'
    · intro f hf
      obtain ⟨m, hm, pad, hrx⟩ | hblank | ⟨src, dst, rfl⟩ := hframes f hf
      · intro pkt hpkt
        rw [hrx] at hpkt
        exact ⟨_, hs.todo m hm, pad, (Received.tcp.inj hpkt).symm⟩
      · exact brings_of_ne (fun pkt hpkt => by rw [hblank] at hpkt; cases hpkt)
      · exact brings_of_ne
          (fun pkt hpkt => by rw [netdevRx_arpRequest hs.inv.dev] at hpkt; cases hpkt)

theorem EtherSim.finish (h : EtherSim rts n a) (s : Side) :
    EtherSim rts (etherStep n (.act s .finish)) a := by
  have hs := h.host s
  have htodo : (n.party s).queue.finish.todo = (n.party s).queue.todo := by
    unfold WireQueue.finish
    split_ifs <;> rfl
  refine h.quiet ⟨hs.conn, hs.inv.finish, ?_, hs.waiting⟩ (fun f hf => absurd hf List.not_mem_nil)
  intro m hm
  exact hs.todo m (htodo ▸ hm)

/-- The receive thread goes on with the packet for which it has waited. -/
theorem EtherSim.resume (h : EtherSim rts n a) (s : Side) :
    ∃ ms, EtherSim rts (etherStep n (.act s .resume)) (run (Duplex.step peer) a ms) ∧
      Along (Duplex.step peer) OneCallerEach a ms := by
  have hs := h.host s
  have hquiet (hact : (n.party s).act .resume = (n.party s, [])) :
      ∃ ms, EtherSim rts (etherStep n (.act s .resume)) (run (Duplex.step peer) a ms) ∧
        Along (Duplex.step peer) OneCallerEach a ms := by
    refine ⟨[], ?_, trivial⟩
    simp only [etherStep, hact]
    exact h.quiet hs (fun f hf => absurd hf List.not_mem_nil)
  cases hw : (n.party s).waiting with
  | none => exact hquiet (by simp only [Host.act, hw])
  | some pkt =>
    cases hb : (n.party s).queue.busy with
    | true => exact hquiet (by simp only [Host.act, hw, hb, if_true])
    | false =>
      let x : Host := { n.party s with waiting := none }
      have hact : (n.party s).act .resume = (x.perform (.segment pkt), []) := by
        simp only [Host.act, hw, hb, Bool.false_eq_true, if_false]
        rfl
      have hx : HostSim (rts s) x (a.party s) (a.medium s) (a.medium s.other) :=
        ⟨hs.conn, { hs.inv with }, hs.todo, fun pkt hpkt => by cases hpkt⟩
      have hfree : x.blocked (.segment pkt) = false := by
        have hxb : x.queue.busy = false := hb
        simp only [Host.blocked, hxb, Bool.false_and]
      simp only [etherStep, hact]
      exact h.segment hx (hs.waiting pkt hw) hfree

theorem EtherSim.take (h : EtherSim rts n a) (s : Side) {frame : List UInt8}
    (hframe : Brings (a.medium s.other) frame) :
    ∃ ms, EtherSim rts (carryOut n s ((n.party s).take frame)) (run (Duplex.step peer) a ms) ∧
      Along (Duplex.step peer) OneCallerEach a ms := by
  have hs := h.host s
  have hnil : ∀ f ∈ ([] : List (List UInt8)), Brings (a.medium s) f :=
    fun f hf => absurd hf List.not_mem_nil
  have hquiet (htake : (n.party s).take frame = (n.party s, [])) :
      ∃ ms, EtherSim rts (carryOut n s ((n.party s).take frame)) (run (Duplex.step peer) a ms) ∧
        Along (Duplex.step peer) OneCallerEach a ms := by
    rw [htake]
    exact ⟨[], h.quiet hs hnil, trivial⟩
  by_cases hready : ((n.party s).waiting.isSome || !(n.party s).conn.rx.isEmpty) = true
  · exact hquiet (by simp only [Host.take, hready, if_true])
  · cases hrx : netdevRx frame with
    | tcp pkt =>
      cases hb : (n.party s).blocked (.segment pkt) with
      | true =>
        have htake : (n.party s).take frame = ({ n.party s with waiting := some pkt }, []) := by
          simp only [Host.take, hready, Bool.false_eq_true, if_false, hrx, hb, if_true]
        rw [htake]
        refine ⟨[], h.quiet ⟨hs.conn, { hs.inv with }, hs.todo, ?_⟩ hnil, trivial⟩
        intro pkt' hpkt'
        rw [← Option.some.inj hpkt']
        exact hframe pkt hrx
      | false =>
        have htake : (n.party s).take frame = ((n.party s).perform (.segment pkt), []) := by
          simp only [Host.take, hready, Bool.false_eq_true, if_false, hrx, hb]
        rw [htake]
        exact h.segment hs (hframe pkt hrx) hb
    | arp =>
      let r := arpInput (n.party s).ext (n.party s).queue.cache frame
      have htake : (n.party s).take frame =
          ({ n.party s with queue := { (n.party s).queue with cache := r.1 } }, r.2) := by
        simp only [Host.take, hready, Bool.false_eq_true, if_false, hrx]
        rfl
      obtain ⟨msgs, hr, hmsgs⟩ := hs.inv.queue
      rw [htake]
      refine ⟨[], h.quiet ⟨hs.conn, { hs.inv with
        queue := ⟨msgs, ⟨hr.shaped, hr.idle, hr.walking⟩, hmsgs⟩ }, hs.todo,
        hs.waiting⟩ ?_, trivial⟩
      intro f hf
      refine brings_of_ne (fun pkt hpkt => ?_)
      rw [netdevRx_arpInput hs.inv.ext _ _ f hf] at hpkt
      cases hpkt
    | icmp => exact hquiet (by simp only [Host.take, hready, Bool.false_eq_true, if_false, hrx])
    | dropped why =>
      exact hquiet (by simp only [Host.take, hready, Bool.false_eq_true, if_false, hrx])
    | unsupported t =>
      exact hquiet (by simp only [Host.take, hready, Bool.false_eq_true, if_false, hrx])

theorem EtherSim.step (h : EtherSim rts n a) (e : EtherMove) :
    ∃ ms, EtherSim rts (etherStep n e) (run (Duplex.step peer) a ms) ∧
      (OneCallerOn n e → Along (Duplex.step peer) OneCallerEach a ms) := by
  have hall {P : List (Move Event (List UInt8)) → Prop}
      (hx : ∃ ms, P ms ∧ Along (Duplex.step peer) OneCallerEach a ms) :
      ∃ ms, P ms ∧ (OneCallerOn n e → Along (Duplex.step peer) OneCallerEach a ms) := by
    obtain ⟨ms, hp, hms⟩ := hx
    exact ⟨ms, hp, fun _ => hms⟩
  cases e with
  | act s e =>
    cases e with
    | call e => exact h.call s e
    | begin => exact hall (h.begin s)
    | output => exact ⟨[], h.output s, fun _ => trivial⟩
    | finish => exact ⟨[], h.finish s, fun _ => trivial⟩
    | resume => exact hall (h.resume s)
  | deliver s i frame =>
    cases hm : (n.medium s.other)[i]? with
    | none =>
      refine ⟨[], ?_, fun _ => trivial⟩
      simp only [etherStep, hm]
      exact h
    | some sent =>
      by_cases hsame : netdevRx frame = netdevRx sent
      · have hframe : Brings (a.medium s.other) frame := by
          intro pkt hpkt
          exact h.wire s.other sent (List.mem_of_getElem? hm) pkt (hsame ▸ hpkt)
        simp only [etherStep, hm, hsame, if_true]
        exact hall (h.take s hframe)
      · refine ⟨[], ?_, fun _ => trivial⟩
        simp only [etherStep, hm, hsame, if_false]
        exact h
  | foreign s frame => exact hall (h.take s (brings_of_ne frame.noTcp))

theorem EtherSim.run (h : EtherSim rts n a) (es : List EtherMove) :
    ∃ ms, EtherSim rts (Runs.run etherStep n es) (Runs.run (Duplex.step peer) a ms) ∧
      (Along etherStep OneCallerOn n es → Along (Duplex.step peer) OneCallerEach a ms) := by
  induction es generalizing n a with
  | nil => exact ⟨[], h, fun _ => trivial⟩
  | cons e es ih =>
    obtain ⟨ms, hstep, hone⟩ := h.step e
    obtain ⟨ms', hrest, hones⟩ := ih hstep
    refine ⟨ms ++ ms', ?_, ?_⟩
    · rw [run_append]
      exact hrest
    · intro hes
      rw [along_append]
      exact ⟨hone hes.1, hones hes.2⟩

end Simulation

end AnpNetstack.Wire
