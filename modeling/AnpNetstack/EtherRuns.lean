import AnpNetstack.HostRuns
import AnpNetstack.RoundTrip

/-! What the programs of two instances see over frames, and how one instance can lock itself up: the
pass of tcp_retransmit_handler waits for an ARP reply with msg_arr_lock in hand, and the thread that
would read the reply waits for msg_arr_lock. -/
namespace AnpNetstack.Wire
open Packed FixedBuffer Runs Duplex

section Start

theorem Station.route (st : Station) : ∃ rt, routeLookup st.block.remoteIp st.routes = some rt ∧
    NetDev.Ethernet rt.dev ∧ st.block.localIp = ntohl rt.dev.addr := by
  obtain ⟨rt, hrt⟩ : ∃ rt, routeLookup st.block.remoteIp st.routes = some rt :=
    routeLookup_some _ _ _
  have hext : NetDev.Ethernet st.ext := ethernet_netdevAlloc _ _ _
  exact ⟨rt, hrt, routeInitFor_dev hext (routeLookup_mem hrt), st.source rt hrt⟩

theorem Station.sim (st : Station) {rt : RtEntry}
    (hrt : routeLookup st.block.remoteIp st.routes = some rt) (hdev : NetDev.Ethernet rt.dev)
    (hsource : st.block.localIp = ntohl rt.dev.addr) :
    HostSim rt st.host st.block.conn [] [] where
  conn := rfl
  inv :=
    { ext := ethernet_netdevAlloc _ _ _
      route := hrt
      dev := hdev
      source := hsource
      entries := List.forall_mem_nil _
      queue := by
        refine ⟨[], ⟨List.forall_mem_nil _, fun _ => ⟨rfl, rfl⟩,
          fun hb => absurd hb Bool.false_ne_true⟩, ?_⟩
        exact st.alone }
  todo := List.forall_mem_nil _
  waiting := fun pkt hpkt => by cases hpkt

theorem ether_start (near far : Station) :
    ∃ rts, EtherSim rts (etherOf near far) (peersOf near.block far.block) := by
  have hside (s : Side) : ∃ rt, HostSim rt ((etherOf near far).party s)
      ((peersOf near.block far.block).party s) [] [] := by
    cases s with
    | near =>
      obtain ⟨rt, hrt, hdev, hsource⟩ := near.route
      exact ⟨rt, near.sim hrt hdev hsource⟩
    | far =>
      obtain ⟨rt, hrt, hdev, hsource⟩ := far.route
      exact ⟨rt, far.sim hrt hdev hsource⟩
  choose rts hrts using hside
  exact ⟨rts, hrts, fun s f hf => absurd hf List.not_mem_nil⟩

theorem source_of_all {addr remoteIp localIp gateway : UInt32} {hwaddr : Buffer UInt8 6}
    (h : (routeLookup remoteIp (routeInitFor (netdevAlloc addr hwaddr 1500) gateway)).all
      (fun rt => localIp == ntohl rt.dev.addr) = true) :
    ∀ rt, routeLookup remoteIp (routeInitFor (netdevAlloc addr hwaddr 1500) gateway) = some rt →
      localIp = ntohl rt.dev.addr := by
  intro rt hrt
  rw [hrt] at h
  simpa using h

def nearStation : Station where
  addr := 0x0a000004
  hwaddr := ⟨[0xde, 0xad, 0xbe, 0xef, 0xaa, 0xaa], rfl⟩
  gateway := 0x0a000005
  cache := sampleCache
  block := sampleNear
  alone := rfl
  source := source_of_all (by decide)

def farStation : Station where
  addr := 0x0a000105
  hwaddr := ⟨[0xde, 0xad, 0xbe, 0xef, 0xaa, 0xab], rfl⟩
  gateway := 0x0a000101
  cache := [{ state := .resolved, srcIp := 0x0a000101, srcMac := ⟨[1, 2, 3, 4, 5, 7], rfl⟩ }]
  block := sampleFar
  alone := rfl
  source := source_of_all (by decide)

def onePass (s : Side) (k : Nat) : List EtherMove :=
  .act s .begin :: List.replicate k (.act s .output) ++ [.act s .finish]

def hear (n : Net Host (List UInt8)) (s : Side) (i : Nat) (es : List EtherMove) : List EtherMove :=
  match ((run etherStep n es).medium s.other)[i]? with
  | none => es
  | some frame => es ++ .deliver s i frame :: List.replicate 7 (.act s (.call .rxStep))

end Start

/-- Whatever the two instances do, their connections do it on packets, and a frame on the wire
brings tcp_rx one of these packets or nothing. -/
theorem ether_simulated (near far : Station) (es : List EtherMove) :
    ∃ ms, let last := run etherStep (etherOf near far) es
      let packets := run (Duplex.step peer) (peersOf near.block far.block) ms
      (∀ s, (last.party s).conn = packets.party s) ∧
        (∀ s, ∀ f ∈ last.medium s, Brings (packets.medium s) f) ∧
        ∀ s, (last.party s).queue.busy = false →
          (last.party s).queue.messagesArray.map Message.entry =
            (packets.party s).messagesArray := by
  obtain ⟨rts, hstart⟩ := ether_start near far
  obtain ⟨ms, h, -⟩ := hstart.run es
  refine ⟨ms, fun s => (h.host s).conn, h.wire, ?_⟩
  intro s hidle
  obtain ⟨msgs, hr, hmsgs⟩ := (h.host s).inv.queue
  obtain ⟨htodo, hentries⟩ := hr.idle hidle
  rw [hidle, if_neg Bool.false_ne_true] at hmsgs
  rw [WireQueue.messagesArray_idle htodo, hentries, ← hmsgs, (h.host s).conn]

def etherTalk : List EtherMove :=
  let start := etherOf nearStation farStation
  let syns :=
    [.act .near (.call .connect), .act .far (.call .connect)] ++ onePass .near 1 ++ onePass .far 1
  let crossed := hear start .far 0 (hear start .near 0 syns) ++ onePass .near 2 ++ onePass .far 2
  let opened := hear start .far 2 (hear start .near 2 crossed)
  let sent :=
    opened ++ [.act .near (.call (.send [1, 2, 3])), .act .near (.call (.sendRound 0 true))] ++
      onePass .near 4
  hear start .far 6 sent ++ [.act .far (.call (.recv 2))]

section Starved

/-- A pass stands at an entry whose next hop is not resolved, and the receive thread is not going to
read before it gets msg_arr_lock: it has a packet for which stop_retransmit has to be called, or it
is about to queue an acknowledgement. -/
structure Starved (h : Host) : Prop where
  busy : h.queue.busy = true
  todo : h.queue.todo ≠ []
  unresolved : ∀ rt, routeLookup h.conn.tcb.remoteIp h.routes = some rt →
    arpGetHwaddr h.queue.cache (nextHop rt h.conn.tcb.remoteIp) = none
  reader : h.waiting ≠ none ∧ h.conn.rx = [] ∨
    ∃ flags retries rest, h.conn.rx = .tx flags retries :: rest ∧ retriesValid retries = true

/-- What the pass and the receive thread wait for stays as it is. The calls that go on in the
meantime may change the rest of the connection and the part of the queue that the pass has behind
it. -/
structure Frozen (h h' : Host) : Prop where
  routes : h'.routes = h.routes
  remoteIp : h'.conn.tcb.remoteIp = h.conn.tcb.remoteIp
  busy : h'.queue.busy = h.queue.busy
  cache : h'.queue.cache = h.queue.cache
  todo : h'.queue.todo.map Message.entry = h.queue.todo.map Message.entry
  waiting : h'.waiting = h.waiting
  rx : h'.conn.rx = h.conn.rx

variable {h h' h'' : Host} {rt : RtEntry}

theorem Frozen.refl (h : Host) : Frozen h h := ⟨rfl, rfl, rfl, rfl, rfl, rfl, rfl⟩

theorem Frozen.trans (hf : Frozen h h') (hg : Frozen h' h'') : Frozen h h'' where
  routes := hg.routes.trans hf.routes
  remoteIp := hg.remoteIp.trans hf.remoteIp
  busy := hg.busy.trans hf.busy
  cache := hg.cache.trans hf.cache
  todo := hg.todo.trans hf.todo
  waiting := hg.waiting.trans hf.waiting
  rx := hg.rx.trans hf.rx

theorem Starved.frozen (hs : Starved h) (hf : Frozen h h') : Starved h' where
  busy := hf.busy.trans hs.busy
  todo := by
    intro hnil
    have hmap := hf.todo
    rw [hnil] at hmap
    exact hs.todo (List.map_eq_nil_iff.mp hmap.symm)
  unresolved := by
    rw [hf.routes, hf.remoteIp, hf.cache]
    exact hs.unresolved
  reader := by
    rw [hf.waiting, hf.rx]
    exact hs.reader

theorem rx_step (c : Conn) {e : Event} (hseg : ∀ pkt, e ≠ .segment pkt) (hrx : e ≠ .rxStep) :
    (step c e).rx = c.rx := by
  have hempty (d : Conn) (flags : UInt8) (retries : Int) :
      (tcpTxEmpty d flags retries).rx = d.rx := by
    cases tcpTxEmpty_cases d flags retries with
    | inl he => rw [he]
    | inr he => rw [he, txSegment_eq]
  cases e with
  | connect =>
    simp only [step, connect]
    split_ifs
    · exact hempty c tcpSyn retriesConnMax
    · rfl
  | send buf =>
    simp only [step, send]
    split_ifs <;> rfl
  | sendRound i alloc =>
    simp only [step, sendRound]
    split
    · rfl
    · unfold tcpTxSection
      split_ifs
      · rfl
      · rfl
      · simp only [txSegment_eq]
      · rfl
  | recv len => exact readBytes_frame Conn.rx (fun _ _ _ _ => rfl) c len
  | segment pkt => exact absurd rfl (hseg pkt)
  | rxStep => exact absurd rfl hrx
  | retransmit => rfl
  | close =>
    simp only [step, close]
    split_ifs <;> rfl
  | closeFin =>
    simp only [step, closeFin]
    split_ifs
    · exact hempty c tcpFinAck retriesSendonce
    · rfl
  | closeTimer =>
    simp only [step, closeConnection]
    split_ifs <;> rfl

theorem Starved.call (hs : Starved h) (e : Event) :
    Frozen h (h.act (.call e)).1 ∧ (h.act (.call e)).2 = [] := by
  obtain hact | ⟨hseg, hret, hfree, hact⟩ := act_call h e
  · rw [hact]
    exact ⟨Frozen.refl h, rfl⟩
  · rw [hact]
    refine ⟨?_, rfl⟩
    have hnil : queueOps h.conn e = [] := by simpa [Host.blocked, hs.busy] using hfree
    have hq : (h.perform e).queue = h.queue := by
      simp only [Host.perform, hnil]
      rfl
    have hrx : (step h.conn e).rx = h.conn.rx := by
      by_cases he : e = .rxStep
      · subst he
        cases hs.reader with
        | inl hr => rw [step, rxStep_nil hr.2]
        | inr hr =>
          -- this step needs the lock
          obtain ⟨flags, retries, rest, hr, hv⟩ := hr
          have hok : (([] : List UInt8).take (0 : UInt32).toNat).length ≤ tcpMaxSegSize.toNat ∧
              retriesValid retries = true := ⟨Nat.zero_le _, hv⟩
          simp only [queueOps, hr, queueTx, hok, and_self, dite_true] at hnil
          exact absurd hnil (List.cons_ne_nil _ _)
      · exact rx_step h.conn hseg he
    exact ⟨rfl,
      (addresses_of_ends (ends_step h.conn e)).2, by rw [hq], by rw [hq], by rw [hq], rfl, hrx⟩

theorem Starved.take (hs : Starved h) (frame : List UInt8) : h.take frame = (h, []) := by
  have hnot : (h.waiting.isSome || !h.conn.rx.isEmpty) = true := by
    cases hs.reader with
    | inl hr => simp [Option.isSome_iff_ne_none.mpr hr.1]
    | inr hr =>
      obtain ⟨flags, retries, rest, hr, -⟩ := hr
      simp [hr]
  simp only [Host.take, hnot, if_true]

theorem ipOutput_again {routes : List RtEntry} {cache : List ArpCacheEntry} {daddr : UInt32}
    {m : Message} (hm : Shaped m) (hrt : routeLookup daddr routes = some rt)
    (hnone : arpGetHwaddr cache (nextHop rt daddr) = none) :
    ∃ src dst, (m.reset.ipOutput routes cache daddr).1 = .again src dst := by
  have hlong : ethHdrLen + ipHdrLen ≤ m.reset.sub.buf.length := hm.sub
  obtain ⟨eth, old, rest, hbuf, heth, hold⟩ := split_at hlong
  have hsent := congrArg Subuff.buf (sentSub_buf rt.dev daddr hbuf heth hold)
  dsimp only at hsent
  have hdst : ntohl (readIp ((sentSub rt.dev daddr m.reset.sub).buf.drop ethHdrLen)).daddr =
      daddr := by
    rw [hsent, drop_middle heth, readIp_ipMem]
    exact ntohl_htonl daddr
  unfold Message.ipOutput
  simp only [hrt]
  rw [hdst]
  rw [nextHop] at hnone
  rw [hnone]
  exact ⟨_, _, rfl⟩

theorem Starved.output (hs : Starved h) (hi : HostInv rt h) :
    Frozen h (h.act .output).1 ∧ ∀ f ∈ (h.act .output).2, netdevRx f = .arp := by
  have hact : h.act .output = ({ h with queue := (h.queue.outputVia h.routes h.remoteIp).1 },
      (h.queue.outputVia h.routes h.remoteIp).2) := by
    simp only [Host.act, hs.busy, if_true]
  obtain ⟨m, rest, htodo⟩ := List.exists_cons_of_ne_nil hs.todo
  have hm := (hi.entries m (WireQueue.mem_current htodo)).framed
  obtain ⟨src, dst, hagain⟩ := ipOutput_again hm.shaped hi.route (hs.unresolved rt hi.route)
  obtain ⟨-, hsame, -⟩ := hm.output hi.route hi.dev h.queue.cache hi.source rfl
  obtain ⟨out, m', hout⟩ : ∃ out m', m.reset.ipOutput h.routes h.queue.cache h.conn.tcb.remoteIp =
      (out, m') :=
    ⟨_, _, rfl⟩
  rw [hout] at hagain hsame
  dsimp only at hagain hsame
  subst hagain
  have hip : h.remoteIp m.reset.tcb = h.conn.tcb.remoteIp := rfl
  have hvia : h.queue.outputVia h.routes h.remoteIp =
      ({ h.queue with todo := m' :: rest, log := h.queue.log ++ [.again m.number] },
        [arpRequest src dst rt.dev]) := by
    simp only [WireQueue.outputVia, htodo, hip, hout, hi.route]
    rfl
  rw [hact, hvia]
  constructor
  · refine ⟨rfl, rfl, rfl, rfl, ?_, rfl, rfl⟩
    rw [htodo, List.map_cons, List.map_cons, (hsame.entry hm.shaped).2]
  · intro f hf
    rw [List.mem_singleton.mp hf]
    exact netdevRx_arpRequest hi.dev src dst

theorem Starved.act (hs : Starved h) (hi : HostInv rt h) (e : HostEvent) :
    Frozen h (h.act e).1 ∧ ∀ f ∈ (h.act e).2, netdevRx f = .arp := by
  have hstay (hact : h.act e = (h, [])) : Frozen h (h.act e).1 ∧ ∀ f ∈ (h.act e).2,
      netdevRx f = .arp := by
    rw [hact]
    exact ⟨Frozen.refl h, List.forall_mem_nil _⟩
  cases e with
  | call e =>
    obtain ⟨hf, hnil⟩ := hs.call e
    rw [hnil]
    exact ⟨hf, List.forall_mem_nil _⟩
  | begin => exact hstay (by simp only [Host.act, hs.busy, if_true])
  | output => exact hs.output hi
  | finish =>
    refine hstay ?_
    have hne : h.queue.todo.isEmpty = false := List.isEmpty_eq_false_iff.mpr hs.todo
    simp only [Host.act, WireQueue.finish, hne, Bool.and_false, Bool.false_eq_true, if_false]
  | resume =>
    refine hstay ?_
    cases hw : h.waiting with
    | none => simp only [Host.act, hw]
    | some pkt => simp only [Host.act, hw, hs.busy, if_true]

theorem starved_step {rts : Side → RtEntry} {n : Net Host (List UInt8)}
    {a : Net Conn Packet} {s : Side} (h : EtherSim rts n a) (hs : Starved (n.party s))
    (e : EtherMove) :
    Frozen (n.party s) ((etherStep n e).party s) ∧
      ∃ requests, (etherStep n e).medium s = n.medium s ++ requests ∧ ∀ f ∈ requests,
        netdevRx f = .arp := by
  have hput (t : Side) (r : Host × List (List UInt8)) (hr : t = s →
      Frozen (n.party s) r.1 ∧ ∀ f ∈ r.2, netdevRx f = .arp) :
      Frozen (n.party s) ((carryOut n t r).party s) ∧
        ∃ requests, (carryOut n t r).medium s = n.medium s ++ requests ∧ ∀ f ∈ requests,
          netdevRx f = .arp := by
    by_cases ht : s = t
    · subst ht
      have hparty : (carryOut n s r).party s = r.1 := Function.update_self ..
      have hmed : (carryOut n s r).medium s = n.medium s ++ r.2 := Function.update_self ..
      rw [hparty, hmed]
      exact ⟨(hr rfl).1, r.2, rfl, (hr rfl).2⟩
    · have hparty : (carryOut n t r).party s = n.party s := Function.update_of_ne ht _ _
      have hmed : (carryOut n t r).medium s = n.medium s := Function.update_of_ne ht _ _
      rw [hparty, hmed]
      exact ⟨Frozen.refl _, [], (List.append_nil _).symm, List.forall_mem_nil _⟩
  have htake (frame : List UInt8) : Frozen (n.party s) ((n.party s).take frame).1 ∧
      ∀ f ∈ ((n.party s).take frame).2, netdevRx f = .arp := by
    rw [hs.take frame]
    exact ⟨Frozen.refl _, List.forall_mem_nil _⟩
  cases e with
  | act t e =>
    refine hput t _ (fun ht => ?_)
    subst ht
    exact hs.act (h.host t).inv e
  | deliver t i frame =>
    simp only [etherStep]
    split
    · exact ⟨Frozen.refl _, [], (List.append_nil _).symm, List.forall_mem_nil _⟩
    · split_ifs
      · refine hput t _ (fun ht => ?_)
        subst ht
        exact htake frame
      · exact ⟨Frozen.refl _, [], (List.append_nil _).symm, List.forall_mem_nil _⟩
  | foreign t frame =>
    refine hput t _ (fun ht => ?_)
    subst ht
    exact htake frame.bytes

theorem starved_run {rts : Side → RtEntry} {n : Net Host (List UInt8)}
    {a : Net Conn Packet} {s : Side} (h : EtherSim rts n a) (hs : Starved (n.party s))
    (es : List EtherMove) :
    Frozen (n.party s) ((run etherStep n es).party s) ∧
      ∃ requests, (run etherStep n es).medium s = n.medium s ++ requests ∧ ∀ f ∈ requests,
        netdevRx f = .arp := by
  induction es generalizing n a with
  | nil => exact ⟨Frozen.refl _, [], (List.append_nil _).symm, List.forall_mem_nil _⟩
  | cons e es ih =>
    obtain ⟨hf, fs, hmed, hfs⟩ := starved_step h hs e
    obtain ⟨ms, hsim, -⟩ := h.step e
    obtain ⟨hf', fs', hmed', hfs'⟩ := ih hsim (hs.frozen hf)
    refine ⟨hf.trans hf', fs ++ fs', ?_, ?_⟩
    · rw [run, hmed', hmed, List.append_assoc]
    · intro f hmem
      cases List.mem_append.mp hmem with
      | inl hmem => exact hfs f hmem
      | inr hmem => exact hfs' f hmem

end Starved

def coldStation : Station := { nearStation with cache := [] }

def coldStart : List EtherMove :=
  let start := etherOf coldStation farStation
  hear start .near 0 ([.act .near (.call .connect), .act .near .begin, .act .near .output,
    .act .far (.call .connect)] ++
    onePass .far 1)

def replyFrame : List UInt8 :=
  arpFrame nearStation.hwaddr.cells [2, 0, 0, 0, 0, 5] arpReplyOp
    { srcMac := ⟨[2, 0, 0, 0, 0, 5],
      rfl⟩, srcIp := 0x0a000005, dstMac := nearStation.hwaddr, dstIp := 0x0a000004 }

theorem netdevRx_replyFrame : netdevRx replyFrame = .arp := by decide +kernel

def gatewayReply : Foreign where
  bytes := replyFrame
  noTcp := fun pkt hpkt => by
    rw [netdevRx_replyFrame] at hpkt
    cases hpkt

theorem starved_of_all {h : Host} (hbusy : h.queue.busy = true)
    (htodo : h.queue.todo.isEmpty = false) (hnone : (routeLookup h.conn.tcb.remoteIp h.routes).all
      (fun rt => (arpGetHwaddr h.queue.cache (nextHop rt h.conn.tcb.remoteIp)).isNone) = true)
    (hwaiting : h.waiting.isSome = true) (hrx : h.conn.rx = []) : Starved h where
  busy := hbusy
  todo := List.isEmpty_eq_false_iff.mp htodo
  unresolved := by
    intro rt hrt
    rw [hrt] at hnone
    simpa using hnone
  reader := Or.inl ⟨Option.isSome_iff_ne_none.mp hwaiting, hrx⟩

end AnpNetstack.Wire
