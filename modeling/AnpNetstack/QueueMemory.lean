import AnpNetstack.QueueWalks

/-! The queue in memory and the queue of messages. As long as nothing is freed, a walk leaves in
memory what it leaves in the queue of messages, and the queue stays well-formed. -/
namespace AnpNetstack.Wire
open LinkRing Allocation Runs
open Packed hiding load

def MessagesArray.message (q : MessagesArray) (x : Nat) : Message := (q.entry x).message x (q.sub x)

def MessagesArray.messages (q : MessagesArray) : List Message := q.items.map q.message

section Stop
variable (q : MessagesArray) {x self : Nat} {tcb : Tcb}

theorem stop_message (hx : x ∈ q.items)
    (hseq : (q.entry x).tcb = self → ¬ q.seqNum x < tcb.sndUna) :
    Message.stop self tcb (q.message x) = some (q.message x) := by
  have hin : (q.message x).tcpPtr + 8 ≤ (q.message x).tcpBuf.length := by
    have hlen : (q.entry x).tcpPtr + tcpHdrLen ≤ (q.sub x).buf.length := q.inside x hx
    have h8 : 8 ≤ tcpHdrLen := by decide
    exact (Nat.add_le_add_left h8 _).trans hlen
  by_cases htcb : (q.entry x).tcb = self
  · have hown : (q.message x).tcb = self := htcb
    have hnot : ¬ ntohl (q.message x).seqNum < tcb.sndUna := hseq htcb
    simp only [Message.stop, if_pos hown, Message.seqNum_setSeqNum hin, if_neg hnot]
    have hback := Message.setSeqNum_back hin
    rw [Message.seqNum_setSeqNum hin] at hback
    rw [hback]
  · exact if_neg htcb

/-- Where stop_retransmit frees nothing, it changes nothing, neither in memory nor in the queue of
messages. -/
theorem stopRetransmit_messages
    (hseq : ∀ x ∈ q.items, (q.entry x).tcb = self → ¬ q.seqNum x < tcb.sndUna)
    (malloc : QueueMem → Nat) {wq : WireQueue} (hbusy : wq.busy = false)
    (hpassed : wq.passed = q.messages) :
    (∃ fuel, QueueMem.stopRetransmit malloc self tcb q.head fuel q.mem = .done (q.items, q.mem)) ∧
      (wq.stopRetransmit self tcb).passed = q.messages := by
  constructor
  · obtain ⟨fuel, m, hdone, hm, -⟩ := listForEach_done (I := Unchanged q)
      (fun x rest m h hseq => h.next malloc hseq) hseq ⟨rfl, [], rfl⟩ q.ring
    exact ⟨fuel, hm ▸ hdone⟩
  · have hstop : (wq.stopRetransmit self tcb).passed =
        wq.passed.filterMap (Message.stop self tcb) := by
      rw [WireQueue.stopRetransmit, hbusy]
      rfl
    rw [hstop, hpassed, MessagesArray.messages, List.filterMap_map, ← List.filterMap_eq_map]
    exact List.filterMap_congr fun x hx => stop_message q hx (hseq x hx)

end Stop

section Wait
variable {m : QueueMem} {entry : QueueEntry} {sub : Subuff} {x : Nat} {dstIpAddr : UInt32}

def waitEvents (dstIpAddr : UInt32) : List (List ArpCacheEntry) → List QueueEvent
  | [] => []
  | cache :: caches =>
    .arp cache :: .output :: if getsOut dstIpAddr cache then [] else waitEvents dstIpAddr caches

variable {remoteIp : Nat → UInt32} {wq : WireQueue} {rest : List Message}

theorem output_again {cache : List ArpCacheEntry} {mes mes' : Message} {src dst : UInt32}
    (htodo : wq.todo = mes :: rest)
    (hout : mes.reset.ipOutput routeInit cache (remoteIp mes.tcb) = (.again src dst, mes')) :
    { wq with cache := cache }.output remoteIp =
      { wq with cache := cache, todo := mes' :: rest, log := wq.log ++ [.again mes.number] } := by
  have htcb : mes.reset.tcb = mes.tcb := rfl
  simp only [WireQueue.output, htodo, htcb, hout]
  rfl

theorem output_out {cache : List ArpCacheEntry} {mes mes' : Message} {out : Output}
    (htodo : wq.todo = mes :: rest)
    (hout : mes.reset.ipOutput routeInit cache (remoteIp mes.tcb) = (out, mes'))
    (hnot : ∀ src dst, out ≠ .again src dst) : ∃ log, { wq with cache := cache }.output remoteIp =
      { wq with
        cache := cache
        passed := wq.passed ++
          ((retriesLeft mes.retries).map fun k => { mes' with retries := k }).toList
        todo := rest
        log := log } := by
  have htcb : mes.reset.tcb = mes.tcb := rfl
  have hretries : mes.reset.retries = mes.retries := rfl
  simp only [WireQueue.output, htodo, htcb, hout, hretries]
  cases out with
  | again src dst => exact absurd rfl (hnot src dst)
  | noRoute => exact ⟨_, rfl⟩
  | written frame => exact ⟨_, rfl⟩

variable (remoteIp) in
/-- The attempts for an entry in memory and in the queue of messages. -/
theorem wait_run (hs : m.subs entry.sub = some sub) (hpacket : entry.packet = entry.sub)
    (hlen : ethHdrLen + ipHdrLen ≤ sub.buf.length) {caches : List (List ArpCacheEntry)}
    (hany : caches.any (getsOut (remoteIp entry.tcb)) = true) (hbusy : wq.busy = true)
    (htodo : wq.todo = entry.message x sub :: rest) :
    ∃ sub' cache log, QueueMem.waitOutput entry (remoteIp entry.tcb) caches m =
      .done (m.putSub entry.sub sub') ∧
      sub.buf.length ≤ sub'.buf.length ∧
      run (queueStep remoteIp) wq (waitEvents (remoteIp entry.tcb) caches) =
        { wq with
          cache := cache
          passed := wq.passed ++
            ((retriesLeft entry.retries).map fun k => { entry.message x sub' with
              retries := k }).toList
          todo := rest
          log := log } := by
  induction caches generalizing m sub wq with
  | nil => cases hany
  | cons cache caches ih =>
    obtain ⟨out, sub', hattempt, hmessage, hlonger, hagain⟩ :=
      attempt_eq hs hpacket hlen cache (remoteIp entry.tcb) x
    have hstep : run (queueStep remoteIp) wq [.arp cache, .output] =
        { wq with cache := cache }.output remoteIp := by
      simp only [run, queueStep, hbusy, if_true]
    rw [QueueMem.waitOutput, hattempt]
    cases hout : getsOut (remoteIp entry.tcb) cache with
    | true =>
      have hnot : ∀ src dst, out ≠ .again src dst := fun src dst he =>
        absurd (hagain.mpr ⟨src, dst, he⟩) (by rw [hout]; exact Bool.noConfusion)
      obtain ⟨log, hrun⟩ := output_out htodo hmessage hnot
      refine ⟨sub', cache, log, rfl, hlonger, ?_⟩
      rw [waitEvents, if_pos hout, hstep, hrun]
      rfl
    | false =>
      obtain ⟨src, dst, rfl⟩ := hagain.mp hout
      have hrest : caches.any (getsOut (remoteIp entry.tcb)) = true := by
        rw [List.any_cons, hout, Bool.false_or] at hany
        exact hany
      let waiting : WireQueue :=
        { wq with
          cache := cache, todo := entry.message x sub' :: rest, log := wq.log ++ [.again x] }
      have hagain' : { wq with cache := cache }.output remoteIp = waiting :=
        output_again htodo hmessage
      have hwaiting : waiting.busy = true := hbusy
      obtain ⟨sub'', cache', log, hwait, hlonger', hrun⟩ :=
        ih (putSub_same m entry.sub sub') (hlen.trans hlonger) hrest
          hwaiting rfl
      rw [putSub_putSub] at hwait
      refine ⟨sub'', cache', log, hwait, hlonger.trans hlonger', ?_⟩
      have hsplit : waitEvents (remoteIp entry.tcb) (cache :: caches) =
          [.arp cache, .output] ++ waitEvents (remoteIp entry.tcb) caches := by
        rw [waitEvents, hout]
        rfl
      rw [hsplit, run_append, hstep, hagain']
      exact hrun

end Wait

section Pass
variable (q : MessagesArray) (remoteIp : Nat → UInt32) (caches : Nat → List (List ArpCacheEntry))

def MessagesArray.passEvents (xs : List Nat) : List QueueEvent :=
  xs.flatMap fun x => waitEvents (remoteIp (q.entry x).tcb) (caches x)

def MessagesArray.entryIn (m : QueueMem) (x : Nat) : QueueEntry := (m.entries x).getD (q.entry x)

def MessagesArray.subIn (m : QueueMem) (x : Nat) : Subuff := (m.subs (q.entry x).sub).getD (q.sub x)

def MessagesArray.messageIn (m : QueueMem) (x : Nat) : Message :=
  (q.entryIn m x).message x (q.subIn m x)

structure Passed (m : QueueMem) (x : Nat) : Prop where
  entry : ∃ k, m.entries x = some { q.entry x with retries := k }
  sub : ∃ sub, m.subs (q.entry x).sub = some sub ∧ (q.sub x).buf.length ≤ sub.buf.length

structure Midway (wq₀ : WireQueue) (todo : List Nat) (m : QueueMem) : Prop where
  ahead : Ahead q todo m
  both : ∃ front, q.items = front ++ todo ∧ (∀ x ∈ front, Passed q m x) ∧ ∃ cache log,
    run (queueStep remoteIp) wq₀ (q.passEvents remoteIp caches front) =
      { wq₀ with
        cache := cache, passed := front.map (q.messageIn m), todo := todo.map q.message, log :=
          log }

variable {q remoteIp caches} {wq₀ : WireQueue} {x : Nat} {rest : List Nat} {m : QueueMem}

theorem other_kept {m' : QueueMem} {y : Nat} (hentries : m'.entries y = m.entries y)
    (hsubs : m'.subs (q.entry y).sub = m.subs (q.entry y).sub) :
    q.messageIn m' y = q.messageIn m y ∧ (Passed q m y → Passed q m' y) := by
  constructor
  · rw [MessagesArray.messageIn, MessagesArray.messageIn, MessagesArray.entryIn,
      MessagesArray.entryIn, MessagesArray.subIn, MessagesArray.subIn, hentries, hsubs]
  · rintro ⟨hentry, hsub⟩
    exact ⟨hentries ▸ hentry, hsubs ▸ hsub⟩

theorem Midway.next (h : Midway q remoteIp caches wq₀ (x :: rest) m) (hbusy : wq₀.busy = true)
    (hout : q.getsOut remoteIp caches x = true)
    (hsend : (q.entry x).retries ≠ UInt32.ofInt retriesSendonce) (hlast : (q.entry x).retries ≠ 1) :
    ∃ m', QueueMem.retransmitEntry remoteIp caches x m = .done m' ∧
      Midway q remoteIp caches wq₀ rest m' ∧
      nextOf m'.links x = (rest ++ [q.head]).head? := by
  obtain ⟨m', hdone, hahead, hnext⟩ := h.ahead.next hout hsend hlast
  refine ⟨m', hdone, ⟨hahead, ?_⟩, hnext⟩
  obtain ⟨front, hitems, hpassed, cache, log, hrun⟩ := h.both
  have hx : x ∈ q.items := h.ahead.mem.1
  have hfront {y : Nat} (hy : y ∈ front) : y ≠ x ∧ (q.entry y).sub ≠ (q.entry x).sub := by
    have hapart : x ∉ q.head :: (front ++ rest) := (middle_apart (hitems ▸ q.ring.nodup)).1
    have hne : y ≠ x :=
      ne_of_mem_of_not_mem (List.mem_cons_of_mem q.head (List.mem_append_left rest hy)) hapart
    exact ⟨hne, fun he => hne (q.apart y (hitems ▸ List.mem_append_left _ hy) x hx he)⟩
  let wq : WireQueue :=
    { wq₀ with cache := cache, passed := front.map (q.messageIn m), todo := (x ::
      rest).map q.message, log := log }
  have hwalking : wq.busy = true := hbusy
  have htodo : wq.todo = (q.entry x).message x (q.sub x) :: rest.map q.message := rfl
  have hsub : m.subs (q.entry x).sub = some (q.sub x) := h.ahead.subs x List.mem_cons_self
  have hentry : m.entries x = some (q.entry x) := h.ahead.entries x List.mem_cons_self
  obtain ⟨sub', cache', log', hwait, hlonger, hrun'⟩ :=
    wait_run remoteIp hsub (q.packet x hx) (q.long hx) hout hwalking
      htodo
  -- the two halves of the body give the memory that the walk goes on with
  have hput : (m.putSub (q.entry x).sub sub').entries x = some (q.entry x) := hentry
  obtain ⟨m'', k, hcount, hleft, -, hsubs, hnew, hentries⟩ := countDown_kept hput hsend hlast
  have hbody : QueueMem.retransmitEntry remoteIp caches x m = .done m'' := by
    simp only [QueueMem.retransmitEntry, load_ok hentry, hwait, hcount]
    rfl
  have hsame : m' = m'' := by
    rw [hdone] at hbody
    cases hbody
    rfl
  subst hsame
  have hother {y : Nat} (hy : y ∈ front) : q.messageIn m' y = q.messageIn m y ∧
      (Passed q m y → Passed q m' y) :=
    other_kept (hentries y (hfront hy).1) (by rw [hsubs, putSub_other (hfront hy).2])
  have hown : m'.subs (q.entry x).sub = some sub' := by rw [hsubs, putSub_same]
  have hmessage : q.messageIn m' x = { (q.entry x).message x sub' with retries := k } := by
    rw [MessagesArray.messageIn, MessagesArray.entryIn, MessagesArray.subIn, hnew, hown]
    rfl
  refine ⟨front ++ [x], by rw [hitems, List.append_assoc]; rfl, fun y hy => ?_, cache', log', ?_⟩
  · cases List.mem_append.mp hy with
    | inl hy => exact (hother hy).2 (hpassed y hy)
    | inr hy =>
      rw [List.mem_singleton.mp hy]
      exact ⟨⟨k, hnew⟩, sub', hown, hlonger⟩
  · have hmap : front.map (q.messageIn m') = front.map (q.messageIn m) :=
      List.map_congr_left fun y hy => (hother hy).1
    have hevents : q.passEvents remoteIp caches (front ++ [x]) =
        q.passEvents remoteIp caches front ++ waitEvents (remoteIp (q.entry x).tcb) (caches x) := by
      rw [MessagesArray.passEvents, MessagesArray.passEvents, List.flatMap_append,
        List.flatMap_singleton]
    rw [hevents, run_append, hrun, hrun', hleft, List.map_append, hmap,
      List.map_singleton, hmessage]
    rfl

theorem Passed.entryIn (h : Passed q m x) :
    m.entries x = some (q.entryIn m x) ∧ ∃ k, q.entryIn m x = { q.entry x with retries := k } := by
  obtain ⟨k, hk⟩ := h.entry
  rw [MessagesArray.entryIn, hk]
  exact ⟨rfl, k, rfl⟩

theorem Passed.subIn (h : Passed q m x) :
    m.subs (q.entry x).sub = some (q.subIn m x) ∧
      (q.sub x).buf.length ≤ (q.subIn m x).buf.length := by
  obtain ⟨sub, hsub, hlonger⟩ := h.sub
  rw [MessagesArray.subIn, hsub]
  exact ⟨rfl, hlonger⟩

theorem Passed.wellFormed (hlinks : m.links = q.mem.links) (h : ∀ x ∈ q.items, Passed q m x) :
    ∃ q' : MessagesArray, q'.mem = m ∧ q'.head = q.head ∧ q'.items = q.items ∧
      q'.messages = q.items.map (q.messageIn m) := by
  refine ⟨{
    mem := m
    head := q.head
    items := q.items
    entry := q.entryIn m
    sub := q.subIn m
    ring := hlinks ▸ q.ring
    entries := fun x hx => (h x hx).entryIn.1
    subs := fun x hx => ?_
    packet := fun x hx => ?_
    room := fun x hx => ?_
    inside := fun x hx => ?_
    apart := fun x hx y hy => ?_ }, rfl, rfl, rfl, rfl⟩
  · obtain ⟨k, hk⟩ := (h x hx).entryIn.2
    rw [hk]
    exact (h x hx).subIn.1
  · obtain ⟨k, hk⟩ := (h x hx).entryIn.2
    rw [hk]
    exact q.packet x hx
  · obtain ⟨k, hk⟩ := (h x hx).entryIn.2
    rw [hk]
    exact q.room x hx
  · obtain ⟨k, hk⟩ := (h x hx).entryIn.2
    rw [hk]
    exact (q.inside x hx).trans (h x hx).subIn.2
  · obtain ⟨k, hk⟩ := (h x hx).entryIn.2
    obtain ⟨k', hk'⟩ := (h y hy).entryIn.2
    rw [hk, hk']
    exact q.apart x hx y hy

/-- A pass that frees nothing does in memory what it does in the queue of messages. -/
theorem tcpRetransmitHandler_messages (hout : ∀ x ∈ q.items, q.getsOut remoteIp caches x = true)
    (hret : ∀ x ∈ q.items, (q.entry x).retries ≠ UInt32.ofInt retriesSendonce ∧
      (q.entry x).retries ≠ 1)
    {wq : WireQueue} (hbusy : wq.busy = false) (hpassed : wq.passed = q.messages) :
    ∃ fuel, ∃ q' : MessagesArray,
      QueueMem.tcpRetransmitHandler remoteIp caches q.head fuel q.mem = .done (q.items, q'.mem) ∧
      q'.head = q.head ∧ q'.items = q.items ∧
      (run (queueStep remoteIp) wq (.begin ::
        (q.passEvents remoteIp caches q.items ++ [.finish]))).messagesArray =
        q'.messages := by
  let wq₀ : WireQueue :=
    { wq with passed := [], todo := wq.passed, busy := true, log := wq.log ++ [.began wq.passed] }
  have hbegin : queueStep remoteIp wq .begin = wq₀ := by
    simp only [queueStep, WireQueue.begin, hbusy, Bool.false_eq_true, if_false]
    rfl
  have hstart : wq₀ = { wq₀ with
      cache := wq.cache, passed := [], todo := q.items.map q.message, log := wq₀.log } := by
    have htodo : wq₀.todo = q.items.map q.message := hpassed
    rw [← htodo]
  have hwalk : ∃ fuel m, QueueMem.tcpRetransmitHandler remoteIp caches q.head fuel q.mem =
      .done (q.items, m) ∧
      Midway q remoteIp caches wq₀ [] m := by
    refine listForEach_done (P := fun x => q.getsOut remoteIp caches x = true ∧
        (q.entry x).retries ≠ UInt32.ofInt retriesSendonce ∧ (q.entry x).retries ≠ 1)
      (fun x rest m h hx => h.next rfl hx.1 hx.2.1 hx.2.2) (fun x hx => ⟨hout x hx, hret x hx⟩)
      ⟨⟨rfl, ⟨[], rfl⟩, q.entries, q.subs⟩, [], rfl, fun _ hx => absurd hx List.not_mem_nil,
        wq.cache, wq₀.log, ?_⟩ q.ring
    exact hstart
  obtain ⟨fuel, m, hdone, hm⟩ := hwalk
  obtain ⟨front, hitems, hall, cache, log, hrun⟩ := hm.both
  rw [List.append_nil] at hitems
  subst hitems
  obtain ⟨q', rfl, hhead, hitems', hmessages⟩ := Passed.wellFormed hm.ahead.links hall
  refine ⟨fuel, q', hdone, hhead, hitems', ?_⟩
  rw [hmessages, run, hbegin, run_append, hrun]
  exact List.append_nil _

end Pass

end AnpNetstack.Wire
