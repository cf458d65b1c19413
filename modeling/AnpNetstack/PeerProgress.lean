import AnpNetstack.PeerQueue
import AnpNetstack.PeerChecksum

/-! When a stream between two instances of the stack can go on: as long as the delivered bytes end
where a segment ends, the network can bring everything across; once they do not, nothing more
comes. -/
namespace AnpNetstack
open Runs Duplex

/-- The delivered bytes end where a segment of the other side ends. -/
def AtBoundary (own other : Conn) : Prop :=
  ∃ pre post, other.sent = pre ++ post ∧ seqLength pre = own.delivered.length

section Stalled

theorem Streaming.stalled {own other : Conn} (h : Streaming own other) (ho : Solo other)
    (hlen : seqLength other.sent < 2 ^ 32) (hoff : ¬ AtBoundary own other) (e : Event) :
    (step own e).delivered = own.delivered := by
  obtain hsame | ⟨pkt, ht⟩ := delivered_step own e h.pair.solo.recv.buff
  · exact hsame
  · obtain ⟨pre, x, post, hsent, -, -, hpos⟩ := h.stream.position h.pair ho hlen ht
    exact absurd ⟨pre, x :: post, hsent, hpos.symm⟩ hoff

/-- What is queued later has no boundary further back. -/
theorem AtBoundary.back {own other other' : Conn} (h : AtBoundary own other')
    (hgrow : other.sent <+: other'.sent) (hle : own.delivered.length ≤ seqLength other.sent) :
    AtBoundary own other := by
  obtain ⟨pre, post, hsent, hpos⟩ := h
  obtain ⟨new, hnew⟩ := hgrow
  rw [hsent] at hnew
  obtain ⟨tail, hpre, -⟩ | ⟨tail, hold, -⟩ := List.append_eq_append_iff.mp hnew
  · rw [hpre, seqLength_append] at hpos
    exact ⟨other.sent, [], (List.append_nil _).symm, by omega⟩
  · exact ⟨pre, tail, hold, hpos⟩

def StoppedAt (ds : List UInt8) (own other : Conn) : Prop :=
  seqLength other.sent < 2 ^ 32 → own.delivered = ds ∧ ¬ AtBoundary own other

theorem StoppedAt.own_step {ds : List UInt8} {own other : Conn} (h : StoppedAt ds own other)
    (hs : Streaming own other) (ho : Solo other) (e : Event) : StoppedAt ds (step own e) other := by
  intro hlen
  obtain ⟨hds, hoff⟩ := h hlen
  have hsame := hs.stalled ho hlen hoff e
  refine ⟨hsame.trans hds, ?_⟩
  rintro ⟨pre, post, hsent, hpos⟩
  exact hoff ⟨pre, post, hsent, hsame ▸ hpos⟩

theorem StoppedAt.other_step {ds : List UInt8} {own other : Conn} (h : StoppedAt ds own other)
    (hstream : Streamed own other) (e : Event) : StoppedAt ds own (step other e) := by
  intro hlen
  have hgrow := sent_grows other e
  have hlen' := Nat.lt_of_le_of_lt (seqLength_mono hgrow) hlen
  obtain ⟨hds, hoff⟩ := h hlen'
  have hle := (hstream hlen').length_le.trans (textBeforeFin_length other.sent)
  exact ⟨hds, fun hb => hoff (hb.back hgrow hle)⟩

theorem stopped_step {ds : List UInt8} {n : Net Conn Packet} {s : Side} (hn : Both Streaming n)
    (h : StoppedAt ds (n.party s) (n.party s.other)) (e : Move Event (List UInt8)) :
    StoppedAt ds ((Duplex.step peer n e).party s) ((Duplex.step peer n e).party s.other) := by
  have hown : StoppedAt ds ((Duplex.step peer n e).party s) (n.party s.other) ∧
      Streamed ((Duplex.step peer n e).party s) (n.party s.other) := by
    obtain he | ⟨e', he⟩ := party_step n e s
    · rw [he]
      exact ⟨h, (hn s).stream⟩
    · rw [he]
      exact ⟨h.own_step (hn s) (hn s.other).pair.solo e',
        (hn s).stream.own_step (hn s).pair (hn s.other).pair.solo e'⟩
  obtain he | ⟨e', he⟩ := party_step n e s.other
  · rw [he]
    exact hown.1
  · rw [he]
    exact hown.1.other_step hown.2 e'

theorem stopped_run {ds : List UInt8} {n : Net Conn Packet} {s : Side} (hn : Both Streaming n)
    (hS : Sound Says n) (h : StoppedAt ds (n.party s) (n.party s.other))
    (more : List (Move Event (List UInt8))) :
    StoppedAt ds ((run (Duplex.step peer) n more).party s)
      ((run (Duplex.step peer) n more).party s.other) := by
  induction more generalizing n with
  | nil => exact h
  | cons e more ih =>
    have hstep := streaming_steady.run hn hS (permitted_all [e])
    exact ih hstep.1 hstep.2 (stopped_step hn h e)

/-- No boundary lies inside the text of a segment. -/
theorem boundary_outside {pre post pre' post' : List Sent} {x : Sent}
    (h : pre ++ x :: post = pre' ++ post') :
    seqLength pre' ≤ seqLength pre ∨ seqLength pre + x.seg.data.length ≤ seqLength pre' := by
  obtain ⟨tail, hpre', htail⟩ | ⟨tail, hpre, -⟩ := List.append_eq_append_iff.mp h
  · cases tail with
    | nil =>
      left
      rw [hpre', List.append_nil]
    | cons y tail =>
      have hxy : x = y := (List.cons.inj htail).1
      right
      rw [hpre', seqLength_append, seqLength_cons, hxy]
      omega
  · left
    rw [hpre, seqLength_append]
    exact Nat.le_add_right _ _

/-- A segment that does not fit into rcv_buff is cut. -/
theorem cut_by_buffer {own other : Conn} (h : Streaming own other) (ho : Solo other)
    (hlen : seqLength other.sent < 2 ^ 32) {c' : Conn} {pkt : Packet} (ht : TakesText own c' pkt)
    (hroom : own.tcb.rcvBuffLen < tcpRcvMax)
    (hfull : tcpRcvMax - own.tcb.rcvBuffLen < segmentLen pkt) :
    ¬ AtBoundary c' other := by
  obtain ⟨pre, x, post, hsent, hcarries, -, hpos⟩ := h.stream.position h.pair ho hlen ht
  have hbuff := h.pair.solo.recv.buff
  have hcopy := finalCopySize_toNat own.tcb (segmentLen pkt) hbuff
  have hsub := UInt32.toNat_sub_of_le _ _ hbuff
  have hl := hcarries.segmentLen_toNat
  rw [UInt32.lt_iff_toNat_lt] at hroom hfull
  have hafter : c'.delivered.length =
      seqLength pre + (tcpRcvMax.toNat - own.tcb.rcvBuffLen.toNat) := by
    rw [delivered_save hbuff hcarries ht.tcb ht.read, List.length_append, List.length_take, hpos]
    omega
  rintro ⟨pre', post', hsent', hpos'⟩
  have hout := boundary_outside (hsent.symm.trans hsent')
  omega

end Stalled

section Receive

def Ready (c : Conn) : Prop := c.tcb.state = .established ∧ c.tcbLock = false

theorem Ready.rx_nil {c : Conn} (h : Ready c) (hk : ControlInv c.control) : c.rx = [] :=
  hk.rx_nil h.2 (by simp [Conn.control, h.1])

theorem Ready.fins_nil {c : Conn} (h : Ready c) (hc : Solo c) : c.fins = [] := by
  by_contra hf
  have hl : c.tcbLock = true := (hc.stuck h.1 hf).2.1
  simp [h.2] at hl

def takeText : List Event := [.rxStep, .rxStep, .rxStep, .rxStep]

theorem txEmpty_control (c : Conn) (flags : UInt8) (retries : Int) :
    (tcpTxEmpty c flags retries).rx = c.rx ∧
      (tcpTxEmpty c flags retries).tcb.state = c.tcb.state := by
  have h := control_tcpTxEmpty c flags retries
  exact ⟨congrArg Control.rx h, congrArg Control.state h⟩

theorem segment_ready {c : Conn} (hready : Ready c) (hk : ControlInv c.control) {pkt : Packet}
    (hacc : accepted c.tcb pkt = true) (hflags : pkt.tcp.hdr.flags = tcpAck) :
    step c (.segment pkt) = ackEstablished c pkt := by
  have hack : hasFlag tcpAck tcpAck = true := by decide
  simp only [step, hready.rx_nil hk, List.isEmpty_nil, tcpRxSwitch, hacc, hready.2, hready.1,
    hflags, hack, Bool.not_true, Bool.or_self, Bool.false_eq_true, if_false, if_true]

theorem text_ready {c : Conn} {pkt : Packet} {text : List UInt8} {rest : List RxAct}
    (hx : c.rx = .text pkt :: rest) (hcarries : Carries pkt text) (htext : text ≠ [])
    (hseq : pkt.tcp.hdr.seqNum = c.tcb.rcvNxt)
    (hroom : c.tcb.rcvBuffLen.toNat < tcpRcvMax.toNat) :
    (rxStep c).rx = .tx tcpAck retriesSendonce :: rest ∧ (rxStep c).tcb.state = c.tcb.state ∧
      (rxStep c).delivered =
        c.delivered ++ text.take (tcpRcvMax.toNat - c.tcb.rcvBuffLen.toNat) := by
  have hl := hcarries.segmentLen_toNat
  have hpos := List.length_pos_iff.mpr htext
  have hz : segmentLen pkt ≠ 0 := by
    intro hz
    rw [hz] at hl
    exact absurd hl.symm (Nat.ne_of_gt hpos)
  have hb : c.tcb.rcvBuffLen ≤ tcpRcvMax := by
    rw [UInt32.le_iff_toNat_le]
    omega
  have hcopy := finalCopySize_toNat c.tcb (segmentLen pkt) hb
  rw [rxStep_text hx]
  have hstep := rxText_step c pkt rest
  generalize rxText c pkt rest = c' at hstep ⊢
  cases hstep with
  | none hz' => exact absurd hz' hz
  | outOfOrder hz' hseq' => exact absurd hseq hseq'
  | stored hz' hseq' =>
    have hgt : (saveDataAndAck c.tcb pkt.tcp.data (segmentLen pkt)).2 = true := by
      simp only [saveDataAndAck, gt_iff_lt, UInt32.lt_iff_toNat_lt, decide_eq_true_eq]
      rw [hcopy]
      have hzero : (0 : UInt32).toNat = 0 := rfl
      omega
    refine ⟨by simp only [hgt, if_true],
      saveDataAndAck_state c.tcb pkt.tcp.data (segmentLen pkt), ?_⟩
    refine (delivered_save hb hcarries ?_ ?_).trans ?_
    · rfl
    · rfl
    · rw [hcopy, hl, List.take_eq_take_min (i := tcpRcvMax.toNat - _), Nat.min_comm]

theorem take_text {c : Conn} (hready : Ready c) (hk : ControlInv c.control) {pkt : Packet}
    {text : List UInt8} (hacc : accepted c.tcb pkt = true) (hflags : pkt.tcp.hdr.flags = tcpAck)
    (hcarries : Carries pkt text) (htext : text ≠ []) (hseq : pkt.tcp.hdr.seqNum = c.tcb.rcvNxt)
    (hroom : c.tcb.rcvBuffLen.toNat < tcpRcvMax.toNat) :
    Ready (run step c (.segment pkt :: takeText)) ∧
      (run step c (.segment pkt :: takeText)).delivered =
        c.delivered ++ text.take (tcpRcvMax.toNat - c.tcb.rcvBuffLen.toNat) := by
  have hside := recvSide_ackEstablished c pkt
  have hswitch := segment_ready hready hk hacc hflags
  have hst : (ackEstablished c pkt).tcb.state = .established :=
    (takeAck_frame Tcb.state (fun _ _ => rfl) c.tcb pkt.tcp.hdr).trans hready.1
  have hdel : (ackEstablished c pkt).delivered = c.delivered :=
    delivered_congr (takeAck_frame Tcb.rcvBuff (fun _ _ => rfl) c.tcb pkt.tcp.hdr)
      (takeAck_frame Tcb.rcvBuffLen (fun _ _ => rfl) c.tcb pkt.tcp.hdr) rfl
  have hnxt : (ackEstablished c pkt).tcb.rcvNxt = c.tcb.rcvNxt := congrArg RecvSide.rcvNxt hside
  have hlen : (ackEstablished c pkt).tcb.rcvBuffLen = c.tcb.rcvBuffLen :=
    congrArg RecvSide.rcvBuffLen hside
  have hrx : (ackEstablished c pkt).rx = [.text pkt, .fin pkt] := rfl
  have hrun : run step c (.segment pkt :: takeText) =
      rxStep (rxStep (rxStep (rxStep (ackEstablished c pkt)))) := by
    rw [run, hswitch]
    rfl
  rw [hrun]
  generalize ackEstablished c pkt = c1 at *
  obtain ⟨hrx2, hst2, hdel2⟩ := text_ready hrx hcarries htext (hseq.trans hnxt.symm) (hlen ▸ hroom)
  generalize rxStep c1 = c2 at *
  -- the acknowledgement of the text, and then no FIN
  have hctl := txEmpty_control { c2 with rx := [.fin pkt] } tcpAck retriesSendonce
  have hdel3 := (delivered_txEmpty { c2 with rx := [.fin pkt] } tcpAck retriesSendonce).trans
    (delivered_congr rfl rfl rfl : _ = c2.delivered)
  rw [rxStep_tx hrx2]
  generalize tcpTxEmpty { c2 with rx := [.fin pkt] } tcpAck retriesSendonce = c3 at *
  have hst3 : c3.tcb.state = .established := hctl.2.trans (hst2.trans hst)
  have hno : hasFlag pkt.tcp.hdr.flags tcpFin = false := by
    rw [hflags]
    decide
  have hfin : rxFin c3 pkt = { c3 with rx := [.unlock] } := by simp [rxFin, hst3, hno]
  rw [rxStep_fin hctl.1, hfin]
  have hunlock : rxStep { c3 with rx := [.unlock] } = { c3 with rx := [], tcbLock := false } :=
    rxStep_unlock rfl
  rw [hunlock]
  refine ⟨⟨hst3, rfl⟩, ?_⟩
  rw [← hdel, ← hlen, ← hdel2, ← hdel3]
  exact delivered_congr rfl rfl rfl

end Receive

section Progress

/-- Where the delivered bytes end before the text does, a segment with text begins. -/
theorem next_segment {xs pre post : List Sent} {ds : List UInt8} (hsent : xs = pre ++ post)
    (hpos : seqLength pre = ds.length) (hds : ds <+: textBeforeFin xs)
    (hne : ds ≠ textBeforeFin xs) :
    ∃ pre x post, xs = pre ++ x :: post ∧ seqLength pre = ds.length ∧ noFin x = true ∧
      x.seg.data ≠ [] := by
  induction post generalizing pre with
  | nil =>
    rw [List.append_nil] at hsent
    have hle := textBeforeFin_length xs
    rw [hsent, hpos, ← hsent] at hle
    exact absurd (hds.eq_of_length_le hle) hne
  | cons x post ih =>
    cases hno : noFin x with
    | false =>
      -- a FIN ends the text here
      have hnil : textBeforeFin (x :: post) = [] := by
        rw [textBeforeFin_cons, hno]
        rfl
      have hle : (textBeforeFin xs).length ≤ ds.length := by
        obtain ⟨htext, hlen⟩ | hlt := textBeforeFin_before pre x post
        · rw [hsent, htext, hnil, List.append_nil]
          omega
        · rw [hsent]
          omega
      exact absurd (hds.eq_of_length_le hle) hne
    | true =>
      by_cases htext : x.seg.data = []
      · refine ih (by rw [hsent, List.append_assoc]; rfl : xs = (pre ++ [x]) ++ post) ?_
        rw [seqLength_append, seqLength_cons, htext, hno, hpos]
        rfl
      · exact ⟨pre, x, post, hsent, hpos, hno, htext⟩

/-- A stream to side `s` that can go on: the addresses are right, there is room in the sequence
numbers, tcp_rx can take a segment and none has been cut. -/
structure Flowing (n : Net Conn Packet) (s : Side) : Prop where
  keeping : Both Keeping n
  sound : Sound Says n
  facing : Facing (n.party s).tcb (n.party s.other).tcb
  small : SmallAddresses (n.party s.other).tcb
  taken : AddressTaken (n.party s.other).tcb.localIp
  room : (n.party s.other).tcb.iss.toNat + 2 + seqLength (n.party s.other).sent < 2 ^ 32
  ready : Ready (n.party s)
  boundary : AtBoundary (n.party s) (n.party s.other)

/-- The segment that is to be delivered next is sent by the next pass over the queue. -/
theorem Flowing.next {n : Net Conn Packet} {s : Side} (h : Flowing n s)
    (hne : (n.party s).delivered ≠ textBeforeFin (n.party s.other).sent) :
    ∃ pre x post, (n.party s.other).sent = pre ++ x :: post ∧
      seqLength pre = (n.party s).delivered.length ∧
      noFin x = true ∧ x.seg.data ≠ [] ∧ wirePacket (n.party s.other).tcb x.seg ∈
        transmitted (n.party s.other) := by
  have hown := h.keeping s
  have hother : Keeping (n.party s.other) (n.party s) := by
    have hk := h.keeping s.other
    rwa [Side.other_other] at hk
  have hroom := h.room
  obtain ⟨pre, post, hsent, hpos⟩ := h.boundary
  have hstream := hown.streaming.stream (by omega)
  obtain ⟨pre, x, post, hsent, hpos, hno, htext⟩ := next_segment hsent hpos hstream hne
  refine ⟨pre, x, post, hsent, hpos, hno, htext, ?_⟩
  obtain ⟨m, hm, hh⟩ | hle :=
    (hother.kept hroom).stored hother.streaming.pair hown.streaming.pair.solo hroom
      hown.streaming.stream hsent htext
  · refine List.mem_map.mpr ⟨m, List.mem_filter.mpr ⟨hm, ?_⟩, by rw [hh.ptr]⟩
    simpa using hh.tcb
  · have hlen := List.length_pos_iff.mpr htext
    omega

def fillMoves (s : Side) (i : Nat) : List (Move Event (List UInt8)) :=
  .act s.other .retransmit :: .deliver s i [] :: takeText.map (.act s)

def roundMoves (s : Side) (i : Nat) : List (Move Event (List UInt8)) :=
  .act s (.recv tcpRcvMax) :: fillMoves s i

theorem allocating_fill (n : Net Conn Packet) (s : Side) (i : Nat) :
    Along (Duplex.step peer) Allocating n (fillMoves s i) := by
  refine along_of_forall (Duplex.step peer) (fun e he n => ?_) n
  have hcases : e = .act s.other .retransmit ∨ e = .deliver s i [] ∨ e = .act s .rxStep := by
    simpa [fillMoves, takeText] using he
  obtain rfl | rfl | rfl := hcases
  · trivial
  · trivial
  · trivial

theorem fill_parties (n : Net Conn Packet) (s : Side) {i : Nat} {pkt : Packet}
    (hi : (n.medium s.other ++ transmitted (n.party s.other))[i]? = some pkt) :
    let n' := run (Duplex.step peer) n (fillMoves s i)
    n'.party s = run step (n.party s) (.segment (padded pkt []) :: takeText) ∧
      n'.party s.other = retransmit (n.party s.other) := by
  intro n'
  have hne := s.other_ne
  set n1 := Duplex.step peer n (.act s.other .retransmit)
  have hown1 : n1.party s = n.party s := act_ne peer n hne.symm _
  have hother1 : n1.party s.other = retransmit (n.party s.other) := act_self peer n s.other _
  have hmed1 : n1.medium s.other = n.medium s.other ++ transmitted (n.party s.other) :=
    act_medium peer n s.other .retransmit
  have hown2 := deliver_self peer n1 (hmed1 ▸ hi) []
  have hother2 := deliver_ne peer n1 hne i []
  have hn' : n' = run (Duplex.step peer) (Duplex.step peer n1 (.deliver s i []))
      (takeText.map (.act s)) := rfl
  constructor
  · rw [hn', acts_self, hown2, hown1]
    rfl
  · rw [hn', acts_ne peer _ hne, hother2, hother1]

theorem round_sent (n : Net Conn Packet) (s : Side) (i : Nat) :
    ((run (Duplex.step peer) n (roundMoves s i)).party s.other).sent = (n.party s.other).sent := by
  have hne := s.other_ne
  set n1 := Duplex.step peer n (.act s (.recv tcpRcvMax))
  set n2 := Duplex.step peer n1 (.act s.other .retransmit)
  have hother1 : n1.party s.other = n.party s.other := act_ne peer n hne _
  have hother2 : n2.party s.other = retransmit (n1.party s.other) := act_self peer n1 s.other _
  have hn' : run (Duplex.step peer) n (roundMoves s i) =
      run (Duplex.step peer) (Duplex.step peer n2 (.deliver s i [])) (takeText.map (.act s)) := rfl
  rw [hn', acts_ne peer _ hne, deliver_ne peer n2 hne, hother2, hother1]
  rfl

theorem rounds_sent (n : Net Conn Packet) (s : Side) (ks : List Nat) :
    ((run (Duplex.step peer) n (ks.flatMap (roundMoves s))).party s.other).sent =
      (n.party s.other).sent := by
  induction ks generalizing n with
  | nil => rfl
  | cons i ks ih => rw [List.flatMap_cons, run_append, ih, round_sent]

theorem readBytes_all {c : Conn} (hl : c.tcbLock = false) (hb : c.tcb.rcvBuffLen ≤ tcpRcvMax) :
    (readBytes c tcpRcvMax).tcb.rcvBuffLen = 0 := by
  have hn : readableSize c.tcb tcpRcvMax = c.tcb.rcvBuffLen := by
    rw [readableSize, ← UInt32.toNat_inj, anpMin_toNat]
    rw [UInt32.le_iff_toNat_le] at hb
    split_ifs <;> omega
  simp only [readBytes, hl, Bool.false_eq_true, if_false, hn, UInt32.sub_self]

theorem Flowing.emptied {n : Net Conn Packet} {s : Side} (h : Flowing n s) :
    let n' := Duplex.step peer n (.act s (.recv tcpRcvMax))
    Flowing n' s ∧ (n'.party s).tcb.rcvBuffLen = 0 ∧
      (n'.party s).delivered = (n.party s).delivered ∧ n'.party s.other = n.party s.other := by
  intro n'
  have hinv := keeping_steady.step h.keeping h.sound (e := .act s (.recv tcpRcvMax)) trivial
  have hsolo := (h.keeping s).streaming.pair.solo
  have hown : n'.party s = readBytes (n.party s) tcpRcvMax := act_self peer n s _
  have hother : n'.party s.other = n.party s.other := act_ne peer n s.other_ne _
  have hread := readBytes_delivered (n.party s) tcpRcvMax hsolo.recv.buff
  have hctl := control_readBytes (n.party s) tcpRcvMax
  have hends : (readBytes (n.party s) tcpRcvMax).tcb.ends = (n.party s).tcb.ends :=
    ends_step (n.party s) (.recv tcpRcvMax)
  have hready : Ready (n'.party s) := by
    rw [hown]
    exact ⟨(congrArg Control.state hctl).trans h.ready.1,
      (congrArg Control.lock hctl).trans h.ready.2⟩
  refine ⟨⟨hinv.1, hinv.2, ?_, ?_, ?_, ?_, hready, ?_⟩, ?_, ?_, hother⟩
  · rw [hother, hown]
    exact h.facing.of_ends hends
  · exact hother ▸ h.small
  · exact hother ▸ h.taken
  · exact hother ▸ h.room
  · obtain ⟨pre, post, hsent, hpos⟩ := h.boundary
    refine ⟨pre, post, hother ▸ hsent, ?_⟩
    rw [hown, hread, hpos]
  · rw [hown]
    exact readBytes_all h.ready.2 hsolo.recv.buff
  · rw [hown, hread]

structure Filled (n n' : Net Conn Packet) (s : Side) (x : Sent) : Prop where
  ready : Ready (n'.party s)
  delivered : (n'.party s).delivered = (n.party s).delivered ++
    x.seg.data.take (tcpRcvMax.toNat - (n.party s).tcb.rcvBuffLen.toNat)
  read : (n'.party s).read = (n.party s).read
  ends : (n'.party s).tcb.ends = (n.party s).tcb.ends
  other : n'.party s.other = retransmit (n.party s.other)

theorem Filled.tcb_other {n n' : Net Conn Packet} {s : Side} {x : Sent} (h : Filled n n' s x) :
    (n'.party s.other).tcb = (n.party s.other).tcb := by
  rw [h.other]
  rfl

theorem Filled.sent_other {n n' : Net Conn Packet} {s : Side} {x : Sent} (h : Filled n n' s x) :
    (n'.party s.other).sent = (n.party s.other).sent := by
  rw [h.other]
  rfl

theorem read_step (c : Conn) {e : Event} (he : ∀ len, e ≠ .recv len) :
    (step c e).read = c.read := by
  cases recv_step c e with
  | quiet hside => exact congrArg RecvSide.read hside
  | syn pkt hs hside => exact congrArg RecvSide.read hside
  | read len n hl hn hside => exact absurd rfl (he len)
  | stored pkt rest hx hlen hseq hside => exact congrArg RecvSide.read hside
  | fin pkt rest hx hf hside => exact congrArg RecvSide.read hside

theorem read_run (c : Conn) {es : List Event} (hes : ∀ e ∈ es, ∀ len, e ≠ .recv len) :
    (run step c es).read = c.read := by
  induction es generalizing c with
  | nil => rfl
  | cons e es ih =>
    have hrest := ih (step c e) (fun e' he' => hes e' (List.mem_cons_of_mem e he'))
    exact hrest.trans (read_step c (hes e List.mem_cons_self))

theorem Flowing.fill {n : Net Conn Packet} {s : Side} (h : Flowing n s)
    (hne : (n.party s).delivered ≠ textBeforeFin (n.party s.other).sent)
    (hroom : (n.party s).tcb.rcvBuffLen.toNat < tcpRcvMax.toNat) :
    ∃ i pre x post, (n.party s.other).sent = pre ++ x :: post ∧
      seqLength pre = (n.party s).delivered.length ∧ noFin x = true ∧ x.seg.data ≠ [] ∧
      Filled n (run (Duplex.step peer) n (fillMoves s i)) s x := by
  obtain ⟨pre, x, post, hsent, hpos, hno, htext, hmem⟩ := h.next hne
  obtain ⟨i, hi⟩ := List.mem_iff_getElem?.mp (List.mem_append_right (n.medium s.other) hmem)
  obtain ⟨hown', hother'⟩ := fill_parties n s hi
  refine ⟨i, pre, x, post, hsent, hpos, hno, htext, ?_⟩
  generalize run (Duplex.step peer) n (fillMoves s i) = n' at *
  have hown := (h.keeping s).streaming.pair
  have hsolo := (h.keeping s.other).streaming.pair.solo
  have hbuilt : x.Built (n.party s.other).tcb.ends := hsolo.built x (by simp [hsent])
  have hplain := hsolo.log.position hsent htext
  have hflags : x.seg.hdr.flags = tcpAck := by
    obtain hf | ⟨-, hdata⟩ := hplain.1
    · exact hf
    · exact absurd hdata htext
  have hseq : x.seg.hdr.seqNum = (n.party s).tcb.rcvNxt := by
    have hearly : ¬ Early (n.party s) := by
      have hfresh : (n.party s).fresh = false :=
        hown.solo.reached.inv.not_fresh (by simp [Conn.control, h.ready.1])
      simp [Early, hfresh, h.ready.1]
    cases hown.solo.recv with
    | early he => exact absurd he hearly
    | synced _ hc acks =>
      rw [hplain.2, hc.nxt, hown.linked.irs hearly, h.ready.fins_nil hown.solo, hpos,
        delivered_length (n.party s) hown.solo.recv.buff]
      exact (UInt32.add_zero _).symm
  have hacc : accepted (n.party s).tcb
      (padded (wirePacket (n.party s.other).tcb x.seg) []) = true :=
    (accepted_wirePacket hbuilt h.facing h.small []).mpr h.taken
  have htake := take_text h.ready hown.solo.reached.inv hacc hflags (carries_wirePacket hbuilt _ [])
    htext hseq hroom
  refine ⟨hown' ▸ htake.1, by rw [hown', htake.2], ?_, ?_, hother'⟩
  · rw [hown']
    exact read_run (n.party s) (by simp [takeText])
  · rw [hown', ends_run]

theorem Flowing.filled {n n' : Net Conn Packet} {s : Side} (h : Flowing n s)
    (hinv : Both Keeping n' ∧ Sound Says n') {pre post : List Sent} {x : Sent}
    (hsent : (n.party s.other).sent = pre ++ x :: post)
    (hpos : seqLength pre = (n.party s).delivered.length) (hno : noFin x = true)
    (hf : Filled n n' s x)
    (hfits : x.seg.data.length ≤ tcpRcvMax.toNat - (n.party s).tcb.rcvBuffLen.toNat) :
    Flowing n' s ∧ (n'.party s).delivered.length =
      (n.party s).delivered.length + x.seg.data.length := by
  have htcb := hf.tcb_other
  have hsame := hf.sent_other
  have hlen : (n'.party s).delivered.length = (n.party s).delivered.length + x.seg.data.length := by
    rw [hf.delivered, List.take_of_length_le hfits, List.length_append]
  refine ⟨⟨hinv.1, hinv.2, ?_, htcb ▸ h.small, htcb ▸ h.taken, ?_, hf.ready, pre ++ [x], post,
    ?_, ?_⟩, hlen⟩
  · rw [htcb]
    exact h.facing.of_ends hf.ends
  · rw [htcb, hsame]
    exact h.room
  · rw [hsame, hsent, List.append_assoc]
    rfl
  · rw [seqLength_append, seqLength_cons, hno, hpos, hlen]
    rfl

/-- In a round the next segment is delivered whole. -/
theorem Flowing.round {n : Net Conn Packet} {s : Side} (h : Flowing n s)
    (hne : (n.party s).delivered ≠ textBeforeFin (n.party s.other).sent) :
    ∃ i, let n' := run (Duplex.step peer) n (roundMoves s i)
      Flowing n' s ∧ (n.party s).delivered.length < (n'.party s).delivered.length ∧
        (n'.party s.other).sent = (n.party s.other).sent := by
  obtain ⟨hflow, hzero, hdel, hother⟩ := h.emptied
  have hrun : ∀ i, run (Duplex.step peer) n (roundMoves s i) =
      run (Duplex.step peer) (Duplex.step peer n (.act s (.recv tcpRcvMax))) (fillMoves s i) :=
        fun i => rfl
  generalize Duplex.step peer n (.act s (.recv tcpRcvMax)) = n1 at *
  obtain ⟨i, pre, x, post, hsent, hpos, hno, htext, hf⟩ :=
    hflow.fill (by rw [hdel, hother]; exact hne) (by rw [hzero]; decide)
  have hinv := keeping_steady.run hflow.keeping hflow.sound
    (along_mono (fun _ _ => Allocating.permitted) (allocating_fill n1 s i))
  have hsize := ((hflow.keeping s.other).streaming.pair.solo.built x (by simp [hsent])).size
  have hmax : tcpRcvMax.toNat = 65535 := rfl
  have hlong := List.length_pos_iff.mpr htext
  obtain ⟨hflow', hlen⟩ := hflow.filled hinv hsent hpos hno hf (by
    rw [hzero, UInt32.toNat_zero]
    omega)
  refine ⟨i, ?_⟩
  rw [hrun]
  refine ⟨hflow', by rw [hlen, hdel]; omega, ?_⟩
  rw [hf.sent_other, hother]

/-- Rounds bring everything across that stands before the FIN. -/
theorem Flowing.finish {n : Net Conn Packet} {s : Side} (h : Flowing n s) :
    ∃ ks : List Nat, let last := run (Duplex.step peer) n (ks.flatMap (roundMoves s))
      (last.party s).delivered = textBeforeFin (n.party s.other).sent ∧
        (last.party s.other).sent = (n.party s.other).sent := by
  -- on the number of bytes that are still to come
  induction hk : (textBeforeFin (n.party s.other).sent).length - (n.party s).delivered.length
    using Nat.strong_induction_on generalizing n with
  | _ k ih =>
    by_cases hdone : (n.party s).delivered = textBeforeFin (n.party s.other).sent
    · exact ⟨[], hdone, rfl⟩
    · obtain ⟨i, hflow, hlong, hsame⟩ := h.round hdone
      have hle := ((hflow.keeping s).streaming.stream (by have hr := hflow.room; omega)).length_le
      rw [hsame] at hle
      obtain ⟨ks, hlast, hsent⟩ := ih _ (by rw [← hk, hsame]; omega) hflow rfl
      refine ⟨i :: ks, ?_, ?_⟩
      · rw [List.flatMap_cons, run_append, hlast, hsame]
      · rw [List.flatMap_cons, run_append, hsent, hsame]

def sampleQueued : List (Move Event (List UInt8)) :=
  sampleOpening ++ [.act .near (.send [1, 2, 3]), .act .near (.sendRound 0 true)]

/-- Without a reader rcv_buff fills up to its last byte if the other side has queued more than
that. -/
theorem Flowing.fill_up {n : Net Conn Packet} {s : Side} (h : Flowing n s)
    (hread : (n.party s).read = [])
    (hmore : tcpRcvMax.toNat < (textBeforeFin (n.party s.other).sent).length) :
    ∃ ks : List Nat, let last := run (Duplex.step peer) n (ks.flatMap (fillMoves s))
      (last.party s).delivered.length = tcpRcvMax.toNat ∧
        (last.party s.other).sent = (n.party s.other).sent := by
  -- on the room that is left in rcv_buff
  induction hk : tcpRcvMax.toNat - (n.party s).delivered.length using Nat.strong_induction_on
    generalizing n with
  | _ k ih =>
    have hbuff := (h.keeping s).streaming.pair.solo.recv.buff
    have hlen := delivered_length (n.party s) hbuff
    rw [UInt32.le_iff_toNat_le] at hbuff
    rw [hread, List.length_nil, Nat.zero_add] at hlen
    by_cases hdone : (n.party s).delivered.length = tcpRcvMax.toNat
    · exact ⟨[], hdone, rfl⟩
    · have hne : (n.party s).delivered ≠ textBeforeFin (n.party s.other).sent := by
        intro he
        rw [← he] at hmore
        omega
      obtain ⟨i, pre, x, post, hsent, hpos, hno, htext, hf⟩ := h.fill hne (by omega)
      have hsame := hf.sent_other
      have hlong := List.length_pos_iff.mpr htext
      by_cases hfits : x.seg.data.length ≤ tcpRcvMax.toNat - (n.party s).tcb.rcvBuffLen.toNat
      · have hinv := keeping_steady.run h.keeping h.sound
          (along_mono (fun _ _ => Allocating.permitted) (allocating_fill n s i))
        obtain ⟨hflow, hgrown⟩ := h.filled hinv hsent hpos hno hf hfits
        obtain ⟨ks, hfull, hsent'⟩ :=
          ih _ (by omega) hflow (hf.read.trans hread) (by rw [hsame]; exact hmore) rfl
        refine ⟨i :: ks, ?_, ?_⟩
        · rw [List.flatMap_cons, run_append, hfull]
        · rw [List.flatMap_cons, run_append, hsent', hsame]
      · -- this one is cut
        refine ⟨[i], ?_, ?_⟩
        · rw [List.flatMap_singleton, hf.delivered, List.length_append, List.length_take]
          omega
        · rw [List.flatMap_singleton, hsame]

end Progress

section Cut

def sampleFlood : List (Move Event (List UInt8)) :=
  sampleOpening ++ (List.range 45).flatMap fun k =>
    [.act .near (.send (List.replicate 1460 0)), .act .near (.sendRound k true)]

theorem seqLength_dvd {d : Nat} {xs : List Sent}
    (h : ∀ x ∈ xs, noFin x = true ∧ d ∣ x.seg.data.length) : d ∣ seqLength xs := by
  induction xs with
  | nil => exact Nat.dvd_zero d
  | cons x xs ih =>
    obtain ⟨hno, hdvd⟩ := h x List.mem_cons_self
    rw [seqLength_cons, hno, if_pos rfl]
    exact hdvd.add (ih (fun y hy => h y (List.mem_cons_of_mem x hy)))

/-- Full segments have no boundary at a length that is no multiple of theirs. -/
theorem not_boundary {d : Nat} {own other : Conn}
    (h : ∀ x ∈ other.sent, noFin x = true ∧ d ∣ x.seg.data.length)
    (hlen : ¬ d ∣ own.delivered.length) : ¬ AtBoundary own other := by
  rintro ⟨pre, post, hsent, hpos⟩
  rw [← hpos] at hlen
  exact hlen (seqLength_dvd (fun x hx => h x (hsent ▸ List.mem_append_left post hx)))

theorem textBeforeFin_all {xs : List Sent} (h : ∀ x ∈ xs, noFin x = true) :
    (textBeforeFin xs).length = seqLength xs := by
  induction xs with
  | nil => rfl
  | cons x xs ih =>
    have hx := h x List.mem_cons_self
    rw [textBeforeFin_cons, seqLength_cons, hx, if_pos rfl, if_pos rfl, List.length_append,
      ih (fun y hy => h y (List.mem_cons_of_mem x hy)), Nat.add_zero]

theorem flood_sent :
    let sent := ((run (Duplex.step peer) (peersOf sampleNear sampleFar) sampleFlood).party
      Side.far.other).sent
    (∀ x ∈ sent, noFin x = true ∧ 1460 ∣ x.seg.data.length) ∧ seqLength sent = 65700 := by
  decide +kernel

end Cut

end AnpNetstack
