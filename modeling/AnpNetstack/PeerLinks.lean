import AnpNetstack.Peers
import AnpNetstack.ReceiveCount
import AnpNetstack.Handshake

/-! What each side of a connection knows of the other, whatever the network does with the packets:
after the handshake both have the other's initial sequence number, an acknowledgement that was
taken covers bytes the other side has stored, and a FIN that was consumed has been sent. -/
namespace AnpNetstack
open Runs Duplex

/-- A connection block with nothing done yet. The bounds are those of rand, without zero. -/
structure PeerBlock where
  self : Nat
  localPort : UInt16
  remotePort : UInt16
  localIp : UInt32
  remoteIp : UInt32
  iss : UInt32
  msgs : List TcpMessage
  iss_pos : 0 < iss
  iss_max : iss ≤ randMax
  others : ∀ m ∈ msgs, m.tcb ≠ self

def PeerBlock.conn (b : PeerBlock) : Conn :=
  connectBlock b.self b.localPort b.remotePort b.localIp b.remoteIp b.iss b.msgs

def peersOf (near far : PeerBlock) : Net Conn Packet := peersStart near.conn far.conn

theorem iss_step (c : Conn) (e : Event) : (step c e).tcb.iss = c.tcb.iss := by
  by_cases he : ∃ pkt, e = .segment pkt
  · obtain ⟨pkt, rfl⟩ := he
    cases segment_cases c pkt with
    | inl he => rw [he]
    | inr ht =>
      obtain ⟨c', he, ht⟩ := ht
      rw [he]
      cases ht with
      | establish hs hf hu => rfl
      | cross hs hf hu => rfl
      | confirm hs hf ha => rfl
      | ack hs hf => exact takeAck_frame Tcb.iss (fun _ _ => rfl) c.tcb pkt.tcp.hdr
      | finWait hs hf => rfl
  · exact step_frame Tcb.iss (fun _ _ _ _ _ _ => rfl) c (fun pkt h => he ⟨pkt, h⟩)

theorem stored_step {c : Conn} (h : RecvPhase c) (e : Event) : c.stored ≤ (step c e).stored := by
  cases recv_step c e with
  | quiet hside => exact Nat.le_of_eq (stored_congr hside).symm
  | syn pkt hs hside =>
    have hread : (step c (.segment pkt)).read = c.read := congrArg RecvSide.read hside
    have hlen : (step c (.segment pkt)).tcb.rcvBuffLen = c.tcb.rcvBuffLen :=
      congrArg RecvSide.rcvBuffLen hside
    rw [Conn.stored, Conn.stored, hread, hlen]
  | read len n hl hn hside =>
    exact Nat.le_of_eq (stored_read h.buff hn (congrArg RecvSide.read hside)
      (congrArg RecvSide.rcvBuffLen hside)).symm
  | stored pkt rest hx hlen hseq hside =>
    have hst :=
      stored_text h.buff (finalCopySize_le c.tcb (segmentLen pkt)) (congrArg RecvSide.read hside)
        (congrArg RecvSide.rcvBuffLen hside)
    rw [hst.1]
    exact Nat.le_add_right _ _
  | fin pkt rest hx hf hside =>
    have hread : (step c .rxStep).read = c.read := congrArg RecvSide.read hside
    have hlen : (step c .rxStep).tcb.rcvBuffLen = c.tcb.rcvBuffLen :=
      congrArg RecvSide.rcvBuffLen hside
    rw [Conn.stored, Conn.stored, hread, hlen]

theorem fins_grow (c : Conn) (e : Event) : c.fins <+: (step c e).fins := by
  cases recv_step c e with
  | quiet hside =>
    have hfins : (step c e).fins = c.fins := congrArg RecvSide.fins hside
    rw [hfins]
  | syn pkt hs hside =>
    have hfins : (step c (.segment pkt)).fins = c.fins := congrArg RecvSide.fins hside
    rw [hfins]
  | read len n hl hn hside =>
    have hfins : (step c (.recv len)).fins = c.fins := congrArg RecvSide.fins hside
    rw [hfins]
  | stored pkt rest hx hlen hseq hside =>
    have hfins : (step c .rxStep).fins = c.fins := congrArg RecvSide.fins hside
    rw [hfins]
  | fin pkt rest hx hf hside =>
    have hfins : (step c .rxStep).fins = c.fins ++ [(pkt, c.tcb.rcvNxt)] :=
      congrArg RecvSide.fins hside
    rw [hfins]
    exact List.prefix_append _ _

theorem ending_step {c : Conn} (hk : ControlInv c.control) (hnot : ¬ Ending c.control) (e : Event)
    (h : Ending (step c e).control) : (step c e).fins ≠ [] := by
  cases control_step c e with
  | inl hsame =>
    rw [hsame] at h
    exact absurd h hnot
  | inr hstep =>
    generalize hk' : (step c e).control = k' at hstep h
    unfold Ending at h hnot
    cases hstep with
    | finTaken pkt rest hx hs =>
      have he : step c .rxStep = rxFin c pkt := rxStep_fin hx
      have hs' : c.tcb.state = .finWait1 ∨ c.tcb.state = .finWait2 := hs
      have htw : (rxFin c pkt).tcb.state = .timeWait := he ▸ congrArg Control.state hk'
      have hfin := rxFin_step c pkt
      rw [he]
      generalize rxFin c pkt = c' at hfin htw ⊢
      cases hfin with
      | dropped hd =>
        have htw' : c.tcb.state = .timeWait := htw
        simp [htw'] at hs'
      | taken hf hw => simp
      | ignored hf hw => simp
      | noFin hf =>
        have htw' : c.tcb.state = .timeWait := htw
        simp [htw'] at hs'
    | closeTimer ht hl => exact absurd (Or.inl (hk.timer_state ht).1) hnot
    | _ => simp_all

structure Solo (c : Conn) : Prop where
  reached : Reached c.control
  recv : RecvPhase c
  log : LogPhase c.tcb.iss c
  built : ∀ x ∈ c.sent, x.Built c.tcb.ends
  queued : QueuedSent c
  stored : ∀ x ∈ c.sent, x.stored ≤ c.stored
  una : Early c → c.tcb.sndUna = c.tcb.iss - 1
  ending : Ending c.control → c.fins ≠ []
  iss_pos : 0 < c.tcb.iss
  iss_max : c.tcb.iss ≤ randMax

theorem Solo.step {c : Conn} (h : Solo c) (e : Event) : Solo (step c e) := by
  have hiss := iss_step c e
  refine ⟨reached_step h.reached e, h.recv.step h.reached.inv e, ?_, built_step h.built e,
    h.queued.step e, ?_, ?_, ?_, hiss ▸ h.iss_pos, hiss ▸ h.iss_max⟩
  · rw [hiss]
    exact h.log.step h.reached.inv e
  · have hmono := stored_step h.recv e
    have hold : ∀ x ∈ c.sent, x.stored ≤ (AnpNetstack.step c e).stored :=
      fun x hx => Nat.le_trans (h.stored x hx) hmono
    obtain hs | ⟨who, data, n, flags, hs⟩ := sent_step c e
    · rw [hs]
      exact hold
    · rw [hs]
      intro x hx
      cases List.mem_append.mp hx with
      | inl hx => exact hold x hx
      | inr hx =>
        rw [List.mem_singleton.mp hx]
        exact hmono
  · intro hearly
    have hbefore := early_of_step e hearly
    have huna : (AnpNetstack.step c e).tcb.sndUna = c.tcb.sndUna := by
      by_cases he : ∃ pkt, e = .segment pkt
      · obtain ⟨pkt, rfl⟩ := he
        cases segment_cases c pkt with
        | inl he => rw [he]
        | inr ht =>
          obtain ⟨c', he, ht⟩ := ht
          exact absurd hearly (he ▸ hbefore.taken h.reached.inv ht)
      · exact step_frame Tcb.sndUna (fun _ _ _ _ _ _ => rfl) c (fun pkt h => he ⟨pkt, h⟩)
    rw [huna, hiss]
    exact h.una hbefore
  · intro hend
    by_cases hbefore : Ending c.control
    · have hgrow := fins_grow c e
      intro hnil
      rw [hnil] at hgrow
      exact h.ending hbefore (List.prefix_nil.mp hgrow)
    · exact ending_step h.reached.inv hbefore e hend

theorem PeerBlock.solo (b : PeerBlock) : Solo b.conn where
  reached := connectBlock_reached b.self b.localPort b.remotePort b.localIp b.remoteIp b.iss b.msgs
  recv := connectBlock_recvPhase b.self b.localPort b.remotePort b.localIp b.remoteIp b.iss b.msgs
  log := connectBlock_log b.self b.localPort b.remotePort b.localIp b.remoteIp b.iss b.msgs
  built := by simp [PeerBlock.conn, connectBlock]
  queued := fun m hm hself => absurd hself (b.others m hm)
  stored := by simp [PeerBlock.conn, connectBlock]
  una := fun _ => rfl
  ending := by simp [Ending, Conn.control, PeerBlock.conn, connectBlock]
  iss_pos := b.iss_pos
  iss_max := b.iss_max

theorem early_end {c : Conn} (hk : ControlInv c.control) (hearly : Early c) {e : Event}
    (h : ¬ Early (step c e)) : ∃ pkt, e = .segment pkt := by
  by_contra he
  refine h ?_
  have hstate := hearly.state hk
  cases control_step c e with
  | inl hsame =>
    have hf : (step c e).fresh = c.fresh := congrArg Control.fresh hsame
    have hs : (step c e).tcb.state = c.tcb.state := congrArg Control.state hsame
    rw [Early, hf, hs]
    exact hearly
  | inr hstep =>
    have hfresh : (step c e).fresh = (step c e).control.fresh := rfl
    have hst : (step c e).tcb.state = (step c e).control.state := rfl
    rw [Early, hfresh, hst]
    generalize (step c e).control = k' at hstep
    have hk' : c.control.fresh = true ∨ c.control.state = .synSent := hearly
    have hstate' : c.control.state = .closed ∨ c.control.state = .synSent := hstate
    cases hstep with
    | connect hf => exact Or.inr rfl
    | close hl hs => simp [hs] at hstate'
    | closeFails hl => exact hk'
    | closeFin hc => exact hk'
    | finTaken pkt rest hx hs => obtain hs | hs := hs <;> simp [hs] at hstate'
    | closeTimer ht hl => simp [(hk.timer_state ht).1] at hstate'
    | establish => exact absurd ⟨_, rfl⟩ he
    | cross => exact absurd ⟨_, rfl⟩ he
    | confirm => exact absurd ⟨_, rfl⟩ he
    | ack => exact absurd ⟨_, rfl⟩ he
    | finWait => exact absurd ⟨_, rfl⟩ he
    | _ => exact hk'

theorem opening_end {c : Conn} (hk : ControlInv c.control) (hopen : Opening c.control) {e : Event}
    (h : ¬ Opening (step c e).control) : ∃ pkt, e = .segment pkt := by
  by_contra he
  refine h ?_
  have hstate := hopen.state hk
  cases control_step c e with
  | inl hsame =>
    rw [hsame]
    exact hopen
  | inr hstep =>
    generalize (step c e).control = k' at hstep
    unfold Opening at hopen ⊢
    cases hstep with
    | connect hf => exact Or.inr (Or.inl rfl)
    | close hl hs => simp [hs] at hstate
    | finTaken pkt rest hx hs => obtain hs | hs := hs <;> simp [hs] at hstate
    | closeTimer ht hl => simp [(hk.timer_state ht).1] at hstate
    | establish => exact absurd ⟨_, rfl⟩ he
    | cross => exact absurd ⟨_, rfl⟩ he
    | confirm => exact absurd ⟨_, rfl⟩ he
    | ack => exact absurd ⟨_, rfl⟩ he
    | finWait => exact absurd ⟨_, rfl⟩ he
    | _ => exact hopen

/-- A packet for whose text or FIN tcp_rx waits was waited for before, or has just been taken up. -/
theorem acts_step (c : Conn) (e : Event) (pkt : Packet)
    (h : RxAct.text pkt ∈ (step c e).rx ∨ RxAct.fin pkt ∈ (step c e).rx) :
    (RxAct.text pkt ∈ c.rx ∨ RxAct.fin pkt ∈ c.rx) ∨ e = .segment pkt := by
  cases control_step c e with
  | inl hsame =>
    have hrx : (step c e).rx = c.rx := congrArg Control.rx hsame
    rw [hrx] at h
    exact Or.inl h
  | inr hstep =>
    have hrx : (step c e).rx = (step c e).control.rx := rfl
    have hx' : c.rx = c.control.rx := rfl
    rw [hrx] at h
    rw [hx']
    generalize (step c e).control = k' at hstep h
    cases hstep with
    | confirm p hx hl hs => simp at h; exact Or.inr (by rw [h])
    | ack p hx hl hs => simp at h; exact Or.inr (by rw [h])
    | finWait p hx hl hs => simp at h; exact Or.inr (by rw [h])
    | textSkipped p rest hx =>
      left
      rw [hx]
      exact h.imp (List.mem_cons_of_mem _) (List.mem_cons_of_mem _)
    | stored p rest hx =>
      left
      rw [hx]
      simp only [List.mem_cons, reduceCtorEq, false_or] at h
      exact h.imp (List.mem_cons_of_mem _) (List.mem_cons_of_mem _)
    | _ => simp_all

/-- snd_una covers our SYN and the first `k` bytes behind it, all of them stored by the other side,
or it is where connect has left it. -/
def Acked (own other : Conn) : Prop :=
  own.tcb.sndUna = own.tcb.iss - 1 ∨
    ∃ k, k ≤ other.stored ∧ own.tcb.sndUna = own.tcb.iss + 1 + UInt32.ofNat k

structure Linked (own other : Conn) : Prop where
  acts : ∀ pkt, RxAct.text pkt ∈ own.rx ∨ RxAct.fin pkt ∈ own.rx → CarriesSent other.sent pkt
  irs : ¬ Early own → own.tcb.irs = other.tcb.iss
  met : ¬ Opening own.control → ¬ Early other
  acked : Acked own other
  fins : own.fins ≠ [] → ∃ x ∈ other.sent, hasFlag x.seg.hdr.flags tcpFin = true

theorem Acked.mono {own other other' : Conn} (h : Acked own other)
    (hstored : other.stored ≤ other'.stored) : Acked own other' := by
  obtain h | ⟨k, hk, h⟩ := h
  · exact Or.inl h
  · exact Or.inr ⟨k, Nat.le_trans hk hstored, h⟩

theorem Linked.other_step {own other : Conn} (h : Linked own other) (ho : Solo other) (e : Event) :
    Linked own (step other e) := by
  have hsent := sent_grows other e
  refine ⟨fun pkt hp => (h.acts pkt hp).mono hsent, ?_, ?_, ?_, ?_⟩
  · rw [iss_step]
    exact h.irs
  · exact fun hopen hearly => h.met hopen (early_of_step e hearly)
  · exact h.acked.mono (stored_step ho.recv e)
  · intro hf
    obtain ⟨x, hx, hfin⟩ := h.fins hf
    exact ⟨x, hsent.subset hx, hfin⟩

/-- Only after close is there a FIN in the record. -/
theorem Solo.closed_of_fin {c : Conn} (h : Solo c) {x : Sent} (hx : x ∈ c.sent)
    (hf : hasFlag x.seg.hdr.flags tcpFin = true) :
    c.fresh = false ∧ (c.tcb.state = .finWait1 ∨ c.tcb.state = .finWait2 ∨ c.tcb.state = .timeWait ∨
      c.tcb.state = .closed) := by
  have hsyn : ∀ iss, ¬ x.IsSyn iss := by
    intro iss hs
    obtain hs | hs := hs.flags
    · rw [hs] at hf
      exact absurd hf (by decide)
    · rw [hs] at hf
      exact absurd hf (by decide)
  cases h.log with
  | opening hs hiss hcalls hall => exact absurd (hall x hx) (hsyn _)
  | opened old new hs hsent hold hnew hcalls hfin hsend =>
    have hmem : x ∈ new := by
      rw [hsent] at hx
      exact (List.mem_append.mp hx).resolve_left (fun ho => hsyn _ (hold x ho))
    have hest : c.tcb.state ≠ .established := by
      intro he
      rw [hfin he x hmem] at hf
      exact absurd hf (by decide)
    have hreach : c.tcb.state ∉ [TcpState.listen, .closeWait, .closing, .lastAck] := h.reached.state
    unfold Opening at hs
    have hsent : c.tcb.state ≠ .synSent := fun he => hs (Or.inr (Or.inl he))
    have hrecv : c.tcb.state ≠ .synReceived := fun he => hs (Or.inr (Or.inr he))
    have hfresh : c.fresh = false := Bool.eq_false_iff.mpr (fun he => hs (Or.inl he))
    refine ⟨hfresh, ?_⟩
    cases hstate : c.tcb.state <;> simp_all

/-- As long as a side has not called close, the other side has consumed no FIN. -/
theorem Linked.no_fin {own other : Conn} (h : Linked other own) (hs : Solo own)
    (hst : own.tcb.state = .synSent ∨ own.tcb.state = .established) : other.fins = [] := by
  by_contra hfins
  obtain ⟨x, hx, hf⟩ := h.fins hfins
  have hclosed := (hs.closed_of_fin hx hf).2
  obtain hst | hst := hst <;> simp [hst] at hclosed

theorem Solo.syn_seq {c : Conn} (h : Solo c) {x : Sent} (hx : x ∈ c.sent)
    (hf : hasFlag x.seg.hdr.flags tcpSyn = true) : x.seg.hdr.seqNum = c.tcb.iss := by
  cases h.log with
  | opening hs hiss hcalls hsyn => exact (hsyn x hx).seq
  | opened old new hs hsent hold hnew =>
    rw [hsent] at hx
    cases List.mem_append.mp hx with
    | inl hx => exact (hold x hx).seq
    | inr hx =>
      have hplain : hasFlag x.seg.hdr.flags tcpSyn = false := by
        obtain hp | ⟨hp, -⟩ := hnew x hx
        · rw [hp]
          decide
        · rw [hp]
          decide
      simp [hf] at hplain

/-- An acknowledgement from the other side counts what it has stored and our FIN, and it has taken
our SYN. -/
theorem Linked.ack {own other : Conn} (h : Linked other own) (ho : Solo other) {x : Sent}
    (hx : x ∈ other.sent) (hf : hasFlag x.seg.hdr.flags tcpAck = true) :
    ¬ Early other ∧ ∃ k, k ≤ other.stored + other.fins.length ∧
      x.seg.hdr.ackNum = own.tcb.iss + 1 + UInt32.ofNat k := by
  cases ho.recv with
  | early hearly he =>
    have hno := he.sent x hx
    simp [hf] at hno
  | synced hsyn hc acks =>
    have hst := ho.stored x hx
    refine ⟨hsyn, ?_⟩
    rw [← h.irs hsyn]
    obtain ha | ⟨f, hfm, ha, hpos⟩ := acks x hx hf
    · exact ⟨x.stored, by omega, ha⟩
    · have hlen := List.length_pos_of_mem hfm
      refine ⟨x.stored + 1, by omega, ?_⟩
      rw [ha, hpos, UInt32.ofNat_add, UInt32.add_assoc (other.tcb.irs + 1)]
      rfl

theorem Linked.own_step {own other : Conn} (h : Linked own other) (hs : Solo own) {e : Event}
    (he : ∀ pkt, e ≠ .segment pkt) : Linked (step own e) other := by
  refine ⟨?_, ?_, ?_, ?_, ?_⟩
  · intro pkt hp
    cases acts_step own e pkt hp with
    | inl hp => exact h.acts pkt hp
    | inr hseg => exact absurd hseg (he pkt)
  · intro hsyn
    have hbefore : ¬ Early own := fun hearly => by
      obtain ⟨pkt, hseg⟩ := early_end hs.reached.inv hearly hsyn
      exact he pkt hseg
    have hirs : (step own e).tcb.irs = own.tcb.irs :=
      (recv_frame (fun hs' => hbefore (Or.inr hs')) e).1
    rw [hirs]
    exact h.irs hbefore
  · intro hopen
    refine h.met (fun hbefore => ?_)
    obtain ⟨pkt, hseg⟩ := opening_end hs.reached.inv hbefore hopen
    exact he pkt hseg
  · have huna := step_frame Tcb.sndUna (fun _ _ _ _ _ _ => rfl) own he
    unfold Acked
    rw [huna, iss_step]
    exact h.acked
  · intro hf
    cases recv_step own e with
    | quiet hside =>
      have hfins : (step own e).fins = own.fins := congrArg RecvSide.fins hside
      exact h.fins (hfins ▸ hf)
    | syn pkt hs' hside => exact absurd rfl (he pkt)
    | read len n hl hn hside =>
      have hfins : (step own (.recv len)).fins = own.fins := congrArg RecvSide.fins hside
      exact h.fins (hfins ▸ hf)
    | stored pkt rest hx hlen hseq hside =>
      have hfins : (step own .rxStep).fins = own.fins := congrArg RecvSide.fins hside
      exact h.fins (hfins ▸ hf)
    | fin pkt rest hx hfin hside =>
      obtain ⟨x, hx', hhdr, -⟩ := h.acts pkt (Or.inr (by rw [hx]; exact List.mem_cons_self))
      exact ⟨x, hx', hhdr ▸ hfin⟩

/-- In SYN_SENT snd_una is one below iss, so only an acknowledgement lifts it above. -/
theorem takeSyn_ack {tcb : Tcb} {h : TcpHdr} (huna : tcb.sndUna = tcb.iss - 1) (hpos : 0 < tcb.iss)
    (hu : tcb.iss < (takeSyn tcb h).sndUna) : hasFlag h.flags tcpAck = true := by
  by_contra hno
  have hacc : acceptableAck tcb h = false := by simp [acceptableAck, hno]
  have hle : (1 : UInt32) ≤ tcb.iss := by
    rw [UInt32.lt_iff_toNat_lt] at hpos
    rw [UInt32.le_iff_toNat_le]
    exact hpos
  have hsub := UInt32.toNat_sub_of_le _ _ hle
  simp only [takeSyn, hacc, Bool.false_eq_true, if_false, huna, UInt32.lt_iff_toNat_lt] at hu
  omega

theorem Linked.takeSyn {own other : Conn} (h' : Linked other own) (hs : Solo own) (ho : Solo other)
    (hst : own.tcb.state = .synSent) {pkt : Packet} (hpkt : CarriesSent other.sent pkt) :
    (takeSyn own.tcb pkt.tcp.hdr).sndUna = own.tcb.sndUna ∨
      ∃ k, k ≤ other.stored ∧
        (takeSyn own.tcb pkt.tcp.hdr).sndUna = own.tcb.iss + 1 + UInt32.ofNat k := by
  by_cases hacc : acceptableAck own.tcb pkt.tcp.hdr = true
  · obtain ⟨x, hx, hhdr, -⟩ := hpkt
    have hf : hasFlag x.seg.hdr.flags tcpAck = true := by
      rw [← hhdr]
      simp only [acceptableAck, Bool.and_eq_true] at hacc
      exact hacc.1.1
    obtain ⟨-, k, hk, hack⟩ := h'.ack ho hx hf
    rw [h'.no_fin hs (Or.inl hst), List.length_nil, Nat.add_zero] at hk
    refine Or.inr ⟨k, hk, ?_⟩
    simp only [AnpNetstack.takeSyn, hacc, if_true]
    rw [hhdr, hack]
  · exact Or.inl (by simp only [AnpNetstack.takeSyn, hacc, Bool.false_eq_true, if_false])

theorem Acked.of_takeSyn {own other own' : Conn} (h : Acked own other)
    (hiss : own'.tcb.iss = own.tcb.iss) (hu : own'.tcb.sndUna = own.tcb.sndUna ∨
      ∃ k, k ≤ other.stored ∧ own'.tcb.sndUna = own.tcb.iss + 1 + UInt32.ofNat k) :
    Acked own' other := by
  unfold Acked
  rw [hiss]
  cases hu with
  | inl hu =>
    rw [hu]
    exact h
  | inr hu => exact Or.inr hu

theorem Linked.segment {own other : Conn} (h : Linked own other) (h' : Linked other own)
    (hs : Solo own) (ho : Solo other) {pkt : Packet} (hpkt : CarriesSent other.sent pkt) :
    Linked (step own (.segment pkt)) other := by
  have hacts : ∀ p, RxAct.text p ∈ (step own (.segment pkt)).rx ∨
      RxAct.fin p ∈ (step own (.segment pkt)).rx →
      CarriesSent other.sent p := by
    intro p hp
    cases acts_step own (.segment pkt) p hp with
    | inl hp => exact h.acts p hp
    | inr hseg => exact Event.segment.inj hseg ▸ hpkt
  have hiss := iss_step own (.segment pkt)
  cases segment_cases own pkt with
  | inl he =>
    rw [he]
    exact h
  | inr ht =>
    obtain ⟨c', he, ht⟩ := ht
    rw [he] at hacts hiss ⊢
    obtain ⟨x, hx, hhdr, htext⟩ := hpkt
    cases ht with
    | establish hst hf hu =>
      have hearly : Early own := Or.inr hst
      have hseq : pkt.tcp.hdr.seqNum = other.tcb.iss := by
        rw [hhdr]
        exact ho.syn_seq hx (hhdr ▸ hf)
      have hack : hasFlag pkt.tcp.hdr.flags tcpAck = true :=
        takeSyn_ack (hs.una hearly) hs.iss_pos hu
      refine ⟨hacts, fun _ => hseq, fun _ => (h'.ack ho hx (hhdr ▸ hack)).1, ?_, h.fins⟩
      exact h.acked.of_takeSyn hiss (h'.takeSyn hs ho hst ⟨x, hx, hhdr, htext⟩)
    | cross hst hf hu =>
      have hseq : pkt.tcp.hdr.seqNum = other.tcb.iss := by
        rw [hhdr]
        exact ho.syn_seq hx (hhdr ▸ hf)
      refine ⟨hacts, fun _ => hseq, fun hopen => absurd (Or.inr (Or.inr rfl)) hopen, ?_, h.fins⟩
      exact h.acked.of_takeSyn hiss (h'.takeSyn hs ho hst ⟨x, hx, hhdr, htext⟩)
    | confirm hst hf ha =>
      have hsyn : ¬ Early own := by
        have hfresh : own.fresh = false := hs.reached.inv.not_fresh (by simp [Conn.control, hst])
        simp [Early, hst, hfresh]
      exact ⟨hacts, fun _ => h.irs hsyn, fun _ => (h'.ack ho hx (hhdr ▸ hf)).1, h.acked, h.fins⟩
    | ack hst hf =>
      have hfresh : own.fresh = false := hs.reached.inv.not_fresh (by simp [Conn.control, hst])
      have hsyn : ¬ Early own := by simp [Early, hst, hfresh]
      have hopen : ¬ Opening own.control := by simp [Opening, Conn.control, hst, hfresh]
      have hside := recvSide_ackEstablished own pkt
      have hirs : (ackEstablished own pkt).tcb.irs = own.tcb.irs := congrArg RecvSide.irs hside
      refine ⟨hacts, fun _ => hirs.trans (h.irs hsyn), fun _ => h.met hopen, ?_, h.fins⟩
      refine h.acked.of_takeSyn hiss ?_
      rw [ackEstablished_sndUna]
      split_ifs with hadv
      · obtain ⟨-, k, hk, hack⟩ := h'.ack ho hx (hhdr ▸ hf)
        rw [h'.no_fin hs (Or.inr hst), List.length_nil, Nat.add_zero] at hk
        exact Or.inr ⟨k, hk, by rw [hhdr, hack]⟩
      · exact Or.inl rfl
    | finWait hst hf =>
      have hfresh : own.fresh = false := hs.reached.inv.not_fresh (by simp [Conn.control, hst])
      have hsyn : ¬ Early own := by simp [Early, hst, hfresh]
      have hopen : ¬ Opening own.control := by simp [Opening, Conn.control, hst, hfresh]
      exact ⟨hacts, fun _ => h.irs hsyn, fun _ => h.met hopen, h.acked, h.fins⟩

end AnpNetstack
