import AnpNetstack.ReceiveCount

/-! When the peer's FIN is consumed in order. tcp_rx compares seq_num with rcv_nxt only for
segments with text and then steps over the FIN, even if rcv_buff had no room for all of
the text in front of it. -/
namespace AnpNetstack
open Runs

def TakesFin (c : Conn) (pkt : Packet) : Prop :=
  c.rx = [] ∧ c.tcbLock = false ∧ accepted c.tcb pkt = true ∧
    hasFlag pkt.tcp.hdr.flags tcpAck = true ∧ hasFlag pkt.tcp.hdr.flags tcpFin = true ∧
    (c.tcb.state = .established ∨ c.tcb.state = .finWait1 ∨
      c.tcb.state = .synReceived ∧ ackAdvances c.tcb pkt.tcp.hdr = true)

instance (c : Conn) (pkt : Packet) : Decidable (TakesFin c pkt) :=
  inferInstanceAs (Decidable (_ ∧ _ ∧ _ ∧ _ ∧ _ ∧ _))

/-- A FIN alone stands at rcv_nxt; the text in front of a FIN fits into rcv_buff if it is
in order. -/
def FinFits (tcb : Tcb) (pkt : Packet) : Prop :=
  (segmentLen pkt = 0 → pkt.tcp.hdr.seqNum = tcb.rcvNxt) ∧
    (pkt.tcp.hdr.seqNum = tcb.rcvNxt → segmentLen pkt ≤ tcpRcvMax - tcb.rcvBuffLen)

instance (tcb : Tcb) (pkt : Packet) : Decidable (FinFits tcb pkt) :=
  inferInstanceAs (Decidable (_ ∧ _))

def FinInOrder (c : Conn) : Event → Prop
  | .segment pkt => TakesFin c pkt → FinFits c.tcb pkt
  | _ => True

instance (c : Conn) : (e : Event) → Decidable (FinInOrder c e)
  | .segment pkt => inferInstanceAs (Decidable (TakesFin c pkt → FinFits c.tcb pkt))
  | .connect | .send _ | .sendRound _ _ | .recv _ | .rxStep | .retransmit | .close | .closeFin
  | .closeTimer => inferInstanceAs (Decidable True)

structure FinsOrdered (c : Conn) : Prop where
  consumed : ∀ f ∈ c.fins, f.1.tcp.hdr.seqNum + segmentLen f.1 = f.2
  text : ∀ pkt, RxAct.text pkt ∈ c.rx → hasFlag pkt.tcp.hdr.flags tcpFin = true → FinFits c.tcb pkt
  fin : ∀ pkt, RxAct.fin pkt ∈ c.rx → RxAct.text pkt ∉ c.rx →
    hasFlag pkt.tcp.hdr.flags tcpFin = true →
    pkt.tcp.hdr.seqNum + segmentLen pkt = c.tcb.rcvNxt

theorem FinFits.congr {tcb tcb' : Tcb} {pkt : Packet} (h : FinFits tcb pkt)
    (hnxt : tcb'.rcvNxt = tcb.rcvNxt) (hlen : tcb'.rcvBuffLen = tcb.rcvBuffLen) :
    FinFits tcb' pkt := by
  unfold FinFits at h ⊢
  rw [hnxt, hlen]
  exact h

theorem FinsOrdered.rest {c c' : Conn} (h : FinsOrdered c) (hfins : c'.fins = c.fins)
    (hrx : ∀ pkt, RxAct.text pkt ∉ c'.rx ∧ RxAct.fin pkt ∉ c'.rx) : FinsOrdered c' :=
  ⟨hfins ▸ h.consumed, fun pkt ht => absurd ht (hrx pkt).1, fun pkt hf => absurd hf (hrx pkt).2⟩

theorem FinsOrdered.acted {c c' : Conn} (h : FinsOrdered c) (hside : c'.recvSide = c.recvSide)
    (hrx : ∀ pkt, (RxAct.text pkt ∈ c'.rx ↔ RxAct.text pkt ∈ c.rx) ∧
      (RxAct.fin pkt ∈ c'.rx ↔ RxAct.fin pkt ∈ c.rx)) : FinsOrdered c' := by
  have hnxt : c'.tcb.rcvNxt = c.tcb.rcvNxt := congrArg RecvSide.rcvNxt hside
  have hlen : c'.tcb.rcvBuffLen = c.tcb.rcvBuffLen := congrArg RecvSide.rcvBuffLen hside
  have hfins : c'.fins = c.fins := congrArg RecvSide.fins hside
  refine ⟨hfins ▸ h.consumed, ?_, ?_⟩
  · intro pkt ht hf
    exact (h.text pkt ((hrx pkt).1.mp ht) hf).congr hnxt hlen
  · intro pkt hfin ht hf
    rw [hnxt]
    exact h.fin pkt ((hrx pkt).2.mp hfin) (fun ht' => ht ((hrx pkt).1.mpr ht')) hf

theorem FinsOrdered.taken {c c' : Conn} (h : FinsOrdered c) (hside : c'.recvSide = c.recvSide)
    (pkt : Packet) (hfits : hasFlag pkt.tcp.hdr.flags tcpFin = true → FinFits c.tcb pkt)
    (hrx : ∀ p, (RxAct.text p ∈ c'.rx ↔ p = pkt) ∧ (RxAct.fin p ∈ c'.rx ↔ p = pkt)) :
    FinsOrdered c' := by
  have hnxt : c'.tcb.rcvNxt = c.tcb.rcvNxt := congrArg RecvSide.rcvNxt hside
  have hlen : c'.tcb.rcvBuffLen = c.tcb.rcvBuffLen := congrArg RecvSide.rcvBuffLen hside
  have hfins : c'.fins = c.fins := congrArg RecvSide.fins hside
  refine ⟨hfins ▸ h.consumed, ?_, ?_⟩
  · intro p ht hf
    rw [(hrx p).1.mp ht] at hf ⊢
    exact (hfits hf).congr hnxt hlen
  · intro p hfin ht _
    exact absurd ((hrx p).1.mpr ((hrx p).2.mp hfin)) ht

theorem FinsOrdered.segment {c : Conn} (h : FinsOrdered c) {pkt : Packet}
    (hcond : FinInOrder c (.segment pkt)) : FinsOrdered (step c (.segment pkt)) := by
  by_cases hx : c.rx = []
  · have he : step c (.segment pkt) = tcpRxSwitch c pkt := by
      simp only [step, hx, List.isEmpty_nil, if_true]
    rw [he]
    cases tcpRxSwitch_cases c pkt with
    | inl he =>
      rw [he]
      exact h
    | inr ht =>
      obtain ⟨c', he, ha, hl, ht⟩ := ht
      rw [he]
      cases ht with
      | establish hs hf hu => exact h.rest rfl (by simp [synEstablish])
      | cross hs hf hu => exact h.rest rfl (by simp [synCross])
      | confirm hs hf hadv =>
        refine h.taken rfl pkt (fun hfin => ?_) (by simp [synConfirm])
        exact hcond ⟨hx, hl, ha, hf, hfin, Or.inr (Or.inr ⟨hs, hadv⟩)⟩
      | ack hs hf =>
        refine h.taken (recvSide_ackEstablished c pkt) pkt (fun hfin => ?_)
          (by simp [ackEstablished])
        exact hcond ⟨hx, hl, ha, hf, hfin, Or.inl hs⟩
      | finWait hs hf =>
        refine h.taken rfl pkt (fun hfin => ?_) (by simp [ackFinWait1])
        exact hcond ⟨hx, hl, ha, hf, hfin, Or.inr (Or.inl hs)⟩
  · have he : step c (.segment pkt) = c := by
      simp only [step, List.isEmpty_iff, hx, if_false]
    rw [he]
    exact h

theorem FinsOrdered.textDone {c c' : Conn} (h : FinsOrdered c) (pkt : Packet)
    (hfins : c'.fins = c.fins)
    (hrx : c'.rx = [.fin pkt] ∨ c'.rx = [.tx tcpAck retriesSendonce, .fin pkt])
    (hpos : hasFlag pkt.tcp.hdr.flags tcpFin = true →
      pkt.tcp.hdr.seqNum + segmentLen pkt = c'.tcb.rcvNxt) : FinsOrdered c' := by
  have hmem : ∀ p, RxAct.text p ∉ c'.rx ∧ (RxAct.fin p ∈ c'.rx → p = pkt) := by
    intro p
    cases hrx with
    | inl hrx => simp [hrx]
    | inr hrx => simp [hrx]
  refine ⟨hfins ▸ h.consumed, fun p ht => absurd ht (hmem p).1, ?_⟩
  intro p hp _ hf
  rw [(hmem p).2 hp] at hf ⊢
  exact hpos hf

theorem finalCopySize_of_le {tcb : Tcb} {dlen : UInt32} (h : dlen ≤ tcpRcvMax - tcb.rcvBuffLen) :
    finalCopySize tcb dlen = dlen := by
  rw [UInt32.le_iff_toNat_le] at h
  apply UInt32.toNat_inj.mp
  rw [finalCopySize, anpMin_toNat]
  exact Nat.min_eq_left h

theorem FinsOrdered.rxText {c : Conn} (h : FinsOrdered c) {pkt : Packet}
    (hx : c.rx = [.text pkt, .fin pkt]) : FinsOrdered (rxText c pkt [.fin pkt]) := by
  have hfits := h.text pkt (by simp [hx])
  have hstep := rxText_step c pkt [.fin pkt]
  generalize AnpNetstack.rxText c pkt [.fin pkt] = c' at hstep ⊢
  cases hstep with
  | none hz =>
    refine h.textDone pkt rfl (Or.inl rfl) ?_
    intro hf
    rw [hz, UInt32.add_zero]
    exact (hfits hf).1 hz
  | outOfOrder hz hseq => exact h.rest rfl (by simp)
  | stored hz hseq =>
    refine h.textDone pkt rfl ?_ ?_
    · dsimp only
      split_ifs
      · exact Or.inr rfl
      · exact Or.inl rfl
    · intro hf
      rw [saveDataAndAck_rcvNxt, finalCopySize_of_le ((hfits hf).2 hseq), hseq]

theorem FinsOrdered.rxFin {c : Conn} (h : FinsOrdered c) {pkt : Packet}
    (hx : c.rx = [.fin pkt]) : FinsOrdered (rxFin c pkt) := by
  have hpos := h.fin pkt (by simp [hx]) (by simp [hx])
  have hall (hf : hasFlag pkt.tcp.hdr.flags tcpFin = true) :
      ∀ f ∈ c.fins ++ [(pkt, c.tcb.rcvNxt)], f.1.tcp.hdr.seqNum + segmentLen f.1 = f.2 := by
    intro f hmem
    cases List.mem_append.mp hmem with
    | inl hmem => exact h.consumed f hmem
    | inr hmem =>
      rw [List.mem_singleton.mp hmem]
      exact hpos hf
  have hstep := rxFin_step c pkt
  generalize AnpNetstack.rxFin c pkt = c' at hstep ⊢
  cases hstep with
  | dropped hs => exact h.rest rfl (by simp)
  | taken hf hw => exact ⟨hall hf, by simp, by simp⟩
  | ignored hf hw => exact ⟨hall hf, by simp, by simp⟩
  | noFin hf => exact h.rest rfl (by simp)

theorem FinsOrdered.rxStep {c : Conn} (h : FinsOrdered c) (hk : ControlInv c.control) :
    FinsOrdered (rxStep c) := by
  have hp : RxPhase c.tcb.state c.tcbLock c.rx := hk.phase
  cases hx : c.rx with
  | nil =>
    rw [rxStep_nil hx]
    exact h
  | cons a rest =>
    rw [hx] at hp
    cases a with
    | tx flags retries =>
      rw [rxStep_tx hx]
      have hrest := congrArg Control.rx (control_tcpTxEmpty { c with rx := rest } flags retries)
      refine h.acted (recvSide_tcpTxEmpty { c with rx := rest } flags retries) ?_
      intro pkt
      have hrx : (tcpTxEmpty { c with rx := rest } flags retries).rx = rest := hrest
      simp [hrx, hx]
    | text pkt =>
      obtain ⟨-, -, rfl⟩ := hp.of_text
      rw [rxStep_text hx]
      exact h.rxText hx
    | fin pkt =>
      obtain ⟨-, -, rfl⟩ := hp.of_fin
      rw [rxStep_fin hx]
      exact h.rxFin hx
    | unlock =>
      rw [rxStep_unlock hx]
      exact h.acted rfl (by simp [hx])
    | timer =>
      rw [rxStep_timer hx]
      exact h.acted rfl (by simp [hx])

theorem FinsOrdered.step {c : Conn} (h : FinsOrdered c) (hk : ControlInv c.control) (e : Event)
    (hcond : FinInOrder c e) : FinsOrdered (step c e) := by
  by_cases hrx : (∀ pkt, e ≠ .segment pkt) ∧ e ≠ .rxStep
  · have hkeep := rx_frame c hrx.1 hrx.2
    cases recv_step c e with
    | quiet hside => exact h.acted hside (by simp [hkeep])
    | syn pkt => exact absurd rfl (hrx.1 pkt)
    | read len n hl hn hside =>
      -- recv gets past tcb_lock only when no packet is being processed
      have hp : RxPhase c.tcb.state c.tcbLock c.rx := hk.phase
      rw [hl] at hp
      refine h.rest (congrArg RecvSide.fins hside) ?_
      rw [hkeep]
      cases hp.of_unlocked with
      | inl hnil => simp [hnil]
      | inr ht => simp [ht.2]
    | stored => exact absurd rfl hrx.2
    | fin => exact absurd rfl hrx.2
  · cases e with
    | segment pkt => exact h.segment hcond
    | rxStep => exact h.rxStep hk
    | _ => simp at hrx

theorem finsOrdered_run {c : Conn} (h : FinsOrdered c) (hk : Reached c.control) {es : List Event}
    (hcond : Along step FinInOrder c es) : FinsOrdered (run step c es) := by
  induction es generalizing c with
  | nil => exact h
  | cons e es ih => exact ih (h.step hk.inv e hcond.1) (reached_step hk e) hcond.2

theorem fin_in_order (self : Nat) (localPort remotePort : UInt16) (localIp remoteIp rand : UInt32)
    (msgs : List TcpMessage) (es : List Event)
    (hes : Along step FinInOrder
      (connectBlock self localPort remotePort localIp remoteIp rand msgs) es) :
    let c := run step (connectBlock self localPort remotePort localIp remoteIp rand msgs) es
    (∀ f ∈ c.fins, f.1.tcp.hdr.seqNum + segmentLen f.1 = f.2) ∧ c.fins.length ≤ 1 ∧
      (c.tcb.state ∉ [TcpState.closed, .synSent] →
        c.tcb.rcvNxt = c.tcb.irs + 1 + UInt32.ofNat c.stored + UInt32.ofNat c.fins.length) ∧
      ∀ x ∈ c.sent, hasFlag x.seg.hdr.flags tcpAck = true →
        x.seg.hdr.ackNum = c.tcb.irs + 1 + UInt32.ofNat x.stored ∨
          ∃ f ∈ c.fins, x.seg.hdr.ackNum = f.2 + 1 ∧
            f.2 = c.tcb.irs + 1 + UInt32.ofNat x.stored := by
  intro c
  have hreach := connectBlock_reached self localPort remotePort localIp remoteIp rand msgs
  have hstart : FinsOrdered (connectBlock self localPort remotePort localIp remoteIp rand msgs) :=
    ⟨by simp [connectBlock], by simp [connectBlock], by simp [connectBlock]⟩
  have hphase : RecvPhase c := recvPhase_run
    (connectBlock_recvPhase self localPort remotePort localIp remoteIp rand msgs) hreach es
  refine ⟨(finsOrdered_run hstart hreach hes).consumed, ?_, ?_, ?_⟩
  · cases hphase with
    | early hearly h => simp [h.fins]
    | synced hsyn h acks =>
      obtain hnil | ⟨f, hf, -⟩ := h.fins
      · simp [hnil]
      · simp [hf]
  · intro hs
    cases hphase with
    | early hearly h =>
      have hstate := hearly.state (reached_run hreach es).inv
      simp [hstate] at hs
    | synced hsyn h acks => exact h.nxt
  · intro x hx hflag
    cases hphase with
    | early hearly h => simp [h.sent x hx] at hflag
    | synced hsyn h acks => exact acks x hx hflag

def closedBy (answer : Packet) : List Event :=
  [.connect, .segment (samplePeer 5000 1001 tcpSynAck 1000 []), .rxStep, .rxStep, .close, .closeFin,
    .segment answer, .rxStep, .rxStep, .rxStep, .rxStep, .rxStep, .rxStep]

/-- The byte and the FIN in one segment. -/
theorem fin_in_order_with_text :
    let c := run step (connectBlock 1 49155 43211 0x0400000a 0x0a000005 1000 [])
      (closedBy (samplePeer 5001 1002 tcpFinAck 1000 [7]))
    c.fins.map Prod.snd = [5002] ∧ ∀ f ∈ c.fins, f.1.tcp.hdr.seqNum + segmentLen f.1 = f.2 :=
  ⟨by decide +kernel,
    (fin_in_order 1 49155 43211 0x0400000a 0x0a000005 1000 []
      (closedBy (samplePeer 5001 1002 tcpFinAck 1000 [7])) (by decide +kernel)).1⟩

/-- The FIN comes alone and its byte is missing: the FIN is consumed in the place of the
byte, the acknowledgement covers the byte, and when the byte comes it is dropped. -/
theorem fin_before_its_text :
    let c := run step (connectBlock 1 49155 43211 0x0400000a 0x0a000005 1000 [])
      (closedBy (samplePeer 5002 1002 tcpFinAck 1000 []) ++
        [.segment (samplePeer 5001 1002 tcpAck 1000 [7]), .rxStep, .rxStep, .rxStep])
    c.stored = 0 ∧ (∃ x ∈ c.sent, hasFlag x.seg.hdr.flags tcpAck = true ∧ x.seg.hdr.ackNum = 5002) ∧
      ¬ ∀ f ∈ c.fins, f.1.tcp.hdr.seqNum + segmentLen f.1 = f.2 := by
  decide +kernel

end AnpNetstack
