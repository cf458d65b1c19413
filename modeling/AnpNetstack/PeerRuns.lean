import AnpNetstack.PeerLinks

/-! What two instances of the stack agree on after every run: each other's initial sequence number,
how far the acknowledgements go, and that neither gets to TIME_WAIT alone. -/
namespace AnpNetstack
open Runs Duplex

structure Paired (own other : Conn) : Prop where
  solo : Solo own
  linked : Linked own other

theorem paired_start (b b' : PeerBlock) : Paired b.conn b'.conn where
  solo := b.solo
  linked :=
    { acts := by simp [PeerBlock.conn, connectBlock]
      irs := fun hearly => absurd (Or.inl rfl) hearly
      met := fun hopen => absurd (Or.inl rfl) hopen
      acked := Or.inl rfl
      fins := fun hf => absurd rfl hf }

theorem Paired.event {own other : Conn} (h : Paired own other) (h' : Paired other own) {e : Event}
    (he : ∀ pkt, e ≠ .segment pkt) : Paired (step own e) other ∧ Paired other (step own e) :=
  ⟨⟨h.solo.step e, h.linked.own_step h.solo he⟩, ⟨h'.solo, h'.linked.other_step h.solo e⟩⟩

theorem Paired.segment {own other : Conn} (h : Paired own other) (h' : Paired other own)
    {pkt : Packet} (hpkt : CarriesSent other.sent pkt) :
    Paired (step own (.segment pkt)) other ∧ Paired other (step own (.segment pkt)) :=
  ⟨⟨h.solo.step _, h.linked.segment h'.linked h.solo h'.solo hpkt⟩,
    ⟨h'.solo, h'.linked.other_step h.solo _⟩⟩

theorem says_emits {c : Conn} (h : Solo c) (e : Event) {pkt : Packet} (hpkt : pkt ∈ peerEmits c e) :
    Says (peerAct c e) pkt := by
  cases e with
  | retransmit => exact (says_transmitted h.queued h.built hpkt).step .retransmit
  | _ => exact absurd hpkt List.not_mem_nil

theorem says_act {c : Conn} {pkt : Packet} (h : Says c pkt) (e : Event) : Says (peerAct c e) pkt :=
  peerAct_keeps (I := fun c => Says c pkt) (fun _ e hc => hc.step e) h e

/-- Whatever a side does and whatever comes in, both keep what holds of the pair. -/
theorem peers_steady : Steady peer Paired Says (fun _ _ _ => True) (fun _ _ _ _ => True) where
  act own other e h h' _ := by
    have hcases := peerAct_cases own e
    change Paired (peerAct own e) other ∧ Paired other (peerAct own e)
    cases hcases with
    | inl he =>
      rw [he]
      exact ⟨h, h'⟩
    | inr he =>
      rw [he.1]
      exact h.event h' he.2
  take own other pkt pad h h' hsaid _ := h.segment h' (hsaid.carries pad)
  emits own other e h pkt hpkt := says_emits h.solo e hpkt
  keeps c e pkt h := says_act h e
  keeps_take c pkt' pad pkt h := h.step _

theorem permitted_all {n : Net Conn Packet} (es : List (Move Event (List UInt8))) :
    Along (Duplex.step peer) (Permitted (fun _ _ _ => True) (fun _ _ _ _ => True)) n es := by
  refine along_of_forall (Duplex.step peer) (fun e _ n => ?_) n
  cases e with
  | act s e => trivial
  | deliver s i pad => exact fun m hm => trivial

theorem paired_sound_run {n : Net Conn Packet} (hJ : Both Paired n) (hS : Sound Says n)
    (es : List (Move Event (List UInt8))) :
    Both Paired (run (Duplex.step peer) n es) ∧ Sound Says (run (Duplex.step peer) n es) :=
  peers_steady.run hJ hS (permitted_all es)

theorem peers_run (near far : PeerBlock) (es : List (Move Event (List UInt8))) :
    Both Paired (run (Duplex.step peer) (peersOf near far) es) ∧
      Sound Says (run (Duplex.step peer) (peersOf near far) es) := by
  refine paired_sound_run ?_ ?_ es
  · intro s
    cases s
    · exact paired_start near far
    · exact paired_start far near
  · intro s m hm
    exact absurd hm List.not_mem_nil

theorem party_step (n : Net Conn Packet) (e : Move Event (List UInt8)) (s : Side) :
    (Duplex.step peer n e).party s = n.party s ∨
      ∃ e', (Duplex.step peer n e).party s = step (n.party s) e' := by
  cases e with
  | act t e =>
    by_cases ht : s = t
    · subst ht
      rw [act_self]
      exact (peerAct_cases (n.party s) e).imp_right (fun h => ⟨e, h.1⟩)
    · exact Or.inl (act_ne peer n ht e)
  | deliver t i pad =>
    by_cases ht : s = t
    · subst ht
      cases hm : (n.medium s.other)[i]? with
      | none => exact Or.inl (by simp only [Duplex.step, hm])
      | some pkt => exact Or.inr ⟨.segment (padded pkt pad), deliver_self peer n hm pad⟩
    · exact Or.inl (deliver_ne peer n ht i pad)

/-- What every event of a connection keeps, each side keeps on every run of the pair. -/
theorem party_run {I : Conn → Prop} (h : ∀ c e, I c → I (step c e)) {n : Net Conn Packet} (s : Side)
    (es : List (Move Event (List UInt8))) (hn : I (n.party s)) :
    I ((run (Duplex.step peer) n es).party s) := by
  induction es generalizing n with
  | nil => exact hn
  | cons e es ih =>
    refine ih ?_
    obtain he | ⟨e', he⟩ := party_step n e s
    · rw [he]
      exact hn
    · rw [he]
      exact h _ _ hn

theorem iss_run (near far : PeerBlock) (es : List (Move Event (List UInt8))) (s : Side) :
    ((run (Duplex.step peer) (peersOf near far) es).party s).tcb.iss =
      ((peersOf near far).party s).tcb.iss :=
  party_run (I := fun c => c.tcb.iss = ((peersOf near far).party s).tcb.iss)
    (fun c e h => (iss_step c e).trans h) s es rfl

def sampleNear : PeerBlock where
  self := 1
  localPort := 49155
  remotePort := 49156
  localIp := 0x0400000a
  remoteIp := 0x0a000105
  iss := 1000
  msgs := []
  iss_pos := by decide
  iss_max := by decide
  others := List.forall_mem_nil _

def sampleFar : PeerBlock where
  self := 1
  localPort := 49156
  remotePort := 49155
  localIp := 0x0501000a
  remoteIp := 0x0a000004
  iss := 5000
  msgs := []
  iss_pos := by decide
  iss_max := by decide
  others := List.forall_mem_nil _

def bothDo (e : Event) : List (Move Event (List UInt8)) := [.act .near e, .act .far e]

def takeUp (s : Side) (i : Nat) : List (Move Event (List UInt8)) :=
  .deliver s i [] :: List.replicate 7 (.act s .rxStep)

def sampleOpening : List (Move Event (List UInt8)) :=
  bothDo .connect ++ bothDo .retransmit ++ takeUp .near 0 ++ takeUp .far 0 ++ bothDo .retransmit ++
    takeUp .near 2 ++ takeUp .far 2

/-- A side that has taken a SYN has the initial sequence number that connect has drawn on the other
side, and once it is through with the handshake the other side has its own. -/
theorem handshake_agreement (near far : PeerBlock) (es : List (Move Event (List UInt8)))
    (s : Side) :
    let start := peersOf near far
    let last := run (Duplex.step peer) start es
    (¬ Early (last.party s) → (last.party s).tcb.irs = (start.party s.other).tcb.iss) ∧
      (¬ Opening (last.party s).control →
        ¬ Early (last.party s.other) ∧ (last.party s.other).tcb.irs = (start.party s).tcb.iss) := by
  intro start last
  have hpair := (peers_run near far es).1
  have hback : Paired (last.party s.other) (last.party s) := by
    have h := hpair s.other
    rwa [Side.other_other] at h
  constructor
  · intro hearly
    rw [(hpair s).linked.irs hearly]
    exact iss_run near far es s.other
  · intro hopen
    have hmet := (hpair s).linked.met hopen
    refine ⟨hmet, ?_⟩
    rw [hback.linked.irs hmet]
    exact iss_run near far es s

theorem handshake_agreement_sample :
    let start := peersOf sampleNear sampleFar
    let last := run (Duplex.step peer) start sampleOpening
    (last.party .near).tcb.irs = (start.party Side.near.other).tcb.iss ∧
      ¬ Early (last.party Side.near.other) ∧
        (last.party Side.near.other).tcb.irs = (start.party .near).tcb.iss :=
  ⟨(handshake_agreement sampleNear sampleFar sampleOpening .near).1
    (by unfold Early; decide +kernel),
    (handshake_agreement sampleNear sampleFar sampleOpening .near).2
      (by unfold Opening; decide +kernel)⟩

/-- No acknowledgement that was taken covers more than the bytes the other side has stored. -/
theorem ack_agreement (near far : PeerBlock) (es : List (Move Event (List UInt8))) (s : Side) :
    let last := run (Duplex.step peer) (peersOf near far) es
    let own := (last.party s).tcb
    let other := last.party s.other
    own.sndUna = own.iss - 1 ∨
      ∃ k, k ≤ other.delivered.length ∧ own.sndUna = own.iss + 1 + UInt32.ofNat k := by
  intro last own other
  have hpair := (peers_run near far es).1
  have hlen : other.delivered.length = other.stored :=
    delivered_length other (hpair s.other).solo.recv.buff
  rw [hlen]
  exact (hpair s).linked.acked

/-- A side that has consumed a FIN, as every side at the end of its connection has, is not alone:
the other side has called close. -/
theorem close_agreement (near far : PeerBlock) (es : List (Move Event (List UInt8))) (s : Side) :
    let last := run (Duplex.step peer) (peersOf near far) es
    let other := last.party s.other
    Ending (last.party s).control ∨ (last.party s).fins ≠ [] →
      (∃ x ∈ other.sent, hasFlag x.seg.hdr.flags tcpFin = true) ∧
      (other.tcb.state = .finWait1 ∨ other.tcb.state = .finWait2 ∨ other.tcb.state = .timeWait ∨
        other.tcb.state = .closed) ∧ other.fresh = false := by
  intro last other hend
  have hpair := (peers_run near far es).1
  have hfins : (last.party s).fins ≠ [] := hend.elim (hpair s).solo.ending id
  obtain ⟨x, hx, hf⟩ := (hpair s).linked.fins hfins
  have hclosed := (hpair s.other).solo.closed_of_fin hx hf
  exact ⟨⟨x, hx, hf⟩, hclosed.2, hclosed.1⟩

def sampleBothClose : List (Move Event (List UInt8)) :=
  sampleOpening ++ bothDo .close ++ bothDo .closeFin ++ bothDo .retransmit ++ takeUp .near 6 ++
    takeUp .far 6

theorem close_agreement_sample :
    let other :=
      (run (Duplex.step peer) (peersOf sampleNear sampleFar) sampleBothClose).party Side.near.other
    (∃ x ∈ other.sent, hasFlag x.seg.hdr.flags tcpFin = true) ∧
      (other.tcb.state = .finWait1 ∨ other.tcb.state = .finWait2 ∨ other.tcb.state = .timeWait ∨
        other.tcb.state = .closed) ∧ other.fresh = false :=
  close_agreement sampleNear sampleFar sampleBothClose .near (Or.inl (Or.inl (by decide +kernel)))

def Stuck (k : Control) : Prop :=
  k.state = .established ∧ k.lock = true ∧ k.rx = [] ∧ k.closing = false

theorem Solo.stuck {c : Conn} (h : Solo c) (hs : c.tcb.state = .established) (hf : c.fins ≠ []) :
    Stuck c.control := by
  cases h.recv with
  | early hearly he => exact absurd he.fins hf
  | synced hsyn hc acks =>
    obtain hnil | ⟨f, -, -, hend | hdone⟩ := hc.fins
    · exact absurd hnil hf
    · have hs' : c.control.state = .established := hs
      simp [Ending, hs'] at hend
    · exact hdone

theorem stuck_step {c : Conn} (hk : ControlInv c.control) (h : Stuck c.control) (e : Event) :
    (step c e).control = c.control := by
  obtain ⟨hs, hl, hx, hc⟩ := h
  cases control_step c e with
  | inl hsame => exact hsame
  | inr hstep =>
    exfalso
    generalize (step c e).control = k' at hstep
    cases hstep with
    | connect hf => simp [hk.not_fresh (by simp [hs])] at hf
    | _ => simp_all

def sampleHalfClose : List (Move Event (List UInt8)) :=
  sampleOpening ++ [.act .far .close, .act .far .closeFin, .act .far .retransmit] ++ takeUp .near 6

end AnpNetstack
