import AnpNetstack.RetransmitQueue

/-! From connect to the SYN|ACK nothing but control segments is queued. From then on
messages_array holds the text that the peer has not acknowledged, in the order in which
it was queued. -/
namespace AnpNetstack
open Runs

structure EarlyInv (iss : UInt32) (c : Conn) : Prop where
  iss_eq : c.tcb.iss = iss
  una : c.tcb.sndUna = iss - 1
  nxt : c.tcb.sndNxt = if c.fresh then iss else iss + 1
  calls : c.calls = []
  text : textLength c.sent = 0
  entries : c.messagesArray.filter (hasText c.self) = []

theorem EarlyInv.same {iss : UInt32} {c c' : Conn} (h : EarlyInv iss c)
    (hside : c'.sendSide = c.sendSide) (hiss : c'.tcb.iss = c.tcb.iss) (hf : c'.fresh = c.fresh) :
    EarlyInv iss c' := by
  have hself : c'.self = c.self := congrArg SendSide.self hside
  have huna : c'.tcb.sndUna = c.tcb.sndUna := congrArg SendSide.sndUna hside
  have hnxt : c'.tcb.sndNxt = c.tcb.sndNxt := congrArg SendSide.sndNxt hside
  have hsent : c'.sent = c.sent := congrArg SendSide.sent hside
  have hcalls : c'.calls = c.calls := congrArg SendSide.calls hside
  have hmsgs : c'.messagesArray = c.messagesArray := congrArg SendSide.messagesArray hside
  constructor
  · rw [hiss, h.iss_eq]
  · rw [huna, h.una]
  · rw [hnxt, hf, h.nxt]
  · rw [hcalls, h.calls]
  · rw [hsent, h.text]
  · rw [hself, hmsgs, h.entries]

theorem EarlyInv.connect {iss : UInt32} {c : Conn} (h : EarlyInv iss c) :
    EarlyInv iss (connect c) := by
  unfold AnpNetstack.connect
  split_ifs with hf
  · rw [tcpTxEmpty_eq c tcpSyn (by decide), txSegment_eq]
    refine ⟨h.iss_eq, h.una, ?_, h.calls, ?_, ?_⟩
    · have hn := h.nxt
      rw [if_pos hf] at hn
      have hctl : ctlLen tcpSyn = 1 := by decide
      dsimp only
      rw [hn, hctl, UInt32.add_zero]
      rfl
    · have ht := h.text
      dsimp only
      rw [textLength_append, ht]
      rfl
    · exact (addMsgToArr_hasText c.self _ c.messagesArray rfl (Or.inl rfl)).trans
        (by simp [h.entries])
  · exact h

theorem EarlyInv.step {iss : UInt32} {c : Conn} (h : EarlyInv iss c) (hk : ControlInv c.control)
    (hearly : Early c) (e : Event) (hearly' : Early (step c e)) : EarlyInv iss (step c e) := by
  have hstep := hearly.step hk e
  generalize AnpNetstack.step c e = c' at hearly' hstep
  cases hstep with
  | same => exact h
  | connect hf => exact h.connect
  | sendRound i alloc =>
    rw [sendRound_idle alloc (by simp [h.calls])]
    exact h
  | recv len =>
    exact h.same (readBytes_frame Conn.sendSide (fun _ _ _ _ => rfl) c len)
      (readBytes_frame (fun c => c.tcb.iss) (fun _ _ _ _ => rfl) c len)
      (readBytes_frame Conn.fresh (fun _ _ _ _ => rfl) c len)
  | taken pkt ht => exact absurd hearly' (hearly.taken hk ht)
  | unlock => exact h.same rfl rfl rfl
  | retransmit =>
    have hnone : ∀ m ∈ c.messagesArray, hasText c.self m = true →
        m.retries = UInt32.ofInt retriesInfinite := by
      intro m hm ht
      have := List.mem_filter.mpr ⟨hm, ht⟩
      simp [h.entries] at this
    exact ⟨h.iss_eq, h.una, h.nxt, h.calls, h.text, (retransmit_hasText hnone).trans h.entries⟩
  | lock => exact h.same rfl rfl rfl

theorem earlyInv_run {iss : UInt32} {c : Conn} (hk : Reached c.control)
    (h : Early c → EarlyInv iss c) (es : List Event) :
    Early (run step c es) → EarlyInv iss (run step c es) := by
  induction es generalizing c with
  | nil => exact h
  | cons e es ih =>
    refine ih (reached_step hk e) ?_
    intro hearly'
    have hearly := early_of_step e hearly'
    exact (h hearly).step hk.inv hearly e hearly'

structure OpenedBySynAck (self : Nat) (iss : UInt32) (c : Conn) : Prop where
  state : c.tcb.state = .established
  opened : ∃ localPort remotePort localIp remoteIp msgs es syn,
    let c₀ := run step (connectBlock self localPort remotePort localIp remoteIp iss msgs) es
    (∀ m ∈ msgs, m.tcb ≠ self) ∧ c₀.tcb.state = .synSent ∧ c = step c₀ (.segment syn) ∧
      hasFlag syn.tcp.hdr.flags tcpSyn = true ∧ hasFlag syn.tcp.hdr.flags tcpAck = true ∧
      syn.tcp.hdr.ackNum = iss + 1

theorem connectBlock_early (self : Nat) (localPort remotePort : UInt16)
    (localIp remoteIp iss : UInt32) {msgs : List TcpMessage} (h : ∀ m ∈ msgs, m.tcb ≠ self) :
    EarlyInv iss (connectBlock self localPort remotePort localIp remoteIp iss msgs) := by
  refine ⟨rfl, rfl, rfl, rfl, rfl, ?_⟩
  rw [List.filter_eq_nil_iff]
  intro m hm
  simp [hasText, connectBlock, h m hm]

theorem unacked_nil (una : UInt32) {xs : List Sent} (h : textLength xs = 0) :
    unacked una xs = [] := by
  induction xs with
  | nil => rfl
  | cons x xs ih =>
    have hsum : x.seg.data.length + textLength xs = 0 := h
    have hx : x.seg.data = [] := List.length_eq_zero_iff.mp (by omega)
    have hxs := ih (by omega)
    unfold unacked at hxs ⊢
    rw [List.map_cons, List.filter_cons, hx, hxs]
    rfl

/-- The SYN|ACK acknowledges our SYN, and nothing else has been sent. -/
theorem EarlyInv.synAck_una {iss : UInt32} {c : Conn} (h : EarlyInv iss c)
    (hk : ControlInv c.control) (hs : c.tcb.state = .synSent) {syn : Packet}
    (hflag : hasFlag syn.tcp.hdr.flags tcpAck = true) (hack : syn.tcp.hdr.ackNum = iss + 1)
    (hiss : 0 < iss) (hroom : iss.toNat + 1 < 2 ^ 32) :
    c.tcb.sndNxt = iss + 1 ∧ (takeSyn c.tcb syn.tcp.hdr).sndUna = iss + 1 := by
  have hfresh : c.fresh = false := hk.not_fresh (by simp [Conn.control, hs])
  have hnxt : c.tcb.sndNxt = iss + 1 := by
    have hn := h.nxt
    simpa [hfresh] using hn
  have hsucc : (iss + 1).toNat = iss.toNat + 1 := by
    rw [UInt32.toNat_add, UInt32.toNat_one, Nat.mod_eq_of_lt hroom]
  have hpred : iss - 1 ≤ iss + 1 := by
    rw [UInt32.lt_iff_toNat_lt, UInt32.toNat_zero] at hiss
    have hle : (1 : UInt32) ≤ iss := by
      rw [UInt32.le_iff_toNat_le, UInt32.toNat_one]
      exact hiss
    rw [UInt32.le_iff_toNat_le, hsucc, UInt32.toNat_sub_of_le _ _ hle, UInt32.toNat_one]
    omega
  have hacc : acceptableAck c.tcb syn.tcp.hdr = true := by
    simp [acceptableAck, hflag, hack, h.una, hnxt, hpred]
  exact ⟨hnxt, by simp [takeSyn, hacc, hack]⟩

theorem EarlyInv.establish {iss : UInt32} {c : Conn} (h : EarlyInv iss c) {syn : Packet}
    (hnxt : c.tcb.sndNxt = iss + 1) (huna : (takeSyn c.tcb syn.tcp.hdr).sndUna = iss + 1)
    (hroom : iss.toNat + 1 < 2 ^ 32) : QueueInv iss (synEstablish c syn.tcp.hdr).sendSide := by
  have hsucc : (iss + 1).toNat = iss.toNat + 1 := by
    rw [UInt32.toNat_add, UInt32.toNat_one, Nat.mod_eq_of_lt hroom]
  have hnone : ∀ m ∈ c.messagesArray, hasText c.self m = true →
      m.tcpPtr.hdr.seqNum < (takeSyn c.tcb syn.tcp.hdr).sndUna →
      m.tcpPtr.hdr.seqNum + m.tcpDataLen ≤ (takeSyn c.tcb syn.tcp.hdr).sndUna := by
    intro m hm ht
    have := List.mem_filter.mpr ⟨hm, ht⟩
    simp [h.entries] at this
  have hstop := stopRetransmit_hasText hnone
  rw [h.entries, List.filter_nil] at hstop
  have hside : (synEstablish c syn.tcp.hdr).sendSide =
      { c.sendSide with
        sndUna := iss + 1
        messagesArray := stopRetransmit c.self (takeSyn c.tcb syn.tcp.hdr) c.messagesArray } := by
    rw [← huna]
    rfl
  rw [hside]
  refine ⟨UInt32.le_of_eq hnxt.symm, ?_, ?_, ?_⟩
  · have htext : textLength c.sent = 0 := h.text
    dsimp only [Conn.sendSide]
    rw [hnxt, hsucc, htext]
  · simp [Conn.sendSide, h.calls]
  · have hnil : (unacked (iss + 1) c.sent).map (textEntry c.self) = [] := by
      rw [unacked_nil _ h.text]
      rfl
    exact hstop.trans hnil.symm

theorem EarlyInv.synAck {iss : UInt32} {c : Conn} (h : EarlyInv iss c) (hk : ControlInv c.control)
    (hs : c.tcb.state = .synSent) {syn : Packet}
    (hest : (tcpRxSwitch c syn).tcb.state = .established)
    (hflag : hasFlag syn.tcp.hdr.flags tcpAck = true) (hack : syn.tcp.hdr.ackNum = iss + 1)
    (hiss : 0 < iss) (hroom : iss.toNat + 1 < 2 ^ 32) :
    QueueInv iss (tcpRxSwitch c syn).sendSide := by
  obtain ⟨hnxt, huna⟩ := h.synAck_una hk hs hflag hack hiss hroom
  cases tcpRxSwitch_cases c syn with
  | inl he =>
    rw [he, hs] at hest
    simp at hest
  | inr ht =>
    obtain ⟨c', he, -, -, ht⟩ := ht
    rw [he] at hest ⊢
    cases ht with
    | establish hs' hf hu => exact h.establish hnxt huna hroom
    | cross => simp [synCross] at hest
    | confirm hs' => simp [hs] at hs'
    | ack hs' => simp [hs] at hs'
    | finWait hs' => simp [hs] at hs'

theorem unacked_queue (self : Nat) (iss : UInt32) (c : Conn) (es : List Event) (hiss : 0 < iss)
    (hopen : OpenedBySynAck self iss c) (hes : Along step Admissible c es)
    (hroom : iss.toNat + 1 + textLength (run step c es).sent < 2 ^ 32) :
    let last := run step c es
    (∀ k, (run step c (es.take k)).tcb.sndUna ≤ last.tcb.sndUna) ∧
      last.tcb.sndUna ≤ last.tcb.sndNxt ∧
      last.messagesArray.filter (hasText last.self) =
        (unacked last.tcb.sndUna last.sent).map (textEntry last.self) := by
  intro last
  obtain ⟨hstate, localPort, remotePort, localIp, remoteIp, msgs, es₀, syn, hmsgs, hs, rfl, -,
      hflag, hack⟩ :=
    hopen
  set c₀ := run step (connectBlock self localPort remotePort localIp remoteIp iss msgs) es₀
  have hreach : Reached c₀.control :=
    reached_run (connectBlock_reached self localPort remotePort localIp remoteIp iss msgs) es₀
  have hearly : EarlyInv iss c₀ :=
    earlyInv_run (connectBlock_reached self localPort remotePort localIp remoteIp iss msgs)
      (fun _ => connectBlock_early self localPort remotePort localIp remoteIp iss hmsgs)
        es₀ (Or.inr hs)
  have hx : step c₀ (.segment syn) = tcpRxSwitch c₀ syn := by
    simp only [step] at hstate ⊢
    split_ifs at hstate ⊢
    · rfl
    · simp [hs] at hstate
  have hq : QueueInv iss (step c₀ (.segment syn)).sendSide := by
    rw [hx] at hstate ⊢
    exact hearly.synAck hreach.inv hs hstate hflag hack hiss (by omega)
  have hreach' := reached_step hreach (.segment syn)
  have hlast := hq.run hreach' hstate hes hroom
  refine ⟨?_, hlast.1.una_le, hlast.1.entries⟩
  intro k
  set c := step c₀ (.segment syn)
  set mid := run step c (es.take k)
  have hsplit : last = run step mid (es.drop k) := by
    rw [← run_append, List.take_append_drop]
  rw [← List.take_append_drop k es, along_append] at hes
  have hgrow := textLength_mono (sent_grows_run mid (es.drop k))
  rw [← hsplit] at hgrow
  have hmid := hq.run hreach' hstate hes.1 (Nat.lt_of_le_of_lt (Nat.add_le_add_left hgrow _) hroom)
  have hrest := hmid.1.run (reached_run hreach' (es.take k)) hmid.2.2 hes.2 (hsplit ▸ hroom)
  rw [hsplit]
  exact hrest.2.1

def sampleTransfer : List Event :=
  [.rxStep, .rxStep, .send [1, 2, 3], .sendRound 0 true, .send [4, 5], .sendRound 1 true,
    .retransmit, .segment (samplePeer 5001 1004 tcpAck 1000 []), .rxStep, .rxStep, .rxStep]

theorem sample_openedBySynAck :
    OpenedBySynAck 1 1000 (step (sampleConn 1000)
      (.segment (samplePeer 5000 1001 tcpSynAck 1000 []))) where
  state := by decide +kernel
  opened :=
    ⟨49155, 43211, 0x0400000a, 0x0a000005, [], [.connect], samplePeer 5000 1001 tcpSynAck 1000 [],
      by simp, by decide +kernel, rfl, by decide +kernel, by decide +kernel, by decide +kernel⟩

def sampleLeft : Conn :=
  run step (step (sampleConn 1000) (.segment (samplePeer 5000 1001 tcpSynAck 1000 [])))
    sampleTransfer

theorem unacked_queue_sample :
    sampleLeft.messagesArray.filter (hasText sampleLeft.self) =
        (unacked sampleLeft.tcb.sndUna sampleLeft.sent).map (textEntry sampleLeft.self) ∧
      (unacked sampleLeft.tcb.sndUna sampleLeft.sent).map TcpSegment.data = [[4, 5]] := by
  have hq :=
    unacked_queue 1 1000 _ sampleTransfer (by decide) sample_openedBySynAck (by decide +kernel)
      (by decide +kernel)
  exact ⟨hq.2.2, by decide +kernel⟩

end AnpNetstack
