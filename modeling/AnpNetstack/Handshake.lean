import AnpNetstack.WholeSegments

/-! The handshake as tcp_rx sees it: segments in any order on the block that connect has
set up. SYN_SENT opens the connection as it should unless iss is 0, where snd_una starts
at 2^32-1; the way through SYN_RECEIVED never takes the acknowledgement into snd_una. -/
namespace AnpNetstack
open Runs

def randMax : UInt32 := 0x7fffffff

def HandshakeSafe (iss : UInt32) (seen : List Packet) (c : Conn) : Prop :=
  c.tcb.state = .established →
    (∃ p ∈ seen, hasFlag p.tcp.hdr.flags tcpSyn = true ∧ p.tcp.hdr.seqNum = c.tcb.irs) ∧
    (∃ p ∈ seen, hasFlag p.tcp.hdr.flags tcpAck = true ∧ p.tcp.hdr.ackNum = iss + 1) ∧
    iss + 1 ≤ c.tcb.sndUna ∧ c.tcb.sndUna ≤ c.tcb.sndNxt

instance (iss : UInt32) (seen : List Packet) (c : Conn) : Decidable (HandshakeSafe iss seen c) :=
  inferInstanceAs (Decidable (_ → _))

/-- No SYN is taken while iss is 0, and no acknowledgement in SYN_RECEIVED. -/
def HandshakeClean (c : Conn) (pkt : Packet) : Prop :=
  ¬ (c.tcb.state = .synSent ∧ c.tcb.iss = 0 ∧ hasFlag pkt.tcp.hdr.flags tcpSyn = true) ∧
    ¬ (c.tcb.state = .synReceived ∧ hasFlag pkt.tcp.hdr.flags tcpAck = true ∧
      ackAdvances c.tcb pkt.tcp.hdr = true)

instance (c : Conn) (pkt : Packet) : Decidable (HandshakeClean c pkt) :=
  inferInstanceAs (Decidable (_ ∧ _))

inductive HandshakePhase (iss : UInt32) (seen : List Packet) (c : Conn) : Prop where
  | sent (hs : c.tcb.state = .synSent) (hu : c.tcb.sndUna = iss - 1) (hn : c.tcb.sndNxt = iss + 1)
      (hl : c.tcbLock = false)
  | crossed (hs : c.tcb.state = .synReceived) (h0 : iss ≠ 0)
      (hu : c.tcb.sndUna = iss - 1 ∨ c.tcb.sndUna = iss) (hl : c.tcbLock = false)
  | opened (hs : c.tcb.state = .established) (hu : c.tcb.sndUna = iss + 1)
      (hn : c.tcb.sndNxt = iss + 1)
      (hsyn : ∃ p ∈ seen, hasFlag p.tcp.hdr.flags tcpSyn = true ∧ p.tcp.hdr.seqNum = c.tcb.irs)
      (hack : ∃ p ∈ seen, hasFlag p.tcp.hdr.flags tcpAck = true ∧ p.tcp.hdr.ackNum = iss + 1)

structure HandshakeInv (block : Tcb) (iss : UInt32) (seen : List Packet) (c : Conn) : Prop where
  reached : Reached c.control
  rest : c.rx = []
  iss_eq : c.tcb.iss = iss
  ports : ∀ p, accepted c.tcb p = accepted block p
  phase : HandshakePhase iss seen c

theorem HandshakeInv.safe {block : Tcb} {iss : UInt32} {seen : List Packet} {c : Conn}
    (h : HandshakeInv block iss seen c) : HandshakeSafe iss seen c := by
  intro hs
  cases h.phase with
  | sent hs' => simp [hs] at hs'
  | crossed hs' => simp [hs] at hs'
  | opened hs' hu hn hsyn hack =>
    refine ⟨hsyn, hack, ?_, ?_⟩
    · rw [hu]
      exact UInt32.le_refl _
    · rw [hu, hn]
      exact UInt32.le_refl _

theorem HandshakePhase.mono {iss : UInt32} {seen : List Packet} {c : Conn}
    (h : HandshakePhase iss seen c) (pkt : Packet) : HandshakePhase iss (seen ++ [pkt]) c := by
  have hmem {P : Packet → Prop} (hp : ∃ p ∈ seen, P p) : ∃ p ∈ seen ++ [pkt], P p := by
    obtain ⟨p, hp, hP⟩ := hp
    exact ⟨p, List.mem_append_left _ hp, hP⟩
  cases h with
  | sent hs hu hn hl => exact .sent hs hu hn hl
  | crossed hs h0 hu hl => exact .crossed hs h0 hu hl
  | opened hs hu hn hsyn hack => exact .opened hs hu hn (hmem hsyn) (hmem hack)

section Phase
variable {iss : UInt32} {seen : List Packet} {c : Conn} (h : HandshakePhase iss seen c)
include h

theorem HandshakePhase.of_synSent (hs : c.tcb.state = .synSent) :
    c.tcb.sndUna = iss - 1 ∧ c.tcb.sndNxt = iss + 1 ∧ c.tcbLock = false := by
  cases h with
  | sent _ hu hn hl => exact ⟨hu, hn, hl⟩
  | crossed hs' => simp [hs] at hs'
  | opened hs' => simp [hs] at hs'

theorem HandshakePhase.of_synReceived (hs : c.tcb.state = .synReceived) :
    iss ≠ 0 ∧ (c.tcb.sndUna = iss - 1 ∨ c.tcb.sndUna = iss) ∧ c.tcbLock = false := by
  cases h with
  | sent hs' => simp [hs] at hs'
  | crossed _ h0 hu hl => exact ⟨h0, hu, hl⟩
  | opened hs' => simp [hs] at hs'

theorem HandshakePhase.not_finWait : c.tcb.state ≠ .finWait1 := by
  cases h with
  | sent hs => simp [hs]
  | crossed hs => simp [hs]
  | opened hs => simp [hs]

end Phase

/-- The neighbours of iss, where snd_una can stand, do not wrap. -/
theorem iss_toNat {iss : UInt32} (hmax : iss ≤ randMax) (h0 : iss ≠ 0) :
    (iss - 1).toNat + 1 = iss.toNat ∧ (iss + 1).toNat = iss.toNat + 1 := by
  have hm : randMax.toNat = 2147483647 := rfl
  have hpos : iss.toNat ≠ 0 := fun hz => h0 (UInt32.toNat_inj.mp hz)
  have hle : (1 : UInt32) ≤ iss := by
    rw [UInt32.le_iff_toNat_le, UInt32.toNat_one]
    omega
  rw [UInt32.le_iff_toNat_le] at hmax
  rw [UInt32.toNat_sub_of_le _ _ hle, UInt32.toNat_add, UInt32.toNat_one]
  omega

theorem takeSyn_una {iss : UInt32} (hmax : iss ≤ randMax) (h0 : iss ≠ 0) {tcb : Tcb} {h : TcpHdr}
    (hu : tcb.sndUna = iss - 1) (hn : tcb.sndNxt = iss + 1) :
    ((takeSyn tcb h).sndUna = iss + 1 ∧ hasFlag h.flags tcpAck = true ∧ h.ackNum = iss + 1) ∨
      (takeSyn tcb h).sndUna = iss - 1 ∨ (takeSyn tcb h).sndUna = iss := by
  obtain ⟨hpred, hsucc⟩ := iss_toNat hmax h0
  by_cases hacc : acceptableAck tcb h = true
  · have huna : (takeSyn tcb h).sndUna = h.ackNum := by simp only [takeSyn, hacc, if_true]
    simp only [acceptableAck, hu, hn, Bool.and_eq_true, decide_eq_true_eq,
      UInt32.le_iff_toNat_le] at hacc
    rw [huna]
    by_cases htop : h.ackNum = iss + 1
    · exact Or.inl ⟨htop, hacc.1.1, htop⟩
    · have hne : h.ackNum.toNat ≠ (iss + 1).toNat := fun he => htop (UInt32.toNat_inj.mp he)
      rw [← UInt32.toNat_inj, ← UInt32.toNat_inj, ← UInt32.toNat_inj]
      omega
  · exact Or.inr (Or.inl (by simp only [takeSyn, hacc, if_false, Bool.false_eq_true, hu]))

def Tcb.handshake (tcb : Tcb) : TcpState × UInt32 × UInt32 × UInt32 × UInt32 :=
  (tcb.state, tcb.iss, tcb.irs, tcb.sndUna, tcb.sndNxt)

section Answered
variable {c d : Conn} (hk : Reached d.control) (hd : d.tcb.state = .established)
include hk hd

theorem handshake_iterate : (rxStep^[7] d).tcb.handshake = d.tcb.handshake :=
  rxStep_iterate_frame Tcb.handshake (fun _ _ _ _ => rfl) hk hd 7

theorem accepted_iterate (p : Packet) : accepted (rxStep^[7] d).tcb p = accepted d.tcb p :=
  rxStep_iterate_frame (fun tcb => accepted tcb p) (fun _ _ _ _ => rfl) hk hd 7

end Answered

/-- The rest of tcp_rx keeps what the switch has made of an established connection. -/
theorem HandshakeInv.finish {block : Tcb} {iss : UInt32} {seen : List Packet} {c d : Conn}
    (h : HandshakeInv block iss seen c) {pkt : Packet} (he : tcpRxSwitch c pkt = d)
    (hs : d.tcb.state = .established) (hiss : d.tcb.iss = iss)
    (hports : ∀ p, accepted d.tcb p = accepted c.tcb p)
    (hu : d.tcb.sndUna = iss + 1) (hn : d.tcb.sndNxt = iss + 1)
    (hsyn : ∃ p ∈ seen ++ [pkt], hasFlag p.tcp.hdr.flags tcpSyn = true ∧
      p.tcp.hdr.seqNum = d.tcb.irs)
    (hack : ∃ p ∈ seen ++ [pkt], hasFlag p.tcp.hdr.flags tcpAck = true ∧
      p.tcp.hdr.ackNum = iss + 1) :
    HandshakeInv block iss (seen ++ [pkt]) (tcpRx c pkt) := by
  have hseg : step c (.segment pkt) = d := by simp [step, h.rest, he]
  have hk : Reached d.control := hseg ▸ reached_step h.reached (.segment pkt)
  have hd : tcpRx c pkt = rxStep^[7] d := by rw [tcpRx, he]
  have hrx := tcpRx_rx h.rest pkt
  have hreach := reached_tcpRx h.reached h.rest pkt
  have hview := handshake_iterate hk hs
  rw [hd] at hrx hreach ⊢
  simp only [Tcb.handshake, Prod.mk.injEq] at hview
  obtain ⟨hst, hi, hirs, huna, hnxt⟩ := hview
  refine ⟨hreach, hrx, hi.trans hiss, ?_, ?_⟩
  · intro p
    rw [accepted_iterate hk hs p, hports p, h.ports p]
  · refine .opened (hst.trans hs) (huna.trans hu) (hnxt.trans hn) ?_ hack
    rw [hirs]
    exact hsyn

theorem HandshakeInv.establish {block : Tcb} {iss : UInt32} {seen : List Packet} {c : Conn}
    (h : HandshakeInv block iss seen c) (hmax : iss ≤ randMax) (h0 : iss ≠ 0) {pkt : Packet}
    (he : tcpRxSwitch c pkt = synEstablish c pkt.tcp.hdr) (hs : c.tcb.state = .synSent)
    (hf : hasFlag pkt.tcp.hdr.flags tcpSyn = true)
    (hu : c.tcb.iss < (takeSyn c.tcb pkt.tcp.hdr).sndUna) :
    HandshakeInv block iss (seen ++ [pkt]) (tcpRx c pkt) := by
  obtain ⟨hpred, hsucc⟩ := iss_toNat hmax h0
  obtain ⟨huna, hnxt, -⟩ := h.phase.of_synSent hs
  rw [h.iss_eq, UInt32.lt_iff_toNat_lt] at hu
  have hack : (takeSyn c.tcb pkt.tcp.hdr).sndUna = iss + 1 ∧
      hasFlag pkt.tcp.hdr.flags tcpAck = true ∧ pkt.tcp.hdr.ackNum = iss + 1 := by
    cases takeSyn_una hmax h0 huna hnxt with
    | inl ht => exact ht
    | inr ht =>
      cases ht with
      | inl ht =>
        rw [ht] at hu
        omega
      | inr ht =>
        rw [ht] at hu
        omega
  have hmem : pkt ∈ seen ++ [pkt] := List.mem_append_right _ List.mem_cons_self
  exact h.finish he rfl h.iss_eq (fun _ => rfl) hack.1 hnxt ⟨pkt, hmem, hf, rfl⟩ ⟨pkt, hmem, hack.2⟩

theorem HandshakeInv.cross {block : Tcb} {iss : UInt32} {seen : List Packet} {c : Conn}
    (h : HandshakeInv block iss seen c) (hmax : iss ≤ randMax) (h0 : iss ≠ 0) {pkt : Packet}
    (he : tcpRxSwitch c pkt = synCross c pkt.tcp.hdr) (hs : c.tcb.state = .synSent)
    (hu : ¬ c.tcb.iss < (takeSyn c.tcb pkt.tcp.hdr).sndUna) :
    HandshakeInv block iss (seen ++ [pkt]) (tcpRx c pkt) := by
  obtain ⟨hpred, hsucc⟩ := iss_toNat hmax h0
  obtain ⟨huna, hnxt, -⟩ := h.phase.of_synSent hs
  have hside : (takeSyn c.tcb pkt.tcp.hdr).sndUna = iss - 1 ∨
      (takeSyn c.tcb pkt.tcp.hdr).sndUna = iss := by
    cases takeSyn_una hmax h0 huna hnxt with
    | inl ht =>
      rw [h.iss_eq, ht.1, UInt32.lt_iff_toNat_lt] at hu
      omega
    | inr ht => exact ht
  have hd := rxStep_iterate_answer (c := synCross c pkt.tcp.hdr) rfl
  have hreach := reached_tcpRx h.reached h.rest pkt
  rw [tcpRx, he, hd, tcpTxEmpty_eq _ _ (by decide), txSegment_eq] at hreach ⊢
  exact ⟨hreach, rfl, h.iss_eq, h.ports, .crossed rfl h0 hside rfl⟩

/-- Once the connection is open everything sent is acknowledged, so nothing is taken. -/
theorem HandshakeInv.ack {block : Tcb} {iss : UInt32} {seen : List Packet} {c : Conn}
    (h : HandshakeInv block iss seen c) {pkt : Packet}
    (he : tcpRxSwitch c pkt = ackEstablished c pkt) (hs : c.tcb.state = .established) :
    HandshakeInv block iss (seen ++ [pkt]) (tcpRx c pkt) := by
  cases h.phase.mono pkt with
  | sent hs' => simp [hs] at hs'
  | crossed hs' => simp [hs] at hs'
  | opened hs' hu hn hsyn hack =>
    have hno : ¬ ackAdvances c.tcb pkt.tcp.hdr = true := by
      simp only [ackAdvances, hu, hn, Bool.and_eq_true, decide_eq_true_eq, not_and]
      exact fun hlt => UInt32.not_le.mpr hlt
    have htake : takeAck c.tcb pkt.tcp.hdr = c.tcb := by
      simp only [takeAck, hno, if_false, Bool.false_eq_true]
    have htcb : (ackEstablished c pkt).tcb =
        { c.tcb with sndWnd := pkt.tcp.hdr.windowSize.toUInt32 } := by
      simp only [ackEstablished, htake]
    refine h.finish he ?_ ?_ ?_ ?_ ?_ ?_ hack
    · rw [htcb]
      exact hs
    · rw [htcb]
      exact h.iss_eq
    · intro p
      rw [htcb]
      rfl
    · rw [htcb]
      exact hu
    · rw [htcb]
      exact hn
    · rw [htcb]
      exact hsyn

theorem HandshakeInv.clean_step {block : Tcb} {iss : UInt32} {seen : List Packet} {c : Conn}
    (h : HandshakeInv block iss seen c) (hmax : iss ≤ randMax) {pkt : Packet}
    (hclean : HandshakeClean c pkt) : HandshakeInv block iss (seen ++ [pkt]) (tcpRx c pkt) := by
  have h0 (hs : c.tcb.state = .synSent) (hf : hasFlag pkt.tcp.hdr.flags tcpSyn = true) : iss ≠ 0 :=
    fun h0 => hclean.1 ⟨hs, h.iss_eq.trans h0, hf⟩
  cases tcpRxSwitch_cases c pkt with
  | inl he =>
    rw [tcpRx_dropped h.rest he]
    exact ⟨h.reached, h.rest, h.iss_eq, h.ports, h.phase.mono pkt⟩
  | inr ht =>
    obtain ⟨d, he, -, -, ht⟩ := ht
    cases ht with
    | establish hs hf hu => exact h.establish hmax (h0 hs hf) he hs hf hu
    | cross hs hf hu => exact h.cross hmax (h0 hs hf) he hs hu
    | confirm hs hf ha => exact absurd ⟨hs, hf, ha⟩ hclean.2
    | ack hs hf => exact h.ack he hs
    | finWait hs hf => exact absurd hs h.phase.not_finWait

/-- What is wrong after the switch is still wrong at the end of tcp_rx. -/
theorem HandshakeInv.not_safe {block : Tcb} {iss : UInt32} {seen : List Packet} {c d : Conn}
    (h : HandshakeInv block iss seen c) {pkt : Packet} (he : tcpRxSwitch c pkt = d)
    (hs : d.tcb.state = .established)
    (hu : ¬ (iss + 1 ≤ d.tcb.sndUna ∧ d.tcb.sndUna ≤ d.tcb.sndNxt)) (seen' : List Packet) :
    ¬ HandshakeSafe iss seen' (tcpRx c pkt) := by
  have hseg : step c (.segment pkt) = d := by simp [step, h.rest, he]
  have hk : Reached d.control := hseg ▸ reached_step h.reached (.segment pkt)
  have hview := handshake_iterate hk hs
  simp only [Tcb.handshake, Prod.mk.injEq] at hview
  obtain ⟨hst, -, -, huna, hnxt⟩ := hview
  rw [tcpRx, he]
  intro hsafe
  have hin := (hsafe (hst.trans hs)).2.2
  rw [huna, hnxt] at hin
  exact hu hin

/-- With iss 0 snd_una starts at 2^32 - 1, so any SYN seems to acknowledge ours. -/
theorem HandshakeInv.syn_of_zero {block : Tcb} {seen : List Packet} {c : Conn}
    (h : HandshakeInv block 0 seen c) {pkt : Packet} (ha : accepted c.tcb pkt = true)
    (hs : c.tcb.state = .synSent) (hf : hasFlag pkt.tcp.hdr.flags tcpSyn = true)
    (seen' : List Packet) : ¬ HandshakeSafe 0 seen' (tcpRx c pkt) := by
  obtain ⟨huna, hnxt, hl⟩ := h.phase.of_synSent hs
  have hacc : ¬ acceptableAck c.tcb pkt.tcp.hdr = true := by
    simp only [acceptableAck, huna, hnxt, Bool.and_eq_true, decide_eq_true_eq]
    rintro ⟨⟨-, hlow⟩, hhigh⟩
    exact absurd (UInt32.le_trans hlow hhigh) (by decide)
  have hsu : (takeSyn c.tcb pkt.tcp.hdr).sndUna = 0 - 1 := by
    simp only [takeSyn, hacc, if_false, Bool.false_eq_true, huna]
  have hgt : (takeSyn c.tcb pkt.tcp.hdr).sndUna > c.tcb.iss := by
    rw [hsu, h.iss_eq]
    decide
  have he : tcpRxSwitch c pkt = synEstablish c pkt.tcp.hdr := by
    simp only [tcpRxSwitch, ha, hl, hs, hf, hgt, Bool.not_true, Bool.or_false, Bool.false_eq_true,
      if_false, if_true]
  refine h.not_safe he rfl ?_ seen'
  intro hin
  have hle : (takeSyn c.tcb pkt.tcp.hdr).sndUna ≤ c.tcb.sndNxt := hin.2
  rw [hsu, hnxt] at hle
  exact absurd hle (by decide)

/-- In SYN_RECEIVED the acknowledgement of our SYN is not taken into snd_una. -/
theorem HandshakeInv.confirm {block : Tcb} {iss : UInt32} {seen : List Packet} {c : Conn}
    (h : HandshakeInv block iss seen c) (hmax : iss ≤ randMax) {pkt : Packet}
    (ha : accepted c.tcb pkt = true) (hs : c.tcb.state = .synReceived)
    (hf : hasFlag pkt.tcp.hdr.flags tcpAck = true) (hadv : ackAdvances c.tcb pkt.tcp.hdr = true)
    (seen' : List Packet) : ¬ HandshakeSafe iss seen' (tcpRx c pkt) := by
  obtain ⟨h0, huna, hl⟩ := h.phase.of_synReceived hs
  obtain ⟨hpred, hsucc⟩ := iss_toNat hmax h0
  have he : tcpRxSwitch c pkt = synConfirm c pkt := by
    simp only [tcpRxSwitch, ha, hl, hs, hf, hadv, Bool.not_true, Bool.or_false, Bool.and_self,
      Bool.false_eq_true, if_false, if_true]
  refine h.not_safe he rfl ?_ seen'
  intro hin
  have hle : iss + 1 ≤ c.tcb.sndUna := hin.1
  rw [UInt32.le_iff_toNat_le] at hle
  cases huna with
  | inl hu =>
    rw [hu] at hle
    omega
  | inr hu =>
    rw [hu] at hle
    omega

/-- A segment that is not clean opens the connection with snd_una out of place. -/
theorem HandshakeInv.bad_step {block : Tcb} {iss : UInt32} {seen : List Packet} {c : Conn}
    (h : HandshakeInv block iss seen c) (hmax : iss ≤ randMax) {pkt : Packet}
    (ha : accepted c.tcb pkt = true) (hbad : ¬ HandshakeClean c pkt) (seen' : List Packet) :
    ¬ HandshakeSafe iss seen' (tcpRx c pkt) := by
  rw [HandshakeClean, not_and_or, not_not, not_not] at hbad
  cases hbad with
  | inl hb =>
    obtain ⟨hs, h0, hf⟩ := hb
    obtain rfl : iss = 0 := h.iss_eq.symm.trans h0
    exact h.syn_of_zero ha hs hf seen'
  | inr hb =>
    obtain ⟨hs, hf, hadv⟩ := hb
    exact h.confirm hmax ha hs hf hadv seen'

theorem handshake_iff {block : Tcb} {iss : UInt32} {seen : List Packet} {c : Conn}
    (h : HandshakeInv block iss seen c) (hmax : iss ≤ randMax) {pkts : List Packet}
    (hacc : ∀ p ∈ pkts, accepted block p = true) :
    (∀ k, HandshakeSafe iss (seen ++ pkts.take k) (run tcpRx c (pkts.take k))) ↔
      Along tcpRx HandshakeClean c pkts := by
  induction pkts generalizing c seen with
  | nil =>
    constructor
    · intro _
      trivial
    · intro _ k
      simpa [Runs.run] using h.safe
  | cons pkt pkts ih =>
    have hpkt : accepted c.tcb pkt = true := (h.ports pkt).trans (hacc pkt List.mem_cons_self)
    have hrest : ∀ p ∈ pkts, accepted block p = true :=
      fun p hp => hacc p (List.mem_cons_of_mem pkt hp)
    constructor
    · intro hsafe
      have hclean : HandshakeClean c pkt := by
        by_contra hbad
        exact h.bad_step hmax hpkt hbad _ (hsafe 1)
      refine ⟨hclean, (ih (h.clean_step hmax hclean) hrest).mp ?_⟩
      intro k
      have hk := hsafe (k + 1)
      rw [List.take_succ_cons, List.append_cons] at hk
      exact hk
    · rintro ⟨hclean, hes⟩ k
      cases k with
      | zero => simpa [Runs.run] using h.safe
      | succ k =>
        have hk := (ih (h.clean_step hmax hclean) hrest).mpr hes k
        rw [List.take_succ_cons, List.append_cons]
        exact hk

theorem connect_handshake (self : Nat) (localPort remotePort : UInt16)
    (localIp remoteIp iss : UInt32) (msgs : List TcpMessage) :
    let c := connect (connectBlock self localPort remotePort localIp remoteIp iss msgs)
    HandshakeInv c.tcb iss [] c := by
  intro c
  have hreach : Reached c.control :=
    reached_step (connectBlock_reached self localPort remotePort localIp remoteIp iss msgs) .connect
  have hfresh : (connectBlock self localPort remotePort localIp remoteIp iss msgs).fresh = true :=
    rfl
  have hctl : ctlLen tcpSyn = 1 := by decide
  have hc : c = connect (connectBlock self localPort remotePort localIp remoteIp iss msgs) := rfl
  rw [connect, if_pos hfresh, tcpTxEmpty_eq _ _ (by decide), txSegment_eq] at hc
  refine ⟨hreach, ?_, ?_, fun _ => rfl, .sent ?_ ?_ ?_ ?_⟩
  · rw [hc]
    rfl
  · rw [hc]
    rfl
  · rw [hc]
  · rw [hc]
    rfl
  · rw [hc]
    dsimp only
    rw [hctl, UInt32.add_zero]
    rfl
  · rw [hc]

theorem handshake_safety (self : Nat) (localPort remotePort : UInt16)
    (localIp remoteIp iss : UInt32) (msgs : List TcpMessage) (pkts : List Packet)
    (hmax : iss ≤ randMax)
    (hacc : ∀ p ∈ pkts,
      accepted (connect (connectBlock self localPort remotePort localIp remoteIp iss msgs)).tcb p =
        true) :
    let c := connect (connectBlock self localPort remotePort localIp remoteIp iss msgs)
    (∀ k, HandshakeSafe iss (pkts.take k) (run tcpRx c (pkts.take k))) ↔
      Along tcpRx HandshakeClean c pkts :=
  handshake_iff (connect_handshake self localPort remotePort localIp remoteIp iss msgs) hmax hacc

def crossedSyns : List Packet :=
  [samplePeer 5000 0 tcpSyn 1000 [], samplePeer 5001 1000 tcpAck 1000 []]

/-- With iss 0 the peer's SYN alone opens the connection, after crossing SYNs an
acknowledgement that does not cover ours does. -/
theorem handshake_unsafe :
    ¬ HandshakeSafe 0 (crossedSyns.take 1) (run tcpRx (sampleConn 0) (crossedSyns.take 1)) ∧
      ¬ HandshakeSafe 1000 crossedSyns (run tcpRx (sampleConn 1000) crossedSyns) := by
  constructor
  · decide +kernel
  · decide +kernel

theorem handshake_safety_sample :
    (run tcpRx (sampleConn 1000) [samplePeer 5000 1001 tcpSynAck 1000 []]).tcb.state =
      .established ∧
      HandshakeSafe 1000 [samplePeer 5000 1001 tcpSynAck 1000 []]
        (run tcpRx (sampleConn 1000) [samplePeer 5000 1001 tcpSynAck 1000 []]) :=
  ⟨by decide +kernel,
    (handshake_safety 1 49155 43211 0x0400000a 0x0a000005 1000 []
      [samplePeer 5000 1001 tcpSynAck 1000 []]
      (by decide) (by decide +kernel)).mpr (by decide +kernel) 1⟩

end AnpNetstack
