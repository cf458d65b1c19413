import AnpNetstack.SeqWindow
import AnpNetstack.WholeSegments

/-! Adding a constant to all sequence numbers of the send side. What tcp_rx and
stop_retransmit do with an acknowledgement commutes with it only as long as the shift does
not carry the range from snd_una to snd_nxt over 2^32, or back. -/
namespace AnpNetstack
open SeqWindow

def shiftTcb (k : UInt32) (tcb : Tcb) : Tcb :=
  { tcb with iss := tcb.iss + k, sndUna := tcb.sndUna + k, sndNxt := tcb.sndNxt + k }

def shiftSegment (k : UInt32) (seg : TcpSegment) : TcpSegment :=
  { seg with hdr := { seg.hdr with seqNum := seg.hdr.seqNum + k } }

/-- The entries of other connections stay as they are. -/
def shiftEntry (self : Nat) (k : UInt32) (entry : TcpMessage) : TcpMessage :=
  if entry.tcb = self then
    { entry with sub := shiftSegment k entry.sub, tcpPtr := shiftSegment k entry.tcpPtr }
  else entry

def shiftConn (k : UInt32) (c : Conn) : Conn :=
  { c with
    tcb := shiftTcb k c.tcb
    messagesArray := c.messagesArray.map (shiftEntry c.self k) }

def ShiftsAlike (k : UInt32) (c : Conn) (pkt pkt' : Packet) : Prop :=
  (tcpRx (shiftConn k c) pkt').tcb = shiftTcb k (tcpRx c pkt).tcb ∧
    (tcpRx (shiftConn k c) pkt').messagesArray =
      (tcpRx c pkt).messagesArray.map (shiftEntry c.self k)

structure ShiftedAck (k : UInt32) (tcb : Tcb) (pkt pkt' : Packet) : Prop where
  accepted : accepted tcb pkt = true
  accepted' : AnpNetstack.accepted tcb pkt' = true
  text : segmentLen pkt = 0
  text' : segmentLen pkt' = 0
  ack : hasFlag pkt.tcp.hdr.flags tcpAck = true
  flags : pkt'.tcp.hdr.flags = pkt.tcp.hdr.flags
  window : pkt'.tcp.hdr.windowSize = pkt.tcp.hdr.windowSize
  ackNum : pkt'.tcp.hdr.ackNum = pkt.tcp.hdr.ackNum + k

/-- The queued entries of the connection lie between snd_una and snd_nxt, and `ack` cuts
none of them in two. All distances are taken modulo 2^32. -/
structure EntriesInFlight (c : Conn) (ack : UInt32) : Prop where
  range : ∀ m ∈ c.messagesArray, m.tcb = c.self →
    (m.tcpPtr.hdr.seqNum - c.tcb.sndUna).toNat + m.tcpDataLen.toNat ≤
      (c.tcb.sndNxt - c.tcb.sndUna).toNat
  boundary : ∀ m ∈ c.messagesArray, m.tcb = c.self →
    m.tcpPtr.hdr.seqNum - c.tcb.sndUna < ack - c.tcb.sndUna →
    (m.tcpPtr.hdr.seqNum - c.tcb.sndUna).toNat + m.tcpDataLen.toNat ≤ (ack - c.tcb.sndUna).toNat

def takeFin (tcb : Tcb) (h : TcpHdr) : Tcb :=
  if hasFlag h.flags tcpFin then { tcb with rcvNxt := tcb.rcvNxt + 1 } else tcb

/-- tcp_rx on an acknowledgement without text in ESTABLISHED. -/
theorem tcpRx_ack {c : Conn} {pkt : Packet} (hs : c.tcb.state = .established)
    (hl : c.tcbLock = false) (ha : accepted c.tcb pkt = true)
    (hf : hasFlag pkt.tcp.hdr.flags tcpAck = true) (ht : segmentLen pkt = 0) :
    (tcpRx c pkt).tcb = takeFin (ackEstablished c pkt).tcb pkt.tcp.hdr ∧
      (tcpRx c pkt).messagesArray = (ackEstablished c pkt).messagesArray := by
  have he : tcpRxSwitch c pkt = ackEstablished c pkt := by
    simp only [tcpRxSwitch, ha, hl, hs, hf, Bool.not_true, Bool.or_false, Bool.false_eq_true,
      if_false, if_true]
  have hst : (ackEstablished c pkt).tcb.state = .established := by
    simp only [ackEstablished, takeAck_state, hs]
  have hns : ¬ ((ackEstablished c pkt).tcb.state = .closed ∨
      (ackEstablished c pkt).tcb.state = .synSent) := by simp [hst]
  have hnw : ¬ ((ackEstablished c pkt).tcb.state = .finWait1 ∨
      (ackEstablished c pkt).tcb.state = .finWait2) := by simp [hst]
  rw [tcpRx, he]
  cases hfin : hasFlag pkt.tcp.hdr.flags tcpFin with
  | false =>
    rw [rxStep_iterate_plain rfl ht hns hfin]
    simp only [takeFin, hfin, if_false, Bool.false_eq_true, and_self]
  | true =>
    have hrest (d : Conn) (hx : d.rx = []) : rxStep^[5] d = d :=
      Function.iterate_fixed (rxStep_nil hx) 5
    rw [rxStep_iterate_textFree rfl ht]
    simp only [rxFin, hns, hfin, hnw, if_false, if_true, takeFin]
    rw [hrest _ rfl]
    exact ⟨rfl, rfl⟩

/-- In a window that does not wrap stop_retransmit goes by the distances from its start. -/
theorem stopEntry_of_window {self : Nat} (tcb : Tcb) {m : TcpMessage} {u v : UInt32}
    (hm : m.tcb = self) (hw : u ≤ v) (hack : tcb.sndUna - u ≤ v - u)
    (hrange : (m.tcpPtr.hdr.seqNum - u).toNat + m.tcpDataLen.toNat ≤ (v - u).toNat)
    (hb : m.tcpPtr.hdr.seqNum - u < tcb.sndUna - u →
      (m.tcpPtr.hdr.seqNum - u).toNat + m.tcpDataLen.toNat ≤ (tcb.sndUna - u).toNat) :
    stopEntry self tcb m =
      if m.tcpPtr.hdr.seqNum - u < tcb.sndUna - u then none else some m := by
  set seq := m.tcpPtr.hdr.seqNum with hseq
  have hsum : (seq + m.tcpDataLen - u).toNat = (seq - u).toNat + m.tcpDataLen.toNat := by
    have hcomm : seq + m.tcpDataLen - u = seq - u + m.tcpDataLen := by grind
    have hlt := (v - u).toNat_lt
    rw [hcomm, UInt32.toNat_add, Nat.mod_eq_of_lt]
    omega
  have hle : seq - u ≤ v - u := by
    rw [UInt32.le_iff_toNat_le]
    omega
  have hle' : seq + m.tcpDataLen - u ≤ v - u := by
    rw [UInt32.le_iff_toNat_le, hsum]
    exact hrange
  have hlt : seq < tcb.sndUna ↔ seq - u < tcb.sndUna - u := SeqWindow.lt_iff hw hle hack
  by_cases hin : seq - u < tcb.sndUna - u
  · have hcut : ¬ seq + m.tcpDataLen > tcb.sndUna := by
      rw [gt_iff_lt, SeqWindow.lt_iff hw hack hle', UInt32.lt_iff_toNat_lt, hsum]
      exact Nat.not_lt.mpr (hb hin)
    simp only [stopEntry, hm, ← hseq, hlt, hin, hcut, if_true, if_false]
  · simp only [stopEntry, hm, ← hseq, hlt, hin, if_true, if_false]

theorem shiftEntry_own {self : Nat} {m : TcpMessage} (k : UInt32) (hm : m.tcb = self) :
    shiftEntry self k m =
      { m with sub := shiftSegment k m.sub, tcpPtr := shiftSegment k m.tcpPtr } := by
  rw [shiftEntry, if_pos hm]

theorem shiftEntry_other {self : Nat} {m : TcpMessage} (k : UInt32) (hm : m.tcb ≠ self) :
    shiftEntry self k m = m := by
  rw [shiftEntry, if_neg hm]

/-- Where neither window wraps, stop_retransmit keeps and removes the same entries. -/
theorem stopEntry_shift {c : Conn} {ack k : UInt32} (h : EntriesInFlight c ack)
    (hw : c.tcb.sndUna ≤ c.tcb.sndNxt) (hw' : c.tcb.sndUna + k ≤ c.tcb.sndNxt + k)
    (hack : ack - c.tcb.sndUna ≤ c.tcb.sndNxt - c.tcb.sndUna) {m : TcpMessage}
    (hm : m ∈ c.messagesArray) :
    stopEntry c.self (shiftTcb k { c.tcb with sndUna := ack }) (shiftEntry c.self k m) =
      (stopEntry c.self { c.tcb with sndUna := ack } m).map (shiftEntry c.self k) := by
  by_cases hself : m.tcb = c.self
  · have hrange := h.range m hm hself
    have hb := h.boundary m hm hself
    have hplain := stopEntry_of_window { c.tcb with sndUna := ack } hself hw hack hrange hb
    set m' := shiftEntry c.self k m with hm'
    have hown : m' = { m with sub := shiftSegment k m.sub, tcpPtr := shiftSegment k m.tcpPtr } :=
      shiftEntry_own k hself
    have hself' : m'.tcb = c.self := by
      rw [hown]
      exact hself
    have hlen : m'.tcpDataLen = m.tcpDataLen := by rw [hown]
    have hseq : m'.tcpPtr.hdr.seqNum - (c.tcb.sndUna + k) = m.tcpPtr.hdr.seqNum - c.tcb.sndUna := by
      rw [hown]
      exact shift_distance _ _ k
    have hack' : (shiftTcb k { c.tcb with sndUna := ack }).sndUna - (c.tcb.sndUna + k) =
        ack - c.tcb.sndUna := shift_distance _ _ k
    have hend : c.tcb.sndNxt + k - (c.tcb.sndUna + k) = c.tcb.sndNxt - c.tcb.sndUna :=
      shift_distance _ _ k
    have hshift := stopEntry_of_window (shiftTcb k { c.tcb with sndUna := ack }) hself' hw'
      (by rw [hack', hend]; exact hack) (by rw [hseq, hlen, hend]; exact hrange)
      (by rw [hseq, hlen, hack']; exact hb)
    rw [hshift, hplain, hseq, hack']
    split_ifs <;> rfl
  · rw [shiftEntry_other k hself]
    simp [stopEntry, hself, shiftEntry_other k hself]

theorem stopRetransmit_shift {c : Conn} {ack k : UInt32} (h : EntriesInFlight c ack)
    (hw : c.tcb.sndUna ≤ c.tcb.sndNxt) (hw' : c.tcb.sndUna + k ≤ c.tcb.sndNxt + k)
    (hack : ack - c.tcb.sndUna ≤ c.tcb.sndNxt - c.tcb.sndUna) :
    stopRetransmit c.self (shiftTcb k { c.tcb with sndUna := ack })
        (c.messagesArray.map (shiftEntry c.self k)) =
      (stopRetransmit c.self { c.tcb with sndUna := ack } c.messagesArray).map
        (shiftEntry c.self k) := by
  rw [stopRetransmit, stopRetransmit, List.filterMap_map, List.map_filterMap]
  refine List.filterMap_congr ?_
  intro m hm
  exact stopEntry_shift h hw hw' hack hm

def AcksInFlight (tcb : Tcb) (ack : UInt32) : Prop :=
  0 < ack - tcb.sndUna ∧ ack - tcb.sndUna ≤ tcb.sndNxt - tcb.sndUna

theorem ackAdvances_iff (tcb : Tcb) (h : TcpHdr) :
    ackAdvances tcb h = true ↔ tcb.sndUna ≤ tcb.sndNxt ∧ AcksInFlight tcb h.ackNum := by
  rw [ackAdvances, Bool.and_eq_true, decide_eq_true_eq, decide_eq_true_eq]
  exact SeqWindow.mem_iff

theorem ackAdvances_shift {k : UInt32} {tcb : Tcb} {h h' : TcpHdr}
    (hack : h'.ackNum = h.ackNum + k) :
    ackAdvances (shiftTcb k tcb) h' = true ↔
      tcb.sndUna + k ≤ tcb.sndNxt + k ∧ AcksInFlight tcb h.ackNum := by
  have hd (x : UInt32) : x + k - (tcb.sndUna + k) = x - tcb.sndUna := shift_distance x tcb.sndUna k
  rw [ackAdvances_iff]
  simp only [AcksInFlight, shiftTcb, hack, hd]

theorem takeFin_shift (k : UInt32) (tcb : Tcb) {h h' : TcpHdr} (hf : h'.flags = h.flags) :
    takeFin (shiftTcb k tcb) h' = shiftTcb k (takeFin tcb h) := by
  unfold takeFin
  rw [hf]
  split_ifs <;> rfl

/-- The two runs come down to the two outcomes of the switch. -/
theorem shiftsAlike_iff {k : UInt32} {c : Conn} {pkt pkt' : Packet}
    (hs : c.tcb.state = .established) (hl : c.tcbLock = false) (hp : ShiftedAck k c.tcb pkt pkt') :
    ShiftsAlike k c pkt pkt' ↔
      takeFin (ackEstablished (shiftConn k c) pkt').tcb pkt'.tcp.hdr =
          shiftTcb k (takeFin (ackEstablished c pkt).tcb pkt.tcp.hdr) ∧
        (ackEstablished (shiftConn k c) pkt').messagesArray =
          (ackEstablished c pkt).messagesArray.map (shiftEntry c.self k) := by
  have h1 := tcpRx_ack hs hl hp.accepted hp.ack hp.text
  have h2 := tcpRx_ack (c := shiftConn k c) hs hl hp.accepted' (hp.flags ▸ hp.ack) hp.text'
  rw [ShiftsAlike, h1.1, h1.2, h2.1, h2.2]

theorem takeFin_sndUna (tcb : Tcb) (h : TcpHdr) : (takeFin tcb h).sndUna = tcb.sndUna := by
  unfold takeFin
  split_ifs <;> rfl

theorem ackEstablished_sndUna (c : Conn) (pkt : Packet) :
    (ackEstablished c pkt).tcb.sndUna =
      if ackAdvances c.tcb pkt.tcp.hdr then pkt.tcp.hdr.ackNum else c.tcb.sndUna := by
  simp only [ackEstablished, takeAck]
  split_ifs <;> rfl

theorem ackEstablished_taken {c : Conn} {pkt : Packet} (h : ackAdvances c.tcb pkt.tcp.hdr = true) :
    (ackEstablished c pkt).tcb =
        { c.tcb with sndUna := pkt.tcp.hdr.ackNum, sndWnd := pkt.tcp.hdr.windowSize.toUInt32 } ∧
      (ackEstablished c pkt).messagesArray =
        stopRetransmit c.self { c.tcb with sndUna := pkt.tcp.hdr.ackNum } c.messagesArray := by
  simp only [ackEstablished, takeAck, h, if_true, and_self]

theorem ackEstablished_ignored {c : Conn} {pkt : Packet}
    (h : ¬ ackAdvances c.tcb pkt.tcp.hdr = true) :
    (ackEstablished c pkt).tcb = { c.tcb with sndWnd := pkt.tcp.hdr.windowSize.toUInt32 } ∧
      (ackEstablished c pkt).messagesArray = c.messagesArray := by
  simp only [ackEstablished, takeAck, h, if_false, Bool.false_eq_true, and_self]

/-- Both runs take the acknowledgement, or neither does. -/
theorem shiftsAlike_of_same {k : UInt32} {c : Conn} {pkt pkt' : Packet}
    (hs : c.tcb.state = .established) (hl : c.tcbLock = false) (hp : ShiftedAck k c.tcb pkt pkt')
    (he : EntriesInFlight c pkt.tcp.hdr.ackNum)
    (hsame : ackAdvances (shiftTcb k c.tcb) pkt'.tcp.hdr = true ↔
      ackAdvances c.tcb pkt.tcp.hdr = true) : ShiftsAlike k c pkt pkt' := by
  rw [shiftsAlike_iff hs hl hp]
  by_cases hadv : ackAdvances c.tcb pkt.tcp.hdr = true
  · have hadv' : ackAdvances (shiftConn k c).tcb pkt'.tcp.hdr = true := hsame.mpr hadv
    obtain ⟨ht, hq⟩ := ackEstablished_taken hadv
    obtain ⟨ht', hq'⟩ := ackEstablished_taken hadv'
    obtain ⟨hw, hin⟩ := (ackAdvances_iff c.tcb pkt.tcp.hdr).mp hadv
    have hw' := ((ackAdvances_shift hp.ackNum).mp hadv').1
    have htcb : (ackEstablished (shiftConn k c) pkt').tcb =
        shiftTcb k (ackEstablished c pkt).tcb := by
      rw [ht, ht', hp.ackNum, hp.window]
      rfl
    refine ⟨?_, ?_⟩
    · rw [htcb]
      exact takeFin_shift k _ hp.flags
    · rw [hq, hq', hp.ackNum]
      exact stopRetransmit_shift he hw hw' hin.2
  · have hadv' : ¬ ackAdvances (shiftConn k c).tcb pkt'.tcp.hdr = true := fun h => hadv (hsame.mp h)
    obtain ⟨ht, hq⟩ := ackEstablished_ignored hadv
    obtain ⟨ht', hq'⟩ := ackEstablished_ignored hadv'
    have htcb : (ackEstablished (shiftConn k c) pkt').tcb =
        shiftTcb k (ackEstablished c pkt).tcb := by
      rw [ht, ht', hp.window]
      rfl
    refine ⟨?_, ?_⟩
    · rw [htcb]
      exact takeFin_shift k _ hp.flags
    · rw [hq, hq']
      rfl

theorem sequence_shift (k : UInt32) (c : Conn) (pkt pkt' : Packet) (hs : c.tcb.state = .established)
    (hl : c.tcbLock = false) (hp : ShiftedAck k c.tcb pkt pkt')
    (he : EntriesInFlight c pkt.tcp.hdr.ackNum) :
    ShiftsAlike k c pkt pkt' ↔
      ¬ AcksInFlight c.tcb pkt.tcp.hdr.ackNum ∨
        (c.tcb.sndUna ≤ c.tcb.sndNxt ↔ c.tcb.sndUna + k ≤ c.tcb.sndNxt + k) := by
  have hadv := ackAdvances_iff c.tcb pkt.tcp.hdr
  have hadv' : ackAdvances (shiftTcb k c.tcb) pkt'.tcp.hdr = true ↔ _ := ackAdvances_shift hp.ackNum
  constructor
  · intro halike
    by_cases hin : AcksInFlight c.tcb pkt.tcp.hdr.ackNum
    · right
      -- snd_una alone tells whether the acknowledgement was taken
      have huna : (ackEstablished (shiftConn k c) pkt').tcb.sndUna =
          (ackEstablished c pkt).tcb.sndUna + k := by
        have htcb := congrArg Tcb.sndUna ((shiftsAlike_iff hs hl hp).mp halike).1
        rw [takeFin_sndUna] at htcb
        rw [htcb, ← takeFin_sndUna (ackEstablished c pkt).tcb pkt.tcp.hdr]
        rfl
      have hne : c.tcb.sndUna ≠ pkt.tcp.hdr.ackNum := by
        intro heq
        have hpos := hin.1
        rw [← heq, UInt32.sub_self] at hpos
        exact absurd hpos (by decide)
      have hb : (shiftConn k c).tcb.sndUna = c.tcb.sndUna + k := rfl
      have hiff : ackAdvances c.tcb pkt.tcp.hdr = true ↔
          ackAdvances (shiftConn k c).tcb pkt'.tcp.hdr = true := by
        rw [ackEstablished_sndUna, ackEstablished_sndUna, hp.ackNum, hb] at huna
        split_ifs at huna with h1 h2 h2
        · exact ⟨fun _ => h1, fun _ => h2⟩
        · exact absurd (shift_inj.mp huna).symm hne
        · exact absurd (shift_inj.mp huna) hne
        · exact ⟨fun h => absurd h h2, fun h => absurd h h1⟩
      have hiff' : (c.tcb.sndUna ≤ c.tcb.sndNxt ∧ AcksInFlight c.tcb pkt.tcp.hdr.ackNum) ↔
          (c.tcb.sndUna + k ≤ c.tcb.sndNxt + k ∧ AcksInFlight c.tcb pkt.tcp.hdr.ackNum) :=
        hadv.symm.trans (hiff.trans hadv')
      exact ⟨fun h => (hiff'.mp ⟨h, hin⟩).1, fun h => (hiff'.mpr ⟨h, hin⟩).1⟩
    · exact Or.inl hin
  · intro hcond
    refine shiftsAlike_of_same hs hl hp he ?_
    rw [hadv, hadv']
    cases hcond with
    | inl hout => exact ⟨fun h => absurd h.2 hout, fun h => absurd h.2 hout⟩
    | inr hw => rw [hw]

def sampleFlight : Conn := Runs.run step (sampleOpen 1000 1000) [.send [1, 2], .sendRound 0 true]

theorem sampleFlight_entries : EntriesInFlight sampleFlight 1003 where
  range := by decide +kernel
  boundary := by decide +kernel

theorem sampleFlight_ack (k : UInt32) (hk : 1003 + k = 1 ∨ 1003 + k = 1008) :
    ShiftedAck k sampleFlight.tcb (samplePeer 5001 1003 tcpAck 1000 [])
      (samplePeer 5001 (1003 + k) tcpAck 1000 []) := by
  cases hk with
  | inl hk =>
    rw [hk]
    exact ⟨by decide +kernel, by decide +kernel, by decide +kernel, by decide +kernel,
      by decide +kernel, by decide +kernel, by decide +kernel, hk.symm⟩
  | inr hk =>
    rw [hk]
    exact ⟨by decide +kernel, by decide +kernel, by decide +kernel, by decide +kernel,
      by decide +kernel, by decide +kernel, by decide +kernel, hk.symm⟩

/-- The shift by 2^32-1002 puts the wrap between the two bytes: the acknowledgement of
both is taken before the shift and ignored after it. -/
theorem sequence_shift_wrap :
    (sampleFlight.tcb.sndNxt - sampleFlight.tcb.sndUna).toNat < 2 ^ 31 ∧
      sampleFlight.tcb.state = .established ∧
      ShiftedAck 4294966294 sampleFlight.tcb (samplePeer 5001 1003 tcpAck 1000 [])
        (samplePeer 5001 1 tcpAck 1000 []) ∧
      EntriesInFlight sampleFlight 1003 ∧
      ¬ ShiftsAlike 4294966294 sampleFlight (samplePeer 5001 1003 tcpAck 1000 [])
        (samplePeer 5001 1 tcpAck 1000 []) := by
  refine ⟨by decide +kernel, by decide +kernel, sampleFlight_ack 4294966294 (Or.inl rfl),
    sampleFlight_entries, ?_⟩
  intro halike
  have huna := congrArg Tcb.sndUna halike.1
  exact absurd huna (by decide +kernel)

theorem sequence_shift_small :
    ShiftsAlike 5 sampleFlight (samplePeer 5001 1003 tcpAck 1000 [])
      (samplePeer 5001 1008 tcpAck 1000 []) :=
  (sequence_shift 5 sampleFlight _ _ (by decide +kernel) (by decide +kernel)
    (sampleFlight_ack 5 (Or.inr rfl)) sampleFlight_entries).mpr (Or.inr (by decide +kernel))

end AnpNetstack
