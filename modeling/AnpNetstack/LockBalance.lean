import AnpNetstack.LockPrograms

/-! Which calls give back all the mutexes they take. tcp_rx unlocks what it never locked
when it drops a segment before it has a block, and returns with tcb_lock held when it takes
a FIN in ESTABLISHED; close does the latter when the state is not ESTABLISHED. -/
namespace AnpNetstack
open LockTrace

theorem addMsgToArrOps_neutral (alloc : Bool) : Neutral Mutex.rank 3 (addMsgToArrOps alloc) := by
  cases alloc with
  | false => exact Neutral.nil
  | true => exact Neutral.critical (m := Mutex.msgArrLock) Neutral.nil

theorem stopRetransmitOps_neutral : Neutral Mutex.rank 3 stopRetransmitOps :=
  Neutral.critical (m := Mutex.msgArrLock) Neutral.nil

theorem tcpTxEmptyOps_neutral (b : Nat) (alloc : Bool) :
    Neutral Mutex.rank 2 (tcpTxEmptyOps b alloc) :=
  Neutral.critical (m := Mutex.sendLock b) (addMsgToArrOps_neutral alloc)

theorem TcpTxOps.neutral {b : Nat} {dataSize : UInt32} {flags : UInt8} {sent : UInt32} {ops : Ops}
    (h : TcpTxOps b dataSize flags sent ops) : Neutral Mutex.rank 2 ops := by
  induction h with
  | past h => exact Neutral.nil
  | last seen alloc hle h => exact tcpTxEmptyOps_neutral b alloc
  | more seen alloc hle h rest ih =>
    exact (Neutral.section (m := Mutex.sendLock b) (addMsgToArrOps_neutral alloc) _).append ih

theorem isAnpSockfdOps_neutral : Neutral Mutex.rank 0 isAnpSockfdOps :=
  Neutral.critical (m := Mutex.fdLock) Neutral.nil

/-- The exit of get_port with port_lock held is never taken. -/
theorem getPortOps_neutral (p : UInt16) : Neutral Mutex.rank 0 (getPortOps p) := by
  have hle : ¬ p.toUInt32 > portsEnding := not_exhausted p
  rw [getPortOps, if_neg hle]
  exact Neutral.critical (m := Mutex.portLock) Neutral.nil

theorem readBytesOps_neutral (b : Nat) (empty : Bool) :
    Neutral Mutex.rank 1 (readBytesOps b empty) :=
  Neutral.section (m := Mutex.tcbLock b) Neutral.nil empty

theorem closeConnectionOps_neutral (b : Nat) : Neutral Mutex.rank 1 (closeConnectionOps b) :=
  Neutral.critical (m := Mutex.tcbLock b) (stopRetransmitOps_neutral.mono (by simp [Mutex.rank]))

theorem connectBlockOps_neutral {b : Nat} {tx : Ops} (h : Neutral Mutex.rank 2 tx) :
    Neutral Mutex.rank 1 (connectBlockOps b tx) := by
  have hbody := Neutral.section (m := Mutex.tcbLock b) h true
  intro held hheld
  have ht : Mutex.tcbLock b ∉ held := not_mem_of_rank hheld
  have hs : Mutex.sendLock b ∉ held := fun hm => absurd (hheld _ hm) (by simp [Mutex.rank])
  have hb := hbody held hheld
  rw [if_pos rfl] at hb
  simp only [connectBlockOps, List.cons_append, List.nil_append, List.append_assoc, exec, Ordered,
    List.erase_of_not_mem ht, List.erase_of_not_mem hs] at hb ⊢
  exact hb

theorem closeBlockOps_neutral {b : Nat} {seen : Tcb} {tx : Ops} (h : Neutral Mutex.rank 2 tx)
    (hs : seen.state = .established) : Neutral Mutex.rank 1 (closeBlockOps b seen tx) := by
  have hbody := Neutral.section (m := Mutex.tcbLock b) h true
  rw [closeBlockOps, if_neg (not_not_intro hs)]
  exact hbody

/-- The FIN bit is reached in ESTABLISHED, where nothing gives tcb_lock up. -/
def KeepsTcbLock (tcb : Tcb) (pkt : Packet) : Prop :=
  hasFlag pkt.tcp.hdr.flags tcpAck = true ∧ hasFlag pkt.tcp.hdr.flags tcpFin = true ∧
    (tcb.state = .established ∨ tcb.state = .synReceived ∧ ackAdvances tcb pkt.tcp.hdr = true) ∧
    (segmentLen pkt = 0 ∨ pkt.tcp.hdr.seqNum = tcb.rcvNxt)

instance (tcb : Tcb) (pkt : Packet) : Decidable (KeepsTcbLock tcb pkt) :=
  inferInstanceAs (Decidable (_ ∧ _ ∧ _ ∧ _))

def Ends (b : Nat) (kept : Prop) [Decidable kept] (ops : Ops) : Prop :=
  ∃ inner, Neutral Mutex.rank 2 inner ∧ ops = inner ++ if kept then [] else [.unlock (.tcbLock b)]

theorem Ends.prepend {b : Nat} {kept : Prop} [Decidable kept] {a ops : Ops} (h : Ends b kept ops)
    (ha : Neutral Mutex.rank 2 a) : Ends b kept (a ++ ops) := by
  obtain ⟨inner, hi, rfl⟩ := h
  exact ⟨a ++ inner, ha.append hi, (List.append_assoc ..).symm⟩

theorem dropPktOps_sent (b : Nat) :
    dropPktOps { tcb := b, unlockedTcb := false, unlockedSend := true } = [.unlock (.tcbLock b)] :=
  rfl

theorem dropPktOps_both (b : Nat) :
    dropPktOps { tcb := b, unlockedTcb := false, unlockedSend := false } =
      [.unlock (.tcbLock b), .unlock (.sendLock b)] := rfl

def finReleases (s : TcpState) : Bool :=
  s == .closed || s == .synSent || s == .finWait1 || s == .finWait2

theorem finOps_ends (alloc : Bool) (b : Nat) (tcb : Tcb) (pkt : Packet) :
    Ends b (hasFlag pkt.tcp.hdr.flags tcpFin = true ∧ finReleases tcb.state = false)
      (finOps alloc b tcb pkt) := by
  unfold finOps
  rw [dropPktOps_sent]
  by_cases hs : tcb.state = .closed ∨ tcb.state = .synSent
  · refine ⟨[], Neutral.nil, ?_⟩
    have hr : finReleases tcb.state = true := by
      cases hs with
      | inl hs => simp [finReleases, hs]
      | inr hs => simp [finReleases, hs]
    simp [hs, hr]
  · by_cases hf : hasFlag pkt.tcp.hdr.flags tcpFin = true
    · by_cases hw : tcb.state = .finWait1 ∨ tcb.state = .finWait2
      · refine ⟨tcpTxEmptyOps b alloc, tcpTxEmptyOps_neutral b alloc, ?_⟩
        have hr : finReleases tcb.state = true := by
          cases hw with
          | inl hs => simp [finReleases, hs]
          | inr hs => simp [finReleases, hs]
        simp [hs, hf, hw, hr]
      · refine ⟨[], Neutral.nil, ?_⟩
        have hr : finReleases tcb.state = false := by
          simp only [not_or] at hs hw
          simp [finReleases, hs, hw]
        simp [hs, hf, hw, hr]
    · refine ⟨[], Neutral.nil, ?_⟩
      simp [hs, hf]

theorem textOps_ends (alloc : Nat → Bool) (b : Nat) (tcb : Tcb) (pkt : Packet) :
    Ends b (hasFlag pkt.tcp.hdr.flags tcpFin = true ∧ finReleases tcb.state = false ∧
        (segmentLen pkt = 0 ∨ pkt.tcp.hdr.seqNum = tcb.rcvNxt)) (textOps alloc b tcb pkt) := by
  have hfin := finOps_ends (alloc 2) b tcb pkt
  unfold textOps
  rw [dropPktOps_sent]
  by_cases hz : segmentLen pkt = 0
  · simp only [hz, ne_eq, not_true_eq_false, if_false, true_or, and_true]
    exact hfin
  · by_cases hseq : pkt.tcp.hdr.seqNum = tcb.rcvNxt
    · simp only [hz, hseq, ne_eq, not_true_eq_false, not_false_eq_true, if_true, if_false,
        or_true, and_true]
      refine hfin.prepend ?_
      split_ifs
      · exact tcpTxEmptyOps_neutral b (alloc 1)
      · exact Neutral.nil
    · exact ⟨[], Neutral.nil, by simp [hz, hseq]⟩

/-- What tcp_rx does once it has found a block: it drops the segment, or it works under
tcb_lock and gives it up at the end, or not. -/
theorem switchOps_cases (alloc : Nat → Bool) (b : Nat) (tcb : Tcb) (pkt : Packet) :
    (switchOps alloc b tcb pkt = [.unlock (.tcbLock b), .unlock (.sendLock b)] ∧
      ¬ KeepsTcbLock tcb pkt) ∨
    ∃ a ops, Neutral Mutex.rank 3 a ∧ Ends b (KeepsTcbLock tcb pkt) ops ∧
      switchOps alloc b tcb pkt = a ++ [Op.unlock (.sendLock b)] ++ ops := by
  have hstop : Neutral Mutex.rank 3 stopRetransmitOps := stopRetransmitOps_neutral
  have htx := tcpTxEmptyOps_neutral b (alloc 0)
  unfold switchOps
  rw [dropPktOps_both]
  dsimp only
  by_cases hclosed : tcb.state = .closed
  · exact Or.inl ⟨if_pos hclosed, by simp [KeepsTcbLock, hclosed]⟩
  rw [if_neg hclosed]
  by_cases hsent : tcb.state = .synSent
  · have hkeep : ¬ KeepsTcbLock tcb pkt := by simp [KeepsTcbLock, hsent]
    rw [if_pos hsent]
    split_ifs with hf
    · refine Or.inr ⟨stopRetransmitOps, tcpTxEmptyOps b (alloc 0) ++ [.unlock (.tcbLock b)],
        hstop, ?_, ?_⟩
      · exact ⟨tcpTxEmptyOps b (alloc 0), htx, by simp [hkeep]⟩
      · simp
    · exact Or.inl ⟨rfl, hkeep⟩
  rw [if_neg hsent]
  by_cases hack : hasFlag pkt.tcp.hdr.flags tcpAck = true
  · have hnot : ¬ hasFlag pkt.tcp.hdr.flags tcpAck = false := by simp [hack]
    rw [if_neg hnot]
    split
    · next hs =>
      split_ifs with ha
      · refine Or.inr ⟨stopRetransmitOps, tcpTxEmptyOps b (alloc 0) ++
          textOps alloc b { tcb with state := .established } pkt, hstop, ?_, by simp⟩
        refine Ends.prepend ?_ htx
        have hend := textOps_ends alloc b { tcb with state := .established } pkt
        simpa [KeepsTcbLock, hack, hs, ha, finReleases] using hend
      · exact Or.inl ⟨rfl, by simp [KeepsTcbLock, hs, ha]⟩
    · next hs =>
      refine Or.inr ⟨if ackAdvances tcb pkt.tcp.hdr then stopRetransmitOps else [],
        textOps alloc b (takeAck tcb pkt.tcp.hdr) pkt, ?_, ?_, rfl⟩
      · split_ifs
        · exact hstop
        · exact Neutral.nil
      · have hend := textOps_ends alloc b (takeAck tcb pkt.tcp.hdr) pkt
        simpa [KeepsTcbLock, hack, hs, takeAck_state, takeAck_rcvNxt, finReleases] using hend
    · next hs =>
      refine Or.inr ⟨[], textOps alloc b { tcb with state := .finWait2 } pkt, Neutral.nil, ?_, rfl⟩
      have hend := textOps_ends alloc b { tcb with state := .finWait2 } pkt
      simpa [KeepsTcbLock, hs, finReleases] using hend
    · next hr he hw => exact Or.inl ⟨rfl, by simp [KeepsTcbLock]; tauto⟩
  · exact Or.inl ⟨if_pos (Bool.not_eq_true _ ▸ hack), by simp [KeepsTcbLock, hack]⟩

theorem rxBlockOps_neutral (alloc : Nat → Bool) (b : Nat) {tcb : Tcb} {pkt : Packet}
    (h : ¬ KeepsTcbLock tcb pkt) :
    Neutral Mutex.rank 1 ([Op.lock (.tcbLock b),
      .lock (.sendLock b)] ++ switchOps alloc b tcb pkt) := by
  obtain ⟨he, -⟩ | ⟨a, ops, ha, ⟨inner, hi, hops⟩, he⟩ := switchOps_cases alloc b tcb pkt
  · rw [he]
    have hlt : (Mutex.tcbLock b).rank < (Mutex.sendLock b).rank := by simp [Mutex.rank]
    exact Neutral.crossed hlt
  · have hsend := Neutral.critical (m := Mutex.sendLock b) ha
    have hall : Neutral Mutex.rank 1 _ := Neutral.critical (m := Mutex.tcbLock b) (hsend.append hi)
    rw [he, hops, if_neg h]
    simpa using hall

theorem rxBlockOps_kept (alloc : Nat → Bool) (b : Nat) {tcb : Tcb} {pkt : Packet}
    (h : KeepsTcbLock tcb pkt) :
    let ops := [Op.lock (.tcbLock b), .lock (.sendLock b)] ++ switchOps alloc b tcb pkt
    exec [] ops = some [.tcbLock b] ∧ Ordered Mutex.rank [] ops := by
  intro ops
  obtain ⟨-, hn⟩ | ⟨a, rest, ha, ⟨inner, hi, hrest⟩, he⟩ := switchOps_cases alloc b tcb pkt
  · exact absurd h hn
  · have hsend := Neutral.critical (m := Mutex.sendLock b) ha
    have hin := hsend.append hi
    have hops : ops = Op.lock (.tcbLock b) ::
        ((Op.lock (.sendLock b) :: a ++ [Op.unlock (.sendLock b)]) ++ inner) := by
      simp only [ops]
      rw [he, hrest, if_pos h]
      simp
    rw [hops]
    exact ⟨exec_kept (m := Mutex.tcbLock b) hin (by simp),
      ordered_kept (m := Mutex.tcbLock b) hin (by simp)⟩

def Clean : Call → Prop
  | .tcpRx cache seen pkt => tooShort pkt = false ∧ csumValid pkt = true ∧
      (lookup cache pkt).isSome = true ∧ ¬ KeepsTcbLock seen pkt
  | .close t fd seen => ∀ b, withConnInfo t fd = .conn b → seen.state = .established
  | _ => True

theorem tcpRxOps_found {alloc : Nat → Bool} {stale : RxLocals} {found : Option Nat} {seen : Tcb}
    {pkt : Packet} (hs : tooShort pkt = false) (hc : csumValid pkt = true) {b : Nat}
    (hf : found = some b) :
    tcpRxOps alloc stale found seen pkt =
      [Op.lock (.tcbLock b), .lock (.sendLock b)] ++ switchOps alloc b seen pkt := by
  simp [tcpRxOps, hs, hc, hf]

/-- A call that is clean gives everything back, on every trace. -/
theorem Traces.neutral {call : Call} {ops : Ops} (h : Traces call ops) (hclean : Clean call)
    (hr : ∀ msgs, call ≠ .retransmit msgs) : Neutral Mutex.rank 0 ops := by
  have hfd := isAnpSockfdOps_neutral
  have h01 {ops : Ops} (h : Neutral Mutex.rank 1 ops) : Neutral Mutex.rank 0 ops := h.mono (by simp)
  cases h with
  | tcpRx cache seen pkt alloc stale =>
    obtain ⟨hs, hc, hl, hk⟩ := hclean
    obtain ⟨b, hb⟩ := Option.isSome_iff_exists.mp hl
    rw [tcpRxOps_found hs hc hb]
    exact h01 (rxBlockOps_neutral alloc b hk)
  | connectLibc h => exact hfd
  | connectNoSocket h => exact hfd
  | connectNoMemory h => exact hfd.append hfd
  | connectNoRoute p h hr => exact hfd.append (getPortOps_neutral p)
  | connect p h hr htx =>
    exact (hfd.append (getPortOps_neutral p)).append (h01 (connectBlockOps_neutral htx.neutral))
  | sendFails h => exact hfd
  | send h hs htx => exact hfd.append (htx.neutral.mono (by simp))
  | recvFails h => exact hfd
  | recv h => exact hfd.append (h01 (readBytesOps_neutral _ _))
  | closeFails h => exact hfd
  | close h htx => exact hfd.append (h01 (closeBlockOps_neutral htx.neutral (hclean _ h)))
  | closeConnection b => exact h01 (closeConnectionOps_neutral b)
  | retransmit msgs => exact absurd rfl (hr msgs)

theorem tcpTxEmptyOps_trace (b : Nat) (flags : UInt8) (alloc : Bool) (seen : Tcb) :
    TcpTxOps b 0 flags 0 (tcpTxEmptyOps b alloc) :=
  .last seen alloc (UInt32.le_refl 0) (by rw [nxtSegSize_self, UInt32.add_zero])

theorem not_givesBack_close {t : Table} {fd : Int} {seen : Tcb} {b : Nat}
    (h : withConnInfo t fd = .conn b) (hs : seen.state ≠ .established) :
    ∃ ops, Traces (.close t fd seen) ops ∧ ¬ GivesBack ops := by
  refine ⟨_, .close h (tcpTxEmptyOps_trace b tcpFinAck true seen), ?_⟩
  rw [closeBlockOps, if_pos hs]
  simp [GivesBack, isAnpSockfdOps, exec]

/-- drop_pkt before there is a block gives up mutexes that are not held. -/
theorem not_givesBack_drop (b : Nat) :
    ¬ GivesBack (dropPktOps { tcb := b, unlockedTcb := false, unlockedSend := false }) := by
  simp [GivesBack, dropPktOps, exec]

theorem not_givesBack_tcpRx {cache : List (Nat × Tcb)} {seen : Tcb} {pkt : Packet}
    (h : ¬ Clean (.tcpRx cache seen pkt)) :
    ∃ ops, Traces (.tcpRx cache seen pkt) ops ∧ ¬ GivesBack ops := by
  let stale : RxLocals := { tcb := 0, unlockedTcb := false, unlockedSend := false }
  refine ⟨_, .tcpRx cache seen pkt (fun _ => true) stale, ?_⟩
  cases hs : tooShort pkt with
  | true =>
    simp only [tcpRxOps, hs, if_true]
    exact not_givesBack_drop 0
  | false =>
    cases hc : csumValid pkt with
    | false =>
      simp only [tcpRxOps, hs, hc, Bool.not_false, if_true, if_false, Bool.false_eq_true]
      exact not_givesBack_drop 0
    | true =>
      cases hl : lookup cache pkt with
      | none =>
        simp only [tcpRxOps, hs, hc, Bool.not_true, if_false, Bool.false_eq_true]
        exact not_givesBack_drop 0
      | some b =>
        have hk : KeepsTcbLock seen pkt := by
          by_contra hn
          exact h ⟨hs, hc, by simp [hl], hn⟩
        rw [tcpRxOps_found hs hc rfl, GivesBack, (rxBlockOps_kept _ b hk).1]
        simp

/-- A pass takes tcb_lock under msg_arr_lock where retries run out, and gives it back. -/
theorem exec_retransmitEntryOps (entry : TcpMessage) :
    exec [.msgArrLock] (retransmitEntryOps entry) = some [.msgArrLock] := by
  unfold retransmitEntryOps
  split_ifs <;> simp [exec]

theorem retransmitOps_givesBack (msgs : List TcpMessage) : GivesBack (retransmitOps msgs) := by
  have hpass : exec [.msgArrLock] (msgs.flatMap retransmitEntryOps) = some [.msgArrLock] := by
    induction msgs with
    | nil => rfl
    | cons entry msgs ih =>
      rw [List.flatMap_cons, exec_append, exec_retransmitEntryOps, Option.bind_some, ih]
  rw [GivesBack, retransmitOps, List.cons_append, exec, if_neg (by simp), exec_append, hpass]
  simp [exec]

theorem lock_balance (call : Call) : (∀ ops, Traces call ops → GivesBack ops) ↔ Clean call := by
  constructor
  · intro h
    cases call with
    | tcpRx cache seen pkt =>
      by_contra hn
      obtain ⟨ops, ht, hb⟩ := not_givesBack_tcpRx hn
      exact hb (h ops ht)
    | close t fd seen =>
      intro b hb
      by_contra hs
      obtain ⟨ops, ht, hnb⟩ := not_givesBack_close hb hs
      exact hnb (h ops ht)
    | _ => trivial
  · intro hclean ops ht
    by_cases hr : ∃ msgs, call = .retransmit msgs
    · obtain ⟨msgs, rfl⟩ := hr
      cases ht with
      | retransmit msgs => exact retransmitOps_givesBack msgs
    · exact (ht.neutral hclean (fun msgs he => hr ⟨msgs, he⟩)).givesBack

/-- A FIN in ESTABLISHED leaves tcb_lock held for good, and a segment for no connection
makes tcp_rx give up the mutexes of a block that is not there. -/
theorem lock_not_given_back :
    let tcb := (sampleOpen 1000 1000).tcb
    let pkt := samplePeer 5001 1001 tcpFinAck 1000 []
    (∃ ops, Traces (.tcpRx [(1, tcb)] tcb pkt) ops ∧ exec [] ops = some [.tcbLock 1]) ∧
      Traces (.tcpRx [] tcb pkt) [.unlock (.tcbLock 0), .unlock (.sendLock 0)] := by
  intro tcb pkt
  let stale : RxLocals := { tcb := 0, unlockedTcb := true, unlockedSend := true }
  refine ⟨⟨_, .tcpRx _ _ _ (fun _ => true) stale, ?_⟩, ?_⟩
  · decide +kernel
  · have he : tcpRxOps (fun _ => true) stale (lookup [] pkt) tcb pkt =
        [.unlock (.tcbLock 0), .unlock (.sendLock 0)] := by decide +kernel
    exact he ▸ .tcpRx [] tcb pkt (fun _ => true) stale

end AnpNetstack
