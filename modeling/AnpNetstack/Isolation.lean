import AnpNetstack.Stack

/-! tcp_rx leaves the other connections alone, except for what drop_pkt does through a pointer it
has never set: it may unlock a mutex of any block or end the process, as it does through NULL. -/
namespace AnpNetstack

/-- Everything but the block `sel` and its entries is as it was; without a block, everything. -/
structure OthersKept (sel : Option Nat) (s s' : Stack) : Prop where
  blocks : ∀ b, sel ≠ some b → s'.blocks b = s.blocks b
  entries : s'.messagesArray.filter (fun m => sel ≠ some m.tcb) =
    s.messagesArray.filter (fun m => sel ≠ some m.tcb)

/-- drop_pkt, run with these local variables, follows no pointer, or it follows one to a block of
which it unlocks no mutex that is held. -/
def Harmless (s : Stack) (l : RxLocals) : Prop :=
  (l.unlockedTcb = true ∧ l.unlockedSend = true) ∨
    ∃ blk, s.blocks l.tcb = some blk ∧
      (l.unlockedTcb = false → blk.tcbLock = false) ∧
        (l.unlockedSend = false → blk.sendLock = false)

section DropPkt
variable {s : Stack} {l : RxLocals}

theorem dropPkt_untouched (htcb : l.unlockedTcb = true) (hsend : l.unlockedSend = true) :
    s.dropPkt l = .ok s := by
  simp [Stack.dropPkt, htcb, hsend, Except.bind]

/-- Through a pointer that is no block drop_pkt ends the process, unless it has nothing to
unlock. -/
theorem dropPkt_fault (hblk : s.blocks l.tcb = none)
    (hl : ¬ (l.unlockedTcb = true ∧ l.unlockedSend = true)) : s.dropPkt l = .error l.tcb := by
  cases htcb : l.unlockedTcb with
  | false => simp [Stack.dropPkt, Stack.unlockTcb, Stack.unlock, htcb, hblk, Except.bind]
  | true =>
    cases hsend : l.unlockedSend with
    | false => simp [Stack.dropPkt, Stack.unlockSend, Stack.unlock, htcb, hsend, hblk, Except.bind]
    | true => exact absurd ⟨htcb, hsend⟩ hl

theorem dropPkt_block {blk : Block} (hblk : s.blocks l.tcb = some blk) :
    ∃ s', s.dropPkt l = .ok s' ∧ s'.messagesArray = s.messagesArray ∧
      (∀ b, b ≠ l.tcb → s'.blocks b = s.blocks b) ∧
      s'.blocks l.tcb = some { blk with
        tcbLock := blk.tcbLock && l.unlockedTcb, sendLock := blk.sendLock && l.unlockedSend } := by
  cases htcb : l.unlockedTcb <;> cases hsend : l.unlockedSend <;>
    simp +contextual [Stack.dropPkt, Stack.unlockTcb, Stack.unlockSend, Stack.unlock, Stack.modify,
      htcb, hsend, hblk, Except.bind]

theorem harmless_block {blk : Block} (hblk : s.blocks l.tcb = some blk) :
    Harmless s l ↔
      (l.unlockedTcb = false → blk.tcbLock = false) ∧
        (l.unlockedSend = false → blk.sendLock = false) := by
  rw [Harmless]
  constructor
  · rintro (⟨htcb, hsend⟩ | ⟨blk', hblk', h⟩)
    · simp [htcb, hsend]
    · obtain rfl : blk' = blk := Option.some.inj (hblk'.symm.trans hblk)
      exact h
  · exact fun h => .inr ⟨blk, hblk, h⟩

theorem dropPkt_harmless :
    (∃ s', s.dropPkt l = .ok s' ∧ s'.blocks l.tcb = s.blocks l.tcb) ↔ Harmless s l := by
  cases hblk : s.blocks l.tcb with
  | none =>
    by_cases hl : l.unlockedTcb = true ∧ l.unlockedSend = true
    · exact iff_of_true ⟨s, dropPkt_untouched hl.1 hl.2, hblk⟩ (.inl hl)
    · refine iff_of_false ?_ ?_
      · rintro ⟨s', hs', -⟩
        rw [dropPkt_fault hblk hl] at hs'
        cases hs'
      · rintro (h | ⟨blk, hsome, -⟩)
        · exact hl h
        · rw [hblk] at hsome
          cases hsome
  | some blk =>
    obtain ⟨s', hs', -, -, hat⟩ := dropPkt_block hblk
    rw [harmless_block hblk, hs']
    obtain ⟨tcb, tcbLock, sendLock⟩ := blk
    simp only [Except.ok.injEq, exists_eq_left', hat]
    cases tcbLock <;> cases sendLock <;> simp

theorem dropPkt_ok {s' : Stack} (h : s.dropPkt l = .ok s') :
    s'.messagesArray = s.messagesArray ∧ ∀ b, b ≠ l.tcb → s'.blocks b = s.blocks b := by
  cases hblk : s.blocks l.tcb with
  | some blk =>
    obtain ⟨s'', hs'', hq, hother, -⟩ := dropPkt_block hblk
    obtain rfl : s'' = s' := Except.ok.inj (hs''.symm.trans h)
    exact ⟨hq, hother⟩
  | none =>
    by_cases hl : l.unlockedTcb = true ∧ l.unlockedSend = true
    · obtain rfl : s = s' := Except.ok.inj ((dropPkt_untouched hl.1 hl.2).symm.trans h)
      exact ⟨rfl, fun _ _ => rfl⟩
    · rw [dropPkt_fault hblk hl] at h
      cases h

end DropPkt

section Queue

def Conn.others (c : Conn) : List TcpMessage := c.messagesArray.filter (fun m => m.tcb ≠ c.self)

def OwnOnly (c c' : Conn) : Prop := c'.self = c.self ∧ c'.others = c.others

variable {c c' : Conn}

theorem OwnOnly.refl (c : Conn) : OwnOnly c c := ⟨rfl, rfl⟩

theorem OwnOnly.trans {c'' : Conn} (h : OwnOnly c c') (h' : OwnOnly c' c'') : OwnOnly c c'' :=
  ⟨h'.1.trans h.1, h'.2.trans h.2⟩

theorem OwnOnly.of_eq (hself : c'.self = c.self) (hq : c'.messagesArray = c.messagesArray) :
    OwnOnly c c' := by
  refine ⟨hself, ?_⟩
  rw [Conn.others, Conn.others, hself, hq]

theorem OwnOnly.stop (tcb : Tcb) (hself : c'.self = c.self)
    (hq : c'.messagesArray = stopRetransmit c.self tcb c.messagesArray) : OwnOnly c c' := by
  refine ⟨hself, ?_⟩
  rw [Conn.others, Conn.others, hself, hq]
  exact stopRetransmit_others c.self tcb c.messagesArray

theorem ownOnly_txEmpty (c : Conn) (flags : UInt8) (retries : Int) :
    OwnOnly c (tcpTxEmpty c flags retries) := by
  rcases tcpTxEmpty_cases c flags retries with h | h
  · rw [h]
    exact .refl c
  · rw [h, txSegment_eq]
    exact ⟨rfl, by simp [Conn.others, addMsgToArr]⟩

theorem ownOnly_switch (c : Conn) (pkt : Packet) : OwnOnly c (tcpRxSwitch c pkt) := by
  rcases tcpRxSwitch_cases c pkt with h | ⟨c', h, -, -, ht⟩
  · rw [h]
    exact .refl c
  · rw [h]
    cases ht with
    | establish hs hf hu => exact .stop _ rfl rfl
    | cross hs hf hu => exact .stop _ rfl rfl
    | confirm hs hf ha => exact .stop _ rfl rfl
    | ack hs hf =>
      by_cases ha : ackAdvances c.tcb pkt.tcp.hdr = true
      · refine .stop (takeAck c.tcb pkt.tcp.hdr) rfl ?_
        simp only [ackEstablished, ha, if_true]
      · exact .of_eq rfl (by simp only [ackEstablished, ha, if_false, Bool.false_eq_true])
    | finWait hs hf => exact .of_eq rfl rfl

theorem ownOnly_rxStep (c : Conn) : OwnOnly c (rxStep c) := by
  cases hrx : c.rx with
  | nil =>
    rw [rxStep_nil hrx]
    exact .refl c
  | cons act rest =>
    cases act with
    | tx flags retries =>
      rw [rxStep_tx hrx]
      exact .trans (.of_eq rfl rfl) (ownOnly_txEmpty { c with rx := rest } flags retries)
    | text pkt =>
      rw [rxStep_text hrx]
      have ht := rxText_step c pkt rest
      generalize rxText c pkt rest = c' at ht ⊢
      cases ht <;> exact .of_eq rfl rfl
    | fin pkt =>
      rw [rxStep_fin hrx]
      have ht := rxFin_step c pkt
      generalize rxFin c pkt = c' at ht ⊢
      cases ht <;> exact .of_eq rfl rfl
    | unlock =>
      rw [rxStep_unlock hrx]
      exact .of_eq rfl rfl
    | timer =>
      rw [rxStep_timer hrx]
      exact .of_eq rfl rfl

theorem ownOnly_iterate (c : Conn) (n : Nat) : OwnOnly c (rxStep^[n] c) := by
  induction n with
  | zero => exact .refl c
  | succ n ih =>
    rw [Function.iterate_succ_apply']
    exact ih.trans (ownOnly_rxStep _)

end Queue

section Isolation
variable {s : Stack}

theorem OthersKept.refl (sel : Option Nat) (s : Stack) : OthersKept sel s s := ⟨fun _ _ => rfl, rfl⟩

theorem othersKept_put {b : Nat} {blk : Block} {c : Conn} (h : OwnOnly (s.conn b blk) c) :
    OthersKept (some b) s (s.put b c) where
  blocks a ha := by
    have hne : a ≠ b := fun he => ha (by rw [he])
    simp [Stack.put, Stack.modify, hne]
  entries := by
    have hself : c.self = b := h.1
    have hq := h.2
    simp only [Conn.others, hself, Stack.conn] at hq
    simpa [Stack.put, eq_comm] using hq

theorem getTcb_block {e : Endpoint} {b : Nat} (h : s.getTcb e = some b) :
    ∃ blk, s.blocks b = some blk := by
  have hp := List.find?_some h
  obtain ⟨blk, hblk, -⟩ := (Option.any_eq_true _ _).mp hp
  exact ⟨blk, hblk⟩

theorem othersKept_dropPkt {e : Endpoint} {l : RxLocals} :
    (∃ s', s.dropPkt l = .ok s' ∧ OthersKept (s.getTcb e) s s') ↔
      s.getTcb e = some l.tcb ∨ Harmless s l := by
  constructor
  · rintro ⟨s', hs', hkept⟩
    by_cases hsel : s.getTcb e = some l.tcb
    · exact .inl hsel
    · exact .inr (dropPkt_harmless.mp ⟨s', hs', hkept.blocks l.tcb hsel⟩)
  · rintro (hsel | hharm)
    · obtain ⟨blk, hblk⟩ := getTcb_block hsel
      obtain ⟨s', hs', hq, hother, -⟩ := dropPkt_block hblk
      refine ⟨s', hs', fun b hb => hother b ?_, by rw [hq]⟩
      rintro rfl
      exact hb hsel
    · obtain ⟨s', hs', hat⟩ := dropPkt_harmless.mpr hharm
      obtain ⟨hq, hother⟩ := dropPkt_ok hs'
      refine ⟨s', hs', fun b _ => ?_, by rw [hq]⟩
      by_cases hb : b = l.tcb
      · rw [hb, hat]
      · exact hother b hb

/-- When get_tcb finds nothing, drop_pkt follows NULL. -/
theorem rx_noBlock {pkt : Packet} (h : s.rxExit pkt = .noBlock) (stale : RxLocals) (n : Nat) :
    s.rx stale pkt n = .error 0 := by
  simp only [Stack.rx, h]
  exact dropPkt_fault s.null (by simp)

theorem rx_block {pkt : Packet} {b : Nat} (h : s.rxExit pkt = .block b)
    (hsel : s.getTcb pkt.endpoint = some b) (stale : RxLocals) (n : Nat) :
    ∃ s', s.rx stale pkt n = .ok s' ∧ OthersKept (some b) s s' := by
  obtain ⟨blk, hblk⟩ := getTcb_block hsel
  simp only [Stack.rx, h, hblk]
  split_ifs with hheld
  · exact ⟨s, rfl, .refl _ s⟩
  · exact ⟨_, rfl, othersKept_put ((ownOnly_switch _ pkt).trans (ownOnly_iterate _ n))⟩

/-- tcp_rx comes through and keeps to the block get_tcb selects exactly when the segment passes the
length test and the checksum and get_tcb selects a block, or when it fails one of the tests and the
variables that drop_pkt finds do no harm to others. -/
theorem connections_isolated (s : Stack) (stale : RxLocals) (pkt : Packet) (n : Nat) :
    (∃ s', s.rx stale pkt n = .ok s' ∧ OthersKept (s.getTcb pkt.endpoint) s s') ↔
      (tooShort pkt = false ∧ csumValid pkt = true ∧ (s.getTcb pkt.endpoint).isSome = true) ∨
      ((tooShort pkt = true ∨ csumValid pkt = false) ∧
        (s.getTcb pkt.endpoint = some stale.tcb ∨ Harmless s stale)) := by
  cases hshort : tooShort pkt with
  | true => simpa [Stack.rx, Stack.rxExit, hshort] using othersKept_dropPkt
  | false =>
    cases hcsum : csumValid pkt with
    | false => simpa [Stack.rx, Stack.rxExit, hshort, hcsum] using othersKept_dropPkt
    | true =>
      cases hsel : s.getTcb pkt.endpoint with
      | none =>
        have hexit : s.rxExit pkt = .noBlock := by simp [Stack.rxExit, hshort, hcsum, hsel]
        simp [rx_noBlock hexit]
      | some b =>
        have hexit : s.rxExit pkt = .block b := by simp [Stack.rxExit, hshort, hcsum, hsel]
        exact iff_of_true (rx_block hexit hsel stale n) (.inl ⟨rfl, rfl, rfl⟩)

def sampleStack : Stack where
  sockets := [{ fd := fdStartVal, connInfo := some 2 }]
  blocks b :=
    if b = 2 then some { tcb := (sampleConn 1000).tcb, tcbLock := true, sendLock := false } else
      none
  null := rfl
  messagesArray := []

def sampleShort : Packet :=
  let pkt := samplePeer 5000 0 tcpAck 500 []
  { pkt with ip := { pkt.ip with len := 30, daddr := 0 } }

/-- The segment is for no block, but the variables left from the last one name the block at 2. -/
theorem connection_unlocked_by_stranger :
    ¬ ∀ (s : Stack) (stale : RxLocals) (pkt : Packet),
      ∃ s', s.rx stale pkt 7 = .ok s' ∧ OthersKept (s.getTcb pkt.endpoint) s s' := by
  intro h
  let stale : RxLocals := { tcb := 2, unlockedTcb := false, unlockedSend := true }
  have hsel : sampleStack.getTcb sampleShort.endpoint ≠ some 2 := by decide +kernel
  obtain ⟨s', hs', hkept⟩ := h sampleStack stale sampleShort
  have hharm : Harmless sampleStack stale := dropPkt_harmless.mp ⟨s', hs', hkept.blocks 2 hsel⟩
  exact nomatch ((harmless_block (l := stale) rfl).mp hharm).1 rfl

end Isolation

section Short

/-- A payload of fewer than twenty bytes is told from the length and the header length when their
difference is no negative number. -/
theorem tooShort_iff (pkt : Packet) (h : ipPayloadLen pkt.ip < 20) :
    tooShort pkt = true ↔ 4 * pkt.ip.ihl.toNat ≤ pkt.ip.len.toNat := by
  have hlen := pkt.ip.len.toNat_lt
  have hihl := pkt.ip.ihl.toNat_lt
  rw [ipPayloadLen] at h
  rw [tooShort, decide_eq_true_iff, ipPayloadLen]
  omega

/-- A packet with too little for a TCP header is dropped by the length test, with every block and
the queue as they were, exactly when the difference is no negative number and drop_pkt does no
harm. -/
theorem short_rejected (s : Stack) (stale : RxLocals) (pkt : Packet) (n : Nat)
    (h : ipPayloadLen pkt.ip < 20) :
    (s.rxExit pkt = .short ∧ ∃ s', s.rx stale pkt n = .ok s' ∧
        (∀ b, s'.blocks b = s.blocks b) ∧ s'.messagesArray = s.messagesArray) ↔
      4 * pkt.ip.ihl.toNat ≤ pkt.ip.len.toNat ∧ Harmless s stale := by
  rw [← tooShort_iff pkt h]
  cases hshort : tooShort pkt with
  | true =>
    have hexit : s.rxExit pkt = .short := by simp [Stack.rxExit, hshort]
    have hrx : s.rx stale pkt n = s.dropPkt stale := by simp only [Stack.rx, hexit]
    rw [hrx, ← dropPkt_harmless]
    constructor
    · rintro ⟨-, s', hs', hblocks, -⟩
      exact ⟨rfl, s', hs', hblocks stale.tcb⟩
    · rintro ⟨-, s', hs', hat⟩
      obtain ⟨hq, hother⟩ := dropPkt_ok hs'
      refine ⟨hexit, s', hs', fun b => ?_, hq⟩
      by_cases hb : b = stale.tcb
      · rw [hb, hat]
      · exact hother b hb
  | false =>
    have hexit : s.rxExit pkt ≠ .short := by
      simp only [Stack.rxExit, hshort, Bool.false_eq_true, if_false]
      split
      · simp
      · split <;> simp
    simp [hexit]

/-- The variables left name the block at 2, and of its mutexes drop_pkt unlocks the free one. -/
theorem short_rejected_sample :
    ipPayloadLen sampleShort.ip < 20 ∧ sampleStack.rxExit sampleShort = .short ∧
      ∃ s', sampleStack.rx ⟨2, true, false⟩ sampleShort 7 = .ok s' ∧
        (∀ b, s'.blocks b = sampleStack.blocks b) ∧ s'.messagesArray = sampleStack.messagesArray :=
  have h : ipPayloadLen sampleShort.ip < 20 := by decide +kernel
  have hharm : Harmless sampleStack ⟨2, true, false⟩ :=
    (harmless_block rfl).mpr ⟨nofun, fun _ => rfl⟩
  ⟨h, (short_rejected sampleStack ⟨2, true, false⟩ sampleShort 7 h).mpr ⟨by decide +kernel, hharm⟩⟩

def sampleNegative : Packet :=
  let pkt := samplePeer 5000 0 tcpAck 500 []
  { pkt with ip := { pkt.ip with ihl := 6, len := 20 } }

theorem negative_payload_not_rejected :
    ¬ ∀ (s : Stack) (stale : RxLocals) (pkt : Packet), ipPayloadLen pkt.ip < 20 →
      s.rxExit pkt = .short ∧ ∃ s', s.rx stale pkt 7 = .ok s' ∧
        (∀ b, s'.blocks b = s.blocks b) ∧ s'.messagesArray = s.messagesArray := by
  intro h
  have hexit := (h sampleStack ⟨2, true, true⟩ sampleNegative (by decide +kernel)).1
  have hnot : tooShort sampleNegative = false := by decide +kernel
  simp only [Stack.rxExit, hnot, Bool.false_eq_true, if_false] at hexit
  split at hexit
  · cases hexit
  · split at hexit <;> cases hexit

end Short
end AnpNetstack
