import AnpNetstack.Control

/-! The send part of a connection: the segments queued so far, the tcp_tx calls and
snd_nxt. Every event queues at most one segment. -/
namespace AnpNetstack

def sentRecord (c : Conn) (who : Option Nat) (data : List UInt8) (n : UInt32) (flags : UInt8) :
    Sent where
  call := who
  seg := (createTcpPacket c.tcb data n flags).1
  tcb := { c.tcb with sndNxt := c.tcb.sndNxt + ctlLen flags + n }
  taken := c.read.length

@[simp] theorem txSegment_sent (alloc : Bool) (c : Conn) (who : Option Nat) (data : List UInt8)
    (n : UInt32) (flags : UInt8) (retries : Int) :
    (txSegment alloc c who data n flags retries).sent =
      c.sent ++ [sentRecord c who data n flags] := by
  rw [txSegment_eq]
  rfl

@[simp] theorem txSegment_tcb (alloc : Bool) (c : Conn) (who : Option Nat) (data : List UInt8)
    (n : UInt32) (flags : UInt8) (retries : Int) :
    (txSegment alloc c who data n flags retries).tcb =
      { c.tcb with sndNxt := c.tcb.sndNxt + ctlLen flags + n } := by
  rw [txSegment_eq]

@[simp] theorem txSegment_calls (alloc : Bool) (c : Conn) (who : Option Nat) (data : List UInt8)
    (n : UInt32) (flags : UInt8) (retries : Int) :
    (txSegment alloc c who data n flags retries).calls = c.calls := by
  rw [txSegment_eq]

def TxCall.advance (call : TxCall) (n : UInt32) : TxCall :=
  { call with
    dataSent := call.dataSent + n
    result := if call.dataSent + n = call.dataSize then some (call.dataSent + n) else none }

/-- Who may call tcp_tx without text, and with which flags. -/
inductive EmptyTx (c : Conn) : Event → UInt8 → Prop where
  | connect (hf : c.fresh = true) : EmptyTx c .connect tcpSyn
  | closeFin (hc : c.closing = true) : EmptyTx c .closeFin tcpFinAck
  | rx {flags : UInt8} {retries : Int} {rest : List RxAct} (hx : c.rx = .tx flags retries :: rest) :
      EmptyTx c .rxStep flags

inductive SendStep (c : Conn) (c' : Conn) : Event → Prop where
  | quiet {e : Event} (hs : c'.sent = c.sent) (hc : c'.calls = c.calls)
      (hn : c'.tcb.sndNxt = c.tcb.sndNxt) : SendStep c c' e
  | call (buf data : List UInt8) (size : data.length < 2 ^ 32) (hs : c'.sent = c.sent)
      (hc : c'.calls = c.calls ++ [TxCall.start data size tcpAck retriesInfinite])
      (hn : c'.tcb.sndNxt = c.tcb.sndNxt) : SendStep c c' (.send buf)
  | empty {e : Event} (flags : UInt8) (hf : EmptyTx c e flags)
      (hs : c'.sent = c.sent ++ [sentRecord c none [] 0 flags]) (hc : c'.calls = c.calls)
      (hn : c'.tcb.sndNxt = c.tcb.sndNxt + ctlLen flags) : SendStep c c' e
  | round (i : Nat) (alloc : Bool) (call : TxCall) (n : UInt32) (hi : c.calls[i]? = some call)
      (hr : call.result = none) (hv : retriesValid call.retries = true)
      (hle : call.dataSent ≤ call.dataSize)
        (hsize : n = nxtSegSize c.tcb call.dataSize call.dataSent)
      (hs : c'.sent =
        c.sent ++ [sentRecord c (some i) (call.data.drop call.dataSent.toNat) n call.flags])
      (hc : c'.calls = c.calls.set i (call.advance n))
      (hn : c'.tcb.sndNxt = c.tcb.sndNxt + ctlLen call.flags + n) :
      SendStep c c' (.sendRound i alloc)
  | fails (i : Nat) (alloc : Bool) (call : TxCall) (r : UInt32) (hi : c.calls[i]? = some call)
      (hbad : ¬ (retriesValid call.retries = true ∧ call.dataSent ≤ call.dataSize))
      (hs : c'.sent = c.sent) (hc : c'.calls = c.calls.set i { call with result := some r })
      (hn : c'.tcb.sndNxt = c.tcb.sndNxt) : SendStep c c' (.sendRound i alloc)
  | cross (pkt : Packet) (hst : c.tcb.state = .synSent) (hs : c'.sent = c.sent)
      (hc : c'.calls = c.calls) (hn : c'.tcb.sndNxt = c.tcb.iss) : SendStep c c' (.segment pkt)

/-- tcp_tx without text, when `c'` differs from its outcome only outside the send part. -/
theorem sendStep_empty {c d c' : Conn} {e : Event} {flags : UInt8} {retries : Int}
    (hf : EmptyTx c e flags) (ht : d.tcb = c.tcb) (hr : d.read = c.read) (hsd : d.sent = c.sent)
    (hcd : d.calls = c.calls) (hs : c'.sent = (tcpTxEmpty d flags retries).sent)
    (hc : c'.calls = (tcpTxEmpty d flags retries).calls)
    (hn : c'.tcb.sndNxt = (tcpTxEmpty d flags retries).tcb.sndNxt) : SendStep c c' e := by
  cases tcpTxEmpty_cases d flags retries with
  | inl he =>
    rw [he] at hs hc hn
    exact .quiet (hs.trans hsd) (hc.trans hcd) (hn.trans (by rw [ht]))
  | inr he =>
    rw [he] at hs hc hn
    simp only [txSegment_sent, txSegment_calls, txSegment_tcb] at hs hc hn
    refine .empty flags hf ?_ (hc.trans hcd) ?_
    · rw [hs, hsd, sentRecord, sentRecord, ht, hr]
    · rw [hn, ht, UInt32.add_zero]

/-- A round of a tcp_tx call that is still in its loop. -/
theorem sendRound_round {c : Conn} {i : Nat} {call : TxCall} (alloc : Bool)
    (hi : c.calls[i]? = some call) (hr : call.result = none)
    (hv : retriesValid call.retries = true) (hle : call.dataSent ≤ call.dataSize) :
    sendRound c i alloc =
      let n := nxtSegSize c.tcb call.dataSize call.dataSent
      { txSegment alloc c (some i) (call.data.drop call.dataSent.toNat) n call.flags
          call.retries with
        calls := c.calls.set i (call.advance n) } := by
  simp only [sendRound, hi, hr, Option.isSome_none, Bool.false_eq_true, if_false, tcpTxSection, hv,
    Bool.not_true, hle, if_true, txSegment_calls, TxCall.advance]

theorem sendRound_sent {c : Conn} {i : Nat} {call : TxCall} (alloc : Bool)
    (hi : c.calls[i]? = some call) (hr : call.result = none)
    (hv : retriesValid call.retries = true) (hle : call.dataSent ≤ call.dataSize) :
    (sendRound c i alloc).sent =
      c.sent ++ [sentRecord c (some i) (call.data.drop call.dataSent.toNat)
        (nxtSegSize c.tcb call.dataSize call.dataSent) call.flags] := by
  rw [sendRound_round alloc hi hr hv hle]
  simp only [txSegment_sent]

theorem sendRound_idle {c : Conn} {i : Nat} (alloc : Bool)
    (h : ∀ call, c.calls[i]? = some call → call.result ≠ none) : sendRound c i alloc = c := by
  cases hi : c.calls[i]? with
  | none => simp only [sendRound, hi]
  | some call =>
    have hs := Option.isSome_iff_ne_none.mpr (h call hi)
    simp only [sendRound, hi, hs, if_true]

theorem tcpTxSection_fails (alloc : Bool) (c : Conn) (who : Option Nat) {call : TxCall}
    (h : ¬ (retriesValid call.retries = true ∧ call.dataSent ≤ call.dataSize)) :
    ∃ r, tcpTxSection alloc c who call = (c, { call with result := some r }) := by
  by_cases hv : retriesValid call.retries = true
  · have hle : ¬ call.dataSent ≤ call.dataSize := fun hle => h ⟨hv, hle⟩
    exact ⟨call.dataSent, by simp only [tcpTxSection, hv, Bool.not_true, Bool.false_eq_true,
      if_false, hle]⟩
  · exact ⟨UInt32.ofInt (-1), by simp only [tcpTxSection, hv, Bool.not_false, if_true]⟩

theorem sendStep_sendRound (c : Conn) (i : Nat) (alloc : Bool) :
    SendStep c (sendRound c i alloc) (.sendRound i alloc) := by
  by_cases hrun : ∃ call, c.calls[i]? = some call ∧ call.result = none
  · obtain ⟨call, hi, hr⟩ := hrun
    by_cases hok : retriesValid call.retries = true ∧ call.dataSent ≤ call.dataSize
    · have hs := sendRound_sent alloc hi hr hok.1 hok.2
      rw [sendRound_round alloc hi hr hok.1 hok.2] at hs ⊢
      refine .round i alloc call _ hi hr hok.1 hok.2 rfl hs rfl ?_
      simp only [txSegment_tcb]
    · obtain ⟨r, ht⟩ := tcpTxSection_fails alloc c (some i) hok
      simp only [sendRound, hi, hr, Option.isSome_none, Bool.false_eq_true, if_false, ht]
      exact .fails i alloc call r hi hok rfl rfl rfl
  · rw [sendRound_idle alloc (fun call hi hr => hrun ⟨call, hi, hr⟩)]
    exact .quiet rfl rfl rfl

theorem sendStep_tcpRxSwitch (c : Conn) (pkt : Packet) :
    SendStep c (tcpRxSwitch c pkt) (.segment pkt) := by
  cases tcpRxSwitch_cases c pkt with
  | inl he =>
    rw [he]
    exact .quiet rfl rfl rfl
  | inr ht =>
    obtain ⟨c', he, -, -, ht⟩ := ht
    rw [he]
    cases ht with
    | establish hs hf hu => exact .quiet rfl rfl rfl
    | cross hs hf hu => exact .cross pkt hs rfl rfl rfl
    | confirm hs hf ha => exact .quiet rfl rfl rfl
    | ack hs hf => exact .quiet rfl rfl (takeAck_sndNxt c.tcb pkt.tcp.hdr)
    | finWait hs hf => exact .quiet rfl rfl rfl

theorem sendStep_rxStep (c : Conn) : SendStep c (rxStep c) .rxStep := by
  cases hx : c.rx with
  | nil =>
    rw [rxStep_nil hx]
    exact .quiet rfl rfl rfl
  | cons a rest =>
    cases a with
    | tx flags retries =>
      rw [rxStep_tx hx]
      exact sendStep_empty (d := { c with rx := rest }) (.rx hx) rfl rfl rfl rfl rfl rfl rfl
    | text pkt =>
      rw [rxStep_text hx]
      have hstep := rxText_step c pkt rest
      generalize rxText c pkt rest = c' at hstep ⊢
      cases hstep with
      | none hz => exact .quiet rfl rfl rfl
      | outOfOrder hz hseq => exact .quiet rfl rfl rfl
      | stored hz hseq =>
        exact .quiet rfl rfl
          (saveDataAndAck_frame Tcb.sndNxt (fun _ _ _ _ => rfl) c.tcb pkt.tcp.data (segmentLen pkt))
    | fin pkt =>
      rw [rxStep_fin hx]
      have hstep := rxFin_step c pkt
      generalize rxFin c pkt = c' at hstep ⊢
      cases hstep with
      | dropped hs => exact .quiet rfl rfl rfl
      | taken hf hw => exact .quiet rfl rfl rfl
      | ignored hf hw => exact .quiet rfl rfl rfl
      | noFin hf => exact .quiet rfl rfl rfl
    | unlock =>
      rw [rxStep_unlock hx]
      exact .quiet rfl rfl rfl
    | timer =>
      rw [rxStep_timer hx]
      exact .quiet rfl rfl rfl

theorem send_step (c : Conn) (e : Event) : SendStep c (step c e) e := by
  cases e with
  | connect =>
    simp only [step, connect]
    split_ifs with hf
    · exact sendStep_empty (.connect hf) rfl rfl rfl rfl rfl rfl rfl
    · exact .quiet rfl rfl rfl
  | send buf =>
    simp only [step, send]
    split_ifs
    · exact .call buf _ _ rfl rfl rfl
    · exact .quiet rfl rfl rfl
  | sendRound i alloc => exact sendStep_sendRound c i alloc
  | recv len =>
    simp only [step, readBytes]
    split_ifs <;> exact .quiet rfl rfl rfl
  | segment pkt =>
    simp only [step]
    split_ifs
    · exact sendStep_tcpRxSwitch c pkt
    · exact .quiet rfl rfl rfl
  | rxStep => exact sendStep_rxStep c
  | retransmit => exact .quiet rfl rfl rfl
  | close =>
    simp only [step, close]
    split_ifs <;> exact .quiet rfl rfl rfl
  | closeFin =>
    simp only [step, closeFin]
    split_ifs with hc
    · exact sendStep_empty (.closeFin hc) rfl rfl rfl rfl rfl rfl rfl
    · exact .quiet rfl rfl rfl
  | closeTimer =>
    simp only [step, closeConnection]
    split_ifs <;> exact .quiet rfl rfl rfl

/-- An event queues one segment at most, built from the block as it finds it. -/
theorem sent_step (c : Conn) (e : Event) :
    (step c e).sent = c.sent ∨
      ∃ who data n flags, (step c e).sent = c.sent ++ [sentRecord c who data n flags] := by
  cases send_step c e with
  | quiet hs hc hn => exact Or.inl hs
  | call buf data size hs hc hn => exact Or.inl hs
  | empty flags hf hs hc hn => exact Or.inr ⟨none, [], 0, flags, hs⟩
  | round i alloc call n hi hr hv hle hsize hs hc hn => exact Or.inr ⟨some i, _, n, call.flags, hs⟩
  | fails i alloc call r hi hbad hs hc hn => exact Or.inl hs
  | cross pkt hst hs hc hn => exact Or.inl hs

theorem sent_grows (c : Conn) (e : Event) : c.sent <+: (step c e).sent := by
  obtain hs | ⟨who, data, n, flags, hs⟩ := sent_step c e
  · exact hs ▸ List.prefix_refl _
  · rw [hs]
    exact List.prefix_append _ _

theorem sent_grows_run (c : Conn) (es : List Event) : c.sent <+: (Runs.run step c es).sent := by
  induction es generalizing c with
  | nil => exact List.prefix_refl _
  | cons e es ih => exact (sent_grows c e).trans (ih (step c e))

end AnpNetstack
