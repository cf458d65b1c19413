import AnpNetstack.SendPart
import AnpNetstack.StateMachine

/-! What tcp_tx puts into the queue of an open connection, under every interleaving of
calls, segments and closing: the segments tile the sequence space and each call sends
its own text in order. -/
namespace AnpNetstack
open Runs

def Sent.span (x : Sent) : UInt32 :=
  UInt32.ofNat x.seg.data.length + if hasFlag x.seg.hdr.flags tcpFin then 1 else 0

def Tiles : UInt32 → List Sent → UInt32 → Prop
  | a, [], b => a = b
  | a, x :: xs, b => x.seg.hdr.seqNum = a ∧ Tiles (a + x.span) xs b

/-- The text is at most one segment and at most the window that was open then. -/
def Sent.Fits (x : Sent) : Prop :=
  x.seg.data.length ≤ min tcpMaxSegSize.toNat x.tcb.sndWnd.toNat

def payload (i : Nat) (xs : List Sent) : List UInt8 :=
  (xs.filter (fun x => x.call == some i)).flatMap (fun x => x.seg.data)

structure TxCall.Starts (call : TxCall) : Prop where
  flags : call.flags = tcpAck ∨ call.flags = tcpFinAck
  retries : retriesValid call.retries = true
  dataSent : call.dataSent = 0
  result : call.result = none

theorem Tiles.snoc {a b : UInt32} {xs : List Sent} {x : Sent} (h : Tiles a xs b)
    (hx : x.seg.hdr.seqNum = b) : Tiles a (xs ++ [x]) (b + x.span) := by
  induction xs generalizing a with
  | nil =>
    have hab : a = b := h
    exact ⟨hx.trans hab.symm, by rw [hab]; rfl⟩
  | cons y ys ih => exact ⟨h.1, ih h.2⟩

theorem payload_append (i : Nat) (xs ys : List Sent) :
    payload i (xs ++ ys) = payload i xs ++ payload i ys := by
  rw [payload, List.filter_append, List.flatMap_append]
  rfl

theorem payload_nil {i : Nat} {xs : List Sent} (h : ∀ x ∈ xs, x.call ≠ some i) :
    payload i xs = [] := by
  have hf : xs.filter (fun x => x.call == some i) = [] := by
    rw [List.filter_eq_nil_iff]
    intro x hx
    simpa using h x hx
  rw [payload, hf]
  rfl

theorem payload_single_self (i : Nat) (x : Sent) (h : x.call = some i) :
    payload i [x] = x.seg.data := by
  simp [payload, h]

structure Open (k : Control) : Prop where
  state : k.state ≠ .synSent ∧ k.state ≠ .synReceived
  fresh : k.fresh = false
  acts : ∀ flags retries, RxAct.tx flags retries ∈ k.rx → flags = tcpAck

theorem Open.step {k k' : Control} {e : Event} (h : Open k) (hk : ControlStep k e k') :
    Open k' := by
  have hrest {a : RxAct} {rest : List RxAct} (hx : k.rx = a :: rest) :
      ∀ flags retries, RxAct.tx flags retries ∈ rest → flags = tcpAck :=
    fun f r hm => h.acts f r (by rw [hx]; exact List.mem_cons_of_mem a hm)
  cases hk with
  | connect hf => simp [h.fresh] at hf
  | close hl hs => exact ⟨by simp, h.fresh, h.acts⟩
  | closeFails hl => exact ⟨h.state, h.fresh, h.acts⟩
  | closeFin hc => exact ⟨h.state, h.fresh, h.acts⟩
  | establish hx hl hs => exact absurd hs h.state.1
  | cross hx hl hs => exact absurd hs h.state.1
  | confirm pkt hx hl hs => exact absurd hs h.state.2
  | ack pkt hx hl hs => exact ⟨h.state, h.fresh, by simp⟩
  | finWait pkt hx hl hs => exact ⟨by simp, h.fresh, by simp⟩
  | tx flags retries rest hx => exact ⟨h.state, h.fresh, hrest hx⟩
  | textSkipped pkt rest hx => exact ⟨h.state, h.fresh, hrest hx⟩
  | outOfOrder pkt rest hx => exact ⟨h.state, h.fresh, by simp⟩
  | stored pkt rest hx =>
    refine ⟨h.state, h.fresh, ?_⟩
    intro flags retries hm
    cases List.mem_cons.mp hm with
    | inl he => exact (RxAct.tx.inj he).1
    | inr hm => exact hrest hx flags retries hm
  | finDropped pkt rest hx hs => exact ⟨h.state, h.fresh, by simp⟩
  | finTaken pkt rest hx hs => exact ⟨by simp, h.fresh, by simp⟩
  | finIgnored pkt rest hx => exact ⟨h.state, h.fresh, by simp⟩
  | noFin pkt rest hx => exact ⟨h.state, h.fresh, by simp⟩
  | unlock rest hx => exact ⟨h.state, h.fresh, hrest hx⟩
  | timer rest hx => exact ⟨h.state, h.fresh, hrest hx⟩
  | closeTimer ht hl => exact ⟨by simp, h.fresh, h.acts⟩

theorem open_step {c : Conn} (h : Open c.control) (e : Event) : Open (step c e).control := by
  cases control_step c e with
  | inl he =>
    rw [he]
    exact h
  | inr hk => exact h.step hk

theorem ControlInv.opened {k : Control} (h : ControlInv k)
    (hs : k.state ∈ [TcpState.established, .finWait1, .finWait2, .timeWait]) : Open k := by
  have hst : k.state ≠ .synSent ∧ k.state ≠ .synReceived ∧ k.state ≠ .closed := by
    generalize k.state = s at hs
    cases s <;> simp_all
  refine ⟨⟨hst.1, hst.2.1⟩, ?_, ?_⟩
  · exact h.not_fresh hst.2.2
  · intro flags retries hm
    have hp := h.phase
    generalize k.rx = rx at hp hm
    generalize k.state = s at hp hst
    generalize k.lock = lock at hp
    cases hp <;> simp_all

structure CallOk (new : List Sent) (i : Nat) (call : TxCall) : Prop where
  flags : call.flags = tcpAck ∨ call.flags = tcpFinAck
  retries : retriesValid call.retries = true
  sent_le : call.dataSent ≤ call.dataSize
  payload_eq : payload i new = call.data.take call.dataSent.toNat
  result : call.result = none ∨ call.dataSent = call.dataSize

structure Sending (start : UInt32) (new : List Sent) (c : Conn) : Prop where
  opened : Open c.control
  tiles : Tiles start new c.tcb.sndNxt
  fits : ∀ x ∈ new, x.Fits
  calls : ∀ i call, c.calls[i]? = some call → CallOk new i call
  owned : ∀ x ∈ new, ∀ i, x.call = some i → i < c.calls.length

theorem ctlLen_eq {flags : UInt8} (h : flags = tcpAck ∨ flags = tcpFinAck) :
    ctlLen flags = if hasFlag flags tcpFin then 1 else 0 := by
  cases h with
  | inl he =>
    rw [he]
    decide
  | inr he =>
    rw [he]
    decide

theorem dataSize_toNat (call : TxCall) : call.dataSize.toNat = call.data.length := by
  rw [TxCall.dataSize, UInt32.toNat_ofNat', Nat.mod_eq_of_lt call.size]

theorem nxtSegSize_toNat (tcb : Tcb) {size sent : UInt32} (h : sent ≤ size) :
    (nxtSegSize tcb size sent).toNat =
      min tcb.sndWnd.toNat (min tcpMaxSegSize.toNat (size.toNat - sent.toNat)) := by
  rw [nxtSegSize, anpMin_toNat, anpMin_toNat, UInt32.toNat_sub_of_le _ _ h]

section Round
variable (c : Conn) (i : Nat) {call : TxCall} (h : call.dataSent ≤ call.dataSize)
include h

theorem round_length :
    ((call.data.drop call.dataSent.toNat).take
      (nxtSegSize c.tcb call.dataSize call.dataSent).toNat).length =
      (nxtSegSize c.tcb call.dataSize call.dataSent).toNat := by
  have hn := nxtSegSize_toNat c.tcb h
  rw [dataSize_toNat] at hn
  rw [List.length_take, List.length_drop]
  omega

theorem round_sent_toNat :
    (call.dataSent + nxtSegSize c.tcb call.dataSize call.dataSent).toNat =
      call.dataSent.toNat + (nxtSegSize c.tcb call.dataSize call.dataSent).toNat := by
  have hn := nxtSegSize_toNat c.tcb h
  have hlt := call.dataSize.toNat_lt
  rw [UInt32.le_iff_toNat_le] at h
  rw [UInt32.toNat_add, Nat.mod_eq_of_lt]
  omega

theorem round_advance_le :
    (call.advance (nxtSegSize c.tcb call.dataSize call.dataSent)).dataSent ≤
      (call.advance (nxtSegSize c.tcb call.dataSize call.dataSent)).dataSize := by
  have hsent := round_sent_toNat c h
  have hmin := nxtSegSize_toNat c.tcb h
  rw [UInt32.le_iff_toNat_le] at h ⊢
  simp only [TxCall.advance, TxCall.dataSize] at hsent hmin h ⊢
  omega

end Round

theorem sentRecord_span (c : Conn) (who : Option Nat) {data : List UInt8} {n : UInt32}
    {flags : UInt8} (hd : (data.take n.toNat).length = n.toNat)
    (hf : flags = tcpAck ∨ flags = tcpFinAck) :
    (sentRecord c who data n flags).span = ctlLen flags + n := by
  rw [Sent.span, sentRecord, createTcpPacket_data, createTcpPacket_flags, hd, UInt32.ofNat_toNat,
    ctlLen_eq hf, UInt32.add_comm]

theorem CallOk.other {new : List Sent} {i : Nat} {call : TxCall} (h : CallOk new i call) {x : Sent}
    (hx : x.call ≠ some i) : CallOk (new ++ [x]) i call := by
  refine ⟨h.flags, h.retries, h.sent_le, ?_, h.result⟩
  have hnil : payload i [x] = [] := payload_nil (by simpa using hx)
  rw [payload_append, hnil, List.append_nil, h.payload_eq]

/-- A segment without text extends the tiling by its control bits. -/
theorem Sending.empty {start : UInt32} {new : List Sent} {c c' : Conn} (h : Sending start new c)
    (ho : Open c'.control) {flags : UInt8} (hf : flags = tcpAck ∨ flags = tcpFinAck)
    (hc : c'.calls = c.calls) (hn : c'.tcb.sndNxt = c.tcb.sndNxt + ctlLen flags) :
    Sending start (new ++ [sentRecord c none [] 0 flags]) c' := by
  have hspan : (sentRecord c none [] 0 flags).span = ctlLen flags + 0 :=
    sentRecord_span c none rfl hf
  have ht := h.tiles.snoc (x := sentRecord c none [] 0 flags) rfl
  rw [hspan, UInt32.add_zero, ← hn] at ht
  refine ⟨ho, ht, ?_, ?_, ?_⟩
  · intro x hx
    cases List.mem_append.mp hx with
    | inl hx => exact h.fits x hx
    | inr hx =>
      rw [List.mem_singleton.mp hx]
      exact Nat.zero_le _
  · intro i call hi
    rw [hc] at hi
    exact (h.calls i call hi).other (by simp [sentRecord])
  · intro x hx i hi
    rw [hc]
    cases List.mem_append.mp hx with
    | inl hx => exact h.owned x hx i hi
    | inr hx =>
      rw [List.mem_singleton.mp hx] at hi
      simp [sentRecord] at hi

theorem CallOk.advance {new : List Sent} {c : Conn} {i : Nat} {call : TxCall}
    (h : CallOk new i call) {n : UInt32}
    (hsize : n = nxtSegSize c.tcb call.dataSize call.dataSent) :
    CallOk (new ++ [sentRecord c (some i) (call.data.drop call.dataSent.toNat) n call.flags]) i
      (call.advance n) := by
  have hsent : (call.dataSent + n).toNat = call.dataSent.toNat + n.toNat := by
    rw [hsize]
    exact round_sent_toNat c h.sent_le
  refine ⟨h.flags, h.retries, ?_, ?_, ?_⟩
  · rw [hsize]
    exact round_advance_le c h.sent_le
  · have hs : (call.advance n).dataSent = call.dataSent + n := rfl
    rw [payload_append, payload_single_self i _ rfl, h.payload_eq, hs, hsent, List.take_add]
    rfl
  · by_cases he : call.dataSent + n = call.dataSize
    · exact Or.inr he
    · exact Or.inl (if_neg he)

theorem Sending.round {start : UInt32} {new : List Sent} {c c' : Conn} (h : Sending start new c)
    (ho : Open c'.control) {i : Nat} {call : TxCall} (hi : c.calls[i]? = some call) {n : UInt32}
    (hsize : n = nxtSegSize c.tcb call.dataSize call.dataSent)
    (hc : c'.calls = c.calls.set i (call.advance n))
    (hn : c'.tcb.sndNxt = c.tcb.sndNxt + ctlLen call.flags + n) :
    Sending start
      (new ++ [sentRecord c (some i) (call.data.drop call.dataSent.toNat) n call.flags]) c' := by
  have hk := h.calls i call hi
  have hlen : ((call.data.drop call.dataSent.toNat).take n.toNat).length = n.toNat := by
    rw [hsize]
    exact round_length c hk.sent_le
  have hmin := nxtSegSize_toNat c.tcb hk.sent_le
  rw [← hsize] at hmin
  have hadvance := hk.advance (c := c) hsize
  set x := sentRecord c (some i) (call.data.drop call.dataSent.toNat) n call.flags with hx
  have hspan : x.span = ctlLen call.flags + n := sentRecord_span c (some i) hlen hk.flags
  have ht : Tiles start (new ++ [x]) (c.tcb.sndNxt + x.span) := h.tiles.snoc rfl
  rw [hspan, ← UInt32.add_assoc, ← hn] at ht
  have hlt : i < c.calls.length := (List.getElem?_eq_some_iff.mp hi).1
  refine ⟨ho, ht, ?_, ?_, ?_⟩
  · intro y hy
    cases List.mem_append.mp hy with
    | inl hy => exact h.fits y hy
    | inr hy =>
      rw [List.mem_singleton.mp hy]
      have hdata : x.seg.data.length = n.toNat := hlen
      have hwnd : x.tcb.sndWnd = c.tcb.sndWnd := rfl
      rw [Sent.Fits, hdata, hwnd]
      omega
  · intro j d hj
    rw [hc] at hj
    by_cases hij : i = j
    · subst hij
      rw [List.getElem?_set_self hlt] at hj
      have hd : call.advance n = d := Option.some.inj hj
      exact hd ▸ hadvance
    · rw [List.getElem?_set_ne hij] at hj
      exact (h.calls j d hj).other (by simpa [hx, sentRecord] using hij)
  · intro y hy j hj
    rw [hc, List.length_set]
    cases List.mem_append.mp hy with
    | inl hy => exact h.owned y hy j hj
    | inr hy =>
      rw [List.mem_singleton.mp hy] at hj
      have hij : i = j := by simpa [hx, sentRecord] using hj
      exact hij ▸ hlt

theorem Sending.call {start : UInt32} {new : List Sent} {c c' : Conn} (h : Sending start new c)
    (ho : Open c'.control) {call : TxCall} (hcall : call.Starts) (hc : c'.calls = c.calls ++ [call])
    (hn : c'.tcb.sndNxt = c.tcb.sndNxt) : Sending start new c' := by
  refine ⟨ho, hn ▸ h.tiles, h.fits, ?_, ?_⟩
  · intro i d hi
    rw [hc] at hi
    by_cases hlt : i < c.calls.length
    · rw [List.getElem?_append_left hlt] at hi
      exact h.calls i d hi
    · have hle : c.calls.length ≤ i := Nat.le_of_not_lt hlt
      rw [List.getElem?_append_right hle] at hi
      have hd : call = d := by
        rw [List.getElem?_singleton] at hi
        split at hi
        · exact Option.some.inj hi
        · simp at hi
      subst hd
      refine ⟨hcall.flags, hcall.retries, ?_, ?_, Or.inl hcall.result⟩
      · rw [hcall.dataSent, UInt32.le_iff_toNat_le]
        exact Nat.zero_le _
      · rw [hcall.dataSent]
        -- no queued segment belongs to a call that has not started
        exact payload_nil (fun x hx hi => absurd (h.owned x hx i hi) hlt)
  · intro x hx i hi
    have := h.owned x hx i hi
    rw [hc, List.length_append]
    omega

theorem Sending.step {start : UInt32} {new : List Sent} {c : Conn} (h : Sending start new c)
    (e : Event) :
    ∃ xs, (step c e).sent = c.sent ++ xs ∧ Sending start (new ++ xs) (step c e) := by
  have ho := open_step h.opened e
  have hsend := send_step c e
  generalize AnpNetstack.step c e = c' at ho hsend
  cases hsend with
  | quiet hs hc hn =>
    refine ⟨[], by rw [hs, List.append_nil], ?_⟩
    rw [List.append_nil]
    exact ⟨ho, hn ▸ h.tiles, h.fits, hc ▸ h.calls, hc ▸ h.owned⟩
  | call buf data size hs hc hn =>
    refine ⟨[], by rw [hs, List.append_nil], ?_⟩
    rw [List.append_nil]
    exact h.call ho ⟨Or.inl rfl, rfl, rfl, rfl⟩ hc hn
  | empty flags hf hs hc hn =>
    have hflags : flags = tcpAck ∨ flags = tcpFinAck := by
      cases hf with
      | connect hfr => exact absurd (hfr.symm.trans h.opened.fresh) (by decide)
      | closeFin hcl => exact Or.inr rfl
      | rx hx =>
        exact Or.inl (h.opened.acts _ _ (by rw [Conn.control, hx]; exact List.mem_cons_self))
    exact ⟨_, hs, h.empty ho hflags hc hn⟩
  | round i alloc call n hi hr hv hle hsize hs hc hn =>
    exact ⟨_, hs, h.round ho hi hsize hc hn⟩
  | fails i alloc call r hi hbad hs hc hn =>
    have hk := h.calls i call hi
    exact absurd ⟨hk.retries, hk.sent_le⟩ hbad
  | cross pkt hst hs hc hn => exact absurd hst h.opened.state.1

theorem Sending.run {start : UInt32} {new : List Sent} {c : Conn} (h : Sending start new c)
    (es : List Event) :
    ∃ xs, (run AnpNetstack.step c es).sent = c.sent ++ xs ∧
      Sending start (new ++ xs) (run AnpNetstack.step c es) := by
  induction es generalizing c new with
  | nil => exact ⟨[], by simp [Runs.run], by simpa [Runs.run] using h⟩
  | cons e es ih =>
    obtain ⟨xs, hxs, hstep⟩ := h.step e
    obtain ⟨ys, hys, hrun⟩ := ih hstep
    refine ⟨xs ++ ys, ?_, ?_⟩
    · rw [← List.append_assoc, ← hxs]
      exact hys
    · rw [← List.append_assoc]
      exact hrun

theorem TxCall.advance_data (call : TxCall) (n : UInt32) : (call.advance n).data = call.data := rfl

theorem call_step {c : Conn} {i : Nat} {call : TxCall} (hi : c.calls[i]? = some call) (e : Event) :
    ∃ d, (step c e).calls[i]? = some d ∧ d.data = call.data := by
  have hlt : i < c.calls.length := (List.getElem?_eq_some_iff.mp hi).1
  have hset {j : Nat} {call' d : TxCall} (hj : c.calls[j]? = some call')
      (hd : d.data = call'.data) :
      ∃ d', (c.calls.set j d)[i]? = some d' ∧ d'.data = call.data := by
    by_cases hij : j = i
    · subst hij
      rw [hi] at hj
      exact ⟨d, List.getElem?_set_self hlt,
        hd.trans (congrArg TxCall.data (Option.some.inj hj.symm))⟩
    · exact ⟨call, by rw [List.getElem?_set_ne hij, hi], rfl⟩
  cases send_step c e with
  | quiet hs hc hn => exact ⟨call, hc ▸ hi, rfl⟩
  | call buf data size hs hc hn =>
    rw [hc]
    exact ⟨call, by rw [List.getElem?_append_left hlt, hi], rfl⟩
  | empty flags hf hs hc hn => exact ⟨call, hc ▸ hi, rfl⟩
  | round j alloc call' n hj hr hv hle hsize hs hc hn =>
    rw [hc]
    exact hset hj (call'.advance_data n)
  | fails j alloc call' r hj hbad hs hc hn =>
    rw [hc]
    exact hset hj rfl
  | cross pkt hst hs hc hn => exact ⟨call, hc ▸ hi, rfl⟩

theorem call_run {c : Conn} {i : Nat} {call : TxCall} (hi : c.calls[i]? = some call)
    (es : List Event) : ∃ d, (run step c es).calls[i]? = some d ∧ d.data = call.data := by
  induction es generalizing c call with
  | nil => exact ⟨call, hi, rfl⟩
  | cons e es ih =>
    obtain ⟨d, hd, hdata⟩ := call_step hi e
    obtain ⟨d', hd', hdata'⟩ := ih hd
    exact ⟨d', hd', hdata'.trans hdata⟩

theorem CallOk.prefix_data {new : List Sent} {i : Nat} {call : TxCall} (h : CallOk new i call) :
    payload i new <+: call.data := by
  rw [h.payload_eq]
  exact List.take_prefix _ _

theorem CallOk.whole {new : List Sent} {i : Nat} {call : TxCall} (h : CallOk new i call)
    (hr : call.result = some call.dataSize) : payload i new = call.data := by
  have hsent : call.dataSent = call.dataSize := by
    cases h.result with
    | inl hn => simp [hn] at hr
    | inr he => exact he
  rw [h.payload_eq, hsent, dataSize_toNat, List.take_length]

theorem starts_sending {c : Conn} (ho : Open c.control)
    (hcalls : ∀ call ∈ c.calls, call.Starts) :
    Sending c.tcb.sndNxt [] c := by
  refine ⟨ho, rfl, by simp, ?_, by simp⟩
  intro i call hi
  have hst := hcalls call (List.mem_of_getElem? hi)
  refine ⟨hst.flags, hst.retries, ?_, ?_, Or.inl hst.result⟩
  · rw [hst.dataSent, UInt32.le_iff_toNat_le]
    exact Nat.zero_le _
  · rw [hst.dataSent]
    rfl

theorem send_tiling (c : Conn) (calls : List TxCall) (es : List Event) (hc : Reachable c)
    (hs : c.tcb.state ∈ [TcpState.established, .finWait1, .finWait2, .timeWait])
    (hcalls : ∀ call ∈ calls, call.Starts) :
    let last := run step { c with calls := calls } es
    ∃ new, last.sent = c.sent ++ new ∧
      Tiles c.tcb.sndNxt new last.tcb.sndNxt ∧
      (∀ x ∈ new, x.Fits) ∧
      (∀ (i : Nat) call, calls[i]? = some call → ∃ d,
        last.calls[i]? = some d ∧ d.data = call.data) ∧
      ∀ i call, last.calls[i]? = some call →
        payload i new <+: call.data ∧ (call.result = some call.dataSize →
          payload i new = call.data) := by
  intro last
  have ho : Open c.control := hc.reached.inv.opened hs
  have hstart : Sending c.tcb.sndNxt [] { c with calls := calls } :=
    starts_sending (c := { c with calls := calls }) ho hcalls
  obtain ⟨new, hnew, hlast⟩ := hstart.run es
  rw [List.nil_append] at hlast
  refine ⟨new, hnew, hlast.tiles, hlast.fits, ?_, ?_⟩
  · intro i call hi
    exact call_run (c := { c with calls := calls }) hi es
  · intro i call hi
    have hk := hlast.calls i call hi
    exact ⟨hk.prefix_data, hk.whole⟩

def sampleSends : List TxCall :=
  [.start [1, 2, 3, 4, 5] (by decide) tcpAck retriesInfinite,
    .start [6, 7] (by decide) tcpFinAck retriesSendonce]

def sampleInterleaving : List Event :=
  [.sendRound 0 true, .sendRound 1 true, .close, .closeFin,
    .segment (samplePeer 5001 1004 tcpAck 2 []), .rxStep, .rxStep, .rxStep, .sendRound 0 true]

theorem send_tiling_sample :
    (sampleOpen 1000 3).tcb.state = .established ∧
    ∃ new, (run step { sampleOpen 1000 3 with calls := sampleSends } sampleInterleaving).sent =
        (sampleOpen 1000 3).sent ++ new ∧ new.length = 4 ∧ payload 0 new = [1, 2, 3, 4, 5] := by
  refine ⟨by decide +kernel, ?_⟩
  have hst : ∀ call ∈ sampleSends, call.Starts := by
    intro call hm
    simp only [sampleSends, List.mem_cons, List.not_mem_nil, or_false] at hm
    cases hm with
    | inl he => exact he ▸ ⟨Or.inl rfl, rfl, rfl, rfl⟩
    | inr he => exact he ▸ ⟨Or.inr rfl, rfl, rfl, rfl⟩
  obtain ⟨new, hnew, -, -, -, hpay⟩ :=
    send_tiling (sampleOpen 1000 3) sampleSends sampleInterleaving
      (sampleOpen_reachable 1000 3) (by decide +kernel) hst
  refine ⟨new, hnew, ?_, ?_⟩
  · have hlast : (run step { sampleOpen 1000 3 with
        calls := sampleSends } sampleInterleaving).sent.length = 6 := by
      decide +kernel
    have hfirst : (sampleOpen 1000 3).sent.length = 2 := by decide +kernel
    have hlen := hlast.symm.trans (congrArg List.length hnew)
    rw [List.length_append, hfirst] at hlen
    omega
  · have hret : ((run step { sampleOpen 1000 3 with
        calls := sampleSends } sampleInterleaving).calls[0]?).map
        (fun d => (d.data, d.result)) = some ([1, 2, 3, 4, 5], some 5) := by decide +kernel
    obtain ⟨call, hcall, hd⟩ := Option.map_eq_some_iff.mp hret
    obtain ⟨hdata, hres⟩ := Prod.mk.inj hd
    have hsize : call.dataSize = 5 := by rw [TxCall.dataSize, hdata]; rfl
    rw [(hpay 0 call hcall).2 (by rw [hres, hsize]), hdata]

end AnpNetstack
