import AnpNetstack.Sockets

/-! The receive side of an open connection: what read_bytes has returned and rcv_buff
still holds is the peer's stream up to rcv_nxt, whatever order the segments come in. -/
namespace AnpNetstack
open Runs

inductive RecvCall where
  | tcpRx (pkt : Packet)
  | readBytes (len : UInt32)

def recvStep (c : Conn) : RecvCall → Conn
  | .tcpRx pkt => tcpRx c pkt
  | .readBytes len => readBytes c len

structure Carries (pkt : Packet) (text : List UInt8) : Prop where
  ihl : pkt.ip.ihl = 5
  offset : pkt.tcp.hdr.dataOffset >>> 4 = 5
  len : pkt.ip.len.toNat = 40 + text.length
  prefix_data : text <+: pkt.tcp.data

theorem Carries.segmentLen_toNat {pkt : Packet} {text : List UInt8} (h : Carries pkt text) :
    (segmentLen pkt).toNat = text.length := by
  have hlt := pkt.ip.len.toNat_lt
  have hlen := h.len
  have hi : ipPayloadLen pkt.ip - ((pkt.tcp.hdr.dataOffset >>> 4).toNat : Int) * 4 =
      (text.length : Int) := by
    rw [ipPayloadLen, h.ihl, h.offset]
    have h5 : (5 : UInt8).toNat = 5 := rfl
    omega
  rw [segmentLen, hi, UInt32.ofInt, UInt32.toNat_ofNat']
  omega

theorem Carries.not_tooShort {pkt : Packet} {text : List UInt8} (h : Carries pkt text) :
    tooShort pkt = false := by
  have hlt := pkt.ip.len.toNat_lt
  have hlen := h.len
  have h5 : (5 : UInt8).toNat = 5 := rfl
  have hi : ipPayloadLen pkt.ip = 20 + text.length := by
    rw [ipPayloadLen, h.ihl]
    omega
  rw [tooShort, hi, decide_eq_false_iff_not]
  omega

theorem Carries.eq_take {pkt : Packet} {text : List UInt8} (h : Carries pkt text) :
    text = pkt.tcp.data.take (segmentLen pkt).toNat := by
  rw [h.segmentLen_toNat]
  exact List.prefix_iff_eq_take.mp h.prefix_data

def Plain (pkt : Packet) : Prop :=
  hasFlag pkt.tcp.hdr.flags tcpFin = false ∧ ∃ text, Carries pkt text

/-- The text of the segment stands at its sequence position in the peer's stream. -/
def SliceOf (stream : List UInt8) (irs : UInt32) (pkt : Packet) : Prop :=
  ∀ text, Carries pkt text →
    text = (stream.drop (pkt.tcp.hdr.seqNum - (irs + 1)).toNat).take text.length

def ActsOk (ok : Packet → Prop) (acts : List RxAct) : Prop :=
  ∀ a ∈ acts, ∀ pkt, a = .text pkt ∨ a = .fin pkt → ok pkt

def AcksStored (irs : UInt32) (x : Sent) : Prop :=
  x.seg.hdr.ackNum = x.tcb.rcvNxt ∧ x.tcb.rcvNxt = irs + 1 + UInt32.ofNat x.stored

structure RecvInv (ok : Packet → Prop) (irs : UInt32) (old : List Sent) (c : Conn) : Prop where
  state : c.tcb.state = .synReceived ∨ c.tcb.state = .established
  irs_eq : c.tcb.irs = irs
  buff : c.tcb.rcvBuffLen ≤ tcpRcvMax
  nxt : c.tcb.rcvNxt = irs + 1 + UInt32.ofNat c.delivered.length
  acts : ActsOk ok c.rx
  queued : ∃ new, c.sent = old ++ new ∧ ∀ x ∈ new, AcksStored irs x

theorem delivered_length (c : Conn) (h : c.tcb.rcvBuffLen ≤ tcpRcvMax) :
    c.delivered.length = c.read.length + c.tcb.rcvBuffLen.toNat := by
  have hs := c.tcb.rcvBuff.size
  rw [UInt32.le_iff_toNat_le] at h
  rw [Conn.delivered, List.length_append, List.length_take]
  omega

theorem RecvInv.tx {ok : Packet → Prop} {irs : UInt32} {old : List Sent} {c : Conn}
    (h : RecvInv ok irs old c) (flags : UInt8) (retries : Int) :
    RecvInv ok irs old (tcpTxEmpty c flags retries) := by
  cases tcpTxEmpty_cases c flags retries with
  | inl he =>
    rw [he]
    exact h
  | inr he =>
    rw [he, txSegment_eq]
    obtain ⟨new, hnew, hacks⟩ := h.queued
    refine ⟨h.state, h.irs_eq, h.buff, h.nxt, h.acts, ?_⟩
    refine ⟨new ++ [_], by rw [hnew]; exact List.append_assoc .., ?_⟩
    intro x hx
    cases List.mem_append.mp hx with
    | inl hx => exact hacks x hx
    | inr hx =>
      rw [List.mem_singleton.mp hx]
      refine ⟨rfl, ?_⟩
      have hl := delivered_length c h.buff
      have hn := h.nxt
      rw [hl] at hn
      exact hn

theorem RecvInv.switch {ok : Packet → Prop} {irs : UInt32} {old : List Sent} {c : Conn}
    (h : RecvInv ok irs old c) (pkt : Packet) (hpkt : ok pkt) :
    RecvInv ok irs old (tcpRxSwitch c pkt) := by
  have hacts (pre : List RxAct) (hp : ∀ a ∈ pre, ∃ f r, a = .tx f r) :
      ActsOk ok (pre ++ [.text pkt, .fin pkt]) := by
    intro a ha p hap
    cases List.mem_append.mp ha with
    | inl ha =>
      obtain ⟨f, r, rfl⟩ := hp a ha
      simp at hap
    | inr ha =>
      have hpkt' : p = pkt := by
        cases hap with
        | inl he => simpa [he] using ha
        | inr he => simpa [he] using ha
      exact hpkt' ▸ hpkt
  have hopen : c.tcb.state ≠ .synSent ∧ c.tcb.state ≠ .finWait1 := by
    cases h.state with
    | inl hst => simp [hst]
    | inr hst => simp [hst]
  cases tcpRxSwitch_cases c pkt with
  | inl he =>
    rw [he]
    exact h
  | inr ht =>
    obtain ⟨c', he, -, -, ht⟩ := ht
    rw [he]
    cases ht with
    | establish hs hf hu => exact absurd hs hopen.1
    | cross hs hf hu => exact absurd hs hopen.1
    | confirm hs hf ha =>
      exact ⟨Or.inr rfl, h.irs_eq, h.buff, h.nxt,
        hacts [.tx tcpAck retriesSendonce] (by simp), h.queued⟩
    | ack hs hf =>
      have ht : takeAck c.tcb pkt.tcp.hdr =
          { c.tcb with sndUna := (takeAck c.tcb pkt.tcp.hdr).sndUna } :=
        takeAck_frame (fun tcb => { tcb with sndUna := (takeAck c.tcb pkt.tcp.hdr).sndUna })
          (fun _ _ => rfl) c.tcb pkt.tcp.hdr
      unfold ackEstablished
      dsimp only
      rw [ht]
      exact ⟨h.state, h.irs_eq, h.buff, h.nxt, hacts [] (by simp), h.queued⟩
    | finWait hs hf => exact absurd hs hopen.2

/-- In-order text is appended to what has been delivered as far as it fits. -/
theorem delivered_save {c c' : Conn} {pkt : Packet} {text : List UInt8}
    (hb : c.tcb.rcvBuffLen ≤ tcpRcvMax) (ht : Carries pkt text)
    (htcb : c'.tcb = (saveDataAndAck c.tcb pkt.tcp.data (segmentLen pkt)).1)
    (hread : c'.read = c.read) :
    c'.delivered = c.delivered ++ text.take (finalCopySize c.tcb (segmentLen pkt)).toNat := by
  set n := (finalCopySize c.tcb (segmentLen pkt)).toNat
  have hl := ht.segmentLen_toNat
  have hp := ht.prefix_data.length_le
  have hn : n ≤ text.length := by
    have h := finalCopySize_toNat c.tcb (segmentLen pkt) hb
    omega
  have hd : pkt.tcp.data.take n = text.take n := by
    obtain ⟨tail, htail⟩ := ht.prefix_data
    rw [← htail, List.take_append_of_le_length hn]
  have hs := saveDataAndAck_cells c.tcb pkt.tcp.data (segmentLen pkt) hb (by omega)
  rw [Conn.delivered, Conn.delivered, htcb, hread, hs, hd, List.append_assoc]

theorem RecvInv.stored {ok : Packet → Prop} {irs : UInt32} {old : List Sent} {c c' : Conn}
    (h : RecvInv ok irs old c) {pkt : Packet} {text : List UInt8} (ht : Carries pkt text)
    (htcb : c'.tcb = (saveDataAndAck c.tcb pkt.tcp.data (segmentLen pkt)).1)
    (hread : c'.read = c.read) (hsent : c'.sent = c.sent) (hacts : ActsOk ok c'.rx) :
    RecvInv ok irs old c' := by
  have hd := delivered_save h.buff ht htcb hread
  have hn := finalCopySize_toNat c.tcb (segmentLen pkt) h.buff
  have hl := ht.segmentLen_toNat
  constructor
  · rw [htcb, saveDataAndAck_state]
    exact h.state
  · rw [htcb, saveDataAndAck_irs]
    exact h.irs_eq
  · rw [htcb]
    exact saveDataAndAck_buffLen_le c.tcb pkt.tcp.data (segmentLen pkt) h.buff
  · rw [hd, htcb, saveDataAndAck_rcvNxt, h.nxt, List.length_append, List.length_take,
      Nat.min_eq_left (by omega), UInt32.ofNat_add, UInt32.ofNat_toNat, UInt32.add_assoc]
  · exact hacts
  · rw [hsent]
    exact h.queued

theorem RecvInv.text {ok : Packet → Prop} {irs : UInt32} {old : List Sent} {c : Conn}
    (h : RecvInv ok irs old c) (hok : ∀ pkt, ok pkt → Plain pkt)
    {pkt : Packet} {rest : List RxAct} (hrx : c.rx = .text pkt :: rest) :
    RecvInv ok irs old (rxText c pkt rest) := by
  have hrest : ActsOk ok rest := fun a ha => h.acts a (by rw [hrx]; exact List.mem_cons_of_mem _ ha)
  have hpkt : ok pkt := h.acts (.text pkt) (by simp [hrx]) pkt (Or.inl rfl)
  obtain ⟨-, text, ht⟩ := hok pkt hpkt
  have hstep := rxText_step c pkt rest
  generalize rxText c pkt rest = c' at hstep ⊢
  cases hstep with
  | none hz => exact ⟨h.state, h.irs_eq, h.buff, h.nxt, hrest, h.queued⟩
  | outOfOrder hz hseq => exact ⟨h.state, h.irs_eq, h.buff, h.nxt, by simp [ActsOk], h.queued⟩
  | stored hz hseq =>
    refine h.stored ht rfl rfl rfl ?_
    dsimp only
    split_ifs
    · intro a ha p hap
      cases List.mem_cons.mp ha with
      | inl ha => simp [ha] at hap
      | inr ha => exact hrest a ha p hap
    · exact hrest

theorem RecvInv.fin {ok : Packet → Prop} {irs : UInt32} {old : List Sent} {c : Conn}
    (h : RecvInv ok irs old c) {pkt : Packet} (hf : hasFlag pkt.tcp.hdr.flags tcpFin = false) :
    RecvInv ok irs old (rxFin c pkt) := by
  have hstep := rxFin_step c pkt
  generalize rxFin c pkt = c' at hstep ⊢
  cases hstep with
  | dropped hs => exact ⟨h.state, h.irs_eq, h.buff, h.nxt, by simp [ActsOk], h.queued⟩
  | taken hf' hw => simp [hf] at hf'
  | ignored hf' hw => simp [hf] at hf'
  | noFin hf => exact ⟨h.state, h.irs_eq, h.buff, h.nxt, by simp [ActsOk], h.queued⟩

theorem RecvInv.rxStep {ok : Packet → Prop} {irs : UInt32} {old : List Sent} {c : Conn}
    (h : RecvInv ok irs old c) (hok : ∀ pkt, ok pkt → Plain pkt) :
    RecvInv ok irs old (rxStep c) := by
  cases hrx : c.rx with
  | nil =>
    rw [rxStep_nil hrx]
    exact h
  | cons a rest =>
    have hrest : ActsOk ok rest :=
      fun b hb => h.acts b (by rw [hrx]; exact List.mem_cons_of_mem _ hb)
    have hskip : RecvInv ok irs old { c with rx := rest } :=
      ⟨h.state, h.irs_eq, h.buff, h.nxt, hrest, h.queued⟩
    cases a with
    | tx flags retries =>
      rw [rxStep_tx hrx]
      exact hskip.tx flags retries
    | text pkt =>
      rw [rxStep_text hrx]
      exact h.text hok hrx
    | fin pkt =>
      have hpkt : ok pkt := h.acts (.fin pkt) (by simp [hrx]) pkt (Or.inr rfl)
      rw [rxStep_fin hrx]
      exact h.fin (hok pkt hpkt).1
    | unlock =>
      rw [rxStep_unlock hrx]
      exact ⟨h.state, h.irs_eq, h.buff, h.nxt, hrest, h.queued⟩
    | timer =>
      rw [rxStep_timer hrx]
      exact ⟨h.state, h.irs_eq, h.buff, h.nxt, hrest, h.queued⟩

theorem RecvInv.tcpRx {ok : Packet → Prop} {irs : UInt32} {old : List Sent} {c : Conn}
    (h : RecvInv ok irs old c) (hok : ∀ pkt, ok pkt → Plain pkt) {pkt : Packet} (hpkt : ok pkt) :
    RecvInv ok irs old (tcpRx c pkt) :=
  Function.Iterate.rec (RecvInv ok irs old) (h.switch pkt hpkt) (fun _ hc => hc.rxStep hok) 7

theorem RecvInv.readBytes {ok : Packet → Prop} {irs : UInt32} {old : List Sent} {c : Conn}
    (h : RecvInv ok irs old c) (n : UInt32) : RecvInv ok irs old (readBytes c n) := by
  have hd := readBytes_delivered c n h.buff
  have hb := readBytes_buffLen_le c n h.buff
  have hn := h.nxt
  rw [← hd] at hn
  revert hd hb hn
  unfold AnpNetstack.readBytes
  split_ifs
  · intros
    exact h
  · intro hd hb hn
    exact ⟨h.state, h.irs_eq, hb, hn, h.acts, h.queued⟩

theorem delivered_congr {c c' : Conn} (hb : c'.tcb.rcvBuff = c.tcb.rcvBuff)
    (hl : c'.tcb.rcvBuffLen = c.tcb.rcvBuffLen) (hr : c'.read = c.read) :
    c'.delivered = c.delivered := by
  rw [Conn.delivered, Conn.delivered, hb, hl, hr]

theorem delivered_switch (c : Conn) (pkt : Packet) :
    (tcpRxSwitch c pkt).delivered = c.delivered := by
  cases tcpRxSwitch_cases c pkt with
  | inl he =>
    rw [he]
  | inr ht =>
    obtain ⟨c', he, -, -, ht⟩ := ht
    rw [he]
    cases ht with
    | establish hs hf hu => exact delivered_congr rfl rfl rfl
    | cross hs hf hu => exact delivered_congr rfl rfl rfl
    | confirm hs hf ha => exact delivered_congr rfl rfl rfl
    | ack hs hf =>
      have hbuff := takeAck_frame Tcb.rcvBuff (fun _ _ => rfl) c.tcb pkt.tcp.hdr
      have hlen := takeAck_frame Tcb.rcvBuffLen (fun _ _ => rfl) c.tcb pkt.tcp.hdr
      exact delivered_congr hbuff hlen rfl
    | finWait hs hf => exact delivered_congr rfl rfl rfl

theorem prefix_append_slice {α : Type*} {xs text stream : List α} (n : Nat) (h : xs <+: stream)
    (ht : text = (stream.drop xs.length).take text.length) : xs ++ text.take n <+: stream := by
  obtain ⟨tail, rfl⟩ := h
  rw [List.drop_left] at ht
  have hp : text <+: tail := by
    rw [ht]
    exact List.take_prefix _ _
  exact List.prefix_append_right_inj xs |>.mpr ((List.take_prefix n text).trans hp)

/-- The text of an in-order segment goes on where the delivered bytes end. -/
theorem prefix_text {ok : Packet → Prop} {irs : UInt32} {old : List Sent} {c c' : Conn}
    {stream : List UInt8} (h : RecvInv ok irs old c) (hs : stream.length < 2 ^ 32)
    (hp : c.delivered <+: stream) {pkt : Packet} {text : List UInt8} (ht : Carries pkt text)
    (hsl : SliceOf stream irs pkt) (hseq : pkt.tcp.hdr.seqNum = c.tcb.rcvNxt)
    (htcb : c'.tcb = (saveDataAndAck c.tcb pkt.tcp.data (segmentLen pkt)).1)
    (hread : c'.read = c.read) : c'.delivered <+: stream := by
  have hlen := hp.length_le
  have hoff : (pkt.tcp.hdr.seqNum - (irs + 1)).toNat = c.delivered.length := by
    rw [hseq, h.nxt, UInt32.add_comm, UInt32.add_sub_cancel, UInt32.toNat_ofNat', Nat.mod_eq_of_lt]
    omega
  have hsl' := hsl text ht
  rw [hoff] at hsl'
  rw [delivered_save h.buff ht htcb hread]
  exact prefix_append_slice _ hp hsl'

theorem prefix_rxStep {ok : Packet → Prop} {irs : UInt32} {old : List Sent} {c : Conn}
    {stream : List UInt8} (h : RecvInv ok irs old c) (hok : ∀ pkt, ok pkt → Plain pkt)
    (hsl : ∀ pkt, ok pkt → SliceOf stream irs pkt) (hs : stream.length < 2 ^ 32)
    (hp : c.delivered <+: stream) : (rxStep c).delivered <+: stream := by
  cases hrx : c.rx with
  | nil =>
    rw [rxStep_nil hrx]
    exact hp
  | cons a rest =>
    cases a with
    | tx flags retries =>
      rw [rxStep_tx hrx]
      cases tcpTxEmpty_cases { c with rx := rest } flags retries with
      | inl he =>
        rw [he]
        exact hp
      | inr he =>
        rw [he, txSegment_eq]
        exact hp
    | text pkt =>
      have hpkt : ok pkt := h.acts (.text pkt) (by simp [hrx]) pkt (Or.inl rfl)
      obtain ⟨-, text, ht⟩ := hok pkt hpkt
      rw [rxStep_text hrx]
      have hstep := rxText_step c pkt rest
      generalize rxText c pkt rest = c' at hstep ⊢
      cases hstep with
      | none hz => exact hp
      | outOfOrder hz hseq => exact hp
      | stored hz hseq => exact prefix_text h hs hp ht (hsl pkt hpkt) hseq rfl rfl
    | fin pkt =>
      have hpkt : ok pkt := h.acts (.fin pkt) (by simp [hrx]) pkt (Or.inr rfl)
      have hf := (hok pkt hpkt).1
      rw [rxStep_fin hrx]
      have hstep := rxFin_step c pkt
      generalize rxFin c pkt = c' at hstep ⊢
      cases hstep with
      | dropped hs => exact hp
      | taken hf' hw => simp [hf] at hf'
      | ignored hf' hw => simp [hf] at hf'
      | noFin hf => exact hp
    | unlock =>
      rw [rxStep_unlock hrx]
      exact hp
    | timer =>
      rw [rxStep_timer hrx]
      exact hp

theorem prefix_tcpRx {ok : Packet → Prop} {irs : UInt32} {old : List Sent} {c : Conn}
    {stream : List UInt8} (h : RecvInv ok irs old c) (hok : ∀ pkt, ok pkt → Plain pkt)
    (hsl : ∀ pkt, ok pkt → SliceOf stream irs pkt) (hs : stream.length < 2 ^ 32)
    {pkt : Packet} (hpkt : ok pkt) (hp : c.delivered <+: stream) :
    (tcpRx c pkt).delivered <+: stream := by
  have hboth := Function.Iterate.rec (fun c => RecvInv ok irs old c ∧ c.delivered <+: stream)
    ⟨h.switch pkt hpkt, (delivered_switch c pkt).symm ▸ hp⟩
    (fun _ hc => ⟨hc.1.rxStep hok, prefix_rxStep hc.1 hok hsl hs hc.2⟩) 7
  exact hboth.2

structure AwaitsSyn (c : Conn) : Prop where
  state : c.tcb.state = .synSent
  unlocked : c.tcbLock = false
  empty : c.tcb.rcvBuffLen = 0
  unread : c.read = []

theorem AwaitsSyn.switch {c : Conn} (h : AwaitsSyn c) {syn : Packet}
    (ha : accepted c.tcb syn = true) (hf : hasFlag syn.tcp.hdr.flags tcpSyn = true)
    (ok : Packet → Prop) : RecvInv ok syn.tcp.hdr.seqNum c.sent (tcpRxSwitch c syn) := by
  have hd : c.delivered = [] := by simp [Conn.delivered, h.empty, h.unread]
  have hb : c.tcb.rcvBuffLen ≤ tcpRcvMax := by
    rw [h.empty]
    decide
  have hsw : tcpRxSwitch c syn =
      if (takeSyn c.tcb syn.tcp.hdr).sndUna > c.tcb.iss then synEstablish c syn.tcp.hdr
      else synCross c syn.tcp.hdr := by
    simp only [tcpRxSwitch, ha, h.unlocked, h.state, hf, Bool.not_true, Bool.or_false,
      Bool.false_eq_true, if_false, if_true]
  have hnxt : (tcpRxSwitch c syn).tcb.rcvNxt =
      syn.tcp.hdr.seqNum + 1 + UInt32.ofNat (tcpRxSwitch c syn).delivered.length := by
    rw [delivered_switch, hd, hsw]
    split_ifs <;> exact (UInt32.add_zero _).symm
  rw [hsw] at hnxt ⊢
  split_ifs at hnxt ⊢ with hu
  · exact ⟨Or.inr rfl, rfl, hb, hnxt, by simp [synEstablish, ActsOk], [], by simp [synEstablish],
      by simp⟩
  · exact ⟨Or.inl rfl, rfl, hb, hnxt, by simp [synCross, ActsOk], [], by simp [synCross], by simp⟩

theorem AwaitsSyn.taken {c : Conn} (h : AwaitsSyn c) {syn : Packet}
    (ha : accepted c.tcb syn = true) (hf : hasFlag syn.tcp.hdr.flags tcpSyn = true)
    {ok : Packet → Prop} (hok : ∀ pkt, ok pkt → Plain pkt) :
    RecvInv ok syn.tcp.hdr.seqNum c.sent (tcpRx c syn) :=
  Function.Iterate.rec (RecvInv ok syn.tcp.hdr.seqNum c.sent) (h.switch ha hf ok)
    (fun _ hc => hc.rxStep hok) 7

/-- A SYN carries nothing into rcv_buff: no act of its processing concerns a packet. -/
theorem AwaitsSyn.taken_delivered {c : Conn} (h : AwaitsSyn c) {syn : Packet}
    (ha : accepted c.tcb syn = true) (hf : hasFlag syn.tcp.hdr.flags tcpSyn = true) :
    (tcpRx c syn).delivered = [] := by
  have hd : c.delivered = [] := by simp [Conn.delivered, h.empty, h.unread]
  have hboth := Function.Iterate.rec
    (fun c' => RecvInv (fun _ => False) syn.tcp.hdr.seqNum c.sent c' ∧ c'.delivered <+: [])
    ⟨h.switch ha hf _, by simp [delivered_switch, hd]⟩
    (fun _ hc => ⟨hc.1.rxStep (fun _ hp => hp.elim),
      prefix_rxStep hc.1 (fun _ hp => hp.elim) (fun _ hp => hp.elim) (by decide) hc.2⟩) 7
  exact List.prefix_nil.mp hboth.2

theorem RecvInv.call {ok : Packet → Prop} {irs : UInt32} {old : List Sent} {c : Conn}
    (h : RecvInv ok irs old c) (hok : ∀ pkt, ok pkt → Plain pkt) {e : RecvCall}
    (he : ∀ pkt, e = .tcpRx pkt → ok pkt) : RecvInv ok irs old (recvStep c e) := by
  cases e with
  | tcpRx pkt => exact h.tcpRx hok (he pkt rfl)
  | readBytes n => exact h.readBytes n

theorem RecvInv.run {ok : Packet → Prop} {irs : UInt32} {old : List Sent} {c : Conn}
    (h : RecvInv ok irs old c) (hok : ∀ pkt, ok pkt → Plain pkt) {calls : List RecvCall}
    (hc : Along recvStep (fun _ e => ∀ pkt, e = .tcpRx pkt → ok pkt) c calls) :
    RecvInv ok irs old (run recvStep c calls) :=
  run_invariant recvStep (fun _ _ hs he => hs.call hok he) h hc

theorem prefix_run {ok : Packet → Prop} {irs : UInt32} {old : List Sent} {c : Conn}
    {stream : List UInt8} (h : RecvInv ok irs old c) (hok : ∀ pkt, ok pkt → Plain pkt)
    (hsl : ∀ pkt, ok pkt → SliceOf stream irs pkt) (hs : stream.length < 2 ^ 32)
    (hp : c.delivered <+: stream) {calls : List RecvCall}
    (hc : Along recvStep (fun _ e => ∀ pkt, e = .tcpRx pkt → ok pkt) c calls) :
    (run recvStep c calls).delivered <+: stream := by
  have hboth := run_invariant recvStep
    (I := fun c => RecvInv ok irs old c ∧ c.delivered <+: stream)
    (fun s e hi he => by
      refine ⟨hi.1.call hok he, ?_⟩
      cases e with
      | tcpRx pkt => exact prefix_tcpRx hi.1 hok hsl hs (he pkt rfl) hi.2
      | readBytes n =>
        change (AnpNetstack.readBytes s n).delivered <+: stream
        rw [readBytes_delivered s n hi.1.buff]
        exact hi.2) ⟨h, hp⟩ hc
  exact hboth.2

/-- Receive-stream integrity, from the peer's SYN on and for every order of the calls. -/
theorem receive_stream_integrity (c : Conn) (syn : Packet) (calls : List RecvCall)
    (hc : AwaitsSyn c) (ha : accepted c.tcb syn = true)
    (hf : hasFlag syn.tcp.hdr.flags tcpSyn = true)
    (hcalls : ∀ pkt, RecvCall.tcpRx pkt ∈ calls → Plain pkt) :
    let start := tcpRx c syn
    let last := run recvStep start calls
    (start.tcb.irs = syn.tcp.hdr.seqNum ∧ start.tcb.rcvNxt = start.tcb.irs + 1 ∧
      start.delivered = []) ∧
    (last.tcb.state = .synReceived ∨ last.tcb.state = .established) ∧
    last.tcb.rcvBuffLen ≤ tcpRcvMax ∧
    UInt32.ofNat last.delivered.length = last.tcb.rcvNxt - (start.tcb.irs + 1) ∧
    (∃ queued, last.sent = c.sent ++ queued ∧ ∀ x ∈ queued, AcksStored start.tcb.irs x) ∧
    ∀ stream : List UInt8, stream.length < 2 ^ 32 →
      (∀ pkt, RecvCall.tcpRx pkt ∈ calls → SliceOf stream start.tcb.irs pkt) →
      last.delivered <+: stream := by
  intro start last
  let ok : Packet → Prop := fun pkt => RecvCall.tcpRx pkt ∈ calls
  have hinv : RecvInv ok syn.tcp.hdr.seqNum c.sent start := hc.taken ha hf hcalls
  have hempty : start.delivered = [] := hc.taken_delivered ha hf
  have halong : Along recvStep (fun _ e => ∀ pkt, e = .tcpRx pkt → ok pkt) start calls := by
    refine along_of_forall recvStep ?_ start
    rintro e he - pkt rfl
    exact he
  have hlast : RecvInv ok syn.tcp.hdr.seqNum c.sent last := hinv.run hcalls halong
  have hirs := hinv.irs_eq
  refine ⟨⟨hirs, ?_, hempty⟩, hlast.state, hlast.buff, ?_, ?_, ?_⟩
  · rw [hinv.nxt, hirs, hempty]
    exact UInt32.add_zero _
  · rw [hlast.nxt, hirs, UInt32.add_comm, UInt32.add_sub_cancel]
  · rw [hirs]
    exact hlast.queued
  · intro stream hs hsl
    rw [hirs] at hsl
    refine prefix_run hinv hcalls hsl hs ?_ halong
    rw [hempty]
    exact List.nil_prefix

def sampleCalls : List RecvCall :=
  [.tcpRx (samplePeer 5004 1001 tcpAck 1000 [4, 5]),
    .tcpRx (samplePeer 5001 1001 tcpAck 1000 [1, 2, 3]), .readBytes 2,
      .tcpRx (samplePeer 5001 1001 tcpAck 1000 [1, 2, 3])]

theorem receive_stream_integrity_sample :
    (run recvStep (tcpRx (sampleConn 1000) (samplePeer 5000 1001 tcpSynAck 1000 []))
      sampleCalls).delivered
      <+: [1, 2, 3, 4, 5] := by
  have hplain : ∀ pkt, RecvCall.tcpRx pkt ∈ sampleCalls → Plain pkt := by
    simp only [sampleCalls, List.mem_cons, RecvCall.tcpRx.injEq, reduceCtorEq, List.not_mem_nil,
      or_false, false_or]
    rintro pkt (rfl | rfl | rfl)
    · exact ⟨by decide +kernel, [4,
        5], by decide +kernel, by decide +kernel, by decide +kernel, by decide +kernel⟩
    · exact ⟨by decide +kernel, [1, 2,
        3], by decide +kernel, by decide +kernel, by decide +kernel, by decide +kernel⟩
    · exact ⟨by decide +kernel, [1, 2,
        3], by decide +kernel, by decide +kernel, by decide +kernel, by decide +kernel⟩
  have hint := receive_stream_integrity (sampleConn 1000) (samplePeer 5000 1001 tcpSynAck 1000 [])
    sampleCalls ⟨rfl, rfl, rfl, rfl⟩ (by decide +kernel) (by decide +kernel) hplain
  refine hint.2.2.2.2.2 [1, 2, 3, 4, 5] (by decide) ?_
  rw [hint.1.1]
  simp only [sampleCalls, List.mem_cons, RecvCall.tcpRx.injEq, reduceCtorEq, List.not_mem_nil,
    or_false, false_or]
  rintro pkt (rfl | rfl | rfl) text ht
  · rw [ht.eq_take]
    decide +kernel
  · rw [ht.eq_take]
    decide +kernel
  · rw [ht.eq_take]
    decide +kernel

end AnpNetstack
