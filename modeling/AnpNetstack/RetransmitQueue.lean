import AnpNetstack.SendTiling

/-! messages_array and the text in it: what add_msg_to_arr, stop_retransmit and a pass of
tcp_retransmit_handler do to the entries of one connection, and the invariant that ties
them to snd_una, snd_nxt and the record of queued segments while it is ESTABLISHED. -/
namespace AnpNetstack
open Runs

def hasText (self : Nat) (entry : TcpMessage) : Bool :=
  entry.tcb == self && entry.tcpDataLen != 0

def textEntry (self : Nat) (seg : TcpSegment) : TcpMessage where
  tcb := self
  sub := seg
  tcpPtr := seg
  tcpLen := 20 + UInt32.ofNat seg.data.length
  tcpDataLen := UInt32.ofNat seg.data.length
  retries := UInt32.ofInt retriesInfinite

def unacked (una : UInt32) (xs : List Sent) : List TcpSegment :=
  (xs.map Sent.seg).filter (fun s => !s.data.isEmpty && decide (una ≤ s.hdr.seqNum))

def textLength (xs : List Sent) : Nat := (xs.map (fun x => x.seg.data.length)).sum

/-- `ack` does not cut the text of a queued segment in two. -/
def OnBoundary (xs : List Sent) (ack : UInt32) : Prop :=
  ∀ x ∈ xs, ¬ (x.seg.hdr.seqNum < ack ∧ ack < x.seg.hdr.seqNum + UInt32.ofNat x.seg.data.length)

/-- A walk that keeps the chosen entries with `q` as they are and chooses no new ones. -/
theorem filter_walk {α : Type*} {p q : α → Bool} {f : α → Option α} {l : List α}
    (h : ∀ a ∈ l, (f a).filter p = if p a && q a then some a else none) :
    (l.filterMap f).filter p = (l.filter p).filter q := by
  calc
    (l.filterMap f).filter p = l.filterMap (fun a => (f a).filter p) := List.filter_filterMap ..
    _ = l.filterMap (Option.guard (fun a => p a && q a)) := by
      refine List.filterMap_congr ?_
      intro a ha
      rw [h a ha]
      rfl
    _ = (l.filter p).filter q := by
      rw [List.filterMap_eq_filter, List.filter_filter]
      simp only [Bool.and_comm]

theorem retransmitEntry_hasText {self : Nat} {entry : TcpMessage}
    (h : hasText self entry = true → entry.retries = UInt32.ofInt retriesInfinite) :
    (retransmitEntry entry).filter (hasText self) =
      if hasText self entry && true then some entry else none := by
  cases ht : hasText self entry with
  | true =>
    have hr := h ht
    have hne : UInt32.ofInt retriesInfinite ≠ UInt32.ofInt retriesSendonce := by decide
    simp [retransmitEntry, hr, hne, ht]
  | false =>
    have hkeep (r : UInt32) : hasText self { entry with retries := r } = false := ht
    unfold retransmitEntry
    split_ifs <;> simp_all

/-- A pass of tcp_retransmit_handler keeps the entries that are sent without end. -/
theorem retransmit_hasText {self : Nat} {msgs : List TcpMessage}
    (h : ∀ m ∈ msgs, hasText self m = true → m.retries = UInt32.ofInt retriesInfinite) :
    (tcpRetransmitHandler msgs).filter (hasText self) = msgs.filter (hasText self) := by
  have hf := filter_walk (q := fun _ => true) (fun m hm => retransmitEntry_hasText (h m hm))
  rw [tcpRetransmitHandler, hf]
  exact List.filter_eq_self.mpr (fun _ _ => rfl)

theorem stopEntry_hasText {self : Nat} {tcb : Tcb} {entry : TcpMessage}
    (h : hasText self entry = true → entry.tcpPtr.hdr.seqNum < tcb.sndUna →
      entry.tcpPtr.hdr.seqNum + entry.tcpDataLen ≤ tcb.sndUna) :
    (stopEntry self tcb entry).filter (hasText self) =
      if hasText self entry && decide (tcb.sndUna ≤ entry.tcpPtr.hdr.seqNum) then some entry
      else none := by
  cases ht : hasText self entry with
  | true =>
    have hself : entry.tcb = self := by
      simp only [hasText, Bool.and_eq_true, beq_iff_eq] at ht
      exact ht.1
    by_cases hlt : entry.tcpPtr.hdr.seqNum < tcb.sndUna
    · have hle := h ht hlt
      have hng : ¬ entry.tcpPtr.hdr.seqNum + entry.tcpDataLen > tcb.sndUna := UInt32.not_lt.mpr hle
      simp [stopEntry, hself, hlt, hng, UInt32.not_le.mpr hlt]
    · simp [stopEntry, hself, hlt, ht, UInt32.not_lt.mp hlt]
  | false =>
    by_cases hself : entry.tcb = self
    · -- without text the sum is the sequence number itself
      have hlen : entry.tcpDataLen = 0 := by simpa [hasText, hself] using ht
      by_cases hlt : entry.tcpPtr.hdr.seqNum < tcb.sndUna
      · have hng : ¬ tcb.sndUna < entry.tcpPtr.hdr.seqNum := UInt32.not_lt.mpr (UInt32.le_of_lt hlt)
        simp [stopEntry, hself, hlen, hlt, hng]
      · simp [stopEntry, hself, hlt, ht]
    · simp [stopEntry, hself, ht]

theorem stopRetransmit_hasText {self : Nat} {tcb : Tcb} {msgs : List TcpMessage}
    (h : ∀ m ∈ msgs, hasText self m = true → m.tcpPtr.hdr.seqNum < tcb.sndUna →
      m.tcpPtr.hdr.seqNum + m.tcpDataLen ≤ tcb.sndUna) :
    (stopRetransmit self tcb msgs).filter (hasText self) =
      (msgs.filter (hasText self)).filter (fun m => decide (tcb.sndUna ≤ m.tcpPtr.hdr.seqNum)) :=
  filter_walk (fun m hm => stopEntry_hasText (h m hm))

theorem unacked_advance {una ack : UInt32} (h : una ≤ ack) (xs : List Sent) :
    (unacked una xs).filter (fun s => decide (ack ≤ s.hdr.seqNum)) = unacked ack xs := by
  unfold unacked
  rw [List.filter_filter]
  refine List.filter_congr ?_
  intro s _
  by_cases ha : ack ≤ s.hdr.seqNum
  · have hu : una ≤ s.hdr.seqNum := UInt32.le_trans h ha
    simp [ha, hu]
  · simp [ha]

theorem unacked_append (una : UInt32) (xs ys : List Sent) :
    unacked una (xs ++ ys) = unacked una xs ++ unacked una ys := by
  simp [unacked]

theorem textLength_append (xs ys : List Sent) :
    textLength (xs ++ ys) = textLength xs + textLength ys := by
  simp [textLength]

structure SendSide where
  self : Nat
  sndUna : UInt32
  sndNxt : UInt32
  sent : List Sent
  calls : List TxCall
  messagesArray : List TcpMessage

def Conn.sendSide (c : Conn) : SendSide where
  self := c.self
  sndUna := c.tcb.sndUna
  sndNxt := c.tcb.sndNxt
  sent := c.sent
  calls := c.calls
  messagesArray := c.messagesArray

structure QueueInv (iss : UInt32) (s : SendSide) : Prop where
  una_le : s.sndUna ≤ s.sndNxt
  nxt : s.sndNxt.toNat = iss.toNat + 1 + textLength s.sent
  calls : ∀ call ∈ s.calls,
    call.flags = tcpAck ∧ call.retries = retriesInfinite ∧ call.dataSent ≤ call.dataSize
  entries : s.messagesArray.filter (hasText s.self) =
    (unacked s.sndUna s.sent).map (textEntry s.self)

/-- Every entry with text is the one its segment was queued with. -/
theorem QueueInv.entry {iss : UInt32} {s : SendSide} (h : QueueInv iss s) {m : TcpMessage}
    (hm : m ∈ s.messagesArray) (ht : hasText s.self m = true) :
    ∃ x ∈ s.sent, x.seg.data ≠ [] ∧ m = textEntry s.self x.seg := by
  have hmem : m ∈ (unacked s.sndUna s.sent).map (textEntry s.self) := by
    rw [← h.entries]
    exact List.mem_filter.mpr ⟨hm, ht⟩
  obtain ⟨seg, hseg, rfl⟩ := List.mem_map.mp hmem
  obtain ⟨hseg, hp⟩ := List.mem_filter.mp hseg
  obtain ⟨x, hx, rfl⟩ := List.mem_map.mp hseg
  have hne : x.seg.data ≠ [] := by
    intro he
    simp [he] at hp
  exact ⟨x, hx, hne, rfl⟩

theorem addMsgToArr_hasText (self : Nat) (seg : TcpSegment) {n : UInt32} {retries : Int}
    (msgs : List TcpMessage) (hlen : seg.data.length = n.toNat)
    (hret : n = 0 ∨ retries = retriesInfinite) :
    (addMsgToArr true self seg n retries msgs).filter (hasText self) =
      msgs.filter (hasText self) ++ if n = 0 then [] else [textEntry self seg] := by
  rw [addMsgToArr, if_pos rfl, List.filter_append]
  by_cases hn : n = 0
  · simp [hn, hasText]
  · have hentry : textEntry self seg =
        { tcb := self, sub := seg, tcpPtr := seg, tcpLen := 20 + n, tcpDataLen := n,
          retries := UInt32.ofInt retries } := by
      rw [textEntry, hlen, UInt32.ofNat_toNat, hret.resolve_left hn]
    rw [if_neg hn, hentry]
    simp [hasText, hn]

theorem unacked_single {una : UInt32} {x : Sent} {n : UInt32} (hlen : x.seg.data.length = n.toNat)
    (hle : una ≤ x.seg.hdr.seqNum) : unacked una [x] = if n = 0 then [] else [x.seg] := by
  have hz : x.seg.data = [] ↔ n = 0 := by
    rw [← List.length_eq_zero_iff, hlen, ← UInt32.toNat_inj]
    rfl
  by_cases hn : n = 0
  · simp [unacked, hz.mpr hn, hn]
  · simp [unacked, hz, hn, hle]

theorem QueueInv.tx {iss : UInt32} {c : Conn} (h : QueueInv iss c.sendSide) (who : Option Nat)
    {data : List UInt8} {n : UInt32} {retries : Int} (hlen : (data.take n.toNat).length = n.toNat)
    (hret : n = 0 ∨ retries = retriesInfinite)
    (hroom : iss.toNat + 1 + textLength c.sent + n.toNat < 2 ^ 32) :
    QueueInv iss (txSegment true c who data n tcpAck retries).sendSide := by
  have hctl : ctlLen tcpAck = 0 := by decide
  have hnxt : (c.tcb.sndNxt + ctlLen tcpAck + n).toNat = c.tcb.sndNxt.toNat + n.toNat := by
    have hn : c.tcb.sndNxt.toNat = iss.toNat + 1 + textLength c.sent := h.nxt
    rw [hctl, UInt32.add_zero, UInt32.toNat_add, Nat.mod_eq_of_lt]
    omega
  have huna : c.tcb.sndUna.toNat ≤ c.tcb.sndNxt.toNat := UInt32.le_iff_toNat_le.mp h.una_le
  have hrec : (sentRecord c who data n tcpAck).seg.data = data.take n.toNat := rfl
  have hside : (txSegment true c who data n tcpAck retries).sendSide =
      { c.sendSide with
        sndNxt := c.tcb.sndNxt + ctlLen tcpAck + n
        sent := c.sent ++ [sentRecord c who data n tcpAck]
        messagesArray := addMsgToArr true c.self (sentRecord c who data n tcpAck).seg n retries
          c.messagesArray } := by
    rw [txSegment_eq]
    rfl
  rw [hside]
  constructor
  · rw [UInt32.le_iff_toNat_le, hnxt]
    exact Nat.le_trans huna (Nat.le_add_right _ _)
  · have hn : c.tcb.sndNxt.toNat = iss.toNat + 1 + textLength c.sent := h.nxt
    have ht : textLength [sentRecord c who data n tcpAck] = n.toNat := by
      simp only [textLength, List.map_cons, List.map_nil, List.sum_singleton, hrec, hlen]
    rw [hnxt, hn, textLength_append, ht, Nat.add_assoc]
  · exact h.calls
  · have hent : c.messagesArray.filter (hasText c.self) =
        (unacked c.tcb.sndUna c.sent).map (textEntry c.self) := h.entries
    have hnew :=
      addMsgToArr_hasText c.self (sentRecord c who data n tcpAck).seg c.messagesArray hlen hret
    have hone := unacked_single (x := sentRecord c who data n tcpAck) hlen h.una_le
    dsimp only [Conn.sendSide] at hone ⊢
    rw [hnew, hent, unacked_append, hone, List.map_append]
    split_ifs <;> rfl

theorem QueueInv.retransmit {iss : UInt32} {c : Conn} (h : QueueInv iss c.sendSide) :
    QueueInv iss (retransmit c).sendSide := by
  refine ⟨h.una_le, h.nxt, h.calls, ?_⟩
  have hinf : ∀ m ∈ c.messagesArray, hasText c.self m = true →
      m.retries = UInt32.ofInt retriesInfinite := by
    intro m hm ht
    obtain ⟨x, -, -, rfl⟩ := h.entry hm ht
    rfl
  exact (retransmit_hasText hinf).trans h.entries

/-- An acknowledgement on a boundary takes out what it covers and nothing else. -/
theorem QueueInv.ack {iss : UInt32} {c : Conn} (h : QueueInv iss c.sendSide) (pkt : Packet)
    (hb : ackAdvances c.tcb pkt.tcp.hdr = true → OnBoundary c.sent pkt.tcp.hdr.ackNum) :
    QueueInv iss (ackEstablished c pkt).sendSide ∧
      c.tcb.sndUna ≤ (ackEstablished c pkt).tcb.sndUna := by
  by_cases ha : ackAdvances c.tcb pkt.tcp.hdr = true
  · have hlt : c.tcb.sndUna < pkt.tcp.hdr.ackNum ∧ pkt.tcp.hdr.ackNum ≤ c.tcb.sndNxt := by
      simpa [ackAdvances] using ha
    have htake : takeAck c.tcb pkt.tcp.hdr = { c.tcb with sndUna := pkt.tcp.hdr.ackNum } := by
      simp only [takeAck, ha, if_true]
    have hcut : ∀ m ∈ c.messagesArray, hasText c.self m = true →
        m.tcpPtr.hdr.seqNum < pkt.tcp.hdr.ackNum →
        m.tcpPtr.hdr.seqNum + m.tcpDataLen ≤ pkt.tcp.hdr.ackNum := by
      intro m hm ht hseq
      obtain ⟨x, hx, -, rfl⟩ := h.entry hm ht
      exact UInt32.not_lt.mp (fun hgt => hb ha x hx ⟨hseq, hgt⟩)
    have hstop : (stopRetransmit c.self { c.tcb with sndUna := pkt.tcp.hdr.ackNum }
          c.messagesArray).filter (hasText c.self) =
        (c.messagesArray.filter (hasText c.self)).filter
          (fun m => decide (pkt.tcp.hdr.ackNum ≤ m.tcpPtr.hdr.seqNum)) :=
            stopRetransmit_hasText hcut
    have hside : (ackEstablished c pkt).sendSide =
        { c.sendSide with
          sndUna := pkt.tcp.hdr.ackNum
          messagesArray := stopRetransmit c.self { c.tcb with sndUna := pkt.tcp.hdr.ackNum }
            c.messagesArray } := by
      simp only [ackEstablished, Conn.sendSide, htake, ha, if_true]
    have huna : (ackEstablished c pkt).tcb.sndUna = pkt.tcp.hdr.ackNum :=
      congrArg SendSide.sndUna hside
    have hent : c.messagesArray.filter (hasText c.self) =
        (unacked c.tcb.sndUna c.sent).map (textEntry c.self) := h.entries
    rw [hside, huna]
    refine ⟨⟨hlt.2, h.nxt, h.calls, ?_⟩, UInt32.le_of_lt hlt.1⟩
    calc
      (stopRetransmit c.self { c.tcb with sndUna := pkt.tcp.hdr.ackNum } c.messagesArray).filter
          (hasText c.self)
          = ((unacked c.tcb.sndUna c.sent).map (textEntry c.self)).filter
              (fun m => decide (pkt.tcp.hdr.ackNum ≤ m.tcpPtr.hdr.seqNum)) := by rw [hstop, hent]
      _ = ((unacked c.tcb.sndUna c.sent).filter
              (fun s => decide (pkt.tcp.hdr.ackNum ≤ s.hdr.seqNum))).map (textEntry c.self) := by
            rw [List.filter_map]
            rfl
      _ = (unacked pkt.tcp.hdr.ackNum c.sent).map (textEntry c.self) := by
            rw [unacked_advance (UInt32.le_of_lt hlt.1)]
  · have htake : takeAck c.tcb pkt.tcp.hdr = c.tcb := by
      simp only [takeAck, ha, if_false, Bool.false_eq_true]
    have hside : (ackEstablished c pkt).sendSide = c.sendSide := by
      simp only [ackEstablished, Conn.sendSide, htake, ha, if_false, Bool.false_eq_true]
    have huna : (ackEstablished c pkt).tcb.sndUna = c.tcb.sndUna := congrArg SendSide.sndUna hside
    rw [hside, huna]
    exact ⟨h, UInt32.le_refl _⟩

theorem QueueInv.sendRound {iss : UInt32} {c : Conn} (h : QueueInv iss c.sendSide) (i : Nat)
    (hroom : iss.toNat + 1 + textLength (sendRound c i true).sent < 2 ^ 32) :
    QueueInv iss (sendRound c i true).sendSide ∧
      (sendRound c i true).tcb.sndUna = c.tcb.sndUna := by
  by_cases hrun : ∃ call, c.calls[i]? = some call ∧ call.result = none
  · obtain ⟨call, hi, hr⟩ := hrun
    obtain ⟨hf, hret, hle⟩ := h.calls call (List.mem_of_getElem? hi)
    have hv : retriesValid call.retries = true := by
      rw [hret]
      decide
    have hlen := round_length c hle
    rw [sendRound_sent true hi hr hv hle, textLength_append] at hroom
    rw [sendRound_round true hi hr hv hle, hf]
    set n := nxtSegSize c.tcb call.dataSize call.dataSent with hn
    have hone : textLength [sentRecord c (some i)
        (call.data.drop call.dataSent.toNat) n call.flags] =
        n.toNat := by
      simp only [textLength, List.map_cons, List.map_nil, List.sum_singleton]
      exact hlen
    have hq := h.tx (some i) hlen (Or.inr hret) (by omega)
    refine ⟨⟨hq.una_le, hq.nxt, ?_, hq.entries⟩, by simp only [txSegment_tcb]⟩
    intro d hd
    cases List.mem_or_eq_of_mem_set hd with
    | inl hd => exact h.calls d hd
    | inr hd =>
      rw [hd]
      exact ⟨hf, hret, round_advance_le c hle⟩
  · rw [sendRound_idle true (fun call hi hr => hrun ⟨call, hi, hr⟩)]
    exact ⟨h, rfl⟩

theorem QueueInv.same {iss : UInt32} {c c' : Conn} (h : QueueInv iss c.sendSide)
    (hside : c'.sendSide = c.sendSide) :
    QueueInv iss c'.sendSide ∧ c.tcb.sndUna ≤ c'.tcb.sndUna := by
  have huna : c'.tcb.sndUna = c.tcb.sndUna := congrArg SendSide.sndUna hside
  rw [hside, huna]
  exact ⟨h, UInt32.le_refl _⟩

theorem QueueInv.send {iss : UInt32} {c : Conn} (h : QueueInv iss c.sendSide) (buf : List UInt8) :
    QueueInv iss (send c buf).sendSide ∧ c.tcb.sndUna ≤ (send c buf).tcb.sndUna := by
  unfold AnpNetstack.send
  split_ifs
  · refine ⟨⟨h.una_le, h.nxt, ?_, h.entries⟩, UInt32.le_refl _⟩
    intro call hcall
    cases List.mem_append.mp hcall with
    | inl hm => exact h.calls call hm
    | inr hm =>
      rw [List.mem_singleton.mp hm]
      refine ⟨rfl, rfl, ?_⟩
      rw [UInt32.le_iff_toNat_le]
      exact Nat.zero_le _
  · exact h.same rfl

theorem rxText_sendSide (c : Conn) (pkt : Packet) (rest : List RxAct) :
    (rxText c pkt rest).sendSide = c.sendSide := by
  have hstep := rxText_step c pkt rest
  generalize rxText c pkt rest = c' at hstep ⊢
  cases hstep with
  | none hz => rfl
  | outOfOrder hz hseq => rfl
  | stored hz hseq =>
    have hf := saveDataAndAck_frame (fun t => (t.sndUna, t.sndNxt)) (fun _ _ _ _ => rfl) c.tcb
      pkt.tcp.data (segmentLen pkt)
    obtain ⟨huna, hnxt⟩ := Prod.mk.inj hf
    simp only [Conn.sendSide, huna, hnxt]

theorem rxFin_sendSide (c : Conn) (pkt : Packet) : (rxFin c pkt).sendSide = c.sendSide := by
  have hstep := rxFin_step c pkt
  generalize rxFin c pkt = c' at hstep ⊢
  cases hstep with
  | dropped hs => rfl
  | taken hf hw => rfl
  | ignored hf hw => rfl
  | noFin hf => rfl

theorem QueueInv.rxStep {iss : UInt32} {c : Conn} (h : QueueInv iss c.sendSide)
    (hk : ControlInv c.control) (hs : c.tcb.state = .established)
    (hroom : iss.toNat + 1 + textLength c.sent < 2 ^ 32) :
    QueueInv iss (rxStep c).sendSide ∧ c.tcb.sndUna ≤ (rxStep c).tcb.sndUna := by
  cases hx : c.rx with
  | nil =>
    rw [rxStep_nil hx]
    exact h.same rfl
  | cons a rest =>
    cases a with
    | tx flags retries =>
      have hp : RxPhase c.tcb.state c.tcbLock c.rx := hk.phase
      rw [hx] at hp
      obtain ⟨rfl, rfl⟩ := hp.tx_ack (by simp [hs])
      rw [rxStep_tx hx, tcpTxEmpty_eq _ _ (by decide)]
      have hc : QueueInv iss { c with rx := rest }.sendSide := h
      refine ⟨hc.tx none rfl (Or.inl rfl) hroom, ?_⟩
      rw [txSegment_tcb]
      exact UInt32.le_refl _
    | text pkt =>
      rw [rxStep_text hx]
      exact h.same (rxText_sendSide c pkt rest)
    | fin pkt =>
      rw [rxStep_fin hx]
      exact h.same (rxFin_sendSide c pkt)
    | unlock =>
      rw [rxStep_unlock hx]
      exact h.same rfl
    | timer =>
      rw [rxStep_timer hx]
      exact h.same rfl

/-- Allocations succeed, and an acknowledgement that tcp_rx takes falls on a boundary
between queued segments. -/
def CleanEvent (c : Conn) : Event → Prop
  | .segment pkt =>
    accepted c.tcb pkt = true → ackAdvances c.tcb pkt.tcp.hdr = true →
      OnBoundary c.sent pkt.tcp.hdr.ackNum
  | .sendRound _ alloc => alloc = true
  | _ => True

def Admissible (c : Conn) (e : Event) : Prop :=
  (step c e).tcb.state = .established ∧ CleanEvent c e

instance (xs : List Sent) (ack : UInt32) : Decidable (OnBoundary xs ack) :=
  inferInstanceAs (Decidable (∀ x ∈ xs, _))

instance (c : Conn) : (e : Event) → Decidable (CleanEvent c e)
  | .segment _ => inferInstanceAs (Decidable (_ → _ → _))
  | .sendRound _ alloc => inferInstanceAs (Decidable (alloc = true))
  | .connect | .send _ | .recv _ | .rxStep | .retransmit | .close | .closeFin | .closeTimer =>
    inferInstanceAs (Decidable True)

instance (c : Conn) (e : Event) : Decidable (Admissible c e) :=
  inferInstanceAs (Decidable (_ ∧ _))

theorem QueueInv.segment {iss : UInt32} {c : Conn} (h : QueueInv iss c.sendSide)
    (hs : c.tcb.state = .established) (pkt : Packet)
    (hb : accepted c.tcb pkt = true → ackAdvances c.tcb pkt.tcp.hdr = true →
      OnBoundary c.sent pkt.tcp.hdr.ackNum) :
    QueueInv iss (tcpRxSwitch c pkt).sendSide ∧ c.tcb.sndUna ≤ (tcpRxSwitch c pkt).tcb.sndUna := by
  cases tcpRxSwitch_cases c pkt with
  | inl he =>
    rw [he]
    exact h.same rfl
  | inr ht =>
    obtain ⟨c', he, ha, -, ht⟩ := ht
    rw [he]
    cases ht with
    | ack hs' hf => exact h.ack pkt (hb ha)
    | establish hs' => simp [hs] at hs'
    | cross hs' => simp [hs] at hs'
    | confirm hs' => simp [hs] at hs'
    | finWait hs' => simp [hs] at hs'

theorem QueueInv.step {iss : UInt32} {c : Conn} (h : QueueInv iss c.sendSide)
    (hk : ControlInv c.control) (hs : c.tcb.state = .established) {e : Event} (he : Admissible c e)
    (hroom : iss.toNat + 1 + textLength c.sent < 2 ^ 32)
    (hroom' : iss.toNat + 1 + textLength (step c e).sent < 2 ^ 32) :
    QueueInv iss (step c e).sendSide ∧ c.tcb.sndUna ≤ (AnpNetstack.step c e).tcb.sndUna := by
  obtain ⟨hst, he⟩ := he
  cases e with
  | connect =>
    have hid : AnpNetstack.step c .connect = c := connect_idle hk (by simp [hs])
    exact h.same (congrArg Conn.sendSide hid)
  | send buf => exact h.send buf
  | sendRound i alloc =>
    have ha : alloc = true := he
    subst ha
    obtain ⟨hq, huna⟩ := h.sendRound i hroom'
    exact ⟨hq, UInt32.le_of_eq huna.symm⟩
  | recv len =>
    refine h.same ?_
    simp only [AnpNetstack.step, readBytes]
    split_ifs <;> rfl
  | segment pkt =>
    simp only [AnpNetstack.step]
    split_ifs
    · exact h.segment hs pkt he
    · exact h.same rfl
  | rxStep => exact h.rxStep hk hs hroom
  | retransmit => exact ⟨h.retransmit, UInt32.le_refl _⟩
  | close =>
    have hl : c.tcbLock = true := by
      by_contra hn
      simp [AnpNetstack.step, close, hn, hs] at hst
    have hcl : close c = c := by simp [close, hl]
    exact h.same (congrArg Conn.sendSide hcl)
  | closeFin =>
    have hid : AnpNetstack.step c .closeFin = c := closeFin_idle hk (by simp [hs])
    exact h.same (congrArg Conn.sendSide hid)
  | closeTimer =>
    have hid : AnpNetstack.step c .closeTimer = c := closeConnection_idle hk (by simp [hs])
    exact h.same (congrArg Conn.sendSide hid)

theorem textLength_mono {xs ys : List Sent} (h : xs <+: ys) : textLength xs ≤ textLength ys := by
  obtain ⟨zs, rfl⟩ := h
  rw [textLength_append]
  exact Nat.le_add_right _ _

theorem QueueInv.run {iss : UInt32} {c : Conn} (h : QueueInv iss c.sendSide)
    (hk : Reached c.control) (hs : c.tcb.state = .established) {es : List Event}
    (hes : Along AnpNetstack.step Admissible c es)
    (hroom : iss.toNat + 1 + textLength (Runs.run AnpNetstack.step c es).sent < 2 ^ 32) :
    QueueInv iss (Runs.run AnpNetstack.step c es).sendSide ∧
      c.tcb.sndUna ≤ (Runs.run AnpNetstack.step c es).tcb.sndUna ∧
      (Runs.run AnpNetstack.step c es).tcb.state = .established := by
  induction es generalizing c with
  | nil => exact ⟨h, UInt32.le_refl _, hs⟩
  | cons e es ih =>
    have hpre := textLength_mono (sent_grows c e)
    have hrest := textLength_mono (sent_grows_run (AnpNetstack.step c e) es)
    rw [Runs.run] at hroom
    obtain ⟨hq, huna⟩ := h.step hk.inv hs hes.1 (by omega) (by omega)
    obtain ⟨hlast, hle, hst⟩ := ih hq (reached_step hk e) hes.1.1 hes.2 hroom
    exact ⟨hlast, UInt32.le_trans huna hle, hst⟩

end AnpNetstack
