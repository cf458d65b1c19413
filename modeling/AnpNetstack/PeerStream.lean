import AnpNetstack.PeerRuns
import AnpNetstack.ReceiveStream

/-! The byte stream between two instances of the stack: what one side has delivered is the beginning
of what the other side has queued before its FIN, whatever the network does with the packets. -/
namespace AnpNetstack
open Runs Duplex

section Text

def noFin (x : Sent) : Bool := !hasFlag x.seg.hdr.flags tcpFin

def seqLength (xs : List Sent) : Nat :=
  (xs.map (fun x => x.seg.data.length + if noFin x then 0 else 1)).sum

def sentText (xs : List Sent) : List UInt8 := xs.flatMap (fun x => x.seg.data)

def textBeforeFin (xs : List Sent) : List UInt8 := sentText (xs.takeWhile noFin)

@[simp] theorem seqLength_nil : seqLength [] = 0 := rfl

@[simp] theorem seqLength_cons (x : Sent) (xs : List Sent) :
    seqLength (x :: xs) = (x.seg.data.length + if noFin x then 0 else 1) + seqLength xs := rfl

theorem seqLength_append (xs ys : List Sent) :
    seqLength (xs ++ ys) = seqLength xs + seqLength ys := by
  rw [seqLength, List.map_append, List.sum_append]
  rfl

@[simp] theorem sentText_cons (x : Sent) (xs : List Sent) :
    sentText (x :: xs) = x.seg.data ++ sentText xs := rfl

theorem sentText_append (xs ys : List Sent) : sentText (xs ++ ys) = sentText xs ++ sentText ys :=
  List.flatMap_append

theorem seqLength_mono {xs ys : List Sent} (h : xs <+: ys) : seqLength xs ≤ seqLength ys := by
  obtain ⟨zs, rfl⟩ := h
  rw [seqLength_append]
  exact Nat.le_add_right _ _

theorem textBeforeFin_cons (x : Sent) (xs : List Sent) :
    textBeforeFin (x :: xs) = if noFin x then x.seg.data ++ textBeforeFin xs else [] := by
  unfold textBeforeFin
  rw [List.takeWhile_cons]
  split_ifs <;> rfl

theorem textBeforeFin_append (xs ys : List Sent) :
    textBeforeFin xs <+: textBeforeFin (xs ++ ys) := by
  induction xs with
  | nil => exact List.nil_prefix
  | cons x xs ih =>
    rw [List.cons_append, textBeforeFin_cons, textBeforeFin_cons]
    split_ifs
    · exact List.prefix_append_right_inj x.seg.data |>.mpr ih
    · exact List.prefix_refl _

theorem textBeforeFin_mono {xs ys : List Sent} (h : xs <+: ys) :
    textBeforeFin xs <+: textBeforeFin ys := by
  obtain ⟨zs, rfl⟩ := h
  exact textBeforeFin_append xs zs

theorem textBeforeFin_start (xs : List Sent) : textBeforeFin xs <+: sentText xs := by
  induction xs with
  | nil => exact List.nil_prefix
  | cons x xs ih =>
    rw [textBeforeFin_cons, sentText_cons]
    split_ifs
    · exact List.prefix_append_right_inj x.seg.data |>.mpr ih
    · exact List.nil_prefix

theorem textBeforeFin_length (xs : List Sent) : (textBeforeFin xs).length ≤ seqLength xs := by
  induction xs with
  | nil => exact Nat.le_refl 0
  | cons x xs ih =>
    rw [textBeforeFin_cons, seqLength_cons]
    split_ifs
    · rw [List.length_append]
      omega
    · exact Nat.zero_le _

/-- The text before a segment ends at its sequence number, unless a FIN stands before it. -/
theorem textBeforeFin_before (pre : List Sent) (x : Sent) (post : List Sent) :
    textBeforeFin (pre ++ x :: post) = textBeforeFin pre ++ textBeforeFin (x :: post) ∧
        (textBeforeFin pre).length = seqLength pre ∨
      (textBeforeFin (pre ++ x :: post)).length < seqLength pre := by
  induction pre with
  | nil => exact Or.inl ⟨rfl, rfl⟩
  | cons y pre ih =>
    rw [List.cons_append, textBeforeFin_cons, textBeforeFin_cons y pre, seqLength_cons]
    split_ifs
    · obtain ⟨htext, hlen⟩ | hlt := ih
      · left
        rw [htext, List.append_assoc, List.length_append]
        exact ⟨rfl, by omega⟩
      · right
        rw [List.length_append]
        omega
    · right
      rw [List.length_nil]
      omega

/-- Text that stands where `ds` ends goes on from `ds`. -/
theorem textBeforeFin_extend {pre post : List Sent} {x : Sent} {ds : List UInt8}
    (h : ds <+: textBeforeFin (pre ++ x :: post)) (hlen : ds.length = seqLength pre)
    (hx : noFin x = false → x.seg.data = []) (n : Nat) :
    ds ++ x.seg.data.take n <+: textBeforeFin (pre ++ x :: post) := by
  have hle := h.length_le
  obtain ⟨htext, heq⟩ | hlt := textBeforeFin_before pre x post
  · have hds : ds = textBeforeFin pre := by
      rw [htext] at h
      have hboth := List.prefix_of_prefix_length_le h (List.prefix_append _ _) (by omega)
      exact hboth.eq_of_length (by omega)
    rw [htext, hds]
    refine List.prefix_append_right_inj _ |>.mpr ?_
    rw [textBeforeFin_cons]
    cases hno : noFin x with
    | true => exact (List.take_prefix _ _).trans (List.prefix_append _ _)
    | false =>
      rw [hx hno, List.take_nil]
      exact List.nil_prefix
  · omega

theorem seqLength_syns {iss : UInt32} {xs : List Sent} (h : ∀ x ∈ xs, x.IsSyn iss) :
    seqLength xs = 0 := by
  induction xs with
  | nil => rfl
  | cons x xs ih =>
    have hx := h x List.mem_cons_self
    have hno : noFin x = true := by
      obtain hf | hf := hx.flags <;> rw [noFin, hf] <;> decide
    rw [seqLength_cons, hx.text, hno, ih (fun y hy => h y (List.mem_cons_of_mem x hy))]
    rfl

theorem Tiles.seqNum {a b : UInt32} {pre post : List Sent} {x : Sent}
    (h : Tiles a (pre ++ x :: post) b) :
    x.seg.hdr.seqNum = a + UInt32.ofNat (seqLength pre) := by
  induction pre generalizing a with
  | nil =>
    rw [seqLength_nil]
    exact h.1.trans (UInt32.add_zero a).symm
  | cons y pre ih =>
    have hspan : y.span = UInt32.ofNat (y.seg.data.length + if noFin y then 0 else 1) := by
      rw [Sent.span, UInt32.ofNat_add, noFin]
      cases hasFlag y.seg.hdr.flags tcpFin <;> rfl
    rw [ih h.2, hspan, seqLength_cons, UInt32.ofNat_add (_ + _), UInt32.add_assoc]

/-- The sequence number of text is its place in the stream behind our SYN. -/
theorem LogPhase.position {iss : UInt32} {c : Conn} (h : LogPhase iss c)
    {pre post : List Sent} {x : Sent} (hsent : c.sent = pre ++ x :: post)
    (htext : x.seg.data ≠ []) :
    x.IsPlain ∧ x.seg.hdr.seqNum = iss + 1 + UInt32.ofNat (seqLength pre) := by
  have hmem : x ∈ c.sent := by simp [hsent]
  cases h with
  | opening hs hiss hcalls hsyn => exact absurd (hsyn x hmem).text htext
  | opened old new hs hsent' hold hnew hcalls hfin hsend =>
    have hnot : x ∉ old := fun hx => htext (hold x hx).text
    rw [hsent'] at hsent
    have hnew' : ∃ mid, pre = old ++ mid ∧ new = mid ++ x :: post := by
      obtain h | ⟨tail, hold', htail⟩ := List.append_eq_append_iff.mp hsent
      · exact h
      · cases tail with
        | nil => exact ⟨[], by rw [hold', List.append_nil, List.append_nil], htail.symm⟩
        | cons y tail =>
          rw [List.cons_append] at htail
          have hxy : x = y := (List.cons.inj htail).1
          exact absurd (by simp [hold', hxy]) hnot
    obtain ⟨mid, rfl, rfl⟩ := hnew'
    refine ⟨hnew x (by simp), ?_⟩
    rw [seqLength_append, seqLength_syns hold, Nat.zero_add]
    exact hsend.tiles.seqNum

end Text

section Delivered

theorem delivered_txEmpty (c : Conn) (flags : UInt8) (retries : Int) :
    (tcpTxEmpty c flags retries).delivered = c.delivered := by
  cases tcpTxEmpty_cases c flags retries with
  | inl he => rw [he]
  | inr he =>
    rw [he, txSegment_eq]
    exact delivered_congr rfl rfl rfl

theorem delivered_sendRound (c : Conn) (i : Nat) (alloc : Bool) :
    (sendRound c i alloc).delivered = c.delivered := by
  unfold sendRound
  split
  · rfl
  · next call hi =>
    split_ifs
    · rfl
    · unfold tcpTxSection
      split_ifs
      · exact delivered_congr rfl rfl rfl
      · refine (delivered_congr ?_ ?_ ?_ : _ =
          (txSegment alloc c (some i) (call.data.drop call.dataSent.toNat)
          (nxtSegSize c.tcb call.dataSize call.dataSent)
            call.flags call.retries).delivered).trans ?_
        · rfl
        · rfl
        · rfl
        · rw [txSegment_eq]
          exact delivered_congr rfl rfl rfl
      · exact delivered_congr rfl rfl rfl

structure TakesText (c c' : Conn) (pkt : Packet) : Prop where
  next : ∃ rest, c.rx = .text pkt :: rest
  seq : pkt.tcp.hdr.seqNum = c.tcb.rcvNxt
  len : segmentLen pkt ≠ 0
  tcb : c'.tcb = (saveDataAndAck c.tcb pkt.tcp.data (segmentLen pkt)).1
  read : c'.read = c.read

theorem delivered_step (c : Conn) (e : Event) (hb : c.tcb.rcvBuffLen ≤ tcpRcvMax) :
    (step c e).delivered = c.delivered ∨ ∃ pkt, TakesText c (step c e) pkt := by
  cases e with
  | connect =>
    left
    simp only [step, connect]
    split_ifs
    · exact (delivered_congr rfl rfl rfl).trans (delivered_txEmpty c tcpSyn retriesConnMax)
    · rfl
  | send buf =>
    left
    simp only [step, send]
    split_ifs
    · exact delivered_congr rfl rfl rfl
    · rfl
  | sendRound i alloc => exact Or.inl (delivered_sendRound c i alloc)
  | recv len => exact Or.inl (readBytes_delivered c len hb)
  | segment pkt =>
    left
    simp only [step]
    split_ifs
    · exact delivered_switch c pkt
    · rfl
  | rxStep =>
    change (rxStep c).delivered = c.delivered ∨ ∃ pkt, TakesText c (rxStep c) pkt
    cases hx : c.rx with
    | nil =>
      rw [rxStep_nil hx]
      exact Or.inl rfl
    | cons a rest =>
      cases a with
      | tx flags retries =>
        rw [rxStep_tx hx]
        exact Or.inl ((delivered_txEmpty { c with rx := rest } flags retries).trans
          (delivered_congr rfl rfl rfl))
      | text pkt =>
        rw [rxStep_text hx]
        have hstep := rxText_step c pkt rest
        generalize rxText c pkt rest = c' at hstep ⊢
        cases hstep with
        | none hz => exact Or.inl (delivered_congr rfl rfl rfl)
        | outOfOrder hz hseq => exact Or.inl (delivered_congr rfl rfl rfl)
        | stored hz hseq => exact Or.inr ⟨pkt, ⟨rest, hx⟩, hseq, hz, rfl, rfl⟩
      | fin pkt =>
        rw [rxStep_fin hx]
        have hstep := rxFin_step c pkt
        generalize rxFin c pkt = c' at hstep ⊢
        cases hstep <;> exact Or.inl (delivered_congr rfl rfl rfl)
      | unlock =>
        rw [rxStep_unlock hx]
        exact Or.inl (delivered_congr rfl rfl rfl)
      | timer =>
        rw [rxStep_timer hx]
        exact Or.inl (delivered_congr rfl rfl rfl)
  | retransmit => exact Or.inl (delivered_congr rfl rfl rfl)
  | close =>
    left
    simp only [step, close]
    split_ifs <;> exact delivered_congr rfl rfl rfl
  | closeFin =>
    left
    simp only [step, closeFin]
    split_ifs
    · exact (delivered_congr rfl rfl rfl).trans (delivered_txEmpty c tcpFinAck retriesSendonce)
    · rfl
  | closeTimer =>
    left
    simp only [step, closeConnection]
    split_ifs
    · rfl
    · exact delivered_congr rfl rfl rfl

end Delivered

/-- The bytes a side has delivered are the beginning of what the other has queued before its FIN, as
long as that has not gone once round the sequence numbers. -/
def Streamed (own other : Conn) : Prop :=
  seqLength other.sent < 2 ^ 32 → own.delivered <+: textBeforeFin other.sent

theorem Streamed.other_step {own other : Conn} (h : Streamed own other) (e : Event) :
    Streamed own (step other e) := by
  intro hlen
  have hgrow := sent_grows other e
  exact (h (Nat.lt_of_le_of_lt (seqLength_mono hgrow) hlen)).trans (textBeforeFin_mono hgrow)

/-- Text of the other side stands where the delivered bytes end. -/
theorem Linked.text_position {own other : Conn} (h : Linked own other) (hs : Solo own)
    (ho : Solo other) {pkt : Packet} (hnext : ∃ rest, own.rx = .text pkt :: rest)
    (hseq : pkt.tcp.hdr.seqNum = own.tcb.rcvNxt) (hlen : segmentLen pkt ≠ 0) :
    ∃ pre x post, other.sent = pre ++ x :: post ∧ Carries pkt x.seg.data ∧ x.IsPlain ∧
      UInt32.ofNat own.stored = UInt32.ofNat (seqLength pre) := by
  obtain ⟨rest, hx⟩ := hnext
  have hact : RxAct.text pkt ∈ own.rx := by
    rw [hx]
    exact List.mem_cons_self
  obtain ⟨x, hxs, hhdr, hcarries⟩ := h.acts pkt (Or.inl hact)
  have htext : x.seg.data ≠ [] := by
    intro hnil
    refine hlen (UInt32.toNat_inj.mp ?_)
    rw [hcarries.segmentLen_toNat, hnil]
    rfl
  have hsyn : ¬ Early own := by
    intro hearly
    have hp : RxPhase own.tcb.state own.tcbLock own.rx := hs.reached.inv.phase
    obtain hx' | hx' := hp.early (hearly.state hs.reached.inv) <;> simp [hx] at hx'
  have hnxt : own.tcb.rcvNxt = other.tcb.iss + 1 + UInt32.ofNat own.stored := by
    cases hs.recv with
    | early hearly he => exact absurd hearly hsyn
    | synced _ hc acks =>
      have hnil := hc.fins_nil hs.reached.inv pkt (Or.inl hact)
      have hn := hc.nxt
      rw [hnil, h.irs hsyn] at hn
      exact hn.trans (UInt32.add_zero _)
  obtain ⟨pre, post, hsent⟩ := List.append_of_mem hxs
  obtain ⟨hplain, hpos⟩ := ho.log.position hsent htext
  refine ⟨pre, x, post, hsent, hcarries, hplain, ?_⟩
  rw [← hhdr, hseq, hnxt] at hpos
  exact UInt32.add_right_inj _ |>.mp hpos

/-- Text is taken up where the delivered bytes end. -/
theorem Streamed.position {own other : Conn} (h : Streamed own other) (hp : Paired own other)
    (ho : Solo other) (hlen : seqLength other.sent < 2 ^ 32) {c' : Conn} {pkt : Packet}
    (ht : TakesText own c' pkt) :
    ∃ pre x post, other.sent = pre ++ x :: post ∧ Carries pkt x.seg.data ∧ x.IsPlain ∧
      own.delivered.length = seqLength pre := by
  obtain ⟨pre, x, post, hsent, hcarries, hplain, hpos⟩ :=
    hp.linked.text_position hp.solo ho ht.next ht.seq ht.len
  refine ⟨pre, x, post, hsent, hcarries, hplain, ?_⟩
  have hle := (h hlen).length_le
  have hcount : own.delivered.length = own.stored := delivered_length own hp.solo.recv.buff
  have hmax := textBeforeFin_length other.sent
  have hpart := seqLength_append pre (x :: post)
  rw [← hsent] at hpart
  have hnat := congrArg UInt32.toNat hpos
  rw [UInt32.toNat_ofNat', UInt32.toNat_ofNat', Nat.mod_eq_of_lt (by omega),
    Nat.mod_eq_of_lt (by omega)] at hnat
  exact hcount.trans hnat

theorem Streamed.own_step {own other : Conn} (h : Streamed own other) (hp : Paired own other)
    (ho : Solo other) (e : Event) : Streamed (step own e) other := by
  intro hlen
  have hbuff := hp.solo.recv.buff
  have hpre := h hlen
  obtain hsame | ⟨pkt, ht⟩ := delivered_step own e hbuff
  · rw [hsame]
    exact hpre
  · obtain ⟨pre, x, post, hsent, hcarries, hplain, hpos⟩ := h.position hp ho hlen ht
    rw [delivered_save hbuff hcarries ht.tcb ht.read, hsent]
    refine textBeforeFin_extend (hsent ▸ hpre) hpos ?_ _
    intro hno
    obtain hf | ⟨-, hdata⟩ := hplain
    · rw [noFin, hf] at hno
      exact absurd hno (by decide)
    · exact hdata

structure Streaming (own other : Conn) : Prop where
  pair : Paired own other
  stream : Streamed own other

theorem streaming_steady :
    Steady peer Streaming Says (fun _ _ _ => True) (fun _ _ _ _ => True) where
  act own other e h h' hok := by
    have hpair := peers_steady.act own other e h.pair h'.pair hok
    have hstream : Streamed (peerAct own e) other ∧ Streamed other (peerAct own e) := by
      cases peerAct_cases own e with
      | inl he =>
        rw [he]
        exact ⟨h.stream, h'.stream⟩
      | inr he =>
        rw [he.1]
        exact ⟨h.stream.own_step h.pair h'.pair.solo e, h'.stream.other_step e⟩
    exact ⟨⟨hpair.1, hstream.1⟩, ⟨hpair.2, hstream.2⟩⟩
  take own other pkt pad h h' hsaid hok := by
    have hpair := peers_steady.take own other pkt pad h.pair h'.pair hsaid hok
    exact ⟨⟨hpair.1, h.stream.own_step h.pair h'.pair.solo _⟩, ⟨hpair.2, h'.stream.other_step _⟩⟩
  emits own other e h pkt hpkt := says_emits h.pair.solo e hpkt
  keeps c e pkt h := says_act h e
  keeps_take c pkt' pad pkt h := h.step _

theorem streaming_start (b b' : PeerBlock) : Streaming b.conn b'.conn where
  pair := paired_start b b'
  stream := fun _ => List.nil_prefix

theorem streaming_run (near far : PeerBlock) (es : List (Move Event (List UInt8))) :
    Both Streaming (run (Duplex.step peer) (peersOf near far) es) ∧
      Sound Says (run (Duplex.step peer) (peersOf near far) es) := by
  have hstart : Both Streaming (peersOf near far) := by
    intro t
    cases t
    · exact streaming_start near far
    · exact streaming_start far near
  exact streaming_steady.run hstart (fun t m hm => absurd hm List.not_mem_nil) (permitted_all es)

def sampleTalk : List (Move Event (List UInt8)) :=
  sampleOpening ++ [.act .near (.send [1, 2, 3]), .act .near (.sendRound 0 true),
    .act .near .retransmit] ++
    takeUp .far 6 ++ [.act .far (.recv 2)]

end AnpNetstack
