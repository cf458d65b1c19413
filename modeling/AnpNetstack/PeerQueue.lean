import AnpNetstack.PeerStream

/-! Nothing is lost between two instances of the stack: text leaves messages_array only once the
other side has stored it, so a queue without text means that everything has been delivered. -/
namespace AnpNetstack
open Runs Duplex

section Kept

structure Holds (own : Nat) (seg : TcpSegment) (m : TcpMessage) : Prop where
  tcb : m.tcb = own
  ptr : m.tcpPtr = seg
  len : m.tcpDataLen = UInt32.ofNat seg.data.length
  retries : m.retries = UInt32.ofInt retriesInfinite

def Kept (c : Conn) (seg : TcpSegment) : Prop :=
  (∃ m ∈ c.messagesArray, Holds c.self seg m) ∨
    seg.hdr.seqNum.toNat + seg.data.length ≤ c.tcb.sndUna.toNat

theorem Holds.retransmit {self : Nat} {seg : TcpSegment} {m : TcpMessage} (h : Holds self seg m) :
    retransmitEntry m = some m := by
  have hne : UInt32.ofInt retriesInfinite ≠ UInt32.ofInt retriesSendonce := by decide
  simp [retransmitEntry, h.retries, hne]

/-- stop_retransmit drops an entry only when snd_una is behind its text. -/
theorem Holds.stop {self : Nat} {seg : TcpSegment} {m : TcpMessage}
    (h : Holds self seg m) (tcb : Tcb) (hroom : seg.hdr.seqNum.toNat + seg.data.length < 2 ^ 32) :
    (∃ m', stopEntry self tcb m = some m' ∧ Holds self seg m') ∨
      seg.hdr.seqNum.toNat + seg.data.length ≤ tcb.sndUna.toNat := by
  have hsum : (seg.hdr.seqNum + UInt32.ofNat seg.data.length).toNat =
      seg.hdr.seqNum.toNat + seg.data.length := by
    rw [UInt32.toNat_add, UInt32.toNat_ofNat', Nat.mod_eq_of_lt (a := seg.data.length) (by omega),
      Nat.mod_eq_of_lt hroom]
  unfold stopEntry
  rw [if_pos h.tcb, h.ptr, h.len]
  dsimp only
  split_ifs with hlt hgt
  · exact Or.inl ⟨_, rfl, h.tcb, rfl, rfl, h.retries⟩
  · right
    rw [gt_iff_lt, UInt32.lt_iff_toNat_lt, hsum] at hgt
    omega
  · exact Or.inl ⟨m, rfl, h⟩

theorem Kept.add {c c' : Conn} {seg : TcpSegment} (h : Kept c seg) (hself : c'.self = c.self)
    (huna : c.tcb.sndUna ≤ c'.tcb.sndUna) (hq : ∀ m ∈ c.messagesArray, m ∈ c'.messagesArray) :
    Kept c' seg := by
  cases h with
  | inl h =>
    obtain ⟨m, hm, hh⟩ := h
    exact Or.inl ⟨m, hq m hm, hself ▸ hh⟩
  | inr h =>
    rw [UInt32.le_iff_toNat_le] at huna
    exact Or.inr (by omega)

theorem mem_addMsgToArr {alloc : Bool} {self : Nat} {seg : TcpSegment} {n : UInt32} {retries : Int}
    {msgs : List TcpMessage} {m : TcpMessage} (hm : m ∈ msgs) :
    m ∈ addMsgToArr alloc self seg n retries msgs := by
  unfold addMsgToArr
  split_ifs
  · exact List.mem_append_left _ hm
  · exact hm

theorem Kept.step {c : Conn} {seg : TcpSegment} (h : Kept c seg)
    (hroom : seg.hdr.seqNum.toNat + seg.data.length < 2 ^ 32) {e : Event}
    (huna : c.tcb.sndUna ≤ (step c e).tcb.sndUna) : Kept (step c e) seg := by
  have hself := self_step c e
  cases queue_step c e with
  | same hs hq => exact h.add hself huna (fun m hm => hq ▸ hm)
  | empty x retries hx hs hq => exact h.add hself huna (fun m hm => hq ▸ mem_addMsgToArr hm)
  | round i alloc call x n hi hlen hs hq =>
    exact h.add hself huna (fun m hm => hq ▸ mem_addMsgToArr hm)
  | stops tcb hs hu hq =>
    cases h with
    | inl h =>
      obtain ⟨m, hm, hh⟩ := h
      cases hh.stop tcb hroom with
      | inl hstop =>
        obtain ⟨m', hstop, hh'⟩ := hstop
        refine Or.inl ⟨m', ?_, hself ▸ hh'⟩
        rw [hq]
        exact List.mem_filterMap.mpr ⟨m, hm, hstop⟩
      | inr hle => exact Or.inr (hu ▸ hle)
    | inr h =>
      rw [UInt32.le_iff_toNat_le] at huna
      exact Or.inr (by omega)
  | passes hs hq =>
    cases h with
    | inl h =>
      obtain ⟨m, hm, hh⟩ := h
      refine Or.inl ⟨m, ?_, hself ▸ hh⟩
      rw [hq]
      exact List.mem_filterMap.mpr ⟨m, hm, hh.retransmit⟩
    | inr h =>
      rw [UInt32.le_iff_toNat_le] at huna
      exact Or.inr (by omega)

def Allocates : Event → Prop
  | .sendRound _ alloc => alloc = true
  | _ => True

instance : (e : Event) → Decidable (Allocates e)
  | .sendRound _ alloc => inferInstanceAs (Decidable (alloc = true))
  | .connect | .send _ | .recv _ | .segment _ | .rxStep | .retransmit | .close | .closeFin
  | .closeTimer =>
    inferInstanceAs (Decidable True)

structure AllKept (c : Conn) : Prop where
  calls : ∀ call ∈ c.calls, call.retries = retriesInfinite
  kept : ∀ x ∈ c.sent, x.seg.data ≠ [] → Kept c x.seg

/-- Only send makes tcp_tx calls, and it asks for retransmission without end. -/
theorem calls_retries_step {c : Conn} (h : ∀ call ∈ c.calls, call.retries = retriesInfinite)
    (e : Event) :
    ∀ call ∈ (step c e).calls, call.retries = retriesInfinite := by
  have hset {i : Nat} {call d : TxCall} (hi : c.calls[i]? = some call)
      (hd : d.retries = call.retries) :
      ∀ d' ∈ c.calls.set i d, d'.retries = retriesInfinite := by
    intro d' hd'
    cases List.mem_or_eq_of_mem_set hd' with
    | inl hm => exact h d' hm
    | inr heq =>
      rw [heq, hd]
      exact h call (List.mem_of_getElem? hi)
  have hsend := send_step c e
  generalize AnpNetstack.step c e = c' at hsend
  cases hsend with
  | call buf data size hs hc hn =>
    rw [hc]
    intro d hd
    cases List.mem_append.mp hd with
    | inl hd => exact h d hd
    | inr hd =>
      rw [List.mem_singleton.mp hd]
      rfl
  | round i alloc call n hi hr hv hle hsize hs hc hn => exact hc ▸ hset hi rfl
  | fails i alloc call r hi hbad hs hc hn => exact hc ▸ hset hi rfl
  | quiet hs hc hn => exact hc ▸ h
  | empty flags hf hs hc hn => exact hc ▸ h
  | cross pkt hst hs hc hn => exact hc ▸ h

theorem Solo.opening_text {c : Conn} (h : Solo c) (hopen : Opening c.control) (e : Event) :
    ∀ x ∈ (AnpNetstack.step c e).sent, x.seg.data = [] := by
  cases h.log with
  | opened old new hs => exact absurd hopen hs
  | opening hs hiss hcalls hsyn =>
    have hold : ∀ x ∈ c.sent, x.seg.data = [] := fun x hx => (hsyn x hx).text
    cases queue_step c e with
    | same hs hq => exact hs ▸ hold
    | stops tcb hs hu hq => exact hs ▸ hold
    | passes hs hq => exact hs ▸ hold
    | empty x retries hx hs hq =>
      rw [hs]
      intro y hy
      cases List.mem_append.mp hy with
      | inl hy => exact hold y hy
      | inr hy => exact List.mem_singleton.mp hy ▸ hx
    | round i alloc call x n hi hlen hs hq => simp [hcalls] at hi

/-- No sequence number of queued text wraps, as long as there is room for all that was queued. -/
theorem Solo.position {c : Conn} (h : Solo c) {pre post : List Sent} {x : Sent}
    (hsent : c.sent = pre ++ x :: post) (htext : x.seg.data ≠ [])
    (hroom : c.tcb.iss.toNat + 2 + seqLength c.sent < 2 ^ 32) :
    x.seg.hdr.seqNum.toNat = c.tcb.iss.toNat + 1 + seqLength pre ∧
      seqLength pre + x.seg.data.length ≤ seqLength c.sent := by
  have hlen : seqLength pre + x.seg.data.length ≤ seqLength c.sent := by
    rw [hsent, seqLength_append, seqLength_cons]
    omega
  refine ⟨?_, hlen⟩
  rw [(h.log.position hsent htext).2, UInt32.toNat_add, UInt32.toNat_add, UInt32.toNat_ofNat']
  have hone : (1 : UInt32).toNat = 1 := rfl
  omega

theorem AllKept.step {c : Conn} (h : AllKept c) (hc : Solo c) {e : Event} (he : Allocates e)
    (hroom : c.tcb.iss.toNat + 2 + seqLength (AnpNetstack.step c e).sent < 2 ^ 32) :
    AllKept (AnpNetstack.step c e) := by
  refine ⟨calls_retries_step h.calls e, fun x hx htext => ?_⟩
  have hc' := hc.step e
  have hopen : Open c.control := by
    cases hc.log with
    | opening hs => exact absurd (hc.opening_text hs e x hx) htext
    | opened old new hs hsent hold hnew hcalls hfin hsend => exact hsend.opened
  have hlen : x.seg.hdr.seqNum.toNat + x.seg.data.length < 2 ^ 32 := by
    obtain ⟨pre, post, hsent⟩ := List.append_of_mem hx
    have hpos := hc'.position hsent htext (iss_step c e ▸ hroom)
    rw [iss_step] at hpos
    omega
  have hold (hx : x ∈ c.sent) : Kept (AnpNetstack.step c e) x.seg :=
    (h.kept x hx htext).step hlen (sndUna_step hopen e)
  cases queue_step c e with
  | same hs hq => exact hold (hs ▸ hx)
  | stops tcb hs hu hq => exact hold (hs ▸ hx)
  | passes hs hq => exact hold (hs ▸ hx)
  | empty y retries hy hs hq =>
    rw [hs] at hx
    cases List.mem_append.mp hx with
    | inl hx => exact hold hx
    | inr hx => exact absurd (List.mem_singleton.mp hx ▸ hy) htext
  | round i alloc call y n hi hn hs hq =>
    rw [hs] at hx
    cases List.mem_append.mp hx with
    | inl hx => exact hold hx
    | inr hx =>
      have ha : alloc = true := he
      subst ha
      rw [addMsgToArr, if_pos rfl] at hq
      have hretries := h.calls call (List.mem_of_getElem? hi)
      left
      rw [hq, self_step, List.mem_singleton.mp hx]
      refine ⟨_, List.mem_append_right _ List.mem_cons_self, rfl, rfl, ?_, ?_⟩
      · rw [hn, UInt32.ofNat_toNat]
      · rw [hretries]

end Kept

/-- Text that is no longer queued is stored by the other side. -/
theorem AllKept.stored {own other : Conn} (h : AllKept own) (hp : Paired own other)
    (ho : Solo other) (hroom : own.tcb.iss.toNat + 2 + seqLength own.sent < 2 ^ 32)
    (hs : Streamed other own) {pre post : List Sent} {x : Sent}
    (hsent : own.sent = pre ++ x :: post) (htext : x.seg.data ≠ []) :
    (∃ m ∈ own.messagesArray, Holds own.self x.seg m) ∨
      seqLength pre + x.seg.data.length ≤ other.delivered.length := by
  have hx : x ∈ own.sent := by simp [hsent]
  refine (h.kept x hx htext).imp_right (fun hle => ?_)
  have hpos := hp.solo.position hsent htext hroom
  have hpre := (hs (by omega)).length_le
  have hmax := textBeforeFin_length own.sent
  have hcount : other.delivered.length = other.stored := delivered_length other ho.recv.buff
  have hzero : (0 : UInt32).toNat = 0 := rfl
  have hiss := UInt32.lt_iff_toNat_lt.mp hp.solo.iss_pos
  have hone : (1 : UInt32).toNat = 1 := rfl
  obtain hu | ⟨k, hk, hu⟩ := hp.linked.acked
  · rw [hu, UInt32.toNat_sub_of_le _ _ (UInt32.le_iff_toNat_le.mpr (by omega))] at hle
    omega
  · rw [hu, UInt32.toNat_add, UInt32.toNat_add, UInt32.toNat_ofNat'] at hle
    omega

structure Keeping (own other : Conn) : Prop where
  streaming : Streaming own other
  kept : own.tcb.iss.toNat + 2 + seqLength own.sent < 2 ^ 32 → AllKept own

theorem keeping_start (b b' : PeerBlock) : Keeping b.conn b'.conn where
  streaming := streaming_start b b'
  kept := fun _ => ⟨by simp [PeerBlock.conn, connectBlock], by simp [PeerBlock.conn, connectBlock]⟩

theorem Keeping.kept_step {own other : Conn} (h : Keeping own other) {e : Event}
    (he : Allocates e) :
    (step own e).tcb.iss.toNat + 2 + seqLength (step own e).sent < 2 ^ 32 →
      AllKept (step own e) := by
  intro hroom
  rw [iss_step] at hroom
  have hgrow := seqLength_mono (sent_grows own e)
  exact (h.kept (by omega)).step h.streaming.pair.solo he hroom

theorem keeping_steady :
    Steady peer Keeping Says (fun _ _ e => Allocates e) (fun _ _ _ _ => True) where
  act own other e h h' hok := by
    have hboth := streaming_steady.act own other e h.streaming h'.streaming trivial
    refine ⟨⟨hboth.1, ?_⟩, ⟨hboth.2, h'.kept⟩⟩
    change (peerAct own e).tcb.iss.toNat + 2 + seqLength (peerAct own e).sent < 2 ^ 32 →
        AllKept (peerAct own e)
    cases peerAct_cases own e with
    | inl he =>
      rw [he]
      exact h.kept
    | inr he =>
      rw [he.1]
      exact h.kept_step hok
  take own other pkt pad h h' hsaid hok := by
    have hboth := streaming_steady.take own other pkt pad h.streaming h'.streaming hsaid hok
    exact ⟨⟨hboth.1, h.kept_step trivial⟩, ⟨hboth.2, h'.kept⟩⟩
  emits own other e h pkt hpkt := says_emits h.streaming.pair.solo e hpkt
  keeps c e pkt h := says_act h e
  keeps_take c pkt' pad pkt h := h.step _

def Allocating (_ : Net Conn Packet) : Move Event (List UInt8) → Prop
  | .act _ e => Allocates e
  | .deliver _ _ _ => True

instance (n : Net Conn Packet) : (e : Move Event (List UInt8)) → Decidable (Allocating n e)
  | .act _ e => inferInstanceAs (Decidable (Allocates e))
  | .deliver _ _ _ => inferInstanceAs (Decidable True)

theorem Allocating.permitted {n : Net Conn Packet} {e : Move Event (List UInt8)}
    (h : Allocating n e) :
    Permitted (fun _ _ e => Allocates e) (fun _ _ _ _ => True) n e := by
  cases e with
  | act s e => exact h
  | deliver s i pad => exact fun m hm => trivial

theorem keeping_run (near far : PeerBlock) {es : List (Move Event (List UInt8))}
    (hes : Along (Duplex.step peer) Allocating (peersOf near far) es) :
    Both Keeping (run (Duplex.step peer) (peersOf near far) es) := by
  have hstart : Both Keeping (peersOf near far) := by
    intro t
    cases t
    · exact keeping_start near far
    · exact keeping_start far near
  exact (keeping_steady.run hstart (fun t m hm => absurd hm List.not_mem_nil)
    (along_mono (fun _ _ => Allocating.permitted) hes)).1

theorem sentText_last {xs : List Sent} (h : sentText xs ≠ []) :
    ∃ pre x post, xs = pre ++ x :: post ∧ x.seg.data ≠ [] ∧ sentText post = [] := by
  induction xs with
  | nil => exact absurd rfl h
  | cons y xs ih =>
    by_cases hxs : sentText xs = []
    · rw [sentText_cons, hxs, List.append_nil] at h
      exact ⟨[], y, xs, rfl, h, hxs⟩
    · obtain ⟨pre, x, post, rfl, hx, hpost⟩ := ih hxs
      exact ⟨y :: pre, x, post, rfl, hx, hpost⟩

theorem sentText_length (xs : List Sent) : (sentText xs).length ≤ seqLength xs := by
  induction xs with
  | nil => exact Nat.le_refl 0
  | cons x xs ih =>
    rw [sentText_cons, seqLength_cons, List.length_append]
    omega

def sampleAcked : List (Move Event (List UInt8)) :=
  sampleTalk ++ [.act .far .retransmit] ++ takeUp .near 4

end AnpNetstack
