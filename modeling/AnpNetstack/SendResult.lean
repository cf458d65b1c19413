import AnpNetstack.SendTiling

/-! What send returns. It hands the length to tcp_tx as a uint32_t, drops what tcp_tx
returns and reports the length it was given, whatever became of the segments. -/
namespace AnpNetstack
open Runs

/-- `return len`: a size_t of 64 bits turned into a ssize_t. -/
def sendReturn (len : Nat) : Int := if len < 2 ^ 63 then len else (len : Int) - 2 ^ 64

def addedBy (i : Nat) (c : Conn) : Event → List TcpMessage
  | .sendRound j alloc =>
    if i = j then (sendRound c j alloc).messagesArray.drop c.messagesArray.length else []
  | .connect | .send _ | .recv _ | .segment _ | .rxStep | .retransmit | .close | .closeFin
  | .closeTimer => []

def addedOver (i : Nat) : Conn → List Event → List TcpMessage
  | _, [] => []
  | c, e :: es => addedBy i c e ++ addedOver i (step c e) es

def textOf (msgs : List TcpMessage) : List UInt8 := msgs.flatMap (fun m => m.sub.data)

/-- When call number `i` is about to queue text, add_msg_to_arr gets its memory. -/
def Stores (i : Nat) (c : Conn) : Event → Prop
  | .sendRound j alloc => i = j → ∀ call ∈ c.calls[i]?, call.result = none → c.tcb.sndWnd ≠ 0 →
      call.dataSent ≠ call.dataSize → alloc = true
  | .connect | .send _ | .recv _ | .segment _ | .rxStep | .retransmit | .close | .closeFin
  | .closeTimer => True

structure SendCall where
  conn : Conn
  buf : List UInt8
  events : List Event
  state : conn.tcb.state = .established
  size : buf.length < 2 ^ 64
  returned : ∃ call,
    (run step (step conn (.send buf)) events).calls[conn.calls.length]? = some call ∧
    call.result ≠ none

namespace SendCall
variable (s : SendCall)

def entered : Conn := step s.conn (.send s.buf)

def ret : Int := sendReturn s.buf.length

def queued : List TcpMessage := addedOver s.conn.calls.length s.entered s.events

/-- A count that is not negative is the length of the prefix that was queued for
retransmission; anything else is -1. -/
def Truthful : Prop :=
  (0 ≤ s.ret → textOf s.queued = s.buf.take s.ret.toNat ∧ s.ret.toNat ≤ s.buf.length ∧
    ∀ m ∈ s.queued, m.retries = UInt32.ofInt retriesInfinite) ∧
  (s.ret < 0 → s.ret = -1)

end SendCall

structure Sends (data : List UInt8) (call : TxCall) : Prop where
  text : call.data = data
  flags : call.flags = tcpAck
  retries : call.retries = retriesInfinite
  sent_le : call.dataSent ≤ call.dataSize
  result : call.result = none ∨ call.dataSent = call.dataSize

theorem textOf_append (xs ys : List TcpMessage) : textOf (xs ++ ys) = textOf xs ++ textOf ys :=
  List.flatMap_append

theorem call_kept {c : Conn} {i : Nat} {call : TxCall} (hi : c.calls[i]? = some call) {e : Event}
    (he : ∀ alloc, e ≠ .sendRound i alloc) : (step c e).calls[i]? = some call := by
  have hlt : i < c.calls.length := (List.getElem?_eq_some_iff.mp hi).1
  have hother {j : Nat} {alloc : Bool} (h : e = .sendRound j alloc) : j ≠ i := by
    intro hji
    exact he alloc (hji ▸ h)
  cases hs : send_step c e with
  | quiet _ hc => exact hc ▸ hi
  | call buf data size _ hc => rw [hc, List.getElem?_append_left hlt, hi]
  | empty flags _ _ hc => exact hc ▸ hi
  | round j alloc call' n _ _ _ _ _ _ hc => rw [hc, List.getElem?_set_ne (hother rfl), hi]
  | fails j alloc call' r _ _ _ hc => rw [hc, List.getElem?_set_ne (hother rfl), hi]
  | cross pkt _ _ hc => exact hc ▸ hi

theorem addedBy_other {c : Conn} {i : Nat} {e : Event} (he : ∀ alloc, e ≠ .sendRound i alloc) :
    addedBy i c e = [] := by
  cases e with
  | sendRound j alloc =>
    have hij : i ≠ j := fun h => he alloc (h ▸ rfl)
    exact if_neg hij
  | _ => rfl

theorem stores_other {c : Conn} {i : Nat} {e : Event} (he : ∀ alloc, e ≠ .sendRound i alloc) :
    Stores i c e := by
  cases e with
  | sendRound j alloc =>
    intro hij
    exact absurd rfl (hij ▸ he alloc)
  | _ => trivial

def roundEntry (c : Conn) (call : TxCall) (n : UInt32) : TcpMessage :=
  let sub := (createTcpPacket c.tcb (call.data.drop call.dataSent.toNat) n call.flags).1
  { tcb := c.self, sub := sub, tcpPtr := sub, tcpLen := 20 + n, tcpDataLen := n,
    retries := UInt32.ofInt call.retries }

theorem addedBy_round {c : Conn} {i : Nat} {call : TxCall} (alloc : Bool)
    (hi : c.calls[i]? = some call) (hr : call.result = none)
    (hv : retriesValid call.retries = true) (hle : call.dataSent ≤ call.dataSize) :
    addedBy i c (.sendRound i alloc) =
      if alloc then [roundEntry c call (nxtSegSize c.tcb call.dataSize call.dataSent)] else [] := by
  have hmsgs : (sendRound c i alloc).messagesArray =
      (txSegment alloc c (some i) (call.data.drop call.dataSent.toNat)
        (nxtSegSize c.tcb call.dataSize call.dataSent) call.flags call.retries).messagesArray := by
    rw [sendRound_round alloc hi hr hv hle]
  rw [addedBy, if_pos rfl, hmsgs, txSegment_eq]
  cases alloc with
  | true => simp only [addMsgToArr, if_true, List.drop_left, roundEntry]
  | false => simp only [addMsgToArr, Bool.false_eq_true, if_false, List.drop_length]

/-- A round carries text when there is a window and something is left to send. -/
theorem nxtSegSize_eq_zero (tcb : Tcb) {size sent : UInt32} (h : sent ≤ size) :
    nxtSegSize tcb size sent = 0 ↔ tcb.sndWnd = 0 ∨ sent = size := by
  have hmin := nxtSegSize_toNat tcb h
  rw [UInt32.le_iff_toNat_le] at h
  rw [← UInt32.toNat_inj, ← UInt32.toNat_inj, ← UInt32.toNat_inj, hmin]
  simp only [tcpMaxSegSize, UInt32.reduceToNat]
  omega

structure Moves (i : Nat) (c : Conn) (e : Event) (call d : TxCall) : Prop where
  sent_le : call.dataSent.toNat ≤ d.dataSent.toNat
  short : (textOf (addedBy i c e)).length ≤ d.dataSent.toNat - call.dataSent.toNat
  exact_iff : textOf (addedBy i c e) =
    (call.data.drop call.dataSent.toNat).take (d.dataSent.toNat - call.dataSent.toNat) ↔
      Stores i c e
  retries : ∀ m ∈ addedBy i c e, m.retries = UInt32.ofInt retriesInfinite

theorem Moves.still {i : Nat} {c : Conn} {e : Event} (call : TxCall) (ha : addedBy i c e = [])
    (hs : Stores i c e) : Moves i c e call call where
  sent_le := Nat.le_refl _
  short := by simp [ha, textOf]
  exact_iff := by simp [ha, textOf, hs]
  retries := by simp [ha]

theorem Sends.advance {data : List UInt8} {call : TxCall} (h : Sends data call) (c : Conn) :
    Sends data (call.advance (nxtSegSize c.tcb call.dataSize call.dataSent)) := by
  refine ⟨h.text, h.flags, h.retries, round_advance_le c h.sent_le, ?_⟩
  by_cases he : call.dataSent + nxtSegSize c.tcb call.dataSize call.dataSent = call.dataSize
  · exact Or.inr he
  · exact Or.inl (if_neg he)

theorem Moves.round {data : List UInt8} {c : Conn} {i : Nat} {call : TxCall} (alloc : Bool)
    (hi : c.calls[i]? = some call) (hr : call.result = none) (h : Sends data call) :
    Moves i c (.sendRound i alloc) call
      (call.advance (nxtSegSize c.tcb call.dataSize call.dataSent)) := by
  have hv : retriesValid call.retries = true := by
    rw [h.retries]
    rfl
  have hadd := addedBy_round alloc hi hr hv h.sent_le
  have hlen := round_length c h.sent_le
  have hsent := round_sent_toNat c h.sent_le
  have hzero := nxtSegSize_eq_zero c.tcb h.sent_le
  generalize nxtSegSize c.tcb call.dataSize call.dataSent = n at *
  have hnext : (call.advance n).dataSent.toNat = call.dataSent.toNat + n.toNat := hsent
  have hd : (call.advance n).dataSent.toNat - call.dataSent.toNat = n.toNat := by omega
  cases alloc with
  | true =>
    rw [if_pos rfl] at hadd
    have htext : textOf (addedBy i c (.sendRound i true)) =
        (call.data.drop call.dataSent.toNat).take n.toNat := by
      rw [hadd]
      exact List.flatMap_singleton ..
    refine ⟨by omega, ?_, ?_, ?_⟩
    · rw [hd, htext, hlen]
    · rw [hd]
      exact iff_of_true htext (fun _ _ _ _ _ _ => rfl)
    · rw [hadd]
      intro m hm
      rw [List.mem_singleton.mp hm, ← h.retries]
      rfl
  | false =>
    rw [if_neg Bool.false_ne_true] at hadd
    have hnil : textOf (addedBy i c (.sendRound i false)) = [] := by
      rw [hadd]
      rfl
    refine ⟨by omega, ?_, ?_, ?_⟩
    · rw [hnil]
      exact Nat.zero_le _
    · -- nothing was stored, which loses nothing only when there was no text
      have hlost : [] = (call.data.drop call.dataSent.toNat).take n.toNat ↔ n = 0 := by
        rw [eq_comm, ← List.length_eq_zero_iff, hlen, ← UInt32.toNat_inj]
        rfl
      rw [hnil, hd, hlost, hzero]
      constructor
      · rintro hz - d hm - hw hs
        have hcall : call = d := Option.some.inj (hi.symm.trans hm)
        rw [← hcall] at hs
        exact absurd hz (not_or.mpr ⟨hw, hs⟩)
      · intro hst
        by_contra hz
        obtain ⟨hw, hs⟩ := not_or.mp hz
        exact absurd (hst rfl call hi hr hw hs) Bool.false_ne_true
    · rw [hadd]
      simp

theorem sends_step {data : List UInt8} {c : Conn} {i : Nat} {call : TxCall}
    (hi : c.calls[i]? = some call) (h : Sends data call) (e : Event) :
    ∃ d, (step c e).calls[i]? = some d ∧ Sends data d ∧ Moves i c e call d := by
  by_cases hown : ∃ alloc, e = .sendRound i alloc
  · obtain ⟨alloc, rfl⟩ := hown
    have hstep : step c (.sendRound i alloc) = sendRound c i alloc := rfl
    cases hr : call.result with
    | none =>
      have hv : retriesValid call.retries = true := by
        rw [h.retries]
        rfl
      refine ⟨_, ?_, h.advance c, Moves.round alloc hi hr h⟩
      rw [hstep, sendRound_round alloc hi hr hv h.sent_le]
      exact List.getElem?_set_self (List.getElem?_eq_some_iff.mp hi).1
    | some r =>
      -- the call has returned: the round does nothing
      have hdone : ∀ d, c.calls[i]? = some d → d.result ≠ none := by
        intro d hd
        rw [← Option.some.inj (hi.symm.trans hd), hr]
        exact Option.some_ne_none r
      have hidle : sendRound c i alloc = c := sendRound_idle alloc hdone
      have hnone : addedBy i c (.sendRound i alloc) = [] := by
        rw [addedBy, if_pos rfl, hidle, List.drop_length]
      refine ⟨call, by rw [hstep, hidle, hi], h, Moves.still call hnone ?_⟩
      intro _ d hd hn
      exact absurd hn (hdone d hd)
  · have hnot : ∀ alloc, e ≠ .sendRound i alloc := fun alloc he => hown ⟨alloc, he⟩
    exact ⟨call, call_kept hi hnot, h, Moves.still call (addedBy_other hnot) (stores_other hnot)⟩

/-- Two pieces that are each at most as long as they should be are right together only if
each is. -/
theorem append_eq_take_iff {α : Type*} {l xs ys : List α} {m n : Nat} (hx : xs.length ≤ m)
    (hy : ys.length ≤ n) (hl : m + n ≤ l.length) :
    xs ++ ys = l.take (m + n) ↔ xs = l.take m ∧ ys = (l.drop m).take n := by
  rw [List.take_add]
  constructor
  · intro h
    have hlen := congrArg List.length h
    simp only [List.length_append, List.length_take, List.length_drop] at hlen
    exact List.append_inj h (by rw [List.length_take]; omega)
  · rintro ⟨rfl, rfl⟩
    rfl

theorem sends_run {data : List UInt8} {c : Conn} {i : Nat} {call : TxCall}
    (hi : c.calls[i]? = some call) (h : Sends data call) (es : List Event) :
    ∃ d, (run step c es).calls[i]? = some d ∧ Sends data d ∧
      call.dataSent.toNat ≤ d.dataSent.toNat ∧
      (textOf (addedOver i c es)).length ≤ d.dataSent.toNat - call.dataSent.toNat ∧
      (textOf (addedOver i c es) =
        (data.drop call.dataSent.toNat).take (d.dataSent.toNat - call.dataSent.toNat) ↔
          Along step (Stores i) c es) ∧
      ∀ m ∈ addedOver i c es, m.retries = UInt32.ofInt retriesInfinite := by
  induction es generalizing c call with
  | nil =>
    exact ⟨call, hi, h, Nat.le_refl _, by simp [addedOver, textOf], by simp [addedOver,
      textOf, Along],
      by simp [addedOver]⟩
  | cons e es ih =>
    obtain ⟨d, hd, hsd, hm⟩ := sends_step hi h e
    obtain ⟨f, hf, hsf, hle, hshort, hiff, hret⟩ := ih hd hsd
    have hsize : f.dataSent.toNat ≤ data.length := by
      have hfs := hsf.sent_le
      rw [UInt32.le_iff_toNat_le, dataSize_toNat, hsf.text] at hfs
      exact hfs
    have hpieces := hm.exact_iff
    rw [h.text] at hpieces
    have hfirst := hm.short
    have hmono := hm.sent_le
    refine ⟨f, hf, hsf, Nat.le_trans hmono hle, ?_, ?_, ?_⟩
    · rw [addedOver, textOf_append, List.length_append]
      omega
    · have hsplit : f.dataSent.toNat - call.dataSent.toNat =
          (d.dataSent.toNat - call.dataSent.toNat) + (f.dataSent.toNat - d.dataSent.toNat) := by
            omega
      have hdrop : call.dataSent.toNat + (d.dataSent.toNat - call.dataSent.toNat) =
          d.dataSent.toNat := by
        omega
      rw [addedOver, textOf_append, hsplit,
        append_eq_take_iff hfirst hshort (by rw [List.length_drop]; omega), List.drop_drop, hdrop,
          hpieces, hiff, Along]
    · rw [addedOver]
      intro m hmem
      cases List.mem_append.mp hmem with
      | inl hmem => exact hm.retries m hmem
      | inr hmem => exact hret m hmem

namespace SendCall
variable (s : SendCall)

theorem entered_call : ∃ call, s.entered.calls[s.conn.calls.length]? = some call ∧
    call.dataSent = 0 ∧ Sends (s.buf.take (s.buf.length % 2 ^ 32)) call := by
  have hsend : s.entered = send s.conn s.buf := rfl
  have hlt : (s.buf.take (s.buf.length % 2 ^ 32)).length < 2 ^ 32 :=
    Nat.lt_of_le_of_lt (List.length_take_le _ _) (Nat.mod_lt _ (by decide))
  refine ⟨TxCall.start (s.buf.take (s.buf.length % 2 ^ 32)) hlt tcpAck retriesInfinite, ?_, rfl,
    rfl, rfl, rfl, ?_, Or.inl rfl⟩
  · rw [hsend, send, if_pos s.state]
    exact List.getElem?_concat_length
  · rw [UInt32.le_iff_toNat_le]
    exact Nat.zero_le _

/-- When the call returns, its text is whole just when memory was always there. -/
theorem queued_spec :
    (textOf s.queued).length ≤ s.buf.length % 2 ^ 32 ∧
    (textOf s.queued = s.buf.take (s.buf.length % 2 ^ 32) ↔
      Along step (Stores s.conn.calls.length) s.entered s.events) ∧
    ∀ m ∈ s.queued, m.retries = UInt32.ofInt retriesInfinite := by
  obtain ⟨call, hcall, hzero, hs⟩ := s.entered_call
  obtain ⟨d, hd, hsd, -, hshort, hiff, hret⟩ := sends_run hcall hs s.events
  obtain ⟨d', hd', hdone⟩ := s.returned
  have hdd : d = d' := Option.some.inj (hd.symm.trans hd')
  have hall : d.dataSent = d.dataSize := hsd.result.resolve_left (hdd ▸ hdone)
  have hlen : d.dataSent.toNat = s.buf.length % 2 ^ 32 := by
    rw [hall, dataSize_toNat, hsd.text, List.length_take]
    exact Nat.min_eq_left (Nat.mod_le _ _)
  rw [hzero, hlen] at hshort hiff
  have htake : ((s.buf.take (s.buf.length % 2 ^ 32)).drop (0 : UInt32).toNat).take
      (s.buf.length % 2 ^ 32 - (0 : UInt32).toNat) = s.buf.take (s.buf.length % 2 ^ 32) := by
    simp
  rw [htake] at hiff
  exact ⟨hshort, hiff, hret⟩

theorem truthful_iff : s.Truthful ↔
    s.buf.length < 2 ^ 32 ∧ Along step (Stores s.conn.calls.length) s.entered s.events ∨
      s.buf.length = 2 ^ 64 - 1 := by
  obtain ⟨hshort, hiff, hret⟩ := s.queued_spec
  have hsize := s.size
  by_cases hpos : s.buf.length < 2 ^ 63
  · have hr : s.ret = s.buf.length := if_pos hpos
    have htrue : s.Truthful ↔ textOf s.queued = s.buf := by
      rw [Truthful, hr, Int.toNat_natCast, List.take_length]
      constructor
      · intro h
        exact (h.1 (Int.natCast_nonneg _)).1
      · intro h
        exact ⟨fun _ => ⟨h, Nat.le_refl _, hret⟩, fun hneg => absurd hneg (by omega)⟩
    rw [htrue]
    by_cases hsmall : s.buf.length < 2 ^ 32
    · rw [Nat.mod_eq_of_lt hsmall, List.take_length] at hiff
      rw [hiff]
      constructor
      · intro h
        exact Or.inl ⟨hsmall, h⟩
      · rintro (h | h)
        · exact h.2
        · omega
    · -- tcp_tx was given the length modulo 2^32
      have hmod : s.buf.length % 2 ^ 32 < 2 ^ 32 := Nat.mod_lt _ (by decide)
      constructor
      · intro h
        rw [h] at hshort
        omega
      · rintro (h | h)
        · exact absurd h.1 hsmall
        · omega
  · have hr : s.ret = (s.buf.length : Int) - 2 ^ 64 := if_neg hpos
    have htrue : s.Truthful ↔ s.buf.length = 2 ^ 64 - 1 := by
      rw [Truthful, hr]
      constructor
      · intro h
        have hone := h.2 (by omega)
        omega
      · intro h
        exact ⟨fun hneg => absurd hneg (by omega), fun _ => by omega⟩
    rw [htrue]
    constructor
    · exact Or.inr
    · rintro (h | h)
      · omega
      · exact h

end SendCall

def lostSend : SendCall where
  conn := sampleOpen 1000 500
  buf := [1, 2, 3]
  events := [.sendRound 0 false]
  state := by decide +kernel
  size := by decide
  returned := by
    have hcalls : ((run step (step (sampleOpen 1000 500) (.send [1, 2, 3]))
        [.sendRound 0 false]).calls[0]?).map
        TxCall.result = some (some 3) := by decide +kernel
    have hzero : (sampleOpen 1000 500).calls.length = 0 := by decide +kernel
    obtain ⟨call, hcall, hr⟩ := Option.map_eq_some_iff.mp hcalls
    rw [hzero]
    exact ⟨call, hcall, by rw [hr]; exact Option.some_ne_none 3⟩

theorem send_reports_lost : lostSend.ret = 3 ∧ lostSend.queued = [] ∧ ¬ lostSend.Truthful := by
  have hnone : lostSend.queued = [] := by decide +kernel
  refine ⟨rfl, hnone, ?_⟩
  intro h
  have htext := (h.1 (by decide)).1
  rw [hnone] at htext
  exact absurd htext (by decide)

end AnpNetstack
