import AnpNetstack.PeerStream

/-! The streams as the programs see them: where each program calls send from one thread only, what
recv has returned is the beginning of the buffers that were given to send, one after the other. -/
namespace AnpNetstack
open Runs Duplex

section Calls

def callsText (calls : List TxCall) : List UInt8 :=
  calls.flatMap (fun call => call.data.take call.dataSent.toNat)

/-- What the calls were given to send, one after the other. tcp_tx takes the length of a buffer
modulo 2^32, so of a longer one it is what stands before that length. -/
def callsData (calls : List TxCall) : List UInt8 := calls.flatMap TxCall.data

def OneCaller (c : Conn) : Event → Prop
  | .send _ => ∀ call ∈ c.calls, call.result ≠ none
  | _ => True

instance (c : Conn) : (e : Event) → Decidable (OneCaller c e)
  | .send _ => inferInstanceAs (Decidable (∀ call ∈ c.calls, call.result ≠ none))
  | .connect | .sendRound _ _ | .recv _ | .segment _ | .rxStep | .retransmit | .close | .closeFin
  | .closeTimer =>
    inferInstanceAs (Decidable True)

/-- Only the last call can still be running, and the record holds their text in order. -/
structure OneByOne (c : Conn) : Prop where
  text : sentText c.sent = callsText c.calls
  last : ∀ i call, c.calls[i]? = some call → call.result = none → i + 1 = c.calls.length

theorem callsText_append (xs ys : List TxCall) :
    callsText (xs ++ ys) = callsText xs ++ callsText ys :=
  List.flatMap_append

theorem callsText_single (call : TxCall) : callsText [call] = call.data.take call.dataSent.toNat :=
  List.append_nil _

theorem set_last {calls : List TxCall} {i : Nat} {call : TxCall} (hi : calls[i]? = some call)
    (hlast : i + 1 = calls.length) (d : TxCall) :
    calls = calls.take i ++ [call] ∧ calls.set i d = calls.take i ++ [d] := by
  have hlt : i < calls.length := by omega
  have hget : calls[i] = call := (List.getElem?_eq_some_iff.mp hi).2
  have hdrop : calls.drop (i + 1) = [] := List.drop_eq_nil_of_le (by omega)
  constructor
  · have hsplit := List.take_append_drop i calls
    rw [List.drop_eq_getElem_cons hlt, hget, hdrop] at hsplit
    exact hsplit.symm
  · rw [List.set_eq_take_append_cons_drop, if_pos hlt, hdrop]

theorem round_text (c : Conn) {call : TxCall} (hle : call.dataSent ≤ call.dataSize) (i : Nat) :
    let n := nxtSegSize c.tcb call.dataSize call.dataSent
    (call.advance n).data.take (call.advance n).dataSent.toNat =
      call.data.take call.dataSent.toNat ++
        (sentRecord c (some i) (call.data.drop call.dataSent.toNat) n call.flags).seg.data := by
  intro n
  have hn : (call.dataSent + n).toNat = call.dataSent.toNat + n.toNat := round_sent_toNat c hle
  have hdata : (sentRecord c (some i) (call.data.drop call.dataSent.toNat) n call.flags).seg.data =
      (call.data.drop call.dataSent.toNat).take n.toNat := rfl
  rw [hdata, TxCall.advance_data, TxCall.advance, hn, List.take_add]

theorem OneByOne.step {c : Conn} (h : OneByOne c) (hc : Solo c) {e : Event} (he : OneCaller c e) :
    OneByOne (step c e) := by
  have hsame {c' : Conn} (hs : c'.sent = c.sent) (hcalls : c'.calls = c.calls) : OneByOne c' :=
    ⟨by rw [hs, hcalls, h.text], hcalls ▸ h.last⟩
  have hok {i : Nat} {call : TxCall} (hi : c.calls[i]? = some call) :
      retriesValid call.retries = true ∧ call.dataSent ≤ call.dataSize := by
    cases hc.log with
    | opening hs hiss hcalls hsyn => simp [hcalls] at hi
    | opened old new hs hsent hold hnew hcalls hfin hsend =>
      exact ⟨(hsend.calls i call hi).retries, (hsend.calls i call hi).sent_le⟩
  have hsend := send_step c e
  generalize AnpNetstack.step c e = c' at hsend ⊢
  cases hsend with
  | quiet hs hcalls hn => exact hsame hs hcalls
  | cross pkt hst hs hcalls hn => exact hsame hs hcalls
  | call buf data size hs hcalls hn =>
    constructor
    · rw [hs, hcalls, callsText_append, callsText_single, h.text]
      exact (List.append_nil _).symm
    · intro i call hi hr
      rw [hcalls] at hi ⊢
      by_cases hlt : i < c.calls.length
      · rw [List.getElem?_append_left hlt] at hi
        exact absurd hr (he call (List.mem_of_getElem? hi))
      · have hle := (List.getElem?_eq_some_iff.mp hi).1
        simp only [List.length_append, List.length_singleton] at hle ⊢
        omega
  | empty flags hf hs hcalls hn =>
    refine ⟨?_, hcalls ▸ h.last⟩
    rw [hs, hcalls, sentText_append, h.text]
    exact List.append_nil _
  | round i alloc call n hi hr hv hle hsize hs hcalls hn =>
    have hlast := h.last i call hi hr
    obtain ⟨hold, hnew⟩ := set_last hi hlast (call.advance n)
    have hround := round_text c hle i
    rw [← hsize] at hround
    constructor
    · have htext := h.text
      rw [hold, callsText_append, callsText_single] at htext
      rw [hs, hcalls, hnew, callsText_append, callsText_single, sentText_append, htext, hround,
        List.append_assoc]
      exact congrArg _ (congrArg _ (List.append_nil _))
    · intro j d hj hrj
      rw [hcalls] at hj ⊢
      rw [List.length_set]
      by_cases hij : i = j
      · exact hij ▸ hlast
      · rw [List.getElem?_set_ne hij] at hj
        exact h.last j d hj hrj
  | fails i alloc call r hi hbad hs hcalls hn => exact absurd (hok hi) hbad

/-- Calls that have returned have queued their whole buffers. -/
theorem Solo.returned {c : Conn} (hc : Solo c) {calls : List TxCall}
    (hsub : ∀ call ∈ calls, call ∈ c.calls) (hret : ∀ call ∈ calls, call.result ≠ none) :
    callsText calls = callsData calls := by
  unfold callsText callsData
  refine List.flatMap_congr (fun call hcall => ?_)
  obtain ⟨i, hi⟩ := List.mem_iff_getElem?.mp (hsub call hcall)
  cases hc.log with
  | opening hs hiss hcalls hsyn => simp [hcalls] at hi
  | opened old new hs hsent hold hnew hcalls hfin hsend =>
    have hsize := (hsend.calls i call hi).result.resolve_left (hret call hcall)
    rw [hsize, dataSize_toNat, List.take_length]

theorem OneByOne.beginning {c : Conn} (h : OneByOne c) (hc : Solo c) :
    sentText c.sent <+: callsData c.calls := by
  rw [h.text]
  by_cases hrun : ∃ (i : Nat) (call : TxCall), c.calls[i]? = some call ∧ call.result = none
  · obtain ⟨i, call, hi, hr⟩ := hrun
    have hlast := h.last i call hi hr
    obtain ⟨hcalls, -⟩ := set_last hi hlast call
    have hret : ∀ d ∈ c.calls.take i, d.result ≠ none := by
      intro d hd hnone
      obtain ⟨j, hj⟩ := List.mem_iff_getElem?.mp hd
      rw [List.getElem?_take] at hj
      split_ifs at hj with hlt
      have hend := h.last j d hj hnone
      omega
    have hsub : ∀ d ∈ c.calls.take i, d ∈ c.calls := fun d hd => List.mem_of_mem_take hd
    have hwhole := hc.returned hsub hret
    have hdata : callsData c.calls = callsData (c.calls.take i) ++ call.data := by
      conv_lhs => rw [hcalls]
      rw [callsData, List.flatMap_append]
      exact congrArg _ (List.append_nil _)
    rw [hdata, hcalls, callsText_append, callsText_single, ← hcalls, hwhole]
    exact List.prefix_append_right_inj _ |>.mpr (List.take_prefix _ _)
  · have hret : ∀ d ∈ c.calls, d.result ≠ none := by
      intro d hd hnone
      obtain ⟨j, hj⟩ := List.mem_iff_getElem?.mp hd
      exact hrun ⟨j, d, hj, hnone⟩
    rw [hc.returned (fun d hd => hd) hret]

end Calls

structure Called (own other : Conn) : Prop where
  streaming : Streaming own other
  calls : OneByOne own

theorem called_start (b b' : PeerBlock) : Called b.conn b'.conn where
  streaming := streaming_start b b'
  calls := ⟨rfl, by simp [PeerBlock.conn, connectBlock]⟩

theorem called_steady :
    Steady peer Called Says (fun own _ e => OneCaller own e) (fun _ _ _ _ => True) where
  act own other e h h' hok := by
    have hboth := streaming_steady.act own other e h.streaming h'.streaming trivial
    refine ⟨⟨hboth.1, ?_⟩, ⟨hboth.2, h'.calls⟩⟩
    change OneByOne (peerAct own e)
    cases peerAct_cases own e with
    | inl he =>
      rw [he]
      exact h.calls
    | inr he =>
      rw [he.1]
      exact h.calls.step h.streaming.pair.solo hok
  take own other pkt pad h h' hsaid hok := by
    have hboth := streaming_steady.take own other pkt pad h.streaming h'.streaming hsaid hok
    have hcalls := h.calls.step h.streaming.pair.solo (e := .segment (padded pkt pad)) trivial
    exact ⟨⟨hboth.1, hcalls⟩, ⟨hboth.2, h'.calls⟩⟩
  emits own other e h pkt hpkt := says_emits h.streaming.pair.solo e hpkt
  keeps c e pkt h := says_act h e
  keeps_take c pkt' pad pkt h := h.step _

def OneCallerEach (n : Net Conn Packet) : Move Event (List UInt8) → Prop
  | .act s e => OneCaller (n.party s) e
  | .deliver _ _ _ => True

instance (n : Net Conn Packet) : (e : Move Event (List UInt8)) → Decidable (OneCallerEach n e)
  | .act s e => inferInstanceAs (Decidable (OneCaller (n.party s) e))
  | .deliver _ _ _ => inferInstanceAs (Decidable True)

theorem OneCallerEach.permitted {n : Net Conn Packet} {e : Move Event (List UInt8)}
    (h : OneCallerEach n e) :
    Permitted (fun own _ e => OneCaller own e) (fun _ _ _ _ => True) n e := by
  cases e with
  | act s e => exact h
  | deliver s i pad => exact fun m hm => trivial

end AnpNetstack
