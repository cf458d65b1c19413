import AnpNetstack.SendTiling

/-! The peer's window and the amount in flight. tcp_tx cuts a segment to the whole window,
not to the part that is still open, and looks at the amount in flight only afterwards. -/
namespace AnpNetstack
open Runs

/-- After a segment with text the amount in flight is within the peer's window. -/
def Sent.Within (x : Sent) : Prop :=
  x.seg.data ≠ [] → x.tcb.sndNxt - x.tcb.sndUna ≤ x.tcb.sndWnd

def inFlight (tcb : Tcb) (call : TxCall) : Nat :=
  (tcb.sndNxt - tcb.sndUna).toNat + (ctlLen call.flags).toNat

def nextPiece (call : TxCall) : Nat :=
  min tcpMaxSegSize.toNat (call.dataSize.toNat - call.dataSent.toNat)

/-- The round queues no text, or nothing is in flight, or the whole next piece fits beside
what is in flight. In the last case the 32-bit difference has gone all the way round. -/
def RoundFits (tcb : Tcb) (call : TxCall) : Prop :=
  tcb.sndWnd.toNat = 0 ∨ nextPiece call = 0 ∨ inFlight tcb call = 0 ∨
    inFlight tcb call + nextPiece call ≤ tcb.sndWnd.toNat ∨
    2 ^ 32 ≤ inFlight tcb call + min tcb.sndWnd.toNat (nextPiece call)

instance (tcb : Tcb) (call : TxCall) : Decidable (RoundFits tcb call) :=
  inferInstanceAs (Decidable (_ ∨ _ ∨ _ ∨ _ ∨ _))

def FitsWindow (c : Conn) : Event → Prop
  | .sendRound i _ => ∀ call ∈ c.calls[i]?, call.result = none → RoundFits c.tcb call
  | _ => True

instance (c : Conn) : (e : Event) → Decidable (FitsWindow c e)
  | .sendRound i _ =>
    inferInstanceAs (Decidable (∀ call ∈ c.calls[i]?, call.result = none → RoundFits c.tcb call))
  | .connect | .send _ | .recv _ | .segment _ | .rxStep | .retransmit | .close | .closeFin
  | .closeTimer => inferInstanceAs (Decidable True)

theorem ctlLen_le (flags : UInt8) : (ctlLen flags).toNat ≤ 1 := by
  unfold ctlLen
  split_ifs
  · exact Nat.le_refl 1
  · exact Nat.zero_le 1

/-- The amount in flight after a round with `min w l` bytes of text, in exact numbers. -/
theorem in_flight_le_iff {f w : Nat} (l : Nat) (hf : f ≤ 2 ^ 32) (hw : w < 2 ^ 32) :
    (f + min w l) % 2 ^ 32 ≤ w ↔ f = 0 ∨ f + l ≤ w ∨ 2 ^ 32 ≤ f + min w l := by
  by_cases hwrap : 2 ^ 32 ≤ f + min w l
  · have hmod : (f + min w l) % 2 ^ 32 = f + min w l - 2 ^ 32 := by omega
    rw [hmod]
    omega
  · rw [Nat.mod_eq_of_lt (Nat.lt_of_not_le hwrap)]
    omega

/-- A round of a call leaves the amount in flight within the window iff it fits. -/
theorem round_within_iff (c : Conn) (i : Nat) {call : TxCall}
    (hle : call.dataSent ≤ call.dataSize) :
    (sentRecord c (some i) (call.data.drop call.dataSent.toNat)
      (nxtSegSize c.tcb call.dataSize call.dataSent) call.flags).Within ↔ RoundFits c.tcb call := by
  set n := nxtSegSize c.tcb call.dataSize call.dataSent with hn
  have hlen : ((call.data.drop call.dataSent.toNat).take n.toNat).length = n.toNat :=
    round_length c hle
  have hmin : n.toNat = min c.tcb.sndWnd.toNat (nextPiece call) := nxtSegSize_toNat c.tcb hle
  have hempty : (call.data.drop call.dataSent.toNat).take n.toNat ≠ [] ↔ n.toNat ≠ 0 := by
    rw [← List.length_pos_iff, hlen]
    exact Nat.pos_iff_ne_zero
  have hf : inFlight c.tcb call ≤ 2 ^ 32 := by
    have h1 := (c.tcb.sndNxt - c.tcb.sndUna).toNat_lt
    have h2 := ctlLen_le call.flags
    unfold inFlight
    omega
  have hflight : (c.tcb.sndNxt + ctlLen call.flags + n - c.tcb.sndUna).toNat =
      (inFlight c.tcb call + n.toNat) % 2 ^ 32 := by
    have hcomm : c.tcb.sndNxt + ctlLen call.flags + n - c.tcb.sndUna =
        c.tcb.sndNxt - c.tcb.sndUna + ctlLen call.flags + n := by grind
    rw [hcomm, UInt32.toNat_add, UInt32.toNat_add, Nat.mod_add_mod]
    rfl
  have hdef : (sentRecord c (some i) (call.data.drop call.dataSent.toNat) n call.flags).Within ↔
      (n.toNat ≠ 0 → (inFlight c.tcb call + n.toNat) % 2 ^ 32 ≤ c.tcb.sndWnd.toNat) := by
    rw [← hempty, ← hflight, ← UInt32.le_iff_toNat_le]
    rfl
  rw [hdef, hmin]
  by_cases hz : min c.tcb.sndWnd.toNat (nextPiece call) = 0
  · have hnone : c.tcb.sndWnd.toNat = 0 ∨ nextPiece call = 0 := by omega
    constructor
    · intro _
      exact hnone.elim Or.inl (fun h => Or.inr (Or.inl h))
    · intro _ h
      exact absurd hz h
  · have hboth : c.tcb.sndWnd.toNat ≠ 0 ∧ nextPiece call ≠ 0 := by omega
    have hiff := in_flight_le_iff (nextPiece call) hf c.tcb.sndWnd.toNat_lt
    constructor
    · intro h
      exact Or.inr (Or.inr (hiff.mp (h hz)))
    · intro h _
      exact hiff.mpr ((h.resolve_left hboth.1).resolve_left hboth.2)

theorem within_of_not_round {c : Conn} {e : Event} (he : ∀ i alloc, e ≠ .sendRound i alloc)
    {xs : List Sent} (hxs : (step c e).sent = c.sent ++ xs) : ∀ x ∈ xs, x.Within := by
  have hsend := send_step c e
  generalize step c e = c' at hsend hxs
  have hnil (hs : c'.sent = c.sent) : xs = [] := by
    rw [hs] at hxs
    exact List.self_eq_append_right.mp hxs
  cases hsend with
  | quiet hs hc hn => simp [hnil hs]
  | call buf data size hs hc hn => simp [hnil hs]
  | empty flags hf hs hc hn =>
    rw [hs] at hxs
    rw [← List.append_cancel_left hxs]
    intro x hx
    rw [List.mem_singleton.mp hx]
    exact fun h => absurd rfl h
  | round i alloc => exact absurd rfl (he i alloc)
  | fails i alloc => exact absurd rfl (he i alloc)
  | cross pkt hst hs hc hn => simp [hnil hs]

theorem Sending.within_step {start : UInt32} {new : List Sent} {c : Conn} (h : Sending start new c)
    (e : Event) {xs : List Sent} (hxs : (AnpNetstack.step c e).sent = c.sent ++ xs) :
    (∀ x ∈ xs, x.Within) ↔ FitsWindow c e := by
  by_cases he : ∃ i alloc, e = .sendRound i alloc
  · obtain ⟨i, alloc, rfl⟩ := he
    by_cases hrun : ∃ call, c.calls[i]? = some call ∧ call.result = none
    · obtain ⟨call, hi, hr⟩ := hrun
      have hk := h.calls i call hi
      have hfits : FitsWindow c (.sendRound i alloc) ↔ RoundFits c.tcb call := by
        constructor
        · intro hf
          exact hf call hi hr
        · intro hf d hd _
          rw [hi] at hd
          exact Option.some.inj hd ▸ hf
      have hround := hxs.symm.trans (sendRound_sent alloc hi hr hk.retries hk.sent_le)
      rw [hfits, ← round_within_iff c i hk.sent_le, List.append_cancel_left hround]
      simp
    · have hidle : AnpNetstack.step c (.sendRound i alloc) = c :=
        sendRound_idle alloc (fun call hi hr => hrun ⟨call, hi, hr⟩)
      rw [hidle] at hxs
      rw [List.self_eq_append_right.mp hxs]
      constructor
      · intro _ call hi hr
        exact absurd ⟨call, hi, hr⟩ hrun
      · simp
  · have hnot : ∀ i alloc, e ≠ .sendRound i alloc := fun i alloc h => he ⟨i, alloc, h⟩
    have hfits : FitsWindow c e := by
      cases e with
      | sendRound i alloc => exact absurd rfl (hnot i alloc)
      | _ => trivial
    exact ⟨fun _ => hfits, fun _ => within_of_not_round hnot hxs⟩

theorem Sending.within_run {start : UInt32} {new : List Sent} {c : Conn} (h : Sending start new c)
    (es : List Event) {xs : List Sent}
    (hxs : (Runs.run AnpNetstack.step c es).sent = c.sent ++ xs) :
    (∀ x ∈ xs, x.Within) ↔ Along AnpNetstack.step FitsWindow c es := by
  induction es generalizing c new xs with
  | nil =>
    rw [List.self_eq_append_right.mp hxs]
    simp [Along]
  | cons e es ih =>
    obtain ⟨ys, hys, hstep⟩ := h.step e
    obtain ⟨zs, hzs, -⟩ := hstep.run es
    have hxyz : xs = ys ++ zs := by
      rw [hys, List.append_assoc] at hzs
      exact List.append_cancel_left (hxs.symm.trans hzs)
    rw [hxyz, Along, ← h.within_step e hys, ← ih hstep hzs]
    exact List.forall_mem_append

def twoSends : List Event := [.send [1, 2], .sendRound 0 true, .send [3, 4], .sendRound 1 true]

end AnpNetstack
