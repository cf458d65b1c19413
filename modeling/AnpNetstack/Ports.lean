import AnpNetstack.SocketTable

/-! Local ports. available_port only grows until it wraps around, so while it has not
reached its maximum every block that has been given a port has one of its own. -/
namespace AnpNetstack
open Runs

section Cache

theorem cacheBlocks_detach (fd : Int) (sockets : List AnpSocket) :
    (cacheBlocks (setConnInfo fd none sockets)).Sublist (cacheBlocks sockets) := by
  induction sockets with
  | nil => exact List.Sublist.refl _
  | cons s rest ih =>
    cases hc : s.connInfo with
    | none =>
      by_cases hs : s.fd = fd
      · simp [cacheBlocks, setConnInfo, hs, hc]
      · simp only [cacheBlocks, setConnInfo, hs, if_false, List.filterMap_cons, hc]
        exact ih
    | some b =>
      by_cases hs : s.fd = fd
      · simp [cacheBlocks, setConnInfo, hs, hc]
      · simp only [cacheBlocks, setConnInfo, hs, if_false, List.filterMap_cons, hc]
        exact ih.cons_cons b

/-- Attaching a block: it comes in the place of the one the socket had. -/
theorem mem_cacheBlocks_attach {fd : Int} {b x : Nat} {sockets : List AnpSocket}
    (h : x ∈ cacheBlocks (setConnInfo fd (some b) sockets)) :
    x = b ∨ x ∈ cacheBlocks (setConnInfo fd none sockets) := by
  induction sockets with
  | nil => simp [cacheBlocks, setConnInfo] at h
  | cons s rest ih =>
    by_cases hs : s.fd = fd
    · simp only [cacheBlocks, setConnInfo, hs, if_true, List.filterMap_cons, List.mem_cons] at h ⊢
      exact h
    · simp only [cacheBlocks, setConnInfo, hs, if_false, List.filterMap_cons] at h ⊢
      cases hc : s.connInfo with
      | none =>
        rw [hc] at h
        exact ih h
      | some c =>
        rw [hc] at h
        cases List.mem_cons.mp h with
        | inl he => exact Or.inr (he ▸ List.mem_cons_self)
        | inr hm =>
          cases ih hm with
          | inl he => exact Or.inl he
          | inr hm => exact Or.inr (List.mem_cons_of_mem c hm)

theorem nodup_cacheBlocks_attach {fd : Int} {b : Nat} {sockets : List AnpSocket}
    (h : (cacheBlocks sockets).Nodup) (hb : b ∉ cacheBlocks sockets) :
    (cacheBlocks (setConnInfo fd (some b) sockets)).Nodup := by
  induction sockets with
  | nil => simp [cacheBlocks, setConnInfo]
  | cons s rest ih =>
    have hrest : (cacheBlocks rest).Nodup ∧ b ∉ cacheBlocks rest := by
      have hsub : (cacheBlocks rest).Sublist (cacheBlocks (s :: rest)) :=
        (List.sublist_cons_self s rest).filterMap _
      exact ⟨h.sublist hsub, fun hm => hb (hsub.subset hm)⟩
    by_cases hs : s.fd = fd
    · simp only [cacheBlocks, setConnInfo, hs, if_true, List.filterMap_cons]
      exact List.nodup_cons.mpr ⟨hrest.2, hrest.1⟩
    · simp only [cacheBlocks, setConnInfo, hs, if_false, List.filterMap_cons] at h hb ⊢
      cases hc : s.connInfo with
      | none => exact ih hrest.1 hrest.2
      | some c =>
        rw [hc] at h hb
        refine List.nodup_cons.mpr ⟨?_, ih hrest.1 hrest.2⟩
        intro hm
        cases mem_cacheBlocks_attach hm with
        | inl he => exact hb (he ▸ List.mem_cons_self)
        | inr hm => exact (List.nodup_cons.mp h).1 ((cacheBlocks_detach fd rest).subset hm)

end Cache

def attaches (t : Table) (fd : Int) (alloc : Bool) : Bool :=
  isAnpSockfd t fd && (getAnpSocket t fd).isSome && alloc

/-- A port is left when get_port is called, and when a new block comes into the cache all
others there have their port. -/
def PortLeft (t : Table) : TableEvent → Prop
  | .connect fd _ _ alloc => attaches t fd alloc = true →
      ∀ b ∈ cacheBlocks (setConnInfo fd none t.sockets), (t.blocks b).localPort ≠ 0
  | .connectFill i => ∀ call ∈ t.calls[i]?, call.todo.head? = some .localPort →
      t.availablePort.toUInt32 < portsEnding
  | _ => True

instance (t : Table) : (e : TableEvent) → Decidable (PortLeft t e)
  | .connect fd _ _ _ => inferInstanceAs (Decidable (_ →
      ∀ b ∈ cacheBlocks (setConnInfo fd none t.sockets), (t.blocks b).localPort ≠ 0))
  | .connectFill i => inferInstanceAs (Decidable (∀ call ∈ t.calls[i]?, _ → _))
  | .socket _ _ _ _ | .send _ | .recv _ | .close _ _ | .closeReturn _ _ =>
    inferInstanceAs (Decidable True)

inductive PortStep (t t' : Table) : TableEvent → Prop where
  | quiet {e : TableEvent} (hc : (cacheBlocks t'.sockets).Sublist (cacheBlocks t.sockets))
      (hb : ∀ b, (t'.blocks b).localPort = (t.blocks b).localPort)
      (hn : t'.nextBlock = t.nextBlock) (ha : t'.availablePort = t.availablePort)
      (hp : t'.ports = t.ports) : PortStep t t' e
  | attach (fd : Int) (sinPort : UInt16) (sinAddr : UInt32) (alloc : Bool)
      (h : attaches t fd alloc = true)
      (hc : t'.sockets = setConnInfo fd (some t.nextBlock) t.sockets)
      (hb : ∀ b, (t'.blocks b).localPort = if b = t.nextBlock then 0 else (t.blocks b).localPort)
      (hn : t'.nextBlock = t.nextBlock + 1) (ha : t'.availablePort = t.availablePort)
      (hp : t'.ports = t.ports) : PortStep t t' (.connect fd sinPort sinAddr alloc)
  | port (i : Nat) (call : ConnectCall) (hi : t.calls[i]? = some call)
      (hf : call.todo.head? = some .localPort) (hc : t'.sockets = t.sockets)
      (hb : ∀ b, (t'.blocks b).localPort =
        if b = call.block then (getPort t.availablePort).2 else (t.blocks b).localPort)
      (hn : t'.nextBlock = t.nextBlock) (ha : t'.availablePort = (getPort t.availablePort).1)
      (hp : t'.ports = t.ports ++ [(getPort t.availablePort).2]) : PortStep t t' (.connectFill i)

theorem portStep_refl (t : Table) (e : TableEvent) : PortStep t t e :=
  .quiet (List.Sublist.refl _) (fun _ => rfl) rfl rfl rfl

theorem portStep_socket (t : Table) (domain type protocol : Int32) (alloc : Bool) (e : TableEvent) :
    PortStep t (socket t domain type protocol alloc).1 e := by
  unfold socket getNextFd
  split_ifs
  · exact portStep_refl t e
  · exact portStep_refl t e
  · cases nextFree t.fdInUse 0 (fdMaxVal - fdStartVal).toNat with
    | none => exact portStep_refl t e
    | some i =>
      dsimp only
      split_ifs
      · exact portStep_refl t e
      · refine .quiet ?_ (fun _ => rfl) rfl rfl rfl
        simp [cacheBlocks, Table.log]

theorem portStep_connectAttach (t : Table) (fd : Int) (sinPort : UInt16) (sinAddr : UInt32)
    (alloc : Bool) :
    PortStep t (connectAttach t fd sinPort sinAddr alloc).1
      (.connect fd sinPort sinAddr alloc) := by
  by_cases hfd : isAnpSockfd t fd = true
  · cases hs : getAnpSocket t fd with
    | none =>
      simp only [connectAttach, hfd, hs, Bool.not_true, Bool.false_eq_true, if_false]
      exact portStep_refl t _
    | some sock =>
      cases alloc with
      | false =>
        simp only [connectAttach, hfd, hs, Bool.not_true, Bool.not_false,
          Bool.false_eq_true, if_false, if_true]
        refine .quiet ?_ (fun _ => rfl) rfl rfl rfl
        exact List.eraseP_sublist.filterMap _
      | true =>
        simp only [connectAttach, hfd, hs, Bool.not_true, Bool.false_eq_true, if_false]
        refine .attach fd sinPort sinAddr true (by simp [attaches, hfd, hs]) rfl ?_ rfl rfl rfl
        intro b
        by_cases hb : b = t.nextBlock <;> simp [hb]
  · simp only [connectAttach, hfd, Bool.not_false, if_true]
    exact portStep_refl t _

theorem update_localPort (blocks : Nat → Endpoint) (b : Nat) (e : Endpoint)
    (h : e.localPort = (blocks b).localPort) (x : Nat) :
    (Function.update blocks b e x).localPort = (blocks x).localPort := by
  by_cases hx : x = b
  · rw [hx, Function.update_self, h]
  · rw [Function.update_of_ne hx]

theorem portStep_connectFill (t : Table) (i : Nat) :
    PortStep t (connectFill t i) (.connectFill i) := by
  unfold connectFill
  split
  · next b f rest hi =>
    have hquiet (t' : Table) (hs : t'.sockets = t.sockets)
        (hb : ∀ x, (t'.blocks x).localPort = (t.blocks x).localPort)
        (hn : t'.nextBlock = t.nextBlock) (ha : t'.availablePort = t.availablePort)
        (hp : t'.ports = t.ports) : PortStep t t' (.connectFill i) :=
      .quiet (hs ▸ List.Sublist.refl _) hb hn ha hp
    cases f with
    | localPort =>
      refine .port i ⟨b, .localPort :: rest⟩ hi rfl rfl ?_ rfl rfl rfl
      intro x
      by_cases hx : x = b <;> simp [fillStep, hx]
    | remotePort sinPort => exact hquiet _ rfl (update_localPort t.blocks b _ rfl) rfl rfl rfl
    | remoteIp sinAddr => exact hquiet _ rfl (update_localPort t.blocks b _ rfl) rfl rfl rfl
    | localIp =>
      simp only [fillStep]
      split
      · exact hquiet _ rfl (fun _ => rfl) rfl rfl rfl
      · exact hquiet _ rfl (update_localPort t.blocks b _ rfl) rfl rfl rfl
  · exact portStep_refl t _

theorem port_step (t : Table) (e : TableEvent) : PortStep t (tableStep t e) e := by
  cases e with
  | socket domain type protocol alloc => exact portStep_socket t domain type protocol alloc _
  | connect fd sinPort sinAddr alloc => exact portStep_connectAttach t fd sinPort sinAddr alloc
  | connectFill i => exact portStep_connectFill t i
  | send fd => exact portStep_refl t _
  | recv fd => exact portStep_refl t _
  | close fd established =>
    simp only [tableStep, closeWait]
    split
    · split_ifs
      · exact .quiet (List.Sublist.refl _) (fun _ => rfl) rfl rfl rfl
      · exact portStep_refl t _
    · exact portStep_refl t _
  | closeReturn i done =>
    simp only [tableStep, closeReturn]
    split
    · exact portStep_refl t _
    · next fd hi =>
      split_ifs
      · exact .quiet (cacheBlocks_detach fd t.sockets) (fun _ => rfl) rfl rfl rfl
      · exact .quiet (List.Sublist.refl _) (fun _ => rfl) rfl rfl rfl

/-- No port is given twice, and one block in the cache at most is still without one. -/
structure PortInv (t : Table) : Prop where
  start : portsStarting ≤ t.availablePort
  handed : ∀ p ∈ t.ports, portsStarting ≤ p
  nodup : (cacheBlocks t.sockets).Nodup
  bound : ∀ b ∈ cacheBlocks t.sockets, b < t.nextBlock
  port : ∀ b, (t.blocks b).localPort ≤ t.availablePort
  distinct : ∀ a b, a ≠ b → (t.blocks a).localPort = (t.blocks b).localPort →
    (t.blocks a).localPort = 0
  filled : ∀ a ∈ cacheBlocks t.sockets, ∀ b ∈ cacheBlocks t.sockets,
    (t.blocks a).localPort = 0 → (t.blocks b).localPort = 0 → a = b

theorem initTable_portInv (outside : Int → Bool) : PortInv (initTable outside) where
  start := UInt16.le_refl portsStarting
  handed := by simp [initTable]
  nodup := by simp [initTable, cacheBlocks]
  bound := by simp [initTable, cacheBlocks]
  port := fun _ => by simp [initTable, UInt16.le_iff_toNat_le]
  distinct := fun _ _ _ _ => rfl
  filled := by simp [initTable, cacheBlocks]

theorem port_succ {p : UInt16} (h : p.toUInt32 < portsEnding) : (p + 1).toNat = p.toNat + 1 := by
  rw [UInt32.lt_iff_toNat_lt, UInt16.toNat_toUInt32] at h
  have hend : portsEnding.toNat = 65535 := rfl
  have h1 : (1 : UInt16).toNat = 1 := rfl
  rw [UInt16.toNat_add]
  omega

section Step
variable {t t' : Table}

theorem PortInv.quiet (h : PortInv t)
    (hc : (cacheBlocks t'.sockets).Sublist (cacheBlocks t.sockets))
    (hb : ∀ b, (t'.blocks b).localPort = (t.blocks b).localPort) (hn : t'.nextBlock = t.nextBlock)
    (ha : t'.availablePort = t.availablePort) (hp : t'.ports = t.ports) : PortInv t' where
  start := ha ▸ h.start
  handed := hp ▸ h.handed
  nodup := h.nodup.sublist hc
  bound := fun b hm => hn ▸ h.bound b (hc.subset hm)
  port := fun b => by rw [hb, ha]; exact h.port b
  distinct := by
    intro a b hab he
    rw [hb, hb] at he
    rw [hb]
    exact h.distinct a b hab he
  filled := by
    intro a hma b hmb hza hzb
    rw [hb] at hza hzb
    exact h.filled a (hc.subset hma) b (hc.subset hmb) hza hzb

theorem PortInv.attach (h : PortInv t) {fd : Int}
    (hfilled : ∀ b ∈ cacheBlocks (setConnInfo fd none t.sockets), (t.blocks b).localPort ≠ 0)
    (hc : t'.sockets = setConnInfo fd (some t.nextBlock) t.sockets)
    (hb : ∀ b, (t'.blocks b).localPort = if b = t.nextBlock then 0 else (t.blocks b).localPort)
    (hn : t'.nextBlock = t.nextBlock + 1) (ha : t'.availablePort = t.availablePort)
    (hp : t'.ports = t.ports) : PortInv t' := by
  have hnew : t.nextBlock ∉ cacheBlocks t.sockets := fun hm => absurd (h.bound _ hm) (by omega)
  -- only the new block is without a port
  have hzero (b : Nat) (hm : b ∈ cacheBlocks t'.sockets) (hz : (t'.blocks b).localPort = 0) :
      b = t.nextBlock := by
    rw [hc] at hm
    cases mem_cacheBlocks_attach hm with
    | inl he => exact he
    | inr hm =>
      by_contra hne
      rw [hb, if_neg hne] at hz
      exact hfilled b hm hz
  exact
    { start := ha ▸ h.start
      handed := hp ▸ h.handed
      nodup := hc ▸ nodup_cacheBlocks_attach h.nodup hnew
      bound := by
        intro b hm
        rw [hc] at hm
        rw [hn]
        cases mem_cacheBlocks_attach hm with
        | inl he => omega
        | inr hm =>
          have hlt := h.bound b ((cacheBlocks_detach fd t.sockets).subset hm)
          omega
      port := by
        intro b
        rw [hb, ha]
        split_ifs
        · simp [UInt16.le_iff_toNat_le]
        · exact h.port b
      distinct := by
        intro a b hab he
        rw [hb, hb] at he
        rw [hb]
        split_ifs at he ⊢ with haN hbN
        · rfl
        · rfl
        · exact he
        · exact h.distinct a b hab he
      filled := fun a hma b hmb hza hzb => (hzero a hma hza).trans (hzero b hmb hzb).symm }

/-- The port handed out lies above those of all blocks. -/
theorem PortInv.handOut (h : PortInv t) {block : Nat}
    (hleft : t.availablePort.toUInt32 < portsEnding) (hc : t'.sockets = t.sockets)
    (hb : ∀ b, (t'.blocks b).localPort =
      if b = block then t.availablePort + 1 else (t.blocks b).localPort)
    (hn : t'.nextBlock = t.nextBlock) (ha : t'.availablePort = t.availablePort + 1)
    (hp : t'.ports = t.ports ++ [t.availablePort + 1]) : PortInv t' := by
  have hsucc := port_succ hleft
  have hstart := h.start
  have hpos : t.availablePort + 1 ≠ 0 := by
    intro hz
    rw [hz] at hsucc
    simp at hsucc
  have hle : t.availablePort ≤ t.availablePort + 1 := by
    rw [UInt16.le_iff_toNat_le]
    omega
  have hne (b : Nat) : (t.blocks b).localPort ≠ t.availablePort + 1 := by
    intro he
    have hb' := h.port b
    rw [he, UInt16.le_iff_toNat_le] at hb'
    omega
  exact
    { start := by rw [ha]; exact UInt16.le_trans hstart hle
      handed := by
        intro p hm
        rw [hp] at hm
        cases List.mem_append.mp hm with
        | inl hm => exact h.handed p hm
        | inr hm =>
          rw [List.mem_singleton.mp hm]
          exact UInt16.le_trans hstart hle
      nodup := hc ▸ h.nodup
      bound := fun b hm => hn ▸ h.bound b (hc ▸ hm)
      port := by
        intro b
        rw [hb, ha]
        split_ifs
        · exact UInt16.le_refl _
        · exact UInt16.le_trans (h.port b) hle
      distinct := by
        intro a b hab he
        rw [hb, hb] at he
        rw [hb]
        split_ifs at he ⊢ with haN hbN
        · exact absurd (haN.trans hbN.symm) hab
        · exact absurd he.symm (hne b)
        · exact absurd he (hne a)
        · exact h.distinct a b hab he
      filled := by
        intro a hma b hmb hza hzb
        rw [hc] at hma hmb
        rw [hb] at hza hzb
        split_ifs at hza hzb
        · exact absurd hza hpos
        · exact absurd hza hpos
        · exact absurd hzb hpos
        · exact h.filled a hma b hmb hza hzb }

theorem PortInv.step (h : PortInv t) {e : TableEvent} (hs : PortStep t t' e)
    (hleft : PortLeft t e) :
    PortInv t' := by
  cases hs with
  | quiet hc hb hn ha hp => exact h.quiet hc hb hn ha hp
  | attach fd sinPort sinAddr alloc hat hc hb hn ha hp => exact h.attach (hleft hat) hc hb hn ha hp
  | port i call hi hf hc hb hn ha hp =>
    rw [getPort_eq] at hb ha hp
    exact h.handOut (hleft call hi hf) hc hb hn ha hp

end Step

theorem PortInv.endpoint_inj {t : Table} (h : PortInv t) {a b : Nat}
    (ha : a ∈ cacheBlocks t.sockets) (hb : b ∈ cacheBlocks t.sockets)
    (he : t.blocks a = t.blocks b) : a = b := by
  have hp : (t.blocks a).localPort = (t.blocks b).localPort := congrArg Endpoint.localPort he
  by_contra hab
  have hz := h.distinct a b hab hp
  exact hab (h.filled a ha b hb hz (hp ▸ hz))

theorem connections_told_apart (outside : Int → Bool) (es : List TableEvent)
    (hes : Along tableStep PortLeft (initTable outside) es) :
    let t := run tableStep (initTable outside) es
    (∀ p ∈ t.ports, portsStarting.toNat ≤ p.toNat ∧ p.toNat ≤ portsEnding.toNat) ∧
      ((cacheBlocks t.sockets).map t.blocks).Nodup ∧
      ∀ (pkt : Packet) (b : Nat), b ∈ cacheBlocks t.sockets → t.blocks b = pkt.endpoint →
        getTcb t pkt.endpoint = some b ∧
          ∀ b' ∈ cacheBlocks t.sockets, t.blocks b' = pkt.endpoint → b' = b := by
  intro t
  have hinv : PortInv t := run_invariant tableStep (fun t e h hl => h.step (port_step t e) hl)
    (initTable_portInv outside) hes
  have huniq (e : Endpoint) (b : Nat) (hb : b ∈ cacheBlocks t.sockets) (he : t.blocks b = e) :
      ∀ b' ∈ cacheBlocks t.sockets, t.blocks b' = e → b' = b :=
    fun b' hb' he' => hinv.endpoint_inj hb' hb (he'.trans he.symm)
  refine ⟨?_, ?_, ?_⟩
  · intro p hp
    have hstart := UInt16.le_iff_toNat_le.mp (hinv.handed p hp)
    have hlt := p.toNat_lt
    have hend : portsEnding.toNat = 65535 := rfl
    omega
  · exact List.Nodup.map_on (fun a ha b hb he => hinv.endpoint_inj ha hb he) hinv.nodup
  · intro pkt b hb he
    refine ⟨?_, huniq pkt.endpoint b hb he⟩
    have hfound : ∃ b', getTcb t pkt.endpoint = some b' := by
      refine Option.isSome_iff_exists.mp ?_
      rw [getTcb, List.find?_isSome]
      exact ⟨b, hb, by simpa using he⟩
    obtain ⟨b', hget⟩ := hfound
    have hmem := List.mem_of_find?_eq_some hget
    have hmatch : t.blocks b' = pkt.endpoint := by simpa using List.find?_some hget
    rw [hget, huniq pkt.endpoint b hb he b' hmem hmatch]

def connectTimes (n : Nat) : List TableEvent :=
  .socket 2 1 0 true ::
    (List.range n).flatMap (fun i => [.connect fdStartVal 43211 0x0500000a true, .connectFill i])

def connectBoth : List TableEvent :=
  [.socket 2 1 0 true, .socket 2 1 0 true] ++
    (List.range 2).flatMap fun i =>
      .connect (fdStartVal + i) 43211 0x0500000a true :: List.replicate 4 (.connectFill i)

theorem connections_told_apart_sample :
    let t := run tableStep (initTable (fun _ => false)) connectBoth
    cacheBlocks t.sockets = [0, 1] ∧ t.ports = [49155, 49156] ∧
      ((cacheBlocks t.sockets).map t.blocks).Nodup ∧
      ∀ pkt : Packet, t.blocks 1 = pkt.endpoint → getTcb t pkt.endpoint = some 1 := by
  have h := connections_told_apart (fun _ => false) connectBoth (by decide +kernel)
  have hcache : cacheBlocks (run tableStep (initTable (fun _ => false)) connectBoth).sockets =
      [0, 1] := by
    decide +kernel
  exact ⟨hcache, by decide +kernel, h.2.1, fun pkt hpkt => (h.2.2 pkt 1
    (hcache ▸ by decide) hpkt).1⟩

structure Connecting (n : Nat) (t : Table) : Prop where
  inUse : isAnpSockfd t fdStartVal = true
  cached : (getAnpSocket t fdStartVal).isSome = true
  calls : t.calls.length = n
  port : t.availablePort = portsStarting + UInt16.ofNat n

theorem Connecting.next {n : Nat} {t : Table} (h : Connecting n t) :
    let t' := run tableStep t [.connect fdStartVal 43211 0x0500000a true, .connectFill n]
    Connecting (n + 1) t' ∧ t'.ports = t.ports ++ [portsStarting + UInt16.ofNat (n + 1)] := by
  have hport : portsStarting + UInt16.ofNat n + 1 = portsStarting + UInt16.ofNat (n + 1) := by
    rw [UInt16.ofNat_add, UInt16.add_assoc]
    rfl
  obtain ⟨sock, hsock⟩ := Option.isSome_iff_exists.mp h.cached
  simp only [run, tableStep, connectAttach, h.inUse, hsock, connectFill, Bool.not_true,
    Bool.false_eq_true, if_false, List.getElem?_append_right (Nat.le_of_eq h.calls), h.calls,
    Nat.sub_self, List.getElem?_cons_zero, fillStep, getPort_eq, h.port, hport]
  refine ⟨⟨h.inUse, ?_, ?_, rfl⟩, trivial⟩
  · have hc := (getAnpSocket_isSome t fdStartVal).mp h.cached
    rw [getAnpSocket_isSome]
    simpa using hc
  · simp [h.calls]

theorem connecting_run {n : Nat} :
    let t := run tableStep (initTable (fun _ => false)) (connectTimes n)
    Connecting n t ∧ (n ≠ 0 → portsStarting + UInt16.ofNat n ∈ t.ports) := by
  induction n with
  | zero =>
    exact ⟨⟨by decide +kernel, by decide +kernel, by decide +kernel, by decide +kernel⟩, by simp⟩
  | succ n ih =>
    obtain ⟨hn, hports⟩ := ih.1.next
    have he : connectTimes (n + 1) = connectTimes n ++
        [.connect fdStartVal 43211 0x0500000a true, .connectFill n] := by
      simp [connectTimes, List.range_succ]
    rw [he, run_append]
    refine ⟨hn, fun _ => ?_⟩
    rw [hports]
    simp

/-- The ports run out without notice: the call after port 65535 gets port 0. -/
theorem port_zero_handed_out :
    ¬ ∀ p ∈ (run tableStep (initTable (fun _ => false)) (connectTimes 16382)).ports,
      portsStarting.toNat ≤ p.toNat ∧ p.toNat ≤ portsEnding.toNat := by
  intro h
  have hport := connecting_run.2 (show (16382 : Nat) ≠ 0 by decide)
  have hzero : portsStarting + UInt16.ofNat 16382 = 0 := by decide
  rw [hzero] at hport
  exact absurd (h 0 hport).1 (by decide)

end AnpNetstack
