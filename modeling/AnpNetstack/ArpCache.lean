import AnpNetstack.ArpAgreement
import AnpNetstack.TextExtraction

/-! The cache of arp.c as a map. Whatever packets arp_rx has been given, no address stands in
the list twice, and arp_get_hwaddr finds what the last packet for an address has said. -/
namespace AnpNetstack.Wire
open Packed FixedBuffer Runs

structure ArpSub where
  sub : Subuff
  size : ethHdrLen + arpHdrLen + arpDataLen ≤ sub.buf.length

/-- The hardware address a packet gives for `ip`: it has to be one between Ethernet and IPv4
addresses, of any opcode. -/
def announces (ip : UInt32) (p : ArpSub) : Option (Buffer UInt8 6) :=
  let hdr := readArpHdr (p.sub.buf.drop ethHdrLen)
  let data := readArpIpv4 (p.sub.buf.drop (ethHdrLen + arpHdrLen))
  if ntohs hdr.hwtype = arpEthernet ∧ ntohs hdr.protype = arpIpv4 ∧ ntohl data.srcIp = ip then
    some data.srcMac
  else none

def lastAnnounced (ps : List ArpSub) (ip : UInt32) : Option (Buffer UInt8 6) :=
  ps.reverse.findSome? (announces ip)

def arpHistory (netdev : NetDev) (ps : List ArpSub) : List ArpCacheEntry :=
  run (fun cache p => (arpRx netdev cache p.sub).1) [] ps

theorem lastAnnounced_snoc (ps : List ArpSub) (p : ArpSub) (ip : UInt32) :
    lastAnnounced (ps ++ [p]) ip = (announces ip p).or (lastAnnounced ps ip) := by
  rw [lastAnnounced, lastAnnounced, List.reverse_append, List.reverse_singleton,
    List.singleton_append, List.findSome?_cons]
  cases announces ip p <;> rfl

section Entry
variable {cache : List ArpCacheEntry}

/-- A known address keeps its place, a new one goes to the end. -/
theorem processArpEntry_srcIp (d : ArpIpv4) (cache : List ArpCacheEntry) :
    (processArpEntry d cache).map ArpCacheEntry.srcIp =
      if d.srcIp ∈ cache.map ArpCacheEntry.srcIp then cache.map ArpCacheEntry.srcIp
      else cache.map ArpCacheEntry.srcIp ++ [d.srcIp] := by
  induction cache with
  | nil => rfl
  | cons entry cache ih =>
    by_cases hip : entry.srcIp = d.srcIp
    · simp [processArpEntry, hip]
    · have hmem : d.srcIp ∈ (entry :: cache).map ArpCacheEntry.srcIp ↔
          d.srcIp ∈ cache.map ArpCacheEntry.srcIp := by
        simp [Ne.symm hip]
      simp only [processArpEntry, hip, if_false, List.map_cons, ih] at hmem ⊢
      split_ifs <;> simp_all

theorem processArpEntry_nodup (d : ArpIpv4) (h : (cache.map ArpCacheEntry.srcIp).Nodup) :
    ((processArpEntry d cache).map ArpCacheEntry.srcIp).Nodup := by
  rw [processArpEntry_srcIp]
  split_ifs with hmem
  · exact h
  · exact List.nodup_append.mpr ⟨h, List.nodup_singleton _, fun a ha b hb => by
      rw [List.mem_singleton.mp hb]
      exact fun he => hmem (he ▸ ha)⟩

end Entry

section History
variable {cache : List ArpCacheEntry} {ps : List ArpSub}

/-- Either the packet announces nothing and the cache stays, or its pair of addresses goes in. -/
theorem arpRx_cache (netdev : NetDev) (cache : List ArpCacheEntry) (p : ArpSub) :
    ((∀ ip, announces ip p = none) ∧ (arpRx netdev cache p.sub).1 = cache) ∨
    ∃ d : ArpIpv4, (∀ ip, announces ip p = if d.srcIp = ip then some d.srcMac else none) ∧
      (arpRx netdev cache p.sub).1 = processArpEntry d cache := by
  have hsize : ethHdrLen ≤ p.sub.buf.length := le_trans (by decide) p.size
  have hkeep (h : ArpHdr) : (storeArpHdr p.sub h).buf.drop (ethHdrLen + arpHdrLen) =
      p.sub.buf.drop (ethHdrLen + arpHdrLen) :=
        drop_overwrite hsize (by rw [arpHdrMem_length]; exact le_refl _)
  simp only [announces, arpRx, hkeep]
  by_cases hhw : ntohs (readArpHdr (p.sub.buf.drop ethHdrLen)).hwtype = arpEthernet
  · by_cases hpro : ntohs (readArpHdr (p.sub.buf.drop ethHdrLen)).protype = arpIpv4
    · let d := readArpIpv4 (p.sub.buf.drop (ethHdrLen + arpHdrLen))
      refine .inr ⟨{ d with srcIp := ntohl d.srcIp, dstIp := ntohl d.dstIp }, fun ip => ?_, ?_⟩
      · simp only [hhw, hpro, true_and, d]
      · simp only [hhw, hpro, ne_eq, not_true_eq_false, if_false]
        split_ifs <;> rfl
    · refine .inl ⟨fun ip => by simp [hpro], ?_⟩
      simp [hhw, hpro]
  · refine .inl ⟨fun ip => by simp [hhw], ?_⟩
    simp [hhw]

structure CacheMap (cache : List ArpCacheEntry) (ps : List ArpSub) : Prop where
  resolved : Resolved cache
  nodup : (cache.map ArpCacheEntry.srcIp).Nodup
  lookup : ∀ ip, arpGetHwaddr cache ip = (lastAnnounced ps ip).map Buffer.cells

theorem CacheMap.arpRx (h : CacheMap cache ps) (netdev : NetDev) (p : ArpSub) :
    CacheMap (arpRx netdev cache p.sub).1 (ps ++ [p]) := by
  obtain ⟨hnone, hcache⟩ | ⟨d, hsome, hcache⟩ := arpRx_cache netdev cache p
  · rw [hcache]
    refine ⟨h.resolved, h.nodup, fun ip => ?_⟩
    rw [lastAnnounced_snoc, hnone, Option.none_or]
    exact h.lookup ip
  · rw [hcache]
    refine ⟨h.resolved.processArpEntry d, processArpEntry_nodup d h.nodup, fun ip => ?_⟩
    rw [lastAnnounced_snoc, hsome]
    by_cases hip : d.srcIp = ip
    · subst hip
      rw [if_pos rfl, arpGetHwaddr_same h.resolved]
      rfl
    · rw [if_neg hip, Option.none_or, arpGetHwaddr_other d (Ne.symm hip)]
      exact h.lookup ip

theorem cacheMap_history (netdev : NetDev) (ps : List ArpSub) :
    CacheMap (arpHistory netdev ps) ps := by
  induction ps using List.reverseRecOn with
  | nil => exact ⟨by simp [Resolved, arpHistory, run], List.nodup_nil, fun ip => rfl⟩
  | append_singleton ps p ih =>
    rw [arpHistory, run_append]
    exact ih.arpRx netdev p

theorem arp_cache_last_writer (netdev : NetDev) (ps : List ArpSub) :
    let cache := arpHistory netdev ps
    (cache.map ArpCacheEntry.srcIp).Nodup ∧
      ∀ ip, arpGetHwaddr cache ip = (lastAnnounced ps ip).map Buffer.cells :=
  ⟨(cacheMap_history netdev ps).nodup, (cacheMap_history netdev ps).lookup⟩

end History

section Frames

def arpSubOf (frame : List UInt8) : ArpSub where
  sub := { allocSub anpMtu15MaxSize with buf := (ethHdr (rxBuf frame)).2 }
  size := by
    refine le_trans ?_ (le_overwrite_length _ _ _)
    rw [rxBuf_length]
    decide

def isArp (frame : List UInt8) : Bool := (ethHdr (rxBuf frame)).1 == ethPArp

theorem arpInput_eq (netdev : NetDev) (cache : List ArpCacheEntry) (frame : List UInt8) :
    arpInput netdev cache frame =
      if isArp frame = true then arpRx netdev cache (arpSubOf frame).sub else (cache, []) := by
  by_cases harp : (ethHdr (rxBuf frame)).1 = ethPArp
  · rw [isArp, if_pos (beq_iff_eq.mpr harp)]
    exact if_pos harp
  · rw [isArp, if_neg (fun h => harp (eq_of_beq h))]
    exact if_neg harp

/-- The cache of a stack is that of the ARP frames among those it has received. -/
theorem cacheAfter_eq_history (netdev : NetDev) (frames : List (List UInt8)) :
    cacheAfter netdev frames = arpHistory netdev ((frames.filter isArp).map arpSubOf) := by
  induction frames using List.reverseRecOn with
  | nil => rfl
  | append_singleton frames frame ih =>
    have hstep : cacheAfter netdev (frames ++ [frame]) =
        (arpInput netdev (cacheAfter netdev frames) frame).1 := by
      rw [cacheAfter, run_append]
      rfl
    rw [hstep, arpInput_eq, ih, List.filter_append, List.map_append, List.filter_singleton]
    cases isArp frame with
    | true =>
      rw [arpHistory, arpHistory, run_append]
      rfl
    | false => rw [if_neg Bool.false_ne_true, cond_false, List.map_nil, List.append_nil]

end Frames
end AnpNetstack.Wire
