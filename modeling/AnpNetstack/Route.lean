import AnpNetstack.Checksum

/-! route.c and the two devices of anp_netdev.c. Addresses are in host order. -/
namespace AnpNetstack

structure NetDev where
  addr : UInt32
  addrLen : UInt8
  hwaddr : List UInt8
  mtu : UInt32
  deriving DecidableEq, Repr

def cdevExt : NetDev where
  addr := 0x0a000004
  addrLen := 6
  hwaddr := [0xde, 0xad, 0xbe, 0xef, 0xaa, 0xaa]
  mtu := 1500

def cdevLo : NetDev where
  addr := 0x7f000001
  addrLen := 6
  hwaddr := [0, 0, 0, 0, 0, 0]
  mtu := 1500

def rtLoopback : UInt8 := 0x01
def rtGateway : UInt8 := 0x02
def rtHost : UInt8 := 0x04

structure RtEntry where
  dst : UInt32
  gateway : UInt32
  netmask : UInt32
  flags : UInt8
  dev : NetDev
  deriving DecidableEq, Repr

def routeInit : List RtEntry :=
  [{ dst := cdevLo.addr, gateway := 0, netmask := 0xff000000, flags := rtLoopback, dev := cdevLo },
    { dst := cdevExt.addr, gateway := 0, netmask := 0xffffff00, flags := rtHost, dev := cdevExt },
    { dst := 0, gateway := 0x0a000005, netmask := 0, flags := rtGateway, dev := cdevExt }]

/-- The first entry that matches, and the last one when none does. -/
def routeLookup (daddr : UInt32) : List RtEntry → Option RtEntry
  | [] => none
  | [rt] => some rt
  | rt :: next :: rts =>
    if daddr &&& rt.netmask = rt.dst &&& rt.netmask then some rt
    else routeLookup daddr (next :: rts)

theorem routeLookup_mem {daddr : UInt32} {rt : RtEntry} {routes : List RtEntry}
    (h : routeLookup daddr routes = some rt) : rt ∈ routes := by
  induction routes with
  | nil => simp [routeLookup] at h
  | cons r rest ih =>
    cases rest with
    | nil =>
      simp only [routeLookup, Option.some.injEq] at h
      simp [h]
    | cons next rts =>
      simp only [routeLookup] at h
      split_ifs at h with hm
      · simp [Option.some.inj h]
      · exact List.mem_cons_of_mem r (ih h)

theorem routeLookup_some (daddr : UInt32) (rt : RtEntry) (routes : List RtEntry) :
    ∃ found, routeLookup daddr (rt :: routes) = some found := by
  induction routes generalizing rt with
  | nil => exact ⟨rt, rfl⟩
  | cons next routes ih =>
    simp only [routeLookup]
    split_ifs
    · exact ⟨rt, rfl⟩
    · exact ih next

end AnpNetstack
