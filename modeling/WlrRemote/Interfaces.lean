import WlrRemote.Advertise

set_option autoImplicit false

namespace WlrRemote
open Octets

/-- Up, multicast, no loopback and not point-to-point. -/
def usable (ifa : Ifaddrs) : Prop :=
  ifa.ifaFlags &&& IFF_UP ≠ 0 ∧ ifa.ifaFlags &&& IFF_MULTICAST ≠ 0 ∧
    ifa.ifaFlags &&& IFF_LOOPBACK = 0 ∧ ifa.ifaFlags &&& IFF_POINTOPOINT = 0

instance (ifa : Ifaddrs) : Decidable (usable ifa) := by
  unfold usable
  infer_instance

def eligibleIpv4 (ifa : Ifaddrs) : Option SockaddrIn :=
  match ifa.ifaAddr with
  | some (.inet sa _) => if usable ifa then some sa else none
  | _ => none

def eligibleIpv6 (ifa : Ifaddrs) : Option SockaddrIn6 :=
  match ifa.ifaAddr with
  | some (.inet6 sa6 _) =>
    if usable ifa ∧ !in6IsAddrLinklocal sa6.sin6Addr ∧ !in6IsAddrV4mapped sa6.sin6Addr then some sa6
    else none
  | _ => none

def firstIpv4 (ifaddr : List Ifaddrs) : Option SockaddrIn := ifaddr.findSome? eligibleIpv4
def firstIpv6 (ifaddr : List Ifaddrs) : Option SockaddrIn6 := ifaddr.findSome? eligibleIpv6

theorem firstIpv4_cons (ifa : Ifaddrs) (ifaddr : List Ifaddrs) :
    firstIpv4 (ifa :: ifaddr) = (eligibleIpv4 ifa).or (firstIpv4 ifaddr) := by
  rw [firstIpv4,List.findSome?_cons]
  cases eligibleIpv4 ifa <;> rfl

theorem firstIpv6_cons (ifa : Ifaddrs) (ifaddr : List Ifaddrs) :
    firstIpv6 (ifa :: ifaddr) = (eligibleIpv6 ifa).or (firstIpv6 ifaddr) := by
  rw [firstIpv6,List.findSome?_cons]
  cases eligibleIpv6 ifa <;> rfl

theorem eligibleIpv4_family {ifa : Ifaddrs} {sa : SockaddrIn} (h : eligibleIpv4 ifa = some sa) :
    sa.sinFamily = AF_INET := by
  unfold eligibleIpv4 at h
  split at h
  · rename_i hfamily _
    split at h
    · obtain rfl := Option.some.inj h
      exact hfamily
    · contradiction
  · contradiction

theorem eligibleIpv6_family {ifa : Ifaddrs} {sa6 : SockaddrIn6} (h : eligibleIpv6 ifa = some sa6) :
    sa6.sin6Family = AF_INET6 := by
  unfold eligibleIpv6 at h
  split at h
  · rename_i hfamily _
    split at h
    · obtain rfl := Option.some.inj h
      exact hfamily
    · contradiction
  · contradiction

theorem firstIpv4_family {ifaddr : List Ifaddrs} {sa : SockaddrIn}
    (h : firstIpv4 ifaddr = some sa) : sa.sinFamily = AF_INET := by
  obtain ⟨ifa,-,hifa⟩ := List.exists_of_findSome?_eq_some h
  exact eligibleIpv4_family hifa

theorem firstIpv6_family {ifaddr : List Ifaddrs} {sa6 : SockaddrIn6}
    (h : firstIpv6 ifaddr = some sa6) : sa6.sin6Family = AF_INET6 := by
  obtain ⟨ifa,-,hifa⟩ := List.exists_of_findSome?_eq_some h
  exact eligibleIpv6_family hifa

def foundMask (ipv4 : Option SockaddrIn) (ipv6 : Option SockaddrIn6) : UInt8 :=
  (if ipv4.isSome then bitIpv4Found else 0) ||| (if ipv6.isSome then bitIpv6Found else 0)

structure Chosen (ipv4 : Option SockaddrIn) (ipv6 : Option SockaddrIn6) (addrs : InterfaceAddrs)
    (found : UInt8) : Prop where
  found : found = foundMask ipv4 ipv6
  v4 : addrs.v4 = ipv4.getD InterfaceAddrs.zero.v4
  v6 : addrs.v6 = ipv6.getD InterfaceAddrs.zero.v6

theorem foundMask_ipv4 (ipv4 : Option SockaddrIn) (ipv6 : Option SockaddrIn6) :
    foundMask ipv4 ipv6 &&& bitIpv4Found = 0 ↔ ipv4 = none := by
  cases ipv4 <;> cases ipv6 <;> simp [foundMask] <;> decide

theorem foundMask_ipv6 (ipv4 : Option SockaddrIn) (ipv6 : Option SockaddrIn6) :
    foundMask ipv4 ipv6 &&& bitIpv6Found = 0 ↔ ipv6 = none := by
  cases ipv4 <;> cases ipv6 <;> simp [foundMask] <;> decide

theorem foundMask_both (ipv4 : Option SockaddrIn) (ipv6 : Option SockaddrIn6) :
    foundMask ipv4 ipv6 = 0b11 ↔ ipv4.isSome = true ∧ ipv6.isSome = true := by
  cases ipv4 <;> cases ipv6 <;> simp [foundMask] <;> decide

theorem foundMask_eq_zero (ipv4 : Option SockaddrIn) (ipv6 : Option SockaddrIn6) :
    foundMask ipv4 ipv6 = 0 ↔ ipv4 = none ∧ ipv6 = none := by
  cases ipv4 <;> cases ipv6 <;> simp [foundMask] <;> decide

theorem not_usable_iff (ifa : Ifaddrs) : ¬ usable ifa ↔
    ifa.ifaFlags &&& IFF_UP = 0 ∨ ifa.ifaFlags &&& IFF_MULTICAST = 0 ∨
      ifa.ifaFlags &&& IFF_LOOPBACK ≠ 0 ∨ ifa.ifaFlags &&& IFF_POINTOPOINT ≠ 0 := by
  unfold usable
  tauto

theorem getInterfacesLoop_full (ifaddr : List Ifaddrs) (addrs : InterfaceAddrs) :
    getInterfacesLoop ifaddr addrs 0b11 = (addrs,0b11) := by
  cases ifaddr <;> simp [getInterfacesLoop]

theorem Chosen.addIpv4 {ipv6 : Option SockaddrIn6} {addrs : InterfaceAddrs} {found : UInt8}
    (h : Chosen none ipv6 addrs found) (sa : SockaddrIn) :
    Chosen (some sa) ipv6 { addrs with v4 := sa } (found ||| bitIpv4Found) := by
  refine ⟨?_,rfl,h.v6⟩
  rw [h.found]
  cases ipv6 with
  | none => simp [foundMask]
  | some sa6 =>
    simp only [foundMask,Option.isSome_none,Option.isSome_some,↓reduceIte,Bool.false_eq_true]
    decide

theorem Chosen.addIpv6 {ipv4 : Option SockaddrIn} {addrs : InterfaceAddrs} {found : UInt8}
    (h : Chosen ipv4 none addrs found) (sa6 : SockaddrIn6) :
    Chosen ipv4 (some sa6) { addrs with v6 := sa6 } (found ||| bitIpv6Found) := by
  refine ⟨?_,h.v4,rfl⟩
  rw [h.found]
  cases ipv4 <;> simp [foundMask]

theorem getInterfacesLoop_cons (ifa : Ifaddrs) (ifaddr : List Ifaddrs) {addrs : InterfaceAddrs}
    {found : UInt8} {ipv4 : Option SockaddrIn} {ipv6 : Option SockaddrIn6}
    (h : Chosen ipv4 ipv6 addrs found) : ∃ addrs' found',
      Chosen (ipv4.or (eligibleIpv4 ifa)) (ipv6.or (eligibleIpv6 ifa)) addrs' found' ∧
        getInterfacesLoop (ifa :: ifaddr) addrs found = getInterfacesLoop ifaddr addrs' found' := by
  have hsame (h4 : ipv4.or (eligibleIpv4 ifa) = ipv4) (h6 : ipv6.or (eligibleIpv6 ifa) = ipv6) :
      Chosen (ipv4.or (eligibleIpv4 ifa)) (ipv6.or (eligibleIpv6 ifa)) addrs found := by
    rwa [h4,h6]
  by_cases hfull : found = 0b11
  · have hboth := hfull
    rw [h.found,foundMask_both] at hboth
    refine ⟨addrs,found,hsame (Option.or_of_isSome hboth.1) (Option.or_of_isSome hboth.2),?_⟩
    rw [hfull,getInterfacesLoop_full,getInterfacesLoop_full]
  · rw [getInterfacesLoop,if_neg hfull]
    cases haddr : ifa.ifaAddr with
    | none =>
      exact ⟨addrs,found,hsame (by simp [eligibleIpv4,haddr]) (by simp [eligibleIpv6,haddr]),rfl⟩
    | some addr =>
      simp only [← not_usable_iff]
      by_cases husable : usable ifa
      · rw [if_neg (not_not_intro husable)]
        cases addr with
        | inet sa hfamily =>
          have h4 : eligibleIpv4 ifa = some sa := by simp [eligibleIpv4,haddr,husable]
          have h6 : eligibleIpv6 ifa = none := by simp [eligibleIpv6,haddr]
          simp only [h.found,foundMask_ipv4]
          cases ipv4 with
          | none =>
            refine ⟨_,_,?_,by rw [if_pos rfl]⟩
            rw [h4,h6,Option.none_or,Option.or_none,← h.found]
            exact h.addIpv4 sa
          | some chosen => exact ⟨addrs,found,hsame rfl (by simp [h6]),by simp [h.found]⟩
        | inet6 sa6 hfamily =>
          have h4 : eligibleIpv4 ifa = none := by simp [eligibleIpv4,haddr]
          simp only [h.found,foundMask_ipv6]
          by_cases hscope : !in6IsAddrLinklocal sa6.sin6Addr ∧ !in6IsAddrV4mapped sa6.sin6Addr
          · have h6 : eligibleIpv6 ifa = some sa6 := by
              simp only [eligibleIpv6,haddr,husable,true_and]
              exact if_pos hscope
            cases ipv6 with
            | none =>
              refine ⟨_,_,?_,by rw [if_pos ⟨rfl,hscope⟩]⟩
              rw [h4,h6,Option.none_or,Option.or_none,← h.found]
              exact h.addIpv6 sa6
            | some chosen => exact ⟨addrs,found,hsame (by simp [h4]) rfl,by simp [h.found]⟩
          · have h6 : eligibleIpv6 ifa = none := by
              simp only [eligibleIpv6,haddr,husable,true_and]
              exact if_neg hscope
            refine ⟨addrs,found,hsame (by simp [h4]) (by simp [h6]),?_⟩
            rw [if_neg fun hc => hscope hc.2,h.found]
        | other =>
          exact ⟨addrs,found,hsame (by simp [eligibleIpv4,haddr]) (by simp [eligibleIpv6,haddr]),rfl⟩
      · rw [if_pos husable]
        refine ⟨addrs,found,hsame ?_ ?_,rfl⟩
        · cases addr <;> simp [eligibleIpv4,haddr,husable]
        · cases addr <;> simp [eligibleIpv6,haddr,husable]

/-- One pass chooses what two searches would. -/
theorem getInterfacesLoop_chosen (ifaddr : List Ifaddrs) {addrs : InterfaceAddrs} {found : UInt8}
    {ipv4 : Option SockaddrIn} {ipv6 : Option SockaddrIn6} (h : Chosen ipv4 ipv6 addrs found) :
    let result := getInterfacesLoop ifaddr addrs found
    Chosen (ipv4.or (firstIpv4 ifaddr)) (ipv6.or (firstIpv6 ifaddr)) result.1 result.2 := by
  induction ifaddr generalizing addrs found ipv4 ipv6 with
  | nil =>
    simp only [firstIpv4,firstIpv6,List.findSome?_nil,Option.or_none]
    exact h
  | cons ifa ifaddr ih =>
    obtain ⟨addrs',found',h',heq⟩ := getInterfacesLoop_cons ifa ifaddr h
    have hrest := ih h'
    rw [Option.or_assoc,Option.or_assoc,← firstIpv4_cons,← firstIpv6_cons] at hrest
    simp only [heq]
    exact hrest

theorem getInterfaces_chosen (ifaddr : List Ifaddrs) :
    let result := getInterfaces (some ifaddr) .zero
    Chosen (firstIpv4 ifaddr) (firstIpv6 ifaddr) result.1 result.2 := by
  have h : Chosen none none .zero 0 := ⟨rfl,rfl,rfl⟩
  exact getInterfacesLoop_chosen ifaddr h

end WlrRemote
