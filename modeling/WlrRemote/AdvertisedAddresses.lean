import WlrRemote.Ownership

set_option autoImplicit false

namespace WlrRemote
open Octets

/-- The additional records of the announcement and the goodbye, and those of an answer
to a question for the service or for its instance. -/
inductive Handed (service : AdvertiseService) : List MdnsRecord → Prop where
  | announce : Handed service (buildAdditional service .ptr)
  | answer (name : Bytes) (rtype : UInt16) (answer : MdnsRecord) (additional : List MdnsRecord)
      (hname : name = service.serviceName ∨ name = service.serviceInstance)
      (h : serviceAnswer service name rtype = some (answer,additional)) :
      Handed service additional

/-- These lists are what the encoder gets: on no other does an announcement or a goodbye depend, and
of no other is an answer to such a question composed. -/
structure HandsOver (service : AdvertiseService) : Prop where
  announce : ∀ (encode encode' : Mem → Nat → MdnsRecord → List MdnsRecord → List MdnsRecord →
    MdnsWriter) (sock : Int) (state : ResponderState),
      (∀ buffer capacity answer authority additional, Handed service additional →
        encode buffer capacity answer authority additional =
          encode' buffer capacity answer authority additional) →
        advertiseAnnounceOn service encode sock state = advertiseAnnounceOn service encode' sock state
  answer : ∀ (data : Mem) (e : MdnsEntry) (state : ResponderState), e.entry = .question →
    questionName data e = service.serviceName ∨ questionName data e = service.serviceInstance →
      serviceCallback service data e state = (0,state) ∨
        ∃ answer additional, Handed service additional ∧
          let message := answerMessage (questionName data e) e state.sendBuffer answer additional
          serviceCallback service data e state = (0,{ state with
            sendBuffer := message.1.buffer, sent := state.sent ++ message.1.sent e.sock message.2 })

def addressA (r : MdnsRecord) : Option (Vector UInt8 4) :=
  match r.data with
  | .a addr => some addr.sinAddr
  | _ => none

def addressAaaa (r : MdnsRecord) : Option (Vector UInt8 16) :=
  match r.data with
  | .aaaa addr => some addr.sin6Addr
  | _ => none

/-- One A record with the address of the first eligible IPv4 entry if there is such an
entry, and none otherwise; the same for IPv6. -/
structure RightAddresses (ifaddr : List Ifaddrs) (additional : List MdnsRecord) : Prop where
  a : additional.filterMap addressA = (firstIpv4 ifaddr).toList.map SockaddrIn.sinAddr
  aaaa : additional.filterMap addressAaaa = (firstIpv6 ifaddr).toList.map SockaddrIn6.sin6Addr

theorem ServiceOf.additional_addresses {hostname : HostName} {service : AdvertiseService}
    (h : ServiceOf hostname service) {type : MdnsRecordType} (ht : type = .ptr ∨ type = .srv) :
    (buildAdditional service type).filterMap addressA =
        (if service.addrs.v4.sinFamily = AF_INET then [service.addrs.v4.sinAddr] else []) ∧
      (buildAdditional service type).filterMap addressAaaa =
        (if service.addrs.v6.sin6Family = AF_INET6 then [service.addrs.v6.sin6Addr] else []) := by
  have hsrv : addressA service.recordSrv = none ∧ addressAaaa service.recordSrv = none := by
    simp [h.recordSrv,addressA,addressAaaa]
  have ha : addressA service.recordA = some service.addrs.v4.sinAddr ∧
      addressAaaa service.recordA = none := by
    simp [h.recordA,addressA,addressAaaa]
  have haaaa : addressA service.recordAaaa = none ∧
      addressAaaa service.recordAaaa = some service.addrs.v6.sin6Addr := by
    simp [h.recordAaaa,addressA,addressAaaa]
  have htxt : addressA service.recordTxt = none ∧ addressAaaa service.recordTxt = none := by
    simp [h.recordTxt,addressA,addressAaaa]
  by_cases h4 : service.addrs.v4.sinFamily = AF_INET <;>
    by_cases h6 : service.addrs.v6.sin6Family = AF_INET6 <;> rcases ht with rfl | rfl <;>
    simp [buildAdditional,h4,h6,hsrv,ha,haaaa,htxt]

theorem ServiceOf.handed_cases {hostname : HostName} {service : AdvertiseService}
    (h : ServiceOf hostname service) {additional : List MdnsRecord}
    (ha : Handed service additional) : ∃ type, (type = MdnsRecordType.ptr ∨ type = .srv) ∧
      additional = buildAdditional service type := by
  cases ha with
  | announce => exact ⟨.ptr,Or.inl rfl,rfl⟩
  | answer name rtype answer additional hname ha =>
    have hs : service.serviceName ≠ DNS_SD_SERVICE_INSTANCE := by
      rw [h.serviceName]
      exact serviceName_ne_dnsSd
    rcases hname with rfl | rfl
    · simp only [h.serviceAnswer_eq,hs,↓reduceIte] at ha
      split at ha <;> cases ha
      exact ⟨.ptr,Or.inl rfl,rfl⟩
    · rw [h.serviceAnswer_instance] at ha
      split at ha <;> cases ha
      exact ⟨.srv,Or.inr rfl,rfl⟩

theorem handsOver (service : AdvertiseService) : HandsOver service where
  announce := by
    intro encode encode' sock state hencode
    unfold advertiseAnnounceOn
    rw [hencode _ _ _ _ _ .announce]
  answer := by
    intro data e state he hname
    cases ha : serviceAnswer service (questionName data e) e.rtype with
    | none => exact Or.inl (serviceCallback_of_none state ha)
    | some records =>
      obtain ⟨answer,additional⟩ := records
      exact Or.inr ⟨answer,additional,.answer _ _ answer additional hname ha,
        serviceCallback_of_some state he ha⟩

/-- Whatever the order of the interfaces and whichever socket opened, the address records
handed to the encoder are those of the first eligible entries. -/
theorem advertised_addresses {env : AdvertiseEnv} {port : UInt16} {service : AdvertiseService}
    (h : advertiseCreateService env port = some service) {ifaddr : List Ifaddrs}
    (hifaddr : env.getifaddrs = some ifaddr) : HandsOver service ∧
      ∀ additional, Handed service additional → RightAddresses ifaddr additional := by
  refine ⟨handsOver service,fun additional ha => ?_⟩
  obtain ⟨hostname,-,hof⟩ := advertiseCreateService_serviceOf h
  obtain ⟨type,ht,rfl⟩ := hof.handed_cases ha
  obtain ⟨haddress,haddress6⟩ := hof.additional_addresses ht
  obtain ⟨ifaddr',hostname',socks,hifaddr',-,-,-,hmade⟩ := advertiseCreateService_made h
  obtain rfl := Option.some.inj (hifaddr.symm.trans hifaddr')
  have haddrs : service.addrs = serviceAddrs (firstIpv4 ifaddr) (firstIpv6 ifaddr) := by
    rw [hmade]
    rfl
  constructor
  · rw [haddress,haddrs]
    simp only [serviceAddrs_v4_family]
    cases firstIpv4 ifaddr <;> simp [serviceAddrs]
  · rw [haddress6,haddrs]
    simp only [serviceAddrs_v6_family]
    cases firstIpv6 ifaddr <;> simp [serviceAddrs]

def mixedInterfaces : List Ifaddrs :=
  let up := IFF_UP ||| IFF_MULTICAST
  [⟨up ||| IFF_LOOPBACK,some (.inet ⟨AF_INET,0,#v[127,0,0,1]⟩ rfl)⟩,
    ⟨up,none⟩,
    ⟨up,some (.inet6 ⟨AF_INET6,0,0,#v[0xfe,0x80,0,0,0,0,0,0,0,0,0,0,0,0,0,1],0⟩ rfl)⟩,
    ⟨up,some (.inet ⟨AF_INET,0,#v[10,0,0,4]⟩ rfl)⟩,
    ⟨up,some (.inet ⟨AF_INET,0,#v[10,0,0,3]⟩ rfl)⟩,
    ⟨up,some (.inet6 ⟨AF_INET6,0,0,#v[0x20,1,0,0,0,0,0,0,0,0,0,0,0,0,0,1],0⟩ rfl)⟩]

def mixedEnv : AdvertiseEnv := { oneInterface hostA with getifaddrs := some mixedInterfaces }

theorem advertised_addresses_mixed : ∃ service,
    advertiseCreateService mixedEnv 7777 = some service ∧
      RightAddresses mixedInterfaces (buildAdditional service .ptr) ∧
      firstIpv4 mixedInterfaces = some ⟨AF_INET,0,#v[10,0,0,4]⟩ ∧
      (firstIpv6 mixedInterfaces).isSome = true := by
  have h : ∃ service, advertiseCreateService mixedEnv 7777 = some service :=
    Option.isSome_iff_exists.mp (by decide +kernel)
  obtain ⟨service,h⟩ := h
  exact ⟨service,h,(advertised_addresses h rfl).2 _ .announce,by decide +kernel,by decide +kernel⟩

end WlrRemote
