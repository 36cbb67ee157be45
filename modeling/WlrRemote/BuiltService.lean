import WlrRemote.MessageRoom
import WlrRemote.Interfaces

set_option autoImplicit false

namespace WlrRemote
open Octets

/-- A service with the names and the records of a hostname. -/
structure ServiceOf (hostname : HostName) (service : AdvertiseService) : Prop where
  serviceName : service.serviceName = SERVICE_NAME
  serviceInstance : service.serviceInstance = hostname.bytes ++ dot :: SERVICE_NAME
  qualifiedHostname : service.qualifiedHostname = hostname.bytes ++ qualifiedSuffix
  recordPtr : service.recordPtr = ⟨SERVICE_NAME,.ptr service.serviceInstance,mdnsClassIn,4500⟩
  recordSrv : service.recordSrv =
    ⟨service.serviceInstance,.srv 0 0 service.port service.qualifiedHostname,mdnsClassIn,120⟩
  recordA : service.recordA = ⟨service.qualifiedHostname,.a service.addrs.v4,mdnsClassIn,120⟩
  recordAaaa : service.recordAaaa =
    ⟨service.qualifiedHostname,.aaaa service.addrs.v6,mdnsClassIn,120⟩
  recordTxt : service.recordTxt = ⟨service.serviceInstance,.txt [] [],mdnsClassIn,120⟩
  address : service.addrs.v4.sinFamily = AF_INET ∨ service.addrs.v6.sin6Family = AF_INET6

def announced (service : AdvertiseService) : List MdnsRecord :=
  service.recordPtr :: buildAdditional service .ptr

theorem mem_announced {service : AdvertiseService} {r : MdnsRecord} :
    r ∈ announced service ↔ r = service.recordPtr ∨ r = service.recordSrv ∨
      (r = service.recordA ∧ service.addrs.v4.sinFamily = AF_INET) ∨
      (r = service.recordAaaa ∧ service.addrs.v6.sin6Family = AF_INET6) ∨
      r = service.recordTxt := by
  unfold announced buildAdditional
  by_cases h4 : service.addrs.v4.sinFamily = AF_INET <;>
    by_cases h6 : service.addrs.v6.sin6Family = AF_INET6 <;> simp [h4,h6]

theorem mem_buildAdditional {service : AdvertiseService} {type : MdnsRecordType} {r : MdnsRecord}
    (hr : r ∈ buildAdditional service type) : r = service.recordSrv ∨ r = service.recordA ∨
      r = service.recordAaaa ∨ r = service.recordTxt := by
  unfold buildAdditional at hr
  by_cases h4 : service.addrs.v4.sinFamily = AF_INET <;>
    by_cases h6 : service.addrs.v6.sin6Family = AF_INET6 <;> cases type <;>
      simp [h4,h6] at hr <;> tauto

theorem mdnsString_of_length {str : Bytes} {length : Nat} (h : str.length = length) :
    mdnsString str length = str := by
  simp [mdnsString,h]

theorem length_SERVICE_NAME : SERVICE_NAME.length = 23 := by decide

theorem length_DNS_SD_SERVICE_INSTANCE : DNS_SD_SERVICE_INSTANCE.length = 29 := by decide

theorem length_qualifiedSuffix : qualifiedSuffix.length = 7 := by decide

theorem advertiseBufferCapacity_reach : advertiseBufferCapacity ≤ 0x3FFF := by decide

theorem sendBufferCapacity_reach : sendBufferCapacity ≤ 0x3FFF := by decide

theorem createServiceStrings_eq (hostname : HostName) : createServiceStrings hostname =
    ⟨hostname.bytes,SERVICE_NAME,hostname.bytes ++ dot :: SERVICE_NAME,
      hostname.bytes ++ qualifiedSuffix⟩ := by
  have hle := hostname.length_le
  have hs := length_SERVICE_NAME
  have hq := length_qualifiedSuffix
  unfold hostNameMax at hle
  have hi : snprintf (hostNameMax + 1 + (SERVICE_NAME.length + 1))
      (hostname.bytes ++ dot :: SERVICE_NAME) = hostname.bytes ++ dot :: SERVICE_NAME := by
    rw [snprintf,List.take_of_length_le]
    simp only [List.length_append,List.length_cons,hostNameMax]
    omega
  have hh : snprintf (hostNameMax + (qualifiedSuffix.length + 1))
      (hostname.bytes ++ qualifiedSuffix) = hostname.bytes ++ qualifiedSuffix := by
    rw [snprintf,List.take_of_length_le]
    simp only [List.length_append,hostNameMax]
    omega
  simp only [createServiceStrings,hi,hh]
  rw [mdnsString_of_length rfl,mdnsString_of_length,mdnsString_of_length]
  · simp only [List.length_append]
    omega
  · simp only [List.length_append,List.length_cons]
    omega

def serviceAddrs (ipv4 : Option SockaddrIn) (ipv6 : Option SockaddrIn6) : InterfaceAddrs where
  v4 := (ipv4.map fun sa => { sa with sinPort := mdnsPort }).getD InterfaceAddrs.zero.v4
  v6 := (ipv6.map fun sa6 => { sa6 with sin6Port := mdnsPort }).getD InterfaceAddrs.zero.v6

theorem createMdnsSockets_addrs (env : AdvertiseEnv) (socks : Sockets) {addrs : InterfaceAddrs}
    {found : UInt8} {ipv4 : Option SockaddrIn} {ipv6 : Option SockaddrIn6}
    (h : Chosen ipv4 ipv6 addrs found) :
    (createMdnsSockets env socks addrs found).2.2 = serviceAddrs ipv4 ipv6 := by
  have h4 := foundMask_ipv4 ipv4 ipv6
  have h6 := foundMask_ipv6 ipv4 ipv6
  obtain ⟨rfl,hv4,hv6⟩ := h
  obtain ⟨v4,v6⟩ := addrs
  simp only at hv4 hv6
  subst hv4 hv6
  unfold createMdnsSockets serviceAddrs
  cases ipv4 <;> cases ipv6 <;> simp [h4,h6]

theorem createMdnsSockets_socks (env : AdvertiseEnv) (addrs : InterfaceAddrs) (found : UInt8)
    (h : (createMdnsSockets env ⟨-1,-1⟩ addrs found).1 = true) :
    (createMdnsSockets env ⟨-1,-1⟩ addrs found).2.1.v4 ≠ -1 ∨
      (createMdnsSockets env ⟨-1,-1⟩ addrs found).2.1.v6 ≠ -1 := by
  unfold createMdnsSockets at h ⊢
  by_cases h4 : found &&& bitIpv4Found = 0 <;> by_cases h6 : found &&& bitIpv6Found = 0 <;>
    simp [h4,h6] at h ⊢ <;> tauto

theorem serviceOf_createMdnsRecords (hostname : HostName) {addrs : InterfaceAddrs}
    (h : addrs.v4.sinFamily = AF_INET ∨ addrs.v6.sin6Family = AF_INET6) (socks : Sockets)
    (port : UInt16) :
    ServiceOf hostname (createMdnsRecords (createServiceStrings hostname) addrs socks port) := by
  rw [createServiceStrings_eq]
  exact ⟨rfl,rfl,rfl,rfl,rfl,rfl,rfl,rfl,h⟩

theorem advertiseCreateService_made {env : AdvertiseEnv} {port : UInt16}
    {service : AdvertiseService} (h : advertiseCreateService env port = some service) :
    ∃ ifaddr hostname socks, env.getifaddrs = some ifaddr ∧ env.gethostname = some hostname ∧
      ((firstIpv4 ifaddr).isSome = true ∨ (firstIpv6 ifaddr).isSome = true) ∧
      (socks.v4 ≠ -1 ∨ socks.v6 ≠ -1) ∧
      service = createMdnsRecords (createServiceStrings hostname)
        (serviceAddrs (firstIpv4 ifaddr) (firstIpv6 ifaddr)) socks port := by
  unfold advertiseCreateService at h
  split at h
  · contradiction
  · cases hifaddr : env.getifaddrs with
    | none => simp [hifaddr,getInterfaces] at h
    | some ifaddr =>
      rw [hifaddr] at h
      have hchosen := getInterfaces_chosen ifaddr
      generalize getInterfaces (some ifaddr) .zero = interfaces at h hchosen
      obtain ⟨addrs,found⟩ := interfaces
      simp only at h hchosen
      split at h
      · contradiction
      · rename_i hfound
        have haddrs := createMdnsSockets_addrs env ⟨-1,-1⟩ hchosen
        have hsocks := createMdnsSockets_socks env addrs found
        generalize createMdnsSockets env ⟨-1,-1⟩ addrs found = created at h haddrs hsocks
        obtain ⟨success,socks,addrs'⟩ := created
        simp only at h haddrs hsocks
        subst haddrs
        split at h
        · contradiction
        · rename_i hsuccess
          split at h
          · contradiction
          · rename_i hostname hhost
            refine ⟨ifaddr,hostname,socks,rfl,hhost,?_,hsocks (by simpa using hsuccess),
              (Option.some.inj h).symm⟩
            rw [hchosen.found,foundMask_eq_zero] at hfound
            cases h4 : firstIpv4 ifaddr <;> cases h6 : firstIpv6 ifaddr <;> simp [h4,h6] at hfound ⊢

theorem serviceAddrs_v4_family (ifaddr : List Ifaddrs) :
    (serviceAddrs (firstIpv4 ifaddr) (firstIpv6 ifaddr)).v4.sinFamily = AF_INET ↔
      (firstIpv4 ifaddr).isSome = true := by
  cases h4 : firstIpv4 ifaddr with
  | none => simp [serviceAddrs,InterfaceAddrs.zero,AF_INET]
  | some sa => simp [serviceAddrs,firstIpv4_family h4]

theorem serviceAddrs_v6_family (ifaddr : List Ifaddrs) :
    (serviceAddrs (firstIpv4 ifaddr) (firstIpv6 ifaddr)).v6.sin6Family = AF_INET6 ↔
      (firstIpv6 ifaddr).isSome = true := by
  cases h6 : firstIpv6 ifaddr with
  | none => simp [serviceAddrs,InterfaceAddrs.zero,AF_INET6]
  | some sa6 => simp [serviceAddrs,firstIpv6_family h6]

theorem advertiseCreateService_serviceOf {env : AdvertiseEnv} {port : UInt16}
    {service : AdvertiseService} (h : advertiseCreateService env port = some service) :
    ∃ hostname, env.gethostname = some hostname ∧ ServiceOf hostname service := by
  obtain ⟨ifaddr,hostname,socks,-,hhost,hfirst,-,rfl⟩ := advertiseCreateService_made h
  rw [← serviceAddrs_v4_family ifaddr,← serviceAddrs_v6_family ifaddr] at hfirst
  exact ⟨hostname,hhost,serviceOf_createMdnsRecords hostname hfirst socks port⟩

theorem port_of_created {env : AdvertiseEnv} {port : UInt16} {service : AdvertiseService}
    (h : advertiseCreateService env port = some service) : service.port = port := by
  obtain ⟨ifaddr,hostname,socks,-,-,-,-,rfl⟩ := advertiseCreateService_made h
  rfl

theorem strncmpEqual_iff {name target : Bytes} (h0 : (0 : UInt8) ∉ target)
    (hl : name.length = target.length) : strncmpEqual name target = true ↔ name = target := by
  induction name generalizing target with
  | nil => simpa [strncmpEqual,eq_comm] using hl
  | cons a name ih =>
    cases target with
    | nil => simp at hl
    | cons b target =>
      simp only [List.mem_cons,not_or] at h0
      have hrec := ih h0.2 (by simpa using hl)
      by_cases hab : a = b
      · subst hab
        simp [strncmpEqual,Ne.symm h0.1,hrec]
      · simp [strncmpEqual,hab]

theorem stringEquals_iff {name target : Bytes} (h0 : (0 : UInt8) ∉ target) :
    stringEquals name target = true ↔ name = target := by
  unfold stringEquals
  constructor
  · intro h
    rw [Bool.and_eq_true,beq_iff_eq] at h
    exact (strncmpEqual_iff h0 h.1).mp h.2
  · rintro rfl
    simp [(strncmpEqual_iff h0 rfl).mpr rfl]

theorem ServiceOf.noNul {hostname : HostName} {service : AdvertiseService}
    (h : ServiceOf hostname service) : (0 : UInt8) ∉ service.serviceName ∧
      (0 : UInt8) ∉ service.serviceInstance ∧ (0 : UInt8) ∉ service.qualifiedHostname := by
  have h0 := hostname.noNul
  rw [h.serviceName,h.serviceInstance,h.qualifiedHostname]
  have hs : (0 : UInt8) ∉ SERVICE_NAME := by decide
  have hq : (0 : UInt8) ∉ qualifiedSuffix := by decide
  have hd : (0 : UInt8) ≠ dot := by decide
  simp [h0,hs,hq,hd]

theorem ServiceOf.lengths {hostname : HostName} {service : AdvertiseService}
    (h : ServiceOf hostname service) : service.serviceName.length = 23 ∧
      service.serviceInstance.length ≤ 88 ∧ service.qualifiedHostname.length ≤ 71 := by
  have hle := hostname.length_le
  unfold hostNameMax at hle
  rw [h.serviceName,h.serviceInstance,h.qualifiedHostname]
  simp only [List.length_append,List.length_cons,length_SERVICE_NAME,length_qualifiedSuffix]
  exact ⟨trivial,by omega,by omega⟩

theorem ServiceOf.owner_names {hostname : HostName} {service : AdvertiseService}
    (h : ServiceOf hostname service) : service.recordPtr.name = service.serviceName ∧
      service.recordSrv.name = service.serviceInstance ∧
      service.recordA.name = service.qualifiedHostname ∧
      service.recordAaaa.name = service.qualifiedHostname ∧
      service.recordTxt.name = service.serviceInstance := by
  rw [h.recordPtr,h.recordSrv,h.recordA,h.recordAaaa,h.recordTxt,h.serviceName]
  simp

theorem ServiceOf.record_types {hostname : HostName} {service : AdvertiseService}
    (h : ServiceOf hostname service) : service.recordPtr.type = .ptr ∧
      service.recordSrv.type = .srv ∧ service.recordA.type = .a ∧
      service.recordAaaa.type = .aaaa ∧ service.recordTxt.type = .txt := by
  rw [h.recordPtr,h.recordSrv,h.recordA,h.recordAaaa,h.recordTxt]
  simp [MdnsRecord.type,MdnsRecordData.type]

theorem ServiceOf.rooms {hostname : HostName} {service : AdvertiseService}
    (h : ServiceOf hostname service) : recordRoom service.recordPtr ≤ 125 ∧
      recordRoom service.recordSrv ≤ 179 ∧ recordRoom service.recordA ≤ 87 ∧
      recordRoom service.recordAaaa ≤ 99 ∧ recordRoom service.recordTxt ≤ 102 := by
  obtain ⟨hs,hi,hq⟩ := h.lengths
  rw [h.recordPtr,h.recordSrv,h.recordA,h.recordAaaa,h.recordTxt]
  simp only [recordRoom,dataRoom,length_SERVICE_NAME,List.length_nil]
  omega

theorem ServiceOf.buildAdditional_room {hostname : HostName} {service : AdvertiseService}
    (h : ServiceOf hostname service) (type : MdnsRecordType) :
    recordsRoom (buildAdditional service type) ≤ 467 := by
  obtain ⟨-,hs,ha,h6,ht⟩ := h.rooms
  cases type <;> unfold buildAdditional recordsRoom <;> (repeat' split) <;> simp <;> omega

/-- The type asked for is this one, or any. -/
def Asks (rtype : UInt16) (type : MdnsRecordType) : Prop :=
  rtype = type.code ∨ rtype = MdnsRecordType.any.code

theorem ServiceOf.serviceAnswer_eq {hostname : HostName} {service : AdvertiseService}
    (h : ServiceOf hostname service) (name : Bytes) (rtype : UInt16) :
    serviceAnswer service name rtype =
      let isType := fun type : MdnsRecordType =>
        rtype = type.code ∨ rtype = MdnsRecordType.any.code
      if name = DNS_SD_SERVICE_INSTANCE then
        if isType .ptr then some (⟨name,.ptr service.serviceName,0,0⟩,[]) else none
      else if name = service.serviceName then
        if isType .ptr then some (service.recordPtr,buildAdditional service .ptr) else none
      else if name = service.serviceInstance then
        if isType .srv then some (service.recordSrv,buildAdditional service .srv) else none
      else if name = service.qualifiedHostname then
        if isType .a ∧ service.addrs.v4.sinFamily = AF_INET then
          some (service.recordA,buildAdditional service .a)
        else if isType .aaaa ∧ service.addrs.v6.sin6Family = AF_INET6 then
          some (service.recordAaaa,buildAdditional service .aaaa)
        else none
      else none := by
  obtain ⟨hs,hi,hq⟩ := h.noNul
  have hd : (0 : UInt8) ∉ DNS_SD_SERVICE_INSTANCE := by decide
  simp only [serviceAnswer,stringEquals_iff hs,stringEquals_iff hi,stringEquals_iff hq,
    stringEquals_iff hd]

/-- The answers a service decides on: one for each name it goes by. -/
theorem ServiceOf.serviceAnswer_cases {hostname : HostName} {service : AdvertiseService}
    (h : ServiceOf hostname service) {name : Bytes} {rtype : UInt16} {answer : MdnsRecord}
    {additional : List MdnsRecord} (ha : serviceAnswer service name rtype = some (answer,additional)) :
    (name = DNS_SD_SERVICE_INSTANCE ∧ Asks rtype .ptr ∧
        answer = ⟨name,.ptr service.serviceName,0,0⟩ ∧ additional = []) ∨
      (name = service.serviceName ∧ Asks rtype .ptr ∧ answer = service.recordPtr ∧
        additional = buildAdditional service .ptr) ∨
      (name = service.serviceInstance ∧ Asks rtype .srv ∧ answer = service.recordSrv ∧
        additional = buildAdditional service .srv) ∨
      (name = service.qualifiedHostname ∧ Asks rtype .a ∧
        service.addrs.v4.sinFamily = AF_INET ∧ answer = service.recordA ∧
        additional = buildAdditional service .a) ∨
      (name = service.qualifiedHostname ∧ Asks rtype .aaaa ∧
        service.addrs.v6.sin6Family = AF_INET6 ∧ answer = service.recordAaaa ∧
        additional = buildAdditional service .aaaa) := by
  simp only [h.serviceAnswer_eq] at ha
  split at ha
  · rename_i hname
    split at ha <;> cases ha
    exact Or.inl ⟨hname,by assumption,rfl,rfl⟩
  · split at ha
    · rename_i hname
      split at ha <;> cases ha
      exact Or.inr (Or.inl ⟨hname,by assumption,rfl,rfl⟩)
    · split at ha
      · rename_i hname
        split at ha <;> cases ha
        exact Or.inr (Or.inr (Or.inl ⟨hname,by assumption,rfl,rfl⟩))
      · split at ha
        · rename_i hname
          split at ha
          · rename_i h4
            cases ha
            exact Or.inr (Or.inr (Or.inr (Or.inl ⟨hname,h4.1,h4.2,rfl,rfl⟩)))
          · split at ha <;> cases ha
            rename_i h6
            exact Or.inr (Or.inr (Or.inr (Or.inr ⟨hname,h6.1,h6.2,rfl,rfl⟩)))
        · contradiction

theorem ServiceOf.answer_additional {hostname : HostName} {service : AdvertiseService}
    (h : ServiceOf hostname service) {name : Bytes} {rtype : UInt16} {answer : MdnsRecord}
    {additional : List MdnsRecord} (ha : serviceAnswer service name rtype = some (answer,additional)) :
    ∃ type, additional = buildAdditional service type := by
  rcases h.serviceAnswer_cases ha with ⟨-,-,-,rfl⟩ | ⟨-,-,-,rfl⟩ | ⟨-,-,-,rfl⟩ | ⟨-,-,-,-,rfl⟩ |
    ⟨-,-,-,-,rfl⟩
  · exact ⟨.any,rfl⟩
  · exact ⟨.ptr,rfl⟩
  · exact ⟨.srv,rfl⟩
  · exact ⟨.a,rfl⟩
  · exact ⟨.aaaa,rfl⟩

/-- Whatever the service decides to answer fits into the buffer for answers. -/
theorem ServiceOf.serviceAnswer_fits {hostname : HostName} {service : AdvertiseService}
    (h : ServiceOf hostname service) {name : Bytes} {rtype : UInt16} {answer : MdnsRecord}
    {additional : List MdnsRecord} (ha : serviceAnswer service name rtype = some (answer,additional)) :
    answer.type ≠ .txt ∧
      48 + (name.length + 6) + recordRoom answer + recordsRoom additional ≤ sendBufferCapacity := by
  obtain ⟨hs,hi,hq⟩ := h.lengths
  obtain ⟨hptr,hsrv,ha4,ha6,-⟩ := h.rooms
  obtain ⟨tp,ts,t4,t6,-⟩ := h.record_types
  have hroom := h.buildAdditional_room
  unfold sendBufferCapacity
  rcases h.serviceAnswer_cases ha with ⟨rfl,-,rfl,rfl⟩ | ⟨rfl,-,rfl,rfl⟩ | ⟨rfl,-,rfl,rfl⟩ |
    ⟨rfl,-,-,rfl,rfl⟩ | ⟨rfl,-,-,rfl,rfl⟩
  · simp [MdnsRecord.type,MdnsRecordData.type,recordRoom,dataRoom,recordsRoom,length_DNS_SD_SERVICE_INSTANCE,
      hs]
  · have hr := hroom .ptr
    exact ⟨by simp [tp],by omega⟩
  · have hr := hroom .srv
    exact ⟨by simp [ts],by omega⟩
  · have hr := hroom .a
    exact ⟨by simp [t4],by omega⟩
  · have hr := hroom .aaaa
    exact ⟨by simp [t6],by omega⟩

def questionName (data : Mem) (e : MdnsEntry) : Bytes :=
  ((mdnsStringExtract data e.size e.nameOffset 256).map Prod.fst).getD []

def answerMessage (name : Bytes) (e : MdnsEntry) (sendBuffer : Mem) (answer : MdnsRecord)
    (additional : List MdnsRecord) : MdnsWriter × Option Sockaddr :=
  if e.rclass &&& mdnsUnicastResponse ≠ 0 then
    (mdnsQueryAnswerUnicast sendBuffer sendBufferCapacity e.queryId e.rtype name answer []
      additional,some e.src)
  else (mdnsQueryAnswerMulticast sendBuffer sendBufferCapacity answer [] additional,none)

theorem serviceCallback_of_record {service : AdvertiseService} {data : Mem} {e : MdnsEntry}
    (state : ResponderState) (h : e.entry ≠ .question) :
    serviceCallback service data e state = (0,state) := by
  simp [serviceCallback,h]

theorem serviceCallback_of_none {service : AdvertiseService} {data : Mem} {e : MdnsEntry}
    (state : ResponderState) (h : serviceAnswer service (questionName data e) e.rtype = none) :
    serviceCallback service data e state = (0,state) := by
  unfold questionName at h
  simp [serviceCallback,h]

theorem serviceCallback_of_some {service : AdvertiseService} {data : Mem} {e : MdnsEntry}
    {answer : MdnsRecord} {additional : List MdnsRecord} (state : ResponderState)
    (he : e.entry = .question)
    (h : serviceAnswer service (questionName data e) e.rtype = some (answer,additional)) :
    serviceCallback service data e state =
      let message := answerMessage (questionName data e) e state.sendBuffer answer additional
      (0,{ state with sendBuffer := message.1.buffer
                      sent := state.sent ++ message.1.sent e.sock message.2 }) := by
  unfold answerMessage
  unfold questionName at h ⊢
  simp only [serviceCallback,he,ne_eq,not_true_eq_false,↓reduceIte,h]
  split <;> rfl

def answerHeader (e : MdnsEntry) (additional : List MdnsRecord) : MdnsHeader :=
  if e.rclass &&& mdnsUnicastResponse ≠ 0 then
    ⟨e.queryId,0x8400,1,1,0,mdnsAnswerGetRecordCount additional⟩
  else ⟨0,0x8400,0,1,0,mdnsAnswerGetRecordCount additional⟩

theorem ServiceOf.answerMessage_sent {hostname : HostName} {service : AdvertiseService}
    (h : ServiceOf hostname service) {name : Bytes} {e : MdnsEntry} {answer : MdnsRecord}
    {additional : List MdnsRecord}
    (ha : serviceAnswer service name e.rtype = some (answer,additional)) (sendBuffer : Mem) :
    let message := answerMessage name e sendBuffer answer additional
    ∃ bytes, message.1.sent e.sock message.2 = [⟨e.sock,message.2,bytes⟩] ∧ 12 ≤ bytes.length ∧
      bytes.length ≤ sendBufferCapacity ∧ bytes.take 12 = (answerHeader e additional).bytes := by
  obtain ⟨htxt,hroom⟩ := h.serviceAnswer_fits ha
  have hcap := sendBufferCapacity_reach
  have hroom' : 48 + recordRoom answer + recordsRoom additional ≤ sendBufferCapacity := by omega
  unfold answerMessage answerHeader
  split
  · obtain ⟨bytes,hsent,hmin,hmax,hhead⟩ :=
      (mdnsQueryAnswerUnicast_extends e.queryId e.rtype name hcap htxt hroom).sent e.sock
        (some e.src)
    exact ⟨bytes,hsent,hmin,by omega,hhead⟩
  · obtain ⟨bytes,hsent,hmin,hmax,hhead⟩ :=
      (mdnsAnswerMulticastRclassTtl_extends mdnsClassIn 60 hcap htxt hroom').sent e.sock none
    exact ⟨bytes,hsent,hmin,by omega,hhead⟩

def oneInterface (hostname : HostName) : AdvertiseEnv where
  getifaddrs := some [⟨IFF_UP ||| IFF_MULTICAST,some (.inet ⟨AF_INET,0,#v[10,0,0,2]⟩ rfl)⟩]
  mdnsSocketOpenIpv4 := fun _ => 3
  mdnsSocketOpenIpv6 := fun _ => -1
  gethostname := some hostname
  malloc := true

def oneInterfaceService (hostname : HostName) (port : UInt16) : AdvertiseService :=
  createMdnsRecords (createServiceStrings hostname)
    ⟨⟨AF_INET,mdnsPort,#v[10,0,0,2]⟩,InterfaceAddrs.zero.v6⟩ ⟨3,-1⟩ port

theorem advertiseCreateService_oneInterface (hostname : HostName) (port : UInt16) :
    advertiseCreateService (oneInterface hostname) port =
      some (oneInterfaceService hostname port) := rfl

def hostA : HostName := ⟨ascii "a",by decide,by decide⟩

end WlrRemote
