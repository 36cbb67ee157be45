import WlrRemote.BuiltService

set_option autoImplicit false

namespace WlrRemote
open Octets

theorem serviceName_ne_dnsSd : SERVICE_NAME ≠ DNS_SD_SERVICE_INSTANCE := by decide

theorem ServiceOf.instance_ne_serviceName {hostname : HostName} {service : AdvertiseService}
    (h : ServiceOf hostname service) : service.serviceInstance ≠ service.serviceName := by
  intro heq
  have hlen := congrArg List.length heq
  rw [h.serviceInstance,h.serviceName] at hlen
  simp only [List.length_append,List.length_cons] at hlen
  omega

theorem ServiceOf.instance_ne_qualified {hostname : HostName} {service : AdvertiseService}
    (h : ServiceOf hostname service) : service.serviceInstance ≠ service.qualifiedHostname := by
  intro heq
  have hlen := congrArg List.length heq
  rw [h.serviceInstance,h.qualifiedHostname] at hlen
  simp only [List.length_append,List.length_cons,length_SERVICE_NAME,length_qualifiedSuffix] at hlen
  omega

theorem ServiceOf.instance_ne_dnsSd {hostname : HostName} {service : AdvertiseService}
    (h : ServiceOf hostname service) : service.serviceInstance ≠ DNS_SD_SERVICE_INSTANCE := by
  intro heq
  rw [h.serviceInstance] at heq
  have hlen := congrArg List.length heq
  simp only [List.length_append,List.length_cons,length_SERVICE_NAME,
    length_DNS_SD_SERVICE_INSTANCE] at hlen
  have hhost : hostname.bytes.length = 5 := by omega
  -- the dot after the hostname would fall inside a label
  have hdrop := congrArg (List.drop 5) heq
  rw [← hhost,List.drop_left,hhost] at hdrop
  revert hdrop
  decide

structure Answered (service : AdvertiseService) (data : Mem) (e : MdnsEntry)
    (state : ResponderState) (answer : MdnsRecord) (additional : List MdnsRecord) : Prop where
  picked : serviceAnswer service (questionName data e) e.rtype = some (answer,additional)
  sent : ∃ sent : Sent, (serviceCallback service data e state).2.sent = state.sent ++ [sent] ∧
    let message := answerMessage (questionName data e) e state.sendBuffer answer additional
    message.1.sent e.sock message.2 = [sent]

/-- A question is answered for exactly the announced records it asks for. -/
structure AnswersOwned (service : AdvertiseService) (data : Mem) (e : MdnsEntry)
    (state : ResponderState) : Prop where
  record : ∀ r ∈ announced service, questionName data e = r.name → e.rtype = r.type.code →
    ∃ additional, Answered service data e state r additional
  any : e.rtype = MdnsRecordType.any.code → ∀ r ∈ announced service,
    questionName data e = r.name →
      ∃ answer additional, Answered service data e state answer additional ∧
        r ∈ answer :: additional
  only : (serviceCallback service data e state).2.sent ≠ state.sent →
    ∃ answer additional, Answered service data e state answer additional ∧
      answer.name.map asciiLower = (questionName data e).map asciiLower ∧
      Asks e.rtype answer.type

/-- TXT has no branch, and a hostname that makes the qualified hostname one of the
names tested before it hides the address records. -/
def Overlooked (service : AdvertiseService) (name : Bytes) (rtype : UInt16) : Prop :=
  (name = service.serviceInstance ∧ rtype = MdnsRecordType.txt.code) ∨
    (name = service.qualifiedHostname ∧
      (name = service.serviceName ∨ name = DNS_SD_SERVICE_INSTANCE) ∧
      ((rtype = MdnsRecordType.a.code ∧ service.addrs.v4.sinFamily = AF_INET) ∨
        (rtype = MdnsRecordType.aaaa.code ∧ service.addrs.v6.sin6Family = AF_INET6))) ∨
    (name = service.qualifiedHostname ∧ name = DNS_SD_SERVICE_INSTANCE ∧
      rtype = MdnsRecordType.any.code)

theorem ServiceOf.answered {hostname : HostName} {service : AdvertiseService}
    (h : ServiceOf hostname service) {data : Mem} {e : MdnsEntry} (state : ResponderState)
    {answer : MdnsRecord} {additional : List MdnsRecord} (he : e.entry = .question)
    (ha : serviceAnswer service (questionName data e) e.rtype = some (answer,additional)) :
    Answered service data e state answer additional := by
  obtain ⟨bytes,hsent,-⟩ := h.answerMessage_sent ha state.sendBuffer
  refine ⟨ha,_,?_,hsent⟩
  rw [serviceCallback_of_some state he ha,← hsent]

theorem ServiceOf.answers_only {hostname : HostName} {service : AdvertiseService}
    (h : ServiceOf hostname service) {data : Mem} {e : MdnsEntry} (state : ResponderState)
    (he : e.entry = .question) (hs : (serviceCallback service data e state).2.sent ≠ state.sent) :
    ∃ answer additional, Answered service data e state answer additional ∧
      answer.name.map asciiLower = (questionName data e).map asciiLower ∧
      Asks e.rtype answer.type := by
  cases ha : serviceAnswer service (questionName data e) e.rtype with
  | none =>
    rw [serviceCallback_of_none state ha] at hs
    contradiction
  | some records =>
    obtain ⟨answer,additional⟩ := records
    refine ⟨answer,additional,h.answered state he ha,?_⟩
    obtain ⟨hp,hs,ha4,ha6,-⟩ := h.owner_names
    obtain ⟨tp,ts,ta4,ta6,-⟩ := h.record_types
    rcases h.serviceAnswer_cases ha with ⟨hn,ht,rfl,-⟩ | ⟨hn,ht,rfl,-⟩ | ⟨hn,ht,rfl,-⟩ |
      ⟨hn,ht,-,rfl,-⟩ | ⟨hn,ht,-,rfl,-⟩
    · exact ⟨rfl,ht⟩
    · exact ⟨by rw [hn,hp],by rwa [tp]⟩
    · exact ⟨by rw [hn,hs],by rwa [ts]⟩
    · exact ⟨by rw [hn,ha4],by rwa [ta4]⟩
    · exact ⟨by rw [hn,ha6],by rwa [ta6]⟩

theorem ServiceOf.serviceAnswer_serviceName {hostname : HostName} {service : AdvertiseService}
    (h : ServiceOf hostname service) {rtype : UInt16} (ht : Asks rtype .ptr) :
    serviceAnswer service service.serviceName rtype =
      some (service.recordPtr,buildAdditional service .ptr) := by
  have hd : service.serviceName ≠ DNS_SD_SERVICE_INSTANCE := by
    rw [h.serviceName]
    exact serviceName_ne_dnsSd
  unfold Asks at ht
  simp [h.serviceAnswer_eq,hd,ht]

theorem ServiceOf.serviceAnswer_instance {hostname : HostName} {service : AdvertiseService}
    (h : ServiceOf hostname service) (rtype : UInt16) :
    serviceAnswer service service.serviceInstance rtype =
      if rtype = MdnsRecordType.srv.code ∨ rtype = MdnsRecordType.any.code then
        some (service.recordSrv,buildAdditional service .srv)
      else none := by
  simp [h.serviceAnswer_eq,h.instance_ne_dnsSd,h.instance_ne_serviceName]

theorem ServiceOf.serviceAnswer_qualified {hostname : HostName} {service : AdvertiseService}
    (h : ServiceOf hostname service) (hd : service.qualifiedHostname ≠ DNS_SD_SERVICE_INSTANCE)
    (hs : service.qualifiedHostname ≠ service.serviceName) (rtype : UInt16) :
    serviceAnswer service service.qualifiedHostname rtype =
      if (rtype = MdnsRecordType.a.code ∨ rtype = MdnsRecordType.any.code) ∧
          service.addrs.v4.sinFamily = AF_INET then
        some (service.recordA,buildAdditional service .a)
      else if (rtype = MdnsRecordType.aaaa.code ∨ rtype = MdnsRecordType.any.code) ∧
          service.addrs.v6.sin6Family = AF_INET6 then
        some (service.recordAaaa,buildAdditional service .aaaa)
      else none := by
  simp [h.serviceAnswer_eq,hd,hs,h.instance_ne_qualified.symm]

theorem ServiceOf.serviceAnswer_ptr_only {hostname : HostName} {service : AdvertiseService}
    (h : ServiceOf hostname service) {name : Bytes} {rtype : UInt16}
    (hn : name = service.serviceName ∨ name = DNS_SD_SERVICE_INSTANCE) (ht : ¬ Asks rtype .ptr) :
    serviceAnswer service name rtype = none := by
  unfold Asks at ht
  rw [h.serviceAnswer_eq]
  rcases hn with rfl | rfl <;> simp [ht]

theorem ServiceOf.serviceAnswer_dnsSd_any {hostname : HostName} {service : AdvertiseService}
    (h : ServiceOf hostname service) :
    serviceAnswer service DNS_SD_SERVICE_INSTANCE MdnsRecordType.any.code =
      some (⟨DNS_SD_SERVICE_INSTANCE,.ptr service.serviceName,0,0⟩,[]) := by
  simp [h.serviceAnswer_eq]

theorem qualified_ne_of_not_overlooked {service : AdvertiseService} {rtype : UInt16}
    (ho : ¬ Overlooked service service.qualifiedHostname rtype)
    (ht : (rtype = MdnsRecordType.a.code ∧ service.addrs.v4.sinFamily = AF_INET) ∨
      (rtype = MdnsRecordType.aaaa.code ∧ service.addrs.v6.sin6Family = AF_INET6)) :
    service.qualifiedHostname ≠ service.serviceName ∧
      service.qualifiedHostname ≠ DNS_SD_SERVICE_INSTANCE := by
  unfold Overlooked at ho
  constructor
  · intro hs
    exact ho (Or.inr (Or.inl ⟨rfl,Or.inl hs,ht⟩))
  · intro hd
    exact ho (Or.inr (Or.inl ⟨rfl,Or.inr hd,ht⟩))

theorem ServiceOf.answers_record {hostname : HostName} {service : AdvertiseService}
    (h : ServiceOf hostname service) {name : Bytes} {rtype : UInt16}
    (ho : ¬ Overlooked service name rtype) {r : MdnsRecord} (hr : r ∈ announced service)
    (hname : name = r.name) (htype : rtype = r.type.code) :
    ∃ additional, serviceAnswer service name rtype = some (r,additional) := by
  obtain ⟨np,ns,na,n6,nt⟩ := h.owner_names
  obtain ⟨tp,ts,ta,t6,tt⟩ := h.record_types
  rcases mem_announced.mp hr with rfl | rfl | ⟨rfl,h4⟩ | ⟨rfl,h6⟩ | rfl
  · rw [np] at hname
    rw [tp] at htype
    subst hname
    exact ⟨_,h.serviceAnswer_serviceName (Or.inl htype)⟩
  · rw [ns] at hname
    rw [ts] at htype
    subst hname htype
    exact ⟨_,by rw [h.serviceAnswer_instance,if_pos (Or.inl rfl)]⟩
  · rw [na] at hname
    rw [ta] at htype
    subst hname htype
    obtain ⟨hs,hd⟩ := qualified_ne_of_not_overlooked ho (Or.inl ⟨rfl,h4⟩)
    exact ⟨_,by rw [h.serviceAnswer_qualified hd hs,if_pos ⟨Or.inl rfl,h4⟩]⟩
  · rw [n6] at hname
    rw [t6] at htype
    subst hname htype
    obtain ⟨hs,hd⟩ := qualified_ne_of_not_overlooked ho (Or.inr ⟨rfl,h6⟩)
    refine ⟨buildAdditional service .aaaa,?_⟩
    rw [h.serviceAnswer_qualified hd hs]
    simp [MdnsRecordType.code,h6]
  · rw [nt] at hname
    rw [tt] at htype
    exact absurd (Or.inl ⟨hname,htype⟩) ho

theorem ServiceOf.answers_any {hostname : HostName} {service : AdvertiseService}
    (h : ServiceOf hostname service) {name : Bytes}
    (ho : ¬ Overlooked service name MdnsRecordType.any.code) {r : MdnsRecord}
    (hr : r ∈ announced service) (hname : name = r.name) :
    ∃ answer additional, serviceAnswer service name MdnsRecordType.any.code =
      some (answer,additional) ∧ r ∈ answer :: additional := by
  obtain ⟨np,ns,na,n6,nt⟩ := h.owner_names
  -- all of the announcement goes with the service name
  have hservice (hn : name = service.serviceName) : ∃ answer additional,
      serviceAnswer service name MdnsRecordType.any.code = some (answer,additional) ∧
        r ∈ answer :: additional := by
    subst hn
    exact ⟨_,_,h.serviceAnswer_serviceName (Or.inr rfl),hr⟩
  have hinstance (hn : name = service.serviceInstance)
      (hr : r = service.recordSrv ∨ r = service.recordTxt) : ∃ answer additional,
      serviceAnswer service name MdnsRecordType.any.code = some (answer,additional) ∧
        r ∈ answer :: additional := by
    subst hn
    refine ⟨_,_,by rw [h.serviceAnswer_instance,if_pos (Or.inr rfl)],?_⟩
    rcases hr with rfl | rfl <;> simp [buildAdditional]
  have haddress (hq : name = service.qualifiedHostname)
      (hr : (r = service.recordA ∧ service.addrs.v4.sinFamily = AF_INET) ∨
        (r = service.recordAaaa ∧ service.addrs.v6.sin6Family = AF_INET6)) :
      ∃ answer additional,
        serviceAnswer service name MdnsRecordType.any.code = some (answer,additional) ∧
          r ∈ answer :: additional := by
    by_cases hs : name = service.serviceName
    · exact hservice hs
    · have hd : name ≠ DNS_SD_SERVICE_INSTANCE := by
        intro hd
        exact ho (Or.inr (Or.inr ⟨hq,hd,rfl⟩))
      subst hq
      rw [h.serviceAnswer_qualified hd hs]
      by_cases h4 : service.addrs.v4.sinFamily = AF_INET
      · refine ⟨service.recordA,buildAdditional service .a,by simp [h4],?_⟩
        rcases hr with ⟨rfl,-⟩ | ⟨rfl,h6⟩
        · simp
        · simp [buildAdditional,h6]
      · rcases hr with ⟨-,h4'⟩ | ⟨rfl,h6⟩
        · contradiction
        · exact ⟨service.recordAaaa,buildAdditional service .aaaa,by simp [h4,h6],by simp⟩
  rcases mem_announced.mp hr with h' | h' | h' | h' | h'
  · exact hservice (by rw [hname,h',np])
  · exact hinstance (by rw [hname,h',ns]) (Or.inl h')
  · exact haddress (by rw [hname,h'.1,na]) (Or.inl h')
  · exact haddress (by rw [hname,h'.1,n6]) (Or.inr h')
  · exact hinstance (by rw [hname,h',nt]) (Or.inr h')

theorem ServiceOf.overlooked_missed {hostname : HostName} {service : AdvertiseService}
    (h : ServiceOf hostname service) {name : Bytes} {rtype : UInt16}
    (ho : Overlooked service name rtype) : ∃ r ∈ announced service, name = r.name ∧
      ((rtype = r.type.code ∧ serviceAnswer service name rtype = none) ∨
        (rtype = MdnsRecordType.any.code ∧ ∀ answer additional,
          serviceAnswer service name rtype = some (answer,additional) →
            r ∉ answer :: additional)) := by
  obtain ⟨-,-,na,n6,nt⟩ := h.owner_names
  obtain ⟨-,-,ta,t6,tt⟩ := h.record_types
  rcases ho with ⟨rfl,rfl⟩ | ⟨hq,hn,ht⟩ | ⟨hq,rfl,rfl⟩
  · refine ⟨service.recordTxt,by simp [mem_announced],nt.symm,Or.inl ⟨by rw [tt],?_⟩⟩
    rw [h.serviceAnswer_instance,if_neg (by decide)]
  · rcases ht with ⟨rfl,h4⟩ | ⟨rfl,h6⟩
    · refine ⟨service.recordA,by simp [mem_announced,h4],by rw [hq,na],Or.inl ⟨by rw [ta],?_⟩⟩
      exact h.serviceAnswer_ptr_only hn (by unfold Asks; decide)
    · refine ⟨service.recordAaaa,by simp [mem_announced,h6],by rw [hq,n6],
        Or.inl ⟨by rw [t6],?_⟩⟩
      exact h.serviceAnswer_ptr_only hn (by unfold Asks; decide)
  · have hmiss : ∀ r : MdnsRecord, r.type ≠ .ptr → ∀ answer additional,
        serviceAnswer service DNS_SD_SERVICE_INSTANCE MdnsRecordType.any.code =
          some (answer,additional) → r ∉ answer :: additional := by
      intro r hr answer additional ha hmem
      rw [h.serviceAnswer_dnsSd_any] at ha
      cases ha
      rw [List.mem_singleton.mp hmem] at hr
      exact hr rfl
    rcases h.address with h4 | h6
    · exact ⟨service.recordA,by simp [mem_announced,h4],by rw [hq,na],
        Or.inr ⟨rfl,hmiss _ (by simp [ta])⟩⟩
    · exact ⟨service.recordAaaa,by simp [mem_announced,h6],by rw [hq,n6],
        Or.inr ⟨rfl,hmiss _ (by simp [t6])⟩⟩

/-- The responder answers for exactly the records it owns, unless the question is
one of those that the tests overlook. -/
theorem answersOwned_iff {env : AdvertiseEnv} {port : UInt16} {service : AdvertiseService}
    (h : advertiseCreateService env port = some service) (data : Mem) (state : ResponderState)
    {e : MdnsEntry} (he : e.entry = .question) :
    AnswersOwned service data e state ↔ ¬ Overlooked service (questionName data e) e.rtype := by
  obtain ⟨hostname,-,hof⟩ := advertiseCreateService_serviceOf h
  constructor
  · intro hp ho
    obtain ⟨r,hr,hname,⟨htype,hnone⟩ | ⟨hany,hmiss⟩⟩ := hof.overlooked_missed ho
    · obtain ⟨additional,ha⟩ := hp.record r hr hname htype
      rw [ha.picked] at hnone
      contradiction
    · obtain ⟨answer,additional,ha,hmem⟩ := hp.any hany r hr hname
      exact hmiss answer additional ha.picked hmem
  · intro ho
    refine ⟨fun r hr hname htype => ?_,fun hany r hr hname => ?_,hof.answers_only state he⟩
    · obtain ⟨additional,ha⟩ := hof.answers_record ho hr hname htype
      exact ⟨additional,hof.answered state he ha⟩
    · rw [hany] at ho
      obtain ⟨answer,additional,ha,hmem⟩ := hof.answers_any ho hr hname
      rw [← hany] at ha
      exact ⟨answer,additional,hof.answered state he ha,hmem⟩

def instanceOfA : Bytes :=
  (1 :: ascii "a") ++ (11 :: ascii "_wlr-remote") ++ (4 :: ascii "_udp") ++ (5 :: ascii "local") ++
    [0]

def questionToA (rtype : MdnsRecordType) : Mem × MdnsEntry :=
  (Mem.write (fun _ => 0) 12 (instanceOfA ++ be16 rtype.code ++ be16 mdnsClassIn),
    ⟨3,.other,.question,0,rtype.code,mdnsClassIn,0,41,12,25,12,25⟩)

theorem answersOwned_iff_srv : AnswersOwned (oneInterfaceService hostA 7777) (questionToA .srv).1
    (questionToA .srv).2 ⟨fun _ => 0,fun _ => 0,[]⟩ :=
  (answersOwned_iff (advertiseCreateService_oneInterface hostA 7777) (questionToA .srv).1
    ⟨fun _ => 0,fun _ => 0,[]⟩ (e := (questionToA .srv).2) rfl).mpr
    (by unfold Overlooked; decide +kernel)

theorem txt_question_is_overlooked : ∃ env port service data e state,
    advertiseCreateService env port = some service ∧ e.entry = .question ∧
      mdnsClassAccepted e.rclass = true ∧ questionName data e = service.recordTxt.name ∧
      e.rtype = service.recordTxt.type.code ∧ ¬ AnswersOwned service data e state := by
  refine ⟨oneInterface hostA,7777,oneInterfaceService hostA 7777,(questionToA .txt).1,
    (questionToA .txt).2,⟨fun _ => 0,fun _ => 0,[]⟩,rfl,rfl,by decide,by decide +kernel,rfl,?_⟩
  intro h
  have hname : questionName (questionToA .txt).1 (questionToA .txt).2 =
      (oneInterfaceService hostA 7777).recordTxt.name := by decide +kernel
  have hmem : (oneInterfaceService hostA 7777).recordTxt ∈
      announced (oneInterfaceService hostA 7777) := by simp [mem_announced]
  obtain ⟨additional,ha⟩ := h.record _ hmem hname rfl
  have hpicked := ha.picked
  rw [hname] at hpicked
  have hnone : serviceAnswer (oneInterfaceService hostA 7777)
      (oneInterfaceService hostA 7777).recordTxt.name MdnsRecordType.txt.code = none := by
    decide +kernel
  rw [show (questionToA .txt).2.rtype = MdnsRecordType.txt.code from rfl,hnone] at hpicked
  contradiction

end WlrRemote
