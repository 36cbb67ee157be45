import WlrRemote.AnswersHeard
import WlrRemote.MainServes

set_option autoImplicit false

namespace WlrRemote
open Octets Descriptors

theorem legalName_SERVICE_NAME : LegalName SERVICE_NAME := by
  constructor <;> decide +kernel

theorem ServiceOf.browsed {hostname : HostName} {service : AdvertiseService}
    (h : ServiceOf hostname service) :
    serviceAnswer service (dotted (nameLabels SERVICE_NAME)) MdnsRecordType.ptr.code =
      some (service.recordPtr,buildAdditional service .ptr) := by
  have hdotted : dotted (nameLabels SERVICE_NAME) = SERVICE_NAME := by decide +kernel
  have hother : SERVICE_NAME ≠ DNS_SD_SERVICE_INSTANCE := by decide
  rw [hdotted,h.serviceAnswer_eq,h.serviceName]
  simp [hother]

theorem mainSetup_socks {k : MainKernel} {p p₁ : Process} {m : MainLocals}
    (h : mainSetup k p = (.loop,m,p₁)) : ∃ count fds fds',
      netSetupUdpSockets k.udp ⟨-1,-1⟩ (setupParsePort k.argv) fds = (count,m.socks,fds') ∧
        0 ≤ count := by
  have hkeeps (m : MainLocals) (p : Process) : (mainService k m p).2.1.socks = m.socks := by
    unfold mainService
    split
    · rfl
    · split
      · rfl
      · simp only
        split <;> rfl
  unfold mainSetup at h
  simp only at h
  split at h
  · exact absurd (congrArg Prod.fst h) (by simp)
  · split at h
    · exact absurd (congrArg Prod.fst h) (by simp)
    · split at h
      · exact absurd (congrArg Prod.fst h) (by simp)
      · rename_i display _ _
        unfold mainNetwork at h
        simp only at h
        split at h
        · exact absurd (congrArg Prod.fst h) (by simp)
        · split at h
          · exact absurd (congrArg Prod.fst h) (by simp)
          · rename_i hcount
            split at h
            · exact absurd (congrArg Prod.fst h) (by simp)
            · have hsocks := congrArg (fun r => r.2.1.socks) h
              simp only [hkeeps] at hsocks
              exact ⟨_,_,_,Prod.ext rfl (Prod.ext hsocks rfl),Int.not_lt.mp hcount⟩

/-- Browsing leads to the server: whoever asks for the type on the network is handed the place
of the service, and the port of it is the one whose sockets the loop of `main` reads; it is
handed an address of the host as well. -/
theorem browsing_leads_to_server {k : MainKernel} {p p₁ : Process} {m : MainLocals}
    {blocks : ServiceLife.ServiceBlocks} {service : AdvertiseService} {hostname : HostName}
    (hsetup : mainSetup k p = (.loop,m,p₁)) (hservice : m.service = some (blocks,service))
    (hof : ServiceOf hostname service) (hw : hostname.WellFormed) (hapart : NamesApart service)
    (addr : Sockaddr) (asking answering : Int) (client : Sockaddr) (buffer : Mem) {capacity : Nat}
    (hcap : 16 + (plainName SERVICE_NAME).length ≤ capacity) (queryId : UInt16)
    (state : ResponderState) :
    let asked := mdnsQuerySend (some addr) (some addr) true asking .ptr SERVICE_NAME buffer capacity
      queryId
    let unicast := mdnsQueryClass (some addr) &&& mdnsUnicastResponse ≠ 0
    ∃ query d saids, asked.2.2 = [⟨asking,none,query⟩] ∧
      (advertiseRespondRequest service answering (some (client,query)) state).sent =
        state.sent ++ [d] ∧
      RecordsHeard d.bytes (if unicast then queryId.toNat else 0) saids ∧
      (∃ s ∈ saids, s.2.meaning = ⟨service.serviceInstance,MdnsRecordType.srv.code,
        .srv ⟨0,0,setupParsePort k.argv,service.qualifiedHostname⟩⟩) ∧
      (∃ s ∈ saids, s.2.meaning = ⟨service.qualifiedHostname,MdnsRecordType.a.code,
          .a service.addrs.v4.sinAddr.toList⟩ ∨
        s.2.meaning = ⟨service.qualifiedHostname,MdnsRecordType.aaaa.code,
          .aaaa service.addrs.v6.sin6Addr.toList⟩) ∧
      ∃ count fds fds', netSetupUdpSockets k.udp ⟨-1,-1⟩ (setupParsePort k.argv) fds =
        (count,m.socks,fds') ∧ 0 ≤ count := by
  intro asked unicast
  obtain ⟨-,query,d,saids,hasked,hsent,-,-,hspeaks,hheard⟩ := hof.found hw hapart
    (q := ⟨.ptr,SERVICE_NAME⟩) legalName_SERVICE_NAME hof.browsed addr asking answering client
    buffer hcap queryId state
  have hready := mainSetup_ready k p
  rw [hsetup] at hready
  have hport : service.port = setupParsePort k.argv := by
    obtain ⟨env,hbuilt⟩ := hready.built blocks service hservice
    exact (port_of_created hbuilt).trans hready.port
  have hsaid {r : MdnsRecord} (hr : r ∈ buildAdditional service .ptr) :
      ∃ s ∈ saids, s.2.meaning = r.meaning := by
    have hmem : (MdnsEntryType.additional,r.meaning) ∈
        saids.map fun s => (s.1,s.2.meaning) := by
      rw [hspeaks.meanings]
      exact List.mem_cons_of_mem _ (List.mem_map_of_mem hr)
    obtain ⟨s,hs,heq⟩ := List.mem_map.mp hmem
    exact ⟨s,hs,congrArg Prod.snd heq⟩
  refine ⟨query,d,saids,hasked,hsent,hheard,?_,?_,mainSetup_socks hsetup⟩
  · obtain ⟨s,hs,heq⟩ := hsaid (r := service.recordSrv) (by simp [buildAdditional])
    refine ⟨s,hs,heq.trans ?_⟩
    rw [hof.recordSrv,hport]
    rfl
  · rcases hof.address with h4 | h6
    · obtain ⟨s,hs,heq⟩ := hsaid (r := service.recordA) (by simp [buildAdditional,h4])
      exact ⟨s,hs,Or.inl (heq.trans (by rw [hof.recordA]; rfl))⟩
    · obtain ⟨s,hs,heq⟩ := hsaid (r := service.recordAaaa) (by simp [buildAdditional,h6])
      exact ⟨s,hs,Or.inr (heq.trans (by rw [hof.recordAaaa]; rfl))⟩

theorem browsing_leads_to_server_sample : ∃ m p₁ blocks service query d saids,
    mainSetup (.sample true) .start = (.loop,m,p₁) ∧ m.service = some (blocks,service) ∧
      (advertiseRespondRequest service 7 (some (.other,query))
        ⟨fun _ => 0,fun _ => 0,[]⟩).sent = [d] ∧
      RecordsHeard d.bytes 9 saids ∧
      ∃ s ∈ saids, ∃ target, s.2.meaning.data = .srv ⟨0,0,7777,target⟩ := by
  have hpoint : (mainSetup (.sample true) .start).1 = .loop := by decide +kernel
  have hmade : (mainSetup (.sample true) .start).2.1.service.map (fun s =>
      (s.2.serviceInstance,decide (NamesApart s.2))) =
        some (hostA.bytes ++ dot :: SERVICE_NAME,true) := by decide +kernel
  have hready := mainSetup_ready (.sample true) .start
  generalize hsetup : mainSetup (.sample true) .start = result at *
  obtain ⟨point,m,p₁⟩ := result
  obtain rfl : point = .loop := hpoint
  obtain ⟨⟨blocks,service⟩,hservice,heq⟩ := Option.map_eq_some_iff.mp hmade
  obtain ⟨hinstance,hapart⟩ := Prod.mk.inj heq
  obtain ⟨env,hbuilt⟩ := hready.built blocks service hservice
  obtain ⟨hostname,-,hof⟩ := advertiseCreateService_serviceOf hbuilt
  have hbytes : hostname.bytes = hostA.bytes :=
    List.append_cancel_right (hof.serviceInstance.symm.trans hinstance)
  obtain rfl : hostname = hostA := by
    cases hostname
    cases hbytes
    rfl
  obtain ⟨query,d,saids,-,hsent,hheard,⟨s,hs,hsrv⟩,-⟩ := browsing_leads_to_server hsetup hservice hof
    (by decide) (of_decide_eq_true hapart) .other 4 7 .other (fun _ => 0) (by decide : _ ≤ 64) 9
    ⟨fun _ => 0,fun _ => 0,[]⟩
  have hport : setupParsePort (MainKernel.sample true).argv = 7777 := by decide +kernel
  have hunicast : mdnsQueryClass (some .other) &&& mdnsUnicastResponse ≠ 0 := by decide
  rw [if_pos hunicast] at hheard
  rw [hport] at hsrv
  exact ⟨m,p₁,blocks,service,query,d,saids,rfl,hservice,hsent,hheard,s,hs,_,
    congrArg RecordMeaning.data hsrv⟩

end WlrRemote
