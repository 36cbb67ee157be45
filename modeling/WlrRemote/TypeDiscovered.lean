import WlrRemote.AnswersHeard
import WlrRemote.EntriesTold

set_option autoImplicit false

namespace WlrRemote
open Octets

/-- The reply repeats the question, and points to it for the name of its record; the name of
the service ends with the last labels of the question. -/
def discoveryReply : Bytes :=
  (⟨0,0x8400,1,1,0,0⟩ : MdnsHeader).bytes ++ mdnsServicesQuery.drop 12 ++ [0xC0,12] ++
    be16 MdnsRecordType.ptr.code ++ be16 mdnsClassIn ++ be32 10 ++ be16 14 ++
    (11 :: ascii "_wlr-remote") ++ [0xC0,30]

theorem length_discoveryReply : discoveryReply.length = 72 := by decide

def discoveryRecord : MdnsRecord := ⟨DNS_SD_SERVICE_INSTANCE,.ptr SERVICE_NAME,0,0⟩

theorem mdnsServicesQuery_asks :
    mdnsServicesQuery = (queryHeader 0 [⟨.ptr,DNS_SD_SERVICE_INSTANCE⟩]).bytes ++
      queriesBytes 0x8001 [⟨.ptr,DNS_SD_SERVICE_INSTANCE⟩] := by decide +kernel

theorem legalName_dnsSd : LegalName DNS_SD_SERVICE_INSTANCE := by constructor <;> decide +kernel

theorem mdnsQueryAnswerUnicast_discovery (buffer : Mem) :
    let w := mdnsQueryAnswerUnicast buffer sendBufferCapacity 0 MdnsRecordType.ptr.code
      DNS_SD_SERVICE_INSTANCE discoveryRecord [] []
    w.data = some 72 ∧ w.buffer = buffer.write 0 discoveryReply := by
  obtain ⟨⟨question,st₀⟩,hquestion,hrest⟩ := Option.bind_eq_some_iff.mp
    (by decide +kernel : (NameState.start.encodeName DNS_SD_SERVICE_INSTANCE).bind (fun named =>
      ((named.2.skip 4).encodeRecords (unicastRecords discoveryRecord [])).map fun made =>
        ((unicastHeader 0 []).bytes ++ (named.1 ++ questionFields MdnsRecordType.ptr.code ++
          imagesBytes made.1),made.2.pos)) = some (discoveryReply,72))
  obtain ⟨⟨images,st⟩,hrecords,hreply⟩ := Option.map_eq_some_iff.mp hrest
  obtain ⟨hbytes,hpos⟩ := Prod.mk.inj hreply
  have hlast : TxtLast [] := ⟨[],[],rfl,by simp,Or.inl rfl⟩
  have hshort : ∀ r ∈ [discoveryRecord], r.Short := by
    intro r hr
    obtain rfl := List.mem_singleton.mp hr
    exact ⟨by decide,by decide⟩
  have hroom : 48 + (DNS_SD_SERVICE_INSTANCE.length + 6) + recordRoom discoveryRecord +
      recordsRoom [] ≤ sendBufferCapacity := by decide
  rw [← hpos,← hbytes]
  exact mdnsQueryAnswerUnicast_text 0 MdnsRecordType.ptr.code sendBufferCapacity_reach (by decide)
    (by decide) hlast (by simp) hshort hroom hquestion hrecords

theorem ServiceOf.replies {hostname : HostName} {service : AdvertiseService}
    (h : ServiceOf hostname service) (sock : Int) (src : Sockaddr) (state : ResponderState) :
    (advertiseRespondRequest service sock (some (src,mdnsServicesQuery)) state).sent =
      state.sent ++ [⟨sock,some src,discoveryReply⟩] := by
  let e : MdnsEntry := ⟨sock,src,.question,0,MdnsRecordType.ptr.code,0x8001,0,mdnsServicesQuery.length,
    12,(plainName DNS_SD_SERVICE_INSTANCE).length,12,(plainName DNS_SD_SERVICE_INSTANCE).length⟩
  obtain ⟨data,hq,hrespond⟩ : ∃ data,
      questionName data e = dotted (nameLabels DNS_SD_SERVICE_INSTANCE) ∧
        (advertiseRespondRequest service sock (some (src,mdnsServicesQuery)) state).sent =
          (serviceCallback service data e state).2.sent :=
    respond_query service legalName_dnsSd 0 (by decide) mdnsServicesQuery_asks sock src state
  have hdotted : dotted (nameLabels DNS_SD_SERVICE_INSTANCE) = DNS_SD_SERVICE_INSTANCE := by
    decide +kernel
  have hanswer : serviceAnswer service (questionName data e) e.rtype = some (discoveryRecord,[]) := by
    rw [hq,hdotted,h.serviceAnswer_eq,h.serviceName]
    rfl
  have hunicast : (0x8001 : UInt16) &&& mdnsUnicastResponse ≠ 0 := by decide
  have hmessage : answerMessage DNS_SD_SERVICE_INSTANCE e state.sendBuffer discoveryRecord [] =
      (mdnsQueryAnswerUnicast state.sendBuffer sendBufferCapacity 0 MdnsRecordType.ptr.code
        DNS_SD_SERVICE_INSTANCE discoveryRecord [] [],some src) := if_pos hunicast
  obtain ⟨hdata,hbuffer⟩ := mdnsQueryAnswerUnicast_discovery state.sendBuffer
  have hread := state.sendBuffer.read_write 0 discoveryReply
  rw [length_discoveryReply] at hread
  rw [hrespond,serviceCallback_of_some state rfl hanswer,hq,hdotted,hmessage]
  simp only [MdnsWriter.sent,hdata,hbuffer,hread]
  rfl

def discoveredEntry (sock : Int) (src : Sockaddr) : MdnsEntry :=
  ⟨sock,src,.answer,0,MdnsRecordType.ptr.code,mdnsClassIn,10,72,46,2,58,14⟩

theorem mdnsDiscoveryRecv_reply {σ : Type} (callback : Mem → MdnsEntry → σ → Int × σ) (sock : Int)
    (src : Sockaddr) {capacity : Nat} (buffer : Mem) (hcap : discoveryReply.length ≤ capacity)
    (state : σ) :
    let m := buffer.write 0 discoveryReply
    mdnsDiscoveryRecv callback sock capacity buffer (some (src,discoveryReply)) state =
      (m,1,(callback m (discoveredEntry sock src) state).2) := by
  intro m
  have hagree : AgreeBelow 72 (messageMem discoveryReply) m :=
    agreeBelow_write_same (fun _ => 0) buffer discoveryReply
  have hequal {offset : Nat} {ends : Nat × Nat}
      (h : mdnsStringEqual (messageMem discoveryReply) 72 offset mdnsServicesQueryMem
        mdnsServicesQuery.length 12 = some ends) :
      mdnsStringEqual m 72 offset mdnsServicesQueryMem mdnsServicesQuery.length 12 = some ends :=
    (mdnsStringEqualLoop_congr hagree _ _ _ _ _ _ _).symm.trans h
  have hfield {a : Nat} (ha : a + 2 ≤ 72) {v : UInt16}
      (h : (messageMem discoveryReply).be16 a = v) : m.be16 a = v := (hagree.be16 ha).symm.trans h
  have hhead : m.read 0 12 = (⟨0,0x8400,1,1,0,0⟩ : MdnsHeader).bytes := by
    rw [← hagree.read (by decide)]
    decide +kernel
  have hquestion : mdnsStringEqual m 72 12 mdnsServicesQueryMem mdnsServicesQuery.length 12 =
      some (42,42) := hequal (by decide +kernel)
  have hanswer : mdnsStringEqual m 72 46 mdnsServicesQueryMem mdnsServicesQuery.length 12 =
      some (48,42) := hequal (by decide +kernel)
  have hverify : mdnsVerifyQuestions m 72 1 12 = some 46 := by
    have htype : m.be16 42 = MdnsRecordType.ptr.code := hfield (by decide) (by decide +kernel)
    have hclass : m.be16 44 = 0x8001 := hfield (by decide) (by decide +kernel)
    have hin : (0x8001 : UInt16) &&& 0x7FFF = mdnsClassIn := by decide
    simp [mdnsVerifyQuestions,hquestion,htype,hclass,hin]
  have hanswers : mdnsDiscoveryAnswers callback sock src m 72 0 1 46 0 state =
      (if (callback m (discoveredEntry sock src) state).1 ≠ 0 then .returns 1 else .goesOn 72,1,
        (callback m (discoveredEntry sock src) state).2) := by
    have htype : m.be16 48 = MdnsRecordType.ptr.code := hfield (by decide) (by decide +kernel)
    have hclass : m.be16 50 = mdnsClassIn := hfield (by decide) (by decide +kernel)
    have hfield₅₆ : m.be16 56 = 14 := hfield (by decide) (by decide +kernel)
    have hlength : (m.be16 56).toNat = 14 := congrArg UInt16.toNat hfield₅₆
    have httl : m.be32 52 = 10 := by
      rw [Mem.be32,← hagree.read (by decide)]
      decide +kernel
    have hwhole : ¬ 72 < 48 + 10 := by decide
    have hfits : ¬ 72 - 48 < 14 := by decide
    simp only [mdnsDiscoveryAnswers,hanswer,htype,hclass,httl,hlength,hwhole,hfits,Option.map_some,
      Option.some_or,Option.isSome_some,↓reduceIte]
    by_cases hres : (callback m (discoveredEntry sock src) state).1 ≠ 0
    · rw [if_pos hres]
      exact if_pos hres
    · rw [if_neg hres]
      exact if_neg hres
  obtain ⟨h₀,h₂⟩ := MdnsHeader.read_ids hhead
  obtain ⟨h₄,h₆,h₈,h₁₀⟩ := MdnsHeader.read_counts hhead
  have hm : buffer.write 0 discoveryReply = m := rfl
  have hsome : ¬ 72 = 0 := by decide
  have hreply : ¬ ((0 : UInt16) ≠ 0 ∨ (0x8400 : UInt16) ≠ 0x8400) := by decide
  have hone : (1 : UInt16).toNat = 1 := rfl
  simp only [mdnsDiscoveryRecv,List.take_of_length_le hcap,length_discoveryReply,hm,h₀,h₂,h₄,h₆,h₈,h₁₀,
    hsome,hreply,hone,hverify,hanswers,↓reduceIte,mdnsSection_empty]
  by_cases hres : (callback m (discoveredEntry sock src) state).1 ≠ 0
  · rw [if_pos hres]
  · rw [if_neg hres]

theorem discoveredEntry_heard (sock : Int) (src : Sockaddr) (buffer : Mem) :
    HeardRecord (buffer.write 0 discoveryReply) 0 (discoveredEntry sock src)
      (.answer,⟨⟨DNS_SD_SERVICE_INSTANCE,MdnsRecordType.ptr.code,.ptr SERVICE_NAME⟩,mdnsClassIn,
        10⟩) := by
  have hagree : AgreeBelow 72 (messageMem discoveryReply) (buffer.write 0 discoveryReply) :=
    agreeBelow_write_same (fun _ => 0) buffer discoveryReply
  have hname : mdnsStringExtract (messageMem discoveryReply) 72 46 nameCapacity =
      some (DNS_SD_SERVICE_INSTANCE,48) := by decide +kernel
  have hdata : decodeData (messageMem discoveryReply) 72 58 14 MdnsRecordType.ptr.code =
      .ptr SERVICE_NAME := by decide +kernel
  exact ⟨rfl,rfl,(mdnsStringExtract_congr hagree _ _).symm.trans hname,rfl,rfl,rfl,
    (decodeData_congr hagree (by decide : 58 + 14 ≤ 72) _).symm.trans hdata⟩

/-- Discovery of the type from end to end: every service, whatever its host, replies to the
discovery once and to the asker alone, and of that reply the asker is told one record: that
there are services of the name by which this one can then be found. -/
theorem type_discovered {env : AdvertiseEnv} {port : UInt16} {service : AdvertiseService}
    (hservice : advertiseCreateService env port = some service) (addr : Sockaddr)
    (asking answering : Int) (client : Sockaddr) (state : ResponderState) :
    ∃ query d, mdnsDiscoverySend (some addr) true asking = (0,[⟨asking,none,query⟩]) ∧
      (advertiseRespondRequest service answering (some (client,query)) state).sent =
        state.sent ++ [d] ∧
      d.sock = answering ∧ d.dest = some client ∧
      ∀ (src : Sockaddr) (capacity : Nat) (buffer : Mem), d.bytes.length ≤ capacity → ∃ e,
        HeardRecord (buffer.write 0 d.bytes) 0 e
          (.answer,⟨⟨DNS_SD_SERVICE_INSTANCE,MdnsRecordType.ptr.code,.ptr service.serviceName⟩,
            mdnsClassIn,10⟩) ∧
        ∀ (σ : Type) (callback : Mem → MdnsEntry → σ → Int × σ) (s : σ),
          mdnsDiscoveryRecv callback asking capacity buffer (some (src,d.bytes)) s =
            (buffer.write 0 d.bytes,1,(callback (buffer.write 0 d.bytes) e s).2) := by
  obtain ⟨hostname,-,hof⟩ := advertiseCreateService_serviceOf hservice
  refine ⟨mdnsServicesQuery,⟨answering,some client,discoveryReply⟩,rfl,
    hof.replies answering client state,rfl,rfl,fun src capacity buffer hcap =>
      ⟨discoveredEntry asking src,?_,fun σ callback s => ?_⟩⟩
  · rw [hof.serviceName]
    exact discoveredEntry_heard asking src buffer
  · exact mdnsDiscoveryRecv_reply callback asking src buffer hcap s

theorem type_discovered_hostA :
    let service := oneInterfaceService hostA 7777
    let client : Sockaddr := .inet ⟨AF_INET,50000,Vector.replicate 4 10⟩ rfl
    ∃ query d, mdnsDiscoverySend (some client) true 4 = (0,[⟨4,none,query⟩]) ∧
      (advertiseRespondRequest service 3 (some (client,query)) ⟨fun _ => 0,fun _ => 0,[]⟩).sent =
        [d] ∧ d.dest = some client := by
  intro service client
  obtain ⟨query,d,hquery,hd,-,hdest,-⟩ := type_discovered
    (advertiseCreateService_oneInterface hostA 7777) client 4 3 client ⟨fun _ => 0,fun _ => 0,[]⟩
  exact ⟨query,d,hquery,hd,hdest⟩

end WlrRemote
