import WlrRemote.BuiltService
import WlrRemote.MessageText

/-!
The announcement and the goodbye of a service: two messages written at different
times into a buffer that receives whatever is sent to the service in between.
-/

set_option autoImplicit false

namespace WlrRemote
open Octets SuffixTable

theorem ServiceOf.classes {hostname : HostName} {service : AdvertiseService}
    (h : ServiceOf hostname service) {r : MdnsRecord} (hr : r ∈ announced service) :
    r.rclass = mdnsClassIn ∧ r.ttl ≠ 0 := by
  rcases mem_announced.mp hr with rfl | rfl | ⟨rfl,-⟩ | ⟨rfl,-⟩ | rfl
  · simp [h.recordPtr]
  · simp [h.recordSrv]
  · simp [h.recordA]
  · simp [h.recordAaaa]
  · simp [h.recordTxt]

theorem ServiceOf.short {hostname : HostName} {service : AdvertiseService}
    (h : ServiceOf hostname service) {r : MdnsRecord} (hr : r ∈ announced service) : r.Short := by
  obtain ⟨hs,hi,hq⟩ := h.lengths
  have hname := length_SERVICE_NAME
  unfold MdnsRecord.Short
  rcases mem_announced.mp hr with rfl | rfl | ⟨rfl,-⟩ | ⟨rfl,-⟩ | rfl
  · rw [h.recordPtr]
    simp only [MdnsRecordData.name]
    omega
  · rw [h.recordSrv]
    simp only [MdnsRecordData.name]
    omega
  · rw [h.recordA]
    simp only [MdnsRecordData.name,List.length_nil]
    omega
  · rw [h.recordAaaa]
    simp only [MdnsRecordData.name,List.length_nil]
    omega
  · rw [h.recordTxt]
    simp only [MdnsRecordData.name,List.length_nil]
    omega

theorem TxtLast.append {records : List MdnsRecord} (h : TxtLast records) {plain : List MdnsRecord}
    (hplain : ∀ r ∈ plain, r.type ≠ .txt) : TxtLast (plain ++ records) := by
  obtain ⟨plain',txts,rfl,hplain',htxts⟩ := h
  refine ⟨plain ++ plain',txts,(List.append_assoc _ _ _).symm,fun r hr => ?_,htxts⟩
  rcases List.mem_append.mp hr with hr | hr
  · exact hplain r hr
  · exact hplain' r hr

theorem ServiceOf.buildAdditional_txtLast {hostname : HostName} {service : AdvertiseService}
    (h : ServiceOf hostname service) (type : MdnsRecordType) :
    TxtLast (buildAdditional service type) := by
  obtain ⟨-,hs,ha,h6,-⟩ := h.record_types
  have ht : service.recordTxt.data = .txt [] [] := by rw [h.recordTxt]
  have hone {c : Prop} [Decidable c] {r : MdnsRecord} (hr : r.type ≠ .txt) :
      ∀ k ∈ (if c then [r] else []), k.type ≠ .txt := by
    split <;> simp [hr]
  have haddr : service.recordA.type ≠ .txt ∧ service.recordAaaa.type ≠ .txt := by simp [ha,h6]
  have hsrv : ∀ k ∈ [service.recordSrv], k.type ≠ .txt := by simp [hs]
  have hnone : TxtLast [] := ⟨[],[],rfl,by simp,Or.inl rfl⟩
  have htxt : TxtLast [service.recordTxt] := ⟨[],[_],rfl,by simp,Or.inr ⟨_,rfl,ht⟩⟩
  unfold buildAdditional
  cases type with
  | ignore | any => exact hnone
  | txt => exact htxt
  | a => exact htxt.append (hone haddr.2)
  | srv | aaaa => exact (htxt.append (hone haddr.2)).append (hone haddr.1)
  | ptr => exact ((htxt.append (hone haddr.2)).append (hone haddr.1)).append hsrv

theorem update_announce {r : MdnsRecord} (h : r.rclass = mdnsClassIn ∧ r.ttl ≠ 0) :
    mdnsRecordUpdateRclassTtl r (mdnsClassIn ||| mdnsCacheFlush) 60 = r := by
  rw [mdnsRecordUpdateRclassTtl_classIn h.1]
  simp [h.2]

theorem update_goodbye {r : MdnsRecord} (h : r.rclass = mdnsClassIn ∧ r.ttl ≠ 0) :
    mdnsRecordUpdateRclassTtl r mdnsClassIn 0 = { r with ttl := 0 } := by
  rw [mdnsRecordUpdateRclassTtl_classIn h.1]
  simp

theorem NameState.encodeRecords_ttl (st : NameState) (rs : List MdnsRecord) (ttl : UInt32) :
    st.encodeRecords (rs.map fun r => { r with ttl := ttl }) =
      (st.encodeRecords rs).map fun encoded =>
        (encoded.1.map fun i => { i with ttl := ttl },encoded.2) := by
  induction rs generalizing st with
  | nil => rfl
  | cons r rs ih =>
    have hupdate := st.encodeRecord_update r r.rclass ttl
    cases hr : st.encodeRecord r with
    | none =>
      rw [hr] at hupdate
      simp only [List.map_cons,encodeRecords,hupdate,hr]
      rfl
    | some first =>
      obtain ⟨image,st₁⟩ := first
      rw [hr] at hupdate
      simp only [List.map_cons,encodeRecords,hupdate,hr,Option.map_some,Option.bind_some,ih,
        Option.map_map]
      congr 1
      funext rest
      have hclass : image.rclass = r.rclass := by
        obtain ⟨_,_,_,-,-,rfl⟩ := encodeRecord_cases hr
        rfl
      simp [← hclass]

def announceSockets (service : AdvertiseService) : List Int :=
  (if service.socks.v4 ≠ -1 then [service.socks.v4] else []) ++
    (if service.socks.v6 ≠ -1 then [service.socks.v6] else [])

def announceHeader (service : AdvertiseService) : MdnsHeader :=
  multicastHeader (buildAdditional service .ptr)

theorem ServiceOf.announceOn_sent {hostname : HostName} {service : AdvertiseService}
    (h : ServiceOf hostname service) {rclass : UInt16} {ttl : UInt32} {images : List RecordImage}
    {st : NameState} (henc : NameState.start.encodeRecords ((announced service).map fun r =>
      mdnsRecordUpdateRclassTtl r rclass ttl) = some (images,st)) (sock : Int)
    (state : ResponderState) :
    (advertiseAnnounceOn service (fun buffer capacity answer authority additional =>
      mdnsAnswerMulticastRclassTtl buffer capacity answer authority additional rclass ttl) sock
        state).sent = state.sent ++ (if sock ≠ -1 then [sock] else []).map fun sock =>
          ⟨sock,none,(announceHeader service).bytes ++ imagesBytes images⟩ := by
  unfold advertiseAnnounceOn
  by_cases hsock : sock = -1
  · simp [hsock]
  · have hr := h.rooms.1
    have hadd := h.buildAdditional_room .ptr
    have hcap := advertiseBufferCapacity_reach
    have hcap' : advertiseBufferCapacity = 2048 := rfl
    have htype : service.recordPtr.type ≠ .txt := by simp [h.record_types.1]
    obtain ⟨hdata,hbuf⟩ : (mdnsAnswerMulticastRclassTtl state.buffer advertiseBufferCapacity
        service.recordPtr [] (buildAdditional service .ptr) rclass ttl).data = some st.pos ∧ _ :=
      mdnsAnswerMulticastRclassTtl_text hcap htype (h.buildAdditional_txtLast .ptr)
        (fun r hr => h.short hr) (by omega) henc
    have hpos := NameState.encodeRecords_pos henc
    have hlen : st.pos = ((announceHeader service).bytes ++ imagesBytes images).length := by
      rw [List.length_append,MdnsHeader.length_bytes,hpos]
      rfl
    have hread := state.buffer.read_write 0 ((announceHeader service).bytes ++ imagesBytes images)
    rw [← hlen] at hread
    simp only [ne_eq,hsock,not_false_eq_true,↓reduceIte,MdnsWriter.sent,hdata,hbuf]
    rw [← announceHeader,hread]
    rfl

theorem ServiceOf.announce_sent {hostname : HostName} {service : AdvertiseService}
    (h : ServiceOf hostname service) {rclass : UInt16} {ttl : UInt32} {images : List RecordImage}
    {st : NameState} (henc : NameState.start.encodeRecords ((announced service).map fun r =>
      mdnsRecordUpdateRclassTtl r rclass ttl) = some (images,st)) (state : ResponderState) :
    (advertiseAnnounce service (fun buffer capacity answer authority additional =>
      mdnsAnswerMulticastRclassTtl buffer capacity answer authority additional rclass ttl)
        state).sent = state.sent ++ (announceSockets service).map fun sock =>
          ⟨sock,none,(announceHeader service).bytes ++ imagesBytes images⟩ := by
  unfold advertiseAnnounce announceSockets
  rw [h.announceOn_sent henc,h.announceOn_sent henc,List.map_append,List.append_assoc]

def respondAll (service : AdvertiseService) (received : List (Int × Option (Sockaddr × Bytes)))
    (state : ResponderState) : ResponderState :=
  received.foldl (fun state r => advertiseRespondRequest service r.1 r.2 state) state

/-- The announced records in one message, and the same with every TTL zero in the other. -/
def Withdraws (service : AdvertiseService) (announcement goodbye : Bytes) : Prop :=
  ∃ images : List RecordImage,
    images.map (fun i => (i.rtype,i.rclass,i.ttl)) =
      (announced service).map (fun r => (r.type.code,r.rclass,r.ttl)) ∧
    announcement = (announceHeader service).bytes ++ imagesBytes images ∧
    goodbye = (announceHeader service).bytes ++
      imagesBytes (images.map fun i => { i with ttl := 0 })

def GoodbyeWithdraws (service : AdvertiseService) (state : ResponderState)
    (received : List (Int × Option (Sockaddr × Bytes))) : Prop :=
  let started := advertiseAnnounceService service state
  let before := respondAll service received started
  ∃ announcements goodbyes : List Sent,
    started.sent = state.sent ++ announcements ∧
    (advertiseAnnounceGoodbye service before).sent = before.sent ++ goodbyes ∧
    announcements.map Sent.sock = announceSockets service ∧
    List.Forall₂ (fun a g => g.sock = a.sock ∧ g.dest = a.dest ∧
      g.bytes.length = a.bytes.length ∧ Withdraws service a.bytes g.bytes) announcements goodbyes

/-- While the names of the announcement are written one after the other, no search for a
suffix finds all labels written so far of a name in agreement and reads on. -/
def SpelledWithin (service : AdvertiseService) : Prop :=
  (NameState.start.encodeRecords (announced service)).isSome = true

theorem imagesBytes_length_ttl (images : List RecordImage) (ttl : UInt32) :
    (imagesBytes (images.map fun i => { i with ttl := ttl })).length =
      (imagesBytes images).length := by
  induction images with
  | nil => rfl
  | cons i images ih =>
    rw [List.map_cons,imagesBytes_cons,imagesBytes_cons,List.length_append,List.length_append,ih]
    simp [RecordImage.bytes,RecordImage.fields]

theorem NameState.encodeRecords_fields {st st' : NameState} {rs : List MdnsRecord}
    {images : List RecordImage} (h : st.encodeRecords rs = some (images,st')) :
    images.map (fun i => (i.rtype,i.rclass,i.ttl)) =
      rs.map (fun r => (r.type.code,r.rclass,r.ttl)) := by
  induction rs generalizing st images with
  | nil =>
    obtain ⟨rfl,rfl⟩ := Prod.mk.inj (Option.some.inj h)
    rfl
  | cons r rs ih =>
    obtain ⟨image,st₁,rest,hr,hrest,rfl⟩ := encodeRecords_cons h
    obtain ⟨_,_,_,-,-,rfl⟩ := encodeRecord_cases hr
    rw [List.map_cons,List.map_cons,ih hrest]

/-- Whatever is received in between, the goodbye is the announcement with every TTL zero,
on the same sockets. -/
theorem goodbye_withdraws {env : AdvertiseEnv} {port : UInt16} {service : AdvertiseService}
    (h : advertiseCreateService env port = some service) (hs : SpelledWithin service)
    (state : ResponderState) (received : List (Int × Option (Sockaddr × Bytes))) :
    GoodbyeWithdraws service state received := by
  obtain ⟨hostname,-,hof⟩ := advertiseCreateService_serviceOf h
  obtain ⟨⟨images,st⟩,henc⟩ := Option.isSome_iff_exists.mp hs
  have hannounce : (announced service).map (fun r => mdnsRecordUpdateRclassTtl r
      (mdnsClassIn ||| mdnsCacheFlush) 60) = announced service := by
    conv_rhs => rw [← List.map_id (announced service)]
    exact List.map_congr_left fun r hr => update_announce (hof.classes hr)
  have hgoodbye : (announced service).map (fun r => mdnsRecordUpdateRclassTtl r mdnsClassIn 0) =
      (announced service).map fun r => { r with ttl := 0 } :=
    List.map_congr_left fun r hr => update_goodbye (hof.classes hr)
  have henc₁ : NameState.start.encodeRecords ((announced service).map fun r =>
      mdnsRecordUpdateRclassTtl r (mdnsClassIn ||| mdnsCacheFlush) 60) = some (images,st) := by
    rw [hannounce,henc]
  have henc₂ : NameState.start.encodeRecords ((announced service).map fun r =>
      mdnsRecordUpdateRclassTtl r mdnsClassIn 0) =
        some (images.map fun i => { i with ttl := 0 },st) := by
    rw [hgoodbye,NameState.encodeRecords_ttl,henc]
    rfl
  refine ⟨_,_,hof.announce_sent henc₁ state,hof.announce_sent henc₂ _,?_,?_⟩
  · rw [List.map_map]
    exact List.map_id (announceSockets service)
  · rw [List.forall₂_map_left_iff,List.forall₂_map_right_iff,List.forall₂_same]
    intro sock _
    refine ⟨rfl,rfl,?_,images,NameState.encodeRecords_fields henc,rfl,rfl⟩
    rw [List.length_append,List.length_append,imagesBytes_length_ttl]

theorem goodbye_withdraws_hostA : GoodbyeWithdraws (oneInterfaceService hostA 7777)
    ⟨fun _ => 0,fun _ => 0,[]⟩ [(3,some (.other,List.replicate 12 0))] :=
  goodbye_withdraws (advertiseCreateService_oneInterface hostA 7777)
    (by unfold SpelledWithin; decide +kernel) _ _

def hostAA : HostName := ⟨ascii "a.a",by decide,by decide⟩

def hostileDatagram : Bytes := List.replicate 48 0 ++ refBytes 12

/-- With the datagram in the buffer the second label of the instance name is taken for a
repetition of the first, and the goodbye is four bytes longer than the announcement. -/
theorem hostile_datagram_spoils_goodbye : ∃ env port service state received,
    advertiseCreateService env port = some service ∧
      ¬ GoodbyeWithdraws service state received := by
  refine ⟨oneInterface hostAA,7777,oneInterfaceService hostAA 7777,⟨fun _ => 0,fun _ => 0,[]⟩,
    [(3,some (.other,hostileDatagram))],rfl,?_⟩
  intro h
  obtain ⟨announcements,goodbyes,ha,hg,-,hall⟩ := h
  have hstarted : (advertiseAnnounceService (oneInterfaceService hostAA 7777)
      ⟨fun _ => 0,fun _ => 0,[]⟩).sent.map (·.bytes.length) = [106] := by decide +kernel
  have hbefore : (respondAll (oneInterfaceService hostAA 7777)
      [(3,some (.other,hostileDatagram))] (advertiseAnnounceService
        (oneInterfaceService hostAA 7777) ⟨fun _ => 0,fun _ => 0,[]⟩)).sent.map
          (·.bytes.length) = [106] := by decide +kernel
  have hafter : (advertiseAnnounceGoodbye (oneInterfaceService hostAA 7777)
      (respondAll (oneInterfaceService hostAA 7777) [(3,some (.other,hostileDatagram))]
        (advertiseAnnounceService (oneInterfaceService hostAA 7777)
          ⟨fun _ => 0,fun _ => 0,[]⟩))).sent.map (·.bytes.length) = [106,110] := by decide +kernel
  have hlengths : announcements.map (·.bytes.length) = goodbyes.map (·.bytes.length) := by
    rw [← List.forall₂_eq_eq_eq,List.forall₂_map_left_iff,List.forall₂_map_right_iff]
    exact hall.imp fun a g hag => hag.2.2.1.symm
  rw [ha,List.nil_append,hlengths] at hstarted
  rw [hg,List.map_append,hbefore,hstarted] at hafter
  revert hafter
  decide

end WlrRemote
