import WlrRemote.AnswersHeard
import WlrRemote.Caches
import WlrRemote.Goodbye

/-!
The listeners on the network: what their caches hold of a service from its announcement to
its goodbye, and when it comes back without one.
-/

set_option autoImplicit false

namespace WlrRemote
open Octets

def entryMeaning (data : Mem) (e : MdnsEntry) : RecordMeaning where
  name := ((mdnsStringExtract data e.size e.nameOffset nameCapacity).map Prod.fst).getD []
  rtype := e.rtype
  data := decodeData data e.size e.recordOffset e.recordLength e.rtype

def SameSet (r k : RecordMeaning) : Prop := r.name = k.name ∧ r.rtype = k.rtype

def RecordSaid.toSaid (s : RecordSaid) : Caches.Said RecordMeaning :=
  ⟨s.meaning,s.ttl.toNat,s.rclass &&& mdnsCacheFlush ≠ 0⟩

def cacheCallback (data : Mem) (e : MdnsEntry) (cache : Set RecordMeaning) :
    Int × Set RecordMeaning :=
  (0,Caches.hear SameSet cache (RecordSaid.mk (entryMeaning data e) e.rclass e.ttl).toSaid)

/-- The buffer and the cache of a listener after a datagram, which may come from anywhere. -/
def listen (capacity : Nat) (l : Mem × Set RecordMeaning) (received : Int × Sockaddr × Bytes) :
    Mem × Set RecordMeaning :=
  let (buffer,_,cache) :=
    mdnsQueryRecv cacheCallback received.1 capacity l.1 (some received.2) 0 l.2
  (buffer,cache)

def listenAll (capacity : Nat) (heard : List (Int × Sockaddr × Bytes))
    (l : Mem × Set RecordMeaning) : Mem × Set RecordMeaning := heard.foldl (listen capacity) l

def saidBy (bytes : Bytes) : Set RecordMeaning :=
  {m | ∃ saids, decodeSaids bytes = some saids ∧ ∃ s ∈ saids, s.2.meaning = m}

def Lasting (saids : List (MdnsEntryType × RecordSaid)) : Prop :=
  ∀ s ∈ saids, s.2.rclass = mdnsClassIn ∧ s.2.ttl ≠ 0

section Listening

variable {capacity : Nat} {bytes : Bytes} {saids : List (MdnsEntryType × RecordSaid)}

theorem HeardRecord.toSaid {m : Mem} {queryId : UInt16} {e : MdnsEntry}
    {s : MdnsEntryType × RecordSaid} (h : HeardRecord m queryId e s) :
    RecordSaid.mk (entryMeaning m e) e.rclass e.ttl = s.2 := by
  obtain ⟨entry,⟨name,rtype,data⟩,rclass,ttl⟩ := s
  rw [entryMeaning,h.name,h.data,h.rtype,h.rclass,h.ttl]
  rfl

theorem cacheCallback_all {m : Mem} {queryId : UInt16} {entries : List MdnsEntry}
    (h : List.Forall₂ (HeardRecord m queryId) entries saids) (cache : Set RecordMeaning) :
    entries.foldl (fun cache e => (cacheCallback m e cache).2) cache =
      Caches.hearAll SameSet cache (saids.map fun s => s.2.toSaid) := by
  induction h generalizing cache with
  | nil => rfl
  | cons hfirst hrest ih =>
    rw [List.foldl_cons,ih,cacheCallback,hfirst.toSaid]
    rfl

theorem listen_saids (h : decodeSaids bytes = some saids) (hcap : bytes.length ≤ capacity)
    (l : Mem × Set RecordMeaning) (sock : Int) (src : Sockaddr) :
    (listen capacity l (sock,src,bytes)).2 =
      Caches.hearAll SameSet l.2 (saids.map fun s => s.2.toSaid) := by
  obtain ⟨entries,hheard,hrecv⟩ :=
    recordsHeard_of_saids h (Or.inl (Int.le_refl 0)) sock src capacity l.1 hcap
  rw [listen,hrecv _ cacheCallback l.2 fun _ _ _ => rfl]
  exact cacheCallback_all hheard l.2

theorem subjects_saids (h : decodeSaids bytes = some saids) :
    Caches.subjects (saids.map fun s => s.2.toSaid) = saidBy bytes := by
  ext m
  constructor
  · rintro ⟨_,hs,rfl⟩
    obtain ⟨s,hk,rfl⟩ := List.mem_map.mp hs
    exact ⟨saids,h,s,hk,rfl⟩
  · rintro ⟨saids',h',s,hs,rfl⟩
    obtain rfl := Option.some.inj (h.symm.trans h')
    exact ⟨s.2.toSaid,List.mem_map.mpr ⟨s,hs,rfl⟩,rfl⟩

theorem RecordSaid.toSaid_lasting {s : RecordSaid} (hclass : s.rclass = mdnsClassIn)
    (httl : s.ttl ≠ 0) : s.toSaid.time ≠ 0 ∧ s.toSaid.flush = false := by
  constructor
  · exact fun h => httl (UInt32.toNat_inj.mp h)
  · rw [toSaid,hclass]
    exact (by decide : decide (mdnsClassIn &&& mdnsCacheFlush ≠ 0) = false)

theorem listen_lasting (h : decodeSaids bytes = some saids) (hlasting : Lasting saids)
    (hcap : bytes.length ≤ capacity) (l : Mem × Set RecordMeaning) (sock : Int) (src : Sockaddr) :
    (listen capacity l (sock,src,bytes)).2 = l.2 ∪ saidBy bytes := by
  rw [listen_saids h hcap,Caches.hearAll_lasting SameSet ?_ l.2,subjects_saids h]
  intro s hs
  obtain ⟨k,hk,rfl⟩ := List.mem_map.mp hs
  exact RecordSaid.toSaid_lasting (hlasting k hk).1 (hlasting k hk).2

theorem listen_over (h : decodeSaids bytes = some saids) (hover : ∀ s ∈ saids, s.2.ttl = 0)
    (hcap : bytes.length ≤ capacity) (l : Mem × Set RecordMeaning) (sock : Int) (src : Sockaddr) :
    (listen capacity l (sock,src,bytes)).2 = l.2 \ saidBy bytes := by
  rw [listen_saids h hcap,Caches.hearAll_over SameSet ?_ l.2,subjects_saids h]
  intro s hs
  obtain ⟨k,hk,rfl⟩ := List.mem_map.mp hs
  rw [RecordSaid.toSaid,hover k hk]
  rfl

theorem listenAll_lasting {heard : List (Int × Sockaddr × Bytes)}
    (h : ∀ r ∈ heard, r.2.2.length ≤ capacity ∧ ∃ saids, decodeSaids r.2.2 = some saids ∧
      Lasting saids) (l : Mem × Set RecordMeaning) :
    (listenAll capacity heard l).2 = l.2 ∪ {m | ∃ r ∈ heard, m ∈ saidBy r.2.2} := by
  induction heard generalizing l with
  | nil => simp [listenAll]
  | cons r heard ih =>
    obtain ⟨hcap,saids,htold,hlasting⟩ := h r List.mem_cons_self
    obtain ⟨sock,src,bytes⟩ := r
    rw [listenAll,List.foldl_cons,← listenAll,ih fun k hk => h k (List.mem_cons_of_mem _ hk),
      listen_lasting htold hlasting hcap,Set.union_assoc]
    congr 1
    ext m
    simp

end Listening

def serviceRecords (service : AdvertiseService) : Set RecordMeaning :=
  {m | ∃ r ∈ announced service, r.meaning = m}

/-- The record that all services have in common: it is given as an answer and never announced. -/
def typeRecord : RecordMeaning :=
  ⟨DNS_SD_SERVICE_INSTANCE,MdnsRecordType.ptr.code,.ptr SERVICE_NAME⟩

/-- A message that may be sent while the service is there: of its records, all of them lasting. -/
structure Vouches (service : AdvertiseService) (bytes : Bytes) : Prop where
  length_le : bytes.length ≤ advertiseBufferCapacity
  lasting : ∃ saids, decodeSaids bytes = some saids ∧ Lasting saids
  own : saidBy bytes ⊆ serviceRecords service ∪ {typeRecord}

theorem saidBy_iff {bytes : Bytes} {saids : List (MdnsEntryType × RecordSaid)}
    (htold : decodeSaids bytes = some saids) {records : List MdnsRecord}
    (hmeanings : saids.map (fun s => s.2.meaning) = records.map MdnsRecord.meaning)
    (m : RecordMeaning) : m ∈ saidBy bytes ↔ ∃ r ∈ records, r.meaning = m := by
  rw [← List.mem_map,← hmeanings,List.mem_map]
  constructor
  · rintro ⟨saids',htold',hs⟩
    obtain rfl := Option.some.inj (htold.symm.trans htold')
    exact hs
  · exact fun hs => ⟨saids,htold,hs⟩

theorem Speaks.records {saids : List (MdnsEntryType × RecordSaid)} {answer : MdnsRecord}
    {additional : List MdnsRecord} (h : Speaks saids answer additional) :
    saids.map (fun s => s.2.meaning) = (answer :: additional).map MdnsRecord.meaning := by
  have hmeanings := congrArg (List.map Prod.snd) h.meanings
  simpa [Function.comp_def] using hmeanings

theorem sections_records (answer : MdnsRecord) (additional : List MdnsRecord) :
    (sections answer additional).map (fun s => s.2.meaning) =
      (answer :: additional).map MdnsRecord.meaning := by
  simp [sections,MdnsRecord.said,Function.comp_def]

theorem buildAdditional_announced {service : AdvertiseService} {type : MdnsRecordType}
    {r : MdnsRecord} (hr : r ∈ buildAdditional service type) : r ∈ announced service := by
  rw [mem_announced]
  unfold buildAdditional at hr
  by_cases h4 : service.addrs.v4.sinFamily = AF_INET <;>
    by_cases h6 : service.addrs.v6.sin6Family = AF_INET6 <;> cases type <;>
      simp [h4,h6] at hr <;> tauto

section Service

variable {hostname : HostName} {service : AdvertiseService}

theorem ServiceOf.answer_own (h : ServiceOf hostname service) {name : Bytes} {rtype : UInt16}
    {answer : MdnsRecord} {additional : List MdnsRecord}
    (ha : serviceAnswer service name rtype = some (answer,additional)) :
    ∀ r ∈ answer :: additional, r.meaning ∈ serviceRecords service ∪ {typeRecord} := by
  intro r hr
  rcases h.serviceAnswer_cases ha with ⟨rfl,-,rfl,rfl⟩ | ⟨-,-,rfl,rfl⟩ | ⟨-,-,rfl,rfl⟩ |
    ⟨-,-,h4,rfl,rfl⟩ | ⟨-,-,h6,rfl,rfl⟩
  · obtain rfl := List.mem_singleton.mp hr
    refine Or.inr ?_
    rw [h.serviceName]
    rfl
  all_goals
    refine Or.inl ⟨r,?_,rfl⟩
    rcases List.mem_cons.mp hr with rfl | hr
  · exact mem_announced.mpr (by simp)
  · exact buildAdditional_announced hr
  · exact mem_announced.mpr (by simp)
  · exact buildAdditional_announced hr
  · exact mem_announced.mpr (by simp [h4])
  · exact buildAdditional_announced hr
  · exact mem_announced.mpr (by simp [h6])
  · exact buildAdditional_announced hr

variable (h : ServiceOf hostname service) (hw : hostname.WellFormed) (hapart : NamesApart service)
include h hw hapart

theorem ServiceOf.callback_vouches (data : Mem) (e : MdnsEntry) (state : ResponderState) :
    ∃ answers, (serviceCallback service data e state).2.sent = state.sent ++ answers ∧
      ∀ d ∈ answers, Vouches service d.bytes := by
  by_cases he : e.entry = .question
  · cases ha : serviceAnswer service (questionName data e) e.rtype with
    | none => exact ⟨[],by rw [serviceCallback_of_none state ha]; simp,by simp⟩
    | some records =>
      obtain ⟨answer,additional⟩ := records
      obtain ⟨text,answer',additional',hlong,htold,hmeans,hlasting,hsent⟩ :=
        h.answer_saids hw hapart (e := e) ha
      have hspeaks := sections_speaks hmeans hlasting
      refine ⟨_,by rw [serviceCallback_of_some state he ha],?_⟩
      intro d hd
      rw [hsent] at hd
      obtain rfl := List.mem_singleton.mp hd
      refine ⟨hlong.trans (by decide),⟨_,htold,hspeaks.lasting⟩,?_⟩
      intro m hm
      obtain ⟨r,hr,rfl⟩ := (saidBy_iff htold hspeaks.records m).mp hm
      exact h.answer_own ha r hr
  · exact ⟨[],by rw [serviceCallback_of_record state he]; simp,by simp⟩

theorem ServiceOf.respond_vouches (sock : Int) (received : Option (Sockaddr × Bytes))
    (state : ResponderState) :
    ∃ answers, (advertiseRespondRequest service sock received state).sent = state.sent ++ answers ∧
      ∀ d ∈ answers, Vouches service d.bytes := by
  cases received with
  | none => exact ⟨[],by simp [advertiseRespondRequest,mdnsSocketListen],by simp⟩
  | some received =>
    obtain ⟨src,datagram⟩ := received
    rw [advertiseRespondRequest_eq]
    simp only
    generalize datagramQuestions _ _ = questions
    generalize state.buffer.write 0 (datagram.take advertiseBufferCapacity) = data
    induction questions generalizing state with
    | nil => exact ⟨[],by simp [answerQuestions],by simp⟩
    | cons x questions ih =>
      obtain ⟨first,hfirst,hvouch⟩ := h.callback_vouches hw hapart data
        (questionEntry sock src (datagram.take advertiseBufferCapacity).length (data.be16 0) x.1 x.2)
        state
      obtain ⟨rest,hrest,hvouch'⟩ := ih (serviceCallback service data (questionEntry sock src
        (datagram.take advertiseBufferCapacity).length (data.be16 0) x.1 x.2) state).2
      refine ⟨first ++ rest,?_,fun d hd => ?_⟩
      · rw [answerQuestions,List.foldl_cons]
        exact hrest.trans (by rw [hfirst,List.append_assoc])
      · rcases List.mem_append.mp hd with hd | hd
        · exact hvouch d hd
        · exact hvouch' d hd

theorem ServiceOf.respondAll_vouches (received : List (Int × Option (Sockaddr × Bytes)))
    (state : ResponderState) :
    ∃ answers, (respondAll service received state).sent = state.sent ++ answers ∧
      ∀ d ∈ answers, Vouches service d.bytes := by
  induction received generalizing state with
  | nil => exact ⟨[],by simp [respondAll],by simp⟩
  | cons r received ih =>
    obtain ⟨first,hfirst,hvouch⟩ := h.respond_vouches hw hapart r.1 r.2 state
    obtain ⟨rest,hrest,hvouch'⟩ := ih (advertiseRespondRequest service r.1 r.2 state)
    refine ⟨first ++ rest,?_,fun d hd => ?_⟩
    · rw [respondAll,List.foldl_cons]
      exact hrest.trans (by rw [hfirst,List.append_assoc])
    · rcases List.mem_append.mp hd with hd | hd
      · exact hvouch d hd
      · exact hvouch' d hd

theorem ServiceOf.announcement (state : ResponderState) :
    ∃ text, (advertiseAnnounceService service state).sent =
        state.sent ++ (announceSockets service).map (fun sock => ⟨sock,none,text⟩) ∧
      saidBy text = serviceRecords service ∧ Vouches service text := by
  obtain ⟨text,hlong,htold,hsent⟩ :=
    h.announce_saids hw hapart (mdnsClassIn ||| mdnsCacheFlush) 60 state
  have hupdate : ∀ r ∈ announced service,
      mdnsRecordUpdateRclassTtl r (mdnsClassIn ||| mdnsCacheFlush) 60 = r :=
    fun r hr => update_announce (h.classes hr)
  have hptr := hupdate service.recordPtr List.mem_cons_self
  have hadditional : (buildAdditional service .ptr).map
      (fun r => mdnsRecordUpdateRclassTtl r (mdnsClassIn ||| mdnsCacheFlush) 60) =
        buildAdditional service .ptr := by
    conv_rhs => rw [← List.map_id (buildAdditional service .ptr)]
    exact List.map_congr_left fun r hr => hupdate r (List.mem_cons_of_mem _ hr)
  simp only [hptr,hadditional] at htold
  have hsaid : saidBy text = serviceRecords service := by
    ext m
    exact saidBy_iff htold (sections_records _ _) m
  refine ⟨text,hsent,hsaid,hlong,⟨_,htold,?_⟩,by rw [hsaid]; exact Set.subset_union_left⟩
  intro s hs
  rcases List.mem_cons.mp hs with rfl | hs
  · exact h.classes List.mem_cons_self
  · obtain ⟨r,hr,rfl⟩ := List.mem_map.mp hs
    exact h.classes (List.mem_cons_of_mem _ hr)

theorem ServiceOf.goodbye (state : ResponderState) :
    ∃ text, (advertiseAnnounceGoodbye service state).sent =
        state.sent ++ (announceSockets service).map (fun sock => ⟨sock,none,text⟩) ∧
      saidBy text = serviceRecords service ∧ text.length ≤ advertiseBufferCapacity ∧
      ∃ saids, decodeSaids text = some saids ∧ ∀ s ∈ saids, s.2.ttl = 0 := by
  obtain ⟨text,hlong,htold,hsent⟩ := h.announce_saids hw hapart mdnsClassIn 0 state
  have hmeanings := (sections_records (mdnsRecordUpdateRclassTtl service.recordPtr mdnsClassIn 0)
    ((buildAdditional service .ptr).map fun r => mdnsRecordUpdateRclassTtl r mdnsClassIn 0)).trans
      (meaning_map (mdnsRecordUpdateRclassTtl_eq mdnsClassIn 0) (announced service))
  refine ⟨text,hsent,?_,hlong,_,htold,?_⟩
  · ext m
    exact saidBy_iff htold hmeanings m
  · have hover : ∀ r ∈ announced service, (mdnsRecordUpdateRclassTtl r mdnsClassIn 0).ttl = 0 := by
      intro r hr
      rw [update_goodbye (h.classes hr)]
    intro s hs
    rcases List.mem_cons.mp hs with rfl | hs
    · exact hover _ List.mem_cons_self
    · simp only [List.map_map] at hs
      obtain ⟨r,hr,rfl⟩ := List.mem_map.mp hs
      exact hover r (List.mem_cons_of_mem _ hr)

end Service

/-- The caches follow the service. A listener that hears, in any order and however often, its
announcement and answers keeps what it had and adds records of the service only, all of them if
it heard the announcement; once it hears the goodbye it has none of them any more, and what it
had of others is still there. Only the type of the service, if it was told of that, stays. -/
theorem caches_follow {env : AdvertiseEnv} {port : UInt16} {service : AdvertiseService}
    {hostname : HostName} (hhost : env.gethostname = some hostname) (hw : hostname.WellFormed)
    (hservice : advertiseCreateService env port = some service) (hapart : NamesApart service)
    (state : ResponderState) (received : List (Int × Option (Sockaddr × Bytes))) :
    let started := advertiseAnnounceService service state
    let before := respondAll service received started
    ∃ (announcement goodbye : Bytes) (answers : List Sent),
      started.sent = state.sent ++
        (announceSockets service).map (fun sock => ⟨sock,none,announcement⟩) ∧
      before.sent = started.sent ++ answers ∧
      (advertiseAnnounceGoodbye service before).sent = before.sent ++
        (announceSockets service).map (fun sock => ⟨sock,none,goodbye⟩) ∧
      ∀ (capacity : Nat) (heard : List (Int × Sockaddr × Bytes)) (l : Mem × Set RecordMeaning)
          (sock : Int) (src : Sockaddr), advertiseBufferCapacity ≤ capacity →
        (∀ r ∈ heard, r.2.2 = announcement ∨ ∃ d ∈ answers, d.bytes = r.2.2) →
        let during := listenAll capacity heard l
        let after := listen capacity during (sock,src,goodbye)
        l.2 ⊆ during.2 ∧ during.2 ⊆ l.2 ∪ (serviceRecords service ∪ {typeRecord}) ∧
          ((∃ r ∈ heard, r.2.2 = announcement) → serviceRecords service ⊆ during.2) ∧
          after.2 = during.2 \ serviceRecords service := by
  intro started before
  obtain ⟨hostname',hhost',hof⟩ := advertiseCreateService_serviceOf hservice
  rw [hhost] at hhost'
  obtain rfl := Option.some.inj hhost'
  obtain ⟨announcement,hstarted,hsaid,hvouches⟩ := hof.announcement hw hapart state
  obtain ⟨answers,hbefore,hanswers⟩ := hof.respondAll_vouches hw hapart received started
  obtain ⟨goodbye,hended,hover,hlong,saids,htold,httl⟩ := hof.goodbye hw hapart before
  refine ⟨announcement,goodbye,answers,hstarted,hbefore,hended,?_⟩
  intro capacity heard l sock src hcap hheard during after
  have hall : ∀ r ∈ heard, Vouches service r.2.2 := by
    intro r hr
    rcases hheard r hr with heq | ⟨d,hd,heq⟩
    · exact heq ▸ hvouches
    · exact heq ▸ hanswers d hd
  have hduring : during.2 = l.2 ∪ {m | ∃ r ∈ heard, m ∈ saidBy r.2.2} :=
    listenAll_lasting (fun r hr => ⟨(hall r hr).length_le.trans hcap,(hall r hr).lasting⟩) l
  refine ⟨?_,?_,?_,?_⟩
  · rw [hduring]
    exact Set.subset_union_left
  · rw [hduring]
    refine Set.union_subset_union_right _ ?_
    rintro m ⟨r,hr,hm⟩
    exact (hall r hr).own hm
  · rintro ⟨r,hr,heq⟩ m hm
    rw [hduring]
    exact Or.inr ⟨r,hr,by rw [heq,hsaid]; exact hm⟩
  · rw [← hover]
    exact listen_over htold httl (hlong.trans hcap) during sock src

theorem caches_follow_hostA :
    let service := oneInterfaceService hostA 7777
    let client : Sockaddr := .inet ⟨AF_INET,50000,Vector.replicate 4 10⟩ rfl
    ∃ announcement goodbye : Bytes,
      (advertiseAnnounceService service ⟨fun _ => 0,fun _ => 0,[]⟩).sent =
        [⟨3,none,announcement⟩] ∧
      let during := listen advertiseBufferCapacity (fun _ => 0,∅) (4,client,announcement)
      serviceRecords service ⊆ during.2 ∧
        (listen advertiseBufferCapacity during (4,client,goodbye)).2 =
          during.2 \ serviceRecords service := by
  intro service client
  obtain ⟨announcement,goodbye,answers,hstarted,-,-,hfollow⟩ := caches_follow rfl (by decide)
    (advertiseCreateService_oneInterface hostA 7777) (by decide +kernel)
    ⟨fun _ => 0,fun _ => 0,[]⟩ []
  obtain ⟨-,-,hall,hafter⟩ := hfollow advertiseBufferCapacity
    [(4,client,announcement)] (fun _ => 0,∅) 4 client (Nat.le_refl _) (by simp)
  exact ⟨announcement,goodbye,hstarted,hall ⟨_,List.mem_cons_self,rfl⟩,hafter⟩

end WlrRemote
