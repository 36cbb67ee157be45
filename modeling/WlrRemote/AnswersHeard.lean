import WlrRemote.AnswersGiven
import WlrRemote.RecordsSaid

set_option autoImplicit false

namespace WlrRemote
open Octets

section Congr

variable {m m' : Mem} {size : Nat} (h : AgreeBelow size m m')
include h

theorem decodeData_congr {p length : Nat} (hin : p + length ≤ size) (rtype : UInt16) :
    decodeData m size p length rtype = decodeData m' size p length rtype := by
  have hptr : mdnsRecordParsePtr m size p length nameCapacity =
      mdnsRecordParsePtr m' size p length nameCapacity := by
    rw [mdnsRecordParsePtr,mdnsStringExtract_congr h]
    rfl
  have hsrv : mdnsRecordParseSrv m size p length nameCapacity =
      mdnsRecordParseSrv m' size p length nameCapacity := by
    unfold mdnsRecordParseSrv
    split
    · rw [mdnsStringExtract_congr h,h.be16 (by omega),h.be16 (by omega),h.be16 (by omega)]
    · rfl
  have ha : mdnsRecordParseA m size p length = mdnsRecordParseA m' size p length := by
    unfold mdnsRecordParseA
    split
    · rw [h.read (by omega)]
    · rfl
  have haaaa : mdnsRecordParseAaaa m size p length = mdnsRecordParseAaaa m' size p length := by
    unfold mdnsRecordParseAaaa
    split
    · rw [h.read (by omega)]
    · rfl
  simp only [decodeData,hptr,hsrv,ha,haaaa]

theorem decodeRecord_congr (p : Nat) : decodeRecord m size p = decodeRecord m' size p := by
  rw [decodeRecord,decodeRecord,mdnsStringExtract_congr h]
  cases mdnsStringExtract m' size p nameCapacity with
  | none => rw [Option.bind_none,Option.bind_none]
  | some name =>
    simp only [Option.bind_some]
    by_cases hfields : name.2 + 10 ≤ size
    · rw [h.be16 (show name.2 + 8 + 2 ≤ size by omega),h.be16 (show name.2 + 2 ≤ size by omega)]
      split
      · rw [decodeData_congr h (by omega)]
      · rfl
    · rw [if_neg (by omega),if_neg (by omega)]

theorem decodeSaid_congr (p : Nat) : decodeSaid m size p = decodeSaid m' size p := by
  rw [decodeSaid,decodeSaid,← mdnsStringExtract_congr h,← decodeRecord_congr h]
  cases hname : mdnsStringExtract m size p nameCapacity with
  | none => rw [Option.bind_none,Option.bind_none]
  | some name =>
    simp only [Option.bind_some,decodeRecord,hname]
    by_cases hfit : name.2 + 10 + (m.be16 (name.2 + 8)).toNat ≤ size
    · rw [if_pos hfit,h.be16 (show name.2 + 2 + 2 ≤ size by omega),
        show m.be32 (name.2 + 4) = m'.be32 (name.2 + 4) by
          rw [Mem.be32,Mem.be32,h.read (show name.2 + 4 + 4 ≤ size by omega)]]
    · rw [if_neg hfit,Option.map_none,Option.map_none]

theorem mdnsSkipQuestions_congr (n p : Nat) :
    mdnsSkipQuestions m size n p = mdnsSkipQuestions m' size n p := by
  induction n generalizing p with
  | zero => rfl
  | succ n ih =>
    have hskip : mdnsStringSkip m size p = mdnsStringSkip m' size p :=
      mdnsStringSkipLoop_congr h _ _
    simp only [mdnsSkipQuestions,hskip,ih]

end Congr

structure HeardRecord (m : Mem) (queryId : UInt16) (e : MdnsEntry)
    (r : MdnsEntryType × RecordSaid) : Prop where
  entry : e.entry = r.1
  queryId : e.queryId = queryId
  name : mdnsStringExtract m e.size e.nameOffset nameCapacity =
    some (r.2.meaning.name,e.nameOffset + e.nameLength)
  rtype : e.rtype = r.2.meaning.rtype
  rclass : e.rclass = r.2.rclass
  ttl : e.ttl = r.2.ttl
  data : decodeData m e.size e.recordOffset e.recordLength e.rtype = r.2.meaning.data

section Receive

variable (m : Mem) (size : Nat) (sock : Int) (src : Sockaddr) (queryId : UInt16)

def recordEntry (entry : MdnsEntryType) (p stop : Nat) : MdnsEntry :=
  ⟨sock,src,entry,queryId,m.be16 stop,m.be16 (stop + 2),m.be32 (stop + 4),size,p,stop - p,stop + 10,
    (m.be16 (stop + 8)).toNat⟩

variable {m size}

theorem mdnsRecordsParse_hears (entry : MdnsEntryType) {n p stop : Nat} {rs : List RecordSaid}
    (h : decodeMany (decodeSaid m size) n p = some (rs,stop)) :
    ∃ entries, List.Forall₂ (HeardRecord m queryId) entries (rs.map (Prod.mk entry)) ∧
      entries.length = n ∧ ∀ (σ : Type) (callback : Mem → MdnsEntry → σ → Int × σ),
        (∀ data e state, (callback data e state).1 = 0) → ∀ stopped total state,
          mdnsRecordsParse callback sock src m size entry queryId n ⟨stopped,p,total,state⟩ =
            ⟨stopped,stop,total + n,entries.foldl (fun state e => (callback m e state).2) state⟩ := by
  induction n generalizing p rs with
  | zero =>
    obtain ⟨rfl,rfl⟩ := Prod.mk.inj (Option.some.inj h)
    exact ⟨[],.nil,rfl,fun σ callback hzero stopped total state => rfl⟩
  | succ n ih =>
    rw [decodeMany] at h
    obtain ⟨⟨r,p'⟩,hsaid,h⟩ := Option.bind_eq_some_iff.mp h
    obtain ⟨⟨rest,stop'⟩,hrest,heq⟩ := Option.map_eq_some_iff.mp h
    obtain ⟨rfl,rfl⟩ := Prod.mk.inj heq
    obtain ⟨entries,hheard,hlen,hloop⟩ := ih hrest
    rw [decodeSaid] at hsaid
    obtain ⟨name,hname,hsaid⟩ := Option.bind_eq_some_iff.mp hsaid
    obtain ⟨record,hrecord,heq⟩ := Option.map_eq_some_iff.mp hsaid
    obtain ⟨rfl,rfl⟩ := Prod.mk.inj heq
    rw [decodeRecord,hname] at hrecord
    simp only [Option.bind_some] at hrecord
    split at hrecord
    · rename_i hfit
      obtain rfl := Option.some.inj hrecord
      have hskip := mdnsStringSkip_of_extract hname
      have hge := (mdnsStringSkipLoop_ge hskip).1
      have hstop : p + (name.2 - p) = name.2 := by omega
      refine ⟨recordEntry m size sock src queryId entry p name.2 :: entries,
        .cons ⟨rfl,rfl,?_,rfl,rfl,rfl,rfl⟩ hheard,by rw [List.length_cons,hlen],?_⟩
      · simp only [recordEntry,hstop]
        exact hname
      · intro σ callback hzero stopped total state
        have hfields : ¬ size < name.2 + 10 := by omega
        have hdata : (m.be16 (name.2 + 8)).toNat ≤ size - (name.2 + 10) := by omega
        simp only [mdnsRecordsParse,hskip,Option.getD_some,hfields,hdata,↓reduceIte,hzero,ne_eq,
          not_true_eq_false,hloop σ callback hzero,List.foldl_cons,MdnsProgress.mk.injEq,true_and]
        exact ⟨by omega,rfl⟩
    · contradiction

theorem mdnsSection_hears (entry : MdnsEntryType) {rrs : UInt16} {p stop : Nat}
    {rs : List RecordSaid} (h : decodeMany (decodeSaid m size) rrs.toNat p = some (rs,stop)) :
    ∃ entries, List.Forall₂ (HeardRecord m queryId) entries (rs.map (Prod.mk entry)) ∧
      ∀ (σ : Type) (callback : Mem → MdnsEntry → σ → Int × σ),
        (∀ data e state, (callback data e state).1 = 0) → ∀ total state,
          mdnsSection callback sock src m size entry queryId rrs ⟨false,p,total,state⟩ =
            ⟨false,stop,total + rs.length,
              entries.foldl (fun state e => (callback m e state).2) state⟩ := by
  obtain ⟨entries,hheard,hlen,hloop⟩ := mdnsRecordsParse_hears sock src queryId entry h
  have hcount : rs.length = rrs.toNat := by
    rw [← hlen,hheard.length_eq,List.length_map]
  refine ⟨entries,hheard,fun σ callback hzero total state => ?_⟩
  simp only [mdnsSection,Bool.false_eq_true,↓reduceIte,hloop σ callback hzero,hcount,Nat.zero_add,
    ne_eq,not_true_eq_false,decide_false]

end Receive

/-- The asker is handed exactly these records, in this order, unless it waits for another id. -/
def RecordsHeard (bytes : Bytes) (onlyQueryId : Int) (records : List (MdnsEntryType × RecordSaid)) :
    Prop :=
  ∀ (sock : Int) (src : Sockaddr) (capacity : Nat) (buffer : Mem), bytes.length ≤ capacity →
    ∃ entries, List.Forall₂ (HeardRecord (buffer.write 0 bytes) ((messageMem bytes).be16 0)) entries
        records ∧
      ∀ (σ : Type) (callback : Mem → MdnsEntry → σ → Int × σ) (state : σ),
        (∀ data e state, (callback data e state).1 = 0) →
          mdnsQueryRecv callback sock capacity buffer (some (src,bytes)) onlyQueryId state =
            (buffer.write 0 bytes,records.length,
              entries.foldl (fun state e => (callback (buffer.write 0 bytes) e state).2) state)

theorem recordsHeard_of_saids {bytes : Bytes} {records : List (MdnsEntryType × RecordSaid)}
    (h : decodeSaids bytes = some records) {onlyQueryId : Int}
    (honly : onlyQueryId ≤ 0 ∨ onlyQueryId = ((messageMem bytes).be16 0).toNat) :
    RecordsHeard bytes onlyQueryId records := by
  intro sock src capacity buffer hcap
  have hagree : AgreeBelow bytes.length (messageMem bytes) (buffer.write 0 bytes) :=
    agreeBelow_write_same (fun _ => 0) buffer bytes
  have hskip := mdnsSkipQuestions_congr hagree
  have hsaid := funext (decodeSaid_congr hagree)
  simp only [decodeSaids,hskip,hsaid] at h
  split at h
  · contradiction
  · rename_i hsize
    have hid := hagree.be16 (show 0 + 2 ≤ bytes.length by omega)
    rw [hagree.be16 (show 4 + 2 ≤ bytes.length by omega),
      hagree.be16 (show 6 + 2 ≤ bytes.length by omega),
      hagree.be16 (show 8 + 2 ≤ bytes.length by omega),
      hagree.be16 (show 10 + 2 ≤ bytes.length by omega)] at h
    rw [hid] at honly
    generalize hdata : buffer.write 0 bytes = data at *
    obtain ⟨p,hquestions,h⟩ := Option.bind_eq_some_iff.mp h
    obtain ⟨⟨answers,p₁⟩,hanswers,h⟩ := Option.bind_eq_some_iff.mp h
    obtain ⟨⟨authority,p₂⟩,hauthority,h⟩ := Option.bind_eq_some_iff.mp h
    obtain ⟨⟨additional,p₃⟩,hadditional,rfl⟩ := Option.map_eq_some_iff.mp h
    obtain ⟨es₁,hes₁,hloop₁⟩ := mdnsSection_hears sock src (data.be16 0) .answer hanswers
    obtain ⟨es₂,hes₂,hloop₂⟩ := mdnsSection_hears sock src (data.be16 0) .authority hauthority
    obtain ⟨es₃,hes₃,hloop₃⟩ := mdnsSection_hears sock src (data.be16 0) .additional hadditional
    rw [hid]
    refine ⟨es₁ ++ es₂ ++ es₃,List.rel_append (List.rel_append hes₁ hes₂) hes₃,
      fun σ callback state hzero => ?_⟩
    have hnone : ¬ bytes.length = 0 := by omega
    have hmine : ¬ (0 < onlyQueryId ∧ ((data.be16 0).toNat : Int) ≠ onlyQueryId) := by omega
    simp only [mdnsQueryRecv,List.take_of_length_le hcap,hnone,↓reduceIte,hdata,hmine,hquestions,
      hloop₁ σ callback hzero,hloop₂ σ callback hzero,hloop₃ σ callback hzero]
    simp [Nat.add_assoc]

/-- A message that says these records, each of the class of the network and for some time. -/
structure Speaks (saids : List (MdnsEntryType × RecordSaid)) (answer : MdnsRecord)
    (additional : List MdnsRecord) : Prop where
  meanings : saids.map (fun s => (s.1,s.2.meaning)) =
    (.answer,answer.meaning) :: additional.map fun r => (.additional,r.meaning)
  lasting : ∀ s ∈ saids, s.2.rclass = mdnsClassIn ∧ s.2.ttl ≠ 0

theorem sections_speaks {answer answer' : MdnsRecord} {additional additional' : List MdnsRecord}
    (hmeans : (answer' :: additional').map MdnsRecord.meaning =
      (answer :: additional).map MdnsRecord.meaning)
    (hlasting : ∀ r ∈ answer' :: additional', r.rclass = mdnsClassIn ∧ r.ttl ≠ 0) :
    Speaks (sections answer' additional') answer additional := by
  obtain ⟨hanswer,hadditional⟩ := List.cons.inj hmeans
  constructor
  · have hmap := congrArg (List.map (Prod.mk MdnsEntryType.additional)) hadditional
    simp only [List.map_map,Function.comp_def] at hmap
    simp only [sections,List.map_cons,List.map_map,Function.comp_def,MdnsRecord.said,hanswer,hmap]
  · intro s hs
    rcases List.mem_cons.mp hs with rfl | hs
    · exact hlasting answer' List.mem_cons_self
    · obtain ⟨r,hr,rfl⟩ := List.mem_map.mp hs
      exact hlasting r (List.mem_cons_of_mem _ hr)

theorem queriesBytes_singleton (rclass : UInt16) (q : MdnsQuery) :
    queriesBytes rclass [q] = q.bytes rclass := by
  simp [queriesBytes]

theorem LegalName.length_le_plain {name : Bytes} (h : LegalName name) :
    (plainName name).length ≤ 257 := by
  have hle := h.length_le
  unfold nameCapacity at hle
  rw [plainName,List.length_append,length_labelsBytes,List.length_singleton]
  omega

theorem respond_query (service : AdvertiseService) {q : MdnsQuery} (hname : LegalName q.name)
    (queryId : UInt16) {rclass : UInt16} (hclass : mdnsClassAccepted rclass = true) {query : Bytes}
    (hquery : query = (queryHeader queryId [q]).bytes ++ queriesBytes rclass [q]) (sock : Int)
    (src : Sockaddr) (state : ResponderState) :
    let e : MdnsEntry := ⟨sock,src,.question,queryId,q.type.code,rclass,0,query.length,12,
      (plainName q.name).length,12,(plainName q.name).length⟩
    ∃ data, questionName data e = dotted (nameLabels q.name) ∧
      (advertiseRespondRequest service sock (some (src,query)) state).sent =
        (serviceCallback service data e state).2.sent := by
  intro e
  have hlen : query.length ≤ advertiseBufferCapacity := by
    have hmax := hname.length_le_plain
    have hcap : advertiseBufferCapacity = 2048 := rfl
    rw [hquery,List.length_append,MdnsHeader.length_bytes,queriesBytes_singleton,q.length_bytes]
    omega
  have hnames : ∀ k ∈ [q], LegalName k.name := by simpa using hname
  obtain ⟨hasked,hlisten⟩ := query_listened (by simp : [q].length < 0x10000) hnames queryId hclass
    hquery sock src state.buffer hlen
  obtain ⟨hasked,-⟩ := List.forall₂_cons.mp hasked
  have hstate := hlisten _ (serviceCallback service) state serviceCallback_zero
  refine ⟨state.buffer.write 0 query,?_,by rw [advertiseRespondRequest,hstate]; rfl⟩
  have hextract : mdnsStringExtract (state.buffer.write 0 query) e.size e.nameOffset 256 = _ :=
    hasked.name
  rw [questionName,hextract]
  rfl

theorem ServiceOf.answers_query {hostname : HostName} {service : AdvertiseService}
    (h : ServiceOf hostname service) (hw : hostname.WellFormed) (hapart : NamesApart service)
    {q : MdnsQuery} (hname : LegalName q.name) {answer : MdnsRecord} {additional : List MdnsRecord}
    (ha : serviceAnswer service (dotted (nameLabels q.name)) q.type.code = some (answer,additional))
    (queryId : UInt16) {rclass : UInt16} (hclass : mdnsClassAccepted rclass = true) {query : Bytes}
    (hquery : query = (queryHeader queryId [q]).bytes ++ queriesBytes rclass [q]) (sock : Int)
    (src : Sockaddr) (state : ResponderState) :
    ∃ d saids, (advertiseRespondRequest service sock (some (src,query)) state).sent =
        state.sent ++ [d] ∧
      d.sock = sock ∧ d.dest = (if rclass &&& mdnsUnicastResponse ≠ 0 then some src else none) ∧
      Speaks saids answer additional ∧
      RecordsHeard d.bytes (if rclass &&& mdnsUnicastResponse ≠ 0 then queryId.toNat else 0) saids := by
  let e : MdnsEntry := ⟨sock,src,.question,queryId,q.type.code,rclass,0,query.length,12,
    (plainName q.name).length,12,(plainName q.name).length⟩
  obtain ⟨data,hq,hrespond⟩ : ∃ data, questionName data e = dotted (nameLabels q.name) ∧
      (advertiseRespondRequest service sock (some (src,query)) state).sent =
        (serviceCallback service data e state).2.sent :=
    respond_query service hname queryId hclass hquery sock src state
  obtain ⟨text,answer',additional',-,hsaid,hmeans,hlasting,hsent⟩ := h.answer_saids hw hapart (e := e) ha
  obtain ⟨bytes,hsent',hmin,-,hhead⟩ := h.answerMessage_sent (e := e) ha state.sendBuffer
  obtain rfl : text = bytes :=
    congrArg Sent.bytes (List.cons.inj ((hsent state.sendBuffer).symm.trans hsent')).1
  have hid : (messageMem text).be16 0 = (answerHeader e additional).queryId := by
    refine (MdnsHeader.read_ids ?_).1
    rw [messageMem_read (by omega),List.drop_zero]
    exact hhead
  have hcallback := congrArg (fun r => r.2.sent)
    (serviceCallback_of_some (e := e) state rfl (by rw [hq]; exact ha))
  simp only [hq,hsent] at hcallback
  refine ⟨⟨sock,(answerMessage (dotted (nameLabels q.name)) e state.sendBuffer answer additional).2,
    text⟩,sections answer' additional',hrespond.trans hcallback,rfl,answerMessage_dest _ e _ _ _,
      sections_speaks hmeans hlasting,?_⟩
  have honly : (if rclass &&& mdnsUnicastResponse ≠ 0 then (queryId.toNat : Int) else 0) ≤ 0 ∨
      (if rclass &&& mdnsUnicastResponse ≠ 0 then (queryId.toNat : Int) else 0) =
        ((messageMem text).be16 0).toNat := by
    rw [hid,answerHeader]
    split
    · exact Or.inr rfl
    · exact Or.inl (Int.le_refl 0)
  exact recordsHeard_of_saids hsaid honly

theorem ServiceOf.found {hostname : HostName} {service : AdvertiseService}
    (h : ServiceOf hostname service) (hw : hostname.WellFormed) (hapart : NamesApart service)
    {q : MdnsQuery} (hname : LegalName q.name) {answer : MdnsRecord} {additional : List MdnsRecord}
    (ha : serviceAnswer service (dotted (nameLabels q.name)) q.type.code = some (answer,additional))
    (addr : Sockaddr) (asking answering : Int) (client : Sockaddr) (buffer : Mem) {capacity : Nat}
    (hcap : 16 + (plainName q.name).length ≤ capacity) (queryId : UInt16) (state : ResponderState) :
    let asked := mdnsQuerySend (some addr) (some addr) true asking q.type q.name buffer capacity
      queryId
    let unicast := mdnsQueryClass (some addr) &&& mdnsUnicastResponse ≠ 0
    asked.1 = queryId.toNat ∧ ∃ query d saids, asked.2.2 = [⟨asking,none,query⟩] ∧
      (advertiseRespondRequest service answering (some (client,query)) state).sent =
        state.sent ++ [d] ∧
      d.sock = answering ∧ d.dest = (if unicast then some client else none) ∧
      Speaks saids answer additional ∧
      RecordsHeard d.bytes (if unicast then queryId.toNat else 0) saids := by
  intro asked unicast
  have hnames : ∀ k ∈ [q], LegalName k.name := by simpa using hname
  obtain ⟨-,hsent⟩ := mdnsMultiquerySend_text (List.cons_ne_nil q []) hnames (some addr) (some addr)
    true asking buffer capacity queryId
  rw [if_pos ⟨by rw [queriesBytes_singleton,q.length_bytes]; omega,rfl⟩] at hsent
  obtain ⟨hres,hsent⟩ := hsent
  obtain ⟨d,saids,hd⟩ := h.answers_query hw hapart hname ha queryId
    (mdnsQueryClass_accepted (some addr)) rfl answering client state
  exact ⟨hres,_,d,saids,hsent,hd⟩

/-- Discovery from end to end: whatever the service has an answer to, asking for it brings one
datagram, to the asker if the query wants that, and of it the asker is handed the records that
the service means, in order and with their data, as records that hold for some time. -/
theorem service_found {env : AdvertiseEnv} {port : UInt16} {service : AdvertiseService}
    {hostname : HostName} (hhost : env.gethostname = some hostname) (hw : hostname.WellFormed)
    (hservice : advertiseCreateService env port = some service) (hapart : NamesApart service)
    {q : MdnsQuery} (hname : LegalName q.name) {answer : MdnsRecord} {additional : List MdnsRecord}
    (ha : serviceAnswer service (dotted (nameLabels q.name)) q.type.code = some (answer,additional))
    (addr : Sockaddr) (asking answering : Int) (client : Sockaddr) (buffer : Mem) {capacity : Nat}
    (hcap : 16 + (plainName q.name).length ≤ capacity) (queryId : UInt16) (state : ResponderState) :
    let asked := mdnsQuerySend (some addr) (some addr) true asking q.type q.name buffer capacity
      queryId
    let unicast := mdnsQueryClass (some addr) &&& mdnsUnicastResponse ≠ 0
    asked.1 = queryId.toNat ∧ ∃ query d saids, asked.2.2 = [⟨asking,none,query⟩] ∧
      (advertiseRespondRequest service answering (some (client,query)) state).sent =
        state.sent ++ [d] ∧
      d.sock = answering ∧ d.dest = (if unicast then some client else none) ∧
      Speaks saids answer additional ∧
      RecordsHeard d.bytes (if unicast then queryId.toNat else 0) saids := by
  intro asked unicast
  obtain ⟨hostname',hhost',hof⟩ := advertiseCreateService_serviceOf hservice
  rw [hhost] at hhost'
  obtain rfl := Option.some.inj hhost'
  exact hof.found hw hapart hname ha addr asking answering client buffer hcap queryId state

theorem service_found_hostA :
    let service := oneInterfaceService hostA 7777
    let client : Sockaddr := .inet ⟨AF_INET,50000,Vector.replicate 4 10⟩ rfl
    ∃ query d saids, (mdnsQuerySend (some client) (some client) true 4 .ptr SERVICE_NAME (fun _ => 0)
      64 9).2.2 =
        [⟨4,none,query⟩] ∧
      (advertiseRespondRequest service 3 (some (client,query)) ⟨fun _ => 0,fun _ => 0,[]⟩).sent =
        [d] ∧
      d.dest = some client ∧ RecordsHeard d.bytes 9 saids ∧
      saids.map (fun s => (s.1,s.2.meaning)) =
        [(.answer,⟨SERVICE_NAME,12,.ptr (ascii "a._wlr-remote._udp.local.")⟩),
          (.additional,⟨ascii "a._wlr-remote._udp.local.",33,.srv ⟨0,0,7777,ascii "a.local."⟩⟩),
          (.additional,⟨ascii "a.local.",1,.a [10,0,0,2]⟩),
          (.additional,⟨ascii "a._wlr-remote._udp.local.",16,.other⟩)] := by
  intro service client
  have hname : LegalName SERVICE_NAME := by constructor <;> decide +kernel
  have ha : serviceAnswer service (dotted (nameLabels SERVICE_NAME)) MdnsRecordType.ptr.code =
      some (service.recordPtr,buildAdditional service .ptr) := by decide +kernel
  obtain ⟨-,query,d,saids,hsent,hanswer,-,hdest,hspeaks,hheard⟩ := service_found rfl (by decide)
    (advertiseCreateService_oneInterface hostA 7777) (by decide +kernel) (q := ⟨.ptr,SERVICE_NAME⟩)
    hname ha client 4 3 client (fun _ => 0) (by decide : _ ≤ 64) 9 ⟨fun _ => 0,fun _ => 0,[]⟩
  have hunicast : mdnsQueryClass (some client) &&& mdnsUnicastResponse ≠ 0 := by decide
  rw [if_pos hunicast] at hdest hheard
  exact ⟨query,d,saids,hsent,hanswer,hdest,hheard,hspeaks.meanings⟩

end WlrRemote
