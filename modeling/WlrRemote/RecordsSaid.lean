import WlrRemote.MessageRoundTrip
import WlrRemote.QueryRoundTrip

set_option autoImplicit false

namespace WlrRemote
open Octets SuffixTable

structure RecordSaid where
  meaning : RecordMeaning
  rclass : UInt16
  ttl : UInt32
  deriving DecidableEq, Repr

def MdnsRecord.said (r : MdnsRecord) : RecordSaid := ⟨r.meaning,r.rclass,r.ttl⟩

def decodeSaid (m : Mem) (size p : Nat) : Option (RecordSaid × Nat) :=
  (mdnsStringExtract m size p nameCapacity).bind fun name =>
    (decodeRecord m size p).map fun r => (⟨r.1,m.be16 (name.2 + 2),m.be32 (name.2 + 4)⟩,r.2)

def decodeSaids (bytes : Bytes) : Option (List (MdnsEntryType × RecordSaid)) :=
  let m := messageMem bytes
  let size := bytes.length
  if size < 12 then none
  else
    (mdnsSkipQuestions m size (m.be16 4).toNat 12).bind fun p =>
      (decodeMany (decodeSaid m size) (m.be16 6).toNat p).bind fun answers =>
        (decodeMany (decodeSaid m size) (m.be16 8).toNat answers.2).bind fun authority =>
          (decodeMany (decodeSaid m size) (m.be16 10).toNat authority.2).map fun additional =>
            answers.1.map (Prod.mk .answer) ++ authority.1.map (Prod.mk .authority) ++
              additional.1.map (Prod.mk .additional)

def sections (answer : MdnsRecord) (additional : List MdnsRecord) :
    List (MdnsEntryType × RecordSaid) :=
  (.answer,answer.said) :: additional.map fun r => (.additional,r.said)

section Reading

variable {m : Mem} {size : Nat} {st st' : NameState} {names : List Bytes}

theorem Laid.decodeSaid (h : Laid m st) {r : MdnsRecord} (hr : r.Sound)
    (hf : Faithful st.nodes (recordNames r ++ names)) {image : RecordImage}
    (henc : st.encodeRecord r = some (image,st'))
    (hread : m.read st.pos image.bytes.length = image.bytes) (hpos : st'.pos ≤ 0x4000)
    (hsize : st'.pos ≤ size) :
    Laid m st' ∧ WlrRemote.decodeSaid m size st.pos = some (r.said,st'.pos) := by
  obtain ⟨hlaid',hrecord⟩ : Laid m st' ∧ WlrRemote.decodeRecord m size st.pos =
    some (r.meaning,st'.pos) := h.decodeRecord hr hf henc hread hpos hsize
  obtain ⟨owner,data,st₁,hn,hd,rfl⟩ := NameState.encodeRecord_cases henc
  have hp := NameState.encodeName_pos hn
  have hp' := NameState.encodeData_pos hd
  simp only [NameState.skip] at hp'
  obtain ⟨hnameRead,hfields,-,-⟩ := RecordImage.read_parts hread
  obtain ⟨-,hname⟩ : Laid m st₁ ∧ mdnsStringExtract m size st.pos nameCapacity =
      some (r.name,st₁.pos) := h.decodeName hr.1 hf hn hnameRead (by omega) (by omega)
  simp only [← hp] at hfields
  rw [RecordImage.fields,Mem.read_add m st₁.pos 4 4] at hfields
  obtain ⟨hkind,httl⟩ := List.append_inj hfields (by simp)
  rw [Mem.read_add m st₁.pos 2 2] at hkind
  have hclass : m.be16 (st₁.pos + 2) = r.rclass :=
    Mem.be16_of_read (List.append_inj hkind (by simp)).2
  have hclock : m.be32 (st₁.pos + 4) = r.ttl := by rw [Mem.be32,httl,ofBe32_be32]
  refine ⟨hlaid',?_⟩
  rw [WlrRemote.decodeSaid,hname,hrecord]
  simp only [Option.bind_some,Option.map_some,hclass,hclock]
  rfl

theorem Laid.decodeSaids (h : Laid m st) {rs : List MdnsRecord} (hrs : ∀ r ∈ rs, r.Sound)
    (hf : Faithful st.nodes (rs.flatMap recordNames)) {images : List RecordImage}
    (henc : st.encodeRecords rs = some (images,st'))
    (hread : m.read st.pos (imagesBytes images).length = imagesBytes images)
    (hpos : st'.pos ≤ 0x4000) (hsize : st'.pos ≤ size) :
    decodeMany (WlrRemote.decodeSaid m size) rs.length st.pos =
      some (rs.map MdnsRecord.said,st'.pos) := by
  induction rs generalizing st images with
  | nil =>
    obtain ⟨rfl,rfl⟩ := Prod.mk.inj (Option.some.inj henc)
    rfl
  | cons r rs ih =>
    obtain ⟨image,st₁,rest,hr,hrest,rfl⟩ := NameState.encodeRecords_cons henc
    have hp := NameState.encodeRecord_pos hr
    have hp' := NameState.encodeRecords_pos hrest
    have hsound := hrs r List.mem_cons_self
    obtain ⟨image',st₂,hr',hfrest⟩ := Faithful.encodeRecord hf hsound
    rw [hr] at hr'
    obtain ⟨rfl,rfl⟩ := Prod.mk.inj (Option.some.inj hr')
    rw [imagesBytes_cons,List.length_append,Mem.read_add] at hread
    obtain ⟨himage,himages⟩ := List.append_inj hread (by simp)
    rw [← hp] at himages
    obtain ⟨hlaid,hfirst⟩ : Laid m st₁ ∧ WlrRemote.decodeSaid m size st.pos =
      some (r.said,st₁.pos) := h.decodeSaid hsound hf hr himage (by omega) (by omega)
    have hmany := ih hlaid (fun k hk => hrs k (List.mem_cons_of_mem r hk)) hfrest hrest himages
    simp [decodeMany,hfirst,hmany]

theorem mdnsSkipQuestions_of_decode {n p stop : Nat} {qs : List QuestionMeaning}
    (h : decodeMany (decodeQuestion m size) n p = some (qs,stop)) :
    mdnsSkipQuestions m size n p = some stop := by
  induction n generalizing p qs with
  | zero =>
    obtain ⟨rfl,rfl⟩ := Prod.mk.inj (Option.some.inj h)
    rfl
  | succ n ih =>
    rw [decodeMany] at h
    obtain ⟨⟨q,p'⟩,hquestion,h⟩ := Option.bind_eq_some_iff.mp h
    obtain ⟨⟨rest,stop'⟩,hrest,heq⟩ := Option.map_eq_some_iff.mp h
    obtain ⟨rfl,rfl⟩ := Prod.mk.inj heq
    rw [decodeQuestion] at hquestion
    obtain ⟨name,hname,hquestion⟩ := Option.bind_eq_some_iff.mp hquestion
    split at hquestion
    · obtain ⟨rfl,rfl⟩ := Prod.mk.inj (Option.some.inj hquestion)
      rw [mdnsSkipQuestions,mdnsStringSkip_of_extract hname]
      exact ih hrest
    · contradiction

end Reading

theorem decodeSaids_eq {bytes : Bytes} {header : MdnsHeader} (hsize : 12 ≤ bytes.length)
    (hheader : (messageMem bytes).read 0 12 = header.bytes) {st st' : NameState}
    (hquestions : mdnsSkipQuestions (messageMem bytes) bytes.length header.questions.toNat 12 =
      some st.pos)
    (hlaid : Laid (messageMem bytes) st) {answer : MdnsRecord} {additional : List MdnsRecord}
    (hcounts : header.answerRrs = 1 ∧ header.authorityRrs = 0 ∧
      header.additionalRrs.toNat = additional.length)
    (hsound : ∀ r ∈ answer :: additional, r.Sound)
    (hf : Faithful st.nodes ((answer :: additional).flatMap recordNames))
    {images : List RecordImage} (henc : st.encodeRecords (answer :: additional) = some (images,st'))
    (hread : (messageMem bytes).read st.pos (imagesBytes images).length = imagesBytes images)
    (hpos : st'.pos ≤ 0x4000) (hend : st'.pos ≤ bytes.length) :
    decodeSaids bytes = some (sections answer additional) := by
  obtain ⟨hanswer,hauthority,hadditional⟩ := hcounts
  obtain ⟨hqcount,hacount,hucount,hdcount⟩ := MdnsHeader.read_counts hheader
  have hone : (1 : UInt16).toNat = 1 := rfl
  have hzero : (0 : UInt16).toNat = 0 := rfl
  have hlt : ¬ bytes.length < 12 := by omega
  have hmany := hlaid.decodeSaids hsound hf henc hread hpos hend
  simp only [List.length_cons,decodeMany,List.map_cons] at hmany
  obtain ⟨⟨first,p⟩,hfirst,hmany⟩ := Option.bind_eq_some_iff.mp hmany
  obtain ⟨⟨rest,q⟩,hrest,he⟩ := Option.map_eq_some_iff.mp hmany
  obtain ⟨hrecords,rfl⟩ := Prod.mk.inj he
  obtain ⟨rfl,rfl⟩ := List.cons.inj hrecords
  unfold decodeSaids
  simp only [hlt,↓reduceIte,hqcount,hacount,hucount,hdcount,hquestions,hanswer,hauthority,
    hadditional,hone,hzero,decodeMany,Option.bind_some,hfirst,hrest,Option.map_some]
  simp [sections]

section Messages

variable {header : MdnsHeader} {answer : MdnsRecord} {additional : List MdnsRecord}
  {images : List RecordImage} {st : NameState}

theorem decodeSaids_multicast (hcounts : header.questions = 0 ∧ header.answerRrs = 1 ∧
      header.authorityRrs = 0 ∧ header.additionalRrs.toNat = additional.length)
    (hsound : ∀ r ∈ answer :: additional, r.Sound)
    (hf : Faithful [] ((answer :: additional).flatMap recordNames))
    (henc : NameState.start.encodeRecords (answer :: additional) = some (images,st))
    (hpos : st.pos ≤ 0x4000) :
    decodeSaids (header.bytes ++ imagesBytes images) = some (sections answer additional) := by
  have hend := NameState.encodeRecords_pos henc
  have hlen : (header.bytes ++ imagesBytes images).length = st.pos := by
    rw [List.length_append,MdnsHeader.length_bytes,hend]
    rfl
  have hstart : NameState.start.pos = 12 := rfl
  refine decodeSaids_eq (by omega) (messageMem_header header _) ?_ (.start _) hcounts.2 hsound hf henc
    ?_ hpos (by omega)
  · rw [hcounts.1]
    rfl
  · rw [messageMem_read (by omega),hstart,List.drop_left' header.length_bytes,List.take_length]

theorem decodeSaids_unicast (hcounts : header.questions = 1 ∧ header.answerRrs = 1 ∧
      header.authorityRrs = 0 ∧ header.additionalRrs.toNat = additional.length)
    (hsound : ∀ r ∈ answer :: additional, r.Sound) {name : Bytes} (hname : Readable name)
    (hf : Faithful [] (name :: (answer :: additional).flatMap recordNames)) {question : Bytes}
    {st₀ : NameState} (hquestion : NameState.start.encodeName name = some (question,st₀))
    (henc : (st₀.skip 4).encodeRecords (answer :: additional) = some (images,st))
    (hpos : st.pos ≤ 0x4000) (recordType : UInt16) :
    decodeSaids (header.bytes ++ (question ++ questionFields recordType ++ imagesBytes images)) =
      some (sections answer additional) := by
  have hend := NameState.encodeRecords_pos henc
  have hp₀ := NameState.encodeName_pos hquestion
  have hskip : (st₀.skip 4).pos = st₀.pos + 4 := rfl
  have hstart : NameState.start.pos = 12 := rfl
  have hfields : (questionFields recordType).length = 4 := rfl
  have hhead := header.length_bytes
  generalize hbytes : header.bytes ++ (question ++ questionFields recordType ++ imagesBytes images) =
    bytes
  have hlen : bytes.length = st.pos := by
    rw [← hbytes]
    simp only [List.length_append]
    omega
  have hquestionAt : (messageMem bytes).read 12 (question.length + 4) =
      question ++ questionFields recordType := by
    rw [messageMem_read (by omega),← hbytes,List.drop_left' hhead]
    exact List.take_left' (by rw [List.length_append,hfields])
  have himagesAt : (messageMem bytes).read (st₀.skip 4).pos (imagesBytes images).length =
      imagesBytes images := by
    rw [messageMem_read (by omega),← hbytes,← List.append_assoc,List.drop_left',List.take_length]
    simp only [List.length_append]
    omega
  have hstartFaithful : Faithful NameState.start.nodes
    (name :: (answer :: additional).flatMap recordNames) := hf
  obtain ⟨hlaid,hasked⟩ : Laid (messageMem bytes) (st₀.skip 4) ∧
      decodeQuestion (messageMem bytes) bytes.length NameState.start.pos = some (_,(st₀.skip 4).pos) :=
    (Laid.start _).decodeQuestion hname hstartFaithful hquestion hquestionAt (by omega) (by omega)
  obtain ⟨question',st₁,hquestion',hrest,-⟩ := hstartFaithful.encodeName hname
  rw [hquestion] at hquestion'
  obtain ⟨rfl,rfl⟩ := Prod.mk.inj (Option.some.inj hquestion')
  have hread : (messageMem bytes).read 0 12 = header.bytes := by
    rw [← hbytes]
    exact messageMem_header header _
  have hmany : decodeMany (decodeQuestion (messageMem bytes) bytes.length) 1 12 =
      some ([⟨name,recordType,mdnsUnicastResponse ||| mdnsClassIn⟩],(st₀.skip 4).pos) := by
    rw [hstart] at hasked
    simp [decodeMany,hasked]
  refine decodeSaids_eq (by omega) hread ?_ hlaid hcounts.2 hsound hrest henc himagesAt hpos (by omega)
  rw [hcounts.1]
  exact mdnsSkipQuestions_of_decode hmany

end Messages

/-- What is in the buffer when a message has been composed is what goes out. -/
theorem MdnsWriter.sent_text {w : MdnsWriter} {buffer : Mem} {text : Bytes} {size : Nat}
    (hdata : w.data = some size) (hbuf : w.buffer = buffer.write 0 text) (hsize : size = text.length)
    (sock : Int) (dest : Option Sockaddr) : w.sent sock dest = [⟨sock,dest,text⟩] := by
  rw [sent,hdata,hbuf,hsize]
  simp only [Mem.read_write]

section Writers

variable {capacity : Nat} {answer : MdnsRecord} {additional : List MdnsRecord}

/-- Whatever the buffer holds, one and the same text is sent, and it says the records. -/
theorem mdnsAnswerMulticastRclassTtl_saids (rclass : UInt16) (ttl : UInt32)
    (hcap : capacity ≤ 0x3FFF) (hanswer : answer.type ≠ .txt) (hadditional : TxtLast additional)
    (hcount : additional.length < 0x10000) (hsound : ∀ r ∈ answer :: additional, r.Sound)
    (hroom : 48 + recordRoom answer + recordsRoom additional ≤ capacity)
    (hf : Faithful [] ((answer :: additional).flatMap recordNames)) :
    let update := fun r => mdnsRecordUpdateRclassTtl r rclass ttl
    ∃ text, text.length ≤ capacity ∧
      decodeSaids text = some (sections (update answer) (additional.map update)) ∧
      ∀ buffer sock dest, (mdnsAnswerMulticastRclassTtl buffer capacity answer [] additional rclass
        ttl).sent sock dest = [⟨sock,dest,text⟩] := by
  intro update
  have hupdate : ∀ r, update r = _ := mdnsRecordUpdateRclassTtl_eq rclass ttl
  have hsound' := sound_map hupdate hsound
  have hf' := hf
  rw [← recordNames_map hupdate] at hf'
  have hstart : Faithful NameState.start.nodes _ := hf'
  obtain ⟨images,st,henc⟩ := hstart.encodeRecords hsound'
  have hwritten (buffer : Mem) : (mdnsAnswerMulticastRclassTtl buffer capacity answer [] additional
      rclass ttl).data = some st.pos ∧ (mdnsAnswerMulticastRclassTtl buffer capacity answer []
        additional rclass ttl).buffer =
          buffer.write 0 ((multicastHeader additional).bytes ++ imagesBytes images) :=
    mdnsAnswerMulticastRclassTtl_text hcap hanswer hadditional (fun r hr => (hsound r hr).short) hroom
      henc
  obtain ⟨size,hsize,-,hle,-⟩ : Extends _ 12 (recordRoom answer + recordsRoom additional)
      (mdnsAnswerMulticastRclassTtl (fun _ => 0) capacity answer [] additional rclass ttl) :=
    mdnsAnswerMulticastRclassTtl_extends rclass ttl hcap hanswer hroom
  obtain rfl := Option.some.inj ((hwritten _).1.symm.trans hsize)
  have hpos := NameState.encodeRecords_pos henc
  have hlen : st.pos = ((multicastHeader additional).bytes ++ imagesBytes images).length := by
    rw [List.length_append,MdnsHeader.length_bytes,hpos]
    rfl
  have hcounts : (mdnsAnswerGetRecordCount additional).toNat = (additional.map update).length := by
    rw [hadditional.recordCount hcount,List.length_map]
  exact ⟨_,by omega,decodeSaids_multicast ⟨rfl,rfl,rfl,hcounts⟩ hsound' hf' henc (by omega),
    fun buffer => MdnsWriter.sent_text (hwritten buffer).1 (hwritten buffer).2 hlen⟩

theorem mdnsQueryAnswerUnicast_saids (queryId recordType : UInt16) {name : Bytes}
    (hcap : capacity ≤ 0x3FFF) (hname : Readable name) (hanswer : answer.type ≠ .txt)
    (hadditional : TxtLast additional) (hcount : additional.length < 0x10000)
    (hclass : ∀ r ∈ additional, r.rclass = mdnsClassIn)
    (hsound : ∀ r ∈ answer :: additional, r.Sound)
    (hroom : 48 + (name.length + 6) + recordRoom answer + recordsRoom additional ≤ capacity)
    (hf : Faithful [] (name :: (answer :: additional).flatMap recordNames)) :
    ∃ text, text.length ≤ capacity ∧
      decodeSaids text = some (sections { answer with rclass := mdnsClassIn, ttl := 10 }
        (additional.map unicastUpdate)) ∧
      ∀ buffer sock dest, (mdnsQueryAnswerUnicast buffer capacity queryId recordType name answer []
        additional).sent sock dest = [⟨sock,dest,text⟩] := by
  have hsound' : ∀ r ∈ unicastRecords answer additional, r.Sound := by
    intro r hr
    obtain ⟨k,hk,hkname,hkdata⟩ := mem_unicastRecords hr
    unfold MdnsRecord.Sound
    rw [hkname,hkdata]
    exact hsound k hk
  have hf' : Faithful [] (name :: (unicastRecords answer additional).flatMap recordNames) := by
    rw [unicastRecords_eq,List.flatMap_cons,recordNames_map unicastUpdate_eq]
    exact hf
  have hstart : Faithful NameState.start.nodes _ := hf'
  obtain ⟨question,st₀,hquestion,hrest,-⟩ := hstart.encodeName hname
  have hskip : Faithful (st₀.skip 4).nodes _ := hrest
  obtain ⟨images,st,henc⟩ := hskip.encodeRecords hsound'
  have hle := hname.length_le
  have hwritten (buffer : Mem) : (mdnsQueryAnswerUnicast buffer capacity queryId recordType name
      answer [] additional).data = some st.pos ∧ (mdnsQueryAnswerUnicast buffer capacity queryId
        recordType name answer [] additional).buffer =
          buffer.write 0 ((unicastHeader queryId additional).bytes ++
            (question ++ questionFields recordType ++ imagesBytes images)) :=
    mdnsQueryAnswerUnicast_text queryId recordType hcap (by omega) hanswer hadditional hclass
      (fun r hr => (hsound r hr).short) hroom hquestion henc
  obtain ⟨size,hsize,-,hend,-⟩ : Extends _ 12 (name.length + 6 + (recordRoom answer +
      recordsRoom additional)) (mdnsQueryAnswerUnicast (fun _ => 0) capacity queryId recordType name
        answer [] additional) :=
    mdnsQueryAnswerUnicast_extends queryId recordType name hcap hanswer hroom
  obtain rfl := Option.some.inj ((hwritten _).1.symm.trans hsize)
  have hpos := NameState.encodeRecords_pos henc
  have hpos₀ := NameState.encodeName_pos hquestion
  have hlen : st.pos = ((unicastHeader queryId additional).bytes ++
      (question ++ questionFields recordType ++ imagesBytes images)).length := by
    have hfour : (questionFields recordType).length = 4 := rfl
    simp only [List.length_append,MdnsHeader.length_bytes,hpos,NameState.skip,hpos₀,hfour]
    simp only [NameState.start]
    omega
  have hcounts : (mdnsAnswerGetRecordCount additional).toNat =
      (additional.map unicastUpdate).length := by
    rw [hadditional.recordCount hcount,List.length_map]
  exact ⟨_,by omega,decodeSaids_unicast ⟨rfl,rfl,rfl,hcounts⟩ hsound' hname hf' hquestion henc (by omega)
    recordType,fun buffer => MdnsWriter.sent_text (hwritten buffer).1 (hwritten buffer).2 hlen⟩

end Writers

theorem unicastUpdate_ttl (r : MdnsRecord) : (unicastUpdate r).ttl ≠ 0 := by
  unfold unicastUpdate
  by_cases hr : r.ttl = 0 <;> simp [hr]

theorem update_answer {r : MdnsRecord} (h : r.rclass = 0 ∨ r.rclass = mdnsClassIn) :
    (mdnsRecordUpdateRclassTtl r mdnsClassIn 60).rclass = mdnsClassIn ∧
      (mdnsRecordUpdateRclassTtl r mdnsClassIn 60).ttl ≠ 0 := by
  have hset : (if r.rclass = 0 then mdnsClassIn else r.rclass) = mdnsClassIn := by
    rcases h with h | h <;> simp [h]
  have hmask : mdnsClassIn &&& (mdnsClassIn ||| mdnsCacheFlush) = mdnsClassIn := by decide
  have hflush : mdnsClassIn &&& ~~~mdnsCacheFlush = mdnsClassIn := by decide
  simp only [mdnsRecordUpdateRclassTtl,hset,hmask,hflush,ite_self,true_and]
  by_cases hr : r.ttl = 0 <;> simp [hr]

theorem ServiceOf.answer_class {hostname : HostName} {service : AdvertiseService}
    (h : ServiceOf hostname service) {name : Bytes} {rtype : UInt16} {answer : MdnsRecord}
    {additional : List MdnsRecord} (ha : serviceAnswer service name rtype = some (answer,additional)) :
    answer.rclass = 0 ∨ answer.rclass = mdnsClassIn := by
  rcases h.serviceAnswer_cases ha with ⟨-,-,rfl,-⟩ | ⟨-,-,rfl,-⟩ | ⟨-,-,rfl,-⟩ | ⟨-,-,-,rfl,-⟩ |
    ⟨-,-,-,rfl,-⟩
  · exact Or.inl rfl
  · exact Or.inr (by rw [h.recordPtr])
  · exact Or.inr (by rw [h.recordSrv])
  · exact Or.inr (by rw [h.recordA])
  · exact Or.inr (by rw [h.recordAaaa])

section Service

variable {hostname : HostName} {service : AdvertiseService} (h : ServiceOf hostname service)
  (hw : hostname.WellFormed) (hapart : NamesApart service)
include h hw hapart

theorem ServiceOf.announce_saids (rclass : UInt16) (ttl : UInt32) (state : ResponderState) :
    let update := fun r => mdnsRecordUpdateRclassTtl r rclass ttl
    ∃ text, text.length ≤ advertiseBufferCapacity ∧
      decodeSaids text = some (sections (update service.recordPtr)
        ((buildAdditional service .ptr).map update)) ∧
      (advertiseAnnounce service (fun buffer capacity answer authority additional =>
        mdnsAnswerMulticastRclassTtl buffer capacity answer authority additional rclass ttl)
          state).sent = state.sent ++ (announceSockets service).map fun sock => ⟨sock,none,text⟩ := by
  intro update
  have hcap := advertiseBufferCapacity_reach
  have hcap' : advertiseBufferCapacity = 2048 := rfl
  have hroom := h.rooms.1
  have hroom' := h.buildAdditional_room .ptr
  have hlen := length_buildAdditional service .ptr
  have htype : service.recordPtr.type ≠ .txt := by simp [h.record_types.1]
  obtain ⟨-,hsound,-,hf,-⟩ := h.answer_faithful hw hapart (h.serviceAnswer_serviceName (Or.inl rfl))
  have hall : ∀ r ∈ service.recordPtr :: buildAdditional service .ptr, r.Sound := by
    intro r hr
    rcases List.mem_cons.mp hr with rfl | hr
    · exact hsound
    · exact (h.additional_sound hw hr).1
  obtain ⟨text,hlong,hsaid,hsent⟩ := mdnsAnswerMulticastRclassTtl_saids rclass ttl hcap htype
    (h.buildAdditional_txtLast .ptr) (by omega) hall (by omega) hf
  refine ⟨text,hlong,hsaid,?_⟩
  unfold advertiseAnnounce advertiseAnnounceOn announceSockets
  simp only [hsent]
  by_cases h4 : service.socks.v4 = -1 <;> by_cases h6 : service.socks.v6 = -1 <;> simp [h4,h6]

theorem ServiceOf.answer_saids {name : Bytes} {e : MdnsEntry} {answer : MdnsRecord}
    {additional : List MdnsRecord}
    (ha : serviceAnswer service name e.rtype = some (answer,additional)) :
    ∃ text answer' additional', text.length ≤ sendBufferCapacity ∧
      decodeSaids text = some (sections answer' additional') ∧
      (answer' :: additional').map MdnsRecord.meaning = (answer :: additional).map MdnsRecord.meaning ∧
      (∀ r ∈ answer' :: additional', r.rclass = mdnsClassIn ∧ r.ttl ≠ 0) ∧
      ∀ sendBuffer, (answerMessage name e sendBuffer answer additional).1.sent e.sock
          (answerMessage name e sendBuffer answer additional).2 =
        [⟨e.sock,(answerMessage name e sendBuffer answer additional).2,text⟩] := by
  obtain ⟨htxt,hroom⟩ := h.serviceAnswer_fits ha
  have hcap := sendBufferCapacity_reach
  obtain ⟨hname,hsound,⟨type,rfl⟩,hf,hf'⟩ := h.answer_faithful hw hapart ha
  have hlen := length_buildAdditional service type
  have hlast := h.buildAdditional_txtLast type
  have hall : ∀ r ∈ answer :: buildAdditional service type, r.Sound := by
    intro r hr
    rcases List.mem_cons.mp hr with rfl | hr
    · exact hsound
    · exact (h.additional_sound hw hr).1
  unfold answerMessage
  split
  · obtain ⟨text,hlong,hsaid,hsent⟩ := mdnsQueryAnswerUnicast_saids e.queryId e.rtype hcap hname htxt hlast
      (by omega) (fun r hr => (h.additional_sound hw hr).2.1) hall hroom hf'
    refine ⟨text,_,_,hlong,hsaid,?_,?_,fun sendBuffer => hsent sendBuffer e.sock (some e.src)⟩
    · rw [List.map_cons,List.map_cons,meaning_map unicastUpdate_eq]
      rfl
    · intro r hr
      rcases List.mem_cons.mp hr with rfl | hr
      · exact ⟨rfl,(by decide : (10 : UInt32) ≠ 0)⟩
      · obtain ⟨k,-,rfl⟩ := List.mem_map.mp hr
        exact ⟨rfl,unicastUpdate_ttl k⟩
  · obtain ⟨text,hlong,hsaid,hsent⟩ := mdnsAnswerMulticastRclassTtl_saids mdnsClassIn 60 hcap htxt hlast
      (by omega) hall (by omega) hf
    refine ⟨text,_,_,hlong,hsaid,?_,?_,fun sendBuffer => hsent sendBuffer e.sock none⟩
    · exact meaning_map (mdnsRecordUpdateRclassTtl_eq mdnsClassIn 60)
        (answer :: buildAdditional service type)
    · intro r (hr : r ∈ (answer :: buildAdditional service type).map fun r =>
        mdnsRecordUpdateRclassTtl r mdnsClassIn 60)
      obtain ⟨k,hk,rfl⟩ := List.mem_map.mp hr
      refine update_answer ?_
      rcases List.mem_cons.mp hk with rfl | hk
      · exact h.answer_class ha
      · exact Or.inr (h.additional_sound hw hk).2.1

end Service

end WlrRemote
