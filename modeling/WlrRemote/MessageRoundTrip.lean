import WlrRemote.Goodbye
import WlrRemote.Ownership
import WlrRemote.SelfReference
import WlrRemote.ServiceNames

set_option autoImplicit false

namespace WlrRemote
open Octets SuffixTable

def Sent.Means (d : Sent) (questions : List QuestionMeaning) (answer : MdnsRecord)
    (additional : List MdnsRecord) : Prop :=
  decodeMessage d.bytes =
    some (⟨questions,[answer.meaning],[],additional.map MdnsRecord.meaning⟩,d.bytes.length)

/-- The question that an answer repeats; only answers to one asker do. -/
def repeated (name : Bytes) (e : MdnsEntry) : List QuestionMeaning :=
  if e.rclass &&& mdnsUnicastResponse ≠ 0 then
    [⟨name,e.rtype,mdnsUnicastResponse ||| mdnsClassIn⟩]
  else []

def Announces (service : AdvertiseService) (before after : ResponderState) : Prop :=
  ∃ out : List Sent, after.sent = before.sent ++ out ∧ out.map Sent.sock = announceSockets service ∧
    ∀ d ∈ out, d.Means [] service.recordPtr (buildAdditional service .ptr)

/-- Every message of the service means what the service intended, whatever the two
buffers hold when it is composed. -/
structure SaysWhatItMeans (service : AdvertiseService) : Prop where
  announcement : ∀ state, Announces service state (advertiseAnnounceService service state)
  goodbye : ∀ state, Announces service state (advertiseAnnounceGoodbye service state)
  answer : ∀ (data : Mem) (e : MdnsEntry) (state : ResponderState) (answer : MdnsRecord)
    (additional : List MdnsRecord), e.entry = .question →
    serviceAnswer service (questionName data e) e.rtype = some (answer,additional) →
    ∃ d : Sent, (serviceCallback service data e state).2.sent = state.sent ++ [d] ∧
      d.Means (repeated (questionName data e) e) answer additional

theorem MdnsRecord.Sound.short {r : MdnsRecord} (h : r.Sound) : r.Short := by
  obtain ⟨hname,-,hdata⟩ := h
  have hle := hname.length_le
  refine ⟨by omega,?_⟩
  have hread : ∀ name ∈ r.data.names, name.length < 192 := by
    intro name hmem
    have := (hdata name hmem).length_le
    omega
  cases hd : r.data with
  | ptr name => exact hread name (by simp [hd,MdnsRecordData.names])
  | srv priority weight port name => exact hread name (by simp [hd,MdnsRecordData.names])
  | a addr => simp [MdnsRecordData.name]
  | aaaa addr => simp [MdnsRecordData.name]
  | txt key value => simp [MdnsRecordData.name]

section Update

variable {f : MdnsRecord → MdnsRecord}
  (hf : ∀ r, f r = { r with rclass := (f r).rclass, ttl := (f r).ttl })
include hf

theorem sound_map {rs : List MdnsRecord} (h : ∀ r ∈ rs, r.Sound) : ∀ r ∈ rs.map f, r.Sound := by
  intro r hr
  obtain ⟨k,hk,rfl⟩ := List.mem_map.mp hr
  rw [hf k]
  exact h k hk

theorem recordNames_map (rs : List MdnsRecord) :
    (rs.map f).flatMap recordNames = rs.flatMap recordNames := by
  rw [List.flatMap_map]
  congr 1
  funext r
  rw [hf r]
  rfl

theorem meaning_map (rs : List MdnsRecord) :
    (rs.map f).map MdnsRecord.meaning = rs.map MdnsRecord.meaning := by
  rw [List.map_map]
  congr 1
  funext r
  rw [Function.comp_apply,hf r]
  rfl

end Update

section Writers

variable {buffer : Mem} {capacity : Nat} {answer : MdnsRecord} {additional : List MdnsRecord}

theorem mdnsAnswerMulticastRclassTtl_means (rclass : UInt16) (ttl : UInt32)
    (hcap : capacity ≤ 0x3FFF) (hanswer : answer.type ≠ .txt) (hadditional : TxtLast additional)
    (hcount : additional.length < 0x10000) (hsound : ∀ r ∈ answer :: additional, r.Sound)
    (hroom : 48 + recordRoom answer + recordsRoom additional ≤ capacity)
    (hf : Faithful [] ((answer :: additional).flatMap recordNames)) (sock : Int)
    (dest : Option Sockaddr) :
    let w := mdnsAnswerMulticastRclassTtl buffer capacity answer [] additional rclass ttl
    ∃ d : Sent, w.sent sock dest = [d] ∧ d.sock = sock ∧ d.Means [] answer additional := by
  have hupdate := mdnsRecordUpdateRclassTtl_eq rclass ttl
  have hsound' := sound_map hupdate hsound
  have hf' := hf
  rw [← recordNames_map hupdate] at hf'
  have hstart : Faithful NameState.start.nodes _ := hf'
  obtain ⟨images,st,henc⟩ := hstart.encodeRecords hsound'
  obtain ⟨hdata,hbuf⟩ : (mdnsAnswerMulticastRclassTtl buffer capacity answer [] additional rclass
      ttl).data = some st.pos ∧ _ := mdnsAnswerMulticastRclassTtl_text hcap hanswer hadditional
    (fun r hr => (hsound r hr).short) hroom henc
  obtain ⟨d,hd,-,hle,-⟩ : Extends _ 12 (recordRoom answer + recordsRoom additional)
      (mdnsAnswerMulticastRclassTtl buffer capacity answer [] additional rclass ttl) :=
    mdnsAnswerMulticastRclassTtl_extends rclass ttl hcap hanswer hroom
  rw [hdata] at hd
  obtain rfl := Option.some.inj hd
  have hpos := NameState.encodeRecords_pos henc
  have hlen : st.pos = ((multicastHeader additional).bytes ++ imagesBytes images).length := by
    rw [List.length_append,MdnsHeader.length_bytes,hpos]
    rfl
  refine ⟨⟨sock,dest,(multicastHeader additional).bytes ++ imagesBytes images⟩,?_,rfl,?_⟩
  · have hread := buffer.read_write 0 ((multicastHeader additional).bytes ++ imagesBytes images)
    rw [← hlen] at hread
    simp [MdnsWriter.sent,hdata,hbuf,hread]
  · have hcounts : (mdnsAnswerGetRecordCount additional).toNat =
        (additional.map fun r => mdnsRecordUpdateRclassTtl r rclass ttl).length := by
      rw [hadditional.recordCount hcount,List.length_map]
    have hdecode : decodeMessage ((multicastHeader additional).bytes ++ imagesBytes images) = _ :=
      decodeMessage_multicast ⟨rfl,rfl,rfl,hcounts⟩ hsound' hf' henc (by omega)
    rw [Sent.Means]
    simp only [meaning_map hupdate] at hdecode
    rw [hdecode,hlen]
    rfl

def unicastUpdate (r : MdnsRecord) : MdnsRecord :=
  { r with rclass := mdnsClassIn, ttl := if r.ttl = 0 then 10 else r.ttl }

theorem unicastUpdate_eq (r : MdnsRecord) : unicastUpdate r =
    { r with rclass := (unicastUpdate r).rclass, ttl := (unicastUpdate r).ttl } := rfl

theorem unicastRecords_eq (answer : MdnsRecord) (additional : List MdnsRecord) :
    unicastRecords answer additional =
      { answer with rclass := mdnsClassIn, ttl := 10 } :: additional.map unicastUpdate := rfl

theorem mem_unicastRecords {r : MdnsRecord} (hr : r ∈ unicastRecords answer additional) :
    ∃ k ∈ answer :: additional, r.name = k.name ∧ r.data = k.data := by
  unfold unicastRecords at hr
  rcases List.mem_cons.mp hr with rfl | hr
  · exact ⟨answer,List.mem_cons_self,rfl,rfl⟩
  · obtain ⟨k,hk,rfl⟩ := List.mem_map.mp hr
    exact ⟨k,List.mem_cons_of_mem answer hk,rfl,rfl⟩

theorem mdnsQueryAnswerUnicast_means (queryId recordType : UInt16) {name : Bytes}
    (hcap : capacity ≤ 0x3FFF) (hname : Readable name) (hanswer : answer.type ≠ .txt)
    (hadditional : TxtLast additional) (hcount : additional.length < 0x10000)
    (hclass : ∀ r ∈ additional, r.rclass = mdnsClassIn)
    (hsound : ∀ r ∈ answer :: additional, r.Sound)
    (hroom : 48 + (name.length + 6) + recordRoom answer + recordsRoom additional ≤ capacity)
    (hf : Faithful [] (name :: (answer :: additional).flatMap recordNames)) (sock : Int)
    (dest : Option Sockaddr) :
    let w := mdnsQueryAnswerUnicast buffer capacity queryId recordType name answer [] additional
    ∃ d : Sent, w.sent sock dest = [d] ∧
      d.Means [⟨name,recordType,mdnsUnicastResponse ||| mdnsClassIn⟩] answer additional := by
  have hsound' : ∀ r ∈ unicastRecords answer additional, r.Sound := by
    intro r hr
    obtain ⟨k,hk,hkname,hkdata⟩ := mem_unicastRecords hr
    unfold MdnsRecord.Sound
    rw [hkname,hkdata]
    exact hsound k hk
  have hf' : Faithful [] (name :: (unicastRecords answer additional).flatMap recordNames) := by
    rw [unicastRecords_eq,List.flatMap_cons,recordNames_map unicastUpdate_eq]
    exact hf
  have hstart : Faithful NameState.start.nodes _ := hf'
  obtain ⟨question,st₀,hquestion,hrest,-⟩ := hstart.encodeName hname
  have hskip : Faithful (st₀.skip 4).nodes _ := hrest
  obtain ⟨images,st,henc⟩ := hskip.encodeRecords hsound'
  have hle := hname.length_le
  obtain ⟨hdata,hbuf⟩ : (mdnsQueryAnswerUnicast buffer capacity queryId recordType name answer []
      additional).data = some st.pos ∧ _ :=
    mdnsQueryAnswerUnicast_text queryId recordType hcap (by omega) hanswer hadditional hclass
      (fun r hr => (hsound r hr).short) hroom hquestion henc
  obtain ⟨d,hd,-,hend,-⟩ : Extends _ 12 (name.length + 6 + (recordRoom answer +
      recordsRoom additional)) (mdnsQueryAnswerUnicast buffer capacity queryId recordType name
        answer [] additional) :=
    mdnsQueryAnswerUnicast_extends queryId recordType name hcap hanswer hroom
  rw [hdata] at hd
  obtain rfl := Option.some.inj hd
  have hpos := NameState.encodeRecords_pos henc
  have hpos₀ := NameState.encodeName_pos hquestion
  have hlen : st.pos = ((unicastHeader queryId additional).bytes ++
      (question ++ questionFields recordType ++ imagesBytes images)).length := by
    have hfour : (questionFields recordType).length = 4 := rfl
    simp only [List.length_append,MdnsHeader.length_bytes,hpos,NameState.skip,hpos₀,hfour]
    simp only [NameState.start]
    omega
  refine ⟨⟨sock,dest,(unicastHeader queryId additional).bytes ++
    (question ++ questionFields recordType ++ imagesBytes images)⟩,?_,?_⟩
  · have hread := buffer.read_write 0 ((unicastHeader queryId additional).bytes ++
      (question ++ questionFields recordType ++ imagesBytes images))
    rw [← hlen] at hread
    simp only [MdnsWriter.sent,hdata,hbuf,hread]
  · have hcounts : (mdnsAnswerGetRecordCount additional).toNat =
        (additional.map unicastUpdate).length := by
      rw [hadditional.recordCount hcount,List.length_map]
    have hdecode : decodeMessage ((unicastHeader queryId additional).bytes ++
        (question ++ questionFields recordType ++ imagesBytes images)) = _ :=
      decodeMessage_unicast ⟨rfl,rfl,rfl,hcounts⟩ hsound' hname hf' hquestion henc (by omega)
        recordType
    rw [Sent.Means,hdecode,← meaning_map unicastUpdate_eq additional,hlen]
    rfl

end Writers

section Service

variable {hostname : HostName} {service : AdvertiseService}

theorem length_buildAdditional (service : AdvertiseService) (type : MdnsRecordType) :
    (buildAdditional service type).length ≤ 4 := by
  unfold buildAdditional
  cases type <;> (repeat' split) <;> simp

theorem ServiceOf.sound (h : ServiceOf hostname service) (hw : hostname.WellFormed) :
    service.recordPtr.Sound ∧ service.recordSrv.Sound ∧ service.recordA.Sound ∧
      service.recordAaaa.Sound ∧ service.recordTxt.Sound := by
  have hi := (h.instance_labels hw).2.readable
  have hq := (h.qualified_labels hw).2.readable
  have hs := localName_serviceName.readable
  rw [h.recordPtr,h.recordSrv,h.recordA,h.recordAaaa,h.recordTxt]
  simp [MdnsRecord.Sound,MdnsRecordData.Sound,MdnsRecordData.names,hi,hq,hs]

theorem ServiceOf.additional_sound (h : ServiceOf hostname service) (hw : hostname.WellFormed)
    {type : MdnsRecordType} {r : MdnsRecord} (hr : r ∈ buildAdditional service type) :
    r.Sound ∧ r.rclass = mdnsClassIn ∧
      ∀ name ∈ recordNames r, name = service.serviceInstance ∨ name = service.qualifiedHostname := by
  obtain ⟨-,hsrv,ha,haaaa,htxt⟩ := h.sound hw
  rcases mem_buildAdditional hr with rfl | rfl | rfl | rfl
  · refine ⟨hsrv,?_⟩
    rw [h.recordSrv]
    simp [recordNames,MdnsRecordData.names]
  · refine ⟨ha,?_⟩
    rw [h.recordA]
    simp [recordNames,MdnsRecordData.names]
  · refine ⟨haaaa,?_⟩
    rw [h.recordAaaa]
    simp [recordNames,MdnsRecordData.names]
  · refine ⟨htxt,?_⟩
    rw [h.recordTxt]
    simp [recordNames,MdnsRecordData.names]

theorem ServiceOf.additional_names (h : ServiceOf hostname service) (hw : hostname.WellFormed)
    (type : MdnsRecordType) : ∀ name ∈ (buildAdditional service type).flatMap recordNames,
      name = service.serviceInstance ∨ name = service.qualifiedHostname := by
  intro name hname
  obtain ⟨r,hr,hmem⟩ := List.mem_flatMap.mp hname
  exact (h.additional_sound hw hr).2.2 name hmem

theorem ServiceOf.answer_faithful (h : ServiceOf hostname service) (hw : hostname.WellFormed)
    (hapart : NamesApart service) {name : Bytes} {rtype : UInt16} {answer : MdnsRecord}
    {additional : List MdnsRecord}
    (ha : serviceAnswer service name rtype = some (answer,additional)) :
    Readable name ∧ answer.Sound ∧ (∃ type, additional = buildAdditional service type) ∧
      Faithful [] ((answer :: additional).flatMap recordNames) ∧
      Faithful [] (name :: (answer :: additional).flatMap recordNames) := by
  obtain ⟨hptr,hsrv,hsa,hsaaaa,-⟩ := h.sound hw
  have hi := (h.instance_labels hw).2.readable
  have hq := (h.qualified_labels hw).2.readable
  have hs := localName_serviceName.readable
  have hd := localName_dnsSd.readable
  have hnames := h.additional_names hw
  rcases h.serviceAnswer_cases ha with ⟨rfl,-,rfl,rfl⟩ | ⟨rfl,-,rfl,rfl⟩ | ⟨rfl,-,rfl,rfl⟩ |
    ⟨rfl,-,-,rfl,rfl⟩ | ⟨rfl,-,-,rfl,rfl⟩
  · refine ⟨hd,?_,⟨.ignore,rfl⟩,?_⟩
    · rw [h.serviceName]
      simp [MdnsRecord.Sound,MdnsRecordData.Sound,MdnsRecordData.names,hd,hs]
    · rw [h.serviceName]
      exact faithful_dnsSd
  · refine ⟨by rw [h.serviceName]; exact hs,hptr,⟨.ptr,rfl⟩,?_⟩
    have hrest : ∀ name ∈ service.serviceInstance ::
        (buildAdditional service .ptr).flatMap recordNames,
        name = service.serviceInstance ∨ name = service.qualifiedHostname := by
      simpa using hnames .ptr
    rw [List.flatMap_cons,h.recordPtr,← h.serviceName]
    exact (h.faithful hw hapart hrest).2
  · refine ⟨hi,hsrv,⟨.srv,rfl⟩,?_⟩
    rw [List.flatMap_cons,h.recordSrv]
    exact ⟨(h.faithful hw hapart (by simpa [recordNames,MdnsRecordData.names] using hnames .srv)).1,
      (h.faithful hw hapart (by simpa [recordNames,MdnsRecordData.names] using hnames .srv)).1⟩
  · refine ⟨hq,hsa,⟨.a,rfl⟩,?_⟩
    rw [List.flatMap_cons,h.recordA]
    exact ⟨(h.faithful hw hapart (by simpa [recordNames,MdnsRecordData.names] using hnames .a)).1,
      (h.faithful hw hapart (by simpa [recordNames,MdnsRecordData.names] using hnames .a)).1⟩
  · refine ⟨hq,hsaaaa,⟨.aaaa,rfl⟩,?_⟩
    rw [List.flatMap_cons,h.recordAaaa]
    exact ⟨(h.faithful hw hapart (by simpa [recordNames,MdnsRecordData.names] using hnames .aaaa)).1,
      (h.faithful hw hapart (by simpa [recordNames,MdnsRecordData.names] using hnames .aaaa)).1⟩

theorem ServiceOf.announceOn_means (h : ServiceOf hostname service) (hw : hostname.WellFormed)
    (hapart : NamesApart service) (rclass : UInt16) (ttl : UInt32) (sock : Int)
    (state : ResponderState) : ∃ out : List Sent,
      (advertiseAnnounceOn service (fun buffer capacity answer authority additional =>
        mdnsAnswerMulticastRclassTtl buffer capacity answer authority additional rclass ttl) sock
          state).sent = state.sent ++ out ∧
      out.map Sent.sock = (if sock ≠ -1 then [sock] else []) ∧
      ∀ d ∈ out, d.Means [] service.recordPtr (buildAdditional service .ptr) := by
  unfold advertiseAnnounceOn
  by_cases hsock : sock = -1
  · exact ⟨[],by simp [hsock],by simp [hsock],by simp⟩
  · have hcap := advertiseBufferCapacity_reach
    have hcap' : advertiseBufferCapacity = 2048 := rfl
    have hroom := h.rooms.1
    have hroom' := h.buildAdditional_room .ptr
    have hlen := length_buildAdditional service .ptr
    have htype : service.recordPtr.type ≠ .txt := by simp [h.record_types.1]
    obtain ⟨-,hsound,-,hf,-⟩ := h.answer_faithful hw hapart (h.serviceAnswer_serviceName (Or.inl rfl))
    have hall : ∀ r ∈ service.recordPtr :: buildAdditional service .ptr, r.Sound := by
      intro r hr
      rcases List.mem_cons.mp hr with rfl | hr
      · exact hsound
      · exact (h.additional_sound hw hr).1
    obtain ⟨d,hd,hdsock,hmeans⟩ : ∃ d : Sent, (mdnsAnswerMulticastRclassTtl state.buffer
        advertiseBufferCapacity service.recordPtr [] (buildAdditional service .ptr) rclass ttl).sent
          sock none = [d] ∧ d.sock = sock ∧ _ :=
      mdnsAnswerMulticastRclassTtl_means rclass ttl hcap htype (h.buildAdditional_txtLast .ptr)
        (by omega) hall (by omega) hf sock none
    refine ⟨[d],?_,by simp [hsock,hdsock],by simpa using hmeans⟩
    simp only [ne_eq,hsock,not_false_eq_true,↓reduceIte,hd]

theorem ServiceOf.announces (h : ServiceOf hostname service) (hw : hostname.WellFormed)
    (hapart : NamesApart service) (rclass : UInt16) (ttl : UInt32) (state : ResponderState) :
    Announces service state (advertiseAnnounce service
      (fun buffer capacity answer authority additional =>
        mdnsAnswerMulticastRclassTtl buffer capacity answer authority additional rclass ttl)
          state) := by
  obtain ⟨out₄,h₄,hs₄,hd₄⟩ := h.announceOn_means hw hapart rclass ttl service.socks.v4 state
  obtain ⟨out₆,h₆,hs₆,hd₆⟩ := h.announceOn_means hw hapart rclass ttl service.socks.v6
    (advertiseAnnounceOn service (fun buffer capacity answer authority additional =>
      mdnsAnswerMulticastRclassTtl buffer capacity answer authority additional rclass ttl)
        service.socks.v4 state)
  refine ⟨out₄ ++ out₆,?_,?_,fun d hd => ?_⟩
  · rw [advertiseAnnounce,h₆,h₄,List.append_assoc]
  · rw [List.map_append,hs₄,hs₆,announceSockets]
  · rcases List.mem_append.mp hd with hd | hd
    · exact hd₄ d hd
    · exact hd₆ d hd

theorem ServiceOf.answer_means (h : ServiceOf hostname service) (hw : hostname.WellFormed)
    (hapart : NamesApart service) {name : Bytes} {e : MdnsEntry} {answer : MdnsRecord}
    {additional : List MdnsRecord}
    (ha : serviceAnswer service name e.rtype = some (answer,additional)) (sendBuffer : Mem) :
    let message := answerMessage name e sendBuffer answer additional
    ∃ d : Sent, message.1.sent e.sock message.2 = [d] ∧
      d.Means (repeated name e) answer additional := by
  obtain ⟨htxt,hroom⟩ := h.serviceAnswer_fits ha
  have hcap := sendBufferCapacity_reach
  obtain ⟨hname,hsound,⟨type,rfl⟩,hf,hf'⟩ := h.answer_faithful hw hapart ha
  have hlen := length_buildAdditional service type
  have hlast := h.buildAdditional_txtLast type
  have hall : ∀ r ∈ answer :: buildAdditional service type, r.Sound := by
    intro r hr
    rcases List.mem_cons.mp hr with rfl | hr
    · exact hsound
    · exact (h.additional_sound hw hr).1
  unfold answerMessage repeated
  split
  · exact mdnsQueryAnswerUnicast_means e.queryId e.rtype hcap hname htxt hlast (by omega)
      (fun r hr => (h.additional_sound hw hr).2.1) hall hroom hf' e.sock (some e.src)
  · obtain ⟨d,hd,-,hmeans⟩ := mdnsAnswerMulticastRclassTtl_means mdnsClassIn 60 hcap htxt hlast
      (by omega) hall (by omega) hf e.sock none
    exact ⟨d,hd,hmeans⟩

/-- Where no name repeats a block of its labels, every message means what it should. -/
theorem ServiceOf.means (h : ServiceOf hostname service) (hw : hostname.WellFormed)
    (hapart : NamesApart service) : SaysWhatItMeans service where
  announcement := h.announces hw hapart (mdnsClassIn ||| mdnsCacheFlush) 60
  goodbye := h.announces hw hapart mdnsClassIn 0
  answer := by
    intro data e state answer additional he ha
    obtain ⟨d,hd,hmeans⟩ := h.answer_means hw hapart ha state.sendBuffer
    refine ⟨d,?_,hmeans⟩
    rw [serviceCallback_of_some state he ha,← hd]

theorem ServiceOf.spelledWithin (h : ServiceOf hostname service) (hw : hostname.WellFormed)
    (hapart : NamesApart service) : SpelledWithin service := by
  obtain ⟨-,hsound,-,hf,-⟩ := h.answer_faithful hw hapart (h.serviceAnswer_serviceName (Or.inl rfl))
  have hstart : Faithful NameState.start.nodes ((announced service).flatMap recordNames) := hf
  obtain ⟨images,st,henc⟩ := hstart.encodeRecords fun r hr => by
    rcases List.mem_cons.mp hr with rfl | hr
    · exact hsound
    · exact (h.additional_sound hw hr).1
  unfold SpelledWithin
  rw [henc]
  rfl

def questionMem (name : Bytes) : Mem := messageMem (labelsBytes (nameLabels name) ++ [0])

def askedUnicast (name : Bytes) (rtype : UInt16) : MdnsEntry :=
  ⟨0,.other,.question,0,rtype,mdnsUnicastResponse ||| mdnsClassIn,0,name.length + 1,0,0,0,0⟩

theorem questionName_askedUnicast {name : Bytes} (hname : Readable name) (rtype : UInt16) :
    questionName (questionMem name) (askedUnicast name rtype) = name := by
  have hle := hname.length_le
  have hdot := hname.dotted
  have hcount := two_mul_length_le_dotted hname.blank
  rw [hdot] at hcount
  have hlen : (labelsBytes (nameLabels name)).length = name.length := by
    rw [length_labelsBytes,hdot]
  have hread : (questionMem name).read 0 (name.length + 1) = labelsBytes (nameLabels name) ++ [0] := by
    rw [questionMem,messageMem_read (by simp [hlen]),List.drop_zero]
    exact List.take_of_length_le (by simp [hlen])
  rw [Mem.read_add] at hread
  obtain ⟨hlabels,hzero⟩ := List.append_inj hread (by simp [hlen])
  have hlaid : Laid (questionMem name) ⟨[],[],name.length + 1⟩ :=
    ⟨by simp only; omega,rfl,by simp⟩
  have hopen : OpenAt (questionMem name) (name.length + 1) 0 (nameLabels name) := by
    refine ⟨fun l hl => short_of_mem_nameLabels (by omega) hl,by omega,?_⟩
    rw [hlen]
    exact hlabels
  have hlabels : labelsAt (questionMem name) (name.length + 1) 0 = some (_,_) :=
    hlaid.labelsLoop_open (Nat.le_refl _) hopen hname.blank .stop (by simp [hlen,linkBytes])
      (by rw [hlen]; exact hzero) (by unfold mdnsMaxSubstrings; simp; omega)
  rw [List.append_nil] at hlabels
  simp only [questionName,askedUnicast,mdnsStringExtract_labels,hlabels,Option.map_some,hdot]
  exact List.take_of_length_le (by omega)

theorem ServiceOf.not_means (h : ServiceOf hostname service) {name : Bytes} (hname : Readable name)
    (hrepeat : ¬ NoRepeat 16 (nameLabels name)) {rtype : UInt16} {answer : MdnsRecord}
    {additional : List MdnsRecord}
    (ha : serviceAnswer service name rtype = some (answer,additional)) :
    ¬ SaysWhatItMeans service := by
  intro hmeans
  obtain ⟨htxt,hroom⟩ := h.serviceAnswer_fits ha
  have hcap := sendBufferCapacity_reach
  obtain ⟨buffer,hbuffer⟩ := unicast_selfRef hname hrepeat hcap 0 rtype htxt hroom
  have hasked := questionName_askedUnicast hname rtype
  have ha' : serviceAnswer service (questionName (questionMem name) (askedUnicast name rtype))
      (askedUnicast name rtype).rtype = some (answer,additional) := by
    rw [hasked]
    exact ha
  obtain ⟨d,hd,hmeaning⟩ := hmeans.answer (questionMem name) (askedUnicast name rtype)
    ⟨fun _ => 0,buffer,[]⟩ answer additional rfl ha'
  have hunicast : (askedUnicast name rtype).rclass &&& mdnsUnicastResponse ≠ 0 := by
    show (mdnsUnicastResponse ||| mdnsClassIn) &&& mdnsUnicastResponse ≠ 0
    decide
  rw [serviceCallback_of_some _ rfl ha',hasked] at hd
  simp only [answerMessage,hunicast,ne_eq,not_false_eq_true,↓reduceIte,List.nil_append] at hd
  have hnone := hbuffer 0 (some .other) d (by
    have hmem : d ∈ [d] := List.mem_cons_self
    rwa [← hd] at hmem)
  rw [Sent.Means,hnone] at hmeaning
  exact Option.some_ne_none _ hmeaning.symm

end Service

/-- For a well-formed hostname, every message means what the service intended exactly if
neither the instance name nor the qualified hostname repeats a block of its labels. -/
theorem saysWhatItMeans_iff {env : AdvertiseEnv} {port : UInt16} {service : AdvertiseService}
    {hostname : HostName} (hhost : env.gethostname = some hostname) (hw : hostname.WellFormed)
    (h : advertiseCreateService env port = some service) :
    SaysWhatItMeans service ↔ NamesApart service := by
  obtain ⟨hostname',hhost',hof⟩ := advertiseCreateService_serviceOf h
  rw [hhost] at hhost'
  obtain rfl := Option.some.inj hhost'
  constructor
  · intro hmeans
    constructor
    · by_contra hrepeat
      have ha : serviceAnswer service service.serviceInstance MdnsRecordType.srv.code =
          some (service.recordSrv,buildAdditional service .srv) := by
        simp [hof.serviceAnswer_instance]
      exact hof.not_means (hof.instance_labels hw).2.readable hrepeat ha hmeans
    · by_contra hrepeat
      have hq := (hof.qualified_labels hw).2.readable
      have hs : service.qualifiedHostname ≠ service.serviceName := by
        intro heq
        rw [heq,hof.serviceName] at hrepeat
        exact hrepeat apart_serviceName.noRepeat
      have hd : service.qualifiedHostname ≠ DNS_SD_SERVICE_INSTANCE := by
        intro heq
        rw [heq] at hrepeat
        exact hrepeat apart_dnsSd.noRepeat
      rcases hof.address with h4 | h6
      · have ha : serviceAnswer service service.qualifiedHostname MdnsRecordType.a.code =
            some (service.recordA,buildAdditional service .a) := by
          simp [hof.serviceAnswer_qualified hd hs,h4]
        exact hof.not_means hq hrepeat ha hmeans
      · have ha : serviceAnswer service service.qualifiedHostname MdnsRecordType.aaaa.code =
            some (service.recordAaaa,buildAdditional service .aaaa) := by
          simp [hof.serviceAnswer_qualified hd hs,h6,MdnsRecordType.code]
        exact hof.not_means hq hrepeat ha hmeans
  · exact hof.means hw

theorem saysWhatItMeans_hostA : SaysWhatItMeans (oneInterfaceService hostA 7777) :=
  (saysWhatItMeans_iff rfl (by decide) (advertiseCreateService_oneInterface hostA 7777)).mpr
    (by decide +kernel)

def hostLocal : HostName := ⟨ascii "local",by decide,by decide⟩

/-- The instance name of this host ends in a reference to its own first label. -/
theorem local_host_refers_to_itself : ∃ env port service hostname,
    env.gethostname = some hostname ∧ hostname.WellFormed ∧
      advertiseCreateService env port = some service ∧ ¬ SaysWhatItMeans service := by
  refine ⟨oneInterface hostLocal,7777,oneInterfaceService hostLocal 7777,hostLocal,rfl,by decide,rfl,
    fun hmeans => ?_⟩
  have hpicked : serviceAnswer (oneInterfaceService hostLocal 7777)
      (questionName (questionMem (ascii "local._wlr-remote._udp.local."))
        ⟨3,.other,.question,0,33,1,0,30,0,0,0,0⟩) 33 =
          some ((oneInterfaceService hostLocal 7777).recordSrv,
            buildAdditional (oneInterfaceService hostLocal 7777) .srv) := by
    decide +kernel
  have hsent : (serviceCallback (oneInterfaceService hostLocal 7777)
      (questionMem (ascii "local._wlr-remote._udp.local."))
        ⟨3,.other,.question,0,33,1,0,30,0,0,0,0⟩ ⟨fun _ => 0,fun _ => 0,[]⟩).2.sent.map
          (fun d => decodeMessage d.bytes) = [none] := by
    decide +kernel
  obtain ⟨d,hd,hmeaning⟩ := hmeans.answer _ _ _ _ _ rfl hpicked
  rw [hd] at hsent
  have hnone : decodeMessage d.bytes = none := (List.cons.inj hsent).1
  rw [Sent.Means,hnone] at hmeaning
  exact Option.some_ne_none _ hmeaning.symm

end WlrRemote
