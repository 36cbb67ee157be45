import WlrRemote.Goodbye
import WlrRemote.TxtRecords

set_option autoImplicit false

namespace WlrRemote
open Octets

/-- Where the class of a record goes that is written next: behind its name and its type. -/
def classField (capacity : Nat) (w : MdnsWriter) (r : MdnsRecord) : Option Nat :=
  w.data.bind fun data =>
    (mdnsStringMake w.buffer capacity data r.name w.table).data.map (· + 2)

/-- The records other than TXT of a section, and where their classes go. -/
def plainFields (capacity : Nat) (update : MdnsRecord → MdnsRecord) :
    MdnsWriter → List MdnsRecord → List (MdnsRecord × Option Nat)
  | _, [] => []
  | w, r :: records =>
    let rest := plainFields capacity update (mdnsAnswerAddRecord capacity w (update r)) records
    if r.type = .txt then rest else (r,classField capacity w r) :: rest

def sectionFields (capacity : Nat) (update : MdnsRecord → MdnsRecord) (w : MdnsWriter)
    (records : List MdnsRecord) : List (MdnsRecord × Option Nat) :=
  let after := records.foldl (fun w r => mdnsAnswerAddRecord capacity w (update r)) w
  plainFields capacity update w records ++
    ((records.find? fun r => r.type = .txt).map fun r => (r,classField capacity after r)).toList

def ClassesWritten (m : Mem) (P : MdnsRecord → UInt16 → Prop)
    (fields : List (MdnsRecord × Option Nat)) : Prop :=
  ∀ f ∈ fields, ∃ p, f.2 = some p ∧ P f.1 (m.be16 p)

theorem ClassesWritten.imp {m : Mem} {P Q : MdnsRecord → UInt16 → Prop}
    {fields : List (MdnsRecord × Option Nat)} (h : ClassesWritten m P fields)
    (hpq : ∀ r c, P r c → Q r c) : ClassesWritten m Q fields := by
  intro f hf
  obtain ⟨p,hp,hclass⟩ := h f hf
  exact ⟨p,hp,hpq _ _ hclass⟩

theorem ClassesWritten.append {m : Mem} {P : MdnsRecord → UInt16 → Prop}
    {fields fields' : List (MdnsRecord × Option Nat)} (h : ClassesWritten m P fields)
    (h' : ClassesWritten m P fields') : ClassesWritten m P (fields ++ fields') := by
  intro f hf
  rcases List.mem_append.mp hf with hf | hf
  · exact h f hf
  · exact h' f hf

def ClassBelow (m : Mem) (d : Nat) (field : Option Nat) (c : UInt16) : Prop :=
  ∃ p, field = some p ∧ p + 2 ≤ d ∧ m.be16 p = c

theorem ClassBelow.congr {m m' : Mem} {d d' : Nat} {field : Option Nat} {c : UInt16}
    (h : ClassBelow m d field c) (hm : AgreeBelow d m m') (hd : d ≤ d') :
    ClassBelow m' d' field c := by
  obtain ⟨p,hp,hlt,hc⟩ := h
  refine ⟨p,hp,by omega,?_⟩
  rw [← hc,Mem.be16,Mem.be16,hm.read hlt]

theorem mdnsAnswerAddRecordHeader_class {w : MdnsWriter} {capacity data start : Nat}
    {r : MdnsRecord} (hw : w.data = some data)
    (h : (mdnsAnswerAddRecordHeader w.buffer capacity data r w.table).data = some start) :
    ClassBelow (mdnsAnswerAddRecordHeader w.buffer capacity data r w.table).buffer (start - 2)
      (classField capacity w r) r.rclass := by
  unfold mdnsAnswerAddRecordHeader at h ⊢
  simp only [classField,hw,Option.bind_some]
  cases hname : (mdnsStringMake w.buffer capacity data r.name w.table).data with
  | none => simp [hname] at h
  | some p =>
    simp only [hname] at h ⊢
    split at h
    · contradiction
    · rename_i hcap
      rw [if_neg hcap]
      have hstart := Option.some.inj h
      refine ⟨p + 2,rfl,by omega,Mem.be16_of_read ?_⟩
      rw [Mem.read_write_part (by simp)]
      rfl

theorem mdnsAnswerAddRecord_class {capacity data : Nat} {w : MdnsWriter} {r : MdnsRecord}
    (hdata : w.data = some data) (htxt : r.type ≠ .txt) (hroom : data + recordRoom r ≤ capacity) :
    ∃ d, (mdnsAnswerAddRecord capacity w r).data = some d ∧ d ≤ data + recordRoom r ∧
      ClassBelow (mdnsAnswerAddRecord capacity w r).buffer d (classField capacity w r)
        r.rclass := by
  have hhead : data + (r.name.length + 12) ≤ capacity := by
    unfold recordRoom at hroom
    omega
  unfold recordRoom at hroom ⊢
  obtain ⟨d,hd,hlt,hle,hagree⟩ :
      ∃ d, (mdnsAnswerAddRecordHeader w.buffer capacity data r w.table).data = some d ∧ _ :=
    mdnsAnswerAddRecordHeader_extends hhead
  have hclass := mdnsAnswerAddRecordHeader_class hdata hd
  simp only [mdnsAnswerAddRecord,hdata,htxt,↓reduceIte,hd]
  generalize mdnsAnswerAddRecordHeader w.buffer capacity data r w.table = wh at hclass ⊢
  have hbody : Extends wh.buffer d (dataRoom r.data)
      (mdnsAnswerAddRecordData wh.buffer capacity d r wh.table) :=
    mdnsAnswerAddRecordData_extends htxt (by omega)
  obtain ⟨d',hd',hlt',hle',hagree'⟩ := hbody
  simp only [hd']
  refine ⟨d',rfl,by omega,hclass.congr ?_ (by omega)⟩
  exact (hagree'.mono (by omega)).trans (agreeBelow_write (by omega))

def Restamps (update : MdnsRecord → MdnsRecord) : Prop :=
  ∀ r, (update r).name = r.name ∧ (update r).data = r.data

section Section

variable {capacity data : Nat} {update : MdnsRecord → MdnsRecord}

theorem Restamps.type (h : Restamps update) (r : MdnsRecord) : (update r).type = r.type := by
  simp [MdnsRecord.type,(h r).2]

theorem Restamps.recordRoom (h : Restamps update) (r : MdnsRecord) :
    recordRoom (update r) = recordRoom r := by
  simp [WlrRemote.recordRoom,(h r).1,(h r).2]

theorem Restamps.classField (h : Restamps update) (w : MdnsWriter) (r : MdnsRecord) :
    classField capacity w (update r) = classField capacity w r := by
  simp [WlrRemote.classField,(h r).1]

theorem mdnsAnswerAddRecord_restamped (h : Restamps update) {w : MdnsWriter} {r : MdnsRecord}
    (hdata : w.data = some data) (hroom : data + plainRoom r ≤ capacity) :
    Extends w.buffer data (plainRoom r) (mdnsAnswerAddRecord capacity w (update r)) := by
  have hplain : plainRoom (update r) = plainRoom r := by
    simp only [plainRoom,h.type,h.recordRoom]
  rw [← hplain] at hroom ⊢
  exact mdnsAnswerAddRecord_extends hdata hroom

theorem plainFields_written (h : Restamps update) (records : List MdnsRecord) {w : MdnsWriter}
    (hdata : w.data = some data) (hroom : data + (records.map plainRoom).sum ≤ capacity) :
    let after := records.foldl (fun w r => mdnsAnswerAddRecord capacity w (update r)) w
    ∃ d, after.data = some d ∧ data ≤ d ∧ d ≤ data + (records.map plainRoom).sum ∧
      AgreeBelow data w.buffer after.buffer ∧
      ∀ f ∈ plainFields capacity update w records,
        ClassBelow after.buffer d f.2 (update f.1).rclass := by
  induction records generalizing w data with
  | nil => exact ⟨data,hdata,Nat.le_refl _,by simp,.refl _ _,by simp [plainFields]⟩
  | cons r records ih =>
    have htype := h.type r
    simp only [List.map_cons,List.sum_cons,List.foldl_cons] at hroom ⊢
    by_cases htxt : r.type = .txt
    · have hskip : mdnsAnswerAddRecord capacity w (update r) = w := by
        simp [mdnsAnswerAddRecord,hdata,htype,htxt]
      have hzero : plainRoom r = 0 := by simp [plainRoom,htxt]
      simp only [hskip,hzero,Nat.zero_add,plainFields,htxt,↓reduceIte] at hroom ⊢
      exact ih hdata hroom
    · have hplain : plainRoom r = recordRoom r := by simp [plainRoom,htxt]
      rw [hplain] at hroom ⊢
      have hroom' : data + recordRoom (update r) ≤ capacity := by
        rw [h.recordRoom]
        omega
      obtain ⟨d,hd,hle,hclass⟩ := mdnsAnswerAddRecord_class hdata (by rwa [htype]) hroom'
      obtain ⟨d₁,hd₁,hlt,-,hagree⟩ := mdnsAnswerAddRecord_restamped h hdata
        (show data + plainRoom r ≤ capacity by rw [hplain]; omega)
      obtain rfl := Option.some.inj (hd.symm.trans hd₁)
      rw [h.recordRoom] at hle
      rw [h.classField] at hclass
      obtain ⟨d',hd',hlt',hle',hagree',hfields⟩ := ih hd (by omega)
      refine ⟨d',hd',by omega,by omega,hagree.trans (hagree'.mono hlt),?_⟩
      simp only [plainFields,htxt,↓reduceIte,List.mem_cons,forall_eq_or_imp]
      exact ⟨hclass.congr hagree' hlt',hfields⟩

theorem mem_of_plainFields {w : MdnsWriter} {records : List MdnsRecord}
    {f : MdnsRecord × Option Nat} (h : f ∈ plainFields capacity update w records) :
    f.1 ∈ records := by
  induction records generalizing w with
  | nil => simp [plainFields] at h
  | cons r records ih =>
    unfold plainFields at h
    split at h
    · exact List.mem_cons_of_mem r (ih h)
    · rcases List.mem_cons.mp h with rfl | h
      · exact List.mem_cons_self
      · exact List.mem_cons_of_mem r (ih h)

theorem mdnsAnswerAddTxtRecord_class (rclass : UInt16) (ttl : UInt32) {plain : List MdnsRecord}
    {w : MdnsWriter} {t : MdnsRecord} (hdata : w.data = some data)
    (hplain : ∀ r ∈ plain, r.type ≠ .txt) (ht : t.data = .txt [] [])
    (hroom : data + recordRoom t ≤ capacity) :
    let out := mdnsAnswerAddTxtRecord capacity w (plain ++ [t]) rclass ttl
    ∃ d, out.data = some d ∧ ClassBelow out.buffer d (classField capacity w t)
      (mdnsRecordUpdateRclassTtl t rclass ttl).rclass := by
  have hkey : t.KeyOnly := ⟨by simp [MdnsRecord.txtKey,ht],by simp [MdnsRecord.txtKey,ht]⟩
  have hkeys : ∀ r ∈ [t], r.KeyOnly := by simpa using hkey
  simp only [recordRoom,ht,dataRoom,List.length_nil,Nat.zero_add] at hroom
  obtain ⟨start,hstart,-,hle,-⟩ : ∃ d, (mdnsAnswerAddRecordHeader w.buffer capacity data
      (mdnsRecordUpdateRclassTtl t rclass ttl) w.table).data = some d ∧ _ :=
    mdnsAnswerAddRecordHeader_extends (by simp only [mdnsRecordUpdateRclassTtl]; omega)
  have hclass := mdnsAnswerAddRecordHeader_class hdata hstart
  have hstart₂ := mdnsAnswerAddRecordHeader_start hstart
  have hfield : classField capacity w (mdnsRecordUpdateRclassTtl t rclass ttl) =
      classField capacity w t := rfl
  rw [hfield] at hclass
  simp only [mdnsRecordUpdateRclassTtl] at hle
  have hloop : mdnsAnswerAddTxtRecordLoop capacity rclass ttl (plain ++ [t]) none w =
      mdnsAnswerAddTxtRecordLoop capacity rclass ttl [t] (some start)
        (mdnsAnswerAddRecordHeader w.buffer capacity data (mdnsRecordUpdateRclassTtl t rclass ttl)
          w.table) := by
    rw [txtLoop_plain capacity rclass ttl hdata none hplain [t],
      mdnsAnswerAddTxtRecordLoop_start hdata hkey hstart]
  have hok : (mdnsAnswerAddTxtRecordLoop capacity rclass ttl [t] (some start)
      (mdnsAnswerAddRecordHeader w.buffer capacity data (mdnsRecordUpdateRclassTtl t rclass ttl)
        w.table)).2.data ≠ none := by
    have hc : ¬ capacity ≤ 1 + start := by omega
    simp [mdnsAnswerAddTxtRecordLoop,hstart,ht,hc]
  obtain ⟨hout,hd,hagree,-⟩ := mdnsAnswerAddTxtRecordLoop_writes hstart hkeys hok
  simp only [mdnsAnswerAddTxtRecord,hloop,hout,hd]
  refine ⟨_,rfl,hclass.congr ?_ (by omega)⟩
  exact (hagree.mono (by omega)).trans (agreeBelow_write (Nat.le_refl _))

/-- Every record of a section gets the class it is handed over with, and the TXT record the
one that the section asks for. -/
theorem sectionFields_written (h : Restamps update) {rclass : UInt16} {ttl : UInt32}
    {records : List MdnsRecord} (hrecords : TxtLast records) {w : MdnsWriter}
    (hdata : w.data = some data) (hcap : capacity ≤ 0x3FFF)
    (hroom : data + recordsRoom records ≤ capacity) {P : MdnsRecord → UInt16 → Prop}
    (hupdate : ∀ r ∈ records, P r (update r).rclass)
    (htxt : ∀ r ∈ records, P r (mdnsRecordUpdateRclassTtl r rclass ttl).rclass) :
    ClassesWritten (mdnsAnswerAddTxtRecord capacity
      (records.foldl (fun w r => mdnsAnswerAddRecord capacity w (update r)) w) records rclass
        ttl).buffer P (sectionFields capacity update w records) := by
  obtain ⟨plain,txts,rfl,hplain,htxts⟩ := hrecords
  rw [recordsRoom_eq] at hroom
  obtain ⟨d,hd,hlt,hle,-,hfields⟩ := plainFields_written h (plain ++ txts) hdata
    (show data + ((plain ++ txts).map plainRoom).sum ≤ capacity by omega)
  have hmem : ∀ f ∈ plainFields capacity update w (plain ++ txts), f.1 ∈ plain ++ txts :=
    fun f hf => mem_of_plainFields hf
  unfold sectionFields
  generalize (plain ++ txts).foldl (fun w r => mdnsAnswerAddRecord capacity w (update r)) w =
    after at hd hfields ⊢
  obtain ⟨d',hd',hlt',-,hagree⟩ : Extends after.buffer d _
      (mdnsAnswerAddTxtRecord capacity after (plain ++ txts) rclass ttl) :=
    mdnsAnswerAddTxtRecord_extends hcap hd (by omega)
  apply ClassesWritten.append
  · intro f hf
    obtain ⟨p,hp,-,hclass⟩ := (hfields f hf).congr hagree hlt'
    exact ⟨p,hp,hclass ▸ hupdate f.1 (hmem f hf)⟩
  · have hnone : plain.find? (fun r => decide (r.type = .txt)) = none := by simpa using hplain
    rcases htxts with rfl | ⟨t,rfl,ht⟩
    · simp [hnone,ClassesWritten]
    · have htype : t.type = .txt := by simp [MdnsRecord.type,MdnsRecordData.type,ht]
      have htroom : d + recordRoom t ≤ capacity := by
        have hsum : ((plain ++ [t]).map txtRoom).sum = (plain.map txtRoom).sum + recordRoom t := by
          simp [txtRoom,htype]
        omega
      obtain ⟨d₁,-,p,hp,-,hclass⟩ := mdnsAnswerAddTxtRecord_class rclass ttl hd hplain ht htroom
      simp only [List.find?_append,hnone,Option.none_or,List.find?_singleton,htype,decide_true,
        ↓reduceIte,Option.map_some,Option.toList_some,ClassesWritten,List.mem_singleton,
        forall_eq]
      exact ⟨p,hp,hclass ▸ htxt t (by simp)⟩

end Section

def multicastFields (buffer : Mem) (capacity : Nat) (answer : MdnsRecord)
    (additional : List MdnsRecord) (rclass : UInt16) (ttl : UInt32) :
    List (MdnsRecord × Option Nat) :=
  let update := fun r => mdnsRecordUpdateRclassTtl r rclass ttl
  let w : MdnsWriter := ⟨buffer.write 0 (multicastHeader additional).bytes,some 12,.empty⟩
  (answer,classField capacity w answer) ::
    sectionFields capacity update (mdnsAnswerAddRecord capacity w (update answer)) additional

def unicastFields (buffer : Mem) (capacity : Nat) (queryId recordType : UInt16) (name : Bytes)
    (answer : MdnsRecord) (additional : List MdnsRecord) : List (MdnsRecord × Option Nat) :=
  let update := fun r : MdnsRecord =>
    { r with rclass := mdnsClassIn, ttl := if r.ttl = 0 then 10 else r.ttl }
  let w := mdnsAnswerAddQuestionUnicast (buffer.write 0 (unicastHeader queryId additional).bytes)
    capacity 12 recordType name .empty
  (answer,classField capacity w answer) ::
    sectionFields capacity update
      (mdnsAnswerAddRecord capacity w { answer with rclass := mdnsClassIn, ttl := 10 }) additional

theorem answerFields_written {capacity data : Nat} (answer first : MdnsRecord)
    {update : MdnsRecord → MdnsRecord} (hupdate : Restamps update)
    (hfirst : first.name = answer.name ∧ first.data = answer.data) {additional : List MdnsRecord}
    {rclass : UInt16} {ttl : UInt32} {w : MdnsWriter} (hdata : w.data = some data)
    (hcap : capacity ≤ 0x3FFF) (hanswer : answer.type ≠ .txt) (hadditional : TxtLast additional)
    (hroom : data + recordRoom answer + recordsRoom additional ≤ capacity)
    {P : MdnsRecord → UInt16 → Prop} (hanswerClass : P answer first.rclass)
    (hclass : ∀ r ∈ additional, P r (update r).rclass)
    (htxt : ∀ r ∈ additional, P r (mdnsRecordUpdateRclassTtl r rclass ttl).rclass) :
    ClassesWritten (mdnsAnswerAddTxtRecord capacity
        (additional.foldl (fun w r => mdnsAnswerAddRecord capacity w (update r))
          (mdnsAnswerAddTxtRecord capacity (mdnsAnswerAddRecord capacity w first) [] rclass ttl))
        additional rclass ttl).buffer P
      ((answer,classField capacity w answer) ::
        sectionFields capacity update (mdnsAnswerAddRecord capacity w first) additional) := by
  have htype : first.type ≠ .txt := by simpa [MdnsRecord.type,hfirst.2] using hanswer
  have hfirstRoom : recordRoom first = recordRoom answer := by
    simp [recordRoom,hfirst.1,hfirst.2]
  have hfirstField : classField capacity w first = classField capacity w answer := by
    simp [classField,hfirst.1]
  obtain ⟨d,hd,hle,hfield⟩ := mdnsAnswerAddRecord_class hdata htype
    (show data + recordRoom first ≤ capacity by omega)
  rw [mdnsAnswerAddTxtRecord_plain hd capacity rclass ttl (by simp)]
  generalize mdnsAnswerAddRecord capacity w first = w₁ at hd hfield ⊢
  obtain ⟨d',-,hlt,-,hagree⟩ : Extends w₁.buffer d (recordsRoom additional)
      (mdnsAnswerAddTxtRecord capacity
        (additional.foldl (fun w r => mdnsAnswerAddRecord capacity w (update r)) w₁) additional
        rclass ttl) :=
    section_extends (fun w d r hd hr => mdnsAnswerAddRecord_restamped hupdate hd hr) hcap
      additional hd (by omega)
  obtain ⟨p,hp,-,hc⟩ := hfield.congr hagree hlt
  rw [hfirstField] at hp
  exact List.forall_mem_cons.mpr ⟨⟨p,hp,hc ▸ hanswerClass⟩,
    sectionFields_written hupdate hadditional hd hcap (by omega) hclass htxt⟩

theorem multicastFields_written {buffer : Mem} {capacity : Nat} {answer : MdnsRecord}
    {additional : List MdnsRecord} {rclass : UInt16} {ttl : UInt32} (hcap : capacity ≤ 0x3FFF)
    (hanswer : answer.type ≠ .txt) (hadditional : TxtLast additional)
    (hroom : 48 + recordRoom answer + recordsRoom additional ≤ capacity)
    {P : MdnsRecord → UInt16 → Prop}
    (hclass : ∀ r ∈ answer :: additional, P r (mdnsRecordUpdateRclassTtl r rclass ttl).rclass) :
    ClassesWritten
      (mdnsAnswerMulticastRclassTtl buffer capacity answer [] additional rclass ttl).buffer P
      (multicastFields buffer capacity answer additional rclass ttl) := by
  have hc : ¬ capacity < 12 + 32 + 4 := by omega
  have hupdate : Restamps fun r => mdnsRecordUpdateRclassTtl r rclass ttl := fun _ => ⟨rfl,rfl⟩
  obtain ⟨hfirst,hrest⟩ := List.forall_mem_cons.mp hclass
  simp only [mdnsAnswerMulticastRclassTtl,hc,↓reduceIte,List.foldl_nil]
  exact answerFields_written answer (mdnsRecordUpdateRclassTtl answer rclass ttl) hupdate
    ⟨rfl,rfl⟩ rfl hcap hanswer hadditional (by omega) hfirst hrest hrest

theorem unicastFields_written {buffer : Mem} {capacity : Nat} (queryId recordType : UInt16)
    {name : Bytes} {answer : MdnsRecord} {additional : List MdnsRecord} (hcap : capacity ≤ 0x3FFF)
    (hanswer : answer.type ≠ .txt) (hadditional : TxtLast additional)
    (hroom : 48 + (name.length + 6) + recordRoom answer + recordsRoom additional ≤ capacity)
    {P : MdnsRecord → UInt16 → Prop} (hclass : ∀ r ∈ answer :: additional, P r mdnsClassIn)
    (htxt : ∀ r ∈ additional, P r (mdnsRecordUpdateRclassTtl r mdnsClassIn 10).rclass) :
    ClassesWritten
      (mdnsQueryAnswerUnicast buffer capacity queryId recordType name answer [] additional).buffer P
      (unicastFields buffer capacity queryId recordType name answer additional) := by
  have hc : ¬ capacity < 12 + 32 + 4 := by omega
  have hupdate : Restamps fun r =>
      { r with rclass := mdnsClassIn, ttl := if r.ttl = 0 then 10 else r.ttl } :=
    fun _ => ⟨rfl,rfl⟩
  obtain ⟨hfirst,hrest⟩ := List.forall_mem_cons.mp hclass
  obtain ⟨d,hd,-,hle,-⟩ : Extends _ 12 (name.length + 6) (mdnsAnswerAddQuestionUnicast
      (buffer.write 0 (unicastHeader queryId additional).bytes) capacity 12 recordType name .empty) :=
    mdnsAnswerAddQuestionUnicast_extends (by omega)
  simp only [mdnsQueryAnswerUnicast,hc,↓reduceIte,List.foldl_nil]
  exact answerFields_written answer { answer with rclass := mdnsClassIn, ttl := 10 } hupdate
    ⟨rfl,rfl⟩ hd hcap hanswer hadditional (by omega) hfirst hrest htxt

/-- The announcement composed in this buffer asks to flush what the host alone owns. -/
def FlushesIn (service : AdvertiseService) (buffer : Mem) : Prop :=
  ClassesWritten (mdnsAnnounceMulticast buffer advertiseBufferCapacity service.recordPtr []
      (buildAdditional service .ptr)).buffer
    (fun r c => c = if r.type = .ptr then mdnsClassIn else mdnsClassIn ||| mdnsCacheFlush)
    (multicastFields buffer advertiseBufferCapacity service.recordPtr (buildAdditional service .ptr)
      (mdnsClassIn ||| mdnsCacheFlush) 60)

def AnnouncementsFlush (service : AdvertiseService) (state : ResponderState) : Prop :=
  (service.socks.v4 ≠ -1 → FlushesIn service state.buffer) ∧
    (service.socks.v6 ≠ -1 → FlushesIn service
      (advertiseAnnounceOn service mdnsAnnounceMulticast service.socks.v4 state).buffer)

def UnicastPlain (service : AdvertiseService) : Prop :=
  ∀ name rtype answer additional, serviceAnswer service name rtype = some (answer,additional) →
    ∀ sendBuffer queryId,
      ClassesWritten (mdnsQueryAnswerUnicast sendBuffer sendBufferCapacity queryId rtype name answer
          [] additional).buffer (fun _ c => c &&& mdnsCacheFlush = 0)
        (unicastFields sendBuffer sendBufferCapacity queryId rtype name answer additional)

section Service

variable {hostname : HostName} {service : AdvertiseService}

theorem ServiceOf.additional_class (h : ServiceOf hostname service) {type : MdnsRecordType}
    {r : MdnsRecord} (hr : r ∈ buildAdditional service type) : r.rclass = mdnsClassIn := by
  rcases mem_buildAdditional hr with rfl | rfl | rfl | rfl
  · rw [h.recordSrv]
  · rw [h.recordA]
  · rw [h.recordAaaa]
  · rw [h.recordTxt]

theorem update_class {r : MdnsRecord} (hr : r.rclass = mdnsClassIn) (rclass : UInt16)
    (ttl : UInt32) : (mdnsRecordUpdateRclassTtl r rclass ttl).rclass = mdnsClassIn := by
  rw [mdnsRecordUpdateRclassTtl_classIn hr]
  exact hr

theorem ServiceOf.announcement_classIn (h : ServiceOf hostname service) (buffer : Mem) :
    ClassesWritten (mdnsAnnounceMulticast buffer advertiseBufferCapacity service.recordPtr []
        (buildAdditional service .ptr)).buffer (fun _ c => c = mdnsClassIn)
      (multicastFields buffer advertiseBufferCapacity service.recordPtr
        (buildAdditional service .ptr) (mdnsClassIn ||| mdnsCacheFlush) 60) := by
  have hr := h.rooms.1
  have hadd := h.buildAdditional_room .ptr
  have hcap : advertiseBufferCapacity = 2048 := rfl
  have htype : service.recordPtr.type ≠ .txt := by simp [h.record_types.1]
  exact multicastFields_written advertiseBufferCapacity_reach htype
    (h.buildAdditional_txtLast .ptr) (by omega) fun r hr => update_class (h.classes hr).1 _ _

theorem plainFields_srv (hne : service.recordSrv.type ≠ .txt) {capacity : Nat}
    {update : MdnsRecord → MdnsRecord} {w : MdnsWriter} :
    plainFields capacity update w (buildAdditional service .ptr) =
      (service.recordSrv,classField capacity w service.recordSrv) ::
        plainFields capacity update (mdnsAnswerAddRecord capacity w (update service.recordSrv))
          (buildAdditional service .srv) := by
  have hadd : buildAdditional service .ptr = service.recordSrv :: buildAdditional service .srv := by
    simp [buildAdditional]
  rw [hadd,plainFields,if_neg hne]

theorem ServiceOf.not_flushesIn (h : ServiceOf hostname service) (buffer : Mem) :
    ¬ FlushesIn service buffer := by
  intro hflush
  have hsrv : ∃ field, (service.recordSrv,field) ∈ multicastFields buffer advertiseBufferCapacity
      service.recordPtr (buildAdditional service .ptr) (mdnsClassIn ||| mdnsCacheFlush) 60 := by
    have hne : service.recordSrv.type ≠ .txt := by simp [h.record_types.2.1]
    simp only [multicastFields,sectionFields,plainFields_srv hne]
    exact ⟨_,List.mem_cons_of_mem _ (List.mem_append_left _ List.mem_cons_self)⟩
  obtain ⟨field,hmem⟩ := hsrv
  obtain ⟨p,hp,hc⟩ := hflush _ hmem
  obtain ⟨p',hp',hc'⟩ := h.announcement_classIn buffer _ hmem
  obtain rfl := Option.some.inj (hp.symm.trans hp')
  rw [hc'] at hc
  simp [h.record_types.2.1] at hc
  contradiction

theorem ServiceOf.not_announcementsFlush (h : ServiceOf hostname service)
    (hsocks : service.socks.v4 ≠ -1 ∨ service.socks.v6 ≠ -1) (state : ResponderState) :
    ¬ AnnouncementsFlush service state := by
  rintro ⟨h4,h6⟩
  rcases hsocks with hsock | hsock
  · exact h.not_flushesIn _ (h4 hsock)
  · exact h.not_flushesIn _ (h6 hsock)

theorem ServiceOf.unicastPlain (h : ServiceOf hostname service) : UnicastPlain service := by
  intro name rtype answer additional ha sendBuffer queryId
  obtain ⟨htxt,hroom⟩ := h.serviceAnswer_fits ha
  have hplain : mdnsClassIn &&& mdnsCacheFlush = 0 := by decide
  obtain ⟨type,rfl⟩ := h.answer_additional ha
  refine unicastFields_written queryId rtype sendBufferCapacity_reach htxt
    (h.buildAdditional_txtLast type) hroom (fun _ _ => hplain) ?_
  intro r hr
  rw [update_class (h.additional_class hr)]
  exact hplain

end Service

/-- No announcement of any service has the cache-flush bit where it belongs, and no unicast
answer has it at all. -/
theorem announcements_never_flush {env : AdvertiseEnv} {port : UInt16} {service : AdvertiseService}
    (h : advertiseCreateService env port = some service) (state : ResponderState) :
    ¬ AnnouncementsFlush service state ∧ UnicastPlain service := by
  obtain ⟨hostname,-,hof⟩ := advertiseCreateService_serviceOf h
  obtain ⟨ifaddr,hostname',socks,-,-,-,hsocks,hmade⟩ := advertiseCreateService_made h
  have heq : service.socks = socks := by
    rw [hmade]
    rfl
  rw [← heq] at hsocks
  exact ⟨hof.not_announcementsFlush hsocks state,hof.unicastPlain⟩

theorem announcements_never_flush_hostA :
    let state : ResponderState := ⟨fun _ => 0,fun _ => 0,[]⟩
    ¬ AnnouncementsFlush (oneInterfaceService hostA 7777) state ∧
      UnicastPlain (oneInterfaceService hostA 7777) :=
  announcements_never_flush (advertiseCreateService_oneInterface hostA 7777) _

theorem announcement_of_hostA_flushes_nothing :
    let service := oneInterfaceService hostA 7777
    let state : ResponderState := ⟨fun _ => 0,fun _ => 0,[]⟩
    advertiseCreateService (oneInterface hostA) 7777 = some service ∧
      (advertiseAnnounceService service state).sent.length = 1 ∧
      ¬ (AnnouncementsFlush service state ∧ UnicastPlain service) := by
  refine ⟨rfl,by decide +kernel,?_⟩
  rintro ⟨h,-⟩
  have hof : ServiceOf hostA (oneInterfaceService hostA 7777) :=
    serviceOf_createMdnsRecords hostA (Or.inl rfl) _ _
  exact hof.not_announcementsFlush (Or.inl (by decide)) _ h

end WlrRemote
