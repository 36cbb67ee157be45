import WlrRemote.NameReading
import WlrRemote.MessageText
import WlrRemote.MdnsListen

set_option autoImplicit false

namespace WlrRemote
open Octets SuffixTable

inductive DataMeaning where
  | ptr (name : Bytes)
  | srv (data : MdnsRecordSrv)
  | a (addr : Bytes)
  | aaaa (addr : Bytes)
  | other
  deriving DecidableEq, Repr

structure RecordMeaning where
  name : Bytes
  rtype : UInt16
  data : DataMeaning
  deriving DecidableEq, Repr

structure QuestionMeaning where
  name : Bytes
  rtype : UInt16
  rclass : UInt16
  deriving DecidableEq, Repr

structure MessageMeaning where
  questions : List QuestionMeaning
  answers : List RecordMeaning
  authority : List RecordMeaning
  additional : List RecordMeaning
  deriving DecidableEq, Repr

def MdnsRecordData.meaning : MdnsRecordData → DataMeaning
  | .ptr name => .ptr name
  | .srv priority weight port name => .srv ⟨priority,weight,port,name⟩
  | .a addr => .a addr.sinAddr.toList
  | .aaaa addr => .aaaa addr.sin6Addr.toList
  | .txt _ _ => .other

def MdnsRecord.meaning (r : MdnsRecord) : RecordMeaning := ⟨r.name,r.type.code,r.data.meaning⟩

def nameCapacity : Nat := 256

def decodeQuestion (m : Mem) (size p : Nat) : Option (QuestionMeaning × Nat) :=
  (mdnsStringExtract m size p nameCapacity).bind fun name =>
    if name.2 + 4 ≤ size then
      some (⟨name.1,m.be16 name.2,m.be16 (name.2 + 2)⟩,name.2 + 4)
    else none

def decodeData (m : Mem) (size p length : Nat) (rtype : UInt16) : DataMeaning :=
  if rtype = MdnsRecordType.ptr.code then .ptr (mdnsRecordParsePtr m size p length nameCapacity)
  else if rtype = MdnsRecordType.srv.code then
    .srv (mdnsRecordParseSrv m size p length nameCapacity)
  else if rtype = MdnsRecordType.a.code then .a (mdnsRecordParseA m size p length)
  else if rtype = MdnsRecordType.aaaa.code then .aaaa (mdnsRecordParseAaaa m size p length)
  else .other

def decodeRecord (m : Mem) (size p : Nat) : Option (RecordMeaning × Nat) :=
  (mdnsStringExtract m size p nameCapacity).bind fun name =>
    let length := (m.be16 (name.2 + 8)).toNat
    if name.2 + 10 + length ≤ size then
      some (⟨name.1,m.be16 name.2,decodeData m size (name.2 + 10) length (m.be16 name.2)⟩,
        name.2 + 10 + length)
    else none

def decodeMany {α : Type} (decode : Nat → Option (α × Nat)) : Nat → Nat → Option (List α × Nat)
  | 0, p => some ([],p)
  | n + 1, p =>
    (decode p).bind fun first =>
      (decodeMany decode n first.2).map fun rest => (first.1 :: rest.1,rest.2)

/-- The sections as the header counts them, and where they end. -/
def decodeMessage (bytes : Bytes) : Option (MessageMeaning × Nat) :=
  let m := Mem.write (fun _ => 0) 0 bytes
  let size := bytes.length
  if size < 12 then none
  else
    (decodeMany (decodeQuestion m size) (m.be16 4).toNat 12).bind fun questions =>
      (decodeMany (decodeRecord m size) (m.be16 6).toNat questions.2).bind fun answers =>
        (decodeMany (decodeRecord m size) (m.be16 8).toNat answers.2).bind fun authority =>
          (decodeMany (decodeRecord m size) (m.be16 10).toNat authority.2).map fun additional =>
            (⟨questions.1,answers.1,authority.1,additional.1⟩,additional.2)

/-- A name of a message that can be read back: not too long, with one dot after each label. -/
structure Readable (name : Bytes) : Prop where
  length_le : name.length ≤ 128
  dotted : WlrRemote.dotted (nameLabels name) = name
  blank : ∀ l ∈ nameLabels name, l ≠ []
  ne_nil : nameLabels name ≠ []

/-- The names, written one after the other, all go on at what spells the rest of them. -/
def Faithful : List (Node Bytes) → List Bytes → Prop
  | _, [] => True
  | g, name :: names => ∃ cur link tail,
    spell List.isEmpty 16 g [] (nameLabels name) = some (cur,link) ∧
      nameLabels name = cur ++ tail ∧ Spells List.isEmpty g link tail ∧
      Faithful (g ++ chain g.length cur link) names

def MdnsRecordData.names : MdnsRecordData → List Bytes
  | .ptr name => [name]
  | .srv _ _ _ name => [name]
  | .a _ | .aaaa _ | .txt _ _ => []

def recordNames (r : MdnsRecord) : List Bytes := r.name :: r.data.names

theorem two_mul_length_le_dotted {ls : List Bytes} (h : ∀ l ∈ ls, l ≠ []) :
    2 * ls.length ≤ (dotted ls).length := by
  induction ls with
  | nil => simp
  | cons l ls ih =>
    have hl := List.length_pos_iff.mpr (h l List.mem_cons_self)
    have hrest := ih fun k hk => h k (List.mem_cons_of_mem l hk)
    rw [length_dotted_cons,List.length_cons]
    omega

theorem Faithful.encodeName {st : NameState} {name : Bytes} {names : List Bytes}
    (hf : Faithful st.nodes (name :: names)) (hname : Readable name) :
    ∃ bs st', st.encodeName name = some (bs,st') ∧ Faithful st'.nodes names ∧ 2 ≤ bs.length := by
  obtain ⟨cur,link,tail,hspell,hsplit,htail,hrest⟩ := hf
  have hspell' : st.spelling name = some (cur,link) := hspell
  refine ⟨st.nameBytes cur link,st.add cur link,by simp [NameState.encodeName,hspell'],hrest,?_⟩
  cases cur with
  | cons l ls =>
    have hlen := length_labelsBytes_cons l ls
    have hlink := length_linkBytes_pos (st.addrs ++ labelAddrs st.pos (l :: ls)) link
    rw [NameState.nameBytes,List.length_append]
    omega
  | nil =>
    cases link with
    | stop =>
      cases htail
      exact absurd hsplit hname.ne_nil
    | node k => simp [NameState.nameBytes,labelsBytes,linkBytes]

section Reading

variable {m : Mem} {st st' : NameState} {size : Nat} {bs : Bytes} {names : List Bytes}

theorem Laid.decodeName (h : Laid m st) {name : Bytes} (hname : Readable name)
    (hf : Faithful st.nodes (name :: names)) (henc : st.encodeName name = some (bs,st'))
    (hread : m.read st.pos bs.length = bs) (hpos : st'.pos ≤ 0x4000) (hsize : st'.pos ≤ size) :
    Laid m st' ∧ mdnsStringExtract m size st.pos nameCapacity = some (name,st'.pos) := by
  obtain ⟨cur,link,tail,hspell,hsplit,htail,-⟩ := hf
  have hspell' : st.spelling name = some (cur,link) := hspell
  obtain ⟨⟨cur',link'⟩,hspelled,he⟩ := Option.map_eq_some_iff.mp henc
  rw [hspell'] at hspelled
  obtain ⟨rfl,rfl⟩ := Prod.mk.inj (Option.some.inj hspelled)
  obtain ⟨rfl,rfl⟩ := Prod.mk.inj he
  have hle := hname.length_le
  have hcount := two_mul_length_le_dotted hname.blank
  have hdot := hname.dotted
  rw [hdot] at hcount
  have hcap : (dotted (nameLabels name)).length ≤ nameCapacity := by
    rw [hdot]
    unfold nameCapacity
    omega
  refine ⟨h.spelling (by omega) hspell' hread hpos,?_⟩
  rw [h.extract (by omega) hspell' hread hpos hsplit htail hname.blank hsize
    (by unfold mdnsMaxSubstrings; omega) hcap,hdot]

def MdnsRecordData.Sound (data : MdnsRecordData) : Prop :=
  (∀ key value, data = .txt key value → key = [] ∧ value = []) ∧ ∀ name ∈ data.names, Readable name

theorem Faithful.encodeData {st : NameState} {data : MdnsRecordData} {names : List Bytes}
    (hf : Faithful st.nodes (data.names ++ names)) (hdata : data.Sound) :
    ∃ bs st', st.encodeData data = some (bs,st') ∧ Faithful st'.nodes names := by
  obtain ⟨htxt,hread⟩ := hdata
  cases data with
  | ptr name =>
    obtain ⟨bs,st',henc,hrest,-⟩ := Faithful.encodeName hf (hread name List.mem_cons_self)
    exact ⟨bs,st',henc,hrest⟩
  | srv priority weight port name =>
    have hskip : Faithful (st.skip 6).nodes (name :: names) := hf
    obtain ⟨bs,st',henc,hrest,-⟩ := hskip.encodeName (hread name List.mem_cons_self)
    exact ⟨_,st',by simp [NameState.encodeData,henc]; rfl,hrest⟩
  | a addr => exact ⟨_,_,rfl,hf⟩
  | aaaa addr => exact ⟨_,_,rfl,hf⟩
  | txt key value =>
    obtain ⟨rfl,rfl⟩ := htxt key value rfl
    exact ⟨_,_,rfl,hf⟩

theorem Laid.decodeData (h : Laid m st) {data : MdnsRecordData} (hdata : data.Sound)
    (hf : Faithful st.nodes (data.names ++ names)) (henc : st.encodeData data = some (bs,st'))
    (hread : m.read st.pos bs.length = bs) (hpos : st'.pos ≤ 0x4000) (hsize : st'.pos ≤ size) :
    Laid m st' ∧ WlrRemote.decodeData m size st.pos bs.length data.type.code = data.meaning := by
  have hend := NameState.encodeData_pos henc
  have hfit : st.pos + bs.length ≤ size := by omega
  obtain ⟨htxt,hnames⟩ := hdata
  cases data with
  | ptr name =>
    have hname := hnames name List.mem_cons_self
    obtain ⟨bs',st₁,henc',-,hmin⟩ := Faithful.encodeName hf hname
    have henc₁ : st.encodeName name = some (bs,st') := henc
    rw [henc₁] at henc'
    obtain ⟨rfl,rfl⟩ := Prod.mk.inj (Option.some.inj henc')
    obtain ⟨hlaid,hextract⟩ := h.decodeName hname hf henc₁ hread hpos hsize
    refine ⟨hlaid,?_⟩
    simp [WlrRemote.decodeData,MdnsRecordData.type,MdnsRecordData.meaning,mdnsRecordParsePtr,hfit,
      hmin,hextract]
  | srv priority weight port name =>
    have hname := hnames name List.mem_cons_self
    have hskip : Faithful (st.skip 6).nodes (name :: names) := hf
    obtain ⟨bs',st₁,henc',-,hmin⟩ := hskip.encodeName hname
    have hencs := henc
    simp only [NameState.encodeData,henc',Option.map_some] at henc
    obtain ⟨rfl,rfl⟩ := Prod.mk.inj (Option.some.inj henc)
    simp only [List.length_append,length_be16] at hread hfit hend ⊢
    rw [Mem.read_add,Mem.read_add,Mem.read_add] at hread
    obtain ⟨hread,hnameRead⟩ := List.append_inj hread (by simp)
    obtain ⟨hread,hport⟩ := List.append_inj hread (by simp)
    obtain ⟨hpriority,hweight⟩ := List.append_inj hread (by simp)
    have hskipLaid : Laid m (st.skip 6) := h.skip (by omega)
    obtain ⟨hlaid,hextract⟩ := hskipLaid.decodeName hname hskip henc' hnameRead hpos hsize
    refine ⟨hlaid,?_⟩
    have hmin' : 8 ≤ 2 + 2 + 2 + bs'.length := by omega
    simp only [NameState.skip] at hextract
    simp [WlrRemote.decodeData,MdnsRecordData.type,MdnsRecordData.meaning,mdnsRecordParseSrv,hfit,
      hmin',hextract,MdnsRecordType.code,Mem.be16_of_read hpriority,Mem.be16_of_read hweight,
      Mem.be16_of_read hport]
  | a addr =>
    obtain ⟨rfl,rfl⟩ := Prod.mk.inj (Option.some.inj henc)
    refine ⟨h.skip hpos,?_⟩
    simp only [Vector.length_toList] at hread hfit ⊢
    simp [WlrRemote.decodeData,MdnsRecordData.type,MdnsRecordData.meaning,mdnsRecordParseA,hfit,
      hread,MdnsRecordType.code]
  | aaaa addr =>
    obtain ⟨rfl,rfl⟩ := Prod.mk.inj (Option.some.inj henc)
    refine ⟨h.skip hpos,?_⟩
    simp only [Vector.length_toList] at hread hfit ⊢
    simp [WlrRemote.decodeData,MdnsRecordData.type,MdnsRecordData.meaning,mdnsRecordParseAaaa,hfit,
      hread,MdnsRecordType.code]
  | txt key value =>
    obtain ⟨rfl,rfl⟩ := htxt key value rfl
    obtain ⟨rfl,rfl⟩ := Prod.mk.inj (Option.some.inj henc)
    refine ⟨h.skip hpos,?_⟩
    simp [WlrRemote.decodeData,MdnsRecordData.type,MdnsRecordData.meaning,MdnsRecordType.code]

def MdnsRecord.Sound (r : MdnsRecord) : Prop := Readable r.name ∧ r.data.Sound

theorem Faithful.encodeRecord {r : MdnsRecord} (hf : Faithful st.nodes (recordNames r ++ names))
    (hr : r.Sound) : ∃ image st', st.encodeRecord r = some (image,st') ∧
      Faithful st'.nodes names := by
  obtain ⟨owner,st₁,hn,hrest,-⟩ := Faithful.encodeName hf hr.1
  have hskip : Faithful (st₁.skip 10).nodes (r.data.names ++ names) := hrest
  obtain ⟨data,st',hd,hrest'⟩ := hskip.encodeData hr.2
  exact ⟨⟨owner,r.type.code,r.rclass,r.ttl,data⟩,st',by simp [NameState.encodeRecord,hn,hd],hrest'⟩

theorem Laid.decodeRecord (h : Laid m st) {r : MdnsRecord} (hr : r.Sound)
    (hf : Faithful st.nodes (recordNames r ++ names)) {image : RecordImage}
    (henc : st.encodeRecord r = some (image,st'))
    (hread : m.read st.pos image.bytes.length = image.bytes) (hpos : st'.pos ≤ 0x4000)
    (hsize : st'.pos ≤ size) :
    Laid m st' ∧ WlrRemote.decodeRecord m size st.pos = some (r.meaning,st'.pos) := by
  obtain ⟨owner,data,st₁,hn,hd,rfl⟩ := NameState.encodeRecord_cases henc
  have hp := NameState.encodeName_pos hn
  have hp' := NameState.encodeData_pos hd
  simp only [NameState.skip] at hp'
  obtain ⟨hnameRead,hfields,hlength,hdataRead⟩ := RecordImage.read_parts hread
  simp only [← hp] at hfields hlength hdataRead
  obtain ⟨hlaid,hname⟩ : Laid m st₁ ∧ mdnsStringExtract m size st.pos nameCapacity =
      some (r.name,st₁.pos) := h.decodeName hr.1 hf hn hnameRead (by omega) (by omega)
  obtain ⟨owner',st₂,hn',hrest,-⟩ := Faithful.encodeName hf hr.1
  rw [hn] at hn'
  obtain ⟨rfl,rfl⟩ := Prod.mk.inj (Option.some.inj hn')
  have hskip : Faithful (st₁.skip 10).nodes (r.data.names ++ names) := hrest
  have hskipLaid : Laid m (st₁.skip 10) := hlaid.skip (by omega)
  obtain ⟨hlaid',hdata⟩ := hskipLaid.decodeData hr.2 hskip hd hdataRead hpos hsize
  refine ⟨hlaid',?_⟩
  have htype : m.be16 st₁.pos = r.type.code := by
    rw [RecordImage.fields,List.append_assoc,Mem.read_add m st₁.pos 2 6] at hfields
    exact Mem.be16_of_read (List.append_inj hfields (by simp)).1
  have hlen : (m.be16 (st₁.pos + 8)).toNat = data.length := by
    rw [Mem.be16_of_read hlength,UInt16.toNat_ofNat']
    omega
  have hfit : st₁.pos + 10 + data.length ≤ size := by omega
  have hend : st₁.pos + 10 + data.length = st'.pos := by omega
  simp only [NameState.skip] at hdata
  simp only [WlrRemote.decodeRecord,hname,Option.bind_some,hlen,hfit,↓reduceIte,htype]
  rw [MdnsRecord.type,hdata,hend]
  rfl

theorem Faithful.encodeRecords {rs : List MdnsRecord}
    (hf : Faithful st.nodes (rs.flatMap recordNames)) (hrs : ∀ r ∈ rs, r.Sound) :
    ∃ images st', st.encodeRecords rs = some (images,st') := by
  induction rs generalizing st with
  | nil => exact ⟨[],st,rfl⟩
  | cons r rs ih =>
    obtain ⟨image,st₁,hr,hrest⟩ := Faithful.encodeRecord hf (hrs r List.mem_cons_self)
    obtain ⟨images,st',hrs'⟩ := ih hrest fun k hk => hrs k (List.mem_cons_of_mem r hk)
    exact ⟨image :: images,st',by simp [NameState.encodeRecords,hr,hrs']⟩

theorem Laid.decodeRecords (h : Laid m st) {rs : List MdnsRecord} (hrs : ∀ r ∈ rs, r.Sound)
    (hf : Faithful st.nodes (rs.flatMap recordNames)) {images : List RecordImage}
    (henc : st.encodeRecords rs = some (images,st'))
    (hread : m.read st.pos (imagesBytes images).length = imagesBytes images)
    (hpos : st'.pos ≤ 0x4000) (hsize : st'.pos ≤ size) :
    decodeMany (WlrRemote.decodeRecord m size) rs.length st.pos =
      some (rs.map MdnsRecord.meaning,st'.pos) := by
  induction rs generalizing st images with
  | nil =>
    obtain ⟨rfl,rfl⟩ := Prod.mk.inj (Option.some.inj henc)
    rfl
  | cons r rs ih =>
    obtain ⟨image,st₁,rest,hr,hrest,rfl⟩ := NameState.encodeRecords_cons henc
    have hp := NameState.encodeRecord_pos hr
    have hp' := NameState.encodeRecords_pos hrest
    have hsound := hrs r List.mem_cons_self
    obtain ⟨image',st₂,hr',hfrest⟩ := Faithful.encodeRecord hf hsound
    rw [hr] at hr'
    obtain ⟨rfl,rfl⟩ := Prod.mk.inj (Option.some.inj hr')
    rw [imagesBytes_cons,List.length_append,Mem.read_add] at hread
    obtain ⟨himage,himages⟩ := List.append_inj hread (by simp)
    rw [← hp] at himages
    obtain ⟨hlaid,hfirst⟩ : Laid m st₁ ∧ WlrRemote.decodeRecord m size st.pos =
      some (r.meaning,st₁.pos) := h.decodeRecord hsound hf hr himage (by omega) (by omega)
    have hmany := ih hlaid (fun k hk => hrs k (List.mem_cons_of_mem r hk)) hfrest hrest himages
    simp [decodeMany,hfirst,hmany]

theorem Laid.decodeQuestion (h : Laid m st) {name : Bytes} (hname : Readable name)
    (hf : Faithful st.nodes (name :: names)) (henc : st.encodeName name = some (bs,st'))
    {recordType : UInt16}
    (hread : m.read st.pos (bs.length + 4) = bs ++ questionFields recordType)
    (hpos : st'.pos + 4 ≤ 0x4000) (hsize : st'.pos + 4 ≤ size) :
    Laid m (st'.skip 4) ∧ WlrRemote.decodeQuestion m size st.pos =
      some (⟨name,recordType,mdnsUnicastResponse ||| mdnsClassIn⟩,(st'.skip 4).pos) := by
  have hp := NameState.encodeName_pos henc
  rw [Mem.read_add] at hread
  obtain ⟨hnameRead,hfields⟩ := List.append_inj hread (by simp)
  rw [questionFields,Mem.read_add m _ 2 2,← hp] at hfields
  obtain ⟨htype,hclass⟩ := List.append_inj hfields (by simp)
  obtain ⟨hlaid,hextract⟩ : Laid m st' ∧ mdnsStringExtract m size st.pos nameCapacity =
    some (name,st'.pos) := h.decodeName hname hf henc hnameRead (by omega) (by omega)
  refine ⟨hlaid.skip hpos,?_⟩
  simp [WlrRemote.decodeQuestion,hextract,hsize,Mem.be16_of_read htype,Mem.be16_of_read hclass,
    NameState.skip]

end Reading

theorem MdnsHeader.read_counts {m : Mem} {header : MdnsHeader}
    (h : m.read 0 12 = header.bytes) : m.be16 4 = header.questions ∧
      m.be16 6 = header.answerRrs ∧ m.be16 8 = header.authorityRrs ∧
      m.be16 10 = header.additionalRrs := by
  rw [MdnsHeader.bytes,Mem.read_add m 0 10 2] at h
  obtain ⟨h,hadditional⟩ := List.append_inj h (by simp)
  rw [Mem.read_add m 0 8 2] at h
  obtain ⟨h,hauthority⟩ := List.append_inj h (by simp)
  rw [Mem.read_add m 0 6 2] at h
  obtain ⟨h,hanswer⟩ := List.append_inj h (by simp)
  rw [Mem.read_add m 0 4 2] at h
  obtain ⟨-,hquestions⟩ := List.append_inj h (by simp)
  exact ⟨Mem.be16_of_read hquestions,Mem.be16_of_read hanswer,Mem.be16_of_read hauthority,
    Mem.be16_of_read hadditional⟩

theorem TxtLast.recordCount {records : List MdnsRecord} (h : TxtLast records)
    (hlen : records.length < 0x10000) :
    (mdnsAnswerGetRecordCount records).toNat = records.length := by
  obtain ⟨plain,txts,rfl,hplain,htxts⟩ := h
  have hcount : plain.countP (fun r => r.type ≠ .txt) = plain.length :=
    List.countP_eq_length.mpr fun r hr => by simpa using hplain r hr
  have hany : plain.any (fun r => r.type = .txt) = false := by
    simpa using hplain
  rw [List.length_append] at hlen ⊢
  rcases htxts with rfl | ⟨t,rfl,ht⟩
  · simp only [mdnsAnswerGetRecordCount,List.append_nil,hcount,hany,UInt16.toNat_ofNat']
    simp only [List.length_nil] at hlen ⊢
    simp
    omega
  · have htype : t.type = .txt := by simp [MdnsRecord.type,MdnsRecordData.type,ht]
    simp only [mdnsAnswerGetRecordCount,List.countP_append,List.any_append,hcount,hany]
    simp only [List.length_singleton] at hlen ⊢
    simp [htype]
    omega

def messageMem (bytes : Bytes) : Mem := Mem.write (fun _ => 0) 0 bytes

theorem decodeMessage_eq {bytes : Bytes} {header : MdnsHeader} (hsize : 12 ≤ bytes.length)
    (hheader : (messageMem bytes).read 0 12 = header.bytes) {questions : List QuestionMeaning}
    {st st' : NameState} (hquestions : decodeMany (decodeQuestion (messageMem bytes) bytes.length)
      header.questions.toNat 12 = some (questions,st.pos))
    (hlaid : Laid (messageMem bytes) st) {answer : MdnsRecord} {additional : List MdnsRecord}
    (hcounts : header.answerRrs = 1 ∧ header.authorityRrs = 0 ∧
      header.additionalRrs.toNat = additional.length)
    (hsound : ∀ r ∈ answer :: additional, r.Sound)
    (hf : Faithful st.nodes ((answer :: additional).flatMap recordNames))
    {images : List RecordImage} (henc : st.encodeRecords (answer :: additional) = some (images,st'))
    (hread : (messageMem bytes).read st.pos (imagesBytes images).length = imagesBytes images)
    (hpos : st'.pos ≤ 0x4000) (hend : st'.pos ≤ bytes.length) :
    decodeMessage bytes =
      some (⟨questions,[answer.meaning],[],additional.map MdnsRecord.meaning⟩,st'.pos) := by
  obtain ⟨hanswer,hauthority,hadditional⟩ := hcounts
  obtain ⟨hqcount,hacount,hucount,hdcount⟩ := MdnsHeader.read_counts hheader
  have hone : (1 : UInt16).toNat = 1 := rfl
  have hzero : (0 : UInt16).toNat = 0 := rfl
  have hlt : ¬ bytes.length < 12 := by omega
  have hmany := hlaid.decodeRecords hsound hf henc hread hpos hend
  simp only [List.length_cons,decodeMany,List.map_cons] at hmany
  obtain ⟨⟨first,p⟩,hfirst,hmany⟩ := Option.bind_eq_some_iff.mp hmany
  obtain ⟨⟨rest,q⟩,hrest,he⟩ := Option.map_eq_some_iff.mp hmany
  obtain ⟨hrecords,rfl⟩ := Prod.mk.inj he
  obtain ⟨rfl,rfl⟩ := List.cons.inj hrecords
  unfold decodeMessage
  rw [← messageMem]
  simp only [hlt,↓reduceIte,hqcount,hacount,hucount,hdcount,hquestions,hanswer,hauthority,
    hadditional,hone,hzero,decodeMany,Option.bind_some,hfirst,hrest,Option.map_some]

theorem messageMem_read {bytes : Bytes} {k n : Nat} (h : k + n ≤ bytes.length) :
    (messageMem bytes).read k n = (bytes.drop k).take n := by
  have hread := Mem.read_write_part (m := fun _ => 0) (a := 0) h
  rwa [Nat.zero_add] at hread

theorem messageMem_header (header : MdnsHeader) (bytes : Bytes) :
    (messageMem (header.bytes ++ bytes)).read 0 12 = header.bytes := by
  rw [messageMem_read (by rw [List.length_append,MdnsHeader.length_bytes]; omega),List.drop_zero]
  exact List.take_left' header.length_bytes

section Messages

variable {header : MdnsHeader} {answer : MdnsRecord} {additional : List MdnsRecord}
  {images : List RecordImage} {st : NameState}

theorem decodeMessage_multicast (hcounts : header.questions = 0 ∧ header.answerRrs = 1 ∧
      header.authorityRrs = 0 ∧ header.additionalRrs.toNat = additional.length)
    (hsound : ∀ r ∈ answer :: additional, r.Sound)
    (hf : Faithful [] ((answer :: additional).flatMap recordNames))
    (henc : NameState.start.encodeRecords (answer :: additional) = some (images,st))
    (hpos : st.pos ≤ 0x4000) :
    decodeMessage (header.bytes ++ imagesBytes images) =
      some (⟨[],[answer.meaning],[],additional.map MdnsRecord.meaning⟩,st.pos) := by
  have hend := NameState.encodeRecords_pos henc
  have hlen : (header.bytes ++ imagesBytes images).length = st.pos := by
    rw [List.length_append,MdnsHeader.length_bytes,hend]
    rfl
  have hstart : NameState.start.pos = 12 := rfl
  refine decodeMessage_eq (by omega) (messageMem_header header _) ?_ (.start _) hcounts.2 hsound hf
    henc ?_ hpos (by omega)
  · rw [hcounts.1]
    rfl
  · rw [messageMem_read (by omega),hstart,List.drop_left' header.length_bytes,List.take_length]

theorem decodeMessage_unicast (hcounts : header.questions = 1 ∧ header.answerRrs = 1 ∧
      header.authorityRrs = 0 ∧ header.additionalRrs.toNat = additional.length)
    (hsound : ∀ r ∈ answer :: additional, r.Sound) {name : Bytes} (hname : Readable name)
    (hf : Faithful [] (name :: (answer :: additional).flatMap recordNames)) {question : Bytes}
    {st₀ : NameState} (hquestion : NameState.start.encodeName name = some (question,st₀))
    (henc : (st₀.skip 4).encodeRecords (answer :: additional) = some (images,st))
    (hpos : st.pos ≤ 0x4000) (recordType : UInt16) :
    decodeMessage (header.bytes ++ (question ++ questionFields recordType ++ imagesBytes images)) =
      some (⟨[⟨name,recordType,mdnsUnicastResponse ||| mdnsClassIn⟩],[answer.meaning],[],
        additional.map MdnsRecord.meaning⟩,st.pos) := by
  have hend := NameState.encodeRecords_pos henc
  have hp₀ := NameState.encodeName_pos hquestion
  have hskip : (st₀.skip 4).pos = st₀.pos + 4 := rfl
  have hstart : NameState.start.pos = 12 := rfl
  have hfields : (questionFields recordType).length = 4 := rfl
  have hhead := header.length_bytes
  generalize hbytes : header.bytes ++ (question ++ questionFields recordType ++ imagesBytes images) =
    bytes
  have hlen : bytes.length = st.pos := by
    rw [← hbytes]
    simp only [List.length_append]
    omega
  have hquestionAt : (messageMem bytes).read 12 (question.length + 4) =
      question ++ questionFields recordType := by
    rw [messageMem_read (by omega),← hbytes,List.drop_left' hhead]
    exact List.take_left' (by rw [List.length_append,hfields])
  have himagesAt : (messageMem bytes).read (st₀.skip 4).pos (imagesBytes images).length =
      imagesBytes images := by
    rw [messageMem_read (by omega),← hbytes,← List.append_assoc,List.drop_left',List.take_length]
    simp only [List.length_append]
    omega
  obtain ⟨hlaid,hdecode⟩ := (Laid.start (messageMem bytes)).decodeQuestion hname hf hquestion
    hquestionAt (by omega) (by omega : _ ≤ bytes.length)
  have hf' : Faithful NameState.start.nodes (name :: (answer :: additional).flatMap recordNames) := hf
  obtain ⟨_,_,hquestion',hrest,-⟩ := hf'.encodeName hname
  rw [hquestion] at hquestion'
  obtain ⟨rfl,rfl⟩ := Prod.mk.inj (Option.some.inj hquestion')
  refine decodeMessage_eq (by omega) ?_ ?_ hlaid hcounts.2 hsound hrest henc himagesAt hpos
    (by omega)
  · rw [← hbytes]
    exact messageMem_header header _
  · rw [hcounts.1]
    rw [hstart] at hdecode
    simp [decodeMany,hdecode]

end Messages

end WlrRemote
