import WlrRemote.NameWriting

/-!
The text of a message: a pure account of the bytes that the writers compose, one
record after the other, and the proof that they compose these bytes.
-/

set_option autoImplicit false

namespace WlrRemote
open Octets SuffixTable

structure RecordImage where
  name : Bytes
  rtype : UInt16
  rclass : UInt16
  ttl : UInt32
  rdata : Bytes
  deriving DecidableEq, Repr

def RecordImage.fields (r : RecordImage) : Bytes := be16 r.rtype ++ be16 r.rclass ++ be32 r.ttl

def RecordImage.bytes (r : RecordImage) : Bytes :=
  r.name ++ (r.fields ++ (be16 (UInt16.ofNat r.rdata.length) ++ r.rdata))

namespace NameState

def encodeName (st : NameState) (name : Bytes) : Option (Bytes × NameState) :=
  (st.spelling name).map fun spelled =>
    (st.nameBytes spelled.1 spelled.2,st.add spelled.1 spelled.2)

/-- The data of a record; of TXT records the empty one. -/
def encodeData (st : NameState) : MdnsRecordData → Option (Bytes × NameState)
  | .ptr name => st.encodeName name
  | .srv priority weight port name =>
    ((st.skip 6).encodeName name).map fun encoded =>
      (be16 priority ++ be16 weight ++ be16 port ++ encoded.1,encoded.2)
  | .a addr => some (addr.sinAddr.toList,st.skip 4)
  | .aaaa addr => some (addr.sin6Addr.toList,st.skip 16)
  | .txt [] [] => some ([1,0],st.skip 2)
  | .txt _ _ => none

def encodeRecord (st : NameState) (r : MdnsRecord) : Option (RecordImage × NameState) :=
  (st.encodeName r.name).bind fun owner =>
    ((owner.2.skip 10).encodeData r.data).map fun data =>
      (⟨owner.1,r.type.code,r.rclass,r.ttl,data.1⟩,data.2)

def encodeRecords : NameState → List MdnsRecord → Option (List RecordImage × NameState)
  | st, [] => some ([],st)
  | st, r :: rs =>
    (st.encodeRecord r).bind fun first =>
      (encodeRecords first.2 rs).map fun rest => (first.1 :: rest.1,rest.2)

end NameState

def NameState.start : NameState := ⟨[],[],12⟩

def imagesBytes (images : List RecordImage) : Bytes := images.flatMap RecordImage.bytes

namespace NameState

variable {st st' : NameState}

theorem encodeName_pos {name bs : Bytes} (h : st.encodeName name = some (bs,st')) :
    st'.pos = st.pos + bs.length := by
  obtain ⟨spelled,-,he⟩ := Option.map_eq_some_iff.mp h
  obtain ⟨rfl,rfl⟩ := Prod.mk.inj he
  rfl

theorem encodeData_pos {data : MdnsRecordData} {bs : Bytes}
    (h : st.encodeData data = some (bs,st')) : st'.pos = st.pos + bs.length := by
  cases data with
  | ptr name => exact encodeName_pos h
  | srv priority weight port name =>
    obtain ⟨encoded,hn,he⟩ := Option.map_eq_some_iff.mp h
    obtain ⟨rfl,rfl⟩ := Prod.mk.inj he
    have hpos := encodeName_pos hn
    simp only [skip] at hpos
    simp only [List.length_append,length_be16]
    omega
  | a addr =>
    obtain ⟨rfl,rfl⟩ := Prod.mk.inj (Option.some.inj h)
    simp [skip]
  | aaaa addr =>
    obtain ⟨rfl,rfl⟩ := Prod.mk.inj (Option.some.inj h)
    simp [skip]
  | txt key value =>
    cases key with
    | cons b key => contradiction
    | nil =>
      cases value with
      | cons b value => contradiction
      | nil =>
        obtain ⟨rfl,rfl⟩ := Prod.mk.inj (Option.some.inj h)
        simp [skip]

theorem encodeRecord_cases {r : MdnsRecord} {image : RecordImage}
    (h : st.encodeRecord r = some (image,st')) : ∃ owner data st₁,
      st.encodeName r.name = some (owner,st₁) ∧
      (st₁.skip 10).encodeData r.data = some (data,st') ∧
      image = ⟨owner,r.type.code,r.rclass,r.ttl,data⟩ := by
  obtain ⟨⟨owner,st₁⟩,hn,h⟩ := Option.bind_eq_some_iff.mp h
  obtain ⟨⟨data,st₂⟩,hd,he⟩ := Option.map_eq_some_iff.mp h
  obtain ⟨rfl,rfl⟩ := Prod.mk.inj he
  exact ⟨owner,data,st₁,hn,hd,rfl⟩

theorem encodeRecord_pos {r : MdnsRecord} {image : RecordImage}
    (h : st.encodeRecord r = some (image,st')) : st'.pos = st.pos + image.bytes.length := by
  obtain ⟨owner,data,st₁,hn,hd,rfl⟩ := encodeRecord_cases h
  have hpos := encodeName_pos hn
  have hpos' := encodeData_pos hd
  simp only [skip] at hpos'
  simp only [RecordImage.bytes,RecordImage.fields,List.length_append,length_be16,length_be32]
  omega

theorem encodeRecord_update (st : NameState) (r : MdnsRecord) (rclass : UInt16) (ttl : UInt32) :
    st.encodeRecord { r with rclass := rclass, ttl := ttl } = (st.encodeRecord r).map fun encoded =>
      ({ encoded.1 with rclass := rclass, ttl := ttl },encoded.2) := by
  unfold encodeRecord
  cases st.encodeName r.name with
  | none => rfl
  | some owner =>
    simp only [Option.bind_some,Option.map_map]
    rfl

end NameState

def MdnsRecordData.name : MdnsRecordData → Bytes
  | .ptr name => name
  | .srv _ _ _ name => name
  | .a _ => []
  | .aaaa _ => []
  | .txt _ _ => []

def MdnsRecord.Short (r : MdnsRecord) : Prop := r.name.length < 192 ∧ r.data.name.length < 192

theorem Laid.encodeName {m : Mem} {st st' : NameState} (h : Laid m st) {name bs : Bytes}
    (hname : name.length < 192) (henc : st.encodeName name = some (bs,st'))
    (hread : m.read st.pos bs.length = bs) (hpos : st'.pos ≤ 0x4000) : Laid m st' := by
  obtain ⟨⟨cur,link⟩,hspell,he⟩ := Option.map_eq_some_iff.mp henc
  obtain ⟨rfl,rfl⟩ := Prod.mk.inj he
  exact h.spelling hname hspell hread hpos

theorem Laid.encodeData {m : Mem} {st st' : NameState} (h : Laid m st) {data : MdnsRecordData}
    {bs : Bytes} (hname : data.name.length < 192) (henc : st.encodeData data = some (bs,st'))
    (hread : m.read st.pos bs.length = bs) (hpos : st'.pos ≤ 0x4000) : Laid m st' := by
  cases data with
  | ptr name => exact h.encodeName hname henc hread hpos
  | srv priority weight port name =>
    obtain ⟨⟨bs',st₁⟩,hn,he⟩ := Option.map_eq_some_iff.mp henc
    obtain ⟨rfl,rfl⟩ := Prod.mk.inj he
    have hp := NameState.encodeName_pos hn
    replace hpos : st₁.pos ≤ 0x4000 := hpos
    rw [List.length_append,Mem.read_add] at hread
    obtain ⟨-,hrest⟩ := List.append_inj hread (by simp)
    exact (h.skip (by simp only [NameState.skip] at hp; omega)).encodeName hname hn hrest hpos
  | a addr =>
    obtain ⟨rfl,rfl⟩ := Prod.mk.inj (Option.some.inj henc)
    exact h.skip hpos
  | aaaa addr =>
    obtain ⟨rfl,rfl⟩ := Prod.mk.inj (Option.some.inj henc)
    exact h.skip hpos
  | txt key value =>
    cases key with
    | cons b key => contradiction
    | nil =>
      cases value with
      | cons b value => contradiction
      | nil =>
        obtain ⟨rfl,rfl⟩ := Prod.mk.inj (Option.some.inj henc)
        exact h.skip hpos

theorem RecordImage.read_parts {m : Mem} {a : Nat} {r : RecordImage}
    (h : m.read a r.bytes.length = r.bytes) :
    m.read a r.name.length = r.name ∧ m.read (a + r.name.length) 8 = r.fields ∧
      m.read (a + r.name.length + 8) 2 = be16 (UInt16.ofNat r.rdata.length) ∧
      m.read (a + r.name.length + 10) r.rdata.length = r.rdata := by
  rw [RecordImage.bytes,List.length_append,Mem.read_add] at h
  obtain ⟨hname,h⟩ := List.append_inj h (by simp)
  rw [List.length_append,Mem.read_add] at h
  obtain ⟨hfields,h⟩ := List.append_inj h (by simp)
  rw [List.length_append,Mem.read_add] at h
  obtain ⟨hlen,hdata⟩ := List.append_inj h (by simp)
  exact ⟨hname,hfields,hlen,hdata⟩

theorem Laid.encodeRecord {m : Mem} {st st' : NameState} (h : Laid m st) {r : MdnsRecord}
    {image : RecordImage} (hshort : r.Short) (henc : st.encodeRecord r = some (image,st'))
    (hread : m.read st.pos image.bytes.length = image.bytes) (hpos : st'.pos ≤ 0x4000) :
    Laid m st' := by
  obtain ⟨owner,data,st₁,hn,hd,rfl⟩ := NameState.encodeRecord_cases henc
  have hp := NameState.encodeName_pos hn
  have hp' := NameState.encodeData_pos hd
  simp only [NameState.skip] at hp'
  obtain ⟨hname,-,-,hdata⟩ := RecordImage.read_parts hread
  have h₁ : Laid m st₁ := h.encodeName hshort.1 hn hname (by omega)
  refine (h₁.skip (by omega)).encodeData hshort.2 hd ?_ hpos
  rw [NameState.skip,hp]
  exact hdata

theorem Laid.makeName {buffer : Mem} {st st' : NameState} (h : Laid buffer st)
    {table : MdnsStringTable} (ht : TableOf table st.addrs) {capacity : Nat}
    (hcap : capacity ≤ 0x3FFF) {name bs : Bytes} (hroom : st.pos + (name.length + 2) ≤ capacity)
    (hname : name.length < 192) (henc : st.encodeName name = some (bs,st')) :
    let w := mdnsStringMake buffer capacity st.pos name table
    Written w st' ∧ w.buffer = buffer.write st.pos bs := by
  obtain ⟨⟨cur,link⟩,hspell,he⟩ := Option.map_eq_some_iff.mp henc
  obtain ⟨rfl,rfl⟩ := Prod.mk.inj he
  exact h.make ht hcap hroom hname hspell

theorem Laid.addRecordData {buffer : Mem} {st st' : NameState} (h : Laid buffer st)
    {table : MdnsStringTable} (ht : TableOf table st.addrs) {capacity : Nat}
    (hcap : capacity ≤ 0x3FFF) {r : MdnsRecord} {bs : Bytes} (htxt : r.type ≠ .txt)
    (hroom : st.pos + dataRoom r.data ≤ capacity) (hname : r.data.name.length < 192)
    (henc : st.encodeData r.data = some (bs,st')) :
    let w := mdnsAnswerAddRecordData buffer capacity st.pos r table
    Written w st' ∧ w.buffer = buffer.write st.pos bs := by
  unfold mdnsAnswerAddRecordData
  cases hdata : r.data with
  | ptr name =>
    rw [hdata] at hroom hname henc
    exact h.makeName ht hcap hroom hname henc
  | srv priority weight port name =>
    rw [hdata] at hroom hname henc
    rw [dataRoom] at hroom
    obtain ⟨⟨bs',st₁⟩,hn,he⟩ := Option.map_eq_some_iff.mp henc
    obtain ⟨rfl,rfl⟩ := Prod.mk.inj he
    have hcap' : ¬ capacity - st.pos ≤ 6 := by omega
    simp only [hcap',↓reduceIte]
    have hskip : Laid (buffer.write st.pos (be16 priority ++ be16 weight ++ be16 port))
        (st.skip 6) := by
      refine Laid.skip (h.congr (agreeBelow_write (Nat.le_refl _))) ?_
      omega
    have hroom' : (st.skip 6).pos + (name.length + 2) ≤ capacity := by
      simp only [NameState.skip]
      omega
    replace ht : TableOf table (st.skip 6).addrs := ht
    obtain ⟨hw,hbuf⟩ := hskip.makeName ht hcap hroom' hname hn
    refine ⟨hw,hbuf.trans ?_⟩
    rw [Mem.write_append buffer st.pos (be16 priority ++ be16 weight ++ be16 port) bs']
    rfl
  | a addr =>
    rw [hdata] at hroom henc
    rw [dataRoom] at hroom
    obtain ⟨rfl,rfl⟩ := Prod.mk.inj (Option.some.inj henc)
    have hcap' : ¬ capacity - st.pos < 4 := by omega
    simp only [hcap',↓reduceIte]
    refine ⟨⟨rfl,?_,ht⟩,trivial⟩
    exact Laid.skip (h.congr (agreeBelow_write (Nat.le_refl _))) (by omega)
  | aaaa addr =>
    rw [hdata] at hroom henc
    rw [dataRoom] at hroom
    obtain ⟨rfl,rfl⟩ := Prod.mk.inj (Option.some.inj henc)
    have hcap' : ¬ capacity - st.pos < 16 := by omega
    simp only [hcap',↓reduceIte]
    refine ⟨⟨rfl,?_,ht⟩,trivial⟩
    exact Laid.skip (h.congr (agreeBelow_write (Nat.le_refl _))) (by omega)
  | txt key value => simp [MdnsRecord.type,MdnsRecordData.type,hdata] at htxt

theorem Laid.addRecordHeader {buffer : Mem} {st st₁ : NameState} (h : Laid buffer st)
    {table : MdnsStringTable} (ht : TableOf table st.addrs) {capacity : Nat}
    (hcap : capacity ≤ 0x3FFF) {r : MdnsRecord} {owner : Bytes}
    (hroom : st.pos + (r.name.length + 12) ≤ capacity) (hname : r.name.length < 192)
    (henc : st.encodeName r.name = some (owner,st₁)) :
    let w := mdnsAnswerAddRecordHeader buffer capacity st.pos r table
    Written w (st₁.skip 10) ∧ w.buffer = buffer.write st.pos (owner ++
      (be16 r.type.code ++ be16 r.rclass ++ be32 r.ttl ++ be16 0)) := by
  obtain ⟨hw,hbuf⟩ := h.makeName ht hcap (by omega) hname henc
  obtain ⟨d,hd,-,hle,-⟩ : Extends buffer st.pos (r.name.length + 2)
    (mdnsStringMake buffer capacity st.pos r.name table) := mdnsStringMake_extends (by omega)
  have hpos := NameState.encodeName_pos henc
  have hdata := hw.data
  rw [hdata] at hd
  obtain rfl := Option.some.inj hd
  have hcap' : ¬ capacity - st₁.pos < 10 := by omega
  simp only [mdnsAnswerAddRecordHeader,hdata,hcap',↓reduceIte]
  refine ⟨⟨rfl,?_,hw.table⟩,?_⟩
  · exact Laid.skip (hw.laid.congr (agreeBelow_write (Nat.le_refl _))) (by omega)
  · rw [hbuf,Mem.write_append buffer st.pos owner,← hpos]

theorem RecordImage.patch (buffer : Mem) (a : Nat) (r : RecordImage) :
    ((buffer.write a (r.name ++ (r.fields ++ be16 0))).write (a + r.name.length + 10)
      r.rdata).write (a + r.name.length + 8) (be16 (UInt16.ofNat r.rdata.length)) =
      buffer.write a r.bytes := by
  have hfields : (r.name ++ r.fields).length = r.name.length + 8 := by
    simp [RecordImage.fields]
  have hfirst : (buffer.write a (r.name ++ (r.fields ++ be16 0))).write (a + r.name.length + 10)
      r.rdata = buffer.write a ((r.name ++ r.fields) ++ (be16 0 ++ r.rdata)) := by
    have hlen : a + (r.name ++ r.fields ++ be16 0).length = a + r.name.length + 10 := by
      rw [List.length_append,hfields,length_be16,Nat.add_assoc,Nat.add_assoc]
    rw [← List.append_assoc,← List.append_assoc,Mem.write_append _ _ (r.name ++ r.fields ++ be16 0),
      hlen]
  have hpatch := Mem.write_patch buffer a (r.name ++ r.fields) (be16 0)
    (be16 (UInt16.ofNat r.rdata.length)) r.rdata rfl
  rw [hfields,← Nat.add_assoc] at hpatch
  rw [hfirst,hpatch,RecordImage.bytes,List.append_assoc]

theorem Written.addRecord {w : MdnsWriter} {st st' : NameState} (h : Written w st)
    {capacity : Nat} (hcap : capacity ≤ 0x3FFF) {r : MdnsRecord} {image : RecordImage}
    (htxt : r.type ≠ .txt) (hroom : st.pos + recordRoom r ≤ capacity) (hshort : r.Short)
    (henc : st.encodeRecord r = some (image,st')) :
    let w' := mdnsAnswerAddRecord capacity w r
    Written w' st' ∧ w'.buffer = w.buffer.write st.pos image.bytes ∧
      st'.pos ≤ st.pos + recordRoom r := by
  obtain ⟨owner,data,st₁,hn,hd,himage⟩ := NameState.encodeRecord_cases henc
  have hend := NameState.encodeRecord_pos henc
  have hpos := NameState.encodeName_pos hn
  have hpos' := NameState.encodeData_pos hd
  obtain ⟨d,hdata,-,hle,-⟩ : Extends w.buffer st.pos (plainRoom r)
      (mdnsAnswerAddRecord capacity w r) :=
    mdnsAnswerAddRecord_extends h.data (by simp only [plainRoom,htxt,↓reduceIte]; exact hroom)
  simp only [plainRoom,htxt,↓reduceIte] at hle
  unfold recordRoom at hroom hle
  obtain ⟨hhead,hheadBuf⟩ := h.laid.addRecordHeader h.table hcap (by omega) hshort.1 hn
  obtain ⟨dh,hdh,-,hhle,-⟩ :
      ∃ d, (mdnsAnswerAddRecordHeader w.buffer capacity st.pos r w.table).data = some d ∧ _ :=
    mdnsAnswerAddRecordHeader_extends (by omega)
  rw [hhead.data] at hdh
  obtain rfl := Option.some.inj hdh
  simp only [mdnsAnswerAddRecord,h.data,htxt,↓reduceIte,hhead.data] at hdata ⊢
  generalize mdnsAnswerAddRecordHeader w.buffer capacity st.pos r w.table = wh at *
  obtain ⟨hbody,hbodyBuf⟩ := hhead.laid.addRecordData hhead.table hcap htxt (by omega) hshort.2 hd
  generalize mdnsAnswerAddRecordData wh.buffer capacity (st₁.skip 10).pos r wh.table = wd at *
  have hlen : st'.pos - (st₁.skip 10).pos = data.length := by omega
  have hbuf : wd.buffer.write ((st₁.skip 10).pos - 2) (be16 (UInt16.ofNat data.length)) =
      w.buffer.write st.pos image.bytes := by
    have hpatch := RecordImage.patch w.buffer st.pos image
    have hdataAt : (st₁.skip 10).pos = st.pos + owner.length + 10 := by
      rw [NameState.skip,hpos]
    rw [hbodyBuf,hheadBuf,hdataAt,← hpatch]
    subst himage
    rfl
  simp only [hbody.data,hlen,hbuf]
  have hlaid : Laid (w.buffer.write st.pos image.bytes) st :=
    h.laid.congr (agreeBelow_write (Nat.le_refl _))
  simp only [hbody.data,Option.some.injEq] at hdata
  refine ⟨⟨rfl,?_,hbody.table⟩,trivial,by unfold recordRoom; omega⟩
  exact hlaid.encodeRecord hshort henc (Mem.read_write _ _ _) (by omega)

/-- The records come in the order of the message: an empty TXT record, if any, last. -/
def TxtLast (records : List MdnsRecord) : Prop := ∃ plain txts, records = plain ++ txts ∧
  (∀ r ∈ plain, r.type ≠ .txt) ∧ (txts = [] ∨ ∃ t : MdnsRecord, txts = [t] ∧ t.data = .txt [] [])

theorem txtLoop_plain (capacity : Nat) (rclass : UInt16) (ttl : UInt32) {w : MdnsWriter} {d : Nat}
    (hd : w.data = some d) (recordData : Option Nat) {plain : List MdnsRecord}
    (hplain : ∀ r ∈ plain, r.type ≠ .txt) (txts : List MdnsRecord) :
    mdnsAnswerAddTxtRecordLoop capacity rclass ttl (plain ++ txts) recordData w =
      mdnsAnswerAddTxtRecordLoop capacity rclass ttl txts recordData w := by
  induction plain with
  | nil => rfl
  | cons r plain ih =>
    have hr := hplain r List.mem_cons_self
    have hrest := ih fun k hk => hplain k (List.mem_cons_of_mem r hk)
    cases hdata : r.data with
    | txt key value => simp [MdnsRecord.type,MdnsRecordData.type,hdata] at hr
    | ptr | srv | a | aaaa =>
      simp only [List.cons_append,mdnsAnswerAddTxtRecordLoop,hd,hdata,hrest]

theorem mdnsAnswerAddTxtRecord_plain {w : MdnsWriter} {d : Nat} (hd : w.data = some d)
    (capacity : Nat) (rclass : UInt16) (ttl : UInt32) {plain : List MdnsRecord}
    (hplain : ∀ r ∈ plain, r.type ≠ .txt) :
    mdnsAnswerAddTxtRecord capacity w plain rclass ttl = w := by
  have hloop := txtLoop_plain capacity rclass ttl hd none hplain []
  rw [List.append_nil] at hloop
  simp [mdnsAnswerAddTxtRecord,hloop,mdnsAnswerAddTxtRecordLoop]

theorem Written.addTxtRecord {w : MdnsWriter} {st st' : NameState} (h : Written w st)
    {capacity : Nat} (hcap : capacity ≤ 0x3FFF) {rclass : UInt16} {ttl : UInt32}
    {plain : List MdnsRecord} (hplain : ∀ r ∈ plain, r.type ≠ .txt) {t : MdnsRecord}
    (ht : t.data = .txt [] []) (hroom : st.pos + recordRoom t ≤ capacity)
    (hname : t.name.length < 192) {image : RecordImage}
    (henc : st.encodeRecord (mdnsRecordUpdateRclassTtl t rclass ttl) = some (image,st')) :
    let w' := mdnsAnswerAddTxtRecord capacity w (plain ++ [t]) rclass ttl
    Written w' st' ∧ w'.buffer = w.buffer.write st.pos image.bytes := by
  obtain ⟨owner,data,st₁,hn,hd,himage⟩ := NameState.encodeRecord_cases henc
  have hend := NameState.encodeRecord_pos henc
  have hpos := NameState.encodeName_pos hn
  have hdata : (mdnsRecordUpdateRclassTtl t rclass ttl).data = .txt [] [] := ht
  rw [hdata] at hd
  obtain ⟨hdataBytes,hst⟩ := Prod.mk.inj (Option.some.inj hd)
  simp only [recordRoom,ht,dataRoom,List.length_nil] at hroom
  have hroom' : st.pos + ((mdnsRecordUpdateRclassTtl t rclass ttl).name.length + 12) ≤
      capacity := by
    simp only [mdnsRecordUpdateRclassTtl]
    omega
  obtain ⟨hhead,hheadBuf⟩ := h.laid.addRecordHeader h.table hcap hroom' hname hn
  obtain ⟨dh,hdh,-,hhle,-⟩ : ∃ d, (mdnsAnswerAddRecordHeader w.buffer capacity st.pos
      (mdnsRecordUpdateRclassTtl t rclass ttl) w.table).data = some d ∧ _ :=
    mdnsAnswerAddRecordHeader_extends hroom'
  simp only [mdnsRecordUpdateRclassTtl] at hhle
  rw [hhead.data] at hdh
  obtain rfl := Option.some.inj hdh
  have hloop := txtLoop_plain capacity rclass ttl h.data none hplain [t]
  have hcap' : ¬ (capacity - (st₁.skip 10).pos ≤ 0 + 0 + 1 ∨ 0x3FFF < 0 + 0 + 1) := by omega
  simp only [mdnsAnswerAddTxtRecord,hloop,mdnsAnswerAddTxtRecordLoop,h.data,ht,
    Option.isNone_none,↓reduceIte,hhead.data,List.length_nil,Option.getD_none,hcap']
  generalize mdnsAnswerAddRecordHeader w.buffer capacity st.pos
    (mdnsRecordUpdateRclassTtl t rclass ttl) w.table = wh at *
  have hlen : (st₁.skip 10).pos + (0 + 2 + 0) - (st₁.skip 10).pos = data.length := by
    rw [← hdataBytes]
    simp
  have hstring : [UInt8.ofNat (0 + 0 + 1)] ++ [0] = data := hdataBytes
  have hdataAt : (st₁.skip 10).pos = st.pos + owner.length + 10 := by
    rw [NameState.skip,hpos]
  have hbuf : (wh.buffer.write (st₁.skip 10).pos data).write ((st₁.skip 10).pos - 2)
      (be16 (UInt16.ofNat data.length)) = w.buffer.write st.pos image.bytes := by
    have hpatch := RecordImage.patch w.buffer st.pos image
    rw [hheadBuf,hdataAt,← hpatch]
    subst himage
    rfl
  rw [hlen,hstring,hbuf]
  have hlaid : Laid (w.buffer.write st.pos image.bytes) st :=
    h.laid.congr (agreeBelow_write (Nat.le_refl _))
  have hshort : (mdnsRecordUpdateRclassTtl t rclass ttl).Short :=
    ⟨hname,by rw [hdata]; simp [MdnsRecordData.name]⟩
  have hst' : st'.pos = (st₁.skip 10).pos + 2 := by
    rw [← hst]
    rfl
  refine ⟨⟨by rw [hst'],?_,?_⟩,rfl⟩
  · exact hlaid.encodeRecord hshort henc (Mem.read_write _ _ _) (by omega)
  · rw [← hst]
    exact hhead.table

theorem imagesBytes_cons (image : RecordImage) (images : List RecordImage) :
    imagesBytes (image :: images) = image.bytes ++ imagesBytes images := rfl

namespace NameState

theorem encodeRecords_cons {st st' : NameState} {r : MdnsRecord} {rs : List MdnsRecord}
    {images : List RecordImage} (h : st.encodeRecords (r :: rs) = some (images,st')) :
    ∃ image st₁ rest, st.encodeRecord r = some (image,st₁) ∧
      st₁.encodeRecords rs = some (rest,st') ∧ images = image :: rest := by
  obtain ⟨⟨image,st₁⟩,hr,h⟩ := Option.bind_eq_some_iff.mp h
  obtain ⟨⟨rest,st₂⟩,hrest,he⟩ := Option.map_eq_some_iff.mp h
  obtain ⟨rfl,rfl⟩ := Prod.mk.inj he
  exact ⟨image,st₁,rest,hr,hrest,rfl⟩

theorem encodeRecords_append {st st' : NameState} {rs ts : List MdnsRecord}
    {images : List RecordImage} (h : st.encodeRecords (rs ++ ts) = some (images,st')) :
    ∃ images₁ st₁ images₂, st.encodeRecords rs = some (images₁,st₁) ∧
      st₁.encodeRecords ts = some (images₂,st') ∧ images = images₁ ++ images₂ := by
  induction rs generalizing st images with
  | nil => exact ⟨[],st,images,rfl,h,rfl⟩
  | cons r rs ih =>
    obtain ⟨image,st₁,rest,hr,hrest,rfl⟩ := encodeRecords_cons h
    obtain ⟨images₁,st₂,images₂,h₁,h₂,rfl⟩ := ih hrest
    exact ⟨image :: images₁,st₂,images₂,by simp [encodeRecords,hr,h₁],h₂,rfl⟩

theorem encodeRecords_pos {st st' : NameState} {rs : List MdnsRecord} {images : List RecordImage}
    (h : st.encodeRecords rs = some (images,st')) :
    st'.pos = st.pos + (imagesBytes images).length := by
  induction rs generalizing st images with
  | nil =>
    obtain ⟨rfl,rfl⟩ := Prod.mk.inj (Option.some.inj h)
    simp [imagesBytes]
  | cons r rs ih =>
    obtain ⟨image,st₁,rest,hr,hrest,rfl⟩ := encodeRecords_cons h
    have hpos := encodeRecord_pos hr
    have hpos' := ih hrest
    rw [imagesBytes_cons,List.length_append]
    omega

end NameState

theorem imagesBytes_append (is js : List RecordImage) :
    imagesBytes (is ++ js) = imagesBytes is ++ imagesBytes js := by
  simp [imagesBytes]

section Records

variable {f : MdnsRecord → MdnsRecord}
  (hf : ∀ r, f r = { r with rclass := (f r).rclass, ttl := (f r).ttl })
include hf

theorem Written.addRecords {w : MdnsWriter} {st st' : NameState} (h : Written w st)
    {capacity : Nat} (hcap : capacity ≤ 0x3FFF) {plain : List MdnsRecord}
    (hplain : ∀ r ∈ plain, r.type ≠ .txt) (hroom : st.pos + recordsRoom plain ≤ capacity)
    (hshort : ∀ r ∈ plain, r.Short) {images : List RecordImage}
    (henc : st.encodeRecords (plain.map f) = some (images,st')) :
    let w' := plain.foldl (fun w r => mdnsAnswerAddRecord capacity w (f r)) w
    Written w' st' ∧ w'.buffer = w.buffer.write st.pos (imagesBytes images) ∧
      st'.pos ≤ st.pos + recordsRoom plain := by
  induction plain generalizing w st images with
  | nil =>
    obtain ⟨rfl,rfl⟩ := Prod.mk.inj (Option.some.inj henc)
    exact ⟨h,by simp [imagesBytes],by simp [recordsRoom]⟩
  | cons r plain ih =>
    obtain ⟨image,st₁,rest,hr,hrest,rfl⟩ := NameState.encodeRecords_cons henc
    simp only [recordsRoom,List.map_cons,List.sum_cons] at hroom ⊢
    have hroomr : recordRoom (f r) = recordRoom r := by
      rw [hf r]
      rfl
    have htxt : (f r).type ≠ .txt := by
      rw [hf r]
      exact hplain r List.mem_cons_self
    have hs : (f r).Short := by
      rw [hf r]
      exact hshort r List.mem_cons_self
    obtain ⟨hw,hbuf,hle⟩ := h.addRecord hcap htxt (by omega) hs hr
    obtain ⟨hw',hbuf',hle'⟩ := ih hw (fun k hk => hplain k (List.mem_cons_of_mem r hk))
      (by simp only [recordsRoom]; omega) (fun k hk => hshort k (List.mem_cons_of_mem r hk)) hrest
    simp only [recordsRoom] at hle'
    refine ⟨hw',?_,by omega⟩
    have hpos := NameState.encodeRecord_pos hr
    rw [List.foldl_cons,hbuf',hbuf,imagesBytes_cons,Mem.write_append,← hpos]

theorem Written.addSection {w : MdnsWriter} {st st' : NameState} (h : Written w st)
    {capacity : Nat} (hcap : capacity ≤ 0x3FFF) {rclass : UInt16} {ttl : UInt32}
    {records : List MdnsRecord} (hrecords : TxtLast records)
    (htxt : ∀ r ∈ records, r.type = .txt → f r = mdnsRecordUpdateRclassTtl r rclass ttl)
    (hroom : st.pos + recordsRoom records ≤ capacity) (hshort : ∀ r ∈ records, r.Short)
    {images : List RecordImage} (henc : st.encodeRecords (records.map f) = some (images,st')) :
    let w' := mdnsAnswerAddTxtRecord capacity
      (records.foldl (fun w r => mdnsAnswerAddRecord capacity w (f r)) w) records rclass ttl
    Written w' st' ∧ w'.buffer = w.buffer.write st.pos (imagesBytes images) := by
  obtain ⟨plain,txts,rfl,hplain,htxts⟩ := hrecords
  have hroomSplit : recordsRoom (plain ++ txts) = recordsRoom plain + recordsRoom txts := by
    simp [recordsRoom]
  rw [hroomSplit] at hroom
  rw [List.map_append] at henc
  obtain ⟨images₁,st₁,images₂,henc₁,henc₂,rfl⟩ := NameState.encodeRecords_append henc
  obtain ⟨hw,hbuf,hle⟩ := h.addRecords hf hcap hplain (by omega)
    (fun r hr => hshort r (List.mem_append_left txts hr)) henc₁
  rcases htxts with rfl | ⟨t,rfl,ht⟩
  · obtain ⟨rfl,rfl⟩ := Prod.mk.inj (Option.some.inj henc₂)
    simp only [List.append_nil]
    rw [mdnsAnswerAddTxtRecord_plain hw.data capacity rclass ttl hplain]
    exact ⟨hw,hbuf⟩
  · have htype : t.type = .txt := by simp [MdnsRecord.type,MdnsRecordData.type,ht]
    have hskip : (f t).type = .txt := by
      rw [hf t]
      exact htype
    have hmem : t ∈ plain ++ [t] := List.mem_append_right plain List.mem_cons_self
    obtain ⟨image,st₂,rest,hr,hrest,rfl⟩ := NameState.encodeRecords_cons henc₂
    obtain ⟨rfl,rfl⟩ := Prod.mk.inj (Option.some.inj hrest)
    rw [htxt t hmem htype] at hr
    have hroomt : recordsRoom [t] = recordRoom t := by simp [recordsRoom]
    obtain ⟨hw',hbuf'⟩ := hw.addTxtRecord hcap hplain ht (by omega) (hshort t hmem).1 hr
    have hfold : (plain ++ [t]).foldl (fun w r => mdnsAnswerAddRecord capacity w (f r)) w =
        plain.foldl (fun w r => mdnsAnswerAddRecord capacity w (f r)) w := by
      rw [List.foldl_append,List.foldl_cons,List.foldl_nil,mdnsAnswerAddRecord]
      simp only [hw.data,hskip,↓reduceIte]
    rw [hfold]
    refine ⟨hw',?_⟩
    have hpos := NameState.encodeRecords_pos henc₁
    rw [hbuf',hbuf,imagesBytes_append,Mem.write_append,← hpos]
    simp [imagesBytes]

end Records

theorem Laid.start (m : Mem) : Laid m .start := ⟨by decide,rfl,by simp [NameState.start]⟩

theorem mdnsRecordUpdateRclassTtl_classIn {r : MdnsRecord} (h : r.rclass = mdnsClassIn)
    (rclass : UInt16) (ttl : UInt32) : mdnsRecordUpdateRclassTtl r rclass ttl =
      { r with ttl := if r.ttl = 0 ∨ ttl = 0 then ttl else r.ttl } := by
  obtain ⟨name,data,_,_⟩ := r
  simp only at h
  subst h
  have hset : mdnsClassIn ≠ 0 := by decide
  have hmask : mdnsClassIn &&& (mdnsClassIn ||| mdnsCacheFlush) = mdnsClassIn := by decide
  have hflush : mdnsClassIn &&& ~~~mdnsCacheFlush = mdnsClassIn := by decide
  simp [mdnsRecordUpdateRclassTtl,hset,hmask,hflush]

theorem mdnsRecordUpdateRclassTtl_eq (rclass : UInt16) (ttl : UInt32) (r : MdnsRecord) :
    mdnsRecordUpdateRclassTtl r rclass ttl = { r with
      rclass := (mdnsRecordUpdateRclassTtl r rclass ttl).rclass
      ttl := (mdnsRecordUpdateRclassTtl r rclass ttl).ttl } := rfl

def multicastHeader (additional : List MdnsRecord) : MdnsHeader :=
  ⟨0,0x8400,0,1,mdnsAnswerGetRecordCount [],mdnsAnswerGetRecordCount additional⟩

/-- A message to the group is its header and the images of its records. -/
theorem mdnsAnswerMulticastRclassTtl_text {buffer : Mem} {capacity : Nat} {answer : MdnsRecord}
    {additional : List MdnsRecord} {rclass : UInt16} {ttl : UInt32} (hcap : capacity ≤ 0x3FFF)
    (hanswer : answer.type ≠ .txt) (hadditional : TxtLast additional)
    (hshort : ∀ r ∈ answer :: additional, r.Short)
    (hroom : 48 + recordRoom answer + recordsRoom additional ≤ capacity)
    {images : List RecordImage} {st : NameState}
    (henc : NameState.start.encodeRecords ((answer :: additional).map fun r =>
      mdnsRecordUpdateRclassTtl r rclass ttl) = some (images,st)) :
    let w := mdnsAnswerMulticastRclassTtl buffer capacity answer [] additional rclass ttl
    w.data = some st.pos ∧
      w.buffer = buffer.write 0 ((multicastHeader additional).bytes ++ imagesBytes images) := by
  have hf := mdnsRecordUpdateRclassTtl_eq rclass ttl
  have hc : ¬ capacity < 12 + 32 + 4 := by omega
  rw [List.map_cons] at henc
  obtain ⟨image,st₁,rest,hr,hrest,rfl⟩ := NameState.encodeRecords_cons henc
  have hstart : Written ⟨buffer.write 0 (multicastHeader additional).bytes,some 12,.empty⟩ .start :=
    ⟨rfl,.start _,.empty⟩
  have htype : (mdnsRecordUpdateRclassTtl answer rclass ttl).type ≠ .txt := hanswer
  have hroomUpdate : recordRoom (mdnsRecordUpdateRclassTtl answer rclass ttl) =
      recordRoom answer := rfl
  have hpos : NameState.start.pos = 12 := rfl
  have hs : (mdnsRecordUpdateRclassTtl answer rclass ttl).Short :=
    hshort answer List.mem_cons_self
  obtain ⟨hw,hbuf,hle⟩ := hstart.addRecord hcap htype (by omega) hs hr
  obtain ⟨hw',hbuf'⟩ := hw.addSection hf hcap hadditional (fun r _ _ => rfl) (by omega)
    (fun r hr => hshort r (List.mem_cons_of_mem answer hr)) hrest
  have hposr := NameState.encodeRecord_pos hr
  have hempty : mdnsAnswerAddTxtRecord capacity _ [] rclass ttl = _ :=
    mdnsAnswerAddTxtRecord_plain hw.data capacity rclass ttl (by simp)
  simp only [mdnsAnswerMulticastRclassTtl,hc,↓reduceIte,List.foldl_nil]
  simp only [multicastHeader] at hempty hw' hbuf' hbuf ⊢
  rw [hempty]
  refine ⟨hw'.data,?_⟩
  rw [hbuf',hbuf,imagesBytes_cons,Mem.write_append,Mem.write_append,hposr]
  rfl

def unicastHeader (queryId : UInt16) (additional : List MdnsRecord) : MdnsHeader :=
  ⟨queryId,0x8400,1,1,mdnsAnswerGetRecordCount [],mdnsAnswerGetRecordCount additional⟩

def unicastRecords (answer : MdnsRecord) (additional : List MdnsRecord) : List MdnsRecord :=
  { answer with rclass := mdnsClassIn, ttl := 10 } :: additional.map fun r =>
    { r with rclass := mdnsClassIn, ttl := if r.ttl = 0 then 10 else r.ttl }

def questionFields (recordType : UInt16) : Bytes :=
  be16 recordType ++ be16 (mdnsUnicastResponse ||| mdnsClassIn)

/-- A message to one asker has the question between the two. -/
theorem mdnsQueryAnswerUnicast_text {buffer : Mem} {capacity : Nat} (queryId recordType : UInt16)
    {name : Bytes} {answer : MdnsRecord} {additional : List MdnsRecord} (hcap : capacity ≤ 0x3FFF)
    (hname : name.length < 192) (hanswer : answer.type ≠ .txt) (hadditional : TxtLast additional)
    (hclass : ∀ r ∈ additional, r.rclass = mdnsClassIn)
    (hshort : ∀ r ∈ answer :: additional, r.Short)
    (hroom : 48 + (name.length + 6) + recordRoom answer + recordsRoom additional ≤ capacity)
    {question : Bytes} {st₀ st : NameState} {images : List RecordImage}
    (hquestion : NameState.start.encodeName name = some (question,st₀))
    (henc : (st₀.skip 4).encodeRecords (unicastRecords answer additional) = some (images,st)) :
    let w := mdnsQueryAnswerUnicast buffer capacity queryId recordType name answer [] additional
    w.data = some st.pos ∧
      w.buffer = buffer.write 0 ((unicastHeader queryId additional).bytes ++
        (question ++ questionFields recordType ++ imagesBytes images)) := by
  have hc : ¬ capacity < 12 + 32 + 4 := by omega
  have hpos : NameState.start.pos = 12 := rfl
  obtain ⟨image,st₁,rest,hr,hrest,rfl⟩ := NameState.encodeRecords_cons henc
  have hmake := (Laid.start (buffer.write 0 (unicastHeader queryId additional).bytes)).makeName
    .empty hcap (by omega) hname hquestion
  obtain ⟨hw₀,hbuf₀⟩ := hmake
  obtain ⟨d,hd,-,hle₀,-⟩ : Extends (buffer.write 0 (unicastHeader queryId additional).bytes) 12
      (name.length + 2) (mdnsStringMake (buffer.write 0 (unicastHeader queryId additional).bytes)
        capacity 12 name .empty) := mdnsStringMake_extends (by omega)
  rw [hpos] at hw₀ hbuf₀
  rw [hw₀.data] at hd
  obtain rfl := Option.some.inj hd
  have hquestionPos := NameState.encodeName_pos hquestion
  have hcap₀ : ¬ capacity - st₀.pos < 4 := by omega
  have hdata₀ := hw₀.data
  simp only [unicastHeader] at hw₀ hbuf₀ hdata₀ ⊢
  simp only [mdnsQueryAnswerUnicast,hc,↓reduceIte,List.foldl_nil,mdnsAnswerAddQuestionUnicast,
    hdata₀,hcap₀]
  generalize mdnsStringMake _ capacity 12 name .empty = w₀ at *
  have hstart : Written ⟨w₀.buffer.write st₀.pos (questionFields recordType),some (st₀.pos + 4),
      w₀.table⟩ (st₀.skip 4) := by
    refine ⟨rfl,Laid.skip (hw₀.laid.congr (agreeBelow_write (Nat.le_refl _))) (by omega),hw₀.table⟩
  have htype : ({ answer with rclass := mdnsClassIn, ttl := 10 } : MdnsRecord).type ≠ .txt := hanswer
  have hroomUpdate : recordRoom { answer with rclass := mdnsClassIn, ttl := 10 } =
      recordRoom answer := rfl
  have hs : ({ answer with rclass := mdnsClassIn, ttl := 10 } : MdnsRecord).Short :=
    hshort answer List.mem_cons_self
  have hskip : (st₀.skip 4).pos = st₀.pos + 4 := rfl
  obtain ⟨hw,hbuf,hle⟩ := hstart.addRecord hcap htype (by omega) hs hr
  have hempty : mdnsAnswerAddTxtRecord capacity _ [] mdnsClassIn 10 = _ :=
    mdnsAnswerAddTxtRecord_plain hw.data capacity mdnsClassIn 10 (by simp)
  have htxt : ∀ r ∈ additional, r.type = .txt →
      ({ r with rclass := mdnsClassIn, ttl := if r.ttl = 0 then 10 else r.ttl } : MdnsRecord) =
        mdnsRecordUpdateRclassTtl r mdnsClassIn 10 := by
    intro r hr _
    have hrclass := hclass r hr
    simp [mdnsRecordUpdateRclassTtl_classIn hrclass,hrclass]
  obtain ⟨hw',hbuf'⟩ := hw.addSection (fun r => rfl) hcap hadditional htxt (by omega)
    (fun r hr => hshort r (List.mem_cons_of_mem answer hr)) hrest
  have hposr := NameState.encodeRecord_pos hr
  simp only [questionFields] at hempty hw' hbuf' hbuf hstart ⊢
  rw [hempty]
  refine ⟨hw'.data,?_⟩
  rw [hbuf',hbuf,hbuf₀]
  have hfields : (be16 recordType ++ be16 (mdnsUnicastResponse ||| mdnsClassIn)).length = 4 := rfl
  have hq : 12 + question.length = st₀.pos := by omega
  generalize be16 recordType ++ be16 (mdnsUnicastResponse ||| mdnsClassIn) = fields at hfields ⊢
  rw [imagesBytes_cons,List.append_assoc,Mem.write_append _ 0,Mem.write_append _ _ question,
    Mem.write_append _ _ fields,Mem.write_append _ _ image.bytes,MdnsHeader.length_bytes,
    Nat.zero_add,hq,hfields,← hskip,hposr]

theorem mdnsQueryAnswerUnicast_begins {buffer : Mem} {capacity : Nat} (queryId recordType : UInt16)
    {name bs : Bytes} {answer : MdnsRecord} {additional : List MdnsRecord}
    (hdata : (mdnsStringMake (buffer.write 0 (unicastHeader queryId additional).bytes) capacity 12
      name .empty).data = some (12 + bs.length))
    (hbuffer : (mdnsStringMake (buffer.write 0 (unicastHeader queryId additional).bytes) capacity 12
      name .empty).buffer = (buffer.write 0 (unicastHeader queryId additional).bytes).write 12 bs)
    (hcap : capacity ≤ 0x3FFF) (hanswer : answer.type ≠ .txt)
    (hroom : 48 + (name.length + 6) + recordRoom answer + recordsRoom additional ≤ capacity)
    (sock : Int) (dest : Option Sockaddr) : ∃ rest,
      (mdnsQueryAnswerUnicast buffer capacity queryId recordType name answer [] additional).sent
        sock dest = [⟨sock,dest,(unicastHeader queryId additional).bytes ++
          (bs ++ questionFields recordType) ++ rest⟩] := by
  let begun := buffer.write 0 (unicastHeader queryId additional).bytes
  obtain ⟨d,hd,-,hle,-⟩ : Extends begun 12 (name.length + 2)
      (mdnsStringMake begun capacity 12 name .empty) := mdnsStringMake_extends (by omega)
  rw [hdata] at hd
  obtain rfl := Option.some.inj hd
  have hfour : ¬ capacity - (12 + bs.length) < 4 := by omega
  have hquestion : mdnsAnswerAddQuestionUnicast begun capacity 12 recordType name .empty =
      ⟨(begun.write 12 bs).write (12 + bs.length) (questionFields recordType),
        some (12 + bs.length + 4),(mdnsStringMake begun capacity 12 name .empty).table⟩ := by
    simp only [begun,mdnsAnswerAddQuestionUnicast,hdata,hfour,↓reduceIte,hbuffer]
    rfl
  obtain ⟨d,hd,hle',-,hagree⟩ := mdnsQueryAnswerUnicast_afterQuestion queryId recordType name hcap
    hanswer (by omega) (congrArg MdnsWriter.data hquestion)
    (by omega : 12 + bs.length + 4 + (recordRoom answer + recordsRoom additional) ≤ capacity)
  have htext : (begun.write 12 bs).write (12 + bs.length) (questionFields recordType) =
      buffer.write 0 ((unicastHeader queryId additional).bytes ++
        (bs ++ questionFields recordType)) := by
    rw [Mem.write_append,Mem.write_append,MdnsHeader.length_bytes]
  have hlen : 12 + bs.length + 4 = ((unicastHeader queryId additional).bytes ++
      (bs ++ questionFields recordType)).length := by
    rw [List.length_append,List.length_append,MdnsHeader.length_bytes,Nat.add_assoc]
    rfl
  change AgreeBelow (12 + bs.length + 4)
    (mdnsAnswerAddQuestionUnicast begun capacity 12 recordType name .empty).buffer _ at hagree
  rw [hquestion,htext] at hagree
  generalize mdnsQueryAnswerUnicast buffer capacity queryId recordType name answer [] additional = w
    at hd hagree
  obtain ⟨more,rfl⟩ := Nat.exists_eq_add_of_le hle'
  refine ⟨w.buffer.read (12 + bs.length + 4) more,?_⟩
  have hbegin : w.buffer.read 0 (12 + bs.length + 4) = (unicastHeader queryId additional).bytes ++
      (bs ++ questionFields recordType) := by
    rw [← hagree.read (by omega),hlen,Mem.read_write]
  simp only [MdnsWriter.sent,hd]
  rw [Mem.read_add,hbegin,Nat.zero_add]

end WlrRemote
