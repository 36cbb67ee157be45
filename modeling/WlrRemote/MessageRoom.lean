import WlrRemote.Advertise

set_option autoImplicit false

namespace WlrRemote
open Octets

/-- The writer went on from `data` by at most `n` bytes, and changed nothing below. -/
def Extends (buffer : Mem) (data n : Nat) (w : MdnsWriter) : Prop :=
  ∃ d, w.data = some d ∧ data ≤ d ∧ d ≤ data + n ∧ AgreeBelow data buffer w.buffer

theorem Extends.refl (w : MdnsWriter) {data : Nat} (h : w.data = some data) :
    Extends w.buffer data 0 w :=
  ⟨data,h,Nat.le_refl data,Nat.le_refl data,.refl data w.buffer⟩

theorem Extends.mono {buffer : Mem} {data n k : Nat} {w : MdnsWriter}
    (h : Extends buffer data n w) (hk : n ≤ k) : Extends buffer data k w := by
  obtain ⟨d,hd,hlt,hle,hagree⟩ := h
  exact ⟨d,hd,hlt,by omega,hagree⟩

theorem Extends.andThen {buffer : Mem} {data n k : Nat} {w w' : MdnsWriter}
    (h : Extends buffer data n w)
    (h' : ∀ d, w.data = some d → data ≤ d → d ≤ data + n → Extends w.buffer d k w') :
    Extends buffer data (n + k) w' := by
  obtain ⟨d,hd,hlt,hle,hagree⟩ := h
  obtain ⟨d',hd',hlt',hle',hagree'⟩ := h' d hd hlt hle
  exact ⟨d',hd',by omega,by omega,hagree.trans (hagree'.mono hlt)⟩

theorem extends_write {buffer : Mem} {data n : Nat} {bs : Bytes} {table : MdnsStringTable} :
    Extends buffer data n ⟨buffer.write data bs,some (data + n),table⟩ :=
  ⟨data + n,rfl,by omega,Nat.le_refl _,agreeBelow_write (Nat.le_refl data)⟩

theorem mdnsStringFind_bounds {str : Bytes} {length offset q : Nat} {c : UInt8}
    (h : mdnsStringFind str length c offset = some q) : offset ≤ q ∧ q < length := by
  unfold mdnsStringFind at h
  by_cases hl : length ≤ offset
  · simp [hl] at h
  · simp only [hl,↓reduceIte,Option.map_eq_some_iff] at h
    obtain ⟨i,hi,rfl⟩ := h
    have hlt := (List.idxOf?_eq_some_iff.mp hi).1
    rw [List.length_drop,List.length_take] at hlt
    omega

def nameRoom (length lastPos : Nat) : Nat := if lastPos < length then length - lastPos + 2 else 1

theorem next_label (name : Bytes) {length lastPos : Nat} (h : lastPos < length) :
    let pos := mdnsStringFind name length dot lastPos
    let subLength := pos.getD length - lastPos
    let next := (pos.map (· + 1)).getD length
    subLength ≤ length - lastPos ∧ lastPos < next ∧ next ≤ length ∧
      subLength + 1 + nameRoom length next ≤ length - lastPos + 2 := by
  cases hq : mdnsStringFind name length dot lastPos with
  | none => simp [nameRoom]; omega
  | some q =>
    have hb := mdnsStringFind_bounds hq
    simp only [Option.getD_some,Option.map_some,nameRoom]
    split <;> omega

theorem mdnsStringMakeLoop_extends {capacity : Nat} {name : Bytes} {length fuel lastPos data : Nat}
    {buffer : Mem} {table : MdnsStringTable} (hfuel : length < fuel + lastPos)
    (hle : lastPos ≤ length) (hroom : data + nameRoom length lastPos ≤ capacity) :
    Extends buffer data (nameRoom length lastPos)
      (mdnsStringMakeLoop capacity name length fuel buffer data lastPos table) := by
  induction fuel generalizing buffer data lastPos table with
  | zero => omega
  | succ fuel ih =>
    by_cases hlt : lastPos < length
    · simp only [mdnsStringMakeLoop,hlt,↓reduceIte]
      simp only [nameRoom,hlt,↓reduceIte] at hroom ⊢
      split
      · have hcap : ¬ capacity - data < 2 := by omega
        simp only [mdnsStringMakeRef,hcap,↓reduceIte]
        exact ⟨data + 2,rfl,by omega,by omega,agreeBelow_write (Nat.le_refl data)⟩
      · obtain ⟨hsub,hnext,hnext',hrest⟩ := next_label name hlt
        have hcap : ¬ capacity - data ≤
            (mdnsStringFind name length dot lastPos).getD length - lastPos + 1 := by omega
        have hroom' : data + ((mdnsStringFind name length dot lastPos).getD length - lastPos + 1) +
            nameRoom length (((mdnsStringFind name length dot lastPos).map (· + 1)).getD length) ≤
            capacity := by omega
        simp only [hcap,↓reduceIte]
        obtain ⟨d,hd,hlt',hle',hagree⟩ := ih (by omega) hnext' hroom'
        exact ⟨d,hd,by omega,by omega,
          (agreeBelow_write (Nat.le_refl data)).trans (hagree.mono (by omega))⟩
    · simp only [nameRoom,hlt,↓reduceIte] at hroom
      have hcap : ¬ capacity - data = 0 := by omega
      simp only [mdnsStringMakeLoop,nameRoom,hlt,hcap,↓reduceIte]
      exact ⟨data + 1,rfl,by omega,by omega,agreeBelow_write (Nat.le_refl data)⟩

theorem mdnsStringMake_extends {buffer : Mem} {capacity data : Nat} {name : Bytes}
    {table : MdnsStringTable} (hroom : data + (name.length + 2) ≤ capacity) :
    Extends buffer data (name.length + 2) (mdnsStringMake buffer capacity data name table) := by
  have hmake : ∀ length, length ≤ name.length → Extends buffer data (name.length + 2)
      (mdnsStringMakeLoop capacity name length (length + 1) buffer data 0 table) := by
    intro length hle
    have hr : nameRoom length 0 ≤ name.length + 2 := by
      unfold nameRoom
      split <;> omega
    have hloop : Extends buffer data (nameRoom length 0)
        (mdnsStringMakeLoop capacity name length (length + 1) buffer data 0 table) :=
      mdnsStringMakeLoop_extends (by omega) (by omega) (by omega)
    exact hloop.mono hr
  unfold mdnsStringMake
  split
  · exact hmake _ (by omega)
  · exact hmake _ (Nat.le_refl _)

theorem mdnsAnswerAddQuestionUnicast_extends {buffer : Mem} {capacity data : Nat}
    {recordType : UInt16} {name : Bytes} {table : MdnsStringTable}
    (hroom : data + (name.length + 6) ≤ capacity) : Extends buffer data (name.length + 6)
      (mdnsAnswerAddQuestionUnicast buffer capacity data recordType name table) := by
  have hname : Extends buffer data (name.length + 2)
      (mdnsStringMake buffer capacity data name table) := mdnsStringMake_extends (by omega)
  refine (hname.andThen (k := 4) fun d hd hlt hle => ?_).mono (by omega)
  have hcap : ¬ capacity - d < 4 := by omega
  simp only [mdnsAnswerAddQuestionUnicast,hd,hcap,↓reduceIte]
  exact extends_write

def dataRoom : MdnsRecordData → Nat
  | .ptr name => name.length + 2
  | .srv _ _ _ name => 6 + (name.length + 2)
  | .a _ => 4
  | .aaaa _ => 16
  | .txt key value => key.length + value.length + 2

def recordRoom (record : MdnsRecord) : Nat := record.name.length + 12 + dataRoom record.data

/-- The part of it that is taken when TXT records are passed over, and the other part. -/
def plainRoom (record : MdnsRecord) : Nat := if record.type = .txt then 0 else recordRoom record
def txtRoom (record : MdnsRecord) : Nat := if record.type = .txt then recordRoom record else 0

theorem plainRoom_add_txtRoom (record : MdnsRecord) :
    plainRoom record + txtRoom record = recordRoom record := by
  unfold plainRoom txtRoom
  split <;> omega

theorem mdnsAnswerAddRecordHeader_extends {buffer : Mem} {capacity data : Nat}
    {record : MdnsRecord} {table : MdnsStringTable}
    (hroom : data + (record.name.length + 12) ≤ capacity) :
    ∃ d, (mdnsAnswerAddRecordHeader buffer capacity data record table).data = some d ∧
      data + 10 ≤ d ∧ d ≤ data + (record.name.length + 12) ∧
      AgreeBelow data buffer (mdnsAnswerAddRecordHeader buffer capacity data record table).buffer := by
  have hname : Extends buffer data (record.name.length + 2)
      (mdnsStringMake buffer capacity data record.name table) := mdnsStringMake_extends (by omega)
  obtain ⟨d,hd,hlt,hle,hagree⟩ := hname
  have hcap : ¬ capacity - d < 10 := by omega
  simp only [mdnsAnswerAddRecordHeader,hd,hcap,↓reduceIte]
  exact ⟨d + 10,rfl,by omega,by omega,hagree.trans (agreeBelow_write (by omega))⟩

theorem mdnsAnswerAddRecordData_extends {buffer : Mem} {capacity data : Nat}
    {record : MdnsRecord} {table : MdnsStringTable} (htxt : record.type ≠ .txt)
    (hroom : data + dataRoom record.data ≤ capacity) :
    Extends buffer data (dataRoom record.data)
      (mdnsAnswerAddRecordData buffer capacity data record table) := by
  unfold mdnsAnswerAddRecordData
  cases hdata : record.data with
  | ptr name =>
    rw [hdata,dataRoom] at hroom
    exact mdnsStringMake_extends hroom
  | srv priority weight port name =>
    rw [hdata,dataRoom] at hroom
    have hcap : ¬ capacity - data ≤ 6 := by omega
    simp only [hcap,↓reduceIte,dataRoom]
    refine Extends.andThen (w := ⟨buffer.write data (be16 priority ++ be16 weight ++ be16 port),
      some (data + 6),table⟩) extends_write fun d hd _ _ => ?_
    obtain rfl := Option.some.inj hd
    exact mdnsStringMake_extends (by omega)
  | a addr =>
    rw [hdata,dataRoom] at hroom
    have hcap : ¬ capacity - data < 4 := by omega
    simp only [hcap,↓reduceIte]
    exact extends_write
  | aaaa addr =>
    rw [hdata,dataRoom] at hroom
    have hcap : ¬ capacity - data < 16 := by omega
    simp only [hcap,↓reduceIte]
    exact extends_write
  | txt key value => simp [MdnsRecord.type,MdnsRecordData.type,hdata] at htxt

theorem mdnsAnswerAddRecord_extends {capacity data : Nat} {w : MdnsWriter} {record : MdnsRecord}
    (hdata : w.data = some data) (hroom : data + plainRoom record ≤ capacity) :
    Extends w.buffer data (plainRoom record) (mdnsAnswerAddRecord capacity w record) := by
  by_cases htxt : record.type = .txt
  · simp only [mdnsAnswerAddRecord,hdata,htxt,↓reduceIte]
    exact (Extends.refl w hdata).mono (by omega)
  · simp only [plainRoom,htxt,↓reduceIte,recordRoom] at hroom ⊢
    have hhead : data + (record.name.length + 12) ≤ capacity := by omega
    obtain ⟨d,hd,hlt,hle,hagree⟩ :
        ∃ d, (mdnsAnswerAddRecordHeader w.buffer capacity data record w.table).data = some d ∧ _ :=
      mdnsAnswerAddRecordHeader_extends hhead
    simp only [mdnsAnswerAddRecord,hdata,htxt,↓reduceIte,hd]
    generalize mdnsAnswerAddRecordHeader w.buffer capacity data record w.table = wh at hagree ⊢
    have hbody : Extends wh.buffer d (dataRoom record.data)
        (mdnsAnswerAddRecordData wh.buffer capacity d record wh.table) :=
      mdnsAnswerAddRecordData_extends htxt (by omega)
    obtain ⟨d',hd',hlt',hle',hagree'⟩ := hbody
    simp only [hd']
    refine ⟨d',rfl,by omega,by omega,?_⟩
    exact (hagree.trans (hagree'.mono (by omega))).trans (agreeBelow_write (by omega))

theorem foldl_extends {capacity data : Nat} {add : MdnsWriter → MdnsRecord → MdnsWriter}
    (hadd : ∀ w d r, w.data = some d → d + plainRoom r ≤ capacity →
      Extends w.buffer d (plainRoom r) (add w r))
    (records : List MdnsRecord) {w : MdnsWriter} (hdata : w.data = some data)
    (hroom : data + (records.map plainRoom).sum ≤ capacity) :
    Extends w.buffer data ((records.map plainRoom).sum) (records.foldl add w) := by
  induction records generalizing w data with
  | nil => exact Extends.refl w hdata
  | cons r records ih =>
    simp only [List.map_cons,List.sum_cons] at hroom ⊢
    refine (hadd w data r hdata (by omega)).andThen fun d hd _ hle => ?_
    exact ih hd (by omega)

theorem mdnsAnswerAddTxtRecordLoop_extends {capacity data : Nat} (rclass : UInt16) (ttl : UInt32)
    {records : List MdnsRecord} (recordData : Option Nat) {w : MdnsWriter}
    (hcap : capacity ≤ 0x3FFF) (hdata : w.data = some data)
    (hroom : data + (records.map txtRoom).sum ≤ capacity) :
    Extends w.buffer data ((records.map txtRoom).sum)
        (mdnsAnswerAddTxtRecordLoop capacity rclass ttl records recordData w).2 ∧
      ∀ p, (mdnsAnswerAddTxtRecordLoop capacity rclass ttl records recordData w).1 = some p →
        recordData = some p ∨ data + 10 ≤ p := by
  induction records generalizing w data recordData with
  | nil => exact ⟨Extends.refl w hdata,fun p hp => Or.inl hp⟩
  | cons r records ih =>
    simp only [List.map_cons,List.sum_cons] at hroom ⊢
    by_cases htxt : ∃ key value, r.data = .txt key value
    · obtain ⟨key,value,hr⟩ := htxt
      have htype : r.type = .txt := by simp [MdnsRecord.type,MdnsRecordData.type,hr]
      simp only [txtRoom,htype,↓reduceIte,recordRoom,hr,dataRoom] at hroom ⊢
      -- the string and what follows it, once the header has been dealt with
      have hstring : ∀ (w' : MdnsWriter) (d p : Nat), data ≤ d →
          d ≤ data + (r.name.length + 12) → AgreeBelow data w.buffer w'.buffer →
          let loop := mdnsAnswerAddTxtRecordLoop capacity rclass ttl records (some p)
            ⟨w'.buffer.write d (UInt8.ofNat (key.length + value.length + 1) :: key ++ [0]),
              some (d + (key.length + 2 + value.length)),w'.table⟩
          Extends w.buffer data (r.name.length + 12 + (key.length + value.length + 2) +
            (records.map txtRoom).sum) loop.2 ∧
          ∀ q, loop.1 = some q → q = p ∨ data + 10 ≤ q := by
        intro w' d p hd hle hagree
        obtain ⟨⟨d',hd',hlt',hle',hagree'⟩,hp⟩ := ih (some p)
          (w := ⟨w'.buffer.write d (UInt8.ofNat (key.length + value.length + 1) :: key ++ [0]),
            some (d + (key.length + 2 + value.length)),w'.table⟩) rfl (by omega)
        refine ⟨⟨d',hd',by omega,by omega,?_⟩,?_⟩
        · exact (hagree.trans (agreeBelow_write hd)).trans (hagree'.mono (by omega))
        · intro q hq
          rcases hp q hq with h | h
          · exact Or.inl (Option.some.inj h).symm
          · exact Or.inr (by omega)
      cases recordData with
      | none =>
        obtain ⟨d,hd,hlt,hle,hagree⟩ : ∃ d, (mdnsAnswerAddRecordHeader w.buffer capacity data
            (mdnsRecordUpdateRclassTtl r rclass ttl) w.table).data = some d ∧ _ :=
          mdnsAnswerAddRecordHeader_extends (by simp only [mdnsRecordUpdateRclassTtl]; omega)
        have hc : ¬ (capacity - d ≤ key.length + value.length + 1 ∨
            0x3FFF < key.length + value.length + 1) := by
          simp only [mdnsRecordUpdateRclassTtl] at hle
          omega
        simp only [mdnsAnswerAddTxtRecordLoop,hdata,hr,Option.isNone_none,↓reduceIte,hd,hc,
          Option.getD_none]
        obtain ⟨hext,hp⟩ := hstring _ d d (by omega) hle hagree
        refine ⟨hext,fun q hq => ?_⟩
        rcases hp q hq with rfl | h
        · exact Or.inr hlt
        · exact Or.inr h
      | some p =>
        have hc : ¬ (capacity - data ≤ key.length + value.length + 1 ∨
            0x3FFF < key.length + value.length + 1) := by omega
        simp only [mdnsAnswerAddTxtRecordLoop,hdata,hr,Option.isNone_some,Bool.false_eq_true,
          ↓reduceIte,hc,Option.getD_some]
        obtain ⟨hext,hp⟩ := hstring w data p (Nat.le_refl _) (by omega) (.refl data _)
        refine ⟨hext,fun q hq => ?_⟩
        rcases hp q hq with rfl | h
        · exact Or.inl rfl
        · exact Or.inr h
    · have hskip : mdnsAnswerAddTxtRecordLoop capacity rclass ttl (r :: records) recordData w =
          mdnsAnswerAddTxtRecordLoop capacity rclass ttl records recordData w := by
        cases hr : r.data with
        | txt key value => exact absurd ⟨key,value,hr⟩ htxt
        | ptr | srv | a | aaaa => simp only [mdnsAnswerAddTxtRecordLoop,hdata,hr]
      rw [hskip]
      obtain ⟨hext,hp⟩ := ih recordData hdata (by omega)
      exact ⟨hext.mono (by omega),hp⟩

theorem mdnsAnswerAddTxtRecord_extends {capacity data : Nat} {rclass : UInt16} {ttl : UInt32}
    {records : List MdnsRecord} {w : MdnsWriter} (hcap : capacity ≤ 0x3FFF)
    (hdata : w.data = some data) (hroom : data + (records.map txtRoom).sum ≤ capacity) :
    Extends w.buffer data ((records.map txtRoom).sum)
      (mdnsAnswerAddTxtRecord capacity w records rclass ttl) := by
  obtain ⟨⟨d,hd,hlt,hle,hagree⟩,hp⟩ := mdnsAnswerAddTxtRecordLoop_extends rclass ttl none
    hcap hdata hroom
  unfold mdnsAnswerAddTxtRecord
  generalize mdnsAnswerAddTxtRecordLoop capacity rclass ttl records none w = loop at hd hagree hp ⊢
  obtain ⟨recordData,w'⟩ := loop
  replace hd : w'.data = some d := hd
  replace hagree : AgreeBelow data w.buffer w'.buffer := hagree
  cases recordData with
  | none => exact ⟨d,hd,hlt,hle,hagree⟩
  | some p =>
    simp only [hd]
    rcases hp p rfl with h | h
    · contradiction
    · exact ⟨d,rfl,hlt,hle,hagree.trans (agreeBelow_write (by omega))⟩

def recordsRoom (records : List MdnsRecord) : Nat := (records.map recordRoom).sum

theorem recordsRoom_eq (records : List MdnsRecord) :
    recordsRoom records = (records.map plainRoom).sum + (records.map txtRoom).sum := by
  induction records with
  | nil => rfl
  | cons r records ih =>
    have hr := plainRoom_add_txtRoom r
    simp only [recordsRoom,List.map_cons,List.sum_cons] at ih ⊢
    omega

theorem section_extends {capacity data : Nat} {rclass : UInt16} {ttl : UInt32}
    {add : MdnsWriter → MdnsRecord → MdnsWriter}
    (hadd : ∀ w d r, w.data = some d → d + plainRoom r ≤ capacity →
      Extends w.buffer d (plainRoom r) (add w r)) (hcap : capacity ≤ 0x3FFF)
    (records : List MdnsRecord) {w : MdnsWriter} (hdata : w.data = some data)
    (hroom : data + recordsRoom records ≤ capacity) :
    Extends w.buffer data (recordsRoom records)
      (mdnsAnswerAddTxtRecord capacity (records.foldl add w) records rclass ttl) := by
  rw [recordsRoom_eq] at hroom ⊢
  refine (foldl_extends hadd records hdata (by omega)).andThen fun d hd _ hle => ?_
  exact mdnsAnswerAddTxtRecord_extends hcap hd (by omega)

/-- The message is complete, has at least its header, and keeps the header as written. -/
theorem mdnsAnswerMulticastRclassTtl_extends {buffer : Mem} {capacity : Nat} {answer : MdnsRecord}
    {additional : List MdnsRecord} (rclass : UInt16) (ttl : UInt32) (hcap : capacity ≤ 0x3FFF)
    (hanswer : answer.type ≠ .txt)
    (hroom : 48 + recordRoom answer + recordsRoom additional ≤ capacity) :
    Extends (buffer.write 0 (MdnsHeader.bytes
        ⟨0,0x8400,0,1,mdnsAnswerGetRecordCount [],mdnsAnswerGetRecordCount additional⟩)) 12
      (recordRoom answer + recordsRoom additional)
      (mdnsAnswerMulticastRclassTtl buffer capacity answer [] additional rclass ttl) := by
  have hadd : ∀ (w : MdnsWriter) d r, w.data = some d → d + plainRoom r ≤ capacity →
      Extends w.buffer d (plainRoom r)
        (mdnsAnswerAddRecord capacity w (mdnsRecordUpdateRclassTtl r rclass ttl)) :=
    fun w d r hd hr => mdnsAnswerAddRecord_extends hd hr
  have hplain : plainRoom answer = recordRoom answer := by simp [plainRoom,hanswer]
  have hc : ¬ capacity < 12 + 32 + 4 := by omega
  simp only [mdnsAnswerMulticastRclassTtl,hc,↓reduceIte,List.foldl_nil]
  have hfirst := hadd ⟨buffer.write 0 (MdnsHeader.bytes ⟨0,0x8400,0,1,mdnsAnswerGetRecordCount [],
    mdnsAnswerGetRecordCount additional⟩),some 12,.empty⟩ 12 answer rfl (by omega)
  rw [hplain] at hfirst
  refine hfirst.andThen fun d hd _ hle => ?_
  have hauthority : Extends _ d 0 (mdnsAnswerAddTxtRecord capacity _ [] rclass ttl) :=
    mdnsAnswerAddTxtRecord_extends hcap hd (by simp; omega)
  refine (hauthority.andThen (k := recordsRoom additional) fun d' hd' _ hle' => ?_).mono (by omega)
  exact section_extends hadd hcap additional hd' (by omega)

theorem mdnsQueryAnswerUnicast_afterQuestion {buffer : Mem} {capacity : Nat}
    (queryId recordType : UInt16) (name : Bytes) {answer : MdnsRecord} {additional : List MdnsRecord}
    (hcap : capacity ≤ 0x3FFF) (hanswer : answer.type ≠ .txt) (hmin : 48 ≤ capacity) {d : Nat}
    (hd : (mdnsAnswerAddQuestionUnicast (buffer.write 0 (MdnsHeader.bytes ⟨queryId,0x8400,1,1,
      mdnsAnswerGetRecordCount [],mdnsAnswerGetRecordCount additional⟩)) capacity 12 recordType name
        .empty).data = some d)
    (hroom : d + (recordRoom answer + recordsRoom additional) ≤ capacity) :
    Extends (mdnsAnswerAddQuestionUnicast (buffer.write 0 (MdnsHeader.bytes ⟨queryId,0x8400,1,1,
      mdnsAnswerGetRecordCount [],mdnsAnswerGetRecordCount additional⟩)) capacity 12 recordType name
        .empty).buffer d (recordRoom answer + recordsRoom additional)
      (mdnsQueryAnswerUnicast buffer capacity queryId recordType name answer [] additional) := by
  have hadd : ∀ (w : MdnsWriter) d (r : MdnsRecord), w.data = some d → d + plainRoom r ≤ capacity →
      Extends w.buffer d (plainRoom r) (mdnsAnswerAddRecord capacity w
        { r with rclass := mdnsClassIn, ttl := if r.ttl = 0 then 10 else r.ttl }) :=
    fun w d r hd hr => mdnsAnswerAddRecord_extends hd hr
  have hplain : plainRoom answer = recordRoom answer := by simp [plainRoom,hanswer]
  have hc : ¬ capacity < 12 + 32 + 4 := by omega
  simp only [mdnsQueryAnswerUnicast,hc,↓reduceIte,List.foldl_nil]
  have hr : d + plainRoom answer ≤ capacity := by omega
  have hfirst : Extends _ d (plainRoom answer) (mdnsAnswerAddRecord capacity _
      { answer with rclass := mdnsClassIn, ttl := 10 }) := mdnsAnswerAddRecord_extends hd hr
  rw [hplain] at hfirst
  refine hfirst.andThen fun d' hd' _ hle => ?_
  have hauthority : Extends _ d' 0 (mdnsAnswerAddTxtRecord capacity _ [] mdnsClassIn 10) :=
    mdnsAnswerAddTxtRecord_extends hcap hd' (by simp; omega)
  refine (hauthority.andThen (k := recordsRoom additional) fun d'' hd'' _ hle' => ?_).mono (by omega)
  exact section_extends hadd hcap additional hd'' (by omega)

theorem mdnsQueryAnswerUnicast_extends {buffer : Mem} {capacity : Nat} (queryId recordType : UInt16)
    (name : Bytes) {answer : MdnsRecord} {additional : List MdnsRecord}
    (hcap : capacity ≤ 0x3FFF) (hanswer : answer.type ≠ .txt)
    (hroom : 48 + (name.length + 6) + recordRoom answer + recordsRoom additional ≤ capacity) :
    Extends (buffer.write 0 (MdnsHeader.bytes
        ⟨queryId,0x8400,1,1,mdnsAnswerGetRecordCount [],mdnsAnswerGetRecordCount additional⟩)) 12
      (name.length + 6 + (recordRoom answer + recordsRoom additional))
      (mdnsQueryAnswerUnicast buffer capacity queryId recordType name answer [] additional) := by
  have hquestion : Extends (buffer.write 0 (MdnsHeader.bytes ⟨queryId,0x8400,1,1,
      mdnsAnswerGetRecordCount [],mdnsAnswerGetRecordCount additional⟩)) 12 (name.length + 6)
      (mdnsAnswerAddQuestionUnicast (buffer.write 0 (MdnsHeader.bytes ⟨queryId,0x8400,1,1,
        mdnsAnswerGetRecordCount [],mdnsAnswerGetRecordCount additional⟩)) capacity 12 recordType
        name .empty) := mdnsAnswerAddQuestionUnicast_extends (by omega)
  exact hquestion.andThen fun d hd _ hle =>
    mdnsQueryAnswerUnicast_afterQuestion queryId recordType name hcap hanswer (by omega) hd (by omega)

theorem MdnsHeader.length_bytes (header : MdnsHeader) : header.bytes.length = 12 := rfl

theorem Extends.sent {buffer : Mem} {header : MdnsHeader} {n : Nat} {w : MdnsWriter}
    (h : Extends (buffer.write 0 header.bytes) 12 n w) (sock : Int) (dest : Option Sockaddr) :
    ∃ bytes, w.sent sock dest = [⟨sock,dest,bytes⟩] ∧ 12 ≤ bytes.length ∧
      bytes.length ≤ 12 + n ∧ bytes.take 12 = header.bytes := by
  obtain ⟨d,hd,hlt,hle,hagree⟩ := h
  refine ⟨w.buffer.read 0 d,by simp [MdnsWriter.sent,hd],by simpa using hlt,by simpa using hle,?_⟩
  have hsplit := w.buffer.read_add 0 12 (d - 12)
  rw [Nat.add_sub_cancel' hlt] at hsplit
  rw [hsplit,List.take_left' (w.buffer.length_read 0 12),← hagree.read (by omega)]
  have hr := buffer.read_write 0 header.bytes
  rwa [header.length_bytes] at hr

end WlrRemote
