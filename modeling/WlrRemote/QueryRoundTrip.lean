import WlrRemote.MdnsQuery
import WlrRemote.MessageDecoding
import WlrRemote.QuestionsHanded

set_option autoImplicit false

namespace WlrRemote
open Octets

def plainName (name : Bytes) : Bytes := labelsBytes (nameLabels name) ++ [0]

def MdnsQuery.bytes (rclass : UInt16) (q : MdnsQuery) : Bytes :=
  plainName q.name ++ (be16 q.type.code ++ be16 rclass)

def queriesBytes (rclass : UInt16) (queries : List MdnsQuery) : Bytes :=
  queries.flatMap (MdnsQuery.bytes rclass)

theorem queriesBytes_cons (rclass : UInt16) (q : MdnsQuery) (queries : List MdnsQuery) :
    queriesBytes rclass (q :: queries) = q.bytes rclass ++ queriesBytes rclass queries := rfl

theorem MdnsQuery.length_bytes (rclass : UInt16) (q : MdnsQuery) :
    (q.bytes rclass).length = (plainName q.name).length + 4 := by
  simp [bytes]

/-- What a writer without a table makes of a text: all of it, or it gives up. -/
def WritesAll (buffer : Mem) (capacity data : Nat) (text : Bytes) : Mem × Option Nat → Prop
  | (buffer',none) => capacity < data + text.length ∧ ∀ i, capacity ≤ i → buffer' i = buffer i
  | (buffer',some stop) => data + text.length ≤ capacity ∧ stop = data + text.length ∧
      buffer' = buffer.write data text

theorem WritesAll.append {buffer : Mem} {capacity data : Nat} {text rest : Bytes}
    {result : Mem × Option Nat} (hfit : data + text.length ≤ capacity)
    (h : WritesAll (buffer.write data text) capacity (data + text.length) rest result) :
    WritesAll buffer capacity data (text ++ rest) result := by
  obtain ⟨buffer',stop⟩ := result
  cases stop with
  | none =>
    obtain ⟨hshort,habove⟩ := h
    refine ⟨by rw [List.length_append]; omega,fun i hi => ?_⟩
    rw [habove i hi]
    exact Mem.write_above (by omega)
  | some stop =>
    obtain ⟨hfits,hstop,hbuffer⟩ := h
    exact ⟨by rw [List.length_append]; omega,by rw [List.length_append]; omega,
      by rw [hbuffer,Mem.write_append]⟩

theorem mdnsStringMakePlainLoop_writes (capacity : Nat) {name : Bytes} {length : Nat}
    (fuel lastPos : Nat) (buffer : Mem) (data : Nat) (hlen : length ≤ name.length) (hlast : lastPos ≤ length)
    (hfuel : length < fuel + lastPos) :
    WritesAll buffer capacity data (labelsBytes (labels ((name.take length).drop lastPos)) ++ [0])
      (mdnsStringMakePlainLoop capacity name length fuel buffer data lastPos) := by
  induction fuel generalizing buffer data lastPos with
  | zero => omega
  | succ fuel ih =>
    unfold mdnsStringMakePlainLoop
    have htext : ((name.take length).drop lastPos).length = length - lastPos := by
      rw [List.length_drop,List.length_take]
      omega
    split
    · rename_i hlt
      have hne : (name.take length).drop lastPos ≠ [] := by
        intro h
        rw [h,List.length_nil] at htext
        omega
      obtain ⟨-,hnext,hnext',-⟩ := next_label name hlt
      have hpos := mdnsStringFind_eq hlt hlen
      have hrest := next_text hlt hlen
      have hfirst := firstLength_le ((name.take length).drop lastPos)
      simp only at hnext hnext' ⊢
      rw [hpos,Nat.add_sub_cancel_left,labels_eq hne,← hrest,take_of_take (by omega)]
      generalize firstLength ((name.take length).drop lastPos) = n at *
      generalize hq : ((mdnsStringFind name length dot lastPos).map (· + 1)).getD length = next at *
      generalize hlabel : (name.drop lastPos).take n = label
      have hn : label.length = n := by
        rw [← hlabel,List.length_take,List.length_drop]
        omega
      have hbytes : (UInt8.ofNat n :: label) = labelBytes label := by rw [labelBytes,hn]
      have hsplit : labelsBytes (label :: labels ((name.take length).drop next)) ++ [0] =
          labelBytes label ++ (labelsBytes (labels ((name.take length).drop next)) ++ [0]) := by
        simp [labelsBytes]
      have hpos' : 0 < (labelsBytes (labels ((name.take length).drop next)) ++ [0]).length := by simp
      rw [hsplit]
      split
      · refine ⟨?_,fun _ _ => rfl⟩
        rw [List.length_append,length_labelBytes]
        omega
      · have hrec := ih _ (buffer.write data (labelBytes label)) (data + (n + 1)) hnext' (by omega)
        rw [hbytes]
        rw [show data + (n + 1) = data + (labelBytes label).length by rw [length_labelBytes,hn]]
          at hrec ⊢
        exact hrec.append (by rw [length_labelBytes]; omega)
    · have hnil : (name.take length).drop lastPos = [] := List.length_eq_zero_iff.mp (by omega)
      simp only [hnil,labels,labelsBytes,List.flatMap_nil,List.nil_append]
      split
      · exact ⟨by rw [List.length_singleton]; omega,fun _ _ => rfl⟩
      · exact ⟨by rw [List.length_singleton]; omega,rfl,rfl⟩

theorem mdnsStringMakePlain_writes (buffer : Mem) (capacity data : Nat) (name : Bytes) :
    WritesAll buffer capacity data (plainName name) (mdnsStringMakePlain buffer capacity data name) := by
  unfold mdnsStringMakePlain plainName nameLabels
  split
  · have hwrites := mdnsStringMakePlainLoop_writes capacity (name.length - 1 + 1) 0 buffer data
      (Nat.sub_le name.length 1) (Nat.zero_le _) (by omega)
    rwa [List.drop_zero,← List.dropLast_eq_take] at hwrites
  · have hwrites := mdnsStringMakePlainLoop_writes capacity (name.length + 1) 0 buffer data
      (Nat.le_refl name.length) (Nat.zero_le _) (by omega)
    rwa [List.drop_zero,List.take_length] at hwrites

theorem mdnsMultiqueryLoop_writes {capacity : Nat} (rclass : UInt16) (queries : List MdnsQuery)
    (buffer : Mem) {data : Nat} (hdata : data ≤ capacity) :
    WritesAll buffer capacity data (queriesBytes rclass queries)
      (mdnsMultiqueryLoop capacity rclass queries buffer data) := by
  induction queries generalizing buffer data with
  | nil => exact ⟨by simpa [queriesBytes] using hdata,by simp [queriesBytes],by simp [queriesBytes]⟩
  | cons q queries ih =>
    have hname := mdnsStringMakePlain_writes buffer capacity data q.name
    rw [queriesBytes_cons,mdnsMultiqueryLoop]
    generalize mdnsStringMakePlain buffer capacity data q.name = made at *
    obtain ⟨buffer',stop⟩ := made
    cases stop with
    | none =>
      obtain ⟨hshort,habove⟩ := hname
      exact ⟨by rw [List.length_append,q.length_bytes]; omega,habove⟩
    | some stop =>
      obtain ⟨hfit,rfl,rfl⟩ := hname
      simp only
      have hlen : (be16 q.type.code ++ be16 rclass).length = 4 := rfl
      split
      · refine ⟨by rw [List.length_append,q.length_bytes]; omega,fun i hi => ?_⟩
        exact Mem.write_above (by omega)
      · rw [MdnsQuery.bytes,List.append_assoc]
        refine WritesAll.append hfit (WritesAll.append (by omega) ?_)
        exact ih _ (by omega)

theorem mdnsStringExtractLoop_end {m : Mem} {size budget cur stop remain : Nat} {dst : Bytes}
    {name : Bytes × Nat}
    (h : mdnsStringExtractLoop m size budget cur (some stop) remain dst = some name) :
    name.2 = stop := by
  induction budget generalizing cur remain dst with
  | zero => contradiction
  | succ budget ih =>
    rw [mdnsStringExtractLoop] at h
    simp only [Option.isNone_some,Bool.and_false,Bool.false_eq_true,↓reduceIte,
      Option.getD_some] at h
    split at h
    · contradiction
    · split at h
      · cases h
        rfl
      · split at h <;> exact ih h

theorem mdnsStringExtractLoop_skip {m : Mem} {size budget cur remain : Nat} {dst : Bytes}
    {name : Bytes × Nat} (h : mdnsStringExtractLoop m size budget cur none remain dst = some name) :
    mdnsStringSkipLoop m size budget cur = some name.2 := by
  induction budget generalizing cur remain dst with
  | zero => contradiction
  | succ budget ih =>
    rw [mdnsStringExtractLoop] at h
    rw [mdnsStringSkipLoop]
    simp only [Option.isNone_none,Bool.and_true] at h
    split at h
    · contradiction
    · cases href : (mdnsGetNextSubstring m size cur).ref with
      | true =>
        simp only [href,↓reduceIte,Option.getD_some] at h ⊢
        split at h
        · cases h
          rfl
        · split at h <;> rw [mdnsStringExtractLoop_end h]
      | false =>
        simp only [href,Bool.false_eq_true,↓reduceIte,Option.getD_none] at h ⊢
        split at h
        · rename_i hzero
          cases h
          simp [hzero]
        · rename_i hne
          simp only [hne,↓reduceIte]
          split at h <;> exact ih h

theorem mdnsStringSkip_of_extract {m : Mem} {size offset capacity : Nat} {name : Bytes × Nat}
    (h : mdnsStringExtract m size offset capacity = some name) :
    mdnsStringSkip m size offset = some name.2 := mdnsStringExtractLoop_skip h

/-- A name whose labels have 1 to 63 bytes, and that is not too long for the reader. -/
structure LegalName (name : Bytes) : Prop where
  labels : ∀ l ∈ nameLabels name, l ≠ [] ∧ l.length ≤ 63
  ne_nil : nameLabels name ≠ []
  count_le : (nameLabels name).length ≤ mdnsMaxSubstrings
  length_le : (dotted (nameLabels name)).length ≤ nameCapacity

theorem labelsAt_plain {m : Mem} {size p : Nat} {ls : List Bytes} (hopen : OpenAt m size p ls)
    (hne : ∀ l ∈ ls, l ≠ []) (hsize : p + (labelsBytes ls).length < size)
    (hzero : m (p + (labelsBytes ls).length) = 0) (hb : ls.length ≤ mdnsMaxSubstrings) :
    labelsAt m size p = some (ls,p + (labelsBytes ls).length + 1) := by
  obtain ⟨budget,hbudget⟩ := Nat.exists_eq_add_of_le hb
  rw [labelsAt,hbudget,Nat.add_assoc,hopen.labelsLoop (Nat.le_refl _) hne,
    labelsLoop_stop hsize hzero,Option.map_some,List.append_nil]
  rfl

theorem LegalName.extract {name : Bytes} (h : LegalName name) {m : Mem} {size p : Nat}
    (hread : m.read p (plainName name).length = plainName name)
    (hsize : p + (plainName name).length ≤ size) :
    mdnsStringExtract m size p nameCapacity =
      some (dotted (nameLabels name),p + (plainName name).length) := by
  have hlen : (plainName name).length = (labelsBytes (nameLabels name)).length + 1 := by
    simp [plainName]
  rw [hlen] at hsize hread ⊢
  rw [plainName,Mem.read_add] at hread
  obtain ⟨hlabels,hend⟩ := List.append_inj hread (by simp)
  have hzero : m (p + (labelsBytes (nameLabels name)).length) = 0 := by
    rw [Mem.read_succ] at hend
    exact (List.cons.inj hend).1
  have hopen : OpenAt m size p (nameLabels name) := by
    refine ⟨fun l hl => ?_,by omega,hlabels⟩
    have := (h.labels l hl).2
    omega
  rw [mdnsStringExtract_labels,labelsAt_plain hopen (fun l hl => (h.labels l hl).1) (by omega) hzero
    h.count_le,Option.map_some,List.take_of_length_le h.length_le]
  rfl

structure AskedFor (m : Mem) (queryId rclass : UInt16) (e : MdnsEntry) (q : MdnsQuery) : Prop where
  entry : e.entry = .question
  queryId : e.queryId = queryId
  name : mdnsStringExtract m e.size e.nameOffset nameCapacity =
    some (dotted (nameLabels q.name),e.nameOffset + e.nameLength)
  rtype : e.rtype = q.type.code
  rclass : e.rclass = rclass

section Listen

variable (sock : Int) (src : Sockaddr) (size : Nat) (queryId rclass : UInt16)

def queryEntries : List MdnsQuery → Nat → List MdnsEntry
  | [], _ => []
  | q :: queries, offset =>
    ⟨sock,src,.question,queryId,q.type.code,rclass,0,size,offset,(plainName q.name).length,offset,
      (plainName q.name).length⟩ :: queryEntries queries (offset + (q.bytes rclass).length)

variable {sock src size queryId rclass} {m : Mem}

theorem MdnsQuery.read {q : MdnsQuery} (hname : LegalName q.name) {p : Nat}
    (hread : m.read p (q.bytes rclass).length = q.bytes rclass)
    (hsize : p + (q.bytes rclass).length ≤ size) :
    mdnsStringExtract m size p nameCapacity =
        some (dotted (nameLabels q.name),p + (plainName q.name).length) ∧
      ∃ dnsSd, mdnsReadQuestion m size p = some ⟨dnsSd,(plainName q.name).length,q.type.code,rclass,
        p + (q.bytes rclass).length⟩ := by
  have hlen := q.length_bytes rclass
  rw [hlen] at hread hsize ⊢
  rw [MdnsQuery.bytes,Mem.read_add] at hread
  obtain ⟨hnameRead,hfields⟩ := List.append_inj hread (by simp)
  have hextract := hname.extract hnameRead (by omega : p + (plainName q.name).length ≤ size)
  obtain ⟨htype,hclass⟩ := Mem.be16_be16_of_read hfields
  refine ⟨hextract,(mdnsStringEqual m size p mdnsServicesQueryMem mdnsServicesQuery.length 12).isSome,?_⟩
  rw [mdnsReadQuestion_eq,mdnsStringSkip_of_extract hextract]
  simp only [Option.map_some,htype,hclass,Nat.add_sub_cancel_left]
  rfl

theorem queryEntries_askedFor {queries : List MdnsQuery} (hnames : ∀ q ∈ queries, LegalName q.name)
    {p : Nat} (hread : m.read p (queriesBytes rclass queries).length = queriesBytes rclass queries)
    (hsize : p + (queriesBytes rclass queries).length ≤ size) :
    List.Forall₂ (AskedFor m queryId rclass) (queryEntries sock src size queryId rclass queries p)
      queries := by
  induction queries generalizing p with
  | nil => exact .nil
  | cons q queries ih =>
    rw [queriesBytes_cons,List.length_append] at hread hsize
    rw [Mem.read_add] at hread
    obtain ⟨hfirst,hrest⟩ := List.append_inj hread (by simp)
    obtain ⟨hextract,-⟩ := MdnsQuery.read (hnames q List.mem_cons_self) hfirst
      (by omega : _ ≤ size)
    exact .cons ⟨rfl,rfl,hextract,rfl,rfl⟩
      (ih (fun k hk => hnames k (List.mem_cons_of_mem q hk)) hrest (by omega))

variable {σ : Type} {callback : Mem → MdnsEntry → σ → Int × σ}

theorem mdnsQuestionLoop_query (hzero : ∀ data e state, (callback data e state).1 = 0)
    (hclass : mdnsClassAccepted rclass = true) {queries : List MdnsQuery}
    (hnames : ∀ q ∈ queries, LegalName q.name) {p : MdnsProgress σ}
    (hread : m.read p.offset (queriesBytes rclass queries).length = queriesBytes rclass queries)
    (hsize : p.offset + (queriesBytes rclass queries).length ≤ size) :
    mdnsQuestionLoop callback sock src m size queryId 0 queries.length p =
      ⟨p.stopped,p.offset + (queriesBytes rclass queries).length,p.total + queries.length,
        (queryEntries sock src size queryId rclass queries p.offset).foldl
          (fun state e => (callback m e state).2) p.state⟩ := by
  induction queries generalizing p with
  | nil => rfl
  | cons q queries ih =>
    rw [queriesBytes_cons,List.length_append] at hread hsize
    rw [Mem.read_add] at hread
    obtain ⟨hfirst,hrest⟩ := List.append_inj hread (by simp)
    obtain ⟨-,dnsSd,hquestion⟩ := MdnsQuery.read (hnames q List.mem_cons_self) hfirst
      (by omega : _ ≤ size)
    have hrec := @ih (fun k hk => hnames k (List.mem_cons_of_mem q hk))
    simp only [List.length_cons,mdnsQuestionLoop,hquestion,hclass,Bool.not_true,Bool.false_eq_true,
      ↓reduceIte,ne_eq,not_true_eq_false,decide_false,Bool.and_false,hzero]
    rw [hrec hrest (by simp only; omega)]
    simp only [queryEntries,List.foldl_cons,queriesBytes_cons,List.length_append,MdnsProgress.mk.injEq,
      true_and,and_true]
    omega

end Listen

/-- Whoever listens is handed exactly these questions, in this order. -/
def HeardAs (bytes : Bytes) (queryId rclass : UInt16) (queries : List MdnsQuery) : Prop :=
  ∀ (sock : Int) (src : Sockaddr) (capacity : Nat) (buffer : Mem), bytes.length ≤ capacity →
    ∃ entries, List.Forall₂ (AskedFor (buffer.write 0 bytes) queryId rclass) entries queries ∧
      ∀ (σ : Type) (callback : Mem → MdnsEntry → σ → Int × σ) (state : σ),
        (∀ data e state, (callback data e state).1 = 0) →
          mdnsSocketListen callback sock capacity buffer (some (src,bytes)) state =
            (buffer.write 0 bytes,queries.length,
              entries.foldl (fun state e => (callback (buffer.write 0 bytes) e state).2) state)

def queryHeader (queryId : UInt16) (queries : List MdnsQuery) : MdnsHeader :=
  ⟨queryId,0,UInt16.ofNat queries.length,0,0,0⟩

theorem MdnsHeader.read_ids {m : Mem} {header : MdnsHeader} (h : m.read 0 12 = header.bytes) :
    m.be16 0 = header.queryId ∧ m.be16 2 = header.flags := by
  rw [MdnsHeader.bytes,Mem.read_add m 0 4 8] at h
  simp only [List.append_assoc] at h
  rw [← List.append_assoc] at h
  obtain ⟨h,-⟩ := List.append_inj h (by simp)
  exact Mem.be16_be16_of_read h

theorem mdnsSection_empty {σ : Type} (callback : Mem → MdnsEntry → σ → Int × σ) (sock : Int)
    (src : Sockaddr) (buffer : Mem) (size : Nat) (entry : MdnsEntryType) (queryId : UInt16)
    (p : MdnsProgress σ) :
    mdnsSection callback sock src buffer size entry queryId 0 p = p := by
  obtain ⟨stopped,offset,total,state⟩ := p
  cases stopped <;> rfl

section Text

variable {queries : List MdnsQuery} (hcount : queries.length < 0x10000)
variable (hnames : ∀ q ∈ queries, LegalName q.name) (queryId : UInt16)
include hcount hnames

theorem query_listened {rclass : UInt16} (hclass : mdnsClassAccepted rclass = true) {bytes : Bytes}
    (hbytes : bytes = (queryHeader queryId queries).bytes ++ queriesBytes rclass queries) (sock : Int)
    (src : Sockaddr) {capacity : Nat} (buffer : Mem) (hcap : bytes.length ≤ capacity) :
    let entries := queryEntries sock src bytes.length queryId rclass queries 12
    List.Forall₂ (AskedFor (buffer.write 0 bytes) queryId rclass) entries queries ∧
      ∀ (σ : Type) (callback : Mem → MdnsEntry → σ → Int × σ) (state : σ),
        (∀ data e state, (callback data e state).1 = 0) →
          mdnsSocketListen callback sock capacity buffer (some (src,bytes)) state =
            (buffer.write 0 bytes,queries.length,
              entries.foldl (fun state e => (callback (buffer.write 0 bytes) e state).2) state) := by
  have hhead := (queryHeader queryId queries).length_bytes
  have hlen : bytes.length = 12 + (queriesBytes rclass queries).length := by
    rw [hbytes,List.length_append,hhead]
  have hheader : (buffer.write 0 bytes).read 0 12 = (queryHeader queryId queries).bytes := by
    have hpart : (buffer.write 0 bytes).read (0 + 0) 12 = (bytes.drop 0).take 12 :=
      Mem.read_write_part (by omega)
    rwa [hbytes,List.drop_zero,List.take_left' hhead,← hbytes] at hpart
  have hread : (buffer.write 0 bytes).read 12 (queriesBytes rclass queries).length =
      queriesBytes rclass queries := by
    have hpart : (buffer.write 0 bytes).read (0 + 12) (queriesBytes rclass queries).length =
        (bytes.drop 12).take (queriesBytes rclass queries).length :=
      Mem.read_write_part (by omega)
    rwa [hbytes,List.drop_left' hhead,List.take_length,← hbytes] at hpart
  obtain ⟨hquestions,hanswers,hauthority,hadditional⟩ := MdnsHeader.read_counts hheader
  obtain ⟨hid,hflags⟩ := MdnsHeader.read_ids hheader
  refine ⟨queryEntries_askedFor hnames hread (by omega),fun σ callback state hzero => ?_⟩
  have htake : bytes.take capacity = bytes := List.take_of_length_le hcap
  have hne : ¬ bytes.length = 0 := by omega
  have hn : (UInt16.ofNat queries.length).toNat = queries.length := by
    rw [UInt16.toNat_ofNat']
    omega
  have hloop := @mdnsQuestionLoop_query sock src bytes.length queryId rclass _ σ callback hzero hclass
    queries hnames ⟨false,12,0,state⟩ hread (by simp only; omega)
  simp only [queryHeader] at hquestions hanswers hauthority hadditional hid hflags
  simp only [mdnsSocketListen,htake,hne,↓reduceIte,hquestions,hanswers,hauthority,hadditional,hid,
    hflags,hn,hloop,mdnsSection_empty,Nat.zero_add]

theorem heardAs_text {rclass : UInt16} (hclass : mdnsClassAccepted rclass = true) :
    HeardAs ((queryHeader queryId queries).bytes ++ queriesBytes rclass queries) queryId rclass
      queries := by
  intro sock src capacity buffer hcap
  exact ⟨_,query_listened hcount hnames queryId hclass rfl sock src buffer hcap⟩

end Text

theorem mdnsQueryClass_accepted (getsockname : Option Sockaddr) :
    mdnsClassAccepted (mdnsQueryClass getsockname) = true := by
  unfold mdnsQueryClass
  split
  · split <;> decide
  · split <;> decide
  · decide
  · decide

theorem length_queriesBytes (rclass : UInt16) {queries : List MdnsQuery}
    (hnames : ∀ q ∈ queries, LegalName q.name) :
    6 * queries.length ≤ (queriesBytes rclass queries).length := by
  induction queries with
  | nil => simp
  | cons q queries ih =>
    have hrest := ih fun k hk => hnames k (List.mem_cons_of_mem q hk)
    have hlen := q.length_bytes rclass
    have hname : 2 ≤ (plainName q.name).length := by
      obtain ⟨l,ls,hl⟩ := List.exists_cons_of_ne_nil (hnames q List.mem_cons_self).ne_nil
      have hcons := length_labelsBytes_cons l ls
      rw [plainName,hl,List.length_append,List.length_singleton]
      omega
    rw [queriesBytes_cons,List.length_append,List.length_cons]
    omega

theorem mdnsMultiquerySend_text {queries : List MdnsQuery} (hne : queries ≠ [])
    (hnames : ∀ q ∈ queries, LegalName q.name) (getsockname getsockname' : Option Sockaddr)
    (sendto : Bool) (sock : Int) (buffer : Mem) (capacity : Nat) (queryId : UInt16) :
    let result := mdnsMultiquerySend getsockname getsockname' sendto sock queries buffer capacity
      queryId
    let rclass := mdnsQueryClass getsockname
    (∀ i, capacity ≤ i → result.2.1 i = buffer i) ∧
      if 12 + (queriesBytes rclass queries).length ≤ capacity ∧ getsockname'.isSome then
        result.1 = (if sendto then (queryId.toNat : Int) else -1) ∧
          result.2.2 =
            [⟨sock,none,(queryHeader queryId queries).bytes ++ queriesBytes rclass queries⟩]
      else result.1 = -1 ∧ result.2.2 = [] := by
  have hlen := length_queriesBytes (mdnsQueryClass getsockname) hnames
  have hpos := List.length_pos_iff.mpr hne
  unfold mdnsMultiquerySend
  by_cases hsmall : capacity < 12 + 6 * queries.length
  · have hunfit : ¬ 12 + (queriesBytes (mdnsQueryClass getsockname) queries).length ≤ capacity := by
      omega
    simp [hsmall,hunfit]
  · have hguard : ¬ (queries.length = 0 ∨ capacity < 12 + 6 * queries.length) := by omega
    have hhead := (queryHeader queryId queries).length_bytes
    have hwrites := mdnsMultiqueryLoop_writes (mdnsQueryClass getsockname) queries
      (buffer.write 0 (queryHeader queryId queries).bytes) (by omega : 12 ≤ capacity)
    simp only [hguard,↓reduceIte]
    simp only [queryHeader] at hwrites hhead ⊢
    generalize hloop : mdnsMultiqueryLoop capacity (mdnsQueryClass getsockname) queries _ 12 = made
      at *
    obtain ⟨buffer',stop⟩ := made
    cases stop with
    | none =>
      obtain ⟨hshort,habove⟩ := hwrites
      have hunfit : ¬ 12 + (queriesBytes (mdnsQueryClass getsockname) queries).length ≤ capacity := by
        omega
      exact ⟨fun i hi => (habove i hi).trans (Mem.write_above (by omega)),by simp [hunfit]⟩
    | some stop =>
      obtain ⟨hfit,rfl,rfl⟩ := hwrites
      have hread := buffer.read_write 0 ((⟨queryId,0,UInt16.ofNat queries.length,0,0,0⟩ :
        MdnsHeader).bytes ++ queriesBytes (mdnsQueryClass getsockname) queries)
      rw [Mem.write_append,Nat.zero_add,List.length_append,hhead] at hread
      refine ⟨fun i hi => ?_,?_⟩
      · exact (Mem.write_above (by omega)).trans (Mem.write_above (by omega))
      · cases getsockname' with
        | none => simp [mdnsMulticastSend]
        | some addr => cases sendto <;> simp [mdnsMulticastSend,hfit,hread]

/-- A query of legal names is heard question by question as it was asked, or it does not fit and
nothing is sent; nothing is written outside of the buffer. -/
theorem queries_heard {queries : List MdnsQuery} (hne : queries ≠ [])
    (hcount : queries.length < 0x10000) (hnames : ∀ q ∈ queries, LegalName q.name)
    (getsockname getsockname' : Option Sockaddr) (sendto : Bool) (sock : Int) (buffer : Mem)
    (capacity : Nat) (queryId : UInt16) :
    let result := mdnsMultiquerySend getsockname getsockname' sendto sock queries buffer capacity
      queryId
    let rclass := mdnsQueryClass getsockname
    (∀ i, capacity ≤ i → result.2.1 i = buffer i) ∧
      if 12 + (queriesBytes rclass queries).length ≤ capacity ∧ getsockname'.isSome then
        result.1 = (if sendto then (queryId.toNat : Int) else -1) ∧
          ∃ bytes, result.2.2 = [⟨sock,none,bytes⟩] ∧ HeardAs bytes queryId rclass queries
      else result.1 = -1 ∧ result.2.2 = [] := by
  intro result rclass
  obtain ⟨habove,hsent⟩ := mdnsMultiquerySend_text hne hnames getsockname getsockname' sendto sock
    buffer capacity queryId
  refine ⟨habove,?_⟩
  by_cases hfits : 12 + (queriesBytes rclass queries).length ≤ capacity ∧ getsockname'.isSome
  · rw [if_pos hfits] at hsent ⊢
    obtain ⟨hres,hsent⟩ := hsent
    exact ⟨hres,_,hsent,heardAs_text hcount hnames queryId (mdnsQueryClass_accepted getsockname)⟩
  · rw [if_neg hfits] at hsent ⊢
    exact hsent

theorem queries_heard_browse :
    let addr : Sockaddr := .inet ⟨AF_INET,50000,#v[10,0,0,7]⟩ rfl
    let result := mdnsQuerySend (some addr) (some addr) true 3 .ptr SERVICE_NAME (fun _ => 0) 64 7
    result.1 = 7 ∧ ∃ bytes, result.2.2 = [⟨3,none,bytes⟩] ∧
      HeardAs bytes 7 (mdnsClassIn ||| mdnsUnicastResponse) [⟨.ptr,SERVICE_NAME⟩] := by
  have hname : LegalName SERVICE_NAME := by
    constructor <;> decide
  obtain ⟨-,hresult⟩ := queries_heard (List.cons_ne_nil ⟨.ptr,SERVICE_NAME⟩ [])
    (by decide) (by simpa using hname) (some (.inet ⟨AF_INET,50000,#v[10,0,0,7]⟩ rfl))
    (some (.inet ⟨AF_INET,50000,#v[10,0,0,7]⟩ rfl)) true 3 (fun _ => 0) 64 7
  rwa [if_pos (by decide)] at hresult

end WlrRemote
