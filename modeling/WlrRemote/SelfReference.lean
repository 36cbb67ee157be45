import WlrRemote.MessageDecoding

/-!
Names that refer to themselves: while a name is written that repeats a block of its
labels, the search comes upon a label of this very name, and the name ends in a
reference that leads back into it.
-/

set_option autoImplicit false

namespace WlrRemote
open Octets SuffixTable

/-- From each of these positions a label is read, and the name goes on at another one. -/
theorem labelsLoop_endless {m : Mem} {size : Nat} {onWay : Nat → Prop}
    (hway : ∀ p, onWay p → ∃ a length ref,
      mdnsGetNextSubstring m size p = ⟨some a,length,ref⟩ ∧ length ≠ 0 ∧ onWay (a + length))
    (budget : Nat) {p : Nat} (hp : onWay p) (stop : Option Nat) :
    labelsLoop m size budget p stop = none := by
  induction budget generalizing p stop with
  | zero => rfl
  | succ budget ih =>
    obtain ⟨a,length,ref,hnext,hlen,hnew⟩ := hway p hp
    rw [labelsLoop]
    simp only [hnext,hlen,↓reduceIte,ih hnew,Option.map_none]

theorem labelsAt_selfRef {m : Mem} {limit size p k : Nat} {cur : List Bytes}
    (hopen : OpenAt m limit p cur) (hblank : ∀ l ∈ cur, l ≠ []) (hk : k < cur.length)
    (hend : p + (labelsBytes cur).length + 2 ≤ limit)
    (href : m.read (p + (labelsBytes cur).length) 2 =
      refBytes (p + (labelsBytes (cur.take k)).length))
    (hlimit : limit ≤ 0x4000) (hsize : limit ≤ size) : labelsAt m size p = none := by
  have hnext : ∀ i (hi : i < cur.length), p + (labelsBytes (cur.take i)).length + 1 +
      cur[i].length = p + (labelsBytes (cur.take (i + 1))).length := by
    intro i hi
    rw [length_labelsBytes_take hi]
    omega
  have hpos : ∀ i (hi : i < cur.length), cur[i].length ≠ 0 := by
    intro i hi
    have := List.length_pos_iff.mpr (hblank cur[i] (List.getElem_mem hi))
    omega
  have hway : ∀ x, (∃ i, i ≤ cur.length ∧ x = p + (labelsBytes (cur.take i)).length) →
      ∃ a length ref, mdnsGetNextSubstring m size x = ⟨some a,length,ref⟩ ∧ length ≠ 0 ∧
        ∃ i, i ≤ cur.length ∧ a + length = p + (labelsBytes (cur.take i)).length := by
    intro x hx
    obtain ⟨i,hi,rfl⟩ := hx
    by_cases hlt : i < cur.length
    · have hl := hopen.labelAt hlt
      exact ⟨_,_,_,hl.next hsize (hblank _ (List.getElem_mem hlt)),hpos i hlt,i + 1,hlt,hnext i hlt⟩
    · rw [List.take_of_length_le (by omega)]
      have hl := hopen.labelAt hk
      exact ⟨_,_,_,hl.next_ref hsize hlimit hend href,hpos k hk,k + 1,hk,hnext k hk⟩
  exact labelsLoop_endless hway _ ⟨0,by omega,by simp [labelsBytes]⟩ _

theorem Making.absent {m : Mem} {st : NameState} {N : List Bytes} {table : MdnsStringTable}
    {name : Bytes} {capacity length fuel data lastPos : Nat}
    (h : Making m st [] N table name capacity length fuel data lastPos) {j : Nat} (hj : j ≤ N.length)
    (habs : ∀ i, i < j → search List.isEmpty 16 st.nodes (N.take i) (N.drop i) = .absent) :
    ∃ table' fuel' lastPos', mdnsStringMakeLoop capacity name length fuel m data lastPos table =
        mdnsStringMakeLoop capacity name length fuel' (m.write data (labelsBytes (N.take j)))
          (data + (labelsBytes (N.take j)).length) lastPos' table' ∧
      Making (m.write data (labelsBytes (N.take j))) st (N.take j) (N.drop j) table' name capacity
        length fuel' (data + (labelsBytes (N.take j)).length) lastPos' := by
  induction j with
  | zero =>
    refine ⟨table,fuel,lastPos,?_,?_⟩
    · simp [labelsBytes]
    · simpa [labelsBytes] using h
  | succ j ih =>
    obtain ⟨table',fuel',lastPos',hloop,hmaking⟩ := ih (by omega) fun i hi => habs i (by omega)
    have hroom := hmaking.room
    have hdata : data + (labelsBytes (N.take j)).length ≤ capacity := by omega
    have hdrop : N.drop j = N[j] :: N.drop (j + 1) := List.drop_eq_getElem_cons (by omega)
    have htake : N.take (j + 1) = N.take j ++ [N[j]] := List.take_succ_eq_append_getElem (by omega)
    have hnone := (hmaking.writing.foundAt_search hdata (N.drop j)).2 (habs j (by omega))
    rw [hdrop] at hmaking hnone
    obtain ⟨fuel'',lastPos'',hloop',hnext⟩ := hmaking.label hnone
    have hbytes : labelsBytes (N.take (j + 1)) = labelsBytes (N.take j) ++ labelBytes N[j] := by
      rw [htake,labelsBytes_append]
      simp [labelsBytes]
    have hlen : data + (labelsBytes (N.take (j + 1))).length =
        data + (labelsBytes (N.take j)).length + (N[j].length + 1) := by
      rw [hbytes,List.length_append,length_labelBytes,Nat.add_assoc]
    refine ⟨mdnsStringTableAdd table' (data + (labelsBytes (N.take j)).length),fuel'',lastPos'',?_,?_⟩
    · rw [hloop,hloop',hlen,hbytes,Mem.write_append]
    · rw [hlen,hbytes,Mem.write_append,htake]
      exact hnext

theorem followsOpen_self {ls : List Bytes} (h : ∀ l ∈ ls, l ≠ []) :
    followsOpen List.isEmpty ls ls = .hit := by
  induction ls with
  | nil => rfl
  | cons l ls ih =>
    have hl : l.isEmpty = false := by simpa using h l List.mem_cons_self
    simp [followsOpen,hl,ih fun k hk => h k (List.mem_cons_of_mem l hk)]

theorem OpenAt.readsOn_self {m : Mem} {limit size p : Nat} {ls : List Bytes}
    (h : OpenAt m limit p ls) (hs : limit ≤ size) (hblank : ∀ l ∈ ls, l ≠ []) :
    WlrRemote.readsOn m size p ls = true := by
  rw [h.readsOn hs,followsOpen_self hblank]

/-- A search in the labels of the first name that is not without result finds one of them,
if the memory goes on with the labels left to compare. -/
theorem search_found {cur s : List Bytes} (h : search List.isEmpty 16 [] cur s ≠ .absent) :
    ∃ k r, k < cur.length ∧ r <:+ s ∧ ∀ (m : Mem) (data capacity : Nat),
      Writing m .start cur data → data ≤ capacity → readsOn m capacity data r = true →
        foundAt m capacity .start cur s = some ((NameState.start.addrsWith cur).getD k 0) := by
  cases hs : search List.isEmpty 16 [] cur s with
  | absent => contradiction
  | «at» k =>
    have hk := (mem_recent.mp (scan_at hs).1).1
    refine ⟨k,[],by simpa using hk,List.nil_suffix,fun m data capacity hw hcap _ => ?_⟩
    exact (hw.foundAt_search hcap s).1 k hs
  | beyond =>
    obtain ⟨pre,k,post,hrecent,hpre,hbeyond⟩ := scan_beyond hs
    have hk : k < cur.length := by
      have hmem : k ∈ recent 16 (([] : List (Node Bytes)).length + cur.length) := by
        rw [hrecent]
        simp
      simpa using (mem_recent.mp hmem).1
    have hopen : followsOpen List.isEmpty (cur.drop k) s = .beyond := by
      simpa [verdict] using hbeyond
    obtain ⟨r,-,hsplit,-⟩ := followsOpen_beyond hopen
    refine ⟨k,r,hk,⟨cur.drop k,hsplit.symm⟩,fun m data capacity hw hcap hr => ?_⟩
    have hnodes : NameState.start.nodes = [] := rfl
    have hentry (i : Nat) (hi : i ∈ recent 16 (([] : List (Node Bytes)).length + cur.length)) :=
      hw.readsOn_entry hcap s (mem_recent.mp hi).1
    simp only [hnodes] at hentry
    have hread : readsOn m capacity ((NameState.start.addrsWith cur).getD k 0) s = true := by
      have hdrop : s.drop (cur.length - (k - ([] : List (Node Bytes)).length)) = r := by
        rw [hsplit,List.length_nil,Nat.sub_zero,← List.length_drop,List.drop_left]
      rw [hentry k (by rw [hrecent]; simp),hbeyond,hdrop]
      exact hr
    have hnone : (pre.findSome? fun i =>
        if readsOn m capacity ((NameState.start.addrsWith cur).getD i 0) s then
          some ((NameState.start.addrsWith cur).getD i 0) else none) = none := by
      rw [List.findSome?_eq_none_iff]
      intro i hi
      have hmiss := hentry i (by rw [hrecent]; exact List.mem_append_left _ hi)
      rw [hpre i hi] at hmiss
      rw [hmiss]
      rfl
    have hrecent' : recent 16 (NameState.start.nodes.length + cur.length) = pre ++ k :: post :=
      hrecent
    rw [foundAt,hrecent',List.findSome?_append,hnone,List.findSome?_cons,hread]
    rfl

theorem length_labelsBytes (ls : List Bytes) : (labelsBytes ls).length = (dotted ls).length := by
  induction ls with
  | nil => rfl
  | cons l ls ih =>
    rw [length_labelsBytes_cons,length_dotted_cons,ih]
    omega

def SelfRefAt (m : Mem) (p stop : Nat) : Prop := ∃ cur k, k < cur.length ∧ (∀ l ∈ cur, l ≠ []) ∧
  stop = p + (labelsBytes cur).length + 2 ∧ OpenAt m stop p cur ∧
  m.read (p + (labelsBytes cur).length) 2 = refBytes (p + (labelsBytes (cur.take k)).length)

theorem SelfRefAt.mono {m m' : Mem} {p stop : Nat} (h : SelfRefAt m p stop)
    (hm : AgreeBelow stop m m') : SelfRefAt m' p stop := by
  obtain ⟨cur,k,hk,hblank,hstop,⟨hshort,hle,hread⟩,href⟩ := h
  refine ⟨cur,k,hk,hblank,hstop,⟨hshort,hle,?_⟩,?_⟩
  · rw [← hm.read (by omega),hread]
  · rw [← hm.read (by omega),href]

theorem SelfRefAt.labelsAt {m : Mem} {p stop size : Nat} (h : SelfRefAt m p stop)
    (hstop : stop ≤ 0x4000) (hsize : stop ≤ size) : WlrRemote.labelsAt m size p = none := by
  obtain ⟨cur,k,hk,hblank,hend,hopen,href⟩ := h
  exact labelsAt_selfRef hopen hblank hk (by omega) href hstop hsize

/-- With some content of the buffer, a name that repeats a block of its labels comes to
refer to itself where it is the first name of a message. -/
theorem make_selfRef {name : Bytes} (hname : Readable name)
    (hrepeat : ¬ NoRepeat 16 (nameLabels name)) {capacity : Nat}
    (hroom : 12 + (name.length + 2) ≤ capacity) : ∃ buffer : Mem, ∀ header : Bytes,
      header.length = 12 → ∃ stop,
        (mdnsStringMake (buffer.write 0 header) capacity 12 name .empty).data = some stop ∧
        SelfRefAt (mdnsStringMake (buffer.write 0 header) capacity 12 name .empty).buffer 12 stop := by
  have hle := hname.length_le
  have hblank : ∀ l ∈ nameLabels name, List.isEmpty l = false := by
    intro l hl
    simpa using hname.blank l hl
  have hshort : ∀ l ∈ nameLabels name, l.length < 192 := fun l hl =>
    short_of_mem_nameLabels (by omega) hl
  have htotal : (labelsBytes (nameLabels name)).length = name.length := by
    rw [length_labelsBytes,hname.dotted]
  obtain ⟨j,hj,hne,habs⟩ := search_repeat hblank hrepeat
  obtain ⟨k,r,hk,hsuffix,hfound⟩ := search_found hne
  generalize hN : nameLabels name = N at *
  obtain ⟨u,hu⟩ := hsuffix
  have hsplit : (labelsBytes (N.take j)).length + ((labelsBytes u).length +
      (labelsBytes r).length) = name.length := by
    rw [← htotal,← List.length_append,← labelsBytes_append,hu,← List.length_append,
      ← labelsBytes_append,List.take_append_drop]
  have hmemr : ∀ l ∈ r, l ∈ N := by
    intro l hl
    have hdrop : l ∈ N.drop j := by
      rw [← hu]
      exact List.mem_append_right u hl
    exact List.mem_of_mem_drop hdrop
  generalize hdata : 12 + (labelsBytes (N.take j)).length = data at *
  refine ⟨Mem.write (fun _ => 0) data (labelsBytes r),fun header hheader => ?_⟩
  generalize hm₀ : Mem.write (Mem.write (fun _ => 0) data (labelsBytes r)) 0 header = m₀
  obtain ⟨length,fuel,hmaking,hmake⟩ := (Laid.start m₀).making .empty hroom (by omega : name.length < 192)
  rw [hN] at hmaking
  obtain ⟨table',fuel',lastPos',hloop,hnext⟩ := hmaking.absent (by omega) habs
  have hpos : NameState.start.pos = 12 := rfl
  rw [hpos] at hmake
  rw [hpos,hdata] at hloop hnext
  generalize hm₁ : m₀.write 12 (labelsBytes (N.take j)) = m₁ at hloop hnext
  -- the labels of the rest are still there behind those written
  have hread : m₁.read data (labelsBytes r).length = labelsBytes r := by
    rw [← hm₁,Mem.read_write_above (by omega),← hm₀,Mem.read_write_above (by omega)]
    exact Mem.read_write _ _ _
  have hopen : OpenAt m₁ (data + (labelsBytes r).length) data r :=
    ⟨fun l hl => hshort l (hmemr l hl),Nat.le_refl _,hread⟩
  have hreads : readsOn m₁ capacity data r = true :=
    hopen.readsOn_self (by omega) fun l hl => hname.blank l (by rw [hN]; exact hmemr l hl)
  have hcap : data ≤ capacity := by omega
  have hat := hfound m₁ data capacity hnext.writing hcap hreads
  have haddr : (NameState.start.addrsWith (N.take j)).getD k 0 =
      12 + (labelsBytes ((N.take j).take k)).length := by
    have hget := labelAddrs_getElem? (p := 12) hk
    simp [NameState.addrsWith,NameState.start,hget]
  rw [haddr] at hat
  obtain ⟨l,rest,hrest⟩ := List.exists_cons_of_length_pos
    (show 0 < (N.drop j).length by rw [List.length_drop]; omega)
  rw [hrest] at hnext hat
  have hmade := hnext.ref hat
  rw [hmake,hloop,hmade]
  refine ⟨data + 2,rfl,N.take j,k,hk,?_,by omega,⟨?_,by omega,?_⟩,?_⟩
  · intro l hl
    exact hname.blank l (by rw [hN]; exact List.mem_of_mem_take hl)
  · exact fun l hl => hshort l (List.mem_of_mem_take hl)
  · rw [Mem.read_write_below (by omega),← hm₁]
    exact Mem.read_write _ _ _
  · rw [hdata]
    exact Mem.read_write m₁ data (refBytes _)

theorem messageMem_agree (m : Mem) (n : Nat) : AgreeBelow n m (messageMem (m.read 0 n)) := by
  intro i hi
  have hget := m.getElem?_read 0 n i hi
  simp only [messageMem,Mem.write,Nat.not_lt_zero,↓reduceIte,Nat.sub_zero,hget,Nat.zero_add]
  rfl

theorem decodeMessage_selfRef {bytes : Bytes} {header : MdnsHeader} {stop : Nat}
    (hheader : (messageMem bytes).read 0 12 = header.bytes) (hquestions : header.questions = 1)
    (h : SelfRefAt (messageMem bytes) 12 stop) (hstop : stop ≤ 0x4000)
    (hsize : stop ≤ bytes.length) : decodeMessage bytes = none := by
  have hextract : mdnsStringExtract (messageMem bytes) bytes.length 12 nameCapacity = none := by
    rw [mdnsStringExtract_labels,h.labelsAt hstop hsize]
    rfl
  have hcount := (MdnsHeader.read_counts hheader).1
  have hone : (1 : UInt16).toNat = 1 := rfl
  unfold decodeMessage
  rw [← messageMem]
  simp only [hcount,hquestions,hone,decodeMany,decodeQuestion,hextract,Option.bind_none,ite_self]

theorem unicast_selfRef {name : Bytes} (hname : Readable name)
    (hrepeat : ¬ NoRepeat 16 (nameLabels name)) {capacity : Nat} (hcap : capacity ≤ 0x3FFF)
    (queryId recordType : UInt16) {answer : MdnsRecord} {additional : List MdnsRecord}
    (hanswer : answer.type ≠ .txt)
    (hroom : 48 + (name.length + 6) + recordRoom answer + recordsRoom additional ≤ capacity) :
    ∃ buffer : Mem, ∀ sock dest, ∀ d ∈ (mdnsQueryAnswerUnicast buffer capacity queryId recordType
      name answer [] additional).sent sock dest, decodeMessage d.bytes = none := by
  obtain ⟨buffer,hbuffer⟩ := make_selfRef hname hrepeat (by omega : 12 + (name.length + 2) ≤ capacity)
  obtain ⟨stop,hdata,hself⟩ := hbuffer (unicastHeader queryId additional).bytes rfl
  obtain ⟨stop',hdata',hmin,hmax,hhead⟩ : Extends
      (buffer.write 0 (unicastHeader queryId additional).bytes) 12 (name.length + 2)
      (mdnsStringMake (buffer.write 0 (unicastHeader queryId additional).bytes) capacity 12 name
        .empty) := mdnsStringMake_extends (by omega)
  rw [hdata] at hdata'
  obtain rfl := Option.some.inj hdata'
  have hfour : ¬ capacity - stop < 4 := by omega
  have hquestion : mdnsAnswerAddQuestionUnicast (buffer.write 0
      (unicastHeader queryId additional).bytes) capacity 12 recordType name .empty =
        ⟨(mdnsStringMake (buffer.write 0 (unicastHeader queryId additional).bytes) capacity 12 name
          .empty).buffer.write stop (questionFields recordType),some (stop + 4),
          (mdnsStringMake (buffer.write 0 (unicastHeader queryId additional).bytes) capacity 12 name
            .empty).table⟩ := by
    simp only [mdnsAnswerAddQuestionUnicast,hdata,hfour,↓reduceIte]
    rfl
  obtain ⟨d,hd,hle,-,hagree⟩ := mdnsQueryAnswerUnicast_afterQuestion queryId recordType name hcap
    hanswer (by omega) (congrArg MdnsWriter.data hquestion)
    (by omega : stop + 4 + (recordRoom answer + recordsRoom additional) ≤ capacity)
  have hbuf := congrArg MdnsWriter.buffer hquestion
  simp only [unicastHeader] at hbuf hself hhead
  rw [hbuf] at hagree
  refine ⟨buffer,fun sock dest sent hsent => ?_⟩
  generalize mdnsQueryAnswerUnicast buffer capacity queryId recordType name answer [] additional = w
    at hd hagree hsent
  generalize mdnsStringMake (buffer.write 0 _) capacity 12 name .empty = made at hself hhead hagree
  have hfinal : AgreeBelow stop made.buffer (messageMem (w.buffer.read 0 d)) :=
    ((agreeBelow_write (Nat.le_refl stop)).trans (hagree.mono (by omega))).trans
      ((messageMem_agree w.buffer d).mono (by omega))
  obtain rfl : sent = ⟨sock,dest,w.buffer.read 0 d⟩ := by
    simpa [MdnsWriter.sent,hd] using hsent
  have hheader : (messageMem (w.buffer.read 0 d)).read 0 12 =
      (unicastHeader queryId additional).bytes := by
    rw [← hfinal.read (by omega),← hhead.read (by omega)]
    exact buffer.read_write 0 (unicastHeader queryId additional).bytes
  exact decodeMessage_selfRef hheader rfl (hself.mono hfinal) (by omega)
    (by rw [Mem.length_read]; omega)

end WlrRemote
