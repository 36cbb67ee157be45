import WlrRemote.NameLayout
import WlrRemote.MessageRoom

set_option autoImplicit false

namespace WlrRemote
open Octets SuffixTable

/-- The table holds the addresses of the last sixteen labels. -/
structure TableOf (table : MdnsStringTable) (addrs : List Nat) : Prop where
  count : table.count = min 16 addrs.length
  next : table.next.val = addrs.length % 16
  offset : ∀ s : Fin 16, s.val < addrs.length →
    addrs[slot 16 addrs.length s]? = some (table.offset s)

theorem TableOf.empty : TableOf .empty [] := ⟨rfl,rfl,by simp⟩

theorem TableOf.add {table : MdnsStringTable} {addrs : List Nat} (h : TableOf table addrs)
    (a : Nat) : TableOf (mdnsStringTableAdd table a) (addrs ++ [a]) := by
  have hcount := h.count
  have hnext := h.next
  refine ⟨?_,?_,fun s hs => ?_⟩
  · simp only [mdnsStringTableAdd,hcount,List.length_append,List.length_singleton]
    omega
  · simp only [mdnsStringTableAdd,Fin.val_add,hnext,List.length_append,List.length_singleton,
      Fin.val_one]
    omega
  · simp only [List.length_append,List.length_singleton] at hs ⊢
    by_cases hslot : s = table.next
    · subst hslot
      rw [hnext,slot_self]
      simp [mdnsStringTableAdd]
    · have hne : s.val ≠ addrs.length % 16 := by
        rw [← hnext]
        exact fun h => hslot (Fin.ext h)
      have hlt : s.val < addrs.length := by
        have := s.isLt
        omega
      rw [slot_succ s.isLt hlt hne,List.getElem?_append_left (slot_lt hlt),h.offset s hlt]
      simp [mdnsStringTableAdd,hslot]

theorem TableOf.offsets {table : MdnsStringTable} {addrs : List Nat} (h : TableOf table addrs) :
    ((List.finRange 16).take table.count).map table.offset =
      (recent 16 addrs.length).map fun k => addrs.getD k 0 := by
  have hcount := h.count
  apply List.ext_getElem
  · simp [recent,hcount]
  · intro i hi _
    simp only [List.length_map,List.length_take,List.length_finRange] at hi
    have hlt : i < addrs.length := by omega
    have hoff := h.offset ⟨i,by omega⟩ hlt
    simp only [recent,List.getElem_map,List.getElem_take,List.getElem_finRange,
      List.getElem_range,List.getD_eq_getElem?_getD]
    simp only at hoff
    rw [hoff]
    rfl

theorem mdnsStringFind_eq {str : Bytes} {length offset : Nat} (h : offset < length)
    (hl : length ≤ str.length) :
    (mdnsStringFind str length dot offset).getD length =
      offset + firstLength ((str.take length).drop offset) := by
  have hlen : ((str.take length).drop offset).length = length - offset := by
    rw [List.length_drop,List.length_take]
    omega
  have hoff : ¬ length ≤ offset := by omega
  unfold mdnsStringFind firstLength
  rw [if_neg hoff]
  cases ((str.take length).drop offset).idxOf? dot with
  | none =>
    simp only [Option.map_none,Option.getD_none,hlen]
    omega
  | some q => rfl

theorem take_of_take {str : Bytes} {length offset n : Nat} (h : offset + n ≤ length) :
    ((str.take length).drop offset).take n = (str.drop offset).take n := by
  rw [List.drop_take,List.take_take,Nat.min_eq_left (by omega)]

theorem mdnsStringTableMatch_iff {buffer : Mem} {capacity : Nat} {str : Bytes} {total fuel : Nat}
    (offset cur : Nat) (hlen : total ≤ str.length) (hfuel : total ≤ fuel + offset) :
    total ≤ mdnsStringTableMatch buffer capacity str total fuel offset cur ↔
      readsOn buffer capacity cur (labels ((str.take total).drop offset)) = true := by
  induction fuel generalizing offset cur with
  | zero =>
    have hdrop : (str.take total).drop offset = [] :=
      List.drop_eq_nil_of_le (by rw [List.length_take]; omega)
    have hle : total ≤ offset := by omega
    simp [mdnsStringTableMatch,hdrop,labels,readsOn,hle]
  | succ fuel ih =>
    by_cases hlt : offset < total
    · have hlt' : ((str.take total).drop offset).length = total - offset := by
        rw [List.length_drop,List.length_take]
        omega
      have hne : (str.take total).drop offset ≠ [] :=
        List.ne_nil_of_length_pos (by omega)
      have hfirst := firstLength_le ((str.take total).drop offset)
      have hlabels := labels_eq hne
      have hpos := mdnsStringFind_eq hlt hlen
      have hle : ¬ total ≤ offset := by omega
      rw [hlabels,mdnsStringTableMatch,if_pos hlt,readsOn,hpos]
      simp only [Nat.add_sub_cancel_left]
      cases hsub : (mdnsGetNextSubstring buffer capacity cur).offset with
      | none => simp [hle]
      | some a =>
        simp only
        generalize firstLength ((str.take total).drop offset) = n at hfirst hpos ⊢
        have htake : (((str.take total).drop offset).take n).length = n := by
          rw [List.length_take]
          omega
        rw [htake,take_of_take (by omega)]
        by_cases hbad : (mdnsGetNextSubstring buffer capacity cur).length = 0 ∨
            (mdnsGetNextSubstring buffer capacity cur).length ≠ n
        · rw [if_pos hbad]
          rcases hbad with hbad | hbad <;> simp [hle,hbad]
        · rw [if_neg hbad]
          have hn : (mdnsGetNextSubstring buffer capacity cur).length = n := by
            by_contra hc
            exact hbad (Or.inr hc)
          have hn0 : n ≠ 0 := fun h0 => hbad (Or.inl (hn.trans h0))
          rw [hn]
          by_cases hread : (str.drop offset).take n ≠ buffer.read a n
          · rw [if_pos hread]
            simp [hle,Ne.symm hread]
          · rw [if_neg hread]
            have hrec := ih (offset + n + 1) (a + n) (by omega)
            have hdrop : ((str.take total).drop offset).drop (n + 1) =
                (str.take total).drop (offset + n + 1) := by
              rw [List.drop_drop,Nat.add_assoc]
            rw [hrec,hdrop]
            have heq : buffer.read a n = (str.drop offset).take n := by
              by_contra hc
              exact hread (Ne.symm hc)
            simp [hn0,heq]
    · have hdrop : (str.take total).drop offset = [] :=
        List.drop_eq_nil_of_le (by rw [List.length_take]; omega)
      have hle : total ≤ offset := by omega
      simp [mdnsStringTableMatch,hlt,hdrop,labels,readsOn,hle]

/-- An entry is a match exactly if the name there starts with the labels sought. -/
theorem mdnsStringTableTry_eq {buffer : Mem} {capacity : Nat} {str : Bytes} {total : Nat}
    (entry : Nat) (hlen : total ≤ str.length) (hpos : 0 < total) :
    mdnsStringTableTry buffer capacity str (firstLength (str.take total)) total entry =
      if readsOn buffer capacity entry (labels (str.take total)) then some entry else none := by
  have hne : str.take total ≠ [] :=
    List.ne_nil_of_length_pos (by rw [List.length_take]; omega)
  have hfirst := firstLength_le (str.take total)
  have hlt : (str.take total).length = total := by
    rw [List.length_take]
    omega
  rw [labels_eq hne,mdnsStringTableTry,readsOn]
  generalize firstLength (str.take total) = n at hfirst
  have htake : (str.take total).take n = str.take n := by
    rw [List.take_take,Nat.min_eq_left (by omega)]
  have hlen' : ((str.take total).take n).length = n := by
    rw [List.length_take]
    omega
  rw [hlen',htake]
  by_cases hcap : capacity ≤ entry
  · simp [hcap,mdnsGetNextSubstring]
  · rw [if_neg hcap]
    simp only
    cases hsub : (mdnsGetNextSubstring buffer capacity entry).offset with
    | none => simp
    | some a =>
      simp only
      by_cases hbad : (mdnsGetNextSubstring buffer capacity entry).length = 0 ∨
          (mdnsGetNextSubstring buffer capacity entry).length ≠ n
      · rw [if_pos hbad]
        rcases hbad with hbad | hbad <;> simp [hbad]
      · rw [if_neg hbad]
        have hn : (mdnsGetNextSubstring buffer capacity entry).length = n := by
          by_contra hc
          exact hbad (Or.inr hc)
        have hn0 : n ≠ 0 := fun h0 => hbad (Or.inl (hn.trans h0))
        rw [hn]
        by_cases hread : str.take n = buffer.read a n
        · have hmatch : total ≤ mdnsStringTableMatch buffer capacity str total total (n + 1)
              (a + n) ↔ readsOn buffer capacity (a + n)
                (labels ((str.take total).drop (n + 1))) = true :=
            mdnsStringTableMatch_iff (n + 1) (a + n) hlen (by omega)
          simp [hread,hn0,hmatch]
        · simp [hread,Ne.symm hread]

theorem mdnsStringTableFind_eq {buffer : Mem} {capacity : Nat} {str : Bytes} {total : Nat}
    {table : MdnsStringTable} {addrs : List Nat} (ht : TableOf table addrs)
    (hlen : total ≤ str.length) (hpos : 0 < total) :
    mdnsStringTableFind table buffer capacity str (firstLength (str.take total)) total =
      (recent 16 addrs.length).findSome? fun k =>
        if readsOn buffer capacity (addrs.getD k 0) (labels (str.take total)) then
          some (addrs.getD k 0)
        else none := by
  have hfun : (fun i => mdnsStringTableTry buffer capacity str (firstLength (str.take total)) total
      (table.offset i)) = (fun a => if readsOn buffer capacity a (labels (str.take total)) then
        some a else none) ∘ table.offset := by
    funext i
    exact mdnsStringTableTry_eq (table.offset i) hlen hpos
  rw [mdnsStringTableFind,hfun,← List.findSome?_map,ht.offsets,List.findSome?_map]
  rfl

structure Writing (m : Mem) (st : NameState) (cur : List Bytes) (data : Nat) : Prop where
  laid : Laid m st
  opened : OpenAt m data st.pos cur
  data_eq : data = st.pos + (labelsBytes cur).length

def NameState.addrsWith (st : NameState) (cur : List Bytes) : List Nat :=
  st.addrs ++ labelAddrs st.pos cur

theorem Writing.length_addrsWith {m : Mem} {st : NameState} {cur : List Bytes} {data : Nat}
    (h : Writing m st cur data) :
    (st.addrsWith cur).length = st.nodes.length + cur.length := by
  simp [NameState.addrsWith,h.laid.length]

/-- An entry reads as the verdict says; past the point of writing, as memory has it. -/
theorem Writing.readsOn_entry {m : Mem} {st : NameState} {cur : List Bytes} {data capacity : Nat}
    (h : Writing m st cur data) (hcap : data ≤ capacity) (s : List Bytes) {k : Nat}
    (hk : k < st.nodes.length + cur.length) :
    readsOn m capacity ((st.addrsWith cur).getD k 0) s =
      match verdict List.isEmpty st.nodes cur s k with
      | .hit => true
      | .miss => false
      | .beyond => readsOn m capacity data (s.drop (cur.length - (k - st.nodes.length))) := by
  have hdata := h.data_eq
  have hlen := h.laid.length
  unfold verdict
  by_cases hold : k < st.nodes.length
  · have hka : k < st.addrs.length := by omega
    have hget : st.addrs[k]? = some st.addrs[k] := List.getElem?_eq_getElem hka
    have haddr : (st.addrsWith cur).getD k 0 = st.addrs[k] := by
      rw [NameState.addrsWith,List.getD_eq_getElem?_getD,List.getElem?_append_left hka,hget]
      rfl
    have hlink : LinkAt m st.pos st.addrs st.addrs[k] (.node k) :=
      ⟨st.addrs[k],hget,Or.inl rfl⟩
    rw [if_pos hold,haddr,h.laid.readsOn_link (by omega) hlink]
    cases follows List.isEmpty st.nodes (.node k) s <;> simp
  · obtain ⟨i,rfl⟩ := Nat.exists_eq_add_of_le (Nat.le_of_not_lt hold)
    have hi : i < cur.length := by omega
    have haddr : (st.addrsWith cur).getD (st.nodes.length + i) 0 =
        st.pos + (labelsBytes (cur.take i)).length := by
      rw [NameState.addrsWith,List.getD_eq_getElem?_getD,
        List.getElem?_append_right (by omega),← hlen,Nat.add_sub_cancel_left,
        labelAddrs_getElem? hi]
      rfl
    have hopen := h.opened
    rw [← List.take_append_drop i cur,OpenAt.append_iff] at hopen
    have hsum : st.pos + (labelsBytes (cur.take i)).length + (labelsBytes (cur.drop i)).length =
        data := by
      have happ := labelsBytes_append (cur.take i) (cur.drop i)
      rw [List.take_append_drop] at happ
      rw [hdata,happ,List.length_append]
      omega
    have hread := hopen.2.readsOn hcap s
    rw [hsum,List.length_drop] at hread
    rw [if_neg hold,haddr,Nat.add_sub_cancel_left]
    exact hread.trans (by cases followsOpen List.isEmpty (cur.drop i) s <;> rfl)

theorem findSome_scan {v : Nat → Verdict} {reads : Nat → Bool} {f : Nat → Nat} {ks : List Nat}
    (hhit : ∀ k ∈ ks, v k = .hit → reads k = true)
    (hmiss : ∀ k ∈ ks, v k = .miss → reads k = false) :
    (∀ k, scan v ks = .at k →
      (ks.findSome? fun k => if reads k then some (f k) else none) = some (f k)) ∧
    (scan v ks = .absent → (ks.findSome? fun k => if reads k then some (f k) else none) = none) := by
  induction ks with
  | nil => simp [scan]
  | cons k ks ih =>
    obtain ⟨ihat,ihabs⟩ := ih (fun i hi => hhit i (List.mem_cons_of_mem k hi))
      (fun i hi => hmiss i (List.mem_cons_of_mem k hi))
    cases hv : v k with
    | hit =>
      have hr := hhit k List.mem_cons_self hv
      simp [scan,hv,hr]
    | miss =>
      have hr := hmiss k List.mem_cons_self hv
      simp only [scan,hv,List.findSome?_cons,hr,Bool.false_eq_true,↓reduceIte]
      exact ⟨ihat,ihabs⟩
    | beyond => simp [scan,hv]

def foundAt (m : Mem) (capacity : Nat) (st : NameState) (cur s : List Bytes) : Option Nat :=
  (recent 16 (st.nodes.length + cur.length)).findSome? fun k =>
    if readsOn m capacity ((st.addrsWith cur).getD k 0) s then some ((st.addrsWith cur).getD k 0)
    else none

/-- Where the search on labels has an answer, the search in memory has the same. -/
theorem Writing.foundAt_search {m : Mem} {st : NameState} {cur : List Bytes} {data capacity : Nat}
    (h : Writing m st cur data) (hcap : data ≤ capacity) (s : List Bytes) :
    (∀ k, search List.isEmpty 16 st.nodes cur s = .at k →
      foundAt m capacity st cur s = some ((st.addrsWith cur).getD k 0)) ∧
    (search List.isEmpty 16 st.nodes cur s = .absent → foundAt m capacity st cur s = none) := by
  have hentry : ∀ k ∈ recent 16 (st.nodes.length + cur.length),
      readsOn m capacity ((st.addrsWith cur).getD k 0) s =
        match verdict List.isEmpty st.nodes cur s k with
        | .hit => true
        | .miss => false
        | .beyond => readsOn m capacity data (s.drop (cur.length - (k - st.nodes.length))) :=
    fun k hk => h.readsOn_entry hcap s (mem_recent.mp hk).1
  exact findSome_scan (fun k hk hv => by rw [hentry k hk,hv])
    (fun k hk hv => by rw [hentry k hk,hv])

theorem Writing.append {m : Mem} {st : NameState} {cur : List Bytes} {data : Nat}
    (h : Writing m st cur data) {l : Bytes} (hl : l.length < 192) :
    Writing (m.write data (labelBytes l)) st (cur ++ [l]) (data + (l.length + 1)) := by
  have hdata := h.data_eq
  have hagree : AgreeBelow data m (m.write data (labelBytes l)) := agreeBelow_write (Nat.le_refl _)
  have hbytes : labelsBytes [l] = labelBytes l := by simp [labelsBytes]
  obtain ⟨hshort,hwithin,hread⟩ := h.opened
  refine ⟨h.laid.congr (hagree.mono (by omega)),OpenAt.append_iff.mpr ⟨⟨hshort,by omega,?_⟩,?_⟩,?_⟩
  · rw [← hagree.read hwithin,hread]
  · rw [← hdata]
    refine ⟨by simpa using hl,by rw [hbytes,length_labelBytes],?_⟩
    rw [hbytes]
    exact Mem.read_write m data (labelBytes l)
  · rw [labelsBytes_append,List.length_append,hbytes,length_labelBytes,hdata]
    omega

theorem spell_bounds {w : Nat} {g : List (Node Bytes)} {cur rest cur' : List Bytes} {link : Link}
    (h : spell List.isEmpty w g cur rest = some (cur',link)) :
    cur <+: cur' ∧ cur' <+: cur ++ rest ∧ ∀ k, link = .node k → k < g.length + cur'.length := by
  induction rest generalizing cur with
  | nil =>
    obtain ⟨rfl,rfl⟩ := Prod.mk.inj (Option.some.inj h)
    exact ⟨List.prefix_refl cur,List.prefix_append cur [],by simp⟩
  | cons l ls ih =>
    unfold spell at h
    cases hs : search List.isEmpty w g cur (l :: ls) with
    | «at» k =>
      rw [hs] at h
      obtain ⟨rfl,rfl⟩ := Prod.mk.inj (Option.some.inj h)
      refine ⟨List.prefix_refl cur,List.prefix_append cur _,fun k' hk' => ?_⟩
      obtain rfl := Link.node.inj hk'
      exact (mem_recent.mp (scan_at hs).1).1
    | absent =>
      rw [hs] at h
      obtain ⟨hp,hp',hlt⟩ := ih h
      rw [List.append_assoc] at hp'
      exact ⟨(List.prefix_append cur [l]).trans hp,hp',hlt⟩
    | beyond =>
      rw [hs] at h
      contradiction

theorem next_text {name : Bytes} {length lastPos : Nat} (h : lastPos < length)
    (hl : length ≤ name.length) :
    (name.take length).drop (((mdnsStringFind name length dot lastPos).map (· + 1)).getD length) =
      ((name.take length).drop lastPos).drop
        (firstLength ((name.take length).drop lastPos) + 1) := by
  have hlen : (name.take length).length = length := by
    rw [List.length_take]
    omega
  have hpos := mdnsStringFind_eq h hl
  rw [List.drop_drop]
  cases hq : mdnsStringFind name length dot lastPos with
  | none =>
    rw [hq] at hpos
    simp only [Option.getD_none,Option.map_none] at hpos ⊢
    rw [List.drop_eq_nil_of_le (by omega),List.drop_eq_nil_of_le (by omega)]
  | some q =>
    rw [hq] at hpos
    simp only [Option.getD_some,Option.map_some] at hpos ⊢
    rw [hpos,Nat.add_assoc]

theorem Writing.addrsWith_append {m : Mem} {st : NameState} {cur : List Bytes} {data : Nat}
    (h : Writing m st cur data) (l : Bytes) :
    st.addrsWith (cur ++ [l]) = st.addrsWith cur ++ [data] := by
  rw [NameState.addrsWith,NameState.addrsWith,labelAddrs_append,← List.append_assoc,h.data_eq]
  rfl

structure Making (m : Mem) (st : NameState) (cur rest : List Bytes) (table : MdnsStringTable)
    (name : Bytes) (capacity length fuel data lastPos : Nat) : Prop where
  writing : Writing m st cur data
  tableOf : TableOf table (st.addrsWith cur)
  length_le : length ≤ name.length
  lastPos_le : lastPos ≤ length
  enough : length < fuel + lastPos
  room : data + nameRoom length lastPos ≤ capacity
  rest_eq : labels ((name.take length).drop lastPos) = rest
  short : ∀ l ∈ rest, l.length < 192

section Making

variable {m : Mem} {st : NameState} {cur rest : List Bytes} {l : Bytes} {table : MdnsStringTable}
  {name : Bytes} {capacity length fuel data lastPos : Nat}

theorem Making.cons (h : Making m st cur (l :: rest) table name capacity length fuel data lastPos) :
    ∃ fuel', fuel = fuel' + 1 ∧ lastPos < length ∧
      l = ((name.take length).drop lastPos).take (firstLength ((name.take length).drop lastPos)) ∧
      (mdnsStringFind name length dot lastPos).getD length - lastPos = l.length ∧
      mdnsStringTableFind table m capacity (name.drop lastPos) l.length (length - lastPos) =
        foundAt m capacity st cur (l :: rest) := by
  obtain ⟨hw,ht,hlen,hlast,hfuel,-,hrest,-⟩ := h
  have hlt : lastPos < length := by
    by_contra hge
    rw [List.drop_eq_nil_of_le (by rw [List.length_take]; omega)] at hrest
    contradiction
  have hne : (name.take length).drop lastPos ≠ [] :=
    List.ne_nil_of_length_pos (by rw [List.length_drop,List.length_take]; omega)
  have hpos := mdnsStringFind_eq hlt hlen
  have hfirst := firstLength_le ((name.take length).drop lastPos)
  have htotal : (name.drop lastPos).take (length - lastPos) = (name.take length).drop lastPos := by
    rw [List.drop_take]
  have hlabels := labels_eq hne
  rw [hrest] at hlabels
  obtain ⟨hl,-⟩ := List.cons.inj hlabels
  have hlength : l.length = firstLength ((name.take length).drop lastPos) := by
    rw [hl,List.length_take,Nat.min_eq_left hfirst]
  have hleft : length - lastPos ≤ (name.drop lastPos).length := by
    rw [List.length_drop]
    omega
  have hfind : mdnsStringTableFind table m capacity (name.drop lastPos) _ (length - lastPos) = _ :=
    mdnsStringTableFind_eq ht hleft (by omega)
  rw [htotal,← hlength,hrest,hw.length_addrsWith] at hfind
  exact ⟨fuel - 1,by omega,hlt,hl,by omega,hfind⟩

theorem Making.label (h : Making m st cur (l :: rest) table name capacity length fuel data lastPos)
    (hnone : foundAt m capacity st cur (l :: rest) = none) : ∃ fuel' lastPos',
      mdnsStringMakeLoop capacity name length fuel m data lastPos table =
        mdnsStringMakeLoop capacity name length fuel' (m.write data (labelBytes l))
          (data + (l.length + 1)) lastPos' (mdnsStringTableAdd table data) ∧
      Making (m.write data (labelBytes l)) st (cur ++ [l]) rest (mdnsStringTableAdd table data) name
        capacity length fuel' (data + (l.length + 1)) lastPos' := by
  obtain ⟨fuel',rfl,hlt,hl,hsub,hfind⟩ := h.cons
  obtain ⟨hw,ht,hlen,-,hfuel,hroom,hrest,hshort⟩ := h
  obtain ⟨hle,hnext,hnext',hroom'⟩ := next_label name hlt
  have hfirst := firstLength_le ((name.take length).drop lastPos)
  have hlength : l.length = firstLength ((name.take length).drop lastPos) := by
    rw [hl,List.length_take,Nat.min_eq_left hfirst]
  have htext := next_text hlt hlen
  have hne : (name.take length).drop lastPos ≠ [] :=
    List.ne_nil_of_length_pos (by rw [List.length_drop,List.length_take]; omega)
  have hlabels := labels_eq hne
  rw [hrest,← htext] at hlabels
  simp only [hsub] at hroom' hle
  simp only [nameRoom,hlt,↓reduceIte] at hroom
  have hcap : ¬ capacity - data ≤ l.length + 1 := by omega
  have htake : (name.drop lastPos).take l.length = l := by
    rw [hlength]
    conv_rhs => rw [hl]
    rw [take_of_take (by omega)]
  refine ⟨fuel',((mdnsStringFind name length dot lastPos).map (· + 1)).getD length,?_,?_⟩
  · simp only [mdnsStringMakeLoop,hlt,↓reduceIte,hsub,hfind,hnone,hcap,htake]
    rfl
  · refine ⟨hw.append (hshort l List.mem_cons_self),?_,hlen,hnext',by omega,by omega,
      (List.cons.inj hlabels).2.symm,fun k hk => hshort k (List.mem_cons_of_mem l hk)⟩
    rw [hw.addrsWith_append]
    exact ht.add data

theorem Making.ref (h : Making m st cur (l :: rest) table name capacity length fuel data lastPos)
    {a : Nat} (hsome : foundAt m capacity st cur (l :: rest) = some a) :
    mdnsStringMakeLoop capacity name length fuel m data lastPos table =
      ⟨m.write data (refBytes a),some (data + 2),table⟩ := by
  obtain ⟨fuel',rfl,hlt,-,hsub,hfind⟩ := h.cons
  have hroom := h.room
  simp only [nameRoom,hlt,↓reduceIte] at hroom
  have hcap : ¬ capacity - data < 2 := by omega
  simp only [mdnsStringMakeLoop,hlt,↓reduceIte,hsub,hfind,hsome,mdnsStringMakeRef,hcap]
  rfl

theorem Making.stop (h : Making m st cur [] table name capacity length fuel data lastPos) :
    mdnsStringMakeLoop capacity name length fuel m data lastPos table =
      ⟨m.write data [0],some (data + 1),table⟩ := by
  obtain ⟨-,-,hlen,hlast,hfuel,hroom,hrest,-⟩ := h
  have hlt : ¬ lastPos < length := by
    intro hlt
    refine labels_ne_nil ?_ hrest
    exact List.ne_nil_of_length_pos (by rw [List.length_drop,List.length_take]; omega)
  obtain ⟨fuel',rfl⟩ := Nat.exists_eq_add_of_lt (show 0 < fuel by omega)
  simp only [nameRoom,hlt,↓reduceIte] at hroom
  have hcap : ¬ capacity - data = 0 := by omega
  rw [Nat.zero_add]
  simp only [mdnsStringMakeLoop,hlt,↓reduceIte,hcap]

theorem Making.spelled (h : Making m st cur rest table name capacity length fuel data lastPos)
    {cur' : List Bytes} {link : Link}
    (hspell : spell List.isEmpty 16 st.nodes cur rest = some (cur',link)) :
    ∃ table', mdnsStringMakeLoop capacity name length fuel m data lastPos table =
        (let bytes := labelsBytes (cur'.drop cur.length) ++ linkBytes (st.addrsWith cur') link
         ⟨m.write data bytes,some (data + bytes.length),table'⟩) ∧
      TableOf table' (st.addrsWith cur') := by
  induction rest generalizing m cur table fuel data lastPos with
  | nil =>
    obtain ⟨rfl,rfl⟩ := Prod.mk.inj (Option.some.inj hspell)
    rw [h.stop,List.drop_length]
    exact ⟨table,rfl,h.tableOf⟩
  | cons l rest ih =>
    have hdata : data ≤ capacity := by
      have := h.room
      omega
    obtain ⟨hat,habs⟩ := h.writing.foundAt_search hdata (l :: rest)
    unfold spell at hspell
    cases hs : search List.isEmpty 16 st.nodes cur (l :: rest) with
    | «at» k =>
      rw [hs] at hspell
      obtain ⟨rfl,rfl⟩ := Prod.mk.inj (Option.some.inj hspell)
      rw [h.ref (hat k hs),List.drop_length]
      exact ⟨table,rfl,h.tableOf⟩
    | absent =>
      rw [hs] at hspell
      obtain ⟨fuel',lastPos',hloop,hnext⟩ := h.label (habs hs)
      obtain ⟨table',hrest,htable'⟩ := ih hnext hspell
      refine ⟨table',?_,htable'⟩
      obtain ⟨new,rfl⟩ := (spell_bounds hspell).1
      have hdrop : (cur ++ [l] ++ new).drop cur.length = l :: new := by simp
      have hdrop' : (cur ++ [l] ++ new).drop (cur ++ [l]).length = new := by simp
      have hbytes : labelsBytes (l :: new) = labelBytes l ++ labelsBytes new := by
        simp [labelsBytes]
      rw [hloop,hrest,hdrop,hdrop']
      simp only [hbytes,List.append_assoc,Mem.write_append _ _ (labelBytes l),
        length_labelBytes,List.length_append]
      congr 2
      omega
    | beyond =>
      rw [hs] at hspell
      contradiction

end Making

/-- The spelling of a name after those of the message so far; `none` where a search
reads past what has been written of the name. -/
def NameState.spelling (st : NameState) (name : Bytes) : Option (List Bytes × Link) :=
  spell List.isEmpty 16 st.nodes [] (nameLabels name)

structure Written (w : MdnsWriter) (st : NameState) : Prop where
  data : w.data = some st.pos
  laid : Laid w.buffer st
  table : TableOf w.table st.addrs

theorem NameState.addrsWith_nil (st : NameState) : st.addrsWith [] = st.addrs := by
  simp [addrsWith,labelAddrs]

theorem length_nameText_le (name : Bytes) :
    (if name.getLast? = some dot then name.dropLast else name).length ≤ name.length := by
  split
  · simp
  · exact Nat.le_refl _

theorem short_of_mem_nameLabels {name l : Bytes} (hname : name.length < 192)
    (hl : l ∈ nameLabels name) : l.length < 192 := by
  have hle := length_le_of_mem_labels hl
  have htext := length_nameText_le name
  omega

theorem mdnsStringMake_eq (buffer : Mem) (capacity data : Nat) (name : Bytes)
    (table : MdnsStringTable) : ∃ length, length ≤ name.length ∧
      name.take length = (if name.getLast? = some dot then name.dropLast else name) ∧
      mdnsStringMake buffer capacity data name table =
        mdnsStringMakeLoop capacity name length (length + 1) buffer data 0 table := by
  unfold mdnsStringMake
  split
  · exact ⟨name.length - 1,by omega,List.dropLast_eq_take.symm,rfl⟩
  · exact ⟨name.length,Nat.le_refl _,List.take_length,rfl⟩

theorem Laid.spelling {m : Mem} {st : NameState} (h : Laid m st) {name : Bytes}
    {cur : List Bytes} {link : Link} (hname : name.length < 192)
    (hspell : st.spelling name = some (cur,link))
    (hread : m.read st.pos (st.nameBytes cur link).length = st.nameBytes cur link)
    (hpos : (st.add cur link).pos ≤ 0x4000) : Laid m (st.add cur link) := by
  obtain ⟨-,hcur,hlink⟩ := spell_bounds hspell
  exact h.add (fun l hl => short_of_mem_nameLabels hname (hcur.subset hl)) hlink hread hpos

theorem Laid.making {buffer : Mem} {st : NameState} (h : Laid buffer st) {table : MdnsStringTable}
    (ht : TableOf table st.addrs) {capacity : Nat} {name : Bytes}
    (hroom : st.pos + (name.length + 2) ≤ capacity) (hname : name.length < 192) :
    ∃ length fuel, Making buffer st [] (nameLabels name) table name capacity length fuel st.pos 0 ∧
      mdnsStringMake buffer capacity st.pos name table =
        mdnsStringMakeLoop capacity name length fuel buffer st.pos 0 table := by
  obtain ⟨length,hlen,htext,hmake⟩ := mdnsStringMake_eq buffer capacity st.pos name table
  have hopen : Writing buffer st [] st.pos :=
    ⟨h,⟨by simp,by simp [labelsBytes],by simp [labelsBytes]⟩,by simp [labelsBytes]⟩
  have hr : nameRoom length 0 ≤ name.length + 2 := by
    unfold nameRoom
    split <;> omega
  refine ⟨length,length + 1,⟨hopen,by rwa [st.addrsWith_nil],hlen,Nat.zero_le _,by omega,by omega,
    ?_,fun l hl => short_of_mem_nameLabels hname hl⟩,hmake⟩
  rw [List.drop_zero,htext,nameLabels]

/-- A name is written as it is spelled. -/
theorem Laid.make {buffer : Mem} {st : NameState} (h : Laid buffer st) {table : MdnsStringTable}
    (ht : TableOf table st.addrs) {capacity : Nat} (hcap : capacity ≤ 0x3FFF) {name : Bytes}
    (hroom : st.pos + (name.length + 2) ≤ capacity) (hname : name.length < 192)
    {cur : List Bytes} {link : Link} (hspell : st.spelling name = some (cur,link)) :
    let w := mdnsStringMake buffer capacity st.pos name table
    Written w (st.add cur link) ∧ w.buffer = buffer.write st.pos (st.nameBytes cur link) := by
  obtain ⟨d,hd,-,hle,-⟩ : Extends buffer st.pos (name.length + 2)
    (mdnsStringMake buffer capacity st.pos name table) := mdnsStringMake_extends hroom
  obtain ⟨length,fuel,hmaking,hmake⟩ := h.making ht hroom hname
  obtain ⟨table',hloop,htable'⟩ := hmaking.spelled hspell
  simp only [List.length_nil,List.drop_zero] at hloop
  rw [hmake,hloop] at hd ⊢
  have hend : (st.add cur link).pos = d := Option.some.inj hd
  have hread := buffer.read_write st.pos (st.nameBytes cur link)
  have hlaid : Laid (buffer.write st.pos (st.nameBytes cur link)) st :=
    h.congr (agreeBelow_write (Nat.le_refl _))
  exact ⟨⟨rfl,hlaid.spelling hname hspell hread (by omega),htable'⟩,rfl⟩

end WlrRemote
