import WlrRemote.NameWriting

set_option autoImplicit false

namespace WlrRemote
open Octets SuffixTable

section Loop

variable {capacity : Nat} {name : Bytes} {length lastPos : Nat}

theorem mdnsStringMakeLoop_label (capacity : Nat) (hlen : length ≤ name.length)
    (hlt : lastPos < length) :
    ∃ l lastPos', labels ((name.take length).drop lastPos) =
        l :: labels ((name.take length).drop lastPos') ∧
      l.length = firstLength ((name.take length).drop lastPos) ∧
      ∀ fuel buffer data table,
        mdnsStringMakeLoop capacity name length (fuel + 1) buffer data lastPos table =
          match mdnsStringTableFind table buffer capacity (name.drop lastPos) l.length
              (length - lastPos) with
          | some refOffset => mdnsStringMakeRef buffer capacity data refOffset table
          | none =>
            if capacity - data ≤ l.length + 1 then ⟨buffer,none,table⟩
            else mdnsStringMakeLoop capacity name length fuel (buffer.write data (labelBytes l))
              (data + (labelBytes l).length) lastPos' (mdnsStringTableAdd table data) := by
  have hne : (name.take length).drop lastPos ≠ [] :=
    List.ne_nil_of_length_pos (by rw [List.length_drop,List.length_take]; omega)
  have hfirst := firstLength_le ((name.take length).drop lastPos)
  have hrest := hfirst
  rw [List.length_drop,List.length_take] at hrest
  have hsub : (mdnsStringFind name length dot lastPos).getD length - lastPos =
      firstLength ((name.take length).drop lastPos) := by
    have hpos := mdnsStringFind_eq hlt hlen
    omega
  refine ⟨((name.take length).drop lastPos).take (firstLength ((name.take length).drop lastPos)),
    ((mdnsStringFind name length dot lastPos).map (· + 1)).getD length,?_,?_,?_⟩
  · rw [labels_eq hne,next_text hlt hlen]
  · rw [List.length_take,Nat.min_eq_left hfirst]
  · intro fuel buffer data table
    rw [List.length_take,Nat.min_eq_left hfirst,← hsub,take_of_take (by omega)]
    have hlabel : labelBytes ((name.drop lastPos).take
        ((mdnsStringFind name length dot lastPos).getD length - lastPos)) =
        UInt8.ofNat ((mdnsStringFind name length dot lastPos).getD length - lastPos) ::
          (name.drop lastPos).take
            ((mdnsStringFind name length dot lastPos).getD length - lastPos) := by
      rw [labelBytes,List.length_take,List.length_drop,Nat.min_eq_left (by omega)]
    rw [hlabel,List.length_cons,List.length_take,List.length_drop,Nat.min_eq_left (by omega)]
    exact if_pos hlt

theorem mdnsStringTableFind_reads (hlen : length ≤ name.length) (hlt : lastPos < length)
    {table : MdnsStringTable} {buffer : Mem} {refOffset : Nat}
    (h : mdnsStringTableFind table buffer capacity (name.drop lastPos)
      (firstLength ((name.take length).drop lastPos)) (length - lastPos) = some refOffset) :
    readsOn buffer capacity refOffset (labels ((name.take length).drop lastPos)) = true := by
  obtain ⟨i,-,htry⟩ := List.exists_of_findSome?_eq_some h
  have htext : (name.drop lastPos).take (length - lastPos) = (name.take length).drop lastPos :=
    (List.drop_take).symm
  rw [← htext] at htry ⊢
  rw [mdnsStringTableTry_eq (table.offset i) (by rw [List.length_drop]; omega) (by omega)] at htry
  split at htry
  · rename_i hreads
    rw [← Option.some.inj htry]
    exact hreads
  · contradiction

end Loop

/-- What may end a name with the labels `done` from `p` on of which `rest` is left. -/
inductive NameEnd (buffer : Mem) (capacity p : Nat) (old : List Nat) (done rest : List Bytes) :
    Bytes → Prop where
  | stop (hrest : rest = []) : NameEnd buffer capacity p old done rest [0]
  | own {m : Mem} {k : Nat} (hrest : rest ≠ []) (hk : k < done.length)
      (hrecent : done.length ≤ k + 16) (hopen : OpenAt m (p + (labelsBytes done).length) p done)
      (hcap : p + (labelsBytes done).length + 2 ≤ capacity)
      (hreads : readsOn m capacity (p + (labelsBytes (done.take k)).length) rest = true) :
      NameEnd buffer capacity p old done rest
        (refBytes (p + (labelsBytes (done.take k)).length))
  | older {m : Mem} {a : Nat} (hrest : rest ≠ []) (ha : a ∈ old) (hagree : AgreeBelow p buffer m)
      (hcap : p + (labelsBytes done).length + 2 ≤ capacity)
      (hreads : readsOn m capacity a rest = true) :
      NameEnd buffer capacity p old done rest (refBytes a)

theorem NameEnd.of_agree {buffer buffer' : Mem} {capacity p : Nat} {old : List Nat}
    {done rest : List Bytes} {ending : Bytes} (h : NameEnd buffer' capacity p old done rest ending)
    (hagree : AgreeBelow p buffer buffer') : NameEnd buffer capacity p old done rest ending := by
  cases h with
  | stop hrest => exact .stop hrest
  | own hrest hk hrecent hopen hcap hreads => exact .own hrest hk hrecent hopen hcap hreads
  | older hrest ha h hcap hreads => exact .older hrest ha (hagree.trans h) hcap hreads

/-- A name that repeats nothing has no reference into itself. -/
theorem NameEnd.noRepeat {buffer : Mem} {capacity p : Nat} {old : List Nat}
    {done rest : List Bytes} {ending : Bytes} (h : NameEnd buffer capacity p old done rest ending)
    (hrepeat : NoRepeat 16 (done ++ rest)) : (rest = [] ∧ ending = [0]) ∨
      ∃ a ∈ old, ∃ m, rest ≠ [] ∧ ending = refBytes a ∧ AgreeBelow p buffer m ∧
        p + (labelsBytes done).length + 2 ≤ capacity ∧ readsOn m capacity a rest = true := by
  cases h with
  | stop hrest => exact Or.inl ⟨hrest,rfl⟩
  | @own m k hrest hk hrecent hopen hcap hreads =>
    have hpos := List.length_pos_iff.mpr hrest
    obtain ⟨hahead,hback⟩ := hrepeat done.length (by rw [List.length_append]; omega) k hk hrecent
    rw [List.take_left,List.drop_left] at hahead hback
    rw [← List.take_append_drop k done,OpenAt.append_iff,List.take_append_drop] at hopen
    rw [hopen.2.readsOn (by omega),followsOpen_of_apart hahead hback] at hreads
    contradiction
  | @older m a hrest ha hagree hcap hreads =>
    exact Or.inr ⟨a,ha,m,hrest,rfl,hagree,hcap,hreads⟩

theorem mdnsStringMakeLoop_spelled {capacity p : Nat} {name : Bytes}
    {length fuel lastPos data : Nat} {buffer : Mem} {table : MdnsStringTable} {old : List Nat}
    {cur : List Bytes} (hlen : length ≤ name.length) (hopen : OpenAt buffer data p cur)
    (hdata : data = p + (labelsBytes cur).length)
    (htable : TableOf table (old ++ labelAddrs p cur))
    (hshort : ∀ l ∈ labels ((name.take length).drop lastPos), l.length < 192)
    (h : (mdnsStringMakeLoop capacity name length fuel buffer data lastPos table).data ≠ none) :
    ∃ table' new rest ending,
      mdnsStringMakeLoop capacity name length fuel buffer data lastPos table =
        ⟨buffer.write data (labelsBytes new ++ ending),
          some (data + (labelsBytes new ++ ending).length),table'⟩ ∧
      labels ((name.take length).drop lastPos) = new ++ rest ∧
      NameEnd buffer capacity p old (cur ++ new) rest ending := by
  induction fuel generalizing buffer data lastPos table cur with
  | zero => exact absurd rfl h
  | succ fuel ih =>
    by_cases hlt : lastPos < length
    · obtain ⟨l,lastPos',hlabels,hfirst,hloop⟩ :=
        mdnsStringMakeLoop_label capacity hlen hlt
      rw [hloop] at h ⊢
      cases hfind : mdnsStringTableFind table buffer capacity (name.drop lastPos) l.length
          (length - lastPos) with
      | some refOffset =>
        simp only [hfind,mdnsStringMakeRef] at h ⊢
        split at h
        · contradiction
        · rename_i hcap
          rw [if_neg hcap]
          have hreads := mdnsStringTableFind_reads hlen hlt (hfirst ▸ hfind)
          have hne : labels ((name.take length).drop lastPos) ≠ [] := by
            rw [hlabels]
            exact List.cons_ne_nil _ _
          have htext : (name.drop lastPos).take (length - lastPos) =
              (name.take length).drop lastPos := (List.drop_take).symm
          rw [hfirst,← htext,mdnsStringTableFind_eq htable
            (by rw [List.length_drop]; omega) (by omega)] at hfind
          obtain ⟨i,hi,hat⟩ := List.exists_of_findSome?_eq_some hfind
          obtain ⟨hlti,hrecent⟩ := mem_recent.mp hi
          rw [List.length_append,length_labelAddrs] at hlti hrecent
          split at hat
          · refine ⟨table,[],_,refBytes refOffset,rfl,rfl,?_⟩
            rw [List.append_nil]
            by_cases hold : i < old.length
            · -- a label of an older name
              have haddr : (old ++ labelAddrs p cur).getD i 0 = old[i] := by
                rw [List.getD_eq_getElem?_getD,List.getElem?_append_left hold,
                  List.getElem?_eq_getElem hold]
                rfl
              obtain rfl := haddr.symm.trans (Option.some.inj hat)
              refine .older hne (List.getElem_mem hold) (.refl _ _) (by omega) hreads
            · -- a label of the name itself
              have hk : i - old.length < cur.length := by omega
              have haddr : (old ++ labelAddrs p cur).getD i 0 =
                  p + (labelsBytes (cur.take (i - old.length))).length := by
                rw [List.getD_eq_getElem?_getD,List.getElem?_append_right (by omega),
                  labelAddrs_getElem? hk]
                rfl
              obtain rfl := haddr.symm.trans (Option.some.inj hat)
              rw [hdata] at hopen
              exact .own hne hk (by omega) hopen (by omega) hreads
          · contradiction
      | none =>
        simp only [hfind] at h ⊢
        split at h
        · contradiction
        · rename_i hcap
          rw [if_neg hcap]
          have hll := hshort l (by rw [hlabels]; exact List.mem_cons_self)
          have hone : labelsBytes [l] = labelBytes l := by simp [labelsBytes]
          have hopen' : OpenAt (buffer.write data (labelBytes l)) (data + (labelBytes l).length) p
              (cur ++ [l]) := by
            obtain ⟨hs,hw,hr⟩ := hopen
            refine OpenAt.append_iff.mpr ⟨⟨hs,by omega,?_⟩,by simpa using hll,?_,?_⟩
            · rw [Mem.read_write_below hw,hr]
            · rw [hone,← hdata]
            · rw [hone,← hdata]
              exact Mem.read_write _ _ _
          have hdata' : data + (labelBytes l).length = p + (labelsBytes (cur ++ [l])).length := by
            rw [labelsBytes_append,List.length_append,hone,hdata,Nat.add_assoc]
          have htable' : TableOf (mdnsStringTableAdd table data)
              (old ++ labelAddrs p (cur ++ [l])) := by
            rw [labelAddrs_append,← hdata,← List.append_assoc]
            exact htable.add data
          obtain ⟨table',new,rest,ending,hrest,hnew,hend⟩ := ih hopen' hdata' htable'
            (fun k hk => hshort k (by rw [hlabels]; exact List.mem_cons_of_mem l hk)) h
          have hbytes : labelsBytes (l :: new) ++ ending =
              labelBytes l ++ (labelsBytes new ++ ending) := by simp [labelsBytes]
          refine ⟨table',l :: new,rest,ending,?_,by rw [hlabels,hnew]; rfl,?_⟩
          · rw [hrest,hbytes,Mem.write_append _ _ (labelBytes l),
              @List.length_append _ (labelBytes l),Nat.add_assoc]
          · rw [List.append_assoc,List.singleton_append] at hend
            exact hend.of_agree (agreeBelow_write (by omega))
    · unfold mdnsStringMakeLoop at h ⊢
      simp only [hlt,↓reduceIte] at h ⊢
      split at h
      · contradiction
      · rename_i hcap
        rw [if_neg hcap,List.drop_eq_nil_of_le (by rw [List.length_take]; omega)]
        exact ⟨table,[],[],[0],rfl,rfl,.stop rfl⟩

theorem mdnsStringMake_spelled {buffer : Mem} {capacity p : Nat} {name : Bytes}
    {table : MdnsStringTable} {old : List Nat} (htable : TableOf table old)
    (hname : name.length < 192) (h : (mdnsStringMake buffer capacity p name table).data ≠ none) :
    ∃ table' written rest ending, mdnsStringMake buffer capacity p name table =
        ⟨buffer.write p (labelsBytes written ++ ending),
          some (p + (labelsBytes written ++ ending).length),table'⟩ ∧
      nameLabels name = written ++ rest ∧ NameEnd buffer capacity p old written rest ending := by
  obtain ⟨length,hlen,htext,hmake⟩ := mdnsStringMake_eq buffer capacity p name table
  have hlabels : labels ((name.take length).drop 0) = nameLabels name := by
    rw [List.drop_zero,htext,nameLabels]
  have hopen : OpenAt buffer p p [] := ⟨by simp,by simp [labelsBytes],by simp [labelsBytes]⟩
  rw [hmake] at h ⊢
  obtain ⟨table',written,rest,ending,hloop,hsplit,hend⟩ := mdnsStringMakeLoop_spelled hlen hopen
    (by simp [labelsBytes]) (by simpa [labelAddrs] using htable)
    (by rw [hlabels]; exact fun l hl => short_of_mem_nameLabels hname hl) h
  exact ⟨table',written,rest,ending,hloop,hlabels.symm.trans hsplit,hend⟩

end WlrRemote
