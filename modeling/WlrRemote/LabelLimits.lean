import WlrRemote.NameEnds
import WlrRemote.SelfReference
import WlrRemote.ServiceNames

set_option autoImplicit false

namespace WlrRemote
open Octets SuffixTable

def LegalLabel (l : Bytes) : Prop := 1 ≤ l.length ∧ l.length ≤ 63

structure SpelledAt (w : MdnsWriter) (data : Nat) (written : List Bytes) (ending : Bytes) :
    Prop where
  ends : ending = [0] ∨ ∃ ref, ending = refBytes ref
  stop : w.data = some (data + (labelsBytes written ++ ending).length)
  read : w.buffer.read data (labelsBytes written ++ ending).length = labelsBytes written ++ ending

/-- References or not, a reader of the message finds these labels from `data` on and no others,
and the end of the name where the writer stopped. -/
def ReadsAs (w : MdnsWriter) (data : Nat) (ls : List Bytes) : Prop :=
  ∃ stop, w.data = some stop ∧ labelsAt w.buffer stop data = some (ls,stop)

/-- Whatever was written before, the labels that are written are legal and the first of `ls`. After
names that have the label `local` at their end only, which those of a service are, all of `ls` is
what the name says. -/
structure WritesLabels (name : Bytes) (ls : List Bytes) : Prop where
  legal : ∀ (buffer : Mem) (capacity data : Nat) (table : MdnsStringTable) (addrs : List Nat),
    TableOf table addrs → (mdnsStringMake buffer capacity data name table).data ≠ none →
      ∃ written ending, SpelledAt (mdnsStringMake buffer capacity data name table) data written
        ending ∧ written <+: ls ∧ ∀ l ∈ written, LegalLabel l
  whole : ∀ (buffer : Mem) (st : NameState) (capacity : Nat) (table : MdnsStringTable),
    Laid buffer st → Clean List.isEmpty localLabel st.nodes → TableOf table st.addrs →
      capacity ≤ 0x4000 → (mdnsStringMake buffer capacity st.pos name table).data ≠ none →
        ReadsAs (mdnsStringMake buffer capacity st.pos name table) st.pos ls

structure LegalNames (hostname : HostName) : Prop where
  instanceLength : (createServiceStrings hostname).serviceInstance.length =
    (hostname.bytes ++ dot :: SERVICE_NAME).length
  qualifiedLength : (createServiceStrings hostname).qualifiedHostname.length =
    (hostname.bytes ++ qualifiedSuffix).length
  instanceLabels : WritesLabels (createServiceStrings hostname).serviceInstance
    (hostname.bytes :: nameLabels SERVICE_NAME)
  qualifiedLabels : ∃ ls, WritesLabels (createServiceStrings hostname).qualifiedHostname ls

/-- The hostname fits into one label, and is not the label that the names go on with or end in. -/
structure OneLabel (hostname : HostName) : Prop where
  legal : LegalLabel hostname.bytes
  noDot : dot ∉ hostname.bytes
  notService : hostname.bytes ≠ ascii "_wlr-remote"
  notLocal : hostname.bytes ≠ localLabel

theorem mdnsStringMake_spelledAt {buffer : Mem} {capacity data : Nat} {name : Bytes}
    {table : MdnsStringTable} {addrs : List Nat} (htable : TableOf table addrs)
    (hname : name.length < 192)
    (h : (mdnsStringMake buffer capacity data name table).data ≠ none) :
    ∃ written rest ending, nameLabels name = written ++ rest ∧
      NameEnd buffer capacity data addrs written rest ending ∧
      (mdnsStringMake buffer capacity data name table).buffer =
        buffer.write data (labelsBytes written ++ ending) ∧
      SpelledAt (mdnsStringMake buffer capacity data name table) data written ending := by
  obtain ⟨table',written,rest,ending,hmake,hsplit,hend⟩ := mdnsStringMake_spelled htable hname h
  rw [hmake]
  refine ⟨written,rest,ending,hsplit,hend,rfl,?_,rfl,Mem.read_write _ _ _⟩
  cases hend with
  | stop => exact Or.inl rfl
  | own => exact Or.inr ⟨_,rfl⟩
  | older => exact Or.inr ⟨_,rfl⟩

theorem Laid.reads_all {m : Mem} {st : NameState} (h : Laid m st)
    (hclean : Clean List.isEmpty localLabel st.nodes) {k a capacity : Nat}
    (ha : st.addrs[k]? = some a) (hcap : st.pos ≤ capacity) {rest : List Bytes}
    (hlast : rest.getLast? = some localLabel) (hreads : readsOn m capacity a rest = true) :
    Spells List.isEmpty st.nodes (.node k) rest := by
  have hk : k < st.nodes.length := by
    rw [← h.length]
    exact (List.getElem?_eq_some_iff.mp ha).1
  obtain ⟨L,hL,honly⟩ := hclean k hk
  have hlink : LinkAt m st.pos st.addrs a (.node k) := ⟨a,ha,Or.inl rfl⟩
  rw [h.readsOn_link hcap hlink,follows_iff hL] at hreads
  rwa [honly.prefix_eq hlast hreads]

theorem writesLabels_of_legal {name : Bytes} (hname : name.length < 192)
    (hcount : (nameLabels name).length ≤ mdnsMaxSubstrings)
    (hlast : (nameLabels name).getLast? = some localLabel)
    (hrepeat : NoRepeat 16 (nameLabels name)) (h : ∀ l ∈ nameLabels name, LegalLabel l) :
    WritesLabels name (nameLabels name) where
  legal := by
    intro buffer capacity data table addrs htable hdata
    obtain ⟨written,rest,ending,hsplit,-,-,hat⟩ := mdnsStringMake_spelledAt htable hname hdata
    rw [hsplit] at h ⊢
    exact ⟨written,ending,hat,List.prefix_append _ _,
      fun l hl => h l (List.mem_append_left rest hl)⟩
  whole := by
    intro buffer st capacity table hlaid hclean htable hcap hdata
    obtain ⟨written,rest,ending,hsplit,hend,hbuffer,hat⟩ :=
      mdnsStringMake_spelledAt htable hname hdata
    generalize mdnsStringMake buffer capacity st.pos name table = w at hbuffer hat
    have hagree : AgreeBelow st.pos buffer w.buffer := by
      rw [hbuffer]
      exact agreeBelow_write (Nat.le_refl _)
    rw [hsplit] at hcount hlast hrepeat h ⊢
    rw [List.length_append] at hcount
    have hne : ∀ l ∈ written, l ≠ [] := fun l hl =>
      List.ne_nil_of_length_pos (h l (List.mem_append_left rest hl)).1
    obtain ⟨-,hstop,hread⟩ := hat
    rw [List.length_append] at hstop hread
    rw [Mem.read_add] at hread
    obtain ⟨hlabels,hending⟩ := List.append_inj hread (by simp)
    refine ⟨_,hstop,?_⟩
    have hopen : OpenAt w.buffer (st.pos + (labelsBytes written).length) st.pos written := by
      refine ⟨fun l hl => ?_,Nat.le_refl _,hlabels⟩
      have := (h l (List.mem_append_left rest hl)).2
      omega
    obtain ⟨budget,hbudget⟩ := Nat.exists_eq_add_of_le hcount
    rw [labelsAt,hbudget,show written.length + rest.length + budget + 1 =
      written.length + (rest.length + budget + 1) by omega,hopen.labelsLoop (by omega) hne]
    rcases hend.noRepeat hrepeat with ⟨rfl,rfl⟩ | ⟨a,ha,m,hrest,rfl,hm,hroom,hreads⟩
    · -- the name is written in full
      have hzero : w.buffer (st.pos + (labelsBytes written).length) = 0 := by
        rw [List.length_singleton,Mem.read_succ] at hending
        exact (List.cons.inj hending).1
      have hin : st.pos + (labelsBytes written).length <
          st.pos + ((labelsBytes written).length + ([0] : Bytes).length) := by
        rw [List.length_singleton]
        omega
      rw [labelsLoop_stop hin hzero]
      rfl
    · -- it goes on in an older one
      obtain ⟨k,hk⟩ := List.mem_iff_getElem?.mp ha
      rw [List.getLast?_append_of_ne_nil _ hrest] at hlast
      have hspells := (hlaid.congr hm).reads_all hclean hk (by omega) hlast hreads
      have hlaid' : Laid w.buffer (st.skip ((labelsBytes written).length + 2)) :=
        (hlaid.congr hagree).skip (by omega)
      have hpos : (st.skip ((labelsBytes written).length + 2)).pos =
          st.pos + ((labelsBytes written).length + 2) := rfl
      rw [length_refBytes] at hending ⊢
      rw [hlaid'.labelsLoop_ref (by omega) hspells hk (by omega) hending (by omega)]
      rfl

theorem refBytes_first (ref : Nat) : ∃ b rest, refBytes ref = b :: rest ∧ 192 ≤ b.toNat := by
  refine ⟨_,_,rfl,?_⟩
  have hor : 0xC000 ≤ (0xC000 ||| UInt16.ofNat ref).toNat := by
    rw [UInt16.toNat_or]
    exact Nat.left_le_or
  have hlt := (0xC000 ||| UInt16.ofNat ref).toNat_lt
  rw [UInt8.toNat_ofNat',Nat.mod_eq_of_lt (by omega)]
  omega

theorem SpelledAt.ending_pos {w : MdnsWriter} {data : Nat} {written : List Bytes} {ending : Bytes}
    (h : SpelledAt w data written ending) : 0 < ending.length := by
  rcases h.ends with rfl | ⟨ref,rfl⟩ <;> simp

theorem SpelledAt.head_eq {w : MdnsWriter} {data : Nat} {l ending ending' : Bytes}
    {written written' : List Bytes} (h : SpelledAt w data (l :: written) ending)
    (hl : l.length < 192) (h' : SpelledAt w data written' ending')
    (hlegal : ∀ k ∈ written', LegalLabel k) : written'.head? = some l := by
  have hstop := h.stop.symm.trans h'.stop
  have hlength := Nat.add_left_cancel (Option.some.inj hstop)
  have hread := h.read.symm
  rw [hlength,h'.read] at hread
  have hbytes : labelsBytes (l :: written) ++ ending =
      UInt8.ofNat l.length :: (l ++ (labelsBytes written ++ ending)) := by
    simp [labelsBytes,labelBytes]
  rw [hbytes] at hread hlength
  cases written' with
  | nil =>
    rcases h'.ends with hend | ⟨ref,hend⟩
    · have hpos := h.ending_pos
      simp only [hend,labelsBytes,List.flatMap_nil,List.nil_append,List.length_cons,
        List.length_append,List.length_nil] at hlength
      omega
    · obtain ⟨b,rest,href,hb⟩ := refBytes_first ref
      rw [hend,href] at hread
      have hfirst := (List.cons.inj hread).1
      rw [← hfirst,UInt8.toNat_ofNat'] at hb
      omega
  | cons k ks =>
    have hk := hlegal k List.mem_cons_self
    have hcons : labelsBytes (k :: ks) ++ ending' =
        UInt8.ofNat k.length :: (k ++ (labelsBytes ks ++ ending')) := by
      simp [labelsBytes,labelBytes]
    rw [hcons] at hread
    obtain ⟨hfirst,hrest⟩ := List.cons.inj hread
    have hkl : k.length = l.length := by
      have hnat := congrArg UInt8.toNat hfirst
      unfold LegalLabel at hk
      rw [UInt8.toNat_ofNat',UInt8.toNat_ofNat'] at hnat
      omega
    rw [List.head?_cons,(List.append_inj hrest hkl.symm).1]

theorem head_labels (h t : Bytes) :
    ∃ l ls, labels (h ++ dot :: t) = l :: ls ∧ dot ∉ l ∧ l.length ≤ h.length := by
  induction h with
  | nil => exact ⟨[],labels t,by simp [labels],by simp,Nat.le_refl _⟩
  | cons c cs ih =>
    by_cases hc : c = dot
    · exact ⟨[],_,by rw [List.cons_append,labels,if_pos hc],by simp,by simp⟩
    · obtain ⟨l,ls,heq,hd,hle⟩ := ih
      refine ⟨c :: l,ls,?_,?_,by simpa using hle⟩
      · rw [List.cons_append,labels,if_neg hc,heq]
      · simp [hd,Ne.symm hc]

theorem nameLabels_service (h : Bytes) :
    nameLabels (h ++ dot :: SERVICE_NAME) = labels (h ++ dot :: SERVICE_NAME.dropLast) := by
  have hlast : (h ++ dot :: SERVICE_NAME).getLast? = some dot := by
    rw [List.getLast?_append_cons]
    decide
  rw [nameLabels,if_pos hlast,List.dropLast_append_of_ne_nil (by simp)]
  rfl

section Names

variable {hostname : HostName}

theorem LegalNames.firstLabel (h : LegalNames hostname) :
    LegalLabel hostname.bytes ∧ dot ∉ hostname.bytes := by
  have hlegal := h.instanceLabels.legal
  have hlen := hostname.length_le
  unfold hostNameMax at hlen
  rw [createServiceStrings_eq] at hlegal
  have hservice := length_SERVICE_NAME
  have hname : (hostname.bytes ++ dot :: SERVICE_NAME).length ≤ 192 - 64 := by
    rw [List.length_append,List.length_cons]
    omega
  obtain ⟨d,hd,-⟩ : Extends (fun _ => 0) 12 _ (mdnsStringMake (fun _ => 0) 2048 12
    (hostname.bytes ++ dot :: SERVICE_NAME) .empty) := mdnsStringMake_extends (by omega)
  have hdata : (mdnsStringMake (fun _ => 0) 2048 12 (hostname.bytes ++ dot :: SERVICE_NAME)
      .empty).data ≠ none := by simp [hd]
  obtain ⟨written',ending',hat',hstarts,hlegal⟩ := hlegal _ _ _ _ _ TableOf.empty hdata
  obtain ⟨written,rest,ending,hsplit,hend,-,hat⟩ :=
    mdnsStringMake_spelledAt TableOf.empty (by omega) hdata
  obtain ⟨l,ls,hlabels,hdot,hle⟩ := head_labels hostname.bytes SERVICE_NAME.dropLast
  rw [nameLabels_service,hlabels] at hsplit
  cases written with
  | nil =>
    cases hend with
    | stop hrest => simp [hrest] at hsplit
    | own _ hk => contradiction
    | older _ ha => contradiction
  | cons k ks =>
    obtain rfl := (List.cons.inj hsplit).1
    have hhead := hat.head_eq (by omega) hat' hlegal
    cases written' with
    | nil => contradiction
    | cons k' ks' =>
      obtain rfl := Option.some.inj hhead
      obtain ⟨rfl,-⟩ := List.cons_prefix_cons.mp hstarts
      exact ⟨hlegal _ List.mem_cons_self,hdot⟩

theorem hostLabels_of_noDot (hdot : dot ∉ hostname.bytes) :
    hostLabels hostname = [hostname.bytes] := by
  rw [hostLabels,labels_dot hdot]
  rfl

theorem wellFormed_of_oneLabel (hlegal : LegalLabel hostname.bytes) (hdot : dot ∉ hostname.bytes) :
    hostname.WellFormed := by
  rw [HostName.WellFormed,hostLabels_of_noDot hdot,List.forall_mem_singleton]
  exact ⟨List.ne_nil_of_length_pos hlegal.1,hlegal.2⟩

/-- A name that repeats labels comes to refer to itself, and then says nothing. -/
theorem WritesLabels.noRepeat {name : Bytes} {ls : List Bytes} (h : WritesLabels name ls)
    (hname : Readable name) : NoRepeat 16 (nameLabels name) := by
  by_contra hrepeat
  have hlen := hname.length_le
  obtain ⟨buffer,hbuffer⟩ := make_selfRef hname hrepeat (by omega : 12 + (name.length + 2) ≤ 2048)
  obtain ⟨stop,hstop,hself⟩ := hbuffer (List.replicate 12 0) rfl
  obtain ⟨stop',hstop',hlabels⟩ := h.whole (buffer.write 0 (List.replicate 12 0)) .start 2048 .empty
    (Laid.start _) (by simp [Clean,NameState.start]) TableOf.empty (by omega)
    (fun hnone => Option.some_ne_none stop (hstop.symm.trans hnone))
  obtain rfl := Option.some.inj (hstop.symm.trans hstop')
  obtain ⟨d,hd,-,hle,-⟩ : Extends (buffer.write 0 (List.replicate 12 0)) 12 (name.length + 2)
    (mdnsStringMake (buffer.write 0 (List.replicate 12 0)) 2048 12 name .empty) :=
      mdnsStringMake_extends (by omega)
  obtain rfl := Option.some.inj (hstop.symm.trans hd)
  rw [show NameState.start.pos = 12 from rfl,hself.labelsAt (by omega) (Nat.le_refl _)] at hlabels
  contradiction

theorem LegalNames.oneLabel (h : LegalNames hostname) : OneLabel hostname := by
  obtain ⟨hlegal,hdot⟩ := h.firstLabel
  have hinstance := h.instanceLabels
  rw [createServiceStrings_eq] at hinstance
  obtain ⟨hlabels,hlocal⟩ := (wellFormed_of_oneLabel hlegal hdot).instance_labels
  have hrepeat := hinstance.noRepeat hlocal.readable
  rw [hlabels,hostLabels_of_noDot hdot] at hrepeat
  refine ⟨hlegal,hdot,fun heq => ?_,fun heq => ?_⟩
  · rw [heq] at hrepeat
    exact absurd hrepeat (by decide)
  · rw [heq] at hrepeat
    exact absurd hrepeat (by decide)

theorem OneLabel.noRepeat (h : OneLabel hostname) :
    NoRepeat 16 (hostname.bytes :: serviceLabels) ∧ NoRepeat 16 [hostname.bytes,localLabel] := by
  constructor
  · by_cases hudp : hostname.bytes = ascii "_udp"
    · rw [hudp]
      decide
    · have hlabels : hostname.bytes ∉ serviceLabels := by
        simp [serviceLabels,hudp,h.notService,h.notLocal]
      exact NoRepeat.cons (by decide) hlabels
  · exact NoRepeat.cons (by decide) (by simpa using h.notLocal)

/-- The names are legal exactly if the hostname fits into one label, has no dot and is neither
`_wlr-remote` nor `local`. -/
theorem legal_names_iff (hostname : HostName) : LegalNames hostname ↔ OneLabel hostname := by
  constructor
  · exact LegalNames.oneLabel
  · intro h
    obtain ⟨hinstance,hqualified⟩ := h.noRepeat
    have hw := wellFormed_of_oneLabel h.legal h.noDot
    have hhost := hostLabels_of_noDot h.noDot
    have hlocal : ∀ l ∈ serviceLabels, LegalLabel l := by
      unfold LegalLabel
      decide
    constructor
    · rw [createServiceStrings_eq]
    · rw [createServiceStrings_eq]
    · rw [createServiceStrings_eq]
      obtain ⟨hlabels,hname⟩ := hw.instance_labels
      have hlength := hname.readable.length_le
      rw [hhost,List.singleton_append] at hlabels
      have hservice : nameLabels SERVICE_NAME = serviceLabels := by decide
      rw [hservice,← hlabels]
      rw [← hlabels] at hinstance
      have hshort : (hostname.bytes ++ dot :: SERVICE_NAME).length < 192 := by omega
      refine writesLabels_of_legal hshort ?_ hname.last hinstance ?_
      · rw [hlabels]
        exact Nat.le_of_ble_eq_true rfl
      · rw [hlabels]
        exact List.forall_mem_cons.mpr ⟨h.legal,hlocal⟩
    · rw [createServiceStrings_eq]
      obtain ⟨hlabels,hname⟩ := hw.qualified_labels
      have hlength := hname.readable.length_le
      rw [hhost,List.singleton_append] at hlabels
      rw [← hlabels] at hqualified
      have hshort : (hostname.bytes ++ qualifiedSuffix).length < 192 := by omega
      refine ⟨_,writesLabels_of_legal hshort ?_ hname.last hqualified ?_⟩
      · rw [hlabels]
        exact Nat.le_of_ble_eq_true rfl
      · rw [hlabels]
        exact List.forall_mem_cons.mpr ⟨h.legal,fun l hl => hlocal l (by
          rw [List.mem_singleton.mp hl]
          decide)⟩

theorem long_host_not_legal :
    ¬ LegalNames ⟨List.replicate 64 104,by decide,by decide⟩ ∧
      ¬ LegalNames ⟨ascii "a.b",by decide,by decide⟩ ∧
      ¬ LegalNames ⟨ascii "local",by decide,by decide⟩ := by
  refine ⟨fun h => ?_,fun h => ?_,fun h => ?_⟩
  · exact absurd h.oneLabel.legal.2 (by decide)
  · exact absurd h.oneLabel.noDot (by decide)
  · exact absurd rfl h.oneLabel.notLocal

end Names

end WlrRemote
