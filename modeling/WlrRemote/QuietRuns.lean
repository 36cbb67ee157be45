import WlrRemote.AnswersGiven
import WlrRemote.MessageText
import WlrRemote.NameEnds
import WlrRemote.NamesRead
import WlrRemote.Ownership
import WlrRemote.SelfReference
import WlrRemote.ServiceNames

set_option autoImplicit false

namespace WlrRemote
open Octets SuffixTable

/-- A name ends where a label is empty. -/
def heardLabels (name : Bytes) : List Bytes := (nameLabels name).takeWhile (· ≠ [])

def heardName (name : Bytes) : Bytes := dotted (heardLabels name)

def MetaName (name : Bytes) : Prop :=
  (heardLabels name).map (·.map asciiLower) = servicesLabels

instance (name : Bytes) : Decidable (MetaName name) := inferInstanceAs (Decidable (_ = _))

/-- The service goes by this name and has what this type asks for. -/
def Owns (service : AdvertiseService) (name : Bytes) (rtype : UInt16) : Prop :=
  (name = service.serviceName ∧ Asks rtype .ptr) ∨
    (name = service.serviceInstance ∧ Asks rtype .srv) ∨
    name = service.qualifiedHostname ∧ (Asks rtype .a ∧ service.addrs.v4.sinFamily = AF_INET ∨
      Asks rtype .aaaa ∧ service.addrs.v6.sin6Family = AF_INET6)

theorem dot_not_mem_labels {t l : Bytes} (h : l ∈ labels t) : dot ∉ l := by
  induction t generalizing l with
  | nil => simp [labels] at h
  | cons c cs ih =>
    by_cases hc : c = dot
    · rw [labels,if_pos hc] at h
      rcases List.mem_cons.mp h with rfl | h
      · simp
      · exact ih h
    · rw [labels,if_neg hc] at h
      cases hl : labels cs with
      | nil =>
        simp only [hl,List.mem_singleton] at h
        subst h
        simpa using Ne.symm hc
      | cons k ks =>
        simp only [hl] at h
        rcases List.mem_cons.mp h with rfl | h
        · have hk := ih (hl ▸ List.mem_cons_self)
          simp [hk,Ne.symm hc]
        · exact ih (hl ▸ List.mem_cons_of_mem k h)

theorem labels_dotted {ls : List Bytes} (h : ∀ l ∈ ls, dot ∉ l) : labels (dotted ls) = ls := by
  induction ls with
  | nil => rfl
  | cons l ls ih =>
    rw [dotted_cons,List.append_assoc,List.singleton_append,labels_dot (h l List.mem_cons_self),
      ih fun k hk => h k (List.mem_cons_of_mem l hk)]

theorem length_dotted_labels (t : Bytes) : (dotted (labels t)).length ≤ t.length + 1 := by
  induction t with
  | nil => simp [labels,dotted]
  | cons c cs ih =>
    by_cases hc : c = dot
    · rw [labels,if_pos hc,length_dotted_cons,List.length_nil,List.length_cons]
      omega
    · rw [labels,if_neg hc]
      cases hl : labels cs with
      | nil => simp [dotted]
      | cons k ks =>
        rw [hl,length_dotted_cons] at ih
        simp only [length_dotted_cons,List.length_cons]
        omega

theorem heardLabels_begins (name : Bytes) : heardLabels name <+: nameLabels name :=
  List.takeWhile_prefix _

theorem heardLabels_ne_nil {name l : Bytes} (h : l ∈ heardLabels name) : l ≠ [] := by
  simpa using List.mem_takeWhile_imp h

theorem length_heardName {name : Bytes} (h : name.length ≤ 128) : (heardName name).length ≤ 129 := by
  obtain ⟨t,ht⟩ := heardLabels_begins name
  have hle := length_dotted_labels (if name.getLast? = some dot then name.dropLast else name)
  have htext := length_nameText_le name
  rw [← nameLabels,← ht,dotted,List.flatMap_append,List.length_append] at hle
  rw [heardName,dotted]
  omega

theorem metaName_of_heard {name : Bytes} (h : heardName name = DNS_SD_SERVICE_INSTANCE) :
    MetaName name := by
  have hlabels : heardLabels name = labels DNS_SD_SERVICE_INSTANCE := by
    rw [← h,heardName,labels_dotted fun l hl =>
      dot_not_mem_labels ((heardLabels_begins name).subset hl)]
  rw [MetaName,hlabels]
  decide

/-- The first name of a message as a reader finds it, which it does if no block of labels is
repeated. Its end lies where it was written if no label is empty. -/
theorem NameEnd.heard {buffer m : Mem} {capacity p size : Nat} {name ending : Bytes}
    {written rest : List Bytes} (h : NameEnd buffer capacity p [] written rest ending)
    (hsplit : nameLabels name = written ++ rest) (hname : name.length ≤ 128)
    (hread : m.read p (labelsBytes written ++ ending).length = labelsBytes written ++ ending)
    (hsize : p + (labelsBytes written ++ ending).length ≤ size)
    (hlimit : p + (labelsBytes written ++ ending).length ≤ 0x4000) :
    (¬ NoRepeat 16 (nameLabels name) ∧ labelsAt m size p = none) ∨
      ∃ stop, labelsAt m size p = some (heardLabels name,stop) ∧
        ([] ∉ nameLabels name → stop = p + (labelsBytes written ++ ending).length) := by
  have hcount := two_mul_length_le_dotted fun l (hl : l ∈ heardLabels name) => heardLabels_ne_nil hl
  have hlen := length_heardName hname
  rw [heardName] at hlen
  obtain ⟨budget,hbudget⟩ := Nat.exists_eq_add_of_le
    (show (heardLabels name).length ≤ mdnsMaxSubstrings by unfold mdnsMaxSubstrings; omega)
  have hshort : ∀ l ∈ written, l.length < 192 := fun l hl =>
    short_of_mem_nameLabels (Nat.lt_of_le_of_lt hname (by decide))
      (hsplit ▸ List.mem_append_left rest hl)
  rw [List.length_append] at hread hsize hlimit ⊢
  rw [Mem.read_add] at hread
  obtain ⟨hlabels,hending⟩ := List.append_inj hread (by simp)
  by_cases hblank : [] ∈ written
  · -- the first empty label is taken for the end
    obtain ⟨first,more,rfl,hfirst⟩ := List.eq_append_cons_of_mem hblank
    have hne : ∀ l ∈ first, l ≠ [] := fun l hl h => hfirst (h ▸ hl)
    have hheard : heardLabels name = first := by
      rw [heardLabels,hsplit,List.append_assoc,List.takeWhile_append_of_pos (by simpa using hne)]
      simp
    have hopen : OpenAt m size p (first ++ [] :: more) := ⟨hshort,by omega,hlabels⟩
    rw [OpenAt.append_iff] at hopen
    obtain ⟨hopen,hempty⟩ := hopen
    obtain ⟨-,hin,-⟩ := hempty.cons.1
    have hzero : m (p + (labelsBytes first).length) = 0 := hempty.cons.1.head.1
    have hmem : [] ∈ nameLabels name := hsplit ▸ List.mem_append_left rest hblank
    refine Or.inr ⟨p + (labelsBytes first).length + 1,?_,fun h => absurd hmem h⟩
    rw [labelsAt,hbudget,hheard,Nat.add_assoc,hopen.labelsLoop (Nat.le_refl _) hne,
      labelsLoop_stop (by rw [List.length_nil] at hin; omega) hzero,Option.map_some,List.append_nil]
    rfl
  · have hne : ∀ l ∈ written, l ≠ [] := fun l hl h => hblank (h ▸ hl)
    have hself := h
    cases h with
    | stop hrest =>
      subst hrest
      have hheard : heardLabels name = written := by
        rw [heardLabels,hsplit,List.append_nil,List.takeWhile_eq_self_iff]
        simpa using hne
      have hopen : OpenAt m size p written := ⟨hshort,by omega,hlabels⟩
      have hzero : m (p + (labelsBytes written).length) = 0 := by
        rw [List.length_singleton,Mem.read_succ] at hending
        exact (List.cons.inj hending).1
      rw [List.length_singleton] at hsize
      rw [hheard]
      exact Or.inr ⟨_,labelsAt_plain hopen hne (by omega) hzero (by rw [← hheard]; omega),
        fun _ => rfl⟩
    | @own m' k hrest hk hrecent hopen hcap hreads =>
      rw [length_refBytes] at hsize hlimit hending
      have hopen : OpenAt m (p + (labelsBytes written).length + 2) p written :=
        ⟨hshort,by omega,hlabels⟩
      refine Or.inl ⟨fun hrepeat => ?_,
        labelsAt_selfRef hopen hne hk (Nat.le_refl _) hending (by omega) (by omega)⟩
      rw [hsplit] at hrepeat
      rcases hself.noRepeat hrepeat with ⟨hnil,-⟩ | ⟨a,ha,-⟩
      · exact hrest hnil
      · contradiction
    | older _ ha => contradiction

theorem ServiceOf.asker_begins {hostname : HostName} {service : AdvertiseService}
    (h : ServiceOf hostname service) {d : Sent} {name : Bytes} {rtype : UInt16}
    (ha : AnswersAsker service d name rtype) : name.length ≤ 128 ∧
      ∃ (header : MdnsHeader) (buffer : Mem) (written rest : List Bytes) (ending behind : Bytes),
        nameLabels name = written ++ rest ∧
        NameEnd buffer sendBufferCapacity 12 [] written rest ending ∧ header.questions = 1 ∧
        d.bytes = header.bytes ++ (labelsBytes written ++ ending ++ questionFields rtype) ++ behind ∧
        12 + (labelsBytes written ++ ending).length ≤ 0x3FFF := by
  obtain ⟨buffer,queryId,answer,additional,hans,hd⟩ := ha
  obtain ⟨htxt,hroom⟩ := h.serviceAnswer_fits hans
  have hname : name.length ≤ 128 := by
    obtain ⟨hs,hi,hq⟩ := h.lengths
    have hdns := length_DNS_SD_SERVICE_INSTANCE
    rcases h.serviceAnswer_cases hans with ⟨rfl,-⟩ | ⟨rfl,-⟩ | ⟨rfl,-⟩ | ⟨rfl,-⟩ | ⟨rfl,-⟩ <;> omega
  have hcap := sendBufferCapacity_reach
  have hfits : 12 + (name.length + 2) ≤ sendBufferCapacity := by omega
  let begun := buffer.write 0 (unicastHeader queryId additional).bytes
  obtain ⟨e,he,-,hle,-⟩ : Extends begun 12 (name.length + 2)
    (mdnsStringMake begun sendBufferCapacity 12 name .empty) := mdnsStringMake_extends hfits
  obtain ⟨table,written,rest,ending,hmake,hsplit,hend⟩ := mdnsStringMake_spelled
    TableOf.empty (by omega)
      (fun hnone => Option.some_ne_none e (he.symm.trans hnone) :
        (mdnsStringMake begun sendBufferCapacity 12 name .empty).data ≠ none)
  have hlen := Option.some.inj ((congrArg MdnsWriter.data hmake).symm.trans he)
  obtain ⟨behind,hsent⟩ := mdnsQueryAnswerUnicast_begins queryId rtype
    (congrArg MdnsWriter.data hmake) (congrArg MdnsWriter.buffer hmake) hcap htxt hroom d.sock d.dest
  rw [hsent] at hd
  have hbytes := congrArg Sent.bytes (List.mem_singleton.mp hd)
  exact ⟨hname,unicastHeader queryId additional,begun,written,rest,ending,behind,hsplit,hend,rfl,
    hbytes,by omega⟩

section Asker

variable {hostname hostname' : HostName} {sender service : AdvertiseService}

theorem ServiceOf.asker_heard (h : ServiceOf hostname sender) {d : Sent} {name : Bytes}
    {rtype : UInt16} (ha : AnswersAsker sender d name rtype) (buffer : Mem) :
    questionCount d.bytes = 1 ∧
      ((¬ NoRepeat 16 (nameLabels name) ∧
          labelsAt (buffer.write 0 d.bytes) d.bytes.length 12 = none) ∨
        ∃ stop, labelsAt (buffer.write 0 d.bytes) d.bytes.length 12 =
            some (heardLabels name,stop) ∧
          ([] ∉ nameLabels name → (buffer.write 0 d.bytes).be16 stop = rtype ∧
            (buffer.write 0 d.bytes).be16 (stop + 2) = mdnsUnicastResponse ||| mdnsClassIn)) := by
  obtain ⟨hname,header,begun,written,rest,ending,behind,hsplit,hend,hone,hbytes,hlimit⟩ :=
    h.asker_begins ha
  have hhead : d.bytes.take 12 = header.bytes := by
    rw [hbytes,List.append_assoc,List.take_left' (MdnsHeader.length_bytes header)]
  have hfour : (questionFields rtype).length = 4 := rfl
  have hlen : d.bytes.length = 12 + ((labelsBytes written ++ ending).length + 4) +
      behind.length := by
    rw [hbytes,List.length_append,List.length_append,MdnsHeader.length_bytes,
      @List.length_append _ (labelsBytes written ++ ending),hfour]
  have htext : (buffer.write 0 d.bytes).read (0 + 12)
      ((labelsBytes written ++ ending).length + 4) =
        labelsBytes written ++ ending ++ questionFields rtype := by
    rw [Mem.read_write_part (by omega),hbytes,List.append_assoc,
      List.drop_left' (MdnsHeader.length_bytes header)]
    exact List.take_left' (by rw [@List.length_append _ (labelsBytes written ++ ending),hfour])
  rw [Nat.zero_add,Mem.read_add] at htext
  obtain ⟨hnameRead,hfields⟩ := List.append_inj htext (by simp)
  refine ⟨by rw [questionCount_header hhead,hone]; rfl,?_⟩
  rcases hend.heard hsplit hname hnameRead (by omega : _ ≤ d.bytes.length) (by omega) with
    hnone | ⟨stop,hlabels,hstop⟩
  · exact Or.inl hnone
  · refine Or.inr ⟨stop,hlabels,fun hblank => ?_⟩
    rw [hstop hblank]
    exact Mem.be16_be16_of_read hfields

theorem heardName_extract {m : Mem} {size p : Nat} {name : Bytes} (hname : name.length ≤ 128)
    {stop : Nat} (h : labelsAt m size p = some (heardLabels name,stop)) :
    ((mdnsStringExtract m size p 256).map Prod.fst).getD [] = heardName name := by
  have hle := length_heardName hname
  rw [heardName] at hle
  rw [mdnsStringExtract_labels,h]
  exact List.take_of_length_le (Nat.le_trans hle (by decide))

/-- Who takes it for a question: it is not the meta name of DNS-SD, and the reader goes by the name
and the type. Where a label of the name is empty the type is read from what comes behind it. -/
theorem AnswersAsker.owned (h : ServiceOf hostname sender) (h' : ServiceOf hostname' service)
    {d : Sent} {name : Bytes} {rtype : UInt16} (ha : AnswersAsker sender d name rtype)
    {buffer : Mem} (hreads : ReadsQuestion service buffer d.bytes) :
    ¬ MetaName name ∧ ∃ t, (t = rtype ∨ [] ∈ nameLabels name) ∧ Owns service (heardName name) t := by
  obtain ⟨-,q,hq,-,hdns,hans⟩ := hreads
  have hname := (h.asker_begins ha).1
  have hmeta := mdnsReadQuestion_dnsSd hq
  rcases (h.asker_heard ha buffer).2 with ⟨-,hnone⟩ | ⟨stop,hlabels,hfields⟩
  · rw [mdnsStringExtract_labels,hnone] at hans
    simp [h'.serviceAnswer_nil] at hans
  · rw [heardName_extract hname hlabels] at hans
    have hnot : ¬ MetaName name := by
      intro hm
      rw [hmeta.mpr ⟨_,hlabels,hm⟩] at hdns
      contradiction
    refine ⟨hnot,q.rtype,?_,?_⟩
    · by_cases hblank : [] ∈ nameLabels name
      · exact Or.inr hblank
      · rw [mdnsReadQuestion_eq,mdnsStringSkip_labels hlabels] at hq
        rw [← Option.some.inj hq]
        exact Or.inl (hfields hblank).1
    · obtain ⟨⟨answer,additional⟩,hsome⟩ := Option.isSome_iff_exists.mp hans
      rcases h'.serviceAnswer_cases hsome with ⟨hdnsSd,-⟩ | ⟨hn,ht,-⟩ | ⟨hn,ht,-⟩ | ⟨hn,ht,h4,-⟩ |
        ⟨hn,ht,h6,-⟩
      · exact absurd (metaName_of_heard hdnsSd) hnot
      · exact Or.inl ⟨hn,ht⟩
      · exact Or.inr (Or.inl ⟨hn,ht⟩)
      · exact Or.inr (Or.inr ⟨hn,Or.inl ⟨ht,h4⟩⟩)
      · exact Or.inr (Or.inr ⟨hn,Or.inr ⟨ht,h6⟩⟩)

theorem AnswersAsker.answered (h : ServiceOf hostname sender) {d : Sent} {name : Bytes}
    {rtype : UInt16} (ha : AnswersAsker sender d name rtype) (hblank : [] ∉ nameLabels name)
    (hrepeat : NoRepeat 16 (nameLabels name)) (hnot : ¬ MetaName name)
    (hans : (serviceAnswer service (heardName name) rtype).isSome = true) (buffer : Mem) :
    ReadsQuestion service buffer d.bytes := by
  have hname := (h.asker_begins ha).1
  obtain ⟨hone,hheard⟩ := h.asker_heard ha buffer
  rcases hheard with ⟨hr,-⟩ | ⟨stop,hlabels,hfields⟩
  · exact absurd hrepeat hr
  · obtain ⟨htype,hclass⟩ := hfields hblank
    obtain ⟨q,hq⟩ : ∃ q, mdnsReadQuestion (buffer.write 0 d.bytes) d.bytes.length 12 = some q := by
      rw [mdnsReadQuestion_eq,mdnsStringSkip_labels hlabels]
      exact ⟨_,rfl⟩
    have hdns : q.dnsSd = false := by
      by_contra hdns
      obtain ⟨found,hfound,hlower⟩ := (mdnsReadQuestion_dnsSd hq).mp (by simpa using hdns)
      rw [hlabels] at hfound
      obtain rfl := Option.some.inj hfound
      exact hnot hlower
    refine ⟨by omega,q,hq,?_,hdns,?_⟩
    · rw [mdnsReadQuestion_eq,mdnsStringSkip_labels hlabels] at hq
      rw [← Option.some.inj hq]
      simp only [hclass]
      decide
    · rw [heardName_extract hname hlabels]
      rw [mdnsReadQuestion_eq,mdnsStringSkip_labels hlabels] at hq
      rw [← Option.some.inj hq]
      simp only [htype]
      exact hans

theorem ServiceOf.owns_answered (h : ServiceOf hostname service) (hapart : NamesApart service)
    {name : Bytes} {rtype : UInt16} (howns : Owns service name rtype)
    (hdns : name ≠ DNS_SD_SERVICE_INSTANCE) : (serviceAnswer service name rtype).isSome = true := by
  rcases howns with ⟨rfl,ht⟩ | ⟨rfl,ht⟩ | ⟨rfl,ht⟩
  · rw [h.serviceAnswer_serviceName ht]
    rfl
  · unfold Asks at ht
    rw [h.serviceAnswer_instance,if_pos ht]
    rfl
  · have hservice : service.qualifiedHostname ≠ service.serviceName := by
      intro heq
      have hsplit : SERVICE_NAME = ascii "_wlr-remote._udp" ++ qualifiedSuffix := by decide
      rw [h.qualifiedHostname,h.serviceName,hsplit] at heq
      have hrepeat := hapart.1
      rw [h.serviceInstance,List.append_cancel_right heq] at hrepeat
      revert hrepeat
      decide +kernel
    unfold Asks at ht
    rw [h.serviceAnswer_qualified hdns hservice]
    split
    · rfl
    · rename_i hv4
      rw [if_pos (ht.resolve_left hv4)]
      rfl

theorem ServiceOf.asked_apart (h : ServiceOf hostname service) (hw : hostname.WellFormed)
    (hapart : NamesApart service) {name : Bytes} {rtype : UInt16}
    {records : MdnsRecord × List MdnsRecord} (hans : serviceAnswer service name rtype = some records) :
    Apart name := by
  have hi := (h.instance_labels hw).2
  have hq := (h.qualified_labels hw).2
  obtain ⟨answer,additional⟩ := records
  rcases h.serviceAnswer_cases hans with ⟨rfl,-⟩ | ⟨rfl,-⟩ | ⟨rfl,-⟩ | ⟨rfl,-⟩ | ⟨rfl,-⟩
  · exact apart_dnsSd
  · rw [h.serviceName]
    exact apart_serviceName
  · exact ⟨hi,hapart.1⟩
  · exact ⟨hq,hapart.2⟩
  · exact ⟨hq,hapart.2⟩

end Asker

section Network

variable {ι : Type} [DecidableEq ι] (services : ι → BuiltService)

/-- An answer to one asker is delivered only to services that do not go by the name and the type of
the question it answers, that of the meta name of DNS-SD apart. -/
def KeepsApart (s : NetState ι) (input : NetInput ι) (_ : NetState ι) : Prop :=
  ∀ i sock src j n d name rtype, input = .emitted i sock src j n →
    (s.responders j).sent[n]? = some d → AnswersAsker (services j).service d name rtype →
      MetaName name ∨ ∀ t, t = rtype ∨ [] ∈ nameLabels name →
        ¬ Owns (services i).service (heardName name) t

variable {services} {queries : List Query}

theorem keepsApart_quiet {s s' : NetState ι} {input : NetInput ι} (hs : s.LogsRespond services)
    (hstep : netStep services queries s input = some s') (hkeeps : KeepsApart services s input s') :
    ∀ i sock src j n, input = .emitted i sock src j n →
      (s'.responders i).sent = (s.responders i).sent := by
  intro i sock src j n hinput
  subst hinput
  obtain ⟨hostname,hof⟩ := (services i).serviceOf
  obtain ⟨sender,hsender⟩ := (services j).serviceOf
  refine (emitted_quiet_iff hs hstep).mpr fun d hd hreads => ?_
  obtain ⟨-,-,header,hhead,-,hquestions⟩ := hs j d (List.mem_of_getElem? hd)
  rcases hquestions with hzero | ⟨-,name,rtype,ha⟩
  · have hcount := questionCount_header hhead
    rw [hzero] at hcount
    exact hreads.1 hcount
  · obtain ⟨hnot,t,ht,howns⟩ := ha.owned hsender hof hreads
    rcases hkeeps i sock src j n d name rtype rfl hd ha with hmeta | hnone
    · exact hnot hmeta
    · exact hnone t ht howns

theorem quiet_keepsApart
    (hsound : ∀ i, ∃ hostname, ServiceOf hostname (services i).service ∧ hostname.WellFormed ∧
      NamesApart (services i).service) {s s' : NetState ι} {input : NetInput ι}
    (hs : s.LogsRespond services) (hstep : netStep services queries s input = some s')
    (hquiet : Quiet s input s') : KeepsApart services s input s' := by
  intro i sock src j n d name rtype hinput hd ha
  subst hinput
  obtain ⟨hostname,hof,hw,hapart⟩ := hsound j
  obtain ⟨receiver,hof',-,hapart'⟩ := hsound i
  have hsilent := (emitted_quiet_iff hs hstep).mp (hquiet.1 i sock src j n rfl) d hd
  obtain ⟨-,-,answer,additional,hans,-⟩ := id ha
  have hname := hof.asked_apart hw hapart hans
  have hblank : [] ∉ nameLabels name := fun h => hname.localName.readable.blank [] h rfl
  by_cases hmeta : MetaName name
  · exact Or.inl hmeta
  · refine Or.inr fun t ht howns => hsilent ?_
    obtain rfl := ht.resolve_right hblank
    have hdns : heardName name ≠ DNS_SD_SERVICE_INSTANCE := fun h => hmeta (metaName_of_heard h)
    exact ha.answered hof hblank hname.noRepeat hmeta (hof'.owns_answered hapart' howns hdns) _

/-- In every run of every network in which answers to one asker are kept from those who own what
was asked for, no emitted datagram brings about another one and no answer is given without a
question. Between services whose names can be read back it takes nothing less. -/
theorem quiet_of_keepsApart (services : ι → BuiltService) (queries : List Query)
    (buffers sendBuffers : ι → Mem) (inputs : List (NetInput ι)) :
    (Runs.Along (netStep services queries) (KeepsApart services) (.start buffers sendBuffers)
        inputs →
      Runs.Along (netStep services queries) Quiet (.start buffers sendBuffers) inputs) ∧
    ((∀ i, ∃ hostname, ServiceOf hostname (services i).service ∧ hostname.WellFormed ∧
        NamesApart (services i).service) →
      Runs.Along (netStep services queries) Quiet (.start buffers sendBuffers) inputs →
        Runs.Along (netStep services queries) (KeepsApart services) (.start buffers sendBuffers)
          inputs) := by
  have hlogs : (NetState.start buffers sendBuffers).LogsRespond services := by
    simp [NetState.LogsRespond,NetState.start]
  constructor
  · have hstart : (NetState.start buffers sendBuffers).Accounted services := ⟨hlogs,Nat.le_refl 0⟩
    apply Runs.Along.of_inv _ hstart
    intro s input s' hs hstep hkeeps
    have hquiet := keepsApart_quiet hs.logs hstep hkeeps
    have hle := netStep_answers hs hquiet hstep
    exact ⟨⟨netStep_responses hs.logs hstep,hle⟩,hquiet,hle⟩
  · intro hsound
    apply Runs.Along.of_inv _ hlogs
    intro s input s' hs hstep hquiet
    exact ⟨netStep_responses hs hstep,quiet_keepsApart hsound hs hstep hquiet⟩

end Network

/-- A query for the SRV record of the first host that wants a unicast answer. -/
def instanceQuery : Query where
  bytes := [0,0,0,0,0,1,0,0,0,0,0,0] ++ (1 :: ascii "a") ++ (11 :: ascii "_wlr-remote") ++
    (4 :: ascii "_udp") ++ (5 :: ascii "local") ++ [0] ++ be16 MdnsRecordType.srv.code ++
    be16 (mdnsUnicastResponse ||| mdnsClassIn)
  header_le := by decide

/-- The second host is told of the answer, and it does not go by that name. -/
theorem quiet_of_keepsApart_twoHosts : ∃ s, Runs.run (netStep twoHosts [instanceQuery])
      (.start (fun _ _ => 0) (fun _ _ => 0))
      [.query false 3 .other 0,.emitted true 3 .other false 0] = some s ∧ s.answers = 1 ∧
    Runs.Along (netStep twoHosts [instanceQuery]) Quiet (.start (fun _ _ => 0) (fun _ _ => 0))
      [.query false 3 .other 0,.emitted true 3 .other false 0] := by
  have hcounts : (Runs.run (netStep twoHosts [instanceQuery])
      (.start (fun _ _ => 0) (fun _ _ => 0))
      [.query false 3 .other 0,.emitted true 3 .other false 0]).map NetState.answers = some 1 := by
    decide +kernel
  obtain ⟨s,hrun,hs⟩ := Option.map_eq_some_iff.mp hcounts
  refine ⟨s,hrun,hs,(quiet_of_keepsApart twoHosts [instanceQuery] (fun _ _ => 0) (fun _ _ => 0)
    _).1 fun s₁ h₁ => ⟨?_,fun s₂ h₂ => ⟨?_,trivial⟩⟩⟩
  · intro i sock src j n d name rtype hinput
    cases hinput
  · intro i sock src j n d name rtype hinput hd ha
    cases hinput
    obtain ⟨hostname,hof⟩ := (twoHosts false).serviceOf
    have hread : (netStep twoHosts [instanceQuery] (.start (fun _ _ => 0) (fun _ _ => 0))
        (.query false 3 .other 0)).map (fun s₁ => (s₁.responders false).sent[0]?.map fun d =>
          labelsAt (Mem.write (fun _ => 0) 0 d.bytes) d.bytes.length 12) =
        some (some (some (ascii "a" :: serviceLabels,38))) := by decide +kernel
    rw [h₁,Option.map_some,hd,Option.map_some] at hread
    have hlabels := Option.some.inj (Option.some.inj hread)
    rcases (hof.asker_heard ha (fun _ => 0)).2 with ⟨-,hnone⟩ | ⟨stop,hheard,-⟩
    · exact absurd (hnone.symm.trans hlabels) (Option.some_ne_none _).symm
    · have hname : heardName name = ascii "a._wlr-remote._udp.local." := by
        rw [heardName,(Prod.mk.inj (Option.some.inj (hheard.symm.trans hlabels))).1]
        decide
      refine Or.inr fun t _ howns => ?_
      rw [hname] at howns
      rcases howns with ⟨h,-⟩ | ⟨h,-⟩ | ⟨h,-⟩ <;> exact absurd h (by decide +kernel)

end WlrRemote
