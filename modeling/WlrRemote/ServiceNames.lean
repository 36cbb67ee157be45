import WlrRemote.BuiltService
import WlrRemote.MessageDecoding

set_option autoImplicit false

namespace WlrRemote
open Octets SuffixTable

def localLabel : Bytes := ascii "local"

def serviceLabels : List Bytes := [ascii "_wlr-remote",ascii "_udp",localLabel]

def hostLabels (hostname : HostName) : List Bytes := labels (hostname.bytes ++ [dot])

/-- Labels of 1 to 63 bytes, separated by dots. -/
def HostName.WellFormed (hostname : HostName) : Prop :=
  ∀ l ∈ hostLabels hostname, l ≠ [] ∧ l.length ≤ 63

instance (hostname : HostName) : Decidable hostname.WellFormed :=
  inferInstanceAs (Decidable (∀ l ∈ hostLabels hostname, l ≠ [] ∧ l.length ≤ 63))

/-- A name whose last label is `local`, and that can be read back. -/
structure LocalName (name : Bytes) : Prop where
  readable : Readable name
  last : (nameLabels name).getLast? = some localLabel

theorem nameLabels_dot (t : Bytes) : nameLabels (t ++ [dot]) = labels t := by
  simp [nameLabels]

theorem readable_dot {t : Bytes} (hlast : t.getLast? ≠ some dot) (hne : t ≠ [])
    (hlen : t.length < 128) (hblank : ∀ l ∈ labels t, l ≠ []) : Readable (t ++ [dot]) := by
  refine ⟨by rw [List.length_append,List.length_singleton]; omega,?_,?_,?_⟩
  · rw [nameLabels_dot,dotted_labels hlast hne]
  · rwa [nameLabels_dot]
  · rw [nameLabels_dot]
    exact labels_ne_nil hne

theorem localName_serviceName : LocalName SERVICE_NAME := by
  refine ⟨⟨by decide,by decide,by decide,by decide⟩,by decide⟩

theorem localName_dnsSd : LocalName DNS_SD_SERVICE_INSTANCE := by
  refine ⟨⟨by decide,by decide,by decide,by decide⟩,by decide⟩

theorem localName_host {hostname : HostName} (hw : hostname.WellFormed) {t : Bytes}
    (hlen : t.length ≤ 60) (hlast : t.getLast? ≠ some dot) (hne : t ≠ [])
    (hblank : ∀ l ∈ labels t, l ≠ []) (hlocal : (labels t).getLast? = some localLabel) :
    nameLabels (hostname.bytes ++ dot :: t ++ [dot]) = hostLabels hostname ++ labels t ∧
      LocalName (hostname.bytes ++ dot :: t ++ [dot]) := by
  have hlabels : labels (hostname.bytes ++ dot :: t) = hostLabels hostname ++ labels t :=
    labels_append_dot hostname.bytes t
  have hhost := hostname.length_le
  unfold hostNameMax at hhost
  refine ⟨by rw [nameLabels_dot,hlabels],readable_dot ?_ (by simp) ?_ ?_,?_⟩
  · cases t with
    | nil => contradiction
    | cons c cs => simpa using hlast
  · rw [List.length_append,List.length_cons]
    omega
  · intro l hl
    rw [hlabels] at hl
    rcases List.mem_append.mp hl with hl | hl
    · exact (hw l hl).1
    · exact hblank l hl
  · rw [nameLabels_dot,hlabels,List.getLast?_append_of_ne_nil _ (labels_ne_nil hne),hlocal]

section Service

variable {hostname : HostName} {service : AdvertiseService}

theorem HostName.WellFormed.instance_labels (hw : hostname.WellFormed) :
    nameLabels (hostname.bytes ++ dot :: SERVICE_NAME) = hostLabels hostname ++ serviceLabels ∧
      LocalName (hostname.bytes ++ dot :: SERVICE_NAME) := by
  have hname : hostname.bytes ++ dot :: SERVICE_NAME =
      hostname.bytes ++ dot :: ascii "_wlr-remote._udp.local" ++ [dot] := by
    rw [List.append_assoc]
    rfl
  have hlabels : labels (ascii "_wlr-remote._udp.local") = serviceLabels := by decide
  rw [hname,← hlabels]
  exact localName_host hw (by decide) (by decide) (by decide) (by decide) (by decide)

theorem HostName.WellFormed.qualified_labels (hw : hostname.WellFormed) :
    nameLabels (hostname.bytes ++ qualifiedSuffix) = hostLabels hostname ++ [localLabel] ∧
      LocalName (hostname.bytes ++ qualifiedSuffix) := by
  have hname : hostname.bytes ++ qualifiedSuffix = hostname.bytes ++ dot :: localLabel ++ [dot] := by
    rw [List.append_assoc]
    rfl
  have hlabels : labels localLabel = [localLabel] := by decide
  have hlocal := localName_host hw (t := localLabel) (by decide) (by decide) (by decide) (by decide)
    (by decide)
  rwa [hlabels,← hname] at hlocal

theorem ServiceOf.instance_labels (h : ServiceOf hostname service) (hw : hostname.WellFormed) :
    nameLabels service.serviceInstance = hostLabels hostname ++ serviceLabels ∧
      LocalName service.serviceInstance := by
  rw [h.serviceInstance]
  exact hw.instance_labels

theorem ServiceOf.qualified_labels (h : ServiceOf hostname service) (hw : hostname.WellFormed) :
    nameLabels service.qualifiedHostname = hostLabels hostname ++ [localLabel] ∧
      LocalName service.qualifiedHostname := by
  rw [h.qualifiedHostname]
  exact hw.qualified_labels

end Service

/-- A name that may be written after any names without being misread. -/
structure Apart (name : Bytes) : Prop where
  localName : LocalName name
  noRepeat : NoRepeat 16 (nameLabels name)

theorem Apart.blank {name : Bytes} (h : Apart name) :
    ∀ l ∈ nameLabels name, List.isEmpty l = false := by
  intro l hl
  simpa using h.localName.readable.blank l hl

theorem faithful_of_clean {g : List (Node Bytes)} (hg : Clean List.isEmpty localLabel g)
    {names : List Bytes}
    (h : ∀ name ∈ names, Apart name ∧ LastOnly localLabel (nameLabels name)) :
    Faithful g names := by
  induction names generalizing g with
  | nil => trivial
  | cons name names ih =>
    obtain ⟨ha,hlast⟩ := h name List.mem_cons_self
    obtain ⟨cur,link,tail,hspell,hsplit,htail,-⟩ :=
      spell_sound ha.noRepeat (hg.tidy ha.localName.last) [] (nameLabels name) rfl
    refine ⟨cur,link,tail,hspell,hsplit,htail,ih ?_ fun k hk => h k (List.mem_cons_of_mem name hk)⟩
    rw [hsplit] at hlast
    refine hg.append (fun l hl => ha.blank l ?_) htail hlast
    rw [hsplit]
    exact List.mem_append_left tail hl

theorem Faithful.of_full {g : List (Node Bytes)} {name : Bytes} {names : List Bytes}
    (hspell : spell List.isEmpty 16 g [] (nameLabels name) = some (nameLabels name,.stop))
    (hrest : Faithful (g ++ chain g.length (nameLabels name) .stop) names) :
    Faithful g (name :: names) :=
  ⟨_,_,[],hspell,(List.append_nil _).symm,.stop,hrest⟩

theorem faithful_of_spelledOut {g : List (Node Bytes)}
    (hg : SpelledOut List.isEmpty 16 localLabel g) {names : List Bytes}
    (h : ∀ name ∈ names, Apart name ∧ 16 < (nameLabels name).length) : Faithful g names := by
  induction names generalizing g with
  | nil => trivial
  | cons name names ih =>
    obtain ⟨ha,hlong⟩ := h name List.mem_cons_self
    refine .of_full (hg.spell_full ha.noRepeat ha.localName.last (Or.inl hlong)) (ih ?_
      fun k hk => h k (List.mem_cons_of_mem name hk))
    exact hg.append ha.blank ha.noRepeat ha.localName.last

theorem apart_serviceName : Apart SERVICE_NAME := ⟨localName_serviceName,by decide⟩

theorem apart_dnsSd : Apart DNS_SD_SERVICE_INSTANCE := ⟨localName_dnsSd,by decide⟩

theorem faithful_serviceName {names : List Bytes}
    (h : ∀ name ∈ names, Apart name ∧ 16 < (nameLabels name).length) :
    Faithful [] (SERVICE_NAME :: names) ∧ Faithful [] (SERVICE_NAME :: SERVICE_NAME :: names) := by
  have ha := apart_serviceName
  have hempty : SpelledOut List.isEmpty 16 localLabel [] := by simp [SpelledOut]
  have hfull := hempty.spell_full ha.noRepeat ha.localName.last (Or.inr rfl)
  have hg := hempty.append ha.blank ha.noRepeat ha.localName.last
  refine ⟨.of_full hfull (faithful_of_spelledOut hg h),.of_full hfull ?_⟩
  have hlabels : nameLabels SERVICE_NAME = serviceLabels := by decide
  have hstop : Spells List.isEmpty ([] : List (Node Bytes)) .stop [] := .stop
  have hspells := spells_chain ha.blank hstop 0 (by rw [hlabels]; decide)
  have hlen : (([] : List (Node Bytes)) ++ chain 0 (nameLabels SERVICE_NAME) .stop).length = 3 := by
    rw [hlabels]
    rfl
  obtain ⟨k,hknown,-,hk⟩ := spell_known ha.localName.readable.ne_nil ha.noRepeat
    (hg.tidy ha.localName.last) (k := 0) (by rw [List.length_nil,hlen]; omega)
    (by rw [List.length_nil,hlen]; omega) (by simpa using hspells)
  refine ⟨[],.node k,_,hknown,rfl,hk,?_⟩
  simp only [chain,List.append_nil]
  exact faithful_of_spelledOut hg h

section Service

variable {hostname : HostName} {service : AdvertiseService}

/-- The condition on the hostname: no block of at most sixteen labels of the instance
name or the qualified hostname is followed by a copy of itself. -/
def NamesApart (service : AdvertiseService) : Prop :=
  NoRepeat 16 (nameLabels service.serviceInstance) ∧
    NoRepeat 16 (nameLabels service.qualifiedHostname)

instance (service : AdvertiseService) : Decidable (NamesApart service) :=
  inferInstanceAs (Decidable (_ ∧ _))

theorem ServiceOf.faithful (h : ServiceOf hostname service) (hw : hostname.WellFormed)
    (hapart : NamesApart service) {names : List Bytes}
    (hnames : ∀ name ∈ names, name = service.serviceInstance ∨ name = service.qualifiedHostname) :
    Faithful [] names ∧ Faithful [] (service.serviceName :: names) ∧
      Faithful [] (service.serviceName :: service.serviceName :: names) := by
  obtain ⟨hi,hil⟩ := h.instance_labels hw
  obtain ⟨hq,hql⟩ := h.qualified_labels hw
  have hai : Apart service.serviceInstance := ⟨hil,hapart.1⟩
  have haq : Apart service.qualifiedHostname := ⟨hql,hapart.2⟩
  rw [h.serviceName]
  by_cases hlocal : localLabel ∈ hostLabels hostname
  · -- a `local` in the hostname is more than sixteen labels away from the last one
    have hlong : 16 < (nameLabels service.qualifiedHostname).length := by
      by_contra hshort
      have hlast := haq.noRepeat.lastOnly haq.localName.last (List.suffix_refl _) (by omega)
      rw [hq] at hlast
      apply hlast
      simpa using hlocal
    have hlong' : 16 < (nameLabels service.serviceInstance).length := by
      rw [hq,List.length_append] at hlong
      rw [hi,List.length_append]
      simp only [serviceLabels,List.length_cons,List.length_nil] at hlong ⊢
      omega
    have hall : ∀ name ∈ names, Apart name ∧ 16 < (nameLabels name).length := by
      intro name hname
      rcases hnames name hname with rfl | rfl
      · exact ⟨hai,hlong'⟩
      · exact ⟨haq,hlong⟩
    exact ⟨faithful_of_spelledOut (by simp [SpelledOut]) hall,faithful_serviceName hall⟩
  · have hall : ∀ name ∈ names, Apart name ∧ LastOnly localLabel (nameLabels name) := by
      intro name hname
      have hw' : localLabel ≠ ascii "_wlr-remote" ∧ localLabel ≠ ascii "_udp" := by decide
      rcases hnames name hname with rfl | rfl
      · refine ⟨hai,?_⟩
        rw [hi,LastOnly,serviceLabels]
        simp [List.dropLast_append_of_ne_nil,hlocal,hw']
      · refine ⟨haq,?_⟩
        rw [hq,LastOnly]
        simpa using hlocal
    have hservice : Apart SERVICE_NAME ∧ LastOnly localLabel (nameLabels SERVICE_NAME) :=
      ⟨apart_serviceName,by unfold LastOnly; decide⟩
    have hempty : Clean List.isEmpty localLabel [] := by simp [Clean]
    refine ⟨faithful_of_clean hempty hall,faithful_of_clean hempty ?_,faithful_of_clean hempty ?_⟩
    · simpa using ⟨hservice,hall⟩
    · simpa using ⟨hservice,hall⟩

theorem faithful_dnsSd : Faithful [] [DNS_SD_SERVICE_INSTANCE,SERVICE_NAME] ∧
    Faithful [] [DNS_SD_SERVICE_INSTANCE,DNS_SD_SERVICE_INSTANCE,SERVICE_NAME] := by
  have hservice : Apart SERVICE_NAME ∧ LastOnly localLabel (nameLabels SERVICE_NAME) :=
    ⟨apart_serviceName,by unfold LastOnly; decide⟩
  have hdns : Apart DNS_SD_SERVICE_INSTANCE ∧
      LastOnly localLabel (nameLabels DNS_SD_SERVICE_INSTANCE) :=
    ⟨apart_dnsSd,by unfold LastOnly; decide⟩
  have hempty : Clean List.isEmpty localLabel [] := by simp [Clean]
  exact ⟨faithful_of_clean hempty (by simp [hservice,hdns]),
    faithful_of_clean hempty (by simp [hservice,hdns])⟩

end Service

end WlrRemote
