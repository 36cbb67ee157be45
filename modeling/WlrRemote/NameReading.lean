import WlrRemote.NameWriting

set_option autoImplicit false

namespace WlrRemote
open Octets SuffixTable

theorem dotted_cons (l : Bytes) (ls : List Bytes) : dotted (l :: ls) = l ++ [dot] ++ dotted ls := by
  simp [dotted]

theorem length_dotted_cons (l : Bytes) (ls : List Bytes) :
    (dotted (l :: ls)).length = l.length + 1 + (dotted ls).length := by
  simp [dotted_cons]
  omega

/-- The labels of a name and the offset past it, where all references can be followed. -/
def labelsLoop (m : Mem) (size : Nat) : Nat → Nat → Option Nat → Option (List Bytes × Nat)
  | 0, _, _ => none
  | budget + 1, cur, stop =>
    let substr := mdnsGetNextSubstring m size cur
    match substr.offset with
    | none => none
    | some offset =>
      let stop := if substr.ref && stop.isNone then some (cur + 2) else stop
      let next := offset + substr.length
      if substr.length = 0 then some ([],stop.getD (next + 1))
      else
        (labelsLoop m size budget next stop).map fun name =>
          (m.read offset substr.length :: name.1,name.2)

def labelsAt (m : Mem) (size offset : Nat) : Option (List Bytes × Nat) :=
  labelsLoop m size (mdnsMaxSubstrings + 1) offset none

theorem take_dotted_cons (l : Bytes) (ls : List Bytes) (remain : Nat) :
    (dotted (l :: ls)).take remain = l.take (min l.length remain) ++
      if 0 < remain - min l.length remain then
        dot :: (dotted ls).take (remain - min l.length remain - 1)
      else [] := by
  rw [dotted_cons,List.append_assoc,List.take_append]
  by_cases h : l.length < remain
  · obtain ⟨room,rfl⟩ := Nat.exists_eq_add_of_lt h
    rw [Nat.min_eq_left (by omega),List.take_of_length_le (by omega),List.take_length,
      if_pos (by omega),show l.length + room + 1 - l.length = room + 1 by omega]
    rfl
  · rw [Nat.min_eq_right (by omega),if_neg (by omega),show remain - l.length = 0 by omega]
    rfl

theorem mdnsStringExtractLoop_labels (m : Mem) (size budget cur : Nat) (stop : Option Nat)
    (remain : Nat) (dst : Bytes) :
    mdnsStringExtractLoop m size budget cur stop remain dst =
      (labelsLoop m size budget cur stop).map fun name =>
        (dst ++ (dotted name.1).take remain,name.2) := by
  induction budget generalizing cur stop remain dst with
  | zero => rfl
  | succ budget ih =>
    rw [mdnsStringExtractLoop,labelsLoop]
    cases ha : (mdnsGetNextSubstring m size cur).offset with
    | none => rfl
    | some a =>
      simp only
      split
      · simp [dotted]
      · generalize (mdnsGetNextSubstring m size cur).length = length
        have hcopy := m.take_read a (Nat.min_le_left length remain)
        have htext (ls : List Bytes) := take_dotted_cons (m.read a length) ls remain
        simp only [Mem.length_read,hcopy] at htext
        simp only [ih,Option.map_map,Function.comp_def,htext]
        split
        · simp only [List.append_assoc,List.cons_append,List.nil_append]
        · have hnone : remain - min length remain = 0 := by omega
          simp only [hnone,List.take_zero,List.append_nil]

theorem mdnsStringExtract_labels (m : Mem) (size offset capacity : Nat) :
    mdnsStringExtract m size offset capacity =
      (labelsAt m size offset).map fun name => ((dotted name.1).take capacity,name.2) :=
  mdnsStringExtractLoop_labels m size _ _ _ _ _

theorem labelsLoop_label {m : Mem} {size budget cur a : Nat} {stop : Option Nat} {l : Bytes}
    {ref : Bool} (hnext : mdnsGetNextSubstring m size cur = ⟨some a,l.length,ref⟩)
    (hread : m.read a l.length = l) (hne : l ≠ []) :
    labelsLoop m size (budget + 1) cur stop =
      (labelsLoop m size budget (a + l.length)
        (if ref && stop.isNone then some (cur + 2) else stop)).map fun name =>
          (l :: name.1,name.2) := by
  have hlen : l.length ≠ 0 := fun h => hne (List.length_eq_zero_iff.mp h)
  rw [labelsLoop]
  simp only [hnext,hlen,↓reduceIte,hread]

theorem labelsLoop_stop {m : Mem} {size budget cur : Nat} {stop : Option Nat} (hcur : cur < size)
    (h0 : m cur = 0) : labelsLoop m size (budget + 1) cur stop = some ([],stop.getD (cur + 1)) := by
  rw [labelsLoop]
  simp [next_stop hcur h0]

theorem Laid.labelsLoop {m : Mem} {st : NameState} (h : Laid m st) {size : Nat}
    (hs : st.pos ≤ size) {link : Link} {L : List Bytes}
    (hL : Spells List.isEmpty st.nodes link L) {p budget stop : Nat}
    (hp : LinkAt m st.pos st.addrs p link) (hb : L.length < budget) :
    WlrRemote.labelsLoop m size budget p (some stop) = some (L,stop) := by
  induction hL generalizing p budget with
  | stop =>
    obtain ⟨budget,rfl⟩ := Nat.exists_eq_add_of_lt hb
    obtain ⟨hlt,h0⟩ := hp
    rw [show ([] : List Bytes).length + budget + 1 = budget + 1 by simp,
      labelsLoop_stop (by omega) h0]
    rfl
  | node hk hblank hrest ih =>
    rename_i k nd L
    obtain ⟨budget,rfl⟩ := Nat.exists_eq_add_of_lt hb
    obtain ⟨a,ha,hp⟩ := hp
    obtain ⟨hl,hlink⟩ := h.node k nd a hk ha
    have hne : nd.label ≠ [] := by simpa using hblank
    have hnext : ∃ ref, mdnsGetNextSubstring m size p = ⟨some (a + 1),nd.label.length,ref⟩ := by
      rcases hp with rfl | ⟨hp,href⟩
      · exact ⟨false,hl.next hs hne⟩
      · exact ⟨true,hl.next_ref hs h.pos_le hp href⟩
    obtain ⟨ref,hnext⟩ := hnext
    rw [labelsLoop_label hnext hl.head.2 hne]
    simp only [Option.isNone_some,Bool.and_false,Bool.false_eq_true,↓reduceIte]
    rw [ih hlink (by rw [List.length_cons]; omega)]
    rfl

theorem Laid.labelsLoop_ref {m : Mem} {st : NameState} (h : Laid m st) {size : Nat}
    (hs : st.pos ≤ size) {k a p budget : Nat} {L : List Bytes}
    (hL : Spells List.isEmpty st.nodes (.node k) L) (ha : st.addrs[k]? = some a)
    (hp : p + 2 ≤ st.pos) (href : m.read p 2 = refBytes a) (hb : L.length < budget) :
    WlrRemote.labelsLoop m size budget p none = some (L,p + 2) := by
  cases hL with
  | node hk hblank hrest =>
    rename_i nd L
    obtain ⟨budget,rfl⟩ := Nat.exists_eq_add_of_lt hb
    obtain ⟨hl,hlink⟩ := h.node k nd a hk ha
    have hne : nd.label ≠ [] := by simpa using hblank
    rw [labelsLoop_label (hl.next_ref hs h.pos_le hp href) hl.head.2 hne]
    simp only [Option.isNone_none,Bool.and_self,↓reduceIte]
    rw [h.labelsLoop hs hrest hlink (by rw [List.length_cons]; omega)]
    rfl

theorem OpenAt.labelsLoop {m : Mem} {limit size p : Nat} {cur : List Bytes}
    (h : OpenAt m limit p cur) (hs : limit ≤ size) (hne : ∀ l ∈ cur, l ≠ []) (budget : Nat)
    (stop : Option Nat) :
    WlrRemote.labelsLoop m size (cur.length + budget) p stop =
      (WlrRemote.labelsLoop m size budget (p + (labelsBytes cur).length) stop).map fun name =>
        (cur ++ name.1,name.2) := by
  induction cur generalizing p with
  | nil => simp [labelsBytes]
  | cons l ls ih =>
    obtain ⟨hl,hls⟩ := h.cons
    have hlne := hne l List.mem_cons_self
    have hpos : p + (labelsBytes (l :: ls)).length =
        p + 1 + l.length + (labelsBytes ls).length := by
      rw [length_labelsBytes_cons]
      omega
    rw [List.length_cons,show ls.length + 1 + budget = ls.length + budget + 1 by omega,
      labelsLoop_label (hl.next hs hlne) hl.head.2 hlne]
    simp only [Bool.false_and,Bool.false_eq_true,↓reduceIte]
    rw [ih hls (fun k hk => hne k (List.mem_cons_of_mem l hk)),hpos,Option.map_map]
    rfl

theorem Laid.labelsLoop_open {m : Mem} {st : NameState} (h : Laid m st) {size : Nat}
    (hs : st.pos ≤ size) {link : Link} {cur tail : List Bytes} {p budget : Nat}
    (hopen : OpenAt m st.pos p cur) (hcur : ∀ l ∈ cur, l ≠ [])
    (htail : Spells List.isEmpty st.nodes link tail)
    (hend : p + (labelsBytes cur).length + (linkBytes st.addrs link).length ≤ st.pos)
    (hlink : m.read (p + (labelsBytes cur).length) (linkBytes st.addrs link).length =
      linkBytes st.addrs link)
    (hb : cur.length + tail.length < budget) :
    WlrRemote.labelsLoop m size budget p none =
      some (cur ++ tail,p + (labelsBytes cur).length + (linkBytes st.addrs link).length) := by
  obtain ⟨budget,rfl⟩ := Nat.exists_eq_add_of_lt hb
  rw [show cur.length + tail.length + budget + 1 = cur.length + (tail.length + budget + 1) by omega,
    hopen.labelsLoop hs hcur]
  cases link with
  | stop =>
    cases htail
    have h0 : m (p + (labelsBytes cur).length) = 0 := by
      have hread : m.read (p + (labelsBytes cur).length) 1 = [0] := hlink
      rw [Mem.read_succ] at hread
      exact (List.cons.inj hread).1
    have hlt : p + (labelsBytes cur).length + 1 ≤ st.pos := hend
    rw [labelsLoop_stop (by omega) h0]
    rfl
  | node k =>
    have hk : k < st.addrs.length := by
      cases htail with
      | node hk _ _ =>
        rw [h.length]
        exact (List.getElem?_eq_some_iff.mp hk).1
    have ha : st.addrs.getD k 0 = st.addrs[k] := by
      rw [List.getD_eq_getElem?_getD,List.getElem?_eq_getElem hk]
      rfl
    rw [linkBytes,ha] at hlink hend ⊢
    rw [h.labelsLoop_ref hs htail (List.getElem?_eq_getElem hk) hend hlink (by omega)]
    rfl

/-- A name that spells its labels is read back, and its end found. -/
theorem Laid.labelsAt {m : Mem} {st : NameState} (h : Laid m st) {name : Bytes}
    {cur tail : List Bytes} {link : Link} (hname : name.length < 192)
    (hspell : st.spelling name = some (cur,link))
    (hread : m.read st.pos (st.nameBytes cur link).length = st.nameBytes cur link)
    (hpos : (st.add cur link).pos ≤ 0x4000) (hlabels : nameLabels name = cur ++ tail)
    (htail : Spells List.isEmpty st.nodes link tail) (hblank : ∀ l ∈ nameLabels name, l ≠ [])
    {size : Nat} (hs : (st.add cur link).pos ≤ size)
    (hbudget : (nameLabels name).length ≤ mdnsMaxSubstrings) :
    WlrRemote.labelsAt m size st.pos = some (nameLabels name,(st.add cur link).pos) := by
  have hlaid := h.spelling hname hspell hread hpos
  have hend : (st.add cur link).pos = st.pos + (labelsBytes cur).length +
      (linkBytes (st.add cur link).addrs link).length := by
    simp [NameState.add,NameState.nameBytes,Nat.add_assoc]
  rw [NameState.nameBytes,List.length_append,Mem.read_add] at hread
  obtain ⟨hcurRead,hlinkRead⟩ := List.append_inj hread (by simp)
  have hopen : OpenAt m (st.add cur link).pos st.pos cur := by
    refine ⟨fun l hl => ?_,by omega,hcurRead⟩
    exact short_of_mem_nameLabels hname (by rw [hlabels]; exact List.mem_append_left tail hl)
  rw [hlabels] at hblank hbudget ⊢
  rw [List.length_append] at hbudget
  rw [WlrRemote.labelsAt,hlaid.labelsLoop_open hs hopen
    (fun l hl => hblank l (List.mem_append_left tail hl)) (htail.append _) (by omega) hlinkRead
    (by omega),hend]

theorem Laid.extract {m : Mem} {st : NameState} (h : Laid m st) {name : Bytes}
    {cur tail : List Bytes} {link : Link} (hname : name.length < 192)
    (hspell : st.spelling name = some (cur,link))
    (hread : m.read st.pos (st.nameBytes cur link).length = st.nameBytes cur link)
    (hpos : (st.add cur link).pos ≤ 0x4000) (hlabels : nameLabels name = cur ++ tail)
    (htail : Spells List.isEmpty st.nodes link tail) (hblank : ∀ l ∈ nameLabels name, l ≠ [])
    {size capacity : Nat} (hs : (st.add cur link).pos ≤ size)
    (hbudget : (nameLabels name).length ≤ mdnsMaxSubstrings)
    (hcap : (dotted (nameLabels name)).length ≤ capacity) :
    mdnsStringExtract m size st.pos capacity =
      some (dotted (nameLabels name),(st.add cur link).pos) := by
  rw [mdnsStringExtract_labels,h.labelsAt hname hspell hread hpos hlabels htail hblank hs hbudget,
    Option.map_some,List.take_of_length_le hcap]

end WlrRemote
