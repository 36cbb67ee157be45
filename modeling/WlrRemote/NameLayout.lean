import WlrRemote.MdnsString
import WlrRemote.SuffixTable

/-!
Names as lists of labels, and how the labels of the names of a message lie in
memory: a table search reads there what the suffix search on labels decides.
-/

set_option autoImplicit false

namespace WlrRemote
open Octets SuffixTable

/-- The labels that dots separate. A dot at the end ends the last label. -/
def labels : Bytes → List Bytes
  | [] => []
  | c :: cs =>
    if c = dot then [] :: labels cs
    else
      match labels cs with
      | [] => [[c]]
      | l :: ls => (c :: l) :: ls

def dotted (ls : List Bytes) : Bytes := ls.flatMap (· ++ [dot])

/-- The labels of a name as it is written: one dot at the end does not count. -/
def nameLabels (name : Bytes) : List Bytes :=
  labels (if name.getLast? = some dot then name.dropLast else name)

theorem labels_ne_nil {t : Bytes} (h : t ≠ []) : labels t ≠ [] := by
  cases t with
  | nil => contradiction
  | cons c cs =>
    unfold labels
    split
    · simp
    · split <;> simp

theorem labels_of_no_dot {l : Bytes} (h : l ≠ []) (hd : dot ∉ l) : labels l = [l] := by
  induction l with
  | nil => contradiction
  | cons c cs ih =>
    simp only [List.mem_cons,not_or] at hd
    cases cs with
    | nil => simp [labels,Ne.symm hd.1]
    | cons c' cs =>
      have hrec := ih (by simp) hd.2
      rw [labels,if_neg (Ne.symm hd.1),hrec]

theorem labels_append_dot (h t : Bytes) :
    labels (h ++ dot :: t) = labels (h ++ [dot]) ++ labels t := by
  induction h with
  | nil => simp [labels]
  | cons c cs ih =>
    by_cases hc : c = dot
    · simp only [List.cons_append,labels,hc,↓reduceIte,ih]
    · have hne : labels (cs ++ [dot]) ≠ [] := labels_ne_nil (by simp)
      simp only [List.cons_append,labels,hc,↓reduceIte,ih]
      cases hl : labels (cs ++ [dot]) with
      | nil => contradiction
      | cons l ls => simp

theorem labels_dot {l : Bytes} (hd : dot ∉ l) (t : Bytes) :
    labels (l ++ dot :: t) = l :: labels t := by
  induction l with
  | nil => simp [labels]
  | cons c cs ih =>
    simp only [List.mem_cons,not_or] at hd
    have hrec := ih hd.2
    simp only [List.cons_append,labels,Ne.symm hd.1,↓reduceIte,hrec]

theorem dotted_labels {t : Bytes} (hlast : t.getLast? ≠ some dot) (h : t ≠ []) :
    dotted (labels t) = t ++ [dot] := by
  induction t with
  | nil => contradiction
  | cons c cs ih =>
    cases cs with
    | nil =>
      have hc : c ≠ dot := by simpa using hlast
      simp [labels,hc,dotted]
    | cons c' cs =>
      have hrec := ih (by simpa using hlast) (by simp)
      by_cases hc : c = dot
      · rw [labels,if_pos hc,dotted,List.flatMap_cons]
        rw [dotted] at hrec
        rw [hrec,hc]
        rfl
      · rw [labels,if_neg hc]
        cases hl : labels (c' :: cs) with
        | nil => exact absurd hl (labels_ne_nil (by simp))
        | cons l ls =>
          rw [hl] at hrec
          simp only [dotted,List.flatMap_cons] at hrec ⊢
          rw [List.cons_append,List.cons_append,hrec]
          rfl

def firstLength (t : Bytes) : Nat := (t.idxOf? dot).getD t.length

theorem firstLength_le (t : Bytes) : firstLength t ≤ t.length := by
  unfold firstLength
  cases hi : t.idxOf? dot with
  | none => simp
  | some q =>
    have hq := (List.idxOf?_eq_some_iff.mp hi).1
    simp only [Option.getD_some]
    omega

theorem labels_eq {t : Bytes} (h : t ≠ []) :
    labels t = t.take (firstLength t) :: labels (t.drop (firstLength t + 1)) := by
  unfold firstLength
  cases hi : t.idxOf? dot with
  | none =>
    have hd : dot ∉ t := by simpa using hi
    have hdrop : t.drop (t.length + 1) = [] := List.drop_eq_nil_of_le (by omega)
    simp [labels_of_no_dot h hd,hdrop,labels]
  | some q =>
    obtain ⟨hq,heq,hbefore⟩ := List.idxOf?_eq_some_iff.mp hi
    have hsplit : t = t.take q ++ dot :: t.drop (q + 1) := by
      have hdrop := List.drop_eq_getElem_cons hq
      rw [show t[q] = dot by simpa using heq] at hdrop
      rw [← hdrop,List.take_append_drop]
    have hd : dot ∉ t.take q := by
      intro hmem
      obtain ⟨i,hi,hdot⟩ := List.mem_iff_getElem.mp hmem
      rw [List.length_take] at hi
      rw [List.getElem_take] at hdot
      have hne := hbefore i (by omega)
      simp [hdot] at hne
    have hl := labels_dot hd (t.drop (q + 1))
    rw [← hsplit] at hl
    simpa using hl

theorem length_le_of_mem_labels {t l : Bytes} (h : l ∈ labels t) : l.length ≤ t.length := by
  induction t generalizing l with
  | nil => simp [labels] at h
  | cons c cs ih =>
    unfold labels at h
    split at h
    · rcases List.mem_cons.mp h with rfl | h
      · simp
      · have := ih h
        rw [List.length_cons]
        omega
    · split at h
      · obtain rfl := List.mem_singleton.mp h
        simp
      · rename_i l' ls hl
        rcases List.mem_cons.mp h with rfl | h
        · have := ih (l := l') (by rw [hl]; exact List.mem_cons_self)
          simpa using this
        · have := ih (l := l) (by rw [hl]; exact List.mem_cons_of_mem _ h)
          rw [List.length_cons]
          omega

def labelBytes (l : Bytes) : Bytes := UInt8.ofNat l.length :: l

def refBytes (a : Nat) : Bytes := be16 (0xC000 ||| UInt16.ofNat a)

@[simp] theorem length_labelBytes (l : Bytes) : (labelBytes l).length = l.length + 1 := rfl

@[simp] theorem length_refBytes (a : Nat) : (refBytes a).length = 2 := rfl

theorem not_stringRef {n : Nat} (h : n < 192) : mdnsIsStringRef (UInt8.ofNat n) = false := by
  have hall : ∀ n, n < 192 → mdnsIsStringRef (UInt8.ofNat n) = false := by decide +kernel
  exact hall n h

theorem stringRef {n : Nat} (h : 192 ≤ n) (h' : n < 256) :
    mdnsIsStringRef (UInt8.ofNat n) = true := by
  have hall : ∀ n, n < 64 → mdnsIsStringRef (UInt8.ofNat (192 + n)) = true := by decide +kernel
  have hn := hall (n - 192) (by omega)
  rwa [show 192 + (n - 192) = n by omega] at hn

theorem toNat_ref {a : Nat} (h : a < 0x4000) :
    (0xC000 ||| UInt16.ofNat a).toNat = 0xC000 + a := by
  have hor : 0xC000 ||| a = 0xC000 + a := (Nat.two_pow_add_eq_or_of_lt (i := 14) h 3).symm
  rw [UInt16.toNat_or,UInt16.toNat_ofNat',Nat.mod_eq_of_lt (by omega)]
  exact hor

def LabelAt (m : Mem) (limit a : Nat) (l : Bytes) : Prop :=
  l.length < 192 ∧ a + 1 + l.length ≤ limit ∧ m.read a (l.length + 1) = labelBytes l

theorem LabelAt.head {m : Mem} {limit a : Nat} {l : Bytes} (h : LabelAt m limit a l) :
    m a = UInt8.ofNat l.length ∧ m.read (a + 1) l.length = l := by
  obtain ⟨-,-,hread⟩ := h
  rw [Mem.read_succ] at hread
  exact List.cons.inj hread

theorem LabelAt.followRefs {m : Mem} {limit size a : Nat} {l : Bytes} (h : LabelAt m limit a l)
    (hs : limit ≤ size) (budget : Nat) (ref : Bool) :
    mdnsFollowRefs m size budget a ref = ⟨some (a + 1),l.length,ref⟩ := by
  have hshort := h.1
  have hwithin := h.2.1
  have hhead := h.head.1
  have hlen : (UInt8.ofNat l.length).toNat = l.length := by
    rw [UInt8.toNat_ofNat']
    omega
  have hfit : ¬ size < a + 1 + l.length := by omega
  unfold mdnsFollowRefs
  simp [hhead,not_stringRef hshort,hlen,hfit]

theorem LabelAt.next {m : Mem} {limit size a : Nat} {l : Bytes} (h : LabelAt m limit a l)
    (hs : limit ≤ size) (hl : l ≠ []) :
    mdnsGetNextSubstring m size a = ⟨some (a + 1),l.length,false⟩ := by
  have hwithin := h.2.1
  have hshort := h.1
  have hpos := List.length_pos_iff.mpr hl
  have hfit : ¬ size ≤ a := by omega
  have hne : m a ≠ 0 := by
    rw [h.head.1,Ne,← UInt8.toNat_inj,UInt8.toNat_ofNat']
    simp only [UInt8.toNat_zero]
    omega
  simp [mdnsGetNextSubstring,hfit,hne,h.followRefs hs]

theorem LabelAt.next_blank {m : Mem} {limit size a : Nat} (h : LabelAt m limit a [])
    (hs : limit ≤ size) : mdnsGetNextSubstring m size a = ⟨some a,0,false⟩ := by
  have hwithin := h.2.1
  have hfit : ¬ size ≤ a := by simp at hwithin; omega
  have hzero : m a = 0 := h.head.1
  simp [mdnsGetNextSubstring,hfit,hzero]

theorem LabelAt.next_ref {m : Mem} {limit size a p : Nat} {l : Bytes} (h : LabelAt m limit a l)
    (hs : limit ≤ size) (ha : limit ≤ 0x4000) (hp : p + 2 ≤ limit)
    (href : m.read p 2 = refBytes a) :
    mdnsGetNextSubstring m size p = ⟨some (a + 1),l.length,true⟩ := by
  have hwithin := h.2.1
  have hfit : ¬ size ≤ p := by omega
  have hfit' : ¬ size < p + 2 := by omega
  have hval := toNat_ref (a := a) (by omega)
  have hbe : m.be16 p = 0xC000 ||| UInt16.ofNat a := Mem.be16_of_read href
  have htarget : (m.be16 p).toNat % 0x4000 = a := by
    rw [hbe,hval]
    omega
  have hhead : m p = UInt8.ofNat ((0xC000 + a) / 256) := by
    rw [Mem.read_succ] at href
    have hb := (List.cons.inj href).1
    rw [hb,hval]
  have hisref : mdnsIsStringRef (m p) = true := by
    rw [hhead]
    exact stringRef (by omega) (by omega)
  have hne : m p ≠ 0 := by
    intro h0
    rw [h0] at hisref
    revert hisref
    decide
  have hfit'' : ¬ size ≤ a := by omega
  rw [mdnsGetNextSubstring,if_neg hfit,if_neg hne,mdnsFollowRefs]
  simp [hisref,hfit',htarget,hfit'',h.followRefs hs]

theorem next_stop {m : Mem} {size p : Nat} (hp : p < size) (h0 : m p = 0) :
    mdnsGetNextSubstring m size p = ⟨some p,0,false⟩ := by
  have hfit : ¬ size ≤ p := by omega
  simp [mdnsGetNextSubstring,hfit,h0]

/-- The labels written so far as nodes, the address of each, and how far the message
has come. -/
structure NameState where
  nodes : List (Node Bytes)
  addrs : List Nat
  pos : Nat

/-- Memory goes on at `p` as the link says: a zero byte, the label itself, or a
reference to it. -/
def LinkAt (m : Mem) (limit : Nat) (addrs : List Nat) (p : Nat) : Link → Prop
  | .stop => p < limit ∧ m p = 0
  | .node k => ∃ a, addrs[k]? = some a ∧ (p = a ∨ (p + 2 ≤ limit ∧ m.read p 2 = refBytes a))

def NodeAt (m : Mem) (limit : Nat) (addrs : List Nat) (a : Nat) (nd : Node Bytes) : Prop :=
  LabelAt m limit a nd.label ∧ LinkAt m limit addrs (a + 1 + nd.label.length) nd.next

structure Laid (m : Mem) (st : NameState) : Prop where
  pos_le : st.pos ≤ 0x4000
  length : st.addrs.length = st.nodes.length
  node : ∀ (k : Nat) (nd : Node Bytes) (a : Nat), st.nodes[k]? = some nd → st.addrs[k]? = some a →
    NodeAt m st.pos st.addrs a nd

theorem LabelAt.mono {m m' : Mem} {n n' a : Nat} {l : Bytes} (h : LabelAt m n a l)
    (hm : AgreeBelow n m m') (hn : n ≤ n') : LabelAt m' n' a l := by
  obtain ⟨hshort,hwithin,hread⟩ := h
  exact ⟨hshort,by omega,by rw [← hm.read (by omega),hread]⟩

theorem LinkAt.mono {m m' : Mem} {n n' p : Nat} {addrs : List Nat} {link : Link}
    (h : LinkAt m n addrs p link) (hm : AgreeBelow n m m') (hn : n ≤ n') (more : List Nat) :
    LinkAt m' n' (addrs ++ more) p link := by
  cases link with
  | stop => exact ⟨by have := h.1; omega,by rw [← hm p h.1]; exact h.2⟩
  | node k =>
    obtain ⟨a,ha,hp⟩ := h
    refine ⟨a,?_,?_⟩
    · rw [List.getElem?_append_left (List.getElem?_eq_some_iff.mp ha).1]
      exact ha
    · rcases hp with hp | ⟨hp,href⟩
      · exact Or.inl hp
      · exact Or.inr ⟨by omega,by rw [← hm.read (by omega),href]⟩

theorem NodeAt.mono {m m' : Mem} {n n' a : Nat} {addrs : List Nat} {nd : Node Bytes}
    (h : NodeAt m n addrs a nd) (hm : AgreeBelow n m m') (hn : n ≤ n') (more : List Nat) :
    NodeAt m' n' (addrs ++ more) a nd :=
  ⟨h.1.mono hm hn,h.2.mono hm hn more⟩

theorem Laid.congr {m m' : Mem} {st : NameState} (h : Laid m st) (hm : AgreeBelow st.pos m m') :
    Laid m' st := by
  obtain ⟨hpos,hlen,hnode⟩ := h
  refine ⟨hpos,hlen,fun k nd a hk ha => ?_⟩
  simpa using (hnode k nd a hk ha).mono hm (Nat.le_refl _) []

def NameState.skip (st : NameState) (n : Nat) : NameState := { st with pos := st.pos + n }

theorem Laid.skip {m : Mem} {st : NameState} (h : Laid m st) {n : Nat}
    (hn : st.pos + n ≤ 0x4000) : Laid m (st.skip n) := by
  obtain ⟨hpos,hlen,hnode⟩ := h
  refine ⟨hn,hlen,fun k nd a hk ha => ?_⟩
  have hle : st.pos ≤ st.pos + n := by omega
  simpa [NameState.skip] using (hnode k nd a hk ha).mono (.refl _ m) hle []

def readsOn (buffer : Mem) (capacity : Nat) : Nat → List Bytes → Bool
  | _, [] => true
  | cur, l :: ls =>
    let subString := mdnsGetNextSubstring buffer capacity cur
    match subString.offset with
    | none => false
    | some at_ =>
      decide (subString.length ≠ 0) && decide (subString.length = l.length) &&
        decide (buffer.read at_ l.length = l) && readsOn buffer capacity (at_ + l.length) ls

theorem readsOn_label {m : Mem} {limit size a p : Nat} {l : Bytes} {ref : Bool}
    (hl : LabelAt m limit a l) (hne : l ≠ [])
    (hnext : mdnsGetNextSubstring m size p = ⟨some (a + 1),l.length,ref⟩) (s : Bytes)
    (ss : List Bytes) : readsOn m size p (s :: ss) =
      (decide (l = s) && readsOn m size (a + 1 + l.length) ss) := by
  have hpos := List.length_pos_iff.mpr hne
  have hread := hl.head.2
  simp only [readsOn,hnext]
  by_cases hlen : l.length = s.length
  · rw [← hlen,hread]
    simp [Nat.ne_of_gt hpos]
  · have hls : l ≠ s := fun h => hlen (by rw [h])
    simp [hlen,hls]

theorem readsOn_empty {m : Mem} {size p a : Nat} {ref : Bool}
    (hnext : mdnsGetNextSubstring m size p = ⟨some a,0,ref⟩) (s : Bytes) (ss : List Bytes) :
    readsOn m size p (s :: ss) = false := by
  simp [readsOn,hnext]

/-- On a finished name the memory holds what the list of nodes says. -/
theorem Laid.readsOn_link {m : Mem} {st : NameState} (h : Laid m st) {size : Nat}
    (hs : st.pos ≤ size) {p : Nat} {link : Link} (hp : LinkAt m st.pos st.addrs p link)
    (s : List Bytes) : readsOn m size p s = follows List.isEmpty st.nodes link s := by
  induction s generalizing p link with
  | nil => cases link <;> simp [readsOn,follows]
  | cons s ss ih =>
    cases link with
    | stop => rw [readsOn_empty (next_stop (by have := hp.1; omega) hp.2)]; rfl
    | node k =>
      obtain ⟨a,ha,hp⟩ := hp
      have hk : k < st.nodes.length := by
        rw [← h.length]
        exact (List.getElem?_eq_some_iff.mp ha).1
      have hnd := List.getElem?_eq_getElem hk
      obtain ⟨hl,hlink⟩ := h.node k _ a hnd ha
      have hnext : mdnsGetNextSubstring m size p = ⟨some (a + 1),st.nodes[k].label.length,true⟩ ∨
          mdnsGetNextSubstring m size p = ⟨some (a + 1),st.nodes[k].label.length,false⟩ ∨
          (st.nodes[k].label = [] ∧ mdnsGetNextSubstring m size p = ⟨some a,0,false⟩) := by
        rcases hp with rfl | ⟨hp,href⟩
        · by_cases hb : st.nodes[k].label = []
          · rw [hb] at hl
            exact Or.inr (Or.inr ⟨hb,hl.next_blank hs⟩)
          · exact Or.inr (Or.inl (hl.next hs hb))
        · exact Or.inl (hl.next_ref hs h.pos_le hp href)
      simp only [follows,hnd]
      by_cases hb : st.nodes[k].label = []
      · have hfalse : readsOn m size p (s :: ss) = false := by
          rcases hnext with hn | hn | ⟨-,hn⟩
          · rw [hb] at hn
            exact readsOn_empty hn s ss
          · rw [hb] at hn
            exact readsOn_empty hn s ss
          · exact readsOn_empty hn s ss
        rw [hfalse,hb]
        by_cases hse : s = []
        · simp [hse]
        · simp [Ne.symm hse]
      · have hread : readsOn m size p (s :: ss) = (decide (st.nodes[k].label = s) &&
            readsOn m size (a + 1 + st.nodes[k].label.length) ss) := by
          rcases hnext with hn | hn | ⟨hb',-⟩
          · exact readsOn_label hl hb hn s ss
          · exact readsOn_label hl hb hn s ss
          · contradiction
        rw [hread,ih hlink]
        by_cases hse : st.nodes[k].label = s
        · have hsb : s.isEmpty = false := by
            rw [← hse]
            simpa using hb
          simp [hse,hsb]
        · simp [hse]

def labelsBytes (ls : List Bytes) : Bytes := ls.flatMap labelBytes

def labelAddrs (p : Nat) : List Bytes → List Nat
  | [] => []
  | l :: ls => p :: labelAddrs (p + 1 + l.length) ls

@[simp] theorem length_labelAddrs (p : Nat) (ls : List Bytes) :
    (labelAddrs p ls).length = ls.length := by
  induction ls generalizing p with
  | nil => rfl
  | cons l ls ih => simp [labelAddrs,ih]

theorem labelsBytes_append (ls ks : List Bytes) :
    labelsBytes (ls ++ ks) = labelsBytes ls ++ labelsBytes ks := by
  simp [labelsBytes]

theorem length_labelsBytes_cons (l : Bytes) (ls : List Bytes) :
    (labelsBytes (l :: ls)).length = 1 + l.length + (labelsBytes ls).length := by
  simp [labelsBytes,Nat.add_comm]

theorem labelAddrs_append (p : Nat) (ls ks : List Bytes) :
    labelAddrs p (ls ++ ks) = labelAddrs p ls ++ labelAddrs (p + (labelsBytes ls).length) ks := by
  induction ls generalizing p with
  | nil => simp [labelAddrs,labelsBytes]
  | cons l ls ih =>
    simp only [List.cons_append,labelAddrs,ih,length_labelsBytes_cons]
    congr 3
    omega

theorem labelAddrs_getElem? {p : Nat} {ls : List Bytes} {i : Nat} (hi : i < ls.length) :
    (labelAddrs p ls)[i]? = some (p + (labelsBytes (ls.take i)).length) := by
  have hsplit := labelAddrs_append p (ls.take i) (ls.drop i)
  rw [List.take_append_drop] at hsplit
  have hlen : (labelAddrs p (ls.take i)).length = i := by
    rw [length_labelAddrs,List.length_take]
    omega
  rw [hsplit,List.getElem?_append_right (by omega),hlen,Nat.sub_self,
    List.drop_eq_getElem_cons hi]
  rfl

def OpenAt (m : Mem) (limit p : Nat) (cur : List Bytes) : Prop :=
  (∀ l ∈ cur, l.length < 192) ∧ p + (labelsBytes cur).length ≤ limit ∧
    m.read p (labelsBytes cur).length = labelsBytes cur

theorem OpenAt.cons {m : Mem} {limit p : Nat} {l : Bytes} {ls : List Bytes}
    (h : OpenAt m limit p (l :: ls)) :
    LabelAt m limit p l ∧ OpenAt m limit (p + 1 + l.length) ls := by
  obtain ⟨hshort,hwithin,hread⟩ := h
  rw [length_labelsBytes_cons] at hwithin hread
  rw [Nat.add_comm 1 l.length,Mem.read_add] at hread
  obtain ⟨hhead,htail⟩ := List.append_inj hread (by simp)
  refine ⟨⟨hshort l List.mem_cons_self,by omega,hhead⟩,
    fun k hk => hshort k (List.mem_cons_of_mem l hk),by omega,?_⟩
  rw [show p + 1 + l.length = p + (l.length + 1) by omega]
  exact htail

theorem OpenAt.append_iff {m : Mem} {limit p : Nat} {ls ks : List Bytes} :
    OpenAt m limit p (ls ++ ks) ↔ OpenAt m limit p ls ∧
      OpenAt m limit (p + (labelsBytes ls).length) ks := by
  unfold OpenAt
  rw [labelsBytes_append,List.length_append,Mem.read_add]
  constructor
  · intro ⟨hshort,hwithin,hread⟩
    obtain ⟨hls,hks⟩ := List.append_inj hread (by simp)
    exact ⟨⟨fun l hl => hshort l (List.mem_append_left ks hl),by omega,hls⟩,
      fun l hl => hshort l (List.mem_append_right ls hl),by omega,hks⟩
  · intro ⟨⟨hs₁,hw₁,hr₁⟩,hs₂,hw₂,hr₂⟩
    refine ⟨fun l hl => ?_,by omega,by rw [hr₁,hr₂]⟩
    rcases List.mem_append.mp hl with hl | hl
    · exact hs₁ l hl
    · exact hs₂ l hl

/-- Of a name being written, memory decides only past its end. -/
theorem OpenAt.readsOn {m : Mem} {limit size p : Nat} {cur : List Bytes}
    (h : OpenAt m limit p cur) (hs : limit ≤ size) (s : List Bytes) :
    readsOn m size p s =
      match followsOpen List.isEmpty cur s with
      | .hit => true
      | .miss => false
      | .beyond => WlrRemote.readsOn m size (p + (labelsBytes cur).length) (s.drop cur.length) := by
  induction cur generalizing p s with
  | nil =>
    cases s with
    | nil => simp [WlrRemote.readsOn,followsOpen]
    | cons s ss => simp [followsOpen,labelsBytes]
  | cons c cs ih =>
    cases s with
    | nil => simp [WlrRemote.readsOn,followsOpen]
    | cons s ss =>
      obtain ⟨hl,hcs⟩ := h.cons
      by_cases hb : c = []
      · subst hb
        rw [readsOn_empty (hl.next_blank hs)]
        by_cases hse : s = []
        · simp [followsOpen,hse]
        · simp [followsOpen,Ne.symm hse]
      · rw [readsOn_label hl hb (hl.next hs hb),ih hcs]
        by_cases hse : c = s
        · subst hse
          have hsb : c.isEmpty = false := by simpa using hb
          have hadd : p + 1 + c.length + (labelsBytes cs).length =
              p + (labelsBytes (c :: cs)).length := by
            rw [length_labelsBytes_cons]
            omega
          simp [followsOpen,hsb,hadd]
        · simp [followsOpen,hse]

def linkBytes (addrs : List Nat) : Link → Bytes
  | .stop => [0]
  | .node k => refBytes (addrs.getD k 0)

def NameState.nameBytes (st : NameState) (cur : List Bytes) (link : Link) : Bytes :=
  labelsBytes cur ++ linkBytes (st.addrs ++ labelAddrs st.pos cur) link

def NameState.add (st : NameState) (cur : List Bytes) (link : Link) : NameState where
  nodes := st.nodes ++ chain st.nodes.length cur link
  addrs := st.addrs ++ labelAddrs st.pos cur
  pos := st.pos + (st.nameBytes cur link).length

theorem length_linkBytes_pos (addrs : List Nat) (link : Link) :
    0 < (linkBytes addrs link).length := by
  cases link <;> simp [linkBytes]

theorem length_labelsBytes_take {ls : List Bytes} {i : Nat} (hi : i < ls.length) :
    (labelsBytes (ls.take (i + 1))).length =
      (labelsBytes (ls.take i)).length + 1 + ls[i].length := by
  rw [List.take_succ_eq_append_getElem hi,labelsBytes_append,List.length_append]
  simp [labelsBytes]
  omega

theorem OpenAt.labelAt {m : Mem} {limit p : Nat} {cur : List Bytes} (h : OpenAt m limit p cur)
    {i : Nat} (hi : i < cur.length) :
    LabelAt m limit (p + (labelsBytes (cur.take i)).length) cur[i] := by
  rw [← List.take_append_drop i cur,OpenAt.append_iff,List.drop_eq_getElem_cons hi] at h
  exact h.2.cons.1

theorem linkAt_of_read {m : Mem} {limit p : Nat} {addrs : List Nat} {link : Link}
    (hlink : ∀ k, link = .node k → k < addrs.length)
    (hlimit : p + (linkBytes addrs link).length ≤ limit)
    (hread : m.read p (linkBytes addrs link).length = linkBytes addrs link) :
    LinkAt m limit addrs p link := by
  cases link with
  | stop =>
    rw [linkBytes] at hread
    have h0 : m.read p 1 = [0] := hread
    rw [Mem.read_succ] at h0
    have hl : p + 1 ≤ limit := hlimit
    exact ⟨by omega,(List.cons.inj h0).1⟩
  | node k =>
    have hk := hlink k rfl
    have ha : addrs.getD k 0 = addrs[k] := by
      rw [List.getD_eq_getElem?_getD,List.getElem?_eq_getElem hk]
      rfl
    rw [linkBytes,ha] at hread
    exact ⟨addrs[k],List.getElem?_eq_getElem hk,Or.inr ⟨hlimit,hread⟩⟩

theorem Laid.add {m : Mem} {st : NameState} (h : Laid m st) {cur : List Bytes} {link : Link}
    (hshort : ∀ l ∈ cur, l.length < 192)
    (hlink : ∀ k, link = .node k → k < st.nodes.length + cur.length)
    (hread : m.read st.pos (st.nameBytes cur link).length = st.nameBytes cur link)
    (hpos : (st.add cur link).pos ≤ 0x4000) : Laid m (st.add cur link) := by
  have hlen : (st.add cur link).addrs.length = st.nodes.length + cur.length := by
    simp [NameState.add,h.length]
  have hend : (st.add cur link).pos = st.pos + (labelsBytes cur).length +
      (linkBytes (st.addrs ++ labelAddrs st.pos cur) link).length := by
    simp [NameState.add,NameState.nameBytes,Nat.add_assoc]
  rw [NameState.nameBytes,List.length_append,Mem.read_add] at hread
  obtain ⟨hlabels,hrest⟩ := List.append_inj hread (by simp)
  have hopen : OpenAt m (st.add cur link).pos st.pos cur := ⟨hshort,by omega,hlabels⟩
  have hlinkAt : LinkAt m (st.add cur link).pos (st.add cur link).addrs
      (st.pos + (labelsBytes cur).length) link :=
    linkAt_of_read (fun k hk => by rw [hlen]; exact hlink k hk) (by rw [hend]; rfl) hrest
  have haddr : ∀ i, i < cur.length → (st.add cur link).addrs[st.nodes.length + i]? =
      some (st.pos + (labelsBytes (cur.take i)).length) := by
    intro i hi
    rw [NameState.add,List.getElem?_append_right (by rw [h.length]; omega),h.length,
      Nat.add_sub_cancel_left]
    exact labelAddrs_getElem? hi
  refine ⟨hpos,by rw [hlen]; simp [NameState.add],fun k nd a hk ha => ?_⟩
  by_cases hold : k < st.nodes.length
  · rw [NameState.add,List.getElem?_append_left hold] at hk
    rw [NameState.add,List.getElem?_append_left (by rw [h.length]; omega)] at ha
    exact (h.node k nd a hk ha).mono (.refl _ m) (by omega) _
  · obtain ⟨i,rfl⟩ := Nat.exists_eq_add_of_le (Nat.le_of_not_lt hold)
    have hi : i < cur.length := by
      have hlt := (List.getElem?_eq_some_iff.mp ha).1
      omega
    rw [haddr i hi] at ha
    obtain rfl := Option.some.inj ha
    rw [NameState.add,List.getElem?_append_right (by omega),Nat.add_sub_cancel_left,
      chain_getElem? _ _ _ _ _ (List.getElem?_eq_getElem hi)] at hk
    obtain rfl := Option.some.inj hk
    have hnext : st.pos + (labelsBytes (cur.take i)).length + 1 + cur[i].length =
        st.pos + (labelsBytes (cur.take (i + 1))).length := by
      rw [length_labelsBytes_take hi]
      omega
    refine ⟨hopen.labelAt hi,?_⟩
    simp only [hnext]
    split
    · rename_i hlt
      exact ⟨_,haddr (i + 1) hlt,Or.inl rfl⟩
    · rw [List.take_of_length_le (by omega)]
      exact hlinkAt

end WlrRemote
