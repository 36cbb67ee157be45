import WlrRemote.QueryRoundTrip
import Mathlib.Data.List.Forall2
import Mathlib.Data.List.TakeWhile

/-!
What the readers of names have in common: they all walk the same labels, to the same end.
Skipping a name finds that end, extracting it writes the labels down, and comparing two
names compares the labels.
-/

set_option autoImplicit false

namespace WlrRemote
open Octets

theorem mdnsFollowRefs_short {m : Mem} {size budget offset : Nat} {ref : Bool} {a : Nat}
    (h : (mdnsFollowRefs m size budget offset ref).offset = some a) :
    (mdnsFollowRefs m size budget offset ref).length < 192 := by
  fun_induction mdnsFollowRefs m size budget offset ref with
  | case1 | case2 | case3 | case5 => contradiction
  | case4 =>
    rename_i ih
    exact ih h
  | case6 =>
    rename_i offset _ his _ _
    have hlt := (m offset).toNat_lt
    by_contra hlong
    have href : mdnsIsStringRef (UInt8.ofNat (m offset).toNat) = true :=
      stringRef (Nat.le_of_not_lt hlong) hlt
    rw [UInt8.ofNat_toNat] at href
    exact his href

theorem mdnsGetNextSubstring_short {m : Mem} {size offset a : Nat}
    (h : (mdnsGetNextSubstring m size offset).offset = some a) :
    (mdnsGetNextSubstring m size offset).length < 192 := by
  unfold mdnsGetNextSubstring at h ⊢
  by_cases hin : size ≤ offset
  · simp [hin] at h
  · by_cases hzero : m offset = 0
    · simp [hin,hzero]
    · simp only [hin,hzero,↓reduceIte] at h ⊢
      exact mdnsFollowRefs_short h

theorem labelsLoop_bounds {m : Mem} {size budget cur : Nat} {stop : Option Nat}
    {name : List Bytes × Nat} (h : labelsLoop m size budget cur stop = some name) :
    name.1.length < budget ∧ ∀ l ∈ name.1, l ≠ [] ∧ l.length < 192 := by
  induction budget generalizing cur stop name with
  | zero => contradiction
  | succ budget ih =>
    rw [labelsLoop] at h
    cases ha : (mdnsGetNextSubstring m size cur).offset with
    | none => simp [ha] at h
    | some a =>
      have hshort := mdnsGetNextSubstring_short ha
      simp only [ha] at h
      by_cases hzero : (mdnsGetNextSubstring m size cur).length = 0
      · simp only [hzero,↓reduceIte,Option.some.injEq] at h
        subst h
        simp
      · simp only [hzero,↓reduceIte] at h
        obtain ⟨rest,hrest,rfl⟩ := Option.map_eq_some_iff.mp h
        obtain ⟨hcount,hlabels⟩ := ih hrest
        refine ⟨by simp only [List.length_cons]; omega,fun l hl => ?_⟩
        rcases List.mem_cons.mp hl with rfl | hl
        · exact ⟨fun hnil => hzero (by simpa using congrArg List.length hnil),by simpa using hshort⟩
        · exact hlabels l hl

theorem mdnsStringSkip_labels {m : Mem} {size offset : Nat} {name : List Bytes × Nat}
    (h : labelsAt m size offset = some name) : mdnsStringSkip m size offset = some name.2 := by
  have hextract := mdnsStringExtract_labels m size offset 0
  rw [h] at hextract
  exact mdnsStringSkip_of_extract hextract

/-- Labels of one length with the same letters up to case, as far as C reads a string. -/
def SameLabel (l r : Bytes) : Prop :=
  l.length = r.length ∧
    (l.takeWhile (· ≠ 0)).map asciiLower = (r.takeWhile (· ≠ 0)).map asciiLower

instance (l r : Bytes) : Decidable (SameLabel l r) := inferInstanceAs (Decidable (_ ∧ _))

theorem asciiLower_eq_zero {b : UInt8} : asciiLower b = 0 ↔ b = 0 := by
  unfold asciiLower
  split
  · rename_i hb
    simp only [UInt8.le_iff_toNat_le,← UInt8.toNat_inj,UInt8.toNat_add] at hb ⊢
    simp only [UInt8.reduceToNat] at hb ⊢
    omega
  · rfl

theorem strncasecmpEqual_iff {l r : Bytes} (h : l.length = r.length) :
    strncasecmpEqual r l = true ↔ SameLabel l r := by
  induction l generalizing r with
  | nil =>
    obtain rfl := List.length_eq_zero_iff.mp h.symm
    simp [strncasecmpEqual,SameLabel]
  | cons a l ih =>
    cases r with
    | nil => contradiction
    | cons b r =>
      have hlen := Nat.succ.inj h
      have hrest := ih hlen
      simp only [SameLabel,hlen,true_and] at hrest
      simp only [SameLabel,strncasecmpEqual,h,true_and,Bool.and_eq_true,Bool.or_eq_true,beq_iff_eq,
        hrest]
      have hend : asciiLower 0 = 0 := rfl
      by_cases ha : a = 0
      · by_cases hb : b = 0
        · simp [ha,hb]
        · simp [ha,hb,hend,asciiLower_eq_zero]
      · by_cases hb : b = 0
        · simp [ha,hb,hend,asciiLower_eq_zero,eq_comm (a := (0 : UInt8))]
        · simp [ha,hb,eq_comm (a := asciiLower b)]

def SameNames (ls rs : List Bytes) : Prop := List.Forall₂ SameLabel ls rs

instance (ls rs : List Bytes) : Decidable (SameNames ls rs) :=
  inferInstanceAs (Decidable (List.Forall₂ SameLabel ls rs))

theorem sameNames_cons {l r : Bytes} {ls rs : List Bytes} :
    SameNames (l :: ls) (r :: rs) ↔ SameLabel l r ∧ SameNames ls rs := List.forall₂_cons

theorem mdnsStringEqualLoop_labels (lhs rhs : Mem) (sizeLhs sizeRhs budget lhsCur rhsCur : Nat)
    (lhsEnd rhsEnd : Option Nat) :
    mdnsStringEqualLoop lhs sizeLhs rhs sizeRhs budget lhsCur rhsCur lhsEnd rhsEnd =
      (labelsLoop lhs sizeLhs budget lhsCur lhsEnd).bind fun l =>
        (labelsLoop rhs sizeRhs budget rhsCur rhsEnd).bind fun r =>
          if SameNames l.1 r.1 then some (l.2,r.2) else none := by
  induction budget generalizing lhsCur rhsCur lhsEnd rhsEnd with
  | zero => rfl
  | succ budget ih =>
    rw [mdnsStringEqualLoop,labelsLoop,labelsLoop]
    generalize mdnsGetNextSubstring lhs sizeLhs lhsCur = l
    generalize mdnsGetNextSubstring rhs sizeRhs rhsCur = r
    cases hl : l.offset with
    | none => rfl
    | some a =>
      cases hr : r.offset with
      | none => simp
      | some b =>
        have hlabel := strncasecmpEqual_iff (l := lhs.read a r.length) (r := rhs.read b r.length)
          (by simp)
        simp only
        by_cases hlen : l.length = r.length
        · rw [hlen]
          by_cases hzero : r.length = 0
          · simp [hzero,strncasecmpEqual,SameNames]
          · simp only [hzero,↓reduceIte,Option.bind_map,Function.comp_def,sameNames_cons]
            by_cases hsame : SameLabel (lhs.read a r.length) (rhs.read b r.length)
            · simp [hsame,hlabel.mpr hsame,ih]
            · simp [hsame,hlabel]
        · -- labels of two lengths are not the same, and no label is the end of a name
          have hdiffer : ¬ SameLabel (lhs.read a l.length) (rhs.read b r.length) := fun h =>
            hlen (by simpa using h.1)
          by_cases hzero : l.length = 0
          · have hzero' : r.length ≠ 0 := fun h => hlen (hzero.trans h.symm)
            simp [Ne.symm hzero',hzero,hzero',SameNames,Option.bind_map]
          · by_cases hzero' : r.length = 0
            · simp [hzero,hzero',SameNames,Option.bind_map]
            · simp [hlen,hzero,hzero',sameNames_cons,hdiffer,Option.bind_map]

def servicesLabels : List Bytes :=
  [ascii "_services",ascii "_dns-sd",ascii "_udp",ascii "local"]

theorem servicesLabels_at : (labelsAt mdnsServicesQueryMem mdnsServicesQuery.length 12).map Prod.fst =
    some servicesLabels := by decide +kernel

theorem sameLabel_iff {l r : Bytes} (hr : (0 : UInt8) ∉ r) :
    SameLabel l r ↔ l.map asciiLower = r.map asciiLower := by
  have hall : r.takeWhile (· ≠ 0) = r := by
    rw [List.takeWhile_eq_self_iff]
    intro b hb
    simpa using fun h : b = 0 => hr (h ▸ hb)
  unfold SameLabel
  rw [hall]
  constructor
  · rintro ⟨hlen,hsame⟩
    have hcount := congrArg List.length hsame
    rw [List.length_map,List.length_map,← hlen] at hcount
    rwa [(List.takeWhile_prefix _).eq_of_length hcount] at hsame
  · intro hsame
    have hcount := congrArg List.length hsame
    rw [List.length_map,List.length_map] at hcount
    refine ⟨hcount,?_⟩
    have hl : l.takeWhile (· ≠ 0) = l := by
      rw [List.takeWhile_eq_self_iff]
      intro b hb
      have hmem : asciiLower b ∈ r.map asciiLower := hsame ▸ List.mem_map_of_mem hb
      obtain ⟨c,hc,heq⟩ := List.mem_map.mp hmem
      simp only [ne_eq,decide_not,Bool.not_eq_true',decide_eq_false_iff_not]
      rintro rfl
      exact hr (asciiLower_eq_zero.mp (heq.trans rfl) ▸ hc)
    rw [hl,hsame]

theorem sameNames_iff {ls rs : List Bytes} (hrs : ∀ r ∈ rs, (0 : UInt8) ∉ r) :
    SameNames ls rs ↔ ls.map (·.map asciiLower) = rs.map (·.map asciiLower) := by
  induction rs generalizing ls with
  | nil => simp [SameNames]
  | cons r rs ih =>
    cases ls with
    | nil => simp [SameNames]
    | cons l ls =>
      rw [sameNames_cons,sameLabel_iff (hrs r List.mem_cons_self),
        ih fun k hk => hrs k (List.mem_cons_of_mem r hk)]
      simp

/-- A question is one for the services there are if its labels say so, in any case. -/
theorem mdnsReadQuestion_dnsSd {m : Mem} {size offset : Nat} {q : MdnsQuestion}
    (h : mdnsReadQuestion m size offset = some q) : q.dnsSd = true ↔
      ∃ name, labelsAt m size offset = some name ∧
        name.1.map (·.map asciiLower) = servicesLabels := by
  rw [mdnsReadQuestion_eq] at h
  obtain ⟨stop,-,rfl⟩ := Option.map_eq_some_iff.mp h
  obtain ⟨services,hservices,hlabels⟩ := Option.map_eq_some_iff.mp servicesLabels_at
  have hequal : mdnsStringEqual m size offset mdnsServicesQueryMem mdnsServicesQuery.length 12 = _ :=
    mdnsStringEqualLoop_labels m mdnsServicesQueryMem size mdnsServicesQuery.length _ offset 12 none
      none
  have hsame (ls : List Bytes) : SameNames ls services.1 ↔
      ls.map (·.map asciiLower) = servicesLabels := by
    rw [hlabels,sameNames_iff (by decide)]
    rfl
  rw [hequal]
  change ((labelsAt m size offset).bind fun l => (labelsAt _ _ 12).bind _).isSome = true ↔ _
  rw [hservices]
  cases labelsAt m size offset with
  | none => simp
  | some name =>
    by_cases heq : name.1.map (·.map asciiLower) = servicesLabels
    · simp [hsame,heq]
    · simp [hsame,heq]

/-- On any bytes the readers of names agree: to extract a name is to write down its labels, a
name with labels is skipped to the same end, and two names are equal if their labels are, up to
case and behind a zero byte. The listener takes a name for that of DNS-SD by its labels. -/
theorem names_read (m : Mem) (size offset : Nat) :
    (∀ capacity, mdnsStringExtract m size offset capacity =
      (labelsAt m size offset).map fun name => ((dotted name.1).take capacity,name.2)) ∧
    (∀ name, labelsAt m size offset = some name → mdnsStringSkip m size offset = some name.2 ∧
      name.1.length ≤ mdnsMaxSubstrings ∧ ∀ l ∈ name.1, l ≠ [] ∧ l.length < 192) ∧
    (∀ rhs sizeRhs ofsRhs, mdnsStringEqual m size offset rhs sizeRhs ofsRhs =
      (labelsAt m size offset).bind fun l => (labelsAt rhs sizeRhs ofsRhs).bind fun r =>
        if SameNames l.1 r.1 then some (l.2,r.2) else none) ∧
    ∀ q, mdnsReadQuestion m size offset = some q → (q.dnsSd = true ↔
      ∃ name, labelsAt m size offset = some name ∧
        name.1.map (·.map asciiLower) = servicesLabels) := by
  refine ⟨mdnsStringExtract_labels m size offset,fun name hname => ?_,fun rhs sizeRhs ofsRhs => ?_,
    fun q hq => mdnsReadQuestion_dnsSd hq⟩
  · obtain ⟨hcount,hlabels⟩ := labelsLoop_bounds hname
    exact ⟨mdnsStringSkip_labels hname,Nat.le_of_lt_succ hcount,hlabels⟩
  · exact mdnsStringEqualLoop_labels m rhs size sizeRhs _ offset ofsRhs none none

end WlrRemote
