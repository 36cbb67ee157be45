import Mathlib.Data.List.Basic
import Mathlib.Data.List.Infix
import Mathlib.Data.List.TakeDrop

/-!
Suffix sharing through a bounded circular table of earlier labels.

A name is a list of labels. A writer spells it out label by label until some
suffix of it is found among the labels written last, and then continues with a
reference. Whether the shared name is the intended one is a question about the
names alone: it does not depend on how labels are laid out in memory.
-/

set_option autoImplicit false

namespace SuffixTable

/-- How a written name goes on after a label: it ends, or at an earlier label. -/
inductive Link where
  | stop
  | node (k : Nat)
  deriving DecidableEq, Repr

structure Node (α : Type) where
  label : α
  next : Link
  deriving DecidableEq, Repr

/-- The index of the label that slot `s` holds. -/
def slot (w len s : Nat) : Nat := s + w * ((len - 1 - s) / w)

def recent (w len : Nat) : List Nat := (List.range (min w len)).map (slot w len)

theorem slot_lt {w len s : Nat} (hs : s < len) : slot w len s < len := by
  have hm := Nat.mul_div_le (len - 1 - s) w
  unfold slot; omega

theorem slot_recent {w len s : Nat} (hw : s < w) : len ≤ slot w len s + w := by
  have hm := Nat.lt_mul_div_succ (len - 1 - s) (show 0 < w by omega)
  rw [Nat.mul_add] at hm
  unfold slot; omega

theorem slot_mod {w len s : Nat} (hs : s < w) : slot w len s % w = s := by
  simp [slot,Nat.mod_eq_of_lt hs]

theorem eq_of_window {w n a b : Nat} (hm : a % w = b % w) (ha : a < n) (ha' : n ≤ a + w)
    (hb : b < n) (hb' : n ≤ b + w) : a = b := by
  have hda := Nat.mod_add_div a w
  have hdb := Nat.mod_add_div b w
  rcases Nat.lt_trichotomy (a / w) (b / w) with h | h | h
  · have := Nat.mul_le_mul_left w (Nat.succ_le_of_lt h)
    rw [Nat.mul_succ] at this; omega
  · rw [← hda,← hdb,hm,h]
  · have := Nat.mul_le_mul_left w (Nat.succ_le_of_lt h)
    rw [Nat.mul_succ] at this; omega

theorem slot_self {w k : Nat} : slot w (k + 1) (k % w) = k := by
  have hm := Nat.mod_add_div k w
  have hs : k + 1 - 1 - k % w = w * (k / w) := by omega
  rcases Nat.eq_zero_or_pos w with rfl | hw
  · simp [slot]
  · rw [slot,hs,Nat.mul_div_cancel_left _ hw]; exact hm

theorem slot_succ {w len s : Nat} (hw : s < w) (hl : s < len) (hne : s ≠ len % w) :
    slot w (len + 1) s = slot w len s := by
  have hlt : slot w len s < len := slot_lt hl
  have hr : len ≤ slot w len s + w := slot_recent hw
  have hne' : len ≠ slot w len s + w := by
    intro h
    apply hne
    rw [h,Nat.add_mod_right,slot_mod hw]
  have hm : slot w (len + 1) s % w = slot w len s % w := by rw [slot_mod hw,slot_mod hw]
  exact eq_of_window hm (slot_lt (by omega)) (slot_recent hw) (by omega) (by omega)

theorem mem_recent {w len k : Nat} : k ∈ recent w len ↔ k < len ∧ len ≤ k + w := by
  constructor
  · intro h
    obtain ⟨s,hs,rfl⟩ := List.mem_map.mp h
    have hs := List.mem_range.mp hs
    exact ⟨slot_lt (by omega),slot_recent (by omega)⟩
  · rintro ⟨hk,hr⟩
    have hs := Nat.mod_lt k (show 0 < w by omega)
    have hsl : k % w < len := Nat.lt_of_le_of_lt (Nat.mod_le k w) hk
    refine List.mem_map.mpr ⟨k % w,List.mem_range.mpr (by omega),?_⟩
    exact eq_of_window (slot_mod hs) (slot_lt hsl) (slot_recent hs) hk hr

section Names

variable {α : Type}

def chain (base : Nat) : List α → Link → List (Node α)
  | [], _ => []
  | [l], link => [⟨l,link⟩]
  | l :: l' :: ls, link => ⟨l,.node (base + 1)⟩ :: chain (base + 1) (l' :: ls) link

@[simp] theorem length_chain (base : Nat) (cur : List α) (link : Link) :
    (chain base cur link).length = cur.length := by
  induction cur generalizing base with
  | nil => rfl
  | cons l ls ih =>
    cases ls with
    | nil => rfl
    | cons l' ls => simpa [chain] using ih (base + 1)

theorem chain_getElem? (base : Nat) (cur : List α) (link : Link) (i : Nat) (l : α)
    (h : cur[i]? = some l) : (chain base cur link)[i]? =
      some ⟨l,if i + 1 < cur.length then .node (base + i + 1) else link⟩ := by
  induction cur generalizing base i with
  | nil => simp at h
  | cons a ls ih =>
    cases ls with
    | nil =>
      cases i with
      | zero => simpa [chain] using h
      | succ i => simp at h
    | cons b ls =>
      cases i with
      | zero => simpa [chain] using h
      | succ i =>
        simp only [chain,List.getElem?_cons_succ] at h ⊢
        rw [ih (base + 1) i (by simpa using h)]
        simp only [List.length_cons,Nat.add_lt_add_iff_right]
        have he : base + 1 + i + 1 = base + (i + 1) + 1 := by omega
        rw [he]

inductive Spells (blank : α → Bool) (g : List (Node α)) : Link → List α → Prop where
  | stop : Spells blank g .stop []
  | node {k : Nat} {nd : Node α} {L : List α} : g[k]? = some nd → blank nd.label = false →
      Spells blank g nd.next L → Spells blank g (.node k) (nd.label :: L)

theorem Spells.append {blank : α → Bool} {g : List (Node α)} {link : Link} {L : List α}
    (h : Spells blank g link L) (g' : List (Node α)) : Spells blank (g ++ g') link L := by
  induction h with
  | stop => exact .stop
  | node hk hb _ ih =>
    refine .node ?_ hb ih
    rw [List.getElem?_append_left (List.getElem?_eq_some_iff.mp hk).1]
    exact hk

theorem Spells.unique {blank : α → Bool} {g : List (Node α)} {link : Link} {L L' : List α}
    (h : Spells blank g link L) (h' : Spells blank g link L') : L = L' := by
  induction h generalizing L' with
  | stop => cases h'; rfl
  | node hk _ _ ih =>
    cases h' with
    | node hk' _ ht' =>
      rw [hk] at hk'
      obtain rfl := Option.some.inj hk'
      rw [ih ht']

theorem spells_chain {blank : α → Bool} {g : List (Node α)} {cur tail : List α} {link : Link}
    (hb : ∀ l ∈ cur, blank l = false) (ht : Spells blank g link tail) (i : Nat)
    (hi : i < cur.length) :
    Spells blank (g ++ chain g.length cur link) (.node (g.length + i)) (cur.drop i ++ tail) := by
  have hd : cur.drop i = cur[i] :: cur.drop (i + 1) := List.drop_eq_getElem_cons hi
  have hc := chain_getElem? g.length cur link i cur[i] (List.getElem?_eq_getElem hi)
  have hk : (g ++ chain g.length cur link)[g.length + i]? =
      some ⟨cur[i],if i + 1 < cur.length then .node (g.length + i + 1) else link⟩ := by
    rw [List.getElem?_append_right (by omega),Nat.add_sub_cancel_left,hc]
  rw [hd,List.cons_append]
  refine Spells.node hk (hb _ (List.getElem_mem hi)) ?_
  by_cases hn : i + 1 < cur.length
  · simp only [hn,↓reduceIte]
    exact spells_chain hb ht (i + 1) hn
  · simp only [hn,↓reduceIte]
    rw [List.drop_eq_nil_of_le (by omega),List.nil_append]
    exact ht.append _
termination_by cur.length - i

end Names

section Search

variable {α : Type} [DecidableEq α] (blank : α → Bool)

/-- Does the name that goes on at `link` start with the given labels? A blank
label reads as the end of the name. -/
def follows (g : List (Node α)) : Link → List α → Bool
  | _, [] => true
  | .stop, _ :: _ => false
  | .node k, s :: ss =>
    match g[k]? with
    | some nd => decide (nd.label = s) && !blank s && follows g nd.next ss
    | none => false

inductive Verdict where
  | hit | miss
  /-- every label written so far agrees, and the search would read on -/
  | beyond
  deriving DecidableEq, Repr

/-- The same question about a name that is still being written. -/
def followsOpen : List α → List α → Verdict
  | _, [] => .hit
  | [], _ :: _ => .beyond
  | c :: cs, s :: ss => if c = s ∧ blank s = false then followsOpen cs ss else .miss

inductive Found where
  | at (k : Nat)
  | absent
  | beyond
  deriving DecidableEq, Repr

def verdict (g : List (Node α)) (cur s : List α) (k : Nat) : Verdict :=
  if k < g.length then (if follows blank g (.node k) s then .hit else .miss)
  else followsOpen blank (cur.drop (k - g.length)) s

def scan (v : Nat → Verdict) : List Nat → Found
  | [] => .absent
  | k :: ks =>
    match v k with
    | .hit => .at k
    | .beyond => .beyond
    | .miss => scan v ks

/-- Search the table for the suffix `s` while `cur` of a name has been written. -/
def search (w : Nat) (g : List (Node α)) (cur s : List α) : Found :=
  scan (verdict blank g cur s) (recent w (g.length + cur.length))

/-- Write the labels left to write: those spelled out, and what they end in.
`none` says that a search read past what had been written. -/
def spell (w : Nat) (g : List (Node α)) : List α → List α → Option (List α × Link)
  | cur, [] => some (cur,.stop)
  | cur, l :: ls =>
    match search blank w g cur (l :: ls) with
    | .at k => some (cur,.node k)
    | .beyond => none
    | .absent => spell w g (cur ++ [l]) ls

theorem scan_at {v : Nat → Verdict} {ks : List Nat} {k : Nat} (h : scan v ks = .at k) :
    k ∈ ks ∧ v k = .hit := by
  induction ks with
  | nil => simp [scan] at h
  | cons a ks ih =>
    cases hv : v a with
    | hit =>
      simp only [scan,hv,Found.at.injEq] at h
      subst h
      exact ⟨List.mem_cons_self,hv⟩
    | beyond => simp [scan,hv] at h
    | miss =>
      obtain ⟨hm,hk⟩ := ih (by simpa [scan,hv] using h)
      exact ⟨List.mem_cons_of_mem a hm,hk⟩

theorem scan_absent {v : Nat → Verdict} {ks : List Nat} :
    scan v ks = .absent ↔ ∀ k ∈ ks, v k = .miss := by
  induction ks with
  | nil => simp [scan]
  | cons a ks ih =>
    cases hv : v a with
    | hit => simp [scan,hv]
    | beyond => simp [scan,hv]
    | miss => simp [scan,hv,ih]

theorem scan_beyond {v : Nat → Verdict} {ks : List Nat} (h : scan v ks = .beyond) :
    ∃ pre k post, ks = pre ++ k :: post ∧ (∀ i ∈ pre, v i = .miss) ∧ v k = .beyond := by
  induction ks with
  | nil => simp [scan] at h
  | cons a ks ih =>
    cases hv : v a with
    | hit => simp [scan,hv] at h
    | beyond => exact ⟨[],a,ks,rfl,by simp,hv⟩
    | miss =>
      obtain ⟨pre,k,post,rfl,hpre,hk⟩ := ih (by simpa [scan,hv] using h)
      exact ⟨a :: pre,k,post,rfl,by simpa [hv] using hpre,hk⟩

variable {blank}

theorem follows_iff {g : List (Node α)} {link : Link} {L : List α} (h : Spells blank g link L)
    (s : List α) : follows blank g link s = true ↔ s <+: L := by
  induction h generalizing s with
  | stop =>
    cases s with
    | nil => simp [follows]
    | cons a s => simp [follows]
  | node hk hb _ ih =>
    cases s with
    | nil => simp [follows]
    | cons a s =>
      simp only [follows,hk,Bool.and_eq_true,decide_eq_true_eq,Bool.not_eq_true',ih,
        List.cons_prefix_cons]
      constructor
      · rintro ⟨⟨rfl,-⟩,hp⟩
        exact ⟨rfl,hp⟩
      · rintro ⟨rfl,hp⟩
        exact ⟨⟨rfl,hb⟩,hp⟩

theorem followsOpen_miss {cur s : List α} (hb : ∀ l ∈ cur, blank l = false)
    (h : followsOpen blank cur s = .miss) : ¬ cur <+: s ∧ ¬ s <+: cur := by
  induction cur generalizing s with
  | nil => cases s <;> simp [followsOpen] at h
  | cons c cur ih =>
    cases s with
    | nil => simp [followsOpen] at h
    | cons a s =>
      simp only [followsOpen] at h
      split at h
      · have ht := ih (fun l hl => hb l (List.mem_cons_of_mem c hl)) h
        simpa [List.cons_prefix_cons] using ⟨fun _ => ht.1,fun _ => ht.2⟩
      · rename_i hne
        have hca : c ≠ a := by
          rintro rfl
          exact hne ⟨rfl,hb c List.mem_cons_self⟩
        exact ⟨by simp [List.cons_prefix_cons,hca],by simp [List.cons_prefix_cons,Ne.symm hca]⟩

theorem followsOpen_of_apart {cur s : List α} (h₁ : ¬ cur <+: s) (h₂ : ¬ s <+: cur) :
    followsOpen blank cur s = .miss := by
  induction cur generalizing s with
  | nil => simp at h₁
  | cons c cur ih =>
    cases s with
    | nil => simp at h₂
    | cons a s =>
      simp only [followsOpen]
      split
      · rename_i hc
        obtain ⟨rfl,-⟩ := hc
        simp only [List.cons_prefix_cons,true_and] at h₁ h₂
        exact ih h₁ h₂
      · rfl

theorem followsOpen_beyond {cur s : List α} (h : followsOpen blank cur s = .beyond) :
    ∃ r, r ≠ [] ∧ s = cur ++ r ∧ ∀ l ∈ cur, blank l = false := by
  induction cur generalizing s with
  | nil =>
    cases s with
    | nil => simp [followsOpen] at h
    | cons a s => exact ⟨a :: s,by simp,rfl,by simp⟩
  | cons c cur ih =>
    cases s with
    | nil => simp [followsOpen] at h
    | cons a s =>
      simp only [followsOpen] at h
      split at h
      · rename_i hc
        obtain ⟨rfl,hb⟩ := hc
        obtain ⟨r,hr,rfl,hcur⟩ := ih h
        refine ⟨r,hr,rfl,?_⟩
        intro l hl
        rcases List.mem_cons.mp hl with rfl | hl
        · exact hb
        · exact hcur l hl
      · contradiction

/-- No block of at most `w` labels is followed by a copy of itself, whole or cut
short only by the end of the name. -/
def NoRepeat (w : Nat) (L : List α) : Prop :=
  ∀ j, j < L.length → ∀ i, i < j → j ≤ i + w →
    ¬ (L.take j).drop i <+: L.drop j ∧ ¬ L.drop j <+: (L.take j).drop i

instance (w : Nat) (L : List α) : Decidable (NoRepeat w L) :=
  inferInstanceAs (Decidable (∀ j, j < L.length → ∀ i, i < j → j ≤ i + w →
    ¬ (L.take j).drop i <+: L.drop j ∧ ¬ L.drop j <+: (L.take j).drop i))

/-- The finished name at every label still in the table reads right, and no
suffix of `N` is a proper prefix of it. -/
def Tidy (blank : α → Bool) (w : Nat) (g : List (Node α)) (N : List α) : Prop :=
  ∀ k, k < g.length → g.length ≤ k + w →
    ∃ L, Spells blank g (.node k) L ∧ ∀ s, s ≠ [] → s <:+ N → s <+: L → s = L

theorem search_sound {w : Nat} {g : List (Node α)} {N cur s : List α} (hN : N = cur ++ s)
    (hs : s ≠ []) (hr : NoRepeat w N) (ht : Tidy blank w g N) :
    (∃ k, search blank w g cur s = .at k ∧ k < g.length ∧ g.length + cur.length ≤ k + w ∧
      Spells blank g (.node k) s) ∨ search blank w g cur s = .absent := by
  have hv : ∀ k ∈ recent w (g.length + cur.length), verdict blank g cur s k = .miss ∨
      (k < g.length ∧ verdict blank g cur s k = .hit ∧ Spells blank g (.node k) s) := by
    intro k hk
    obtain ⟨hlt,hrec⟩ := mem_recent.mp hk
    by_cases hg : k < g.length
    · obtain ⟨L,hL,hex⟩ := ht k hg (by omega)
      simp only [verdict,hg,↓reduceIte,true_and]
      by_cases hf : follows blank g (.node k) s = true
      · have heq := hex s hs ⟨cur,hN.symm⟩ ((follows_iff hL s).mp hf)
        subst heq
        simp [hf,hL]
      · simp [hf]
    · have hpos : 0 < s.length := List.length_pos_iff.mpr hs
      have hd : (N.take cur.length).drop (k - g.length) = cur.drop (k - g.length) := by
        rw [hN,List.take_left]
      have hrep := hr cur.length (by rw [hN,List.length_append]; omega) (k - g.length)
        (by omega) (by omega)
      rw [hd,hN,List.drop_left] at hrep
      left
      simp only [verdict,hg,↓reduceIte]
      exact followsOpen_of_apart hrep.1 hrep.2
  cases hsc : search blank w g cur s with
  | «at» k =>
    obtain ⟨hk,hhit⟩ := scan_at hsc
    rcases hv k hk with hm | ⟨hg,-,hsp⟩
    · rw [hm] at hhit; contradiction
    · exact Or.inl ⟨k,rfl,hg,(mem_recent.mp hk).2,hsp⟩
  | absent => exact Or.inr rfl
  | beyond =>
    obtain ⟨pre,k,post,hks,-,hbey⟩ := scan_beyond hsc
    rcases hv k (by rw [hks]; simp) with hm | ⟨-,hm,-⟩ <;> rw [hm] at hbey <;> contradiction

/-- Against tidy names, a name without repeats is never misread while it is
written: what it ends in spells the labels left out. -/
theorem spell_sound {w : Nat} {g : List (Node α)} {N : List α} (hr : NoRepeat w N)
    (ht : Tidy blank w g N) (cur rest : List α) (hN : N = cur ++ rest) :
    ∃ cur' link tail, spell blank w g cur rest = some (cur',link) ∧ N = cur' ++ tail ∧
      Spells blank g link tail ∧ ∀ k, link = .node k → k < g.length ∧
        g.length + cur'.length ≤ k + w := by
  induction rest generalizing cur with
  | nil => exact ⟨cur,.stop,[],rfl,by simpa using hN,.stop,by simp⟩
  | cons l ls ih =>
    rcases search_sound hN (by simp) hr ht with ⟨k,hsc,hk,hrec,hsp⟩ | habs
    · refine ⟨cur,.node k,l :: ls,by simp only [spell,hsc],hN,hsp,?_⟩
      rintro _ ⟨⟩
      exact ⟨hk,hrec⟩
    · obtain ⟨cur',link,tail,hsp,hrest⟩ := ih (cur ++ [l]) (by simpa using hN)
      exact ⟨cur',link,tail,by simpa only [spell,habs] using hsp,hrest⟩

theorem spell_known {w : Nat} {g : List (Node α)} {N : List α} (hN : N ≠ [])
    (hr : NoRepeat w N) (ht : Tidy blank w g N) {k : Nat} (hk : k < g.length)
    (hrec : g.length ≤ k + w) (hsp : Spells blank g (.node k) N) :
    ∃ k', spell blank w g [] N = some ([],.node k') ∧ k' < g.length ∧
      Spells blank g (.node k') N := by
  rcases search_sound (List.nil_append N).symm hN hr ht with ⟨k',hsc,hk',-,hsp'⟩ | habs
  · refine ⟨k',?_,hk',hsp'⟩
    cases N with
    | nil => contradiction
    | cons l ls => simp only [spell,hsc]
  · have hm := scan_absent.mp habs k (mem_recent.mpr ⟨by simpa using hk,by simpa using hrec⟩)
    simp [verdict,hk,(follows_iff hsp N).mpr (List.prefix_refl N)] at hm

/-- In an empty table the writer stops short exactly at the first repeat. -/
theorem search_repeat {w : Nat} {N : List α} (hb : ∀ l ∈ N, blank l = false)
    (hr : ¬ NoRepeat w N) : ∃ j, j < N.length ∧
      search blank w [] (N.take j) (N.drop j) ≠ .absent ∧
      ∀ i, i < j → search blank w [] (N.take i) (N.drop i) = .absent := by
  by_contra hno
  push Not at hno
  have hall : ∀ j, j < N.length → search blank w [] (N.take j) (N.drop j) = .absent := by
    intro j
    induction j using Nat.strongRecOn with
    | ind j ih =>
      intro hj
      by_contra hne
      obtain ⟨i,hi,hbad⟩ := hno j hj hne
      exact hbad (ih i hi (by omega))
  apply hr
  intro j hj i hi hw
  have hlen : (N.take j).length = j := by rw [List.length_take]; omega
  have hm := scan_absent.mp (hall j hj) i (mem_recent.mpr (by simp only [List.length_nil,hlen]; omega))
  simp only [verdict,List.length_nil,Nat.not_lt_zero,↓reduceIte,Nat.sub_zero] at hm
  exact followsOpen_miss (fun l hl => hb l (List.mem_of_mem_take (List.mem_of_mem_drop hl))) hm

end Search

section Sequences

variable {α : Type} {blank : α → Bool}

theorem NoRepeat.cons {w : Nat} {a : α} {L : List α} (h : NoRepeat w L) (ha : a ∉ L) :
    NoRepeat w (a :: L) := by
  intro j hj i hi hw
  obtain ⟨j,rfl⟩ := Nat.exists_eq_add_one_of_ne_zero (Nat.ne_of_gt (Nat.lt_of_le_of_lt i.zero_le hi))
  have hjL : j < L.length := Nat.lt_of_succ_lt_succ hj
  cases i with
  | zero =>
    have hne : a ≠ L[j] := fun h => ha (h ▸ List.getElem_mem hjL)
    rw [List.drop_succ_cons,List.take_succ_cons,List.drop_zero,List.drop_eq_getElem_cons hjL,
      List.cons_prefix_cons,List.cons_prefix_cons]
    exact ⟨fun h => hne h.1,fun h => hne h.1.symm⟩
  | succ i => exact h j hjL i (Nat.lt_of_succ_lt_succ hi) (by omega)

def LastOnly (z : α) (L : List α) : Prop := z ∉ L.dropLast

theorem suffix_getLast {s N : List α} {z : α} (hz : N.getLast? = some z) (hs : s ≠ [])
    (h : s <:+ N) : s.getLast? = some z := by
  obtain ⟨t,rfl⟩ := h
  rwa [List.getLast?_append_of_ne_nil t hs] at hz

theorem LastOnly.suffix {z : α} {L s : List α} (h : LastOnly z L) (hs : s <:+ L) :
    LastOnly z s := by
  obtain ⟨t,rfl⟩ := hs
  intro hz
  cases s with
  | nil => simp at hz
  | cons a s =>
    apply h
    rw [List.dropLast_append_of_ne_nil (by simp)]
    exact List.mem_append_right t hz

theorem LastOnly.prefix_eq {z : α} {L s : List α} (h : LastOnly z L) (hs : s.getLast? = some z)
    (hp : s <+: L) : s = L := by
  obtain ⟨t,rfl⟩ := hp
  cases t with
  | nil => simp
  | cons a t =>
    exfalso
    apply h
    rw [List.dropLast_append_of_ne_nil (by simp)]
    exact List.mem_append_left _ (List.mem_of_getLast? hs)

theorem NoRepeat.lastOnly {w : Nat} {N L : List α} {z : α} (hr : NoRepeat w N)
    (hz : N.getLast? = some z) (hs : L <:+ N) (hl : L.length ≤ w + 1) : LastOnly z L := by
  intro hmem
  obtain ⟨t,rfl⟩ := hs
  obtain ⟨i,hi,hzi⟩ := List.mem_iff_getElem.mp hmem
  rw [List.length_dropLast] at hi
  rw [List.getElem_dropLast] at hzi
  have hL : L ≠ [] := by rintro rfl; simp at hi
  have hlast : L.getLast? = some z := by rwa [List.getLast?_append_of_ne_nil t hL] at hz
  have hlen : (t ++ L).length = t.length + L.length := List.length_append
  have hrep := hr (t.length + (L.length - 1)) (by omega) (t.length + i) (by omega) (by omega)
  apply hrep.2
  have hd : (t ++ L).drop (t.length + (L.length - 1)) = [z] := by
    rw [List.drop_append,List.drop_eq_nil_of_le (by omega),List.nil_append,Nat.add_sub_cancel_left]
    have hlt : L.length - 1 < L.length := by omega
    rw [List.drop_eq_getElem_cons hlt,List.drop_eq_nil_of_le (by omega)]
    rw [List.getLast?_eq_getElem?,List.getElem?_eq_getElem hlt] at hlast
    rw [Option.some.inj hlast]
  have hb : ((t ++ L).take (t.length + (L.length - 1))).drop (t.length + i) =
      z :: ((t ++ L).take (t.length + (L.length - 1))).drop (t.length + i + 1) := by
    rw [List.drop_eq_getElem_cons (by rw [List.length_take]; omega)]
    congr 1
    rw [List.getElem_take,List.getElem_append_right (by omega)]
    simpa using hzi
  rw [hd,hb]
  simp [List.cons_prefix_cons]

def Clean (blank : α → Bool) (z : α) (g : List (Node α)) : Prop :=
  ∀ k, k < g.length → ∃ L, Spells blank g (.node k) L ∧ LastOnly z L

def SpelledOut (blank : α → Bool) (w : Nat) (z : α) (g : List (Node α)) : Prop :=
  ∀ k, k < g.length → ∃ L N, Spells blank g (.node k) L ∧ L <:+ N ∧ NoRepeat w N ∧
    N.getLast? = some z ∧ L.length + k ≤ g.length

theorem Clean.tidy {w : Nat} {z : α} {g : List (Node α)} {N : List α} (h : Clean blank z g)
    (hz : N.getLast? = some z) : Tidy blank w g N := by
  intro k hk _
  obtain ⟨L,hL,hlast⟩ := h k hk
  exact ⟨L,hL,fun s hs hsuf hp => hlast.prefix_eq (suffix_getLast hz hs hsuf) hp⟩

theorem SpelledOut.tidy {w : Nat} {z : α} {g : List (Node α)} {N : List α}
    (h : SpelledOut blank w z g) (hz : N.getLast? = some z) : Tidy blank w g N := by
  intro k hk hrec
  obtain ⟨L,M,hL,hsuf,hr,hM,hage⟩ := h k hk
  have hlast := hr.lastOnly hM hsuf (by omega)
  exact ⟨L,hL,fun s hs hN hp => hlast.prefix_eq (suffix_getLast hz hs hN) hp⟩

theorem Clean.append {z : α} {g : List (Node α)} {cur tail : List α} {link : Link}
    (h : Clean blank z g) (hb : ∀ l ∈ cur, blank l = false) (ht : Spells blank g link tail)
    (hz : LastOnly z (cur ++ tail)) : Clean blank z (g ++ chain g.length cur link) := by
  intro k hk
  by_cases hg : k < g.length
  · obtain ⟨L,hL,hlast⟩ := h k hg
    exact ⟨L,hL.append _,hlast⟩
  · rw [List.length_append,length_chain] at hk
    have hsp := spells_chain hb ht (k - g.length) (by omega)
    rw [show g.length + (k - g.length) = k by omega] at hsp
    refine ⟨_,hsp,hz.suffix ⟨cur.take (k - g.length),?_⟩⟩
    rw [← List.append_assoc,List.take_append_drop]

theorem SpelledOut.append {w : Nat} {z : α} {g : List (Node α)} {N : List α}
    (h : SpelledOut blank w z g) (hb : ∀ l ∈ N, blank l = false) (hr : NoRepeat w N)
    (hz : N.getLast? = some z) : SpelledOut blank w z (g ++ chain g.length N .stop) := by
  intro k hk
  by_cases hg : k < g.length
  · obtain ⟨L,M,hL,hsuf,hrM,hM,hage⟩ := h k hg
    exact ⟨L,M,hL.append _,hsuf,hrM,hM,by rw [List.length_append]; omega⟩
  · rw [List.length_append,length_chain] at hk
    have hsp := spells_chain hb (Spells.stop (g := g)) (k - g.length) (by omega)
    rw [show g.length + (k - g.length) = k by omega,List.append_nil] at hsp
    refine ⟨_,N,hsp,List.drop_suffix _ _,hr,hz,?_⟩
    rw [List.length_append,length_chain,List.length_drop]
    omega

theorem SpelledOut.spell_full {w : Nat} {z : α} {g : List (Node α)} {N : List α}
    [DecidableEq α] (h : SpelledOut blank w z g) (hr : NoRepeat w N) (hz : N.getLast? = some z)
    (hlong : w < N.length ∨ g = []) :
    spell blank w g [] N = some (N,.stop) := by
  obtain ⟨cur,link,tail,hsp,hN,hlink,hrec⟩ := spell_sound hr (h.tidy hz) [] N rfl
  cases link with
  | stop =>
    cases hlink
    rw [List.append_nil] at hN
    rw [hsp,hN]
  | node k =>
    obtain ⟨hk,hw⟩ := hrec k rfl
    obtain ⟨L,M,hL,-,-,-,hage⟩ := h k hk
    have heq := hL.unique hlink
    have hlen := congrArg List.length hN
    rw [List.length_append,← heq] at hlen
    rcases hlong with hlong | rfl
    · omega
    · simp at hk

end Sequences

end SuffixTable
