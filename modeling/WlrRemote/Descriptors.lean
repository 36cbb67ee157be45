import Mathlib.Data.List.Nodup
import Mathlib.Data.List.Range

/-!
The file descriptors of a process: numbers are given out again once they are closed, so
each opening has a serial number of its own. A table cannot lose an opening: each one
has been closed or is still there.
-/

set_option autoImplicit false

namespace Descriptors

structure Descriptor (α : Type) where
  serial : Nat
  fd : Int
  info : α
  deriving DecidableEq, Repr

variable {α : Type}

/-- `failedCloses` counts the calls of `close` on a number that was not open. -/
structure FdTable (α : Type) where
  opened : Nat
  closed : List Nat
  live : List (Descriptor α)
  failedCloses : Nat
  accounted : (closed ++ live.map Descriptor.serial).Perm (List.range opened)
  distinct : (live.map Descriptor.fd).Nodup

namespace FdTable

def empty : FdTable α := ⟨0,[],[],0,by simp,by simp⟩

structure Unused (t : FdTable α) where
  fd : Int
  nonneg : 0 ≤ fd
  unused : fd ∉ t.live.map Descriptor.fd

def offer (t : FdTable α) (n : Nat) : Option t.Unused :=
  if h : (n : Int) ∉ t.live.map Descriptor.fd then some ⟨n,Int.natCast_nonneg n,h⟩ else none

def openFd (t : FdTable α) (new : t.Unused) (info : α) : FdTable α where
  opened := t.opened + 1
  closed := t.closed
  live := t.live ++ [⟨t.opened,new.fd,info⟩]
  failedCloses := t.failedCloses
  accounted := by
    rw [List.map_append,← List.append_assoc,List.range_succ]
    exact t.accounted.append_right [t.opened]
  distinct := by
    rw [List.map_append,List.nodup_append]
    refine ⟨t.distinct,by simp,?_⟩
    rintro a ha b hb rfl
    obtain rfl := List.mem_singleton.mp hb
    exact new.unused ha

def modify (t : FdTable α) (fd : Int) (f : α → α) : FdTable α :=
  let change := fun d : Descriptor α => if d.fd = fd then { d with info := f d.info } else d
  have hserial : (t.live.map change).map Descriptor.serial = t.live.map Descriptor.serial := by
    rw [List.map_map]
    apply List.map_congr_left
    intro d _
    simp only [Function.comp_apply,change]
    split <;> rfl
  have hfd : (t.live.map change).map Descriptor.fd = t.live.map Descriptor.fd := by
    rw [List.map_map]
    apply List.map_congr_left
    intro d _
    simp only [Function.comp_apply,change]
    split <;> rfl
  { t with
    live := t.live.map change
    accounted := hserial ▸ t.accounted
    distinct := hfd ▸ t.distinct }

def closeFd (t : FdTable α) (fd : Int) : FdTable α :=
  match h : t.live.find? (fun d => d.fd = fd) with
  | none => { t with failedCloses := t.failedCloses + 1 }
  | some d =>
    { t with
      closed := t.closed ++ [d.serial]
      live := t.live.eraseP (fun d => d.fd = fd)
      accounted := by
        obtain ⟨hd,before,after,heq,hbefore⟩ := List.find?_eq_some_iff_append.mp h
        have herase : t.live.eraseP (fun d => d.fd = fd) = before ++ after := by
          rw [heq,List.eraseP_append_right _ (by simpa using hbefore),List.eraseP_cons]
          simp [of_decide_eq_true hd]
        have hperm := t.accounted
        rw [heq] at hperm
        rw [herase]
        refine List.Perm.trans ?_ hperm
        simp only [List.map_append,List.map_cons,List.append_assoc,List.singleton_append]
        exact List.Perm.append_left _ List.perm_middle.symm
      distinct := (t.live.eraseP_sublist.map _).nodup t.distinct }

structure AddedTo (t : FdTable α) (d : Descriptor α) (t' : FdTable α) : Prop where
  live : t'.live = t.live ++ [d]
  failedCloses : t'.failedCloses = t.failedCloses

theorem addedTo_openFd (t : FdTable α) (new : t.Unused) (info : α) :
    AddedTo t ⟨t.opened,new.fd,info⟩ (t.openFd new info) := ⟨rfl,rfl⟩

theorem AddedTo.unused {t t' : FdTable α} {d : Descriptor α} (h : AddedTo t d t') :
    ∀ e ∈ t.live, e.fd ≠ d.fd := by
  intro e he heq
  have hdistinct := t'.distinct
  rw [h.live,List.map_append,List.nodup_append] at hdistinct
  exact hdistinct.2.2 e.fd (List.mem_map_of_mem he) d.fd (by simp) heq

theorem AddedTo.modify {t t' : FdTable α} {d : Descriptor α} (h : AddedTo t d t') (f : α → α) :
    AddedTo t { d with info := f d.info } (t'.modify d.fd f) := by
  refine ⟨?_,h.failedCloses⟩
  have hsame : t.live.map (fun e => if e.fd = d.fd then { e with info := f e.info } else e) =
      t.live := by
    conv_rhs => rw [← List.map_id t.live]
    apply List.map_congr_left
    intro e he
    simp [h.unused e he]
  simp only [FdTable.modify]
  rw [h.live,List.map_append,hsame]
  simp

theorem AddedTo.closeFd {t t' : FdTable α} {d : Descriptor α} (h : AddedTo t d t') :
    (t'.closeFd d.fd).live = t.live ∧ (t'.closeFd d.fd).failedCloses = t.failedCloses := by
  have hnot : ∀ e ∈ t.live, ¬ decide (e.fd = d.fd) = true := by simpa using h.unused
  have hfind : t'.live.find? (fun e => e.fd = d.fd) = some d := by
    rw [h.live,List.find?_append,List.find?_eq_none.mpr hnot]
    simp
  unfold FdTable.closeFd
  split
  · rename_i hnone
    rw [hfind] at hnone
    contradiction
  · refine ⟨?_,h.failedCloses⟩
    simp only
    rw [h.live,List.eraseP_append_right _ hnot]
    simp

/-- Each opening has been closed once, or it is still there and was never closed. -/
theorem closed_or_live (t : FdTable α) {serial : Nat} (h : serial < t.opened) :
    t.closed.count serial + (t.live.map Descriptor.serial).count serial = 1 := by
  rw [← List.count_append,t.accounted.count_eq,List.count_range]
  simp [h]

theorem eq_of_fd {t : FdTable α} {d e : Descriptor α} (hd : d ∈ t.live) (he : e ∈ t.live)
    (h : d.fd = e.fd) : d = e :=
  List.inj_on_of_nodup_map t.distinct hd he h

/-- Since `t` the numbers `fds` have been given out and are still in use; what was there before
is there as it was, and no call of `close` has failed. -/
structure Acquired (t : FdTable α) (fds : List Int) (t' : FdTable α) : Prop where
  live : ∃ ds, t'.live.Perm (t.live ++ ds) ∧ (ds.map Descriptor.fd).Perm fds
  failedCloses : t'.failedCloses = t.failedCloses

theorem Acquired.refl (t : FdTable α) : Acquired t [] t := ⟨⟨[],by simp,.refl _⟩,rfl⟩

theorem Acquired.perm {t t' : FdTable α} {fds fds' : List Int} (h : Acquired t fds t')
    (hperm : fds.Perm fds') : Acquired t fds' t' := by
  obtain ⟨ds,hlive,hfds⟩ := h.live
  exact ⟨⟨ds,hlive,hfds.trans hperm⟩,h.failedCloses⟩

theorem Acquired.trans {t t₁ t₂ : FdTable α} {fds fds' : List Int} (h : Acquired t fds t₁)
    (h' : Acquired t₁ fds' t₂) : Acquired t (fds ++ fds') t₂ := by
  obtain ⟨ds,hlive,hfds⟩ := h.live
  obtain ⟨ds',hlive',hfds'⟩ := h'.live
  refine ⟨⟨ds ++ ds',?_,?_⟩,h'.failedCloses.trans h.failedCloses⟩
  · rw [← List.append_assoc]
    exact hlive'.trans (hlive.append_right _)
  · rw [List.map_append]
    exact hfds.append hfds'

theorem Acquired.addedTo {t t₁ t₂ : FdTable α} {fds : List Int} {d : Descriptor α}
    (h : Acquired t fds t₁) (hd : AddedTo t₁ d t₂) : Acquired t (fds ++ [d.fd]) t₂ :=
  h.trans ⟨⟨[d],by rw [hd.live],.refl _⟩,hd.failedCloses⟩

theorem Acquired.modify {t t' : FdTable α} {fds : List Int} {fd : Int} (h : Acquired t fds t')
    (hfd : fd ∉ t.live.map Descriptor.fd) (f : α → α) : Acquired t fds (t'.modify fd f) := by
  obtain ⟨ds,hlive,hfds⟩ := h.live
  refine ⟨⟨ds.map fun d => if d.fd = fd then { d with info := f d.info } else d,?_,?_⟩,
    h.failedCloses⟩
  · have hsame : t.live.map (fun d => if d.fd = fd then { d with info := f d.info } else d) =
        t.live := by
      conv_rhs => rw [← List.map_id t.live]
      apply List.map_congr_left
      intro d hd
      have hne : d.fd ≠ fd := fun heq => hfd (heq ▸ List.mem_map_of_mem hd)
      simp [hne]
    have hmap := hlive.map fun d => if d.fd = fd then { d with info := f d.info } else d
    rwa [List.map_append,hsame] at hmap
  · rw [List.map_map]
    refine List.Perm.trans (List.Perm.of_eq ?_) hfds
    apply List.map_congr_left
    intro d _
    simp only [Function.comp_apply]
    split <;> rfl

theorem closeFd_perm {t : FdTable α} {d : Descriptor α} (hd : d ∈ t.live) :
    t.live.Perm (d :: (t.closeFd d.fd).live) ∧
      (t.closeFd d.fd).failedCloses = t.failedCloses := by
  unfold closeFd
  split
  · rename_i hnone
    exact absurd (List.find?_eq_none.mp hnone d hd) (by simp)
  · refine ⟨?_,rfl⟩
    obtain ⟨e,before,after,hbefore,he,heq,herase⟩ :=
      List.exists_of_eraseP hd (p := fun e => decide (e.fd = d.fd)) (by simp)
    have hmem : e ∈ t.live := by rw [heq]; simp
    obtain rfl : e = d := List.inj_on_of_nodup_map t.distinct hmem hd (of_decide_eq_true he)
    simp only [herase]
    conv_lhs => rw [heq]
    exact List.perm_middle

theorem Acquired.closeFd {t t' : FdTable α} {fd : Int} {fds : List Int}
    (h : Acquired t (fd :: fds) t') : Acquired t fds (t'.closeFd fd) := by
  obtain ⟨ds,hlive,hfds⟩ := h.live
  obtain ⟨d,hd,rfl⟩ := List.mem_map.mp (hfds.symm.subset List.mem_cons_self)
  obtain ⟨before,after,rfl⟩ := List.append_of_mem hd
  have hmem : d ∈ t'.live := hlive.symm.subset (by simp)
  obtain ⟨hclosed,hfailed⟩ := closeFd_perm hmem
  refine ⟨⟨before ++ after,?_,?_⟩,hfailed.trans h.failedCloses⟩
  · have hboth := (hclosed.symm.trans hlive).trans
      (List.Perm.append_left t.live (List.perm_middle (a := d)))
    exact (hboth.trans List.perm_middle).cons_inv
  · rw [List.map_append,List.map_cons] at hfds
    rw [List.map_append]
    exact (List.perm_middle.symm.trans hfds).cons_inv

theorem Acquired.closeAll {t t' : FdTable α} {fds rest : List Int}
    (h : Acquired t (fds ++ rest) t') : Acquired t rest (fds.foldl FdTable.closeFd t') := by
  induction fds generalizing t' with
  | nil => exact h
  | cons fd fds ih => exact ih h.closeFd

theorem Acquired.nodup {t t' : FdTable α} {fds : List Int} (h : Acquired t fds t') :
    fds.Nodup ∧ ∀ fd ∈ fds, fd ∉ t.live.map Descriptor.fd := by
  obtain ⟨ds,hlive,hfds⟩ := h.live
  have hdistinct := ((hlive.map Descriptor.fd).nodup_iff).mp t'.distinct
  rw [List.map_append,List.nodup_append] at hdistinct
  refine ⟨hfds.nodup_iff.mp hdistinct.2.1,fun fd hfd hmem => ?_⟩
  exact hdistinct.2.2 fd hmem fd (hfds.symm.subset hfd) rfl

end FdTable

end Descriptors
