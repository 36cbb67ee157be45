import WlrRemote.VirtualPointer
import WlrRemote.Runs
import Mathlib.Data.List.Perm.Subperm

set_option autoImplicit false

namespace WlrRemote
open Octets Runs

def RegistryState.destroy (s : RegistryState) (slot : Option Nat) : RegistryState :=
  { s with destroyed := s.destroyed ++ slot.toList }

/-- `main`, as far as the registry goes: the events of the initial roundtrip, those that the
loop dispatches, and the cleanup. Without a seat or a manager only the registry is freed. -/
def mainRegistry (initial later : List Global) : RegistryState :=
  let s := initial.foldl registryHandleGlobal ⟨none,none,[],[]⟩
  if s.seat = none ∨ s.pointerManager = none then s
  else
    let s := later.foldl registryHandleGlobal s
    (s.destroy s.pointerManager).destroy s.seat

def Global.isSeat (g : Global) : Bool := g.interface = wlSeatInterface

def Global.isManager (g : Global) : Bool := g.interface = zwlrVirtualPointerManagerV1Interface

def deliveredGlobals (initial later : List Global) : List Global :=
  let s := initial.foldl registryHandleGlobal ⟨none,none,[],[]⟩
  if s.seat = none ∨ s.pointerManager = none then initial else initial ++ later

def newBinds (s : RegistryState) (g : Global) : List Bind :=
  (registryHandleGlobal s g).binds.drop s.binds.length

def LegalBinds (s : RegistryState) (g : Global) (_ : RegistryState) : Prop :=
  ∀ b ∈ newBinds s g, b.version ≤ g.version

def registryStep (s : RegistryState) (g : Global) : Option RegistryState :=
  some (registryHandleGlobal s g)

structure RegistryInOrder (initial later : List Global) : Prop where
  legal : Along registryStep LegalBinds ⟨none,none,[],[]⟩ (deliveredGlobals initial later)
  destroyedOnce : ∀ proxy < (mainRegistry initial later).binds.length,
    (mainRegistry initial later).destroyed.count proxy = 1

/-- At first there is nothing to bind, or one seat and one manager in versions that are
high enough, and then no other of either. -/
def OneOfEach (initial later : List Global) : Prop :=
  (∀ g ∈ initial, g.isSeat = false ∧ g.isManager = false) ∨
    ∃ seat manager, initial.filter Global.isSeat = [seat] ∧
      initial.filter Global.isManager = [manager] ∧
      (∀ g ∈ later, g.isSeat = false ∧ g.isManager = false) ∧
      1 ≤ seat.version ∧ 2 ≤ manager.version

inductive Handles (s : RegistryState) (g : Global) (s' : RegistryState) : Prop where
  | seat (hseat : g.isSeat = true) (hmanager : g.isManager = false)
      (heq : s' = { s with
        seat := some s.binds.length
        binds := s.binds ++ [⟨g.name,wlSeatInterface,1⟩] })
  | manager (hseat : g.isSeat = false) (hmanager : g.isManager = true)
      (heq : s' = { s with
        pointerManager := some s.binds.length
        binds := s.binds ++ [⟨g.name,zwlrVirtualPointerManagerV1Interface,2⟩] })
  | other (hseat : g.isSeat = false) (hmanager : g.isManager = false) (heq : s' = s)

theorem registryHandleGlobal_handles (s : RegistryState) (g : Global) :
    Handles s g (registryHandleGlobal s g) := by
  unfold registryHandleGlobal
  split
  · rename_i h
    refine .seat (decide_eq_true h) ?_ rfl
    simp only [Global.isManager,h]
    decide
  · rename_i h
    split
    · rename_i h'
      exact .manager (decide_eq_false h) (decide_eq_true h') rfl
    · rename_i h'
      exact .other (decide_eq_false h) (decide_eq_false h') rfl

/-- What the slots say of the events so far. -/
structure Ledger (s : RegistryState) (events : List Global) : Prop where
  length : s.binds.length = events.countP Global.isSeat + events.countP Global.isManager
  noSeat : s.seat = none ↔ events.countP Global.isSeat = 0
  noManager : s.pointerManager = none ↔ events.countP Global.isManager = 0
  seat : ∀ proxy, s.seat = some proxy →
    (s.binds[proxy]?).map Bind.interface = some wlSeatInterface
  manager : ∀ proxy, s.pointerManager = some proxy →
    (s.binds[proxy]?).map Bind.interface = some zwlrVirtualPointerManagerV1Interface
  destroyed : s.destroyed = []

theorem ledger_start : Ledger ⟨none,none,[],[]⟩ [] := by
  constructor <;> simp

theorem interface_append {binds : List Bind} {b : Bind} {proxy : Nat} {interface : Bytes}
    (h : (binds[proxy]?).map Bind.interface = some interface) :
    ((binds ++ [b])[proxy]?).map Bind.interface = some interface := by
  obtain ⟨b',hb,hi⟩ := Option.map_eq_some_iff.mp h
  obtain ⟨hlt,-⟩ := List.getElem?_eq_some_iff.mp hb
  rw [List.getElem?_append_left hlt,hb,Option.map_some,hi]

theorem Ledger.step {s : RegistryState} {events : List Global} (h : Ledger s events) (g : Global) :
    Ledger (registryHandleGlobal s g) (events ++ [g]) := by
  cases registryHandleGlobal_handles s g with
  | seat hseat hmanager heq =>
    rw [heq]
    exact {
      length := by
        simp [List.countP_append,hseat,hmanager,h.length]
        omega
      noSeat := by simp [List.countP_append,hseat]
      noManager := by simpa [List.countP_append,hmanager] using h.noManager
      seat := by
        rintro proxy ⟨⟩
        simp
      manager := fun proxy hp => interface_append (h.manager proxy hp)
      destroyed := h.destroyed }
  | manager hseat hmanager heq =>
    rw [heq]
    exact {
      length := by
        simp [List.countP_append,hseat,hmanager,h.length]
        omega
      noSeat := by simpa [List.countP_append,hseat] using h.noSeat
      noManager := by simp [List.countP_append,hmanager]
      seat := fun proxy hp => interface_append (h.seat proxy hp)
      manager := by
        rintro proxy ⟨⟩
        simp
      destroyed := h.destroyed }
  | other hseat hmanager heq =>
    rw [heq]
    have hcount : ∀ p : Global → Bool, p g = false → (events ++ [g]).countP p = events.countP p := by
      intro p hp
      simp [List.countP_append,hp]
    exact {
      length := by rw [hcount _ hseat,hcount _ hmanager,h.length]
      noSeat := by rw [hcount _ hseat,h.noSeat]
      noManager := by rw [hcount _ hmanager,h.noManager]
      seat := h.seat
      manager := h.manager
      destroyed := h.destroyed }

theorem Ledger.run {s : RegistryState} {events : List Global} (h : Ledger s events)
    (more : List Global) : Ledger (more.foldl registryHandleGlobal s) (events ++ more) := by
  induction more generalizing s events with
  | nil => simpa using h
  | cons g more ih => simpa using ih (h.step g)

theorem Ledger.ne {s : RegistryState} {events : List Global} (h : Ledger s events)
    {seat manager : Nat} (hseat : s.seat = some seat) (hmanager : s.pointerManager = some manager) :
    seat ≠ manager := by
  rintro rfl
  have heq := (h.seat seat hseat).symm.trans (h.manager seat hmanager)
  exact absurd (Option.some.inj heq) (by decide)

theorem lt_of_interface {binds : List Bind} {proxy : Nat} {interface : Bytes}
    (h : (binds[proxy]?).map Bind.interface = some interface) : proxy < binds.length := by
  obtain ⟨b,hb,-⟩ := Option.map_eq_some_iff.mp h
  exact (List.getElem?_eq_some_iff.mp hb).1

def Offers (g : Global) : Prop :=
  (g.isSeat = true → 1 ≤ g.version) ∧ (g.isManager = true → 2 ≤ g.version)

theorem legalBinds_iff (s : RegistryState) (g : Global) {s' : RegistryState} :
    LegalBinds s g s' ↔ Offers g := by
  unfold LegalBinds Offers newBinds
  cases registryHandleGlobal_handles s g with
  | seat hseat hmanager heq => simp [heq,hseat,hmanager]
  | manager hseat hmanager heq => simp [heq,hseat,hmanager]
  | other hseat hmanager heq => simp [heq,hseat,hmanager]

theorem along_legalBinds_iff (s : RegistryState) (events : List Global) :
    Along registryStep LegalBinds s events ↔ ∀ g ∈ events, Offers g := by
  induction events generalizing s with
  | nil => simp [Along]
  | cons g events ih =>
    simp only [Along,registryStep,Option.some.injEq,forall_eq',legalBinds_iff,List.mem_cons,
      forall_eq_or_imp]
    exact and_congr_right fun _ => ih _

theorem count_pair_iff {n i j : Nat} (hi : i < n) (hj : j < n) (hne : i ≠ j) :
    (∀ proxy < n, [j,i].count proxy = 1) ↔ n = 2 := by
  constructor
  · intro h
    have hsub : List.range n ⊆ [j,i] := by
      intro proxy hp
      have hone := h proxy (List.mem_range.mp hp)
      exact List.count_pos_iff.mp (by omega)
    have hle := (List.subperm_of_subset List.nodup_range hsub).length_le
    simp only [List.length_range,List.length_cons,List.length_nil] at hle
    omega
  · rintro rfl proxy hp
    simp only [List.count_cons,List.count_nil,beq_iff_eq]
    split <;> split <;> omega

theorem filter_eq_singleton_iff {p : Global → Bool} {events : List Global} :
    (∃ g, events.filter p = [g]) ↔ events.countP p = 1 := by
  rw [List.countP_eq_length_filter,List.length_eq_one_iff]

theorem mem_filter_singleton {p : Global → Bool} {events : List Global} {g : Global}
    (h : events.filter p = [g]) {g' : Global} : g' ∈ events ∧ p g' = true ↔ g' = g := by
  rw [← List.mem_filter,h,List.mem_singleton]

theorem Ledger.destroyedOnce_nil {s : RegistryState} {events : List Global} (h : Ledger s events) :
    (∀ proxy < s.binds.length, s.destroyed.count proxy = 1) ↔
      ∀ g ∈ events, g.isSeat = false ∧ g.isManager = false := by
  have hzero : (∀ proxy < s.binds.length, s.destroyed.count proxy = 1) ↔ s.binds.length = 0 := by
    rw [h.destroyed]
    constructor
    · intro hall
      by_contra hne
      exact absurd (hall 0 (by omega)) (by simp)
    · intro heq proxy hp
      omega
  rw [hzero,h.length,Nat.add_eq_zero_iff,List.countP_eq_zero,List.countP_eq_zero]
  simp only [Bool.not_eq_true,forall_and]

theorem count_one_each {initial later : List Global} {p : Global → Bool}
    (h : initial.countP p ≠ 0) : (initial ++ later).countP p = 1 ↔
      (∃ g, initial.filter p = [g]) ∧ ∀ g ∈ later, p g = false := by
  have hzero : later.countP p = 0 ↔ ∀ g ∈ later, p g = false := by
    rw [List.countP_eq_zero]
    simp only [Bool.not_eq_true]
  rw [filter_eq_singleton_iff,← hzero,List.countP_append]
  omega

theorem Ledger.destroyedOnce_pair {s : RegistryState} {initial later : List Global}
    (h : Ledger s (initial ++ later)) (hseat : initial.countP Global.isSeat ≠ 0)
    (hmanager : initial.countP Global.isManager ≠ 0) :
    (∀ proxy < ((s.destroy s.pointerManager).destroy s.seat).binds.length,
      ((s.destroy s.pointerManager).destroy s.seat).destroyed.count proxy = 1) ↔
      ((∃ seat, initial.filter Global.isSeat = [seat]) ∧
        ∃ manager, initial.filter Global.isManager = [manager]) ∧
        ∀ g ∈ later, g.isSeat = false ∧ g.isManager = false := by
  have hlength := h.length
  have hnoSeat := h.noSeat
  have hnoManager := h.noManager
  have hpos : (initial ++ later).countP Global.isSeat ≠ 0 ∧
      (initial ++ later).countP Global.isManager ≠ 0 := by
    rw [List.countP_append,List.countP_append]
    omega
  obtain ⟨seat,hs⟩ := Option.ne_none_iff_exists'.mp (fun hn => hpos.1 (hnoSeat.mp hn))
  obtain ⟨manager,hm⟩ := Option.ne_none_iff_exists'.mp (fun hn => hpos.2 (hnoManager.mp hn))
  have hne := h.ne hs hm
  have hdestroyed : ((s.destroy s.pointerManager).destroy s.seat).destroyed = [manager,seat] := by
    simp [RegistryState.destroy,h.destroyed,hs,hm]
  have hbinds : ((s.destroy s.pointerManager).destroy s.seat).binds = s.binds := rfl
  rw [hdestroyed,hbinds,count_pair_iff (lt_of_interface (h.seat seat hs))
    (lt_of_interface (h.manager manager hm)) hne]
  have hones : s.binds.length = 2 ↔ (initial ++ later).countP Global.isSeat = 1 ∧
      (initial ++ later).countP Global.isManager = 1 := by omega
  rw [hones,count_one_each hseat,count_one_each hmanager]
  simp only [forall_and]
  exact and_and_and_comm

/-- The registry is kept in order exactly if the compositor offers one seat and one manager,
in high enough versions and at once, or neither of them at first. -/
theorem registry_in_order_iff (initial later : List Global) :
    RegistryInOrder initial later ↔ OneOfEach initial later := by
  have hinitial : Ledger (initial.foldl registryHandleGlobal ⟨none,none,[],[]⟩) initial := by
    simpa using ledger_start.run initial
  have hinorder : RegistryInOrder initial later ↔
      (∀ g ∈ deliveredGlobals initial later, Offers g) ∧
      ∀ proxy < (mainRegistry initial later).binds.length,
        (mainRegistry initial later).destroyed.count proxy = 1 := by
    rw [← along_legalBinds_iff ⟨none,none,[],[]⟩]
    exact ⟨fun h => ⟨h.legal,h.destroyedOnce⟩,fun h => ⟨h.1,h.2⟩⟩
  rw [hinorder]
  by_cases hmissing : (initial.foldl registryHandleGlobal ⟨none,none,[],[]⟩).seat = none ∨
      (initial.foldl registryHandleGlobal ⟨none,none,[],[]⟩).pointerManager = none
  · simp only [deliveredGlobals,mainRegistry,hmissing,↓reduceIte]
    rw [hinitial.destroyedOnce_nil]
    constructor
    · intro h
      exact Or.inl h.2
    · rintro (h | ⟨seat,manager,hseat,hmanager,-⟩)
      · exact ⟨fun g hg => ⟨fun hs => by simp [(h g hg).1] at hs,
          fun hm => by simp [(h g hg).2] at hm⟩,h⟩
      · have hone := filter_eq_singleton_iff.mp ⟨seat,hseat⟩
        have hone' := filter_eq_singleton_iff.mp ⟨manager,hmanager⟩
        rw [hinitial.noSeat,hinitial.noManager] at hmissing
        omega
  · simp only [deliveredGlobals,mainRegistry,hmissing,↓reduceIte]
    rw [hinitial.noSeat,hinitial.noManager,not_or] at hmissing
    rw [(hinitial.run later).destroyedOnce_pair hmissing.1 hmissing.2]
    constructor
    · rintro ⟨hoffers,⟨⟨seat,hseat⟩,manager,hmanager⟩,hlater⟩
      have hs := (mem_filter_singleton hseat).mpr rfl
      have hm := (mem_filter_singleton hmanager).mpr rfl
      exact Or.inr ⟨seat,manager,hseat,hmanager,hlater,
        (hoffers seat (List.mem_append_left _ hs.1)).1 hs.2,
        (hoffers manager (List.mem_append_left _ hm.1)).2 hm.2⟩
    · rintro (h | ⟨seat,manager,hseat,hmanager,hlater,hsv,hmv⟩)
      · exact absurd (List.countP_eq_zero.mpr fun g hg => by simp [(h g hg).1]) hmissing.1
      · refine ⟨?_,⟨⟨seat,hseat⟩,manager,hmanager⟩,hlater⟩
        intro g hg
        rcases List.mem_append.mp hg with hg | hg
        · constructor
          · intro hs
            rw [(mem_filter_singleton hseat).mp ⟨hg,hs⟩]
            exact hsv
          · intro hm
            rw [(mem_filter_singleton hmanager).mp ⟨hg,hm⟩]
            exact hmv
        · exact ⟨fun hs => by simp [(hlater g hg).1] at hs,
            fun hm => by simp [(hlater g hg).2] at hm⟩

/-- A second seat is plugged in, and its proxy takes the slot of the first; a manager of
version 1 is bound as one of version 2. -/
theorem registry_not_in_order :
    let manager (version : UInt32) : Global := ⟨2,zwlrVirtualPointerManagerV1Interface,version⟩
    (mainRegistry [⟨1,wlSeatInterface,9⟩,manager 2] [⟨31,wlSeatInterface,9⟩]).destroyed = [1,2] ∧
      ¬ RegistryInOrder [⟨1,wlSeatInterface,9⟩,manager 2] [⟨31,wlSeatInterface,9⟩] ∧
      ¬ RegistryInOrder [⟨1,wlSeatInterface,9⟩,manager 1] [] := by
  intro manager
  refine ⟨by decide,?_,?_⟩
  · intro h
    exact absurd (h.destroyedOnce 0 (by decide)) (by decide)
  · intro h
    have hlegal := (h.legal _ rfl).2 _ rfl
    exact absurd (hlegal.1 ⟨2,zwlrVirtualPointerManagerV1Interface,2⟩ (by decide)) (by decide)

end WlrRemote
