import Mathlib.Data.Set.Insert
import Mathlib.Order.BooleanAlgebra.Set

/-!
What an observer believes who hears, message by message, what there is and for how long.
Some things rival others, so that a new one may take the place of the old ones.
-/

set_option autoImplicit false

namespace Caches

variable {α : Type*}

/-- Something is there for a time, or no longer; what rivals it may be said to be gone. -/
structure Said (α : Type*) where
  what : α
  time : Nat
  flush : Bool

section Rivals

variable (rival : α → α → Prop)

def hear (cache : Set α) (s : Said α) : Set α :=
  if s.time = 0 then cache \ {s.what}
  else insert s.what (if s.flush then {a ∈ cache | ¬ rival s.what a} else cache)

def hearAll (cache : Set α) (said : List (Said α)) : Set α := said.foldl (hear rival) cache

def subjects (said : List (Said α)) : Set α := {a | ∃ s ∈ said, s.what = a}

theorem subjects_nil : subjects ([] : List (Said α)) = ∅ := by
  simp [subjects]

theorem subjects_cons (s : Said α) (said : List (Said α)) :
    subjects (s :: said) = insert s.what (subjects said) := by
  ext a
  simp only [subjects,List.mem_cons,exists_eq_or_imp,Set.mem_ofPred_eq,Set.mem_insert_iff]
  exact or_congr_left eq_comm

/-- Who is told of lasting things, and never that others are gone, believes them all and more. -/
theorem hearAll_lasting {said : List (Said α)} (h : ∀ s ∈ said, s.time ≠ 0 ∧ s.flush = false)
    (cache : Set α) : hearAll rival cache said = cache ∪ subjects said := by
  induction said generalizing cache with
  | nil => rw [subjects_nil,Set.union_empty]; rfl
  | cons s said ih =>
    obtain ⟨htime,hflush⟩ := h s List.mem_cons_self
    have hfirst : hear rival cache s = insert s.what cache := by simp [hear,htime,hflush]
    rw [hearAll,List.foldl_cons,hfirst,← hearAll,ih fun k hk => h k (List.mem_cons_of_mem s hk),
      subjects_cons,Set.insert_union,Set.union_insert]

theorem hearAll_over {said : List (Said α)} (h : ∀ s ∈ said, s.time = 0) (cache : Set α) :
    hearAll rival cache said = cache \ subjects said := by
  induction said generalizing cache with
  | nil => rw [subjects_nil,Set.sdiff_empty]; rfl
  | cons s said ih =>
    have hfirst : hear rival cache s = cache \ {s.what} := if_pos (h s List.mem_cons_self)
    rw [hearAll,List.foldl_cons,hfirst,← hearAll,ih fun k hk => h k (List.mem_cons_of_mem s hk),
      subjects_cons,Set.sdiff_sdiff,Set.insert_eq]

end Rivals

/-- `true` where the message takes its things away. -/
def change (cache : Set α) (message : Bool × Set α) : Set α :=
  if message.1 then cache \ message.2 else cache ∪ message.2

theorem mem_change {cache : Set α} {message : Bool × Set α} {a : α} : a ∈ change cache message ↔
    (a ∈ cache ∨ message.1 = false ∧ a ∈ message.2) ∧ ¬ (message.1 = true ∧ a ∈ message.2) := by
  obtain ⟨away,things⟩ := message
  cases away <;> simp [change]

theorem mem_changes {messages : List (Bool × Set α)} {cache : Set α} {a : α} :
    a ∈ messages.foldl change cache ↔
      (a ∈ cache ∧ ∀ y ∈ messages, ¬ (y.1 = true ∧ a ∈ y.2)) ∨
        ∃ before x after, messages = before ++ x :: after ∧ (x.1 = false ∧ a ∈ x.2) ∧
          ∀ y ∈ after, ¬ (y.1 = true ∧ a ∈ y.2) := by
  induction messages generalizing cache with
  | nil => simp
  | cons message messages ih =>
    rw [List.foldl_cons,ih,mem_change]
    constructor
    · rintro (⟨⟨ha | htold,hnot⟩,hrest⟩ | ⟨before,x,after,rfl,hx,hafter⟩)
      · exact Or.inl ⟨ha,List.forall_mem_cons.mpr ⟨hnot,hrest⟩⟩
      · exact Or.inr ⟨[],message,messages,rfl,htold,hrest⟩
      · exact Or.inr ⟨message :: before,x,after,rfl,hx,hafter⟩
    · rintro (⟨ha,hall⟩ | ⟨before,x,after,heq,hx,hafter⟩)
      · obtain ⟨hnot,hrest⟩ := List.forall_mem_cons.mp hall
        exact Or.inl ⟨⟨Or.inl ha,hnot⟩,hrest⟩
      · cases before with
        | nil =>
          obtain ⟨rfl,rfl⟩ := List.cons.inj heq
          exact Or.inl ⟨⟨Or.inr hx,fun h => by rw [hx.1] at h; exact absurd h.1 (by decide)⟩,hafter⟩
        | cons first before =>
          obtain ⟨rfl,rfl⟩ := List.cons.inj heq
          exact Or.inr ⟨before,x,after,rfl,hx,hafter⟩

end Caches
