import WlrRemote.AnswersHeard
import WlrRemote.EntriesTold
import WlrRemote.ReadsBounded

set_option autoImplicit false

namespace WlrRemote
open Octets

section Beyond

variable {σ : Type} (callback : Mem → MdnsEntry → σ → Int × σ) (sock : Int) (src : Sockaddr)
  {m : Mem} {size offset : Nat}

theorem mdnsStringEqual_beyond (h : size ≤ offset) (rhs : Mem) (sizeRhs ofsRhs : Nat) :
    mdnsStringEqual m size offset rhs sizeRhs ofsRhs = none := by
  have hnext : (mdnsGetNextSubstring m size offset).offset = none := by
    rw [mdnsGetNextSubstring,if_pos h]
  rw [mdnsStringEqual,mdnsStringEqualLoop]
  simp only [hnext]

theorem mdnsSection_beyond (h : size ≤ offset) (entry : MdnsEntryType) (queryId rrs : UInt16)
    (stopped : Bool) (total : Nat) (state : σ) :
    ∃ stopped', mdnsSection callback sock src m size entry queryId rrs
      ⟨stopped,offset,total,state⟩ = ⟨stopped',offset,total,state⟩ := by
  have hnone (records : Nat) : mdnsRecordsParse callback sock src m size entry queryId records
      ⟨stopped,offset,0,state⟩ = ⟨stopped,offset,0,state⟩ := by
    cases records with
    | zero => rfl
    | succ records =>
      rw [mdnsRecordsParse]
      simp only [mdnsStringSkip_beyond h,Option.getD_none]
      rw [if_pos (by omega)]
  unfold mdnsSection
  split
  · exact ⟨stopped,rfl⟩
  · exact ⟨_,by simp only [hnone]; rfl⟩

theorem mdnsSkipQuestions_beyond (h : size ≤ offset) (questions : Nat) :
    ∀ q ∈ mdnsSkipQuestions m size questions offset, size ≤ q := by
  intro q hq
  cases questions with
  | zero =>
    obtain rfl := Option.some.inj hq
    exact h
  | succ questions =>
    rw [mdnsSkipQuestions,mdnsStringSkip_beyond h] at hq
    contradiction

theorem mdnsVerifyQuestions_beyond (h : size ≤ offset) (questions : Nat) :
    ∀ q ∈ mdnsVerifyQuestions m size questions offset, size ≤ q := by
  intro q hq
  cases questions with
  | zero =>
    obtain rfl := Option.some.inj hq
    exact h
  | succ questions =>
    rw [mdnsVerifyQuestions,mdnsStringEqual_beyond h] at hq
    contradiction

theorem mdnsDiscoveryAnswers_beyond (h : size ≤ offset) (queryId : UInt16)
    (answerRrs records : Nat) (state : σ) :
    mdnsDiscoveryAnswers callback sock src m size queryId answerRrs offset records state =
      (.goesOn offset,records,state) := by
  cases answerRrs with
  | zero => rfl
  | succ answerRrs =>
    rw [mdnsDiscoveryAnswers]
    simp only [mdnsStringEqual_beyond h,mdnsStringSkip_beyond h,Option.map_none,Option.none_or]

/-- A question may end behind the datagram, and its type and class be read there. Then it does
not matter what they are: nothing follows. -/
theorem mdnsVerifyQuestions_apart {m' : Mem} (h : AgreeBelow size m m') (questions offset : Nat) :
    mdnsVerifyQuestions m size questions offset = mdnsVerifyQuestions m' size questions offset ∨
      (∀ q ∈ mdnsVerifyQuestions m size questions offset, size ≤ q) ∧
        ∀ q ∈ mdnsVerifyQuestions m' size questions offset, size ≤ q := by
  have hequal (offset : Nat) :
      mdnsStringEqual m size offset mdnsServicesQueryMem mdnsServicesQuery.length 12 =
        mdnsStringEqual m' size offset mdnsServicesQueryMem mdnsServicesQuery.length 12 :=
    mdnsStringEqualLoop_congr h _ _ _ _ _ _ _
  induction questions generalizing offset with
  | zero => exact Or.inl rfl
  | succ questions ih =>
    simp only [mdnsVerifyQuestions,← hequal]
    cases hs : mdnsStringEqual m size offset mdnsServicesQueryMem mdnsServicesQuery.length 12 with
    | none => exact Or.inl rfl
    | some stops =>
      obtain ⟨stop,_⟩ := stops
      simp only
      by_cases hin : stop + 4 ≤ size
      · rw [h.be16 (show stop + 2 ≤ size by omega),h.be16 (show stop + 2 + 2 ≤ size by omega)]
        split
        · exact Or.inl rfl
        · exact ih (stop + 4)
      · have hrest (k : Mem) (p : Prop) [Decidable p] : ∀ q ∈ (if p then none else
            mdnsVerifyQuestions k size questions (stop + 4)), size ≤ q := by
          split
          · simp
          · exact mdnsVerifyQuestions_beyond (by omega) questions
        exact Or.inr ⟨hrest m _,hrest m' _⟩

end Beyond

section Receivers

variable {σ : Type} {callback : Mem → MdnsEntry → σ → Int × σ} (sock : Int) (src : Sockaddr)
  {capacity : Nat} {datagram : Bytes} (buffer : Mem) (state : σ)

theorem mdnsQueryRecv_beyond (onlyQueryId : Int)
    (h : ∀ q ∈ mdnsSkipQuestions (buffer.write 0 (datagram.take capacity))
      (datagram.take capacity).length
      ((buffer.write 0 (datagram.take capacity)).be16 4).toNat 12,
        (datagram.take capacity).length ≤ q) :
    (mdnsQueryRecv callback sock capacity buffer (some (src,datagram)) onlyQueryId state).2 =
      (0,state) := by
  rw [mdnsQueryRecv]
  simp only
  split
  · rfl
  · split
    · rfl
    · split
      · rfl
      · rename_i offset hoffset
        have hbeyond := h offset hoffset
        obtain ⟨s₁,h₁⟩ := mdnsSection_beyond callback sock src hbeyond .answer
          ((buffer.write 0 (datagram.take capacity)).be16 0)
          ((buffer.write 0 (datagram.take capacity)).be16 6) false 0 state
        obtain ⟨s₂,h₂⟩ := mdnsSection_beyond callback sock src hbeyond .authority
          ((buffer.write 0 (datagram.take capacity)).be16 0)
          ((buffer.write 0 (datagram.take capacity)).be16 8) s₁ 0 state
        obtain ⟨s₃,h₃⟩ := mdnsSection_beyond callback sock src hbeyond .additional
          ((buffer.write 0 (datagram.take capacity)).be16 0)
          ((buffer.write 0 (datagram.take capacity)).be16 10) s₂ 0 state
        rw [h₁,h₂,h₃]

theorem mdnsDiscoveryRecv_beyond
    (h : ∀ q ∈ mdnsVerifyQuestions (buffer.write 0 (datagram.take capacity))
      (datagram.take capacity).length
      ((buffer.write 0 (datagram.take capacity)).be16 4).toNat 12,
        (datagram.take capacity).length ≤ q) :
    (mdnsDiscoveryRecv callback sock capacity buffer (some (src,datagram)) state).2 =
      (0,state) := by
  rw [mdnsDiscoveryRecv]
  simp only
  split
  · rfl
  · split
    · rfl
    · split
      · rfl
      · rename_i offset hoffset
        have hbeyond := h offset hoffset
        rw [mdnsDiscoveryAnswers_beyond callback sock src hbeyond]
        obtain ⟨s₁,h₁⟩ := mdnsSection_beyond callback sock src hbeyond .authority
          ((buffer.write 0 (datagram.take capacity)).be16 0)
          ((buffer.write 0 (datagram.take capacity)).be16 8) false 0 state
        obtain ⟨s₂,h₂⟩ := mdnsSection_beyond callback sock src hbeyond .additional
          ((buffer.write 0 (datagram.take capacity)).be16 0)
          ((buffer.write 0 (datagram.take capacity)).be16 10) s₁ 0 state
        simp only
        rw [h₁,h₂]

variable (buffer' : Mem)

theorem mdnsQueryRecv_alone (hcallback : ReadsWithin callback) (onlyQueryId : Int) :
    (mdnsQueryRecv callback sock capacity buffer (some (src,datagram)) onlyQueryId state).2 =
      (mdnsQueryRecv callback sock capacity buffer' (some (src,datagram)) onlyQueryId state).2 := by
  have h : AgreeBelow (datagram.take capacity).length (buffer.write 0 (datagram.take capacity))
      (buffer'.write 0 (datagram.take capacity)) := agreeBelow_write_same _ _ _
  by_cases hshort : (datagram.take capacity).length ≤ 12
  · rw [mdnsQueryRecv_beyond sock src buffer state onlyQueryId (mdnsSkipQuestions_beyond hshort _),
      mdnsQueryRecv_beyond sock src buffer' state onlyQueryId (mdnsSkipQuestions_beyond hshort _)]
  · rw [mdnsQueryRecv,mdnsQueryRecv]
    simp only [h.be16 (show 0 + 2 ≤ _ by omega),h.be16 (show 4 + 2 ≤ _ by omega),
      h.be16 (show 6 + 2 ≤ _ by omega),h.be16 (show 8 + 2 ≤ _ by omega),
      h.be16 (show 10 + 2 ≤ _ by omega),mdnsSkipQuestions_congr h,mdnsSection_within hcallback h]
    split
    · rfl
    · split
      · rfl
      · split <;> rfl

theorem mdnsDiscoveryRecv_alone (hcallback : ReadsWithin callback) :
    (mdnsDiscoveryRecv callback sock capacity buffer (some (src,datagram)) state).2 =
      (mdnsDiscoveryRecv callback sock capacity buffer' (some (src,datagram)) state).2 := by
  have h : AgreeBelow (datagram.take capacity).length (buffer.write 0 (datagram.take capacity))
      (buffer'.write 0 (datagram.take capacity)) := agreeBelow_write_same _ _ _
  by_cases hshort : (datagram.take capacity).length ≤ 12
  · rw [mdnsDiscoveryRecv_beyond sock src buffer state (mdnsVerifyQuestions_beyond hshort _),
      mdnsDiscoveryRecv_beyond sock src buffer' state (mdnsVerifyQuestions_beyond hshort _)]
  · have h₄ := h.be16 (show 4 + 2 ≤ (datagram.take capacity).length by omega)
    rcases mdnsVerifyQuestions_apart h ((buffer.write 0 (datagram.take capacity)).be16 4).toNat 12
      with hsame | ⟨hbeyond,hbeyond'⟩
    · rw [mdnsDiscoveryRecv,mdnsDiscoveryRecv]
      simp only [← h₄,← hsame,h.be16 (show 0 + 2 ≤ _ by omega),h.be16 (show 2 + 2 ≤ _ by omega),
        h.be16 (show 6 + 2 ≤ _ by omega),h.be16 (show 8 + 2 ≤ _ by omega),
        h.be16 (show 10 + 2 ≤ _ by omega),mdnsDiscoveryAnswers_within sock src hcallback h,
        mdnsSection_within hcallback h]
      split
      · rfl
      · split
        · rfl
        · split
          · rfl
          · split <;> rfl
    · rw [mdnsDiscoveryRecv_beyond sock src buffer state hbeyond,
        mdnsDiscoveryRecv_beyond sock src buffer' state (by rw [← h₄]; exact hbeyond')]

end Receivers

/-- A reply stands alone: of a datagram of any length, even one that is cut in its header or in a
question, the receivers report the same whatever else is in memory, if their callback keeps to
the datagram. -/
theorem replies_stand_alone {σ : Type} (callback : Mem → MdnsEntry → σ → Int × σ)
    (hcallback : ReadsWithin callback) (sock : Int) (capacity : Nat) (buffer buffer' : Mem)
    (src : Sockaddr) (datagram : Bytes) (state : σ) :
    (∀ onlyQueryId,
      (mdnsQueryRecv callback sock capacity buffer (some (src,datagram)) onlyQueryId state).2 =
        (mdnsQueryRecv callback sock capacity buffer' (some (src,datagram)) onlyQueryId state).2) ∧
      (mdnsDiscoveryRecv callback sock capacity buffer (some (src,datagram)) state).2 =
        (mdnsDiscoveryRecv callback sock capacity buffer' (some (src,datagram)) state).2 :=
  ⟨mdnsQueryRecv_alone sock src buffer state buffer' hcallback,
    mdnsDiscoveryRecv_alone sock src buffer state buffer' hcallback⟩

theorem replies_stand_alone_overhanging :
    (mdnsDiscoveryRecv (fun _ e told => ((0 : Int),told ++ [e])) 4 64 (fun _ => 0)
        (some (.other,overhanging)) []).2 =
      (mdnsDiscoveryRecv (fun _ e told => ((0 : Int),told ++ [e])) 4 64 (fun _ => 255)
        (some (.other,overhanging)) []).2 :=
  (replies_stand_alone (fun _ (e : MdnsEntry) told => ((0 : Int),told ++ [e]))
    (fun _ _ _ _ _ => rfl) 4 64 (fun _ => 0) (fun _ => 255) .other overhanging []).2

end WlrRemote
