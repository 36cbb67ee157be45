import WlrRemote.Responders

set_option autoImplicit false

namespace WlrRemote
open Octets

theorem mdnsStringEqualLoop_end {lhs rhs : Mem} {sizeLhs sizeRhs budget lhsCur rhsCur stop : Nat}
    {rhsEnd : Option Nat} {ends : Nat × Nat}
    (h : mdnsStringEqualLoop lhs sizeLhs rhs sizeRhs budget lhsCur rhsCur (some stop) rhsEnd =
      some ends) : ends.1 = stop := by
  induction budget generalizing lhsCur rhsCur rhsEnd with
  | zero => contradiction
  | succ budget ih =>
    rw [mdnsStringEqualLoop] at h
    simp only [Option.isNone_some,Bool.and_false,Bool.false_eq_true,↓reduceIte] at h
    split at h
    · split at h
      · contradiction
      · split at h
        · contradiction
        · split at h
          · cases h
            rfl
          · exact ih h
    · contradiction

theorem mdnsStringEqualLoop_skip {lhs rhs : Mem} {sizeLhs sizeRhs budget lhsCur rhsCur : Nat}
    {rhsEnd : Option Nat} {ends : Nat × Nat}
    (h : mdnsStringEqualLoop lhs sizeLhs rhs sizeRhs budget lhsCur rhsCur none rhsEnd =
      some ends) : mdnsStringSkipLoop lhs sizeLhs budget lhsCur = some ends.1 := by
  induction budget generalizing lhsCur rhsCur rhsEnd with
  | zero => contradiction
  | succ budget ih =>
    rw [mdnsStringEqualLoop] at h
    rw [mdnsStringSkipLoop]
    simp only [Option.isNone_none,Bool.and_true] at h ⊢
    split at h
    · rename_i lhsOffset rhsOffset hl hr
      simp only [hl]
      split at h
      · contradiction
      · split at h
        · contradiction
        · cases href : (mdnsGetNextSubstring lhs sizeLhs lhsCur).ref with
          | true =>
            simp only [href,↓reduceIte] at h ⊢
            split at h
            · cases h
              rfl
            · rw [mdnsStringEqualLoop_end h]
          | false =>
            simp only [href,Bool.false_eq_true,↓reduceIte] at h ⊢
            split at h
            · rename_i hzero
              cases h
              simp [hzero]
            · rename_i hne
              simp only [hne,↓reduceIte]
              exact ih h
    · contradiction

/-- The type and the class stand where the name ends, whichever of the two readers found it. -/
theorem mdnsReadQuestion_eq (buffer : Mem) (size questionOffset : Nat) :
    mdnsReadQuestion buffer size questionOffset =
      (mdnsStringSkip buffer size questionOffset).map fun stop =>
        ⟨(mdnsStringEqual buffer size questionOffset mdnsServicesQueryMem
            mdnsServicesQuery.length 12).isSome,stop - questionOffset,buffer.be16 stop,
          buffer.be16 (stop + 2),stop + 4⟩ := by
  unfold mdnsReadQuestion
  cases he : mdnsStringEqual buffer size questionOffset mdnsServicesQueryMem
      mdnsServicesQuery.length 12 with
  | none => rfl
  | some ends =>
    rw [mdnsStringSkip,mdnsStringEqualLoop_skip he]
    rfl

def questionEntry (sock : Int) (src : Sockaddr) (size : Nat) (queryId : UInt16) (offset : Nat)
    (q : MdnsQuestion) : MdnsEntry :=
  ⟨sock,src,.question,queryId,q.rtype,q.rclass,0,size,offset,q.length,offset,q.length⟩

def questionsRead (buffer : Mem) (size : Nat) : Nat → Nat → List (Nat × MdnsQuestion)
  | 0, _ => []
  | questions + 1, offset =>
    match mdnsReadQuestion buffer size offset with
    | none => []
    | some q =>
      if !mdnsClassAccepted q.rclass then []
      else (offset,q) :: questionsRead buffer size questions q.next

/-- The loop passes over the name of DNS-SD unless the flags are zero. -/
def questionHanded (flags : UInt16) (q : MdnsQuestion) : Bool := !(q.dnsSd && flags ≠ 0)

def datagramQuestions (buffer : Mem) (size : Nat) : List (Nat × MdnsQuestion) :=
  (questionsRead buffer size (buffer.be16 4).toNat 12).filter fun x =>
    questionHanded (buffer.be16 2) x.2

section Listen

variable {σ : Type} {callback : Mem → MdnsEntry → σ → Int × σ}

theorem mdnsQuestionLoop_state (hzero : ∀ data e state, (callback data e state).1 = 0) (sock : Int)
    (src : Sockaddr) (buffer : Mem) (size : Nat) (queryId flags : UInt16) (questions : Nat)
    (p : MdnsProgress σ) :
    (mdnsQuestionLoop callback sock src buffer size queryId flags questions p).state =
      ((questionsRead buffer size questions p.offset).filter fun x => questionHanded flags x.2).foldl
        (fun state x => (callback buffer (questionEntry sock src size queryId x.1 x.2) state).2)
        p.state := by
  induction questions generalizing p with
  | zero => rfl
  | succ questions ih =>
    unfold mdnsQuestionLoop questionsRead
    cases hread : mdnsReadQuestion buffer size p.offset with
    | none => rfl
    | some q =>
      cases hclass : mdnsClassAccepted q.rclass with
      | false => simp [hclass]
      | true =>
        simp only [hclass,Bool.not_true,Bool.false_eq_true,↓reduceIte]
        cases hsd : q.dnsSd && flags ≠ 0 with
        | true =>
          simp only [questionHanded,hsd,List.filter_cons,Bool.not_true,Bool.false_eq_true,↓reduceIte]
          exact ih _
        | false =>
          simp only [questionHanded,hsd,List.filter_cons,Bool.not_false,Bool.false_eq_true,
            ↓reduceIte,List.foldl_cons,hzero,ne_eq,not_true_eq_false]
          exact ih _

end Listen

theorem mdnsStringSkip_beyond {buffer : Mem} {size offset : Nat} (h : size ≤ offset) :
    mdnsStringSkip buffer size offset = none := by
  have hnext : mdnsGetNextSubstring buffer size offset = ⟨none,0,false⟩ := by
    simp [mdnsGetNextSubstring,h]
  simp [mdnsStringSkip,mdnsStringSkipLoop,hnext]

theorem questionsRead_beyond {buffer : Mem} {size offset : Nat} (h : size ≤ offset)
    (questions : Nat) : questionsRead buffer size questions offset = [] := by
  cases questions with
  | zero => rfl
  | succ questions =>
    rw [questionsRead,mdnsReadQuestion_eq,mdnsStringSkip_beyond h]
    rfl

def answerQuestions (service : AdvertiseService) (sock : Int) (src : Sockaddr) (data : Mem)
    (size : Nat) (questions : List (Nat × MdnsQuestion)) (state : ResponderState) :
    ResponderState :=
  questions.foldl
    (fun state x =>
      (serviceCallback service data (questionEntry sock src size (data.be16 0) x.1 x.2) state).2)
    state

/-- What a responder sends on a datagram, it sends on the questions it is handed. -/
theorem advertiseRespondRequest_questions (service : AdvertiseService) (sock : Int)
    (src : Sockaddr) {datagram : Bytes} (hcap : datagram.length ≤ advertiseBufferCapacity)
    (state : ResponderState) :
    (advertiseRespondRequest service sock (some (src,datagram)) state).sent =
      let data := state.buffer.write 0 datagram
      (answerQuestions service sock src data datagram.length
        (datagramQuestions data datagram.length) state).sent := by
  have hrecord (data : Mem) (e : MdnsEntry) (state : ResponderState) (he : e.entry ≠ .question) :
      serviceCallback service data e state = (0,state) := serviceCallback_of_record state he
  by_cases hlen : 0 < datagram.length
  · have hlisten := mdnsSocketListen_state hrecord sock advertiseBufferCapacity state.buffer src
      hlen hcap state
    simp only [advertiseRespondRequest]
    rw [hlisten]
    simp only
    rw [mdnsQuestionLoop_state serviceCallback_zero]
    rfl
  · have hnil : datagram = [] := List.length_eq_zero_iff.mp (by omega)
    subst hnil
    simp [advertiseRespondRequest,mdnsSocketListen,answerQuestions,datagramQuestions,
      questionsRead_beyond]

def nameAt (buffer : Mem) (size offset : Nat) : Bytes :=
  ((mdnsStringExtract buffer size offset 256).map Prod.fst).getD []

theorem mdnsFollowRefs_found {m : Mem} {size budget offset : Nat} {ref : Bool} {a : Nat}
    (h : (mdnsFollowRefs m size budget offset ref).offset = some a) :
    a + (mdnsFollowRefs m size budget offset ref).length ≤ size := by
  fun_induction mdnsFollowRefs m size budget offset ref with
  | case1 | case2 | case3 | case5 => contradiction
  | case4 =>
    rename_i ih
    exact ih h
  | case6 =>
    obtain rfl := Option.some.inj h
    simp only
    omega

theorem mdnsGetNextSubstring_found {m : Mem} {size offset a : Nat}
    (h : (mdnsGetNextSubstring m size offset).offset = some a) :
    a + (mdnsGetNextSubstring m size offset).length ≤ size := by
  unfold mdnsGetNextSubstring at h ⊢
  by_cases hin : size ≤ offset
  · simp [hin] at h
  · by_cases hzero : m offset = 0
    · simp only [hin,hzero,↓reduceIte,Option.some.injEq] at h ⊢
      omega
    · simp only [hin,hzero,↓reduceIte] at h ⊢
      exact mdnsFollowRefs_found h

section Names

variable {m m' : Mem} {size : Nat} (h : AgreeBelow size m m')
include h

theorem mdnsFollowRefs_congr (budget : Nat) {offset : Nat} (ho : offset < size) (ref : Bool) :
    mdnsFollowRefs m size budget offset ref = mdnsFollowRefs m' size budget offset ref := by
  induction budget generalizing offset ref with
  | zero =>
    unfold mdnsFollowRefs
    rw [h offset ho]
    split
    · split
      · rfl
      · rw [h.be16 (by omega)]
    · rfl
  | succ budget ih =>
    unfold mdnsFollowRefs
    rw [h offset ho]
    split
    · split
      · rfl
      · rw [h.be16 (by omega)]
        simp only
        split
        · rfl
        · exact ih (by omega) true
    · rfl

theorem mdnsGetNextSubstring_congr (offset : Nat) :
    mdnsGetNextSubstring m size offset = mdnsGetNextSubstring m' size offset := by
  unfold mdnsGetNextSubstring
  split
  · rfl
  · rw [h offset (by omega),mdnsFollowRefs_congr h 16 (by omega)]

theorem mdnsStringSkipLoop_congr (budget cur : Nat) :
    mdnsStringSkipLoop m size budget cur = mdnsStringSkipLoop m' size budget cur := by
  induction budget generalizing cur with
  | zero => rfl
  | succ budget ih => simp only [mdnsStringSkipLoop,mdnsGetNextSubstring_congr h,ih]

theorem mdnsStringEqualLoop_congr (rhs : Mem) (sizeRhs budget lhsCur rhsCur : Nat)
    (lhsEnd rhsEnd : Option Nat) :
    mdnsStringEqualLoop m size rhs sizeRhs budget lhsCur rhsCur lhsEnd rhsEnd =
      mdnsStringEqualLoop m' size rhs sizeRhs budget lhsCur rhsCur lhsEnd rhsEnd := by
  induction budget generalizing lhsCur rhsCur lhsEnd rhsEnd with
  | zero => rfl
  | succ budget ih =>
    have hnext := mdnsGetNextSubstring_congr h lhsCur
    simp only [mdnsStringEqualLoop,← hnext,ih]
    cases ha : (mdnsGetNextSubstring m size lhsCur).offset with
    | none => rfl
    | some a =>
      have hle := mdnsGetNextSubstring_found ha
      cases hr : (mdnsGetNextSubstring rhs sizeRhs rhsCur).offset with
      | none => rfl
      | some b =>
        simp only
        split
        · rfl
        · rename_i hlen
          rw [not_not] at hlen
          rw [h.read (by omega)]

theorem mdnsStringExtractLoop_congr (budget cur : Nat) (stop : Option Nat) (remain : Nat)
    (dst : Bytes) : mdnsStringExtractLoop m size budget cur stop remain dst =
      mdnsStringExtractLoop m' size budget cur stop remain dst := by
  induction budget generalizing cur stop remain dst with
  | zero => rfl
  | succ budget ih =>
    have hnext := mdnsGetNextSubstring_congr h cur
    simp only [mdnsStringExtractLoop,← hnext,ih]
    cases ha : (mdnsGetNextSubstring m size cur).offset with
    | none => rfl
    | some a =>
      have hle := mdnsGetNextSubstring_found ha
      simp only
      rw [h.read (by omega)]

theorem mdnsStringExtract_congr (offset capacity : Nat) :
    mdnsStringExtract m size offset capacity = mdnsStringExtract m' size offset capacity :=
  mdnsStringExtractLoop_congr h _ _ _ _ _

end Names

end WlrRemote
