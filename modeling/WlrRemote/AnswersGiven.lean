import WlrRemote.MessageConfined
import WlrRemote.ReadsBounded
import Mathlib.Data.List.Forall2

set_option autoImplicit false

namespace WlrRemote
open Octets

theorem mdnsFollowRefs_start {m : Mem} {size budget offset a : Nat}
    (h : (mdnsFollowRefs m size (budget + 1) offset false).offset = some a)
    (href : (mdnsFollowRefs m size (budget + 1) offset false).ref = false) : a = offset + 1 := by
  unfold mdnsFollowRefs at h href
  by_cases his : mdnsIsStringRef (m offset) = true
  · by_cases hshort : size < offset + 2
    · simp [his,hshort] at h
    · by_cases hfar : size ≤ (m.be16 offset).toNat % 0x4000
      · simp [his,hshort,hfar] at h
      · simp [his,hshort,hfar,mdnsFollowRefs_true] at href
  · by_cases hshort : size < offset + 1 + (m offset).toNat
    · simp [his,hshort] at h
    · simpa [his,hshort,eq_comm] using h

theorem mdnsStringSkipLoop_ge {m : Mem} {size budget cur stop : Nat}
    (h : mdnsStringSkipLoop m size budget cur = some stop) :
    cur + 1 ≤ stop ∧ (m cur ≠ 0 → cur + 2 ≤ stop) := by
  induction budget generalizing cur with
  | zero => contradiction
  | succ budget ih =>
    simp only [mdnsStringSkipLoop] at h
    cases ha : (mdnsGetNextSubstring m size cur).offset with
    | none => simp [ha] at h
    | some a =>
      simp only [ha] at h
      by_cases hin : size ≤ cur
      · simp [mdnsGetNextSubstring,hin] at ha
      · by_cases hzero : m cur = 0
        · simp only [mdnsGetNextSubstring,hin,hzero,↓reduceIte,Option.some.injEq,
            Bool.false_eq_true] at ha h
          exact ⟨by omega,fun hne => absurd hzero hne⟩
        · simp only [mdnsGetNextSubstring,hin,hzero,↓reduceIte] at ha h
          have hne : (m cur).toNat ≠ 0 := fun hz => hzero (UInt8.toNat_inj.mp hz)
          cases href : (mdnsFollowRefs m size 16 cur false).ref with
          | true =>
            simp only [href,↓reduceIte,Option.some.injEq] at h
            omega
          | false =>
            have hlength := @mdnsFollowRefs_length m size 15 cur a ha href
            have hstart := mdnsFollowRefs_start ha href
            rw [hlength] at h
            simp only [href,Bool.false_eq_true,↓reduceIte,hne] at h
            have hrest := (ih h).1
            omega

theorem nameAt_zero {m : Mem} {size offset : Nat} (h : m offset = 0) : nameAt m size offset = [] := by
  unfold nameAt mdnsStringExtract mdnsMaxSubstrings
  rw [mdnsStringExtractLoop]
  by_cases hin : size ≤ offset <;> simp [mdnsGetNextSubstring,hin,h]

theorem mdnsReadQuestion_next {m : Mem} {size offset : Nat} {q : MdnsQuestion}
    (h : mdnsReadQuestion m size offset = some q) :
    offset + 5 ≤ q.next ∧ q.next ≤ size + 4 ∧ (nameAt m size offset ≠ [] → offset + 6 ≤ q.next) := by
  rw [mdnsReadQuestion_eq] at h
  obtain ⟨stop,hskip,rfl⟩ := Option.map_eq_some_iff.mp h
  obtain ⟨hmin,hmore⟩ := mdnsStringSkipLoop_ge hskip
  have hmax := mdnsStringSkip_le hskip
  refine ⟨by simp only; omega,by simp only; omega,fun hname => ?_⟩
  have hstop := hmore fun hzero => hname (nameAt_zero hzero)
  simp only
  omega

theorem questionsRead_named (m : Mem) (size questions offset : Nat) :
    offset + 6 * ((questionsRead m size questions offset).countP
      fun x => nameAt m size x.1 ≠ []) ≤ max offset (size + 4) := by
  induction questions generalizing offset with
  | zero => simp [questionsRead]
  | succ questions ih =>
    rw [questionsRead]
    cases hread : mdnsReadQuestion m size offset with
    | none => simp
    | some q =>
      obtain ⟨hmin,hmax,hname⟩ := mdnsReadQuestion_next hread
      simp only
      split
      · simp
      · have hrest := ih q.next
        rw [List.countP_cons]
        simp only [decide_eq_true_eq]
        split
        · rename_i hne
          have hsix := hname hne
          omega
        · omega

/-- The whole effect of a datagram: it is received, and its questions are taken in order. -/
theorem advertiseRespondRequest_eq (service : AdvertiseService) (sock : Int) (src : Sockaddr)
    (datagram : Bytes) (state : ResponderState) :
    advertiseRespondRequest service sock (some (src,datagram)) state =
      let received := datagram.take advertiseBufferCapacity
      let data := state.buffer.write 0 received
      { answerQuestions service sock src data received.length
          (datagramQuestions data received.length) state with buffer := data } := by
  have hrecord (data : Mem) (e : MdnsEntry) (state : ResponderState) (he : e.entry ≠ .question) :
      serviceCallback service data e state = (0,state) := serviceCallback_of_record state he
  rw [advertiseRespondRequest_take]
  have hcap : (datagram.take advertiseBufferCapacity).length ≤ advertiseBufferCapacity :=
    List.length_take_le _ _
  generalize datagram.take advertiseBufferCapacity = received at hcap
  by_cases hlen : 0 < received.length
  · have hlisten := mdnsSocketListen_state hrecord sock advertiseBufferCapacity state.buffer src
      hlen hcap state
    have hbuffer : (mdnsSocketListen (serviceCallback service) sock advertiseBufferCapacity
        state.buffer (some (src,received)) state).1 = state.buffer.write 0 received := by
      have hne : ¬ received.length = 0 := by omega
      simp only [mdnsSocketListen,List.take_of_length_le hcap,hne,↓reduceIte]
    simp only [advertiseRespondRequest]
    rw [hlisten,hbuffer]
    simp only
    rw [mdnsQuestionLoop_state serviceCallback_zero]
    rfl
  · have hnil : received = [] := List.length_eq_zero_iff.mp (by omega)
    subst hnil
    simp [advertiseRespondRequest,mdnsSocketListen,answerQuestions,datagramQuestions,
      questionsRead_beyond]

def questionAnswered (service : AdvertiseService) (data : Mem) (size : Nat)
    (x : Nat × MdnsQuestion) : Bool :=
  (serviceAnswer service (nameAt data size x.1) x.2.rtype).isSome

/-- The datagram that answers a question: it leaves by the socket that the question came by, to
the asker if the question wants that, and then says whose question it was. -/
structure AnswerOf (service : AdvertiseService) (sock : Int) (src : Sockaddr) (data : Mem)
    (size : Nat) (x : Nat × MdnsQuestion) (d : Sent) : Prop where
  onSock : d.sock = sock
  goesTo : d.dest = if x.2.rclass &&& mdnsUnicastResponse ≠ 0 then some src else none
  length_le : d.bytes.length ≤ sendBufferCapacity
  header : ∃ answer additional,
    serviceAnswer service (nameAt data size x.1) x.2.rtype = some (answer,additional) ∧
      d.bytes.take 12 = (answerHeader (questionEntry sock src size (data.be16 0) x.1 x.2)
        additional).bytes

theorem answerMessage_dest (name : Bytes) (e : MdnsEntry) (sendBuffer : Mem) (answer : MdnsRecord)
    (additional : List MdnsRecord) : (answerMessage name e sendBuffer answer additional).2 =
      if e.rclass &&& mdnsUnicastResponse ≠ 0 then some e.src else none := by
  unfold answerMessage
  split <;> rfl

section Answers

variable {hostname : HostName} {service : AdvertiseService} (h : ServiceOf hostname service)
include h

theorem ServiceOf.serviceAnswer_nil (rtype : UInt16) : serviceAnswer service [] rtype = none := by
  cases ha : serviceAnswer service [] rtype with
  | none => rfl
  | some records =>
    obtain ⟨answer,additional⟩ := records
    have hdot : ([] : Bytes) ≠ hostname.bytes ++ dot :: SERVICE_NAME := by simp
    rcases h.serviceAnswer_cases ha with ⟨hn,-⟩ | ⟨hn,-⟩ | ⟨hn,-⟩ | ⟨hn,-⟩ | ⟨hn,-⟩
    · exact absurd hn (by decide)
    · rw [h.serviceName] at hn
      exact absurd hn (by decide)
    · rw [h.serviceInstance] at hn
      exact absurd hn hdot
    · rw [h.qualifiedHostname] at hn
      exact absurd (List.append_eq_nil_iff.mp hn.symm).2 (by decide)
    · rw [h.qualifiedHostname] at hn
      exact absurd (List.append_eq_nil_iff.mp hn.symm).2 (by decide)

theorem ServiceOf.answerQuestion (sock : Int) (src : Sockaddr) (data : Mem) (size : Nat)
    (x : Nat × MdnsQuestion) (state : ResponderState) :
    let after := (serviceCallback service data (questionEntry sock src size (data.be16 0) x.1 x.2)
      state).2
    (if questionAnswered service data size x then
      ∃ d, after.sent = state.sent ++ [d] ∧ AnswerOf service sock src data size x d
      else after.sent = state.sent) ∧
      ∀ i, sendBufferCapacity ≤ i → after.sendBuffer i = state.sendBuffer i := by
  intro after
  cases ha : serviceAnswer service (nameAt data size x.1) x.2.rtype with
  | none =>
    have hafter : after = state := congrArg Prod.snd
      (serviceCallback_of_none (e := questionEntry sock src size (data.be16 0) x.1 x.2) state ha)
    simp [questionAnswered,ha,hafter]
  | some records =>
    obtain ⟨answer,additional⟩ := records
    let e := questionEntry sock src size (data.be16 0) x.1 x.2
    have hafter : after = _ :=
      congrArg Prod.snd (serviceCallback_of_some (e := e) state rfl ha)
    obtain ⟨bytes,hsent,-,hmax,hhead⟩ := h.answerMessage_sent (e := e) ha state.sendBuffer
    simp only [questionAnswered,ha,Option.isSome_some,↓reduceIte]
    constructor
    · exact ⟨_,by rw [hafter]; exact congrArg (state.sent ++ ·) hsent,rfl,
        answerMessage_dest _ e _ _ _,hmax,answer,additional,ha,hhead⟩
    · intro i hi
      rw [hafter]
      simp only [answerMessage]
      split
      · exact (mdnsQueryAnswerUnicast_confined state.sendBuffer sendBufferCapacity e.queryId e.rtype
          _ answer [] additional).above i hi
      · exact (mdnsAnswerMulticastRclassTtl_confined state.sendBuffer sendBufferCapacity answer []
          additional mdnsClassIn 60).above i hi

theorem ServiceOf.answerQuestions_given (sock : Int) (src : Sockaddr) (data : Mem) (size : Nat)
    (questions : List (Nat × MdnsQuestion)) (state : ResponderState) :
    let after := answerQuestions service sock src data size questions state
    (∃ out, after.sent = state.sent ++ out ∧ List.Forall₂ (AnswerOf service sock src data size)
      (questions.filter (questionAnswered service data size)) out) ∧
      ∀ i, sendBufferCapacity ≤ i → after.sendBuffer i = state.sendBuffer i := by
  induction questions generalizing state with
  | nil => exact ⟨⟨[],by simp [answerQuestions],by simp⟩,fun _ _ => rfl⟩
  | cons x questions ih =>
    obtain ⟨hfirst,habove⟩ := h.answerQuestion sock src data size x state
    obtain ⟨⟨out,hout,hanswers⟩,habove'⟩ := ih (serviceCallback service data
      (questionEntry sock src size (data.be16 0) x.1 x.2) state).2
    refine ⟨?_,fun i hi => (habove' i hi).trans (habove i hi)⟩
    cases hx : questionAnswered service data size x with
    | true =>
      simp only [hx,↓reduceIte] at hfirst
      obtain ⟨d,hd,hof⟩ := hfirst
      rw [List.filter_cons_of_pos hx]
      exact ⟨d :: out,by rw [answerQuestions,List.foldl_cons]; exact hout.trans (by simp [hd]),
        .cons hof hanswers⟩
    | false =>
      simp only [hx,Bool.false_eq_true,↓reduceIte] at hfirst
      rw [List.filter_cons_of_neg (by simp [hx])]
      exact ⟨out,by rw [answerQuestions,List.foldl_cons]; exact hout.trans (by rw [hfirst]),hanswers⟩

theorem ServiceOf.answered_le (data : Mem) (size : Nat) :
    6 * ((datagramQuestions data size).filter (questionAnswered service data size)).length ≤
      size - 8 := by
  have hnamed := questionsRead_named data size (data.be16 4).toNat 12
  by_cases hsize : size ≤ 12
  · simp [datagramQuestions_short hsize]
  · have hcount : ((datagramQuestions data size).filter (questionAnswered service data size)).length ≤
        (questionsRead data size (data.be16 4).toNat 12).countP fun x => nameAt data size x.1 ≠ [] := by
      rw [← List.countP_eq_length_filter,datagramQuestions]
      refine List.filter_sublist.countP_le.trans (List.countP_mono_left fun x _ hx => ?_)
      rw [decide_eq_true_eq]
      intro hname
      rw [questionAnswered,hname,h.serviceAnswer_nil] at hx
      contradiction
    omega

end Answers

/-- Whatever is received, each question with an answer gets one datagram, in order, and at most
one for every six bytes received; nothing is written outside of the two buffers. -/
theorem answers_given (b : BuiltService) (sock : Int) (src : Sockaddr) (datagram : Bytes)
    (state : ResponderState) :
    let received := datagram.take advertiseBufferCapacity
    let data := state.buffer.write 0 received
    let after := advertiseRespondRequest b.service sock (some (src,datagram)) state
    (∃ out, after.sent = state.sent ++ out ∧
      List.Forall₂ (AnswerOf b.service sock src data received.length)
        ((datagramQuestions data received.length).filter
          (questionAnswered b.service data received.length)) out ∧
      6 * out.length ≤ received.length - 8) ∧
    (∀ i, sendBufferCapacity ≤ i → after.sendBuffer i = state.sendBuffer i) ∧
    ∀ i, advertiseBufferCapacity ≤ i → after.buffer i = state.buffer i := by
  obtain ⟨hostname,hof⟩ := b.serviceOf
  intro received data after
  have hafter : after = _ := advertiseRespondRequest_eq b.service sock src datagram state
  obtain ⟨⟨out,hout,hanswers⟩,habove⟩ := hof.answerQuestions_given sock src data received.length
    (datagramQuestions data received.length) state
  have hcap : received.length ≤ advertiseBufferCapacity := List.length_take_le _ _
  refine ⟨⟨out,by rw [hafter]; exact hout,hanswers,?_⟩,?_,?_⟩
  · rw [← hanswers.length_eq]
    exact hof.answered_le data received.length
  · intro i hi
    rw [hafter]
    exact habove i hi
  · intro i hi
    rw [hafter]
    exact Mem.write_above (show 0 + received.length ≤ i by omega)

end WlrRemote
