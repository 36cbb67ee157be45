import WlrRemote.MessageDecoding
import WlrRemote.QuestionsHanded

/-!
What earlier datagrams left behind a received one: no name is read there, but the type
and the class of a question that ends too early are.
-/

set_option autoImplicit false

namespace WlrRemote
open Octets

def MdnsQuestion.fieldsFrom (m : Mem) (q : MdnsQuestion) : MdnsQuestion :=
  { q with rtype := m.be16 (q.next - 4), rclass := m.be16 (q.next - 2) }

theorem mdnsReadQuestion_fields {m : Mem} {size offset : Nat} {q : MdnsQuestion}
    (h : mdnsReadQuestion m size offset = some q) : q.fieldsFrom m = q ∧ 4 ≤ q.next := by
  rw [mdnsReadQuestion_eq] at h
  obtain ⟨stop,-,rfl⟩ := Option.map_eq_some_iff.mp h
  exact ⟨rfl,Nat.le_add_left 4 stop⟩

theorem mdnsReadQuestion_congr {m m' : Mem} {size : Nat} (h : AgreeBelow size m m')
    (offset : Nat) : mdnsReadQuestion m' size offset =
      (mdnsReadQuestion m size offset).map (·.fieldsFrom m') := by
  have hskip : mdnsStringSkip m size offset = mdnsStringSkip m' size offset :=
    mdnsStringSkipLoop_congr h _ _
  have hequal : mdnsStringEqual m size offset mdnsServicesQueryMem mdnsServicesQuery.length 12 =
      mdnsStringEqual m' size offset mdnsServicesQueryMem mdnsServicesQuery.length 12 :=
    mdnsStringEqualLoop_congr h _ _ _ _ _ _ _
  rw [mdnsReadQuestion_eq,mdnsReadQuestion_eq,hskip,hequal,Option.map_map]
  rfl

/-- The question that the loop gets to although its fields are not all in the datagram. -/
def cutQuestion (buffer : Mem) (size : Nat) : Nat → Nat → Option (Nat × MdnsQuestion)
  | 0, _ => none
  | questions + 1, offset =>
    match mdnsReadQuestion buffer size offset with
    | none => none
    | some q =>
      if size < q.next then some (offset,q)
      else if !mdnsClassAccepted q.rclass then none
      else cutQuestion buffer size questions q.next

def wholeQuestions (buffer : Mem) (size questions offset : Nat) : List (Nat × MdnsQuestion) :=
  (questionsRead buffer size questions offset).filter fun x => x.2.next ≤ size

theorem questionsRead_congr {m m' : Mem} {size : Nat} (h : AgreeBelow size m m')
    (questions offset : Nat) : questionsRead m' size questions offset =
      wholeQuestions m size questions offset ++
        ((cutQuestion m size questions offset).toList.map fun x => (x.1,x.2.fieldsFrom m')).filter
          fun x => mdnsClassAccepted x.2.rclass := by
  induction questions generalizing offset with
  | zero => rfl
  | succ questions ih =>
    unfold wholeQuestions at ih ⊢
    rw [questionsRead,questionsRead,cutQuestion,mdnsReadQuestion_congr h]
    cases hread : mdnsReadQuestion m size offset with
    | none => rfl
    | some q =>
      simp only [Option.map_some]
      by_cases hcut : size < q.next
      · have hnot : ¬ q.next ≤ size := by omega
        cases hclass : mdnsClassAccepted q.rclass <;>
          cases hclass' : mdnsClassAccepted (m'.be16 (q.next - 2)) <;>
          simp [hcut,hclass',hnot,MdnsQuestion.fieldsFrom,questionsRead_beyond,Nat.le_of_lt hcut]
      · obtain ⟨hfields,hnext⟩ := mdnsReadQuestion_fields hread
        have hin : q.next ≤ size := by omega
        have hsame : q.fieldsFrom m' = q := by
          rw [MdnsQuestion.fieldsFrom,← h.be16 (by omega),← h.be16 (by omega)]
          exact hfields
        rw [hsame]
        cases hclass : mdnsClassAccepted q.rclass with
        | false => simp [hcut]
        | true => simpa [hcut,hin] using ih q.next

theorem cutQuestion_beyond {buffer : Mem} {size offset : Nat} (h : size ≤ offset)
    (questions : Nat) : cutQuestion buffer size questions offset = none := by
  cases questions with
  | zero => rfl
  | succ questions =>
    rw [cutQuestion,mdnsReadQuestion_eq,mdnsStringSkip_beyond h]
    rfl

def datagramCut (buffer : Mem) (size : Nat) : List (Nat × MdnsQuestion) :=
  (cutQuestion buffer size (buffer.be16 4).toNat 12).toList.filter fun x =>
    questionHanded (buffer.be16 2) x.2

def datagramWhole (buffer : Mem) (size : Nat) : List (Nat × MdnsQuestion) :=
  (wholeQuestions buffer size (buffer.be16 4).toNat 12).filter fun x =>
    questionHanded (buffer.be16 2) x.2

theorem datagramQuestions_short {buffer : Mem} {size : Nat} (h : size ≤ 12) :
    datagramQuestions buffer size = [] := by
  simp [datagramQuestions,questionsRead_beyond h]

theorem datagramQuestions_congr {m m' : Mem} {size : Nat} (h : AgreeBelow size m m') :
    datagramQuestions m' size = datagramWhole m size ++
      ((datagramCut m size).map fun x => (x.1,x.2.fieldsFrom m')).filter
        fun x => mdnsClassAccepted x.2.rclass := by
  by_cases hsize : size ≤ 12
  · simp [datagramQuestions_short hsize,datagramWhole,datagramCut,wholeQuestions,
      questionsRead_beyond hsize,cutQuestion_beyond hsize]
  · rw [datagramQuestions,← h.be16 (by omega),← h.be16 (by omega),questionsRead_congr h,
      List.filter_append,List.filter_comm,List.filter_map]
    rfl

/-- Some type and class that begin with the bytes left of the datagram make the question
one to answer. -/
def Completable (service : AdvertiseService) (datagram : Bytes) (x : Nat × MdnsQuestion) : Prop :=
  ∃ rtype rclass, datagram.drop (x.2.next - 4) <+: be16 rtype ++ be16 rclass ∧
    mdnsClassAccepted rclass = true ∧
    (serviceAnswer service (nameAt (messageMem datagram) datagram.length x.1) rtype).isSome = true

def NoneCompletable (service : AdvertiseService) (datagram : Bytes) : Prop :=
  ∀ x ∈ datagramCut (messageMem datagram) datagram.length, ¬ Completable service datagram x

/-- Whatever the buffer held before, the same is sent, and nothing on a question whose
type and class are not in the datagram. -/
structure ReactsToDatagram (service : AdvertiseService) (datagram : Bytes) : Prop where
  sent : ∀ (sock : Int) (src : Sockaddr) (state : ResponderState) (buffer buffer' : Mem),
    (advertiseRespondRequest service sock (some (src,datagram)) { state with buffer := buffer }).sent =
      (advertiseRespondRequest service sock (some (src,datagram))
        { state with buffer := buffer' }).sent
  silent : ∀ (sock : Int) (src : Sockaddr) (state : ResponderState) (buffer : Mem),
    let data := buffer.write 0 datagram
    ∀ x ∈ datagramQuestions data datagram.length, datagram.length < x.2.next →
      (serviceCallback service data (questionEntry sock src datagram.length (data.be16 0) x.1 x.2)
        state).2.sent = state.sent

theorem serviceCallback_congr {service : AdvertiseService} {m m' : Mem} {e : MdnsEntry}
    (h : AgreeBelow e.size m m') (state : ResponderState) :
    serviceCallback service m e state = serviceCallback service m' e state := by
  unfold serviceCallback
  rw [mdnsStringExtract_congr h]

theorem serviceCallback_buffer (service : AdvertiseService) (data : Mem) (e : MdnsEntry)
    (state : ResponderState) (buffer : Mem) :
    (serviceCallback service data e { state with buffer := buffer }).2 =
      { (serviceCallback service data e state).2 with buffer := buffer } := by
  unfold serviceCallback
  split
  · rfl
  · simp only
    split
    · rfl
    · split <;> rfl

theorem answerQuestions_buffer (service : AdvertiseService) (sock : Int) (src : Sockaddr)
    (data : Mem) (size : Nat) (questions : List (Nat × MdnsQuestion)) (state : ResponderState)
    (buffer : Mem) :
    answerQuestions service sock src data size questions { state with buffer := buffer } =
      { answerQuestions service sock src data size questions state with buffer := buffer } := by
  induction questions generalizing state with
  | nil => rfl
  | cons x questions ih =>
    simp only [answerQuestions,List.foldl_cons] at ih ⊢
    rw [serviceCallback_buffer,ih]

theorem answerQuestions_congr {service : AdvertiseService} {m m' : Mem} {size : Nat}
    (h : AgreeBelow size m m') (hsize : 2 ≤ size) (sock : Int) (src : Sockaddr)
    (questions : List (Nat × MdnsQuestion)) (state : ResponderState) :
    answerQuestions service sock src m size questions state =
      answerQuestions service sock src m' size questions state := by
  have hcall (e : MdnsEntry) (he : e.size = size) (state : ResponderState) :
      serviceCallback service m e state = serviceCallback service m' e state :=
    serviceCallback_congr (by rw [he]; exact h) state
  unfold answerQuestions
  rw [h.be16 (by omega)]
  congr 1
  funext state x
  rw [hcall _ rfl]

theorem answerQuestions_silent {service : AdvertiseService} {data : Mem} {size : Nat}
    {questions : List (Nat × MdnsQuestion)}
    (h : ∀ x ∈ questions, serviceAnswer service (nameAt data size x.1) x.2.rtype = none)
    (sock : Int) (src : Sockaddr) (state : ResponderState) :
    answerQuestions service sock src data size questions state = state := by
  induction questions with
  | nil => rfl
  | cons x questions ih =>
    let e := questionEntry sock src size (data.be16 0) x.1 x.2
    have hx : serviceAnswer service (questionName data e) e.rtype = none := h x List.mem_cons_self
    rw [answerQuestions,List.foldl_cons,serviceCallback_of_none state hx]
    exact ih fun y hy => h y (List.mem_cons_of_mem x hy)

theorem mem_datagramQuestions_cut {m m' : Mem} {size : Nat} (h : AgreeBelow size m m')
    {x : Nat × MdnsQuestion} (hx : x ∈ datagramQuestions m' size) (hcut : size < x.2.next) :
    ∃ y ∈ datagramCut m size, x = (y.1,y.2.fieldsFrom m') ∧
      mdnsClassAccepted x.2.rclass = true := by
  rw [datagramQuestions_congr h] at hx
  rcases List.mem_append.mp hx with hwhole | hrest
  · simp only [datagramWhole,wholeQuestions,List.mem_filter,decide_eq_true_eq] at hwhole
    omega
  · obtain ⟨hmap,hclass⟩ := List.mem_filter.mp hrest
    obtain ⟨y,hy,rfl⟩ := List.mem_map.mp hmap
    exact ⟨y,hy,rfl,hclass⟩

theorem cutQuestion_next {m : Mem} {size questions offset : Nat} {x : Nat × MdnsQuestion}
    (h : cutQuestion m size questions offset = some x) : size < x.2.next ∧ 4 ≤ x.2.next := by
  induction questions generalizing offset with
  | zero => contradiction
  | succ questions ih =>
    rw [cutQuestion] at h
    cases hread : mdnsReadQuestion m size offset with
    | none => simp [hread] at h
    | some q =>
      simp only [hread] at h
      split at h
      · rename_i hcut
        cases h
        exact ⟨hcut,(mdnsReadQuestion_fields hread).2⟩
      · split at h
        · contradiction
        · exact ih h

theorem datagramCut_next {m : Mem} {size : Nat} {x : Nat × MdnsQuestion}
    (h : x ∈ datagramCut m size) : size < x.2.next ∧ 4 ≤ x.2.next :=
  cutQuestion_next (Option.mem_toList.mp (List.mem_filter.mp h).1)

theorem answerQuestions_append (service : AdvertiseService) (sock : Int) (src : Sockaddr)
    (data : Mem) (size : Nat) (questions questions' : List (Nat × MdnsQuestion))
    (state : ResponderState) :
    answerQuestions service sock src data size (questions ++ questions') state =
      answerQuestions service sock src data size questions'
        (answerQuestions service sock src data size questions state) := List.foldl_append

section Datagram

variable {service : AdvertiseService} {datagram : Bytes}

theorem nameAt_messageMem (buffer : Mem) (offset : Nat) :
    nameAt (buffer.write 0 datagram) datagram.length offset =
      nameAt (messageMem datagram) datagram.length offset := by
  rw [nameAt,nameAt,mdnsStringExtract_congr (agreeBelow_write_same _ _ datagram)]
  rfl

theorem NoneCompletable.silent (h : NoneCompletable service datagram) (buffer : Mem)
    {x : Nat × MdnsQuestion}
    (hx : x ∈ datagramQuestions (buffer.write 0 datagram) datagram.length)
    (hcut : datagram.length < x.2.next) :
    serviceAnswer service (nameAt (buffer.write 0 datagram) datagram.length x.1) x.2.rtype = none := by
  obtain ⟨y,hy,rfl,hclass⟩ :=
    mem_datagramQuestions_cut (agreeBelow_write_same (fun _ => 0) buffer datagram) hx hcut
  obtain ⟨-,hnext⟩ := datagramCut_next hy
  rw [← Option.not_isSome_iff_eq_none,nameAt_messageMem]
  intro hsome
  have hbegins : datagram.drop (y.2.next - 4) <+: (buffer.write 0 datagram).read (y.2.next - 4) 4 :=
    Mem.drop_prefix_read_write buffer (by simp only [MdnsQuestion.fieldsFrom] at hcut; omega)
  rw [Mem.read_be16_be16,show y.2.next - 4 + 2 = y.2.next - 2 by omega] at hbegins
  exact h y hy ⟨_,_,hbegins,hclass,hsome⟩

/-- What is sent on a datagram, the questions that are all in it decide. -/
theorem NoneCompletable.respond (h : NoneCompletable service datagram)
    (hcap : datagram.length ≤ advertiseBufferCapacity) (sock : Int) (src : Sockaddr)
    (state : ResponderState) (buffer : Mem) :
    (advertiseRespondRequest service sock (some (src,datagram)) { state with buffer := buffer }).sent =
      (answerQuestions service sock src (messageMem datagram) datagram.length
        (datagramWhole (messageMem datagram) datagram.length) state).sent := by
  have hagree := agreeBelow_write_same (fun _ => 0) buffer datagram
  rw [advertiseRespondRequest_questions service sock src hcap]
  simp only [answerQuestions_buffer]
  by_cases hsize : datagram.length ≤ 12
  · rw [datagramQuestions_short hsize]
    simp [datagramWhole,wholeQuestions,questionsRead_beyond hsize,answerQuestions]
  · have hcut := fun x hx hlt => h.silent buffer (x := x) hx hlt
    rw [datagramQuestions_congr hagree] at hcut ⊢
    rw [answerQuestions_append,answerQuestions_silent,← answerQuestions_congr hagree (by omega)]
    · rfl
    · intro x hx
      refine hcut x (List.mem_append_right _ hx) ?_
      obtain ⟨y,hy,rfl⟩ := List.mem_map.mp (List.mem_filter.mp hx).1
      exact (datagramCut_next hy).1

end Datagram

/-- The reaction to a datagram depends on nothing else exactly if no question to answer
is cut. -/
theorem reacts_to_datagram_iff {env : AdvertiseEnv} {port : UInt16} {service : AdvertiseService}
    (hservice : advertiseCreateService env port = some service) {datagram : Bytes}
    (hcap : datagram.length ≤ advertiseBufferCapacity) :
    ReactsToDatagram service datagram ↔ NoneCompletable service datagram := by
  obtain ⟨hostname,-,hof⟩ := advertiseCreateService_serviceOf hservice
  constructor
  · intro h x hx hcompletable
    obtain ⟨rtype,rclass,hbegins,hclass,hsome⟩ := hcompletable
    obtain ⟨hcut,hnext⟩ := datagramCut_next hx
    let buffer := Mem.write (fun _ => 0) (x.2.next - 4) (be16 rtype ++ be16 rclass)
    have hread : (buffer.write 0 datagram).read (x.2.next - 4) 4 = be16 rtype ++ be16 rclass :=
      Mem.read_write_prefix _ hbegins
    obtain ⟨htype,hclass'⟩ := Mem.be16_be16_of_read hread
    rw [show x.2.next - 4 + 2 = x.2.next - 2 by omega] at hclass'
    have hmem : (x.1,x.2.fieldsFrom (buffer.write 0 datagram)) ∈
        datagramQuestions (buffer.write 0 datagram) datagram.length := by
      rw [datagramQuestions_congr (agreeBelow_write_same (fun _ => 0) buffer datagram)]
      refine List.mem_append_right _ (List.mem_filter.mpr ⟨List.mem_map.mpr ⟨x,hx,rfl⟩,?_⟩)
      simpa [MdnsQuestion.fieldsFrom,hclass'] using hclass
    have hsilent := h.silent 0 .other ⟨buffer,buffer,[]⟩ buffer _ hmem hcut
    refine (hof.callback_silent_iff _ rfl).mp hsilent ?_
    have hname : questionName (buffer.write 0 datagram) (questionEntry 0 .other datagram.length
        ((buffer.write 0 datagram).be16 0) x.1 (x.2.fieldsFrom (buffer.write 0 datagram))) =
          nameAt (messageMem datagram) datagram.length x.1 := nameAt_messageMem buffer x.1
    rw [hname]
    simpa [questionEntry,MdnsQuestion.fieldsFrom,htype] using hsome
  · intro h
    constructor
    · intro sock src state buffer buffer'
      rw [h.respond hcap,h.respond hcap]
    · intro sock src state buffer
      simp only
      intro x hx hcut
      have hnone : serviceAnswer service (questionName (buffer.write 0 datagram)
          (questionEntry sock src datagram.length ((buffer.write 0 datagram).be16 0) x.1 x.2))
            x.2.rtype = none := h.silent buffer hx hcut
      rw [serviceCallback_of_none state hnone]

theorem reacts_to_datagram_serviceQuery :
    ReactsToDatagram (oneInterfaceService hostA 7777) serviceQuery.bytes := by
  have hwhole : datagramCut (messageMem serviceQuery.bytes) serviceQuery.bytes.length = [] := by
    decide +kernel
  refine (reacts_to_datagram_iff (advertiseCreateService_oneInterface hostA 7777) (by decide)).mpr ?_
  simp [NoneCompletable,hwhole]

def cutQuery : Bytes := serviceQuery.bytes.take 36

/-- It is answered where the query itself came before, and not where the buffer is blank. -/
theorem cut_query_is_answered : ¬ ∀ (env : AdvertiseEnv) (port : UInt16)
    (service : AdvertiseService), advertiseCreateService env port = some service →
      ∀ datagram : Bytes, datagram.length ≤ advertiseBufferCapacity →
        ReactsToDatagram service datagram := by
  intro h
  have hsent := (h _ _ _ (advertiseCreateService_oneInterface hostA 7777) cutQuery (by decide)).sent
    3 .other ⟨fun _ => 0,fun _ => 0,[]⟩ (Mem.write (fun _ => 0) 0 serviceQuery.bytes) (fun _ => 0)
  have hafter : (advertiseRespondRequest (oneInterfaceService hostA 7777) 3 (some (.other,cutQuery))
      ⟨Mem.write (fun _ => 0) 0 serviceQuery.bytes,fun _ => 0,[]⟩).sent.length = 1 := by
    decide +kernel
  have hblank : (advertiseRespondRequest (oneInterfaceService hostA 7777) 3 (some (.other,cutQuery))
      ⟨fun _ => 0,fun _ => 0,[]⟩).sent.length = 0 := by
    decide +kernel
  have hcontra : 1 = 0 := hafter.symm.trans ((congrArg List.length hsent).trans hblank)
  omega

end WlrRemote
