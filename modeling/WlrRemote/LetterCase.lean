import WlrRemote.StaleFields
import Mathlib.Data.List.Forall2

/-!
Queries that differ in the case of letters. The loop over the questions takes them for
the same; the callback compares the names letter for letter.
-/

set_option autoImplicit false

namespace WlrRemote
open Octets

/-- Two names split into labels at the same places, and the labels are equal up to case. -/
def NamesAlike (m m' : Mem) (size : Nat) : Nat → Nat → Prop
  | 0, _ => True
  | budget + 1, cur =>
    let substr := mdnsGetNextSubstring m size cur
    mdnsGetNextSubstring m' size cur = substr ∧
      ∀ offset ∈ substr.offset,
        (m'.read offset substr.length).map asciiLower =
            (m.read offset substr.length).map asciiLower ∧
          (substr.length ≠ 0 → NamesAlike m m' size budget (offset + substr.length))

def QuestionsAlike (m m' : Mem) (size : Nat) : Nat → Nat → Prop
  | 0, _ => True
  | questions + 1, offset =>
    NamesAlike m m' size (mdnsMaxSubstrings + 1) offset ∧
      ∀ stop ∈ mdnsStringSkip m size offset,
        m'.read stop 4 = m.read stop 4 ∧ QuestionsAlike m m' size questions (stop + 4)

instance NamesAlike.decide (m m' : Mem) (size : Nat) :
    (budget cur : Nat) → Decidable (NamesAlike m m' size budget cur)
  | 0, _ => isTrue trivial
  | budget + 1, cur =>
    haveI (cur : Nat) := NamesAlike.decide m m' size budget cur
    inferInstanceAs (Decidable (_ ∧ ∀ offset ∈ (mdnsGetNextSubstring m size cur).offset, _ ∧ (_ → _)))

instance QuestionsAlike.decide (m m' : Mem) (size : Nat) :
    (questions offset : Nat) → Decidable (QuestionsAlike m m' size questions offset)
  | 0, _ => isTrue trivial
  | questions + 1, offset =>
    haveI (offset : Nat) := QuestionsAlike.decide m m' size questions offset
    inferInstanceAs (Decidable (_ ∧ ∀ stop ∈ mdnsStringSkip m size offset, _ ∧ _))

/-- What follows the questions may differ as well. -/
structure CaseVariants (datagram datagram' : Bytes) : Prop where
  length : datagram'.length = datagram.length
  header : datagram'.take 12 = datagram.take 12
  questions : QuestionsAlike (messageMem datagram) (messageMem datagram') datagram.length
    (questionCount datagram) 12

section Names

variable {m m' : Mem} {size : Nat}

theorem NamesAlike.skip {budget cur : Nat} (h : NamesAlike m m' size budget cur) :
    mdnsStringSkipLoop m' size budget cur = mdnsStringSkipLoop m size budget cur := by
  induction budget generalizing cur with
  | zero => rfl
  | succ budget ih =>
    obtain ⟨hnext,hrest⟩ := h
    rw [mdnsStringSkipLoop,mdnsStringSkipLoop,hnext]
    cases ha : (mdnsGetNextSubstring m size cur).offset with
    | none => rfl
    | some offset =>
      obtain ⟨-,hmore⟩ := hrest offset ha
      simp only
      split
      · rfl
      · split
        · rfl
        · rename_i hne
          exact ih (hmore hne)

theorem strncasecmpEqual_congr {as bs bs' : Bytes} (h : bs'.map asciiLower = bs.map asciiLower) :
    strncasecmpEqual as bs' = strncasecmpEqual as bs := by
  induction as generalizing bs bs' with
  | nil => rfl
  | cons a as ih =>
    cases bs with
    | nil =>
      obtain rfl := List.map_eq_nil_iff.mp h
      rfl
    | cons b bs =>
      cases bs' with
      | nil => simp at h
      | cons b' bs' =>
        simp only [List.map_cons,List.cons.injEq] at h
        rw [strncasecmpEqual,strncasecmpEqual,h.1,ih h.2]

theorem NamesAlike.equal {budget cur : Nat} (h : NamesAlike m m' size budget cur) (rhs : Mem)
    (sizeRhs rhsCur : Nat) (lhsEnd rhsEnd : Option Nat) :
    mdnsStringEqualLoop m' size rhs sizeRhs budget cur rhsCur lhsEnd rhsEnd =
      mdnsStringEqualLoop m size rhs sizeRhs budget cur rhsCur lhsEnd rhsEnd := by
  induction budget generalizing cur rhsCur lhsEnd rhsEnd with
  | zero => rfl
  | succ budget ih =>
    obtain ⟨hnext,hrest⟩ := h
    rw [mdnsStringEqualLoop,mdnsStringEqualLoop,hnext]
    cases ha : (mdnsGetNextSubstring m size cur).offset with
    | none => rfl
    | some offset =>
      obtain ⟨hletters,hmore⟩ := hrest offset ha
      cases hb : (mdnsGetNextSubstring rhs sizeRhs rhsCur).offset with
      | none => rfl
      | some rhsOffset =>
        simp only
        split
        · rfl
        · rename_i hlen
          rw [not_not] at hlen
          rw [← hlen,strncasecmpEqual_congr hletters]
          split
          · rfl
          · split
            · rfl
            · rename_i hne
              exact ih (hmore hne) _ _ _

theorem NamesAlike.readQuestion {offset : Nat}
    (h : NamesAlike m m' size (mdnsMaxSubstrings + 1) offset)
    (hfields : ∀ stop, mdnsStringSkip m size offset = some stop →
      m'.read stop 4 = m.read stop 4) :
    mdnsReadQuestion m' size offset = mdnsReadQuestion m size offset := by
  have hskip : mdnsStringSkip m' size offset = mdnsStringSkip m size offset := h.skip
  have hequal : mdnsStringEqual m' size offset mdnsServicesQueryMem mdnsServicesQuery.length 12 =
      mdnsStringEqual m size offset mdnsServicesQueryMem mdnsServicesQuery.length 12 :=
    h.equal _ _ _ _ _
  rw [mdnsReadQuestion_eq,mdnsReadQuestion_eq,hskip,hequal]
  cases hs : mdnsStringSkip m size offset with
  | none => rw [Option.map_none,Option.map_none]
  | some stop =>
    have hread := hfields stop hs
    rw [Mem.read_be16_be16 m] at hread
    obtain ⟨htype,hclass⟩ := Mem.be16_be16_of_read hread
    simp only [Option.map_some,htype,hclass]

theorem QuestionsAlike.questionsRead {questions offset : Nat}
    (h : QuestionsAlike m m' size questions offset) :
    questionsRead m' size questions offset = WlrRemote.questionsRead m size questions offset := by
  induction questions generalizing offset with
  | zero => rfl
  | succ questions ih =>
    obtain ⟨hnames,hrest⟩ := h
    have hread := hnames.readQuestion fun stop hs => (hrest stop hs).1
    rw [WlrRemote.questionsRead,WlrRemote.questionsRead,hread]
    cases hq : mdnsReadQuestion m size offset with
    | none => rfl
    | some q =>
      rw [mdnsReadQuestion_eq] at hq
      obtain ⟨stop,hs,rfl⟩ := Option.map_eq_some_iff.mp hq
      simp only
      rw [ih (hrest stop hs).2]

end Names

section Memory

variable {m m' n n' : Mem} {size : Nat} (hn : AgreeBelow size m n) (hn' : AgreeBelow size m' n')
include hn hn'

theorem NamesAlike.congr {budget cur : Nat} (h : NamesAlike m m' size budget cur) :
    NamesAlike n n' size budget cur := by
  induction budget generalizing cur with
  | zero => trivial
  | succ budget ih =>
    obtain ⟨hnext,hrest⟩ := h
    rw [mdnsGetNextSubstring_congr hn,mdnsGetNextSubstring_congr hn'] at hnext
    rw [mdnsGetNextSubstring_congr hn] at hrest
    refine ⟨hnext,fun offset ha => ?_⟩
    obtain ⟨hletters,hmore⟩ := hrest offset ha
    have hin := mdnsGetNextSubstring_found ha
    rw [hn.read hin,hn'.read hin] at hletters
    exact ⟨hletters,fun hne => ih (hmore hne)⟩

theorem QuestionsAlike.congr (habove : ∀ i, size ≤ i → n' i = n i) {questions offset : Nat}
    (h : QuestionsAlike m m' size questions offset) :
    QuestionsAlike n n' size questions offset := by
  induction questions generalizing offset with
  | zero => trivial
  | succ questions ih =>
    obtain ⟨hnames,hrest⟩ := h
    refine ⟨hnames.congr hn hn',fun stop hs => ?_⟩
    have hskip : mdnsStringSkip m size offset = mdnsStringSkip n size offset :=
      mdnsStringSkipLoop_congr hn _ _
    obtain ⟨hread,hmore⟩ := hrest stop (hskip.trans hs)
    refine ⟨?_,ih hmore⟩
    apply Mem.read_congr
    intro i hi hlt
    by_cases hsize : i < size
    · rw [← hn i hsize,← hn' i hsize]
      exact Mem.eq_of_read hread hi hlt
    · exact habove i (by omega)

end Memory

theorem CaseVariants.datagramQuestions {datagram datagram' : Bytes}
    (h : CaseVariants datagram datagram') (buffer : Mem) :
    datagramQuestions (buffer.write 0 datagram') datagram.length =
      WlrRemote.datagramQuestions (buffer.write 0 datagram) datagram.length := by
  by_cases hsize : datagram.length ≤ 12
  · rw [datagramQuestions_short hsize,datagramQuestions_short hsize]
  · have hlen := h.length
    have hstart (bytes : Bytes) (hle : 12 ≤ bytes.length) :
        (buffer.write 0 bytes).read 0 12 = bytes.take 12 :=
      Mem.read_write_part (a := 0) (k := 0) (by omega)
    have hheader : AgreeBelow 12 (buffer.write 0 datagram') (buffer.write 0 datagram) :=
      fun i hi => Mem.eq_of_read
        (by rw [hstart _ (by omega),hstart _ (by omega),h.header]) (Nat.zero_le i) (by omega)
    have hcount : ((buffer.write 0 datagram).be16 4).toNat = questionCount datagram :=
      questionCount_write (by omega)
    have hagree' : AgreeBelow datagram.length (messageMem datagram') (buffer.write 0 datagram') := by
      have hagree := agreeBelow_write_same (fun _ => 0) buffer datagram'
      rw [hlen] at hagree
      exact hagree
    have halike := h.questions.congr (agreeBelow_write_same _ buffer datagram) hagree'
      fun i hi => by rw [Mem.write_above (by omega),Mem.write_above (by omega)]
    rw [WlrRemote.datagramQuestions,WlrRemote.datagramQuestions,hheader.be16 (by omega),
      hheader.be16 (by omega),hcount,halike.questionsRead]

/-- An answer as it is handed on to be sent: to the asker or to the group, with the name
of the question. -/
structure Reply where
  unicast : Bool
  name : Bytes
  answer : MdnsRecord
  additional : List MdnsRecord

def reply (service : AdvertiseService) (data : Mem) (size : Nat) (x : Nat × MdnsQuestion) :
    Option Reply :=
  (serviceAnswer service (nameAt data size x.1) x.2.rtype).map fun records =>
    ⟨x.2.rclass &&& mdnsUnicastResponse ≠ 0,nameAt data size x.1,records.1,records.2⟩

structure Reply.Alike (r r' : Reply) : Prop where
  unicast : r.unicast = r'.unicast
  name : r.name.map asciiLower = r'.name.map asciiLower
  answer : r'.answer = r.answer ∨
    r.answer.name = r.name ∧ r'.answer = { r.answer with name := r'.name }
  additional : r.additional = r'.additional

def Reply.SentAs (sock : Int) (src : Sockaddr) (r : Reply) (d : Sent) : Prop :=
  ∃ (sendBuffer : Mem) (queryId rtype : UInt16),
    (if r.unicast then
      (mdnsQueryAnswerUnicast sendBuffer sendBufferCapacity queryId rtype r.name r.answer []
        r.additional).sent sock (some src)
    else
      (mdnsQueryAnswerMulticast sendBuffer sendBufferCapacity r.answer [] r.additional).sent
        sock none) = [d]

theorem ServiceOf.answerQuestions_replies {hostname : HostName} {service : AdvertiseService}
    (h : ServiceOf hostname service) (sock : Int) (src : Sockaddr) (data : Mem) (size : Nat)
    (questions : List (Nat × MdnsQuestion)) (state : ResponderState) :
    ∃ out, (answerQuestions service sock src data size questions state).sent = state.sent ++ out ∧
      List.Forall₂ (Reply.SentAs sock src) (questions.filterMap (reply service data size)) out := by
  induction questions generalizing state with
  | nil => exact ⟨[],by simp [answerQuestions],.nil⟩
  | cons x questions ih =>
    let e := questionEntry sock src size (data.be16 0) x.1 x.2
    obtain ⟨out,hout,hsent⟩ := ih (serviceCallback service data e state).2
    have hstep : (answerQuestions service sock src data size (x :: questions) state).sent =
        (serviceCallback service data e state).2.sent ++ out := hout
    cases ha : serviceAnswer service (questionName data e) e.rtype with
    | none =>
      have hreply : reply service data size x = none := congrArg (Option.map _) ha
      rw [serviceCallback_of_none state ha] at hstep
      exact ⟨out,hstep,by rw [List.filterMap_cons_none hreply]; exact hsent⟩
    | some records =>
      obtain ⟨answer,additional⟩ := records
      have hreply : reply service data size x = some _ := congrArg (Option.map _) ha
      obtain ⟨bytes,hmessage,-⟩ := h.answerMessage_sent ha state.sendBuffer
      generalize hd : Sent.mk e.sock _ bytes = d at hmessage
      rw [serviceCallback_of_some state rfl ha] at hstep
      simp only [hmessage] at hstep
      refine ⟨d :: out,by rw [hstep,List.append_assoc]; rfl,?_⟩
      rw [List.filterMap_cons_some hreply]
      refine .cons ⟨state.sendBuffer,e.queryId,e.rtype,?_⟩ hsent
      rw [← hmessage,answerMessage]
      by_cases hunicast : x.2.rclass &&& mdnsUnicastResponse ≠ 0
      · have hclass : e.rclass &&& mdnsUnicastResponse ≠ 0 := hunicast
        rw [if_pos hclass,if_pos (decide_eq_true hunicast)]
        rfl
      · have hclass : ¬ e.rclass &&& mdnsUnicastResponse ≠ 0 := hunicast
        rw [if_neg hclass,if_neg (by simpa using hunicast)]
        rfl

def nameAsked (service : AdvertiseService) : MdnsRecordData → Bytes
  | .ptr name =>
    if name = service.serviceName then DNS_SD_SERVICE_INSTANCE else service.serviceName
  | .srv _ _ _ _ => service.serviceInstance
  | .a _ | .aaaa _ => service.qualifiedHostname
  | .txt _ _ => []

theorem ServiceOf.nameAsked_answer {hostname : HostName} {service : AdvertiseService}
    (h : ServiceOf hostname service) {name : Bytes} {rtype : UInt16}
    {records : MdnsRecord × List MdnsRecord}
    (ha : serviceAnswer service name rtype = some records) :
    name = nameAsked service records.1.data := by
  obtain ⟨answer,additional⟩ := records
  have hne : service.serviceInstance ≠ service.serviceName := by
    intro heq
    have hlen := congrArg List.length heq
    rw [h.serviceInstance,h.serviceName] at hlen
    simp at hlen
    omega
  rcases h.serviceAnswer_cases ha with ⟨rfl,-,rfl,-⟩ | ⟨rfl,-,rfl,-⟩ | ⟨rfl,-,rfl,-⟩ |
    ⟨rfl,-,-,rfl,-⟩ | ⟨rfl,-,-,rfl,-⟩
  · simp [nameAsked]
  · simp [nameAsked,h.recordPtr,hne]
  · simp [nameAsked,h.recordSrv]
  · simp [nameAsked,h.recordA]
  · simp [nameAsked,h.recordAaaa]

/-- What a question that is answered asks for: a name, letter for letter, the type of a
record that goes by it, and whether the asker wants the answer alone. -/
def asked (service : AdvertiseService) (data : Mem) (size : Nat) (x : Nat × MdnsQuestion) :
    Option (Bytes × MdnsRecordType × Bool) :=
  (serviceAnswer service (nameAt data size x.1) x.2.rtype).map fun records =>
    (nameAt data size x.1,records.1.type,x.2.rclass &&& mdnsUnicastResponse ≠ 0)

def Reply.asked (r : Reply) : Bytes × MdnsRecordType × Bool := (r.name,r.answer.type,r.unicast)

theorem filterMap_asked (service : AdvertiseService) (data : Mem) (size : Nat)
    (questions : List (Nat × MdnsQuestion)) :
    questions.filterMap (asked service data size) =
      (questions.filterMap (reply service data size)).map Reply.asked := by
  rw [List.map_filterMap]
  congr 1
  funext x
  rw [reply,Option.map_map]
  rfl

theorem Reply.Alike.refl (r : Reply) : r.Alike r := ⟨rfl,rfl,Or.inl rfl,rfl⟩

theorem eq_of_forall₂ {α : Type} {R : α → α → Prop} {l l' : List α} (h : List.Forall₂ R l l')
    (heq : ∀ a ∈ l, ∀ b ∈ l', R a b → a = b) : l = l' := by
  induction h with
  | nil => rfl
  | cons hab _ ih =>
    rw [heq _ List.mem_cons_self _ List.mem_cons_self hab,
      ih fun a ha b hb => heq a (List.mem_cons_of_mem _ ha) b (List.mem_cons_of_mem _ hb)]

def recordsAsked (service : AdvertiseService) (name : Bytes) :
    MdnsRecordType → MdnsRecord × List MdnsRecord
  | .srv => (service.recordSrv,buildAdditional service .srv)
  | .a => (service.recordA,buildAdditional service .a)
  | .aaaa => (service.recordAaaa,buildAdditional service .aaaa)
  | _ =>
    if name = DNS_SD_SERVICE_INSTANCE then (⟨name,.ptr service.serviceName,0,0⟩,[])
    else (service.recordPtr,buildAdditional service .ptr)

section Service

variable {hostname : HostName} {service : AdvertiseService} (h : ServiceOf hostname service)
include h

theorem ServiceOf.recordsAsked_answer {name : Bytes} {rtype : UInt16}
    {records : MdnsRecord × List MdnsRecord}
    (ha : serviceAnswer service name rtype = some records) :
    records = recordsAsked service name records.1.type := by
  obtain ⟨answer,additional⟩ := records
  obtain ⟨tp,ts,t4,t6,-⟩ := h.record_types
  have hne : service.serviceName ≠ DNS_SD_SERVICE_INSTANCE := by
    rw [h.serviceName]
    decide
  rcases h.serviceAnswer_cases ha with ⟨rfl,-,rfl,rfl⟩ | ⟨rfl,-,rfl,rfl⟩ | ⟨rfl,-,rfl,rfl⟩ |
    ⟨rfl,-,-,rfl,rfl⟩ | ⟨rfl,-,-,rfl,rfl⟩
  · rfl
  · simp [recordsAsked,tp,hne]
  · simp [recordsAsked,ts]
  · simp [recordsAsked,t4]
  · simp [recordsAsked,t6]

theorem ServiceOf.reply_eq_of_asked {data data' : Mem} {size size' : Nat}
    {x x' : Nat × MdnsQuestion} {r r' : Reply} (hr : reply service data size x = some r)
    (hr' : reply service data' size' x' = some r') (hasked : r.asked = r'.asked) : r = r' := by
  obtain ⟨⟨answer,additional⟩,ha,rfl⟩ := Option.map_eq_some_iff.mp hr
  obtain ⟨⟨answer',additional'⟩,ha',rfl⟩ := Option.map_eq_some_iff.mp hr'
  simp only [Reply.asked,Prod.mk.injEq] at hasked
  obtain ⟨hname,htype,hunicast⟩ := hasked
  have hrecords := h.recordsAsked_answer ha
  have hrecords' := h.recordsAsked_answer ha'
  rw [hname,htype,← hrecords'] at hrecords
  obtain ⟨rfl,rfl⟩ := Prod.mk.inj hrecords
  simp only [hname,hunicast]

theorem ServiceOf.reply_eq_of_alike {data data' : Mem} {size size' : Nat}
    {x x' : Nat × MdnsQuestion} {r r' : Reply} (hr : reply service data size x = some r)
    (hr' : reply service data' size' x' = some r') (halike : r.Alike r') : r = r' := by
  have hdata : r'.answer.data = r.answer.data := by
    rcases halike.answer with hsame | ⟨-,hsame⟩
    · rw [hsame]
    · rw [hsame]
  refine h.reply_eq_of_asked hr hr' ?_
  obtain ⟨records,ha,rfl⟩ := Option.map_eq_some_iff.mp hr
  obtain ⟨records',ha',rfl⟩ := Option.map_eq_some_iff.mp hr'
  simp only [Reply.asked,Prod.mk.injEq]
  refine ⟨?_,?_,halike.unicast⟩
  · rw [h.nameAsked_answer ha,h.nameAsked_answer ha']
    exact congrArg (nameAsked service) hdata.symm
  · exact congrArg MdnsRecordData.type hdata.symm

/-- The replies to a question in two memories are alike exactly if the two spellings of
its name are the same or neither is answered. -/
theorem ServiceOf.reply_alike_iff (data data' : Mem) (size : Nat) (x : Nat × MdnsQuestion) :
    Option.Rel Reply.Alike (reply service data size x) (reply service data' size x) ↔
      nameAt data' size x.1 = nameAt data size x.1 ∨
        serviceAnswer service (nameAt data size x.1) x.2.rtype = none ∧
          serviceAnswer service (nameAt data' size x.1) x.2.rtype = none := by
  constructor
  · intro hrel
    cases hr : reply service data size x with
    | none =>
      rw [hr] at hrel
      cases hr' : reply service data' size x with
      | none => exact Or.inr ⟨Option.map_eq_none_iff.mp hr,Option.map_eq_none_iff.mp hr'⟩
      | some r' =>
        rw [hr'] at hrel
        cases hrel
    | some r =>
      rw [hr] at hrel
      cases hr' : reply service data' size x with
      | none =>
        rw [hr'] at hrel
        cases hrel
      | some r' =>
        rw [hr'] at hrel
        cases hrel with
        | some halike =>
          have hsame := congrArg Reply.name (h.reply_eq_of_alike hr hr' halike)
          obtain ⟨records,-,rfl⟩ := Option.map_eq_some_iff.mp hr
          obtain ⟨records',-,rfl⟩ := Option.map_eq_some_iff.mp hr'
          exact Or.inl hsame.symm
  · rintro (hname | ⟨hnone,hnone'⟩)
    · rw [reply,reply,hname]
      cases serviceAnswer service (nameAt data size x.1) x.2.rtype with
      | none => exact .none
      | some records => exact .some (.refl _)
    · rw [reply,reply,hnone,hnone']
      exact .none

theorem ServiceOf.replies_alike_iff (data data' : Mem) (size : Nat)
    (questions : List (Nat × MdnsQuestion)) :
    List.Forall₂ Reply.Alike (questions.filterMap (reply service data size))
        (questions.filterMap (reply service data' size)) ↔
      questions.filterMap (asked service data size) =
        questions.filterMap (asked service data' size) := by
  have hmem {data : Mem} {r : Reply} (hr : r ∈ questions.filterMap (reply service data size)) :
      ∃ x, reply service data size x = some r := by
    obtain ⟨x,-,hx⟩ := List.mem_filterMap.mp hr
    exact ⟨x,hx⟩
  rw [filterMap_asked,filterMap_asked]
  constructor
  · intro halike
    rw [eq_of_forall₂ halike]
    intro r hr r' hr' hsame
    obtain ⟨x,hx⟩ := hmem hr
    obtain ⟨x',hx'⟩ := hmem hr'
    exact h.reply_eq_of_alike hx hx' hsame
  · intro hasked
    rw [← List.forall₂_eq_eq_eq,List.forall₂_map_left_iff,List.forall₂_map_right_iff] at hasked
    rw [eq_of_forall₂ hasked]
    · exact List.forall₂_same.mpr fun r _ => .refl r
    · intro r hr r' hr' hsame
      obtain ⟨x,hx⟩ := hmem hr
      obtain ⟨x',hx'⟩ := hmem hr'
      exact h.reply_eq_of_asked hx hx' hsame

end Service

def received (datagram : Bytes) : Bytes := datagram.take advertiseBufferCapacity

def replies (service : AdvertiseService) (buffer : Mem) (datagram : Bytes) : List Reply :=
  let data := buffer.write 0 (received datagram)
  (datagramQuestions data (received datagram).length).filterMap
    (reply service data (received datagram).length)

def AnswersAlike (service : AdvertiseService) (sock : Int) (src : Sockaddr)
    (state : ResponderState) (datagram datagram' : Bytes) : Prop :=
  ∃ out out',
    (advertiseRespondRequest service sock (some (src,datagram)) state).sent = state.sent ++ out ∧
    (advertiseRespondRequest service sock (some (src,datagram')) state).sent =
      state.sent ++ out' ∧
    List.Forall₂ (Reply.SentAs sock src) (replies service state.buffer datagram) out ∧
    List.Forall₂ (Reply.SentAs sock src) (replies service state.buffer datagram') out' ∧
    List.Forall₂ Reply.Alike (replies service state.buffer datagram)
      (replies service state.buffer datagram')

def RepliesAlike (service : AdvertiseService) (buffer : Mem) (datagram datagram' : Bytes) : Prop :=
  List.Forall₂
    (fun x x' => Option.Rel Reply.Alike
      (reply service (buffer.write 0 datagram) datagram.length x)
      (reply service (buffer.write 0 datagram') datagram'.length x'))
    (datagramQuestions (buffer.write 0 datagram) datagram.length)
    (datagramQuestions (buffer.write 0 datagram') datagram'.length)

def AskedAlike (service : AdvertiseService) (buffer : Mem) (datagram datagram' : Bytes) : Prop :=
  let data := buffer.write 0 datagram
  let data' := buffer.write 0 datagram'
  let questions := datagramQuestions data datagram.length
  questions.filterMap (asked service data datagram.length) =
    questions.filterMap (asked service data' datagram.length)

def SpelledAlike (service : AdvertiseService) (buffer : Mem) (datagram datagram' : Bytes) : Prop :=
  let data := buffer.write 0 datagram
  let data' := buffer.write 0 datagram'
  ∀ x ∈ datagramQuestions data datagram.length,
    nameAt data' datagram.length x.1 = nameAt data datagram.length x.1 ∨
      serviceAnswer service (nameAt data datagram.length x.1) x.2.rtype = none ∧
        serviceAnswer service (nameAt data' datagram.length x.1) x.2.rtype = none

theorem ServiceOf.respond_replies {hostname : HostName} {service : AdvertiseService}
    (h : ServiceOf hostname service) (sock : Int) (src : Sockaddr) (state : ResponderState)
    (datagram : Bytes) :
    ∃ out, (advertiseRespondRequest service sock (some (src,datagram)) state).sent =
        state.sent ++ out ∧
      List.Forall₂ (Reply.SentAs sock src) (replies service state.buffer datagram) out := by
  obtain ⟨out,hout,hsent⟩ := h.answerQuestions_replies sock src
    (state.buffer.write 0 (received datagram)) (received datagram).length
    (datagramQuestions (state.buffer.write 0 (received datagram)) (received datagram).length) state
  refine ⟨out,?_,hsent⟩
  rw [advertiseRespondRequest_take]
  exact (advertiseRespondRequest_questions service sock src (List.length_take_le _ _) state).trans hout

/-- Datagrams that differ in case only are answered alike exactly if the questions spelled as
the service is configured ask for the same in both, and question by question exactly if each
is spelled the same in both or answered in neither spelling. -/
theorem answers_alike_iff {env : AdvertiseEnv} {port : UInt16} {service : AdvertiseService}
    (hservice : advertiseCreateService env port = some service) {datagram datagram' : Bytes}
    (h : CaseVariants (received datagram) (received datagram')) (sock : Int) (src : Sockaddr)
    (state : ResponderState) :
    (AnswersAlike service sock src state datagram datagram' ↔
      AskedAlike service state.buffer (received datagram) (received datagram')) ∧
    (RepliesAlike service state.buffer (received datagram) (received datagram') ↔
      SpelledAlike service state.buffer (received datagram) (received datagram')) := by
  obtain ⟨hostname,-,hof⟩ := advertiseCreateService_serviceOf hservice
  have hquestions := h.datagramQuestions state.buffer
  constructor
  · have hiff := hof.replies_alike_iff (state.buffer.write 0 (received datagram))
      (state.buffer.write 0 (received datagram')) (received datagram).length
      (datagramQuestions (state.buffer.write 0 (received datagram)) (received datagram).length)
    have hreplies : replies service state.buffer datagram' =
        (datagramQuestions (state.buffer.write 0 (received datagram))
          (received datagram).length).filterMap
          (reply service (state.buffer.write 0 (received datagram')) (received datagram).length) := by
      rw [replies,h.length,hquestions]
    constructor
    · rintro ⟨out,out',-,-,-,-,halike⟩
      rw [hreplies] at halike
      exact hiff.mp halike
    · intro hasked
      obtain ⟨out,hout,hsent⟩ := hof.respond_replies sock src state datagram
      obtain ⟨out',hout',hsent'⟩ := hof.respond_replies sock src state datagram'
      refine ⟨out,out',hout,hout',hsent,hsent',?_⟩
      rw [hreplies]
      exact hiff.mpr hasked
  · rw [RepliesAlike,h.length,hquestions,List.forall₂_same]
    exact forall₂_congr fun x _ => hof.reply_alike_iff _ _ _ x

def metaQuery (label : Bytes) : Bytes :=
  [0,0,0,0,0,1,0,0,0,0,0,0] ++ (UInt8.ofNat label.length :: label) ++ (7 :: ascii "_dns-sd") ++
    (4 :: ascii "_udp") ++ (5 :: ascii "local") ++ [0] ++ be16 MdnsRecordType.ptr.code ++
    be16 mdnsClassIn

def metaQueries (label : Bytes) : Bytes :=
  [0,0,0,0,0,2,0,0,0,0,0,0] ++ (metaQuery (ascii "_services")).drop 12 ++ (metaQuery label).drop 12

theorem answers_alike_browse : AnswersAlike (oneInterfaceService hostA 7777) 3 .other
      ⟨fun _ => 0,fun _ => 0,[]⟩ (metaQueries (ascii "b")) (metaQueries (ascii "B")) ∧
    (advertiseRespondRequest (oneInterfaceService hostA 7777) 3
      (some (.other,metaQueries (ascii "b"))) ⟨fun _ => 0,fun _ => 0,[]⟩).sent.length = 1 := by
  have hvariants : CaseVariants (received (metaQueries (ascii "b")))
      (received (metaQueries (ascii "B"))) := ⟨by decide,by decide,by decide +kernel⟩
  have hservice := advertiseCreateService_oneInterface hostA 7777
  refine ⟨(answers_alike_iff hservice hvariants 3 .other _).1.mpr ?_,by decide +kernel⟩
  unfold AskedAlike
  decide +kernel

/-- In small letters the question for the services is answered, in capitals it is not,
although the loop over the questions takes both for the name of DNS-SD. -/
theorem capitals_are_not_answered : ¬ ∀ (env : AdvertiseEnv) (port : UInt16)
    (service : AdvertiseService), advertiseCreateService env port = some service →
      ∀ datagram datagram' : Bytes, CaseVariants (received datagram) (received datagram') →
        ∀ (sock : Int) (src : Sockaddr) (state : ResponderState),
          AnswersAlike service sock src state datagram datagram' := by
  intro h
  have hvariants : CaseVariants (received (metaQuery (ascii "_services")))
      (received (metaQuery (ascii "_SERVICES"))) := ⟨by decide,by decide,by decide +kernel⟩
  obtain ⟨out,out',hout,hout',hsent,hsent',halike⟩ := (h _ _ _
    (advertiseCreateService_oneInterface hostA 7777) _ _ hvariants 3 .other
      ⟨fun _ => 0,fun _ => 0,[]⟩)
  have hsmall : (advertiseRespondRequest (oneInterfaceService hostA 7777) 3
      (some (.other,metaQuery (ascii "_services"))) ⟨fun _ => 0,fun _ => 0,[]⟩).sent.length = 1 := by
    decide +kernel
  have hcapital : (advertiseRespondRequest (oneInterfaceService hostA 7777) 3
      (some (.other,metaQuery (ascii "_SERVICES"))) ⟨fun _ => 0,fun _ => 0,[]⟩).sent.length = 0 := by
    decide +kernel
  rw [hout,List.nil_append] at hsmall
  rw [hout',List.nil_append] at hcapital
  have hlength := halike.length_eq
  have hlength₁ := hsent.length_eq
  have hlength₂ := hsent'.length_eq
  omega

end WlrRemote
