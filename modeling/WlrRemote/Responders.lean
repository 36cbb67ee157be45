import WlrRemote.BuiltService
import WlrRemote.Runs
import Mathlib.Logic.Function.Basic

/-!
Several responders that hear each other: which of the datagrams they emit make
another responder emit one.
-/

set_option autoImplicit false

namespace WlrRemote
open Octets

section Listen

variable {σ : Type} {callback : Mem → MdnsEntry → σ → Int × σ}
variable (hcallback : ∀ data e state, e.entry ≠ .question → callback data e state = (0,state))
include hcallback

theorem mdnsRecordsParse_state (sock : Int) (src : Sockaddr) (buffer : Mem) (size : Nat)
    {entry : MdnsEntryType} (he : entry ≠ .question) (queryId : UInt16) (records : Nat)
    (p : MdnsProgress σ) :
    (mdnsRecordsParse callback sock src buffer size entry queryId records p).state = p.state := by
  induction records generalizing p with
  | zero => rfl
  | succ records ih =>
    unfold mdnsRecordsParse
    simp only
    split
    · rfl
    · split
      · rw [hcallback _ _ _ he]
        simp only [ne_eq,not_true_eq_false,↓reduceIte]
        exact ih _
      · exact ih _

theorem mdnsSection_state (sock : Int) (src : Sockaddr) (buffer : Mem) (size : Nat)
    {entry : MdnsEntryType} (he : entry ≠ .question) (queryId rrs : UInt16)
    (p : MdnsProgress σ) :
    (mdnsSection callback sock src buffer size entry queryId rrs p).state = p.state := by
  unfold mdnsSection
  split
  · rfl
  · exact mdnsRecordsParse_state hcallback sock src buffer size he queryId _ _

theorem mdnsSocketListen_state (sock : Int) (capacity : Nat) (buffer : Mem) (src : Sockaddr)
    {datagram : Bytes} (hlen : 0 < datagram.length) (hcap : datagram.length ≤ capacity)
    (state : σ) :
    (mdnsSocketListen callback sock capacity buffer (some (src,datagram)) state).2.2 =
      let data := buffer.write 0 datagram
      (mdnsQuestionLoop callback sock src data datagram.length (data.be16 0) (data.be16 2)
        (data.be16 4).toNat ⟨false,12,0,state⟩).state := by
  have htake : datagram.take capacity = datagram := List.take_of_length_le hcap
  have hne : ¬ datagram.length = 0 := by omega
  simp only [mdnsSocketListen,htake,hne,↓reduceIte]
  rw [mdnsSection_state hcallback _ _ _ _ (by decide),
    mdnsSection_state hcallback _ _ _ _ (by decide),
    mdnsSection_state hcallback _ _ _ _ (by decide)]

end Listen

/-- The datagram is the service's answer to one asker, on a question of this name and type. -/
def AnswersAsker (service : AdvertiseService) (d : Sent) (name : Bytes) (rtype : UInt16) : Prop :=
  ∃ (buffer : Mem) (queryId : UInt16) (answer : MdnsRecord) (additional : List MdnsRecord),
    serviceAnswer service name rtype = some (answer,additional) ∧
      d ∈ (mdnsQueryAnswerUnicast buffer sendBufferCapacity queryId rtype name answer []
        additional).sent d.sock d.dest

/-- Every datagram a service emits begins with the header of a response, which
counts one question if it answers one asker and none if it goes to the group. -/
structure IsResponse (service : AdvertiseService) (d : Sent) : Prop where
  size_ge : 12 ≤ d.bytes.length
  size_le : d.bytes.length ≤ advertiseBufferCapacity
  header : ∃ header : MdnsHeader, d.bytes.take 12 = header.bytes ∧ header.flags = 0x8400 ∧
    (header.questions = 0 ∨
      header.questions = 1 ∧ ∃ name rtype, AnswersAsker service d name rtype)

def Emits (service : AdvertiseService) (k : Nat) (state state' : ResponderState) : Prop :=
  ∃ out : List Sent, state'.sent = state.sent ++ out ∧ out.length ≤ k ∧
    ∀ d ∈ out, IsResponse service d

theorem Emits.of_eq {service : AdvertiseService} {k : Nat} {state state' : ResponderState}
    (h : state'.sent = state.sent) :
    Emits service k state state' := ⟨[],by simp [h],by simp,by simp⟩

theorem Emits.trans {service : AdvertiseService} {k n : Nat} {s₁ s₂ s₃ : ResponderState}
    (h₁ : Emits service k s₁ s₂) (h₂ : Emits service n s₂ s₃) : Emits service (k + n) s₁ s₃ := by
  obtain ⟨out₁,he₁,hl₁,hr₁⟩ := h₁
  obtain ⟨out₂,he₂,hl₂,hr₂⟩ := h₂
  refine ⟨out₁ ++ out₂,by rw [he₂,he₁,List.append_assoc],by rw [List.length_append]; omega,?_⟩
  intro d hd
  rcases List.mem_append.mp hd with h | h
  · exact hr₁ d h
  · exact hr₂ d h

theorem Emits.mono {service : AdvertiseService} {k n : Nat} {state state' : ResponderState}
    (h : Emits service k state state') (hk : k ≤ n) : Emits service n state state' := by
  obtain ⟨out,he,hl,hr⟩ := h
  exact ⟨out,he,by omega,hr⟩

theorem serviceCallback_zero {service : AdvertiseService} (data : Mem) (e : MdnsEntry)
    (state : ResponderState) : (serviceCallback service data e state).1 = 0 := by
  unfold serviceCallback
  split
  · rfl
  · simp only
    split
    · rfl
    · split <;> rfl

theorem ServiceOf.serviceCallback_emits {hostname : HostName} {service : AdvertiseService}
    (h : ServiceOf hostname service) (data : Mem) (e : MdnsEntry) (state : ResponderState) :
    Emits service 1 state (serviceCallback service data e state).2 := by
  by_cases he : e.entry = .question
  · cases ha : serviceAnswer service (questionName data e) e.rtype with
    | none => exact .of_eq (by rw [serviceCallback_of_none state ha])
    | some records =>
      obtain ⟨answer,additional⟩ := records
      obtain ⟨bytes,hsent,hmin,hmax,hhead⟩ := h.answerMessage_sent ha state.sendBuffer
      have hcap : sendBufferCapacity ≤ advertiseBufferCapacity := by decide
      rw [serviceCallback_of_some state he ha]
      refine ⟨_,rfl,by rw [hsent]; simp,?_⟩
      rw [hsent]
      intro d hd
      obtain rfl := List.mem_singleton.mp hd
      refine ⟨hmin,by simp only; omega,_,hhead,?_⟩
      unfold answerHeader
      unfold answerMessage at hsent
      split at hsent
      · rename_i hunicast
        refine ⟨by simp [hunicast],Or.inr ⟨by simp [hunicast],questionName data e,e.rtype,
          state.sendBuffer,e.queryId,answer,additional,ha,?_⟩⟩
        rw [answerMessage,if_pos hunicast,hsent]
        exact List.mem_singleton_self _
      · rename_i hgroup
        simp [hgroup]
  · exact .of_eq (by rw [serviceCallback_of_record state he])

theorem ServiceOf.callback_silent_iff {hostname : HostName} {service : AdvertiseService}
    (h : ServiceOf hostname service) {data : Mem} {e : MdnsEntry} (state : ResponderState)
    (he : e.entry = .question) : (serviceCallback service data e state).2.sent = state.sent ↔
      ¬ (serviceAnswer service (questionName data e) e.rtype).isSome = true := by
  cases ha : serviceAnswer service (questionName data e) e.rtype with
  | none => simp [serviceCallback_of_none state ha]
  | some records =>
    obtain ⟨answer,additional⟩ := records
    obtain ⟨bytes,hsent,-⟩ := h.answerMessage_sent ha state.sendBuffer
    rw [serviceCallback_of_some state he ha]
    simp [hsent]

theorem ServiceOf.questionLoop_emits {hostname : HostName} {service : AdvertiseService}
    (h : ServiceOf hostname service) (sock : Int) (src : Sockaddr) (buffer : Mem) (size : Nat)
    (queryId flags : UInt16) (questions : Nat) (p : MdnsProgress ResponderState) :
    Emits service questions p.state (mdnsQuestionLoop (serviceCallback service) sock src buffer size
      queryId flags questions p).state := by
  induction questions generalizing p with
  | zero => exact .of_eq rfl
  | succ questions ih =>
    unfold mdnsQuestionLoop
    split
    · exact .of_eq rfl
    · rename_i q _
      split
      · exact .of_eq rfl
      · split
        · exact (ih { p with offset := q.next }).mono (by omega)
        · simp only [serviceCallback_zero,ne_eq,not_true_eq_false,↓reduceIte]
          exact ((h.serviceCallback_emits _ _ p.state).trans (ih _)).mono (by omega)

theorem ServiceOf.announceOn_emits {hostname : HostName} {service : AdvertiseService}
    (h : ServiceOf hostname service) (rclass : UInt16) (ttl : UInt32) (sock : Int)
    (state : ResponderState) : Emits service 1 state (advertiseAnnounceOn service
      (fun buffer capacity answer authority additional => mdnsAnswerMulticastRclassTtl buffer
        capacity answer authority additional rclass ttl) sock state) := by
  unfold advertiseAnnounceOn
  split
  · have hr := h.rooms.1
    have hadd := h.buildAdditional_room .ptr
    have hcap : advertiseBufferCapacity = 2048 := rfl
    have htype : service.recordPtr.type ≠ .txt := by simp [h.record_types.1]
    have hroom : 48 + recordRoom service.recordPtr +
        recordsRoom (buildAdditional service .ptr) ≤ advertiseBufferCapacity := by omega
    obtain ⟨bytes,hsent,hmin,hmax,hhead⟩ := (mdnsAnswerMulticastRclassTtl_extends
      rclass ttl (by omega) htype hroom).sent sock none
    refine ⟨_,rfl,by rw [hsent]; simp,?_⟩
    rw [hsent]
    intro d hd
    obtain rfl := List.mem_singleton.mp hd
    exact ⟨hmin,by simp only; omega,_,hhead,rfl,Or.inl rfl⟩
  · exact .of_eq rfl

theorem ServiceOf.announce_emits {hostname : HostName} {service : AdvertiseService}
    (h : ServiceOf hostname service) (rclass : UInt16) (ttl : UInt32) (state : ResponderState) :
    Emits service 2 state (advertiseAnnounce service
      (fun buffer capacity answer authority additional => mdnsAnswerMulticastRclassTtl buffer
        capacity answer authority additional rclass ttl) state) :=
  (h.announceOn_emits rclass ttl service.socks.v4 state).trans
    (h.announceOn_emits rclass ttl service.socks.v6 _)

structure BuiltService where
  service : AdvertiseService
  built : ∃ env port, advertiseCreateService env port = some service

theorem BuiltService.serviceOf (s : BuiltService) : ∃ hostname, ServiceOf hostname s.service := by
  obtain ⟨env,port,h⟩ := s.built
  obtain ⟨hostname,-,hof⟩ := advertiseCreateService_serviceOf h
  exact ⟨hostname,hof⟩

structure Query where
  bytes : Bytes
  header_le : 12 ≤ bytes.length

def questionCount (bytes : Bytes) : Nat := (ofBe16 ((bytes.drop 4).take 2)).toNat

inductive NetInput (ι : Type) where
  | announce (i : ι)
  | goodbye (i : ι)
  | query (i : ι) (sock : Int) (src : Sockaddr) (n : Nat)
  | emitted (i : ι) (sock : Int) (src : Sockaddr) (j : ι) (n : Nat)

/-- The responders, each with the datagrams it has emitted; how many of these were
answers, and how many questions the queries delivered so far asked. -/
structure NetState (ι : Type) where
  responders : ι → ResponderState
  answers : Nat
  asked : Nat

section Network

variable {ι : Type} [DecidableEq ι] (services : ι → BuiltService) (queries : List Query)

def NetState.update (s : NetState ι) (i : ι) (state : ResponderState) : NetState ι :=
  { s with responders := Function.update s.responders i state }

def NetState.respond (s : NetState ι) (i : ι) (sock : Int) (src : Sockaddr) (bytes : Bytes) :
    NetState ι :=
  let before := s.responders i
  let after := advertiseRespondRequest (services i).service sock (some (src,bytes)) before
  { s.update i after with answers := s.answers + (after.sent.length - before.sent.length) }

/-- One event. Initial queries and emitted datagrams may be delivered to anyone,
in any order and any number of times. -/
def netStep (s : NetState ι) : NetInput ι → Option (NetState ι)
  | .announce i => some (s.update i (advertiseAnnounceService (services i).service (s.responders i)))
  | .goodbye i => some (s.update i (advertiseAnnounceGoodbye (services i).service (s.responders i)))
  | .query i sock src n => queries[n]?.map fun q =>
    { s.respond services i sock src q.bytes with asked := s.asked + questionCount q.bytes }
  | .emitted i sock src j n =>
    (s.responders j).sent[n]?.map fun d => s.respond services i sock src d.bytes

def ReadsQuestion (service : AdvertiseService) (buffer : Mem) (bytes : Bytes) : Prop :=
  questionCount bytes ≠ 0 ∧ ∃ q,
    mdnsReadQuestion (buffer.write 0 bytes) bytes.length 12 = some q ∧
      mdnsClassAccepted q.rclass = true ∧ q.dnsSd = false ∧
      (serviceAnswer service (((mdnsStringExtract (buffer.write 0 bytes) bytes.length 12 256).map
        Prod.fst).getD []) q.rtype).isSome = true

/-- An emitted datagram makes its receiver emit nothing, and there are no more answers
than questions asked. -/
def Quiet (s : NetState ι) (input : NetInput ι) (s' : NetState ι) : Prop :=
  (∀ i sock src j n, input = .emitted i sock src j n →
    (s'.responders i).sent = (s.responders i).sent) ∧ s'.answers ≤ s'.asked

end Network

theorem questionCount_write {buffer : Mem} {bytes : Bytes} (h : 12 ≤ bytes.length) :
    ((buffer.write 0 bytes).be16 4).toNat = questionCount bytes := by
  have hread : (buffer.write 0 bytes).read (0 + 4) 2 = (bytes.drop 4).take 2 :=
    Mem.read_write_part (by omega)
  rw [Nat.zero_add] at hread
  rw [Mem.be16,hread,questionCount]

theorem questionCount_take (bytes : Bytes) (capacity : Nat) (h : 12 ≤ capacity) :
    questionCount (bytes.take capacity) = questionCount bytes := by
  unfold questionCount
  rw [List.drop_take,List.take_take,Nat.min_eq_left (by omega)]

theorem questionCount_header {bytes : Bytes} {header : MdnsHeader}
    (h : bytes.take 12 = header.bytes) : questionCount bytes = header.questions.toNat := by
  rw [← questionCount_take bytes 12 (Nat.le_refl 12),h]
  have hread : (header.bytes.drop 4).take 2 = be16 header.questions := rfl
  rw [questionCount,hread,ofBe16_be16]

theorem advertiseRespondRequest_sent (service : AdvertiseService) (sock : Int) (src : Sockaddr)
    {datagram : Bytes} (hlen : 12 ≤ datagram.length)
    (hcap : datagram.length ≤ advertiseBufferCapacity) (state : ResponderState) :
    (advertiseRespondRequest service sock (some (src,datagram)) state).sent =
      let data := state.buffer.write 0 datagram
      (mdnsQuestionLoop (serviceCallback service) sock src data datagram.length (data.be16 0)
        (data.be16 2) (questionCount datagram) ⟨false,12,0,state⟩).state.sent := by
  have hrecord (data : Mem) (e : MdnsEntry) (state : ResponderState) (he : e.entry ≠ .question) :
      serviceCallback service data e state = (0,state) := serviceCallback_of_record state he
  have hlisten := mdnsSocketListen_state hrecord sock advertiseBufferCapacity state.buffer src
    (by omega) hcap state
  simp only [questionCount_write hlen] at hlisten
  simp only [advertiseRespondRequest]
  rw [hlisten]

theorem advertiseRespondRequest_take (service : AdvertiseService) (sock : Int) (src : Sockaddr)
    (datagram : Bytes) (state : ResponderState) :
    advertiseRespondRequest service sock (some (src,datagram)) state =
      advertiseRespondRequest service sock
        (some (src,datagram.take advertiseBufferCapacity)) state := by
  simp only [advertiseRespondRequest,mdnsSocketListen,List.take_take,Nat.min_self]

theorem ServiceOf.respond_emits {hostname : HostName} {service : AdvertiseService}
    (h : ServiceOf hostname service) (sock : Int) (src : Sockaddr) {bytes : Bytes}
    (hlen : 12 ≤ bytes.length) (state : ResponderState) :
    Emits service (questionCount bytes) state
      (advertiseRespondRequest service sock (some (src,bytes)) state) := by
  have hcap : 12 ≤ advertiseBufferCapacity := by decide
  have hcount := questionCount_take bytes advertiseBufferCapacity hcap
  have hlen' : 12 ≤ (bytes.take advertiseBufferCapacity).length := by
    rw [List.length_take]
    omega
  have hle : (bytes.take advertiseBufferCapacity).length ≤ advertiseBufferCapacity :=
    List.length_take_le _ _
  have htake := advertiseRespondRequest_take service sock src bytes state
  have hsent := advertiseRespondRequest_sent service sock src hlen' hle state
  generalize bytes.take advertiseBufferCapacity = datagram at hcount htake hsent
  rw [hcount] at hsent
  obtain ⟨out,hout,hle,hresponse⟩ := h.questionLoop_emits sock src (state.buffer.write 0 datagram)
    datagram.length ((state.buffer.write 0 datagram).be16 0)
    ((state.buffer.write 0 datagram).be16 2) (questionCount bytes) ⟨false,12,0,state⟩
  exact ⟨out,by rw [htake,hsent,hout],hle,hresponse⟩

theorem BuiltService.respond_emits (b : BuiltService) (sock : Int) (src : Sockaddr) {bytes : Bytes}
    (h : 12 ≤ bytes.length) (state : ResponderState) : Emits b.service (questionCount bytes) state
      (advertiseRespondRequest b.service sock (some (src,bytes)) state) := by
  obtain ⟨hostname,hof⟩ := b.serviceOf
  exact hof.respond_emits sock src h state

/-- A response makes the receiver emit something exactly if it reads a question of
its own there. -/
theorem ServiceOf.respond_response {hostname : HostName} {service sender : AdvertiseService}
    (h : ServiceOf hostname service) (sock : Int) (src : Sockaddr) {d : Sent}
    (hr : IsResponse sender d) (state : ResponderState) :
    (advertiseRespondRequest service sock (some (src,d.bytes)) state).sent = state.sent ↔
      ¬ ReadsQuestion service state.buffer d.bytes := by
  obtain ⟨hlen,hcap,header,hhead,hflags,hquestions⟩ := hr
  generalize d.bytes = bytes at *
  replace hquestions : header.questions = 0 ∨ header.questions = 1 := hquestions.imp_right And.left
  have hcount := questionCount_header hhead
  have hflags' : (state.buffer.write 0 bytes).be16 2 ≠ 0 := by
    have hread : (state.buffer.write 0 bytes).read (0 + 2) 2 = (bytes.drop 2).take 2 :=
      Mem.read_write_part (by omega)
    have hbytes : (bytes.drop 2).take 2 = ((bytes.take 12).drop 2).take 2 := by
      rw [List.drop_take,List.take_take]
      rfl
    rw [Nat.zero_add,hbytes,hhead] at hread
    have hfield : (header.bytes.drop 2).take 2 = be16 header.flags := rfl
    rw [hfield] at hread
    rw [Mem.be16_of_read hread,hflags]
    decide
  rw [advertiseRespondRequest_sent service sock src hlen hcap]
  simp only
  rcases hquestions with hq | hq
  · have hzero : questionCount bytes = 0 := by rw [hcount,hq]; rfl
    simp [hzero,mdnsQuestionLoop,ReadsQuestion]
  · have hone : questionCount bytes = 1 := by rw [hcount,hq]; rfl
    simp only [hone,mdnsQuestionLoop,ReadsQuestion,ne_eq,Nat.one_ne_zero,not_false_eq_true,
      true_and]
    cases hread : mdnsReadQuestion (state.buffer.write 0 bytes) bytes.length 12 with
    | none => simp
    | some q =>
      by_cases hclass : mdnsClassAccepted q.rclass = true
      · by_cases hsd : q.dnsSd = true
        · simp [hclass,hsd,hflags']
        · have hsd' : q.dnsSd = false := by simpa using hsd
          simp only [hclass,hsd',Bool.not_true,Bool.false_and,Bool.false_eq_true,↓reduceIte,
            serviceCallback_zero,not_true_eq_false]
          simp only [Option.some.injEq,exists_eq_left',hclass,hsd',true_and]
          exact h.callback_silent_iff state rfl
      · simp [hclass]

section Network

variable {ι : Type} [DecidableEq ι] {services : ι → BuiltService} {queries : List Query}

def NetState.LogsRespond (services : ι → BuiltService) (s : NetState ι) : Prop :=
  ∀ i, ∀ d ∈ (s.responders i).sent, IsResponse (services i).service d

structure NetState.Accounted (services : ι → BuiltService) (s : NetState ι) : Prop where
  logs : s.LogsRespond services
  answers_le : s.answers ≤ s.asked

theorem NetState.responders_update (s : NetState ι) (i : ι) (state : ResponderState) :
    (s.update i state).responders i = state := by
  simp [update]

theorem NetState.update_responses {s : NetState ι} {i : ι} {k : Nat} {state : ResponderState}
    (hs : s.LogsRespond services) (he : Emits (services i).service k (s.responders i) state) :
    (s.update i state).LogsRespond services := by
  intro j
  by_cases hj : j = i
  · subst hj
    obtain ⟨out,hout,-,hr⟩ := he
    rw [s.responders_update,hout]
    intro d hd
    rcases List.mem_append.mp hd with hd | hd
    · exact hs j d hd
    · exact hr d hd
  · simpa [update,hj] using hs j

theorem netStep_responses {s s' : NetState ι} {input : NetInput ι} (hs : s.LogsRespond services)
    (h : netStep services queries s input = some s') : s'.LogsRespond services := by
  cases input with
  | announce k =>
    obtain ⟨hostname,hof⟩ := (services k).serviceOf
    obtain rfl := Option.some.inj h
    exact NetState.update_responses hs (hof.announce_emits (mdnsClassIn ||| mdnsCacheFlush) 60 _)
  | goodbye k =>
    obtain ⟨hostname,hof⟩ := (services k).serviceOf
    obtain rfl := Option.some.inj h
    exact NetState.update_responses hs (hof.announce_emits mdnsClassIn 0 _)
  | query k sock src n =>
    obtain ⟨q,-,rfl⟩ := Option.map_eq_some_iff.mp h
    exact NetState.update_responses hs ((services k).respond_emits sock src q.header_le _)
  | emitted k sock src j n =>
    obtain ⟨d,hd,rfl⟩ := Option.map_eq_some_iff.mp h
    have hr := hs j d (List.mem_of_getElem? hd)
    exact NetState.update_responses hs ((services k).respond_emits sock src hr.size_ge _)

theorem emitted_quiet_iff {s s' : NetState ι} (hs : s.LogsRespond services) {i j : ι}
    {sock : Int} {src : Sockaddr} {n : Nat}
    (h : netStep services queries s (.emitted i sock src j n) = some s') :
    (s'.responders i).sent = (s.responders i).sent ↔
      ∀ d, (s.responders j).sent[n]? = some d →
        ¬ ReadsQuestion (services i).service (s.responders i).buffer d.bytes := by
  obtain ⟨hostname,hof⟩ := (services i).serviceOf
  obtain ⟨d,hd,rfl⟩ := Option.map_eq_some_iff.mp h
  have hr := hs j d (List.mem_of_getElem? hd)
  have hiff := hof.respond_response sock src hr (s.responders i)
  simpa [NetState.respond,NetState.responders_update,hd] using hiff

theorem netStep_answers {s s' : NetState ι} {input : NetInput ι} (hs : s.Accounted services)
    (hquiet : ∀ i sock src j n, input = .emitted i sock src j n →
      (s'.responders i).sent = (s.responders i).sent)
    (h : netStep services queries s input = some s') : s'.answers ≤ s'.asked := by
  have hle := hs.answers_le
  cases input with
  | announce | goodbye =>
    obtain rfl := Option.some.inj h
    exact hle
  | query i sock src n =>
    obtain ⟨q,-,rfl⟩ := Option.map_eq_some_iff.mp h
    obtain ⟨out,hout,hcount,-⟩ :=
      (services i).respond_emits sock src q.header_le (s.responders i)
    simp only [NetState.respond,hout,List.length_append]
    omega
  | emitted i sock src j n =>
    have hsent := hquiet i sock src j n rfl
    obtain ⟨d,-,rfl⟩ := Option.map_eq_some_iff.mp h
    simp only [NetState.respond,NetState.update,Function.update_self] at hsent ⊢
    rw [hsent]
    omega

def NetState.start (buffers sendBuffers : ι → Mem) : NetState ι where
  responders := fun i => ⟨buffers i,sendBuffers i,[]⟩
  answers := 0
  asked := 0

end Network

def twoHosts (second : Bool) : BuiltService :=
  let hostname : HostName := if second then ⟨ascii "b",by decide,by decide⟩ else hostA
  ⟨oneInterfaceService hostname 7777,oneInterface hostname,7777,
    advertiseCreateService_oneInterface hostname 7777⟩

def serviceQuery : Query where
  bytes := [0,0,0,0,0,1,0,0,0,0,0,0] ++ (11 :: ascii "_wlr-remote") ++ (4 :: ascii "_udp") ++
    (5 :: ascii "local") ++ [0] ++ be16 MdnsRecordType.ptr.code ++
    be16 (mdnsUnicastResponse ||| mdnsClassIn)
  header_le := by decide

/-- The answer of the first host repeats the question, and the second host answers it. -/
theorem unicast_answer_is_answered : ∃ (services : Bool → BuiltService) (queries : List Query)
    (buffers sendBuffers : Bool → Mem) (inputs : List (NetInput Bool)),
    ¬ Runs.Along (netStep services queries) Quiet (.start buffers sendBuffers) inputs := by
  refine ⟨twoHosts,[serviceQuery],fun _ _ => 0,fun _ _ => 0,
    [.query false 3 .other 0,.emitted true 3 .other false 0],?_⟩
  intro h
  have hcounts : (Runs.run (netStep twoHosts [serviceQuery])
      (.start (fun _ _ => 0) (fun _ _ => 0))
      [.query false 3 .other 0,.emitted true 3 .other false 0]).map
        (fun s => (s.answers,s.asked)) = some (2,1) := by decide +kernel
  obtain ⟨s,hrun,hs⟩ := Option.map_eq_some_iff.mp hcounts
  obtain ⟨ha,hq⟩ := Prod.mk.inj hs
  have hstep (s : NetState Bool) (input : NetInput Bool) (s' : NetState Bool)
      (_ : s.answers ≤ s.asked) (_ : netStep twoHosts [serviceQuery] s input = some s')
      (hq : Quiet s input s') : s'.answers ≤ s'.asked := hq.2
  have hle : s.answers ≤ s.asked := h.run_inv hstep (Nat.le_refl 0) hrun
  omega

end WlrRemote
