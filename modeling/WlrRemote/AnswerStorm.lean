import WlrRemote.AnswersGiven
import WlrRemote.NamesRead
import WlrRemote.MessageText

set_option autoImplicit false

namespace WlrRemote
open Octets

def browseQuestion : MdnsQuery := ⟨.ptr,SERVICE_NAME⟩

def browseClass : UInt16 := mdnsUnicastResponse ||| mdnsClassIn

def Browses (bytes : Bytes) : Prop := ∃ (header : MdnsHeader) (rest : Bytes),
  bytes = header.bytes ++ browseQuestion.bytes browseClass ++ rest ∧ header.questions = 1 ∧
    bytes.length ≤ advertiseBufferCapacity

theorem browse_legal : LegalName browseQuestion.name := by
  constructor <;> decide +kernel

theorem browse_encoded : ∃ st,
    NameState.start.encodeName SERVICE_NAME = some (plainName SERVICE_NAME,st) := by
  have hbytes : (NameState.start.encodeName SERVICE_NAME).map Prod.fst =
      some (plainName SERVICE_NAME) := by decide +kernel
  obtain ⟨⟨bs,st⟩,henc,rfl⟩ := Option.map_eq_some_iff.mp hbytes
  exact ⟨st,henc⟩

theorem length_dotted_lower (ls : List Bytes) :
    (dotted (ls.map (·.map asciiLower))).length = (dotted ls).length := by
  induction ls with
  | nil => rfl
  | cons l ls ih => rw [List.map_cons,length_dotted_cons,length_dotted_cons,ih,List.length_map]

theorem browse_not_dnsSd {m : Mem} {size offset stop : Nat} {q : MdnsQuestion}
    (hextract : mdnsStringExtract m size offset nameCapacity =
      some (dotted (nameLabels SERVICE_NAME),stop))
    (hread : mdnsReadQuestion m size offset = some q) : q.dnsSd = false := by
  cases hsd : q.dnsSd with
  | false => rfl
  | true =>
    obtain ⟨name,hname,hservices⟩ := (mdnsReadQuestion_dnsSd hread).mp hsd
    rw [mdnsStringExtract_labels,hname] at hextract
    obtain ⟨htext,-⟩ := Prod.mk.inj (Option.some.inj hextract)
    have hlen := length_dotted_lower name.1
    have hservice := congrArg List.length htext
    rw [hservices,show (dotted servicesLabels).length = 29 by decide] at hlen
    rw [List.length_take,← hlen] at hservice
    exact absurd hservice (by decide)

theorem Browses.read {bytes : Bytes} (h : Browses bytes) (buffer : Mem) :
    let data := buffer.write 0 bytes
    ∃ q, datagramQuestions data bytes.length = [(12,q)] ∧ q.rtype = MdnsRecordType.ptr.code ∧
      q.rclass = browseClass ∧ nameAt data bytes.length 12 = SERVICE_NAME := by
  intro data
  obtain ⟨header,rest,hbytes,hone,-⟩ := h
  have hlen : bytes.length = 12 + (browseQuestion.bytes browseClass).length + rest.length := by
    rw [hbytes,List.length_append,List.length_append,MdnsHeader.length_bytes]
  have hhead : bytes.take 12 = header.bytes := by
    rw [hbytes,List.append_assoc,List.take_left' (MdnsHeader.length_bytes header)]
  have htext : data.read (0 + 12) (browseQuestion.bytes browseClass).length =
      browseQuestion.bytes browseClass := by
    rw [Mem.read_write_part (by omega),hbytes,List.append_assoc,
      List.drop_left' (MdnsHeader.length_bytes header),List.take_left]
  obtain ⟨hextract,dnsSd,hread⟩ : mdnsStringExtract data bytes.length (0 + 12) nameCapacity = _ ∧
      ∃ dnsSd, mdnsReadQuestion data bytes.length (0 + 12) = some ⟨dnsSd,_,_,_,_⟩ :=
    MdnsQuery.read browse_legal htext (by omega)
  have hcount : (data.be16 4).toNat = 1 := by
    rw [questionCount_write (by omega),questionCount_header hhead,hone]
    rfl
  have hclass : mdnsClassAccepted browseClass = true := by decide
  obtain rfl : dnsSd = false := browse_not_dnsSd hextract hread
  rw [Nat.zero_add] at hextract hread
  refine ⟨⟨false,(plainName browseQuestion.name).length,browseQuestion.type.code,browseClass,
    12 + (browseQuestion.bytes browseClass).length⟩,?_,rfl,rfl,?_⟩
  · rw [datagramQuestions,hcount,questionsRead,hread]
    simp [hclass,questionsRead,questionHanded]
  · rw [nameAt,show (256 : Nat) = nameCapacity from rfl,hextract]
    decide +kernel

theorem Browses.answered {bytes : Bytes} (h : Browses bytes) (b : BuiltService) (sock : Int)
    (src : Sockaddr) (state : ResponderState) : ∃ bytes',
      (advertiseRespondRequest b.service sock (some (src,bytes)) state).sent =
        state.sent ++ [⟨sock,some src,bytes'⟩] ∧ Browses bytes' := by
  obtain ⟨hostname,hof⟩ := b.serviceOf
  obtain ⟨-,-,-,-,hcap⟩ := id h
  obtain ⟨q,hquestions,htype,hclass,hname⟩ := h.read state.buffer
  have hunicast : browseClass &&& mdnsUnicastResponse ≠ 0 := by decide
  let data := state.buffer.write 0 bytes
  let e := questionEntry sock src bytes.length (data.be16 0) 12 q
  have hans : serviceAnswer b.service SERVICE_NAME e.rtype =
      some (b.service.recordPtr,buildAdditional b.service .ptr) := by
    have hne : SERVICE_NAME ≠ DNS_SD_SERVICE_INSTANCE := by decide
    rw [hof.serviceAnswer_eq]
    simp only [hne,↓reduceIte,hof.serviceName]
    simp [e,questionEntry,htype]
  have hname' : questionName data e = SERVICE_NAME := hname
  obtain ⟨htxt,hroom⟩ := hof.serviceAnswer_fits hans
  obtain ⟨bytes',hmessage,-,hmax,-⟩ := hof.answerMessage_sent (e := e) hans state.sendBuffer
  obtain ⟨st,henc⟩ := browse_encoded
  obtain ⟨hwritten,hbuffer⟩ := (Laid.start (state.sendBuffer.write 0
    (unicastHeader e.queryId (buildAdditional b.service .ptr)).bytes)).makeName TableOf.empty
      sendBufferCapacity_reach (by decide) (by decide) henc
  have hdata := hwritten.data
  rw [NameState.encodeName_pos henc] at hdata
  obtain ⟨rest,hsent⟩ : ∃ rest, (mdnsQueryAnswerUnicast state.sendBuffer sendBufferCapacity e.queryId
      e.rtype SERVICE_NAME _ [] _).sent sock (some src) = [⟨sock,some src,_⟩] :=
    mdnsQueryAnswerUnicast_begins e.queryId e.rtype hdata hbuffer sendBufferCapacity_reach htxt
      hroom sock (some src)
  have hanswer : answerMessage SERVICE_NAME e state.sendBuffer b.service.recordPtr
      (buildAdditional b.service .ptr) = (mdnsQueryAnswerUnicast state.sendBuffer sendBufferCapacity
        e.queryId e.rtype SERVICE_NAME b.service.recordPtr [] (buildAdditional b.service .ptr),
        some src) := by
    rw [answerMessage,if_pos (by rw [show e.rclass = browseClass from hclass]; exact hunicast)]
    rfl
  rw [hanswer] at hmessage
  have hcallback := congrArg (fun r => r.2.sent)
    (serviceCallback_of_some (e := e) state rfl (by rw [hname']; exact hans))
  simp only [hname',hanswer] at hcallback
  refine ⟨bytes',?_,unicastHeader e.queryId (buildAdditional b.service .ptr),rest,?_,rfl,?_⟩
  · rw [advertiseRespondRequest_eq]
    simp only [List.take_of_length_le hcap,hquestions,answerQuestions,List.foldl_cons,
      List.foldl_nil]
    exact hcallback.trans (congrArg (state.sent ++ ·) hmessage)
  · have hbytes := hmessage.symm.trans hsent
    simp only [List.cons.injEq,Sent.mk.injEq,true_and,and_true] at hbytes
    rw [hbytes.2,show e.rtype = MdnsRecordType.ptr.code from htype]
    rfl
  · have hle : sendBufferCapacity ≤ advertiseBufferCapacity := by decide
    omega

section Network

variable {ι : Type} [DecidableEq ι] (services : ι → BuiltService) (address : ι → Sockaddr)
variable (sock : Int)

/-- The datagrams go back and forth, each once: the sender's next one is its `i`th, the
receiver's next one its `j`th. -/
def volleys : Nat → ι → ι → Nat → Nat → List (NetInput ι)
  | 0, _, _, _, _ => []
  | n + 1, sender, receiver, i, j =>
    .emitted receiver sock (address sender) sender i :: volleys n receiver sender j (i + 1)

/-- What is emitted goes where it was sent, and comes from the one who sent it. -/
def Addressed (s : NetState ι) (input : NetInput ι) (_ : NetState ι) : Prop :=
  ∀ receiver sock src sender n, input = .emitted receiver sock src sender n →
    src = address sender ∧
      ∃ d, (s.responders sender).sent[n]? = some d ∧ d.dest = some (address receiver)

structure Serving (s : NetState ι) (sender receiver : ι) (i j : Nat) : Prop where
  last : ∃ d, (s.responders sender).sent[i]? = some d ∧ d.dest = some (address receiver) ∧
    Browses d.bytes
  sender_length : (s.responders sender).sent.length = i + 1
  receiver_length : (s.responders receiver).sent.length = j

variable {address} (queries : List Query)

theorem Serving.step {s : NetState ι} {sender receiver : ι} {i j : Nat}
    (h : Serving address s sender receiver i j) (hne : sender ≠ receiver) :
    ∃ s', netStep services queries s (.emitted receiver sock (address sender) sender i) = some s' ∧
      Addressed address s (.emitted receiver sock (address sender) sender i) s' ∧
      Serving address s' receiver sender j (i + 1) ∧ s'.answers = s.answers + 1 ∧
      s'.asked = s.asked := by
  obtain ⟨d,hd,hdest,hbrowses⟩ := h.last
  obtain ⟨bytes,hsent,hbrowses'⟩ := hbrowses.answered (services receiver) sock (address sender)
    (s.responders receiver)
  have hlen := h.receiver_length
  refine ⟨s.respond services receiver sock (address sender) d.bytes,by rw [netStep,hd]; rfl,?_,?_,?_,
    rfl⟩
  · intro receiver' sock' src' sender' n hinput
    cases hinput
    exact ⟨rfl,d,hd,hdest⟩
  · constructor
    case last =>
      refine ⟨⟨sock,some (address sender),bytes⟩,?_,rfl,hbrowses'⟩
      rw [NetState.respond,← hlen]
      simp [NetState.update,hsent]
    case sender_length => simp [NetState.respond,NetState.update,hsent,hlen]
    case receiver_length =>
      simpa [NetState.respond,NetState.update,hne] using h.sender_length
  · simp [NetState.respond,hsent]

theorem Serving.run {s : NetState ι} {sender receiver : ι} {i j : Nat}
    (h : Serving address s sender receiver i j) (hne : sender ≠ receiver) (n : Nat) :
    Runs.Along (netStep services queries) (Addressed address) s
        (volleys address sock n sender receiver i j) ∧
      ∃ s', Runs.run (netStep services queries) s (volleys address sock n sender receiver i j) =
          some s' ∧ s'.answers = s.answers + n ∧ s'.asked = s.asked := by
  induction n generalizing s sender receiver i j with
  | zero => exact ⟨trivial,s,rfl,rfl,rfl⟩
  | succ n ih =>
    obtain ⟨s₁,hstep,haddressed,hserving,hanswers,hasked⟩ := h.step services sock queries hne
    obtain ⟨halong,s',hrun,hanswers',hasked'⟩ := ih hserving hne.symm
    refine ⟨?_,s',?_,by omega,hasked'.trans hasked⟩
    · intro s₂ hstep'
      obtain rfl := Option.some.inj (hstep.symm.trans hstep')
      exact ⟨haddressed,halong⟩
    · rw [volleys,Runs.run,hstep]
      exact hrun

end Network

def browse (queryId : UInt16) : Query where
  bytes := (queryHeader queryId [browseQuestion]).bytes ++ browseQuestion.bytes browseClass
  header_le := by
    rw [List.length_append,MdnsHeader.length_bytes]
    omega

/-- One query that browses, from the address of another service, is enough: the two services
answer each other's answers as long as they are delivered, each once and where it was sent. -/
theorem answers_never_end {ι : Type} [DecidableEq ι] (services : ι → BuiltService)
    (address : ι → Sockaddr) (sock : Int) (buffers sendBuffers : ι → Mem) (queryId : UInt16)
    {a b : ι} (hab : a ≠ b) (n : Nat) :
    let inputs := .query a sock (address b) 0 :: volleys address sock n a b 0 0
    Runs.Along (netStep services [browse queryId]) (Addressed address) (.start buffers sendBuffers)
        inputs ∧
      ∃ s, Runs.run (netStep services [browse queryId]) (.start buffers sendBuffers) inputs = some s ∧
        s.answers = n + 1 ∧ s.asked = 1 := by
  intro inputs
  have hbrowses : Browses (browse queryId).bytes :=
    ⟨queryHeader queryId [browseQuestion],[],by simp [browse],rfl,by
      rw [browse,List.length_append,MdnsHeader.length_bytes]
      decide⟩
  have hhead : (browse queryId).bytes.take 12 = (queryHeader queryId [browseQuestion]).bytes :=
    List.take_left' (MdnsHeader.length_bytes _)
  have hcount : questionCount (browse queryId).bytes = 1 := by
    rw [questionCount_header hhead]
    rfl
  obtain ⟨bytes,hsent,hbrowses'⟩ := hbrowses.answered (services a) sock (address b)
    ⟨buffers a,sendBuffers a,[]⟩
  let start : NetState ι := .start buffers sendBuffers
  let s : NetState ι := { start.respond services a sock (address b) (browse queryId).bytes with
    asked := 0 + questionCount (browse queryId).bytes }
  have hfirst : netStep services [browse queryId] start (.query a sock (address b) 0) = some s := rfl
  have hserving : Serving address s a b 0 0 := by
    constructor
    case last =>
      exact ⟨⟨sock,some (address b),bytes⟩,by simp [s,start,NetState.respond,NetState.update,
        NetState.start,hsent],rfl,hbrowses'⟩
    case sender_length =>
      simp [s,start,NetState.respond,NetState.update,NetState.start,hsent]
    case receiver_length =>
      simp [s,start,NetState.respond,NetState.update,NetState.start,hab.symm]
  have hanswers : s.answers = 1 := by
    simp [s,start,NetState.respond,NetState.start,hsent]
  obtain ⟨halong,s',hrun,hanswers',hasked⟩ := hserving.run services sock [browse queryId] hab n
  refine ⟨?_,s',?_,by omega,?_⟩
  · intro s₁ hstep
    obtain rfl := Option.some.inj (hfirst.symm.trans hstep)
    exact ⟨fun _ _ _ _ _ hinput => (by cases hinput),halong⟩
  · exact hrun
  · rw [hasked]
    simp only [s,hcount]

def hostAddress (second : Bool) : Sockaddr :=
  .inet ⟨AF_INET,mdnsPort,Vector.replicate 4 (if second then 11 else 10)⟩ rfl

theorem answers_never_end_twoHosts :
    ∃ s, Runs.run (netStep twoHosts [browse 7]) (.start (fun _ _ => 0) (fun _ _ => 0))
        (.query false 3 (hostAddress true) 0 :: volleys hostAddress 3 999 false true 0 0) = some s ∧
      s.answers = 1000 ∧ s.asked = 1 :=
  (answers_never_end twoHosts hostAddress 3 (fun _ _ => 0) (fun _ _ => 0) 7
    (by decide : false ≠ true) 999).2

end WlrRemote
