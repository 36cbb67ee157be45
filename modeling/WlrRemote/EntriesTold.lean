import WlrRemote.AnswersGiven
import WlrRemote.QueryRoundTrip
import WlrRemote.ReadsBounded

set_option autoImplicit false

namespace WlrRemote
open Octets

/-- The parts of an entry lie in a datagram of this size, the data of a record up to `slack`
bytes behind it, and its fields are those that stand in front of the data. -/
structure TellsOf (m : Mem) (size slack : Nat) (e : MdnsEntry) : Prop where
  received : e.size = size
  name : e.nameOffset + e.nameLength ≤ size
  record : e.recordOffset + e.recordLength ≤ size + slack
  fields : if e.entry = .question then e.recordOffset = e.nameOffset ∧ e.recordLength = e.nameLength
    else e.recordOffset = e.nameOffset + e.nameLength + 10 ∧ e.recordOffset ≤ size ∧
      e.rtype = m.be16 (e.recordOffset - 10) ∧ e.rclass = m.be16 (e.recordOffset - 8) ∧
      e.ttl = m.be32 (e.recordOffset - 6) ∧ e.recordLength = (m.be16 (e.recordOffset - 2)).toNat

theorem TellsOf.mono {m : Mem} {size slack slack' : Nat} {e : MdnsEntry} (h : TellsOf m size slack e)
    (hle : slack ≤ slack') : TellsOf m size slack' e :=
  ⟨h.received,h.name,h.record.trans (Nat.add_le_add_left hle size),h.fields⟩

theorem tellsOf_record {m : Mem} {size slack start stop length : Nat} (sock : Int) (src : Sockaddr)
    {entry : MdnsEntryType} (queryId : UInt16) (hentry : entry ≠ .question) (hge : start ≤ stop)
    (hin : stop + 10 ≤ size) (hlength : length = (m.be16 (stop + 8)).toNat)
    (hdata : stop + 10 + length ≤ size + slack) :
    TellsOf m size slack ⟨sock,src,entry,queryId,m.be16 stop,m.be16 (stop + 2),m.be32 (stop + 4),size,
      start,stop - start,stop + 10,length⟩ where
  received := rfl
  name := by
    simp only
    omega
  record := hdata
  fields := by
    simp only [hentry,↓reduceIte,hlength,Nat.reduceSubDiff,and_self,and_true]
    exact ⟨by omega,hin⟩

section Told

variable {σ : Type} {callback callback' : Mem → MdnsEntry → σ → Int × σ} {m : Mem} {size : Nat}
  (sock : Int) (src : Sockaddr)

def AlikeOn (callback callback' : Mem → MdnsEntry → σ → Int × σ) (m : Mem) (size slack : Nat) :
    Prop := ∀ e state, TellsOf m size slack e → callback m e state = callback' m e state

theorem mdnsRecordsParse_told (h : AlikeOn callback callback' m size 0) {entry : MdnsEntryType}
    (hentry : entry ≠ .question) (queryId : UInt16) (records : Nat) (p : MdnsProgress σ) :
    mdnsRecordsParse callback sock src m size entry queryId records p =
      mdnsRecordsParse callback' sock src m size entry queryId records p := by
  induction records generalizing p with
  | zero => rfl
  | succ records ih =>
    simp only [mdnsRecordsParse]
    have hge : p.offset ≤ (mdnsStringSkip m size p.offset).getD p.offset := by
      cases hs : mdnsStringSkip m size p.offset with
      | none => exact Nat.le_refl _
      | some stop => exact Nat.le_of_succ_le (mdnsStringSkipLoop_ge hs).1
    generalize (mdnsStringSkip m size p.offset).getD p.offset = stop at hge
    split
    · rfl
    · split
      · have hcall := h _ p.state (tellsOf_record sock src queryId hentry hge (show stop + 10 ≤ size by omega)
          rfl (by omega))
        rw [hcall]
        simp only [ih]
      · exact ih _

theorem mdnsSection_told (h : AlikeOn callback callback' m size 0) {entry : MdnsEntryType}
    (hentry : entry ≠ .question) (queryId rrs : UInt16) (p : MdnsProgress σ) :
    mdnsSection callback sock src m size entry queryId rrs p =
      mdnsSection callback' sock src m size entry queryId rrs p := by
  simp only [mdnsSection,mdnsRecordsParse_told sock src h hentry]

theorem mdnsQuestionLoop_told (h : AlikeOn callback callback' m size 0) (queryId flags : UInt16)
    (questions : Nat) (p : MdnsProgress σ) :
    mdnsQuestionLoop callback sock src m size queryId flags questions p =
      mdnsQuestionLoop callback' sock src m size queryId flags questions p := by
  induction questions generalizing p with
  | zero => rfl
  | succ questions ih =>
    simp only [mdnsQuestionLoop,ih,mdnsReadQuestion_eq]
    cases hs : mdnsStringSkip m size p.offset with
    | none => rfl
    | some stop =>
      have hge := (mdnsStringSkipLoop_ge hs).1
      have hle := mdnsStringSkip_le hs
      simp only [Option.map_some]
      rw [h _ p.state ⟨rfl,by simp only; omega,by simp only; omega,by simp⟩]

theorem mdnsDiscoveryAnswers_told (h : AlikeOn callback callback' m size 10) (queryId : UInt16)
    (answerRrs offset records : Nat) (state : σ) :
    mdnsDiscoveryAnswers callback sock src m size queryId answerRrs offset records state =
      mdnsDiscoveryAnswers callback' sock src m size queryId answerRrs offset records state := by
  induction answerRrs generalizing offset records state with
  | zero => rfl
  | succ answerRrs ih =>
    simp only [mdnsDiscoveryAnswers]
    -- where the name is the one asked for, it ends where it would be skipped to
    have hskip : ((mdnsStringEqual m size offset mdnsServicesQueryMem mdnsServicesQuery.length
        12).map Prod.fst).or (mdnsStringSkip m size offset) = mdnsStringSkip m size offset := by
      cases he : mdnsStringEqual m size offset mdnsServicesQueryMem mdnsServicesQuery.length 12 with
      | none => rfl
      | some ends =>
        rw [mdnsStringSkip,mdnsStringEqualLoop_skip he]
        rfl
    rw [hskip]
    cases hs : mdnsStringSkip m size offset with
    | none => rfl
    | some stop =>
      have hge := (mdnsStringSkipLoop_ge hs).1
      simp only
      split
      · rfl
      · split
        · rfl
        · split
          · rw [h _ state (tellsOf_record sock src queryId (by decide) (by omega) (by omega) rfl
              (by omega))]
            simp only [ih]
          · exact ih _ _ _

theorem mdnsDiscoveryAnswers_within (hcallback : ReadsWithin callback) {m' : Mem}
    (h : AgreeBelow size m m') (queryId : UInt16) (answerRrs offset records : Nat) (state : σ) :
    mdnsDiscoveryAnswers callback sock src m size queryId answerRrs offset records state =
      mdnsDiscoveryAnswers callback sock src m' size queryId answerRrs offset records state := by
  have hcall (e : MdnsEntry) (he : e.size = size) (state : σ) :
      callback m e state = callback m' e state := hcallback m m' e state (by rw [he]; exact h)
  have hskip (offset : Nat) : mdnsStringSkip m size offset = mdnsStringSkip m' size offset :=
    mdnsStringSkipLoop_congr h _ _
  have hequal (offset : Nat) :
      mdnsStringEqual m size offset mdnsServicesQueryMem mdnsServicesQuery.length 12 =
        mdnsStringEqual m' size offset mdnsServicesQueryMem mdnsServicesQuery.length 12 :=
    mdnsStringEqualLoop_congr h _ _ _ _ _ _ _
  induction answerRrs generalizing offset records state with
  | zero => rfl
  | succ answerRrs ih =>
    simp only [mdnsDiscoveryAnswers,← hskip,← hequal,ih]
    cases hs : ((mdnsStringEqual m size offset mdnsServicesQueryMem mdnsServicesQuery.length
        12).map Prod.fst).or (mdnsStringSkip m size offset) with
    | none => rfl
    | some stop =>
      simp only
      split
      · rfl
      · rw [h.be16 (by omega),h.be16 (by omega),h.be16 (by omega),
          show m.be32 (stop + 4) = m'.be32 (stop + 4) by
            rw [Mem.be32,Mem.be32,h.read (by omega)],hcall _ rfl]

theorem mdnsDiscoveryRecv_answers (hcallback : ReadsWithin callback) {bytes : Bytes}
    {questions answers : UInt16} {offset stop records : Nat} {state state' : σ} (buffer : Mem)
    {capacity : Nat} (hcap : bytes.length ≤ capacity)
    (hhead : bytes.take 12 = (⟨0,0x8400,questions,answers,0,0⟩ : MdnsHeader).bytes)
    (hquestions : mdnsVerifyQuestions (buffer.write 0 bytes) bytes.length questions.toNat 12 =
      some offset)
    (hanswers : mdnsDiscoveryAnswers callback sock src (messageMem bytes) bytes.length 0 answers.toNat
      offset 0 state = (.goesOn stop,records,state')) :
    mdnsDiscoveryRecv callback sock capacity buffer (some (src,bytes)) state =
      (buffer.write 0 bytes,records,state') := by
  have hlen : 12 ≤ bytes.length := by
    have h := congrArg List.length hhead
    rw [List.length_take,MdnsHeader.length_bytes] at h
    omega
  have hagree : AgreeBelow bytes.length (messageMem bytes) (buffer.write 0 bytes) :=
    agreeBelow_write_same (fun _ => 0) buffer bytes
  have hread : (buffer.write 0 bytes).read 0 12 =
      (⟨0,0x8400,questions,answers,0,0⟩ : MdnsHeader).bytes := by
    rw [← hhead,← hagree.read (by omega),messageMem_read (by omega),List.drop_zero]
  obtain ⟨h₀,h₂⟩ := MdnsHeader.read_ids hread
  obtain ⟨h₄,h₆,h₈,h₁₀⟩ := MdnsHeader.read_counts hread
  rw [mdnsDiscoveryAnswers_within sock src hcallback hagree] at hanswers
  have hsome : ¬ bytes.length = 0 := by omega
  simp [mdnsDiscoveryRecv,List.take_of_length_le hcap,hsome,h₀,h₂,h₄,h₆,h₈,h₁₀,hquestions,hanswers,
    mdnsSection_empty]

end Told

/-- A datagram that answers the discovery with data that ends ten bytes behind it. -/
def overhanging : Bytes :=
  [0,0,0x84,0,0,0,0,1,0,0,0,0] ++ (mdnsServicesQuery.drop 12).take 30 ++ be16 MdnsRecordType.ptr.code ++
    be16 mdnsClassIn ++ be32 10 ++ be16 10

theorem overhanging_told (sock : Int) (src : Sockaddr) {capacity : Nat} (buffer : Mem)
    (hcap : overhanging.length ≤ capacity) :
    ∃ e, (mdnsDiscoveryRecv (fun _ e told => (0,told ++ [e])) sock capacity buffer
        (some (src,overhanging)) []).2 = (1,[e]) ∧
      e.size = overhanging.length ∧ e.recordOffset + e.recordLength = e.size + 10 := by
  have hcollect : ReadsWithin fun (_ : Mem) (e : MdnsEntry) (told : List MdnsEntry) =>
      ((0 : Int),told ++ [e]) := fun _ _ _ _ _ => rfl
  have hequal : mdnsStringEqual (messageMem overhanging) 52 12 mdnsServicesQueryMem
      mdnsServicesQuery.length 12 = some (42,42) := by decide +kernel
  have htype : (messageMem overhanging).be16 42 = MdnsRecordType.ptr.code := by decide +kernel
  have hclass : (messageMem overhanging).be16 44 = mdnsClassIn := by decide +kernel
  have httl : (messageMem overhanging).be32 46 = 10 := by decide +kernel
  have hlength : (messageMem overhanging).be16 50 = 10 := by decide +kernel
  have hhead : overhanging.take 12 = (⟨0,0x8400,0,1,0,0⟩ : MdnsHeader).bytes := by decide
  let e : MdnsEntry := ⟨sock,src,.answer,0,MdnsRecordType.ptr.code,mdnsClassIn,10,52,12,30,52,10⟩
  have hanswers : mdnsDiscoveryAnswers (fun _ e told => ((0 : Int),told ++ [e])) sock src
      (messageMem overhanging) overhanging.length 0 (1 : UInt16).toNat 12 0 [] =
        (.goesOn 62,1,[e]) := by
    have hsize : overhanging.length = 52 := by decide
    simp [mdnsDiscoveryAnswers,hsize,hequal,htype,hclass,httl,hlength,e]
  have hrecv := mdnsDiscoveryRecv_answers sock src hcollect buffer hcap hhead rfl hanswers
  exact ⟨e,congrArg Prod.snd hrecv,rfl,rfl⟩

section Receive

variable {σ : Type} {callback callback' : Mem → MdnsEntry → σ → Int × σ} (sock : Int)
  (capacity : Nat) (buffer : Mem) (src : Sockaddr) (datagram : Bytes) (state : σ)

theorem mdnsSocketListen_told (h : AlikeOn callback callback'
      (buffer.write 0 (datagram.take capacity)) (datagram.take capacity).length 0) :
    mdnsSocketListen callback sock capacity buffer (some (src,datagram)) state =
      mdnsSocketListen callback' sock capacity buffer (some (src,datagram)) state := by
  simp only [mdnsSocketListen,mdnsQuestionLoop_told sock src h,
    mdnsSection_told sock src h (by decide : MdnsEntryType.answer ≠ .question),
    mdnsSection_told sock src h (by decide : MdnsEntryType.authority ≠ .question),
    mdnsSection_told sock src h (by decide : MdnsEntryType.additional ≠ .question)]

theorem mdnsQueryRecv_told (onlyQueryId : Int) (h : AlikeOn callback callback'
      (buffer.write 0 (datagram.take capacity)) (datagram.take capacity).length 0) :
    mdnsQueryRecv callback sock capacity buffer (some (src,datagram)) onlyQueryId state =
      mdnsQueryRecv callback' sock capacity buffer (some (src,datagram)) onlyQueryId state := by
  simp only [mdnsQueryRecv,
    mdnsSection_told sock src h (by decide : MdnsEntryType.answer ≠ .question),
    mdnsSection_told sock src h (by decide : MdnsEntryType.authority ≠ .question),
    mdnsSection_told sock src h (by decide : MdnsEntryType.additional ≠ .question)]

theorem mdnsDiscoveryRecv_told (h : AlikeOn callback callback'
      (buffer.write 0 (datagram.take capacity)) (datagram.take capacity).length 10) :
    mdnsDiscoveryRecv callback sock capacity buffer (some (src,datagram)) state =
      mdnsDiscoveryRecv callback' sock capacity buffer (some (src,datagram)) state := by
  have h₀ : AlikeOn callback callback' (buffer.write 0 (datagram.take capacity))
      (datagram.take capacity).length 0 := fun e state he => h e state (he.mono (Nat.zero_le 10))
  simp only [mdnsDiscoveryRecv,mdnsDiscoveryAnswers_told sock src h,
    mdnsSection_told sock src h₀ (by decide : MdnsEntryType.authority ≠ .question),
    mdnsSection_told sock src h₀ (by decide : MdnsEntryType.additional ≠ .question)]

end Receive

/-- Of a record the callbacks are told what stands in the datagram, and its data has been
received as a whole. That holds of questions and records as they are heard and as answers to
a query; to the discovery as many as ten bytes of the data may be missing. -/
theorem entries_told :
    (∀ (σ : Type) (callback callback' : Mem → MdnsEntry → σ → Int × σ) (sock : Int) (capacity : Nat)
        (buffer : Mem) (src : Sockaddr) (datagram : Bytes) (state : σ),
      let m := buffer.write 0 (datagram.take capacity)
      let size := (datagram.take capacity).length
      (AlikeOn callback callback' m size 0 →
        mdnsSocketListen callback sock capacity buffer (some (src,datagram)) state =
            mdnsSocketListen callback' sock capacity buffer (some (src,datagram)) state ∧
          ∀ onlyQueryId, mdnsQueryRecv callback sock capacity buffer (some (src,datagram)) onlyQueryId
              state =
            mdnsQueryRecv callback' sock capacity buffer (some (src,datagram)) onlyQueryId state) ∧
      (AlikeOn callback callback' m size 10 →
        mdnsDiscoveryRecv callback sock capacity buffer (some (src,datagram)) state =
          mdnsDiscoveryRecv callback' sock capacity buffer (some (src,datagram)) state)) ∧
    ∀ (sock : Int) (capacity : Nat) (buffer : Mem) (src : Sockaddr), overhanging.length ≤ capacity →
      ∃ e, (mdnsDiscoveryRecv (fun _ e told => (0,told ++ [e])) sock capacity buffer
          (some (src,overhanging)) []).2 = (1,[e]) ∧
        e.size = overhanging.length ∧ e.recordOffset + e.recordLength = e.size + 10 := by
  refine ⟨fun σ callback callback' sock capacity buffer src datagram state => ⟨fun h => ⟨?_,?_⟩,?_⟩,
    fun sock capacity buffer src => overhanging_told sock src buffer⟩
  · exact mdnsSocketListen_told sock capacity buffer src datagram state h
  · exact fun onlyQueryId => mdnsQueryRecv_told sock capacity buffer src datagram state onlyQueryId h
  · exact mdnsDiscoveryRecv_told sock capacity buffer src datagram state

end WlrRemote
