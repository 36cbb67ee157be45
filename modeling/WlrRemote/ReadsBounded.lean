import WlrRemote.StaleFields

set_option autoImplicit false

namespace WlrRemote
open Octets

theorem mdnsFollowRefs_true (m : Mem) (size budget offset : Nat) :
    (mdnsFollowRefs m size budget offset true).ref = true := by
  induction budget generalizing offset with
  | zero =>
    unfold mdnsFollowRefs
    split
    · split
      · rfl
      · simp only
        split <;> rfl
    · simp only
      split <;> rfl
  | succ budget ih =>
    unfold mdnsFollowRefs
    split
    · split
      · rfl
      · simp only
        split
        · rfl
        · exact ih _
    · simp only
      split <;> rfl

theorem mdnsFollowRefs_ref {m : Mem} {size budget offset a : Nat}
    (h : (mdnsFollowRefs m size budget offset false).offset = some a)
    (href : (mdnsFollowRefs m size budget offset false).ref = true) : offset + 2 ≤ size := by
  unfold mdnsFollowRefs at h href
  by_cases his : mdnsIsStringRef (m offset) = true
  · by_cases hshort : size < offset + 2
    · simp [his,hshort] at h
    · omega
  · simp only [his,Bool.false_eq_true,↓reduceIte] at href
    split at href <;> contradiction

theorem mdnsFollowRefs_length {m : Mem} {size budget offset a : Nat}
    (h : (mdnsFollowRefs m size (budget + 1) offset false).offset = some a)
    (href : (mdnsFollowRefs m size (budget + 1) offset false).ref = false) :
    (mdnsFollowRefs m size (budget + 1) offset false).length = (m offset).toNat := by
  unfold mdnsFollowRefs at h href ⊢
  by_cases his : mdnsIsStringRef (m offset) = true
  · by_cases hshort : size < offset + 2
    · simp [his,hshort] at h
    · by_cases hfar : size ≤ (m.be16 offset).toNat % 0x4000
      · simp [his,hshort,hfar] at h
      · simp [his,hshort,hfar,mdnsFollowRefs_true] at href
  · by_cases hshort : size < offset + 1 + (m offset).toNat
    · simp [his,hshort] at h
    · simp [his,hshort]

theorem mdnsStringSkipLoop_le {m : Mem} {size budget cur stop : Nat}
    (h : mdnsStringSkipLoop m size budget cur = some stop) : stop ≤ size := by
  induction budget generalizing cur with
  | zero => contradiction
  | succ budget ih =>
    simp only [mdnsStringSkipLoop] at h
    cases ha : (mdnsGetNextSubstring m size cur).offset with
    | none => simp [ha] at h
    | some a =>
      simp only [ha] at h
      -- the first byte of what is found is that of a reference, the end, or a length
      by_cases hin : size ≤ cur
      · simp [mdnsGetNextSubstring,hin] at ha
      · by_cases hzero : m cur = 0
        · simp only [mdnsGetNextSubstring,hin,hzero,↓reduceIte,Option.some.injEq,
            Bool.false_eq_true] at ha h
          omega
        · simp only [mdnsGetNextSubstring,hin,hzero,↓reduceIte] at ha h
          have hne : (m cur).toNat ≠ 0 := fun hz => hzero (UInt8.toNat_inj.mp hz)
          cases href : (mdnsFollowRefs m size 16 cur false).ref with
          | true =>
            have hle := mdnsFollowRefs_ref ha href
            simp only [href,↓reduceIte,Option.some.injEq] at h
            omega
          | false =>
            rw [@mdnsFollowRefs_length m size 15 cur a ha href] at h
            simp only [href,Bool.false_eq_true,↓reduceIte,hne] at h
            exact ih h

theorem mdnsStringSkip_le {m : Mem} {size offset stop : Nat}
    (h : mdnsStringSkip m size offset = some stop) : stop ≤ size := mdnsStringSkipLoop_le h

section Listen

variable {σ : Type} {callback : Mem → MdnsEntry → σ → Int × σ}

/-- The callback reads the bytes of the datagram only. -/
def ReadsWithin (callback : Mem → MdnsEntry → σ → Int × σ) : Prop :=
  ∀ m m' e state, AgreeBelow e.size m m' → callback m e state = callback m' e state

theorem mdnsReadQuestion_within {m m' : Mem} {size : Nat} (h : AgreeBelow (size + 4) m m')
    (offset : Nat) : mdnsReadQuestion m size offset = mdnsReadQuestion m' size offset := by
  have hsize : AgreeBelow size m m' := h.mono (Nat.le_add_right size 4)
  have hequal : mdnsStringEqual m size offset mdnsServicesQueryMem mdnsServicesQuery.length 12 =
      mdnsStringEqual m' size offset mdnsServicesQueryMem mdnsServicesQuery.length 12 :=
    mdnsStringEqualLoop_congr hsize _ _ _ _ _ _ _
  have hskip : mdnsStringSkip m size offset = mdnsStringSkip m' size offset :=
    mdnsStringSkipLoop_congr hsize _ _
  rw [mdnsReadQuestion_eq,mdnsReadQuestion_eq,← hskip,← hequal]
  cases hs : mdnsStringSkip m size offset with
  | none => rw [Option.map_none,Option.map_none]
  | some stop =>
    have hle := mdnsStringSkip_le hs
    simp only [Option.map_some]
    rw [h.be16 (by omega),h.be16 (by omega)]

theorem mdnsQuestionLoop_within (hcallback : ReadsWithin callback) {m m' : Mem} {size : Nat}
    (h : AgreeBelow (size + 4) m m') (sock : Int) (src : Sockaddr) (queryId flags : UInt16)
    (questions : Nat) (p : MdnsProgress σ) :
    mdnsQuestionLoop callback sock src m size queryId flags questions p =
      mdnsQuestionLoop callback sock src m' size queryId flags questions p := by
  have hcall (e : MdnsEntry) (he : e.size = size) (state : σ) :
      callback m e state = callback m' e state :=
    hcallback m m' e state (by rw [he]; exact h.mono (Nat.le_add_right size 4))
  induction questions generalizing p with
  | zero => rfl
  | succ questions ih =>
    simp only [mdnsQuestionLoop,← mdnsReadQuestion_within h,ih]
    cases mdnsReadQuestion m size p.offset with
    | none => rfl
    | some q =>
      simp only
      rw [hcall _ rfl]

theorem mdnsRecordsParse_within (hcallback : ReadsWithin callback) {m m' : Mem} {size : Nat}
    (h : AgreeBelow size m m') (sock : Int) (src : Sockaddr) (entry : MdnsEntryType)
    (queryId : UInt16) (records : Nat) (p : MdnsProgress σ) :
    mdnsRecordsParse callback sock src m size entry queryId records p =
      mdnsRecordsParse callback sock src m' size entry queryId records p := by
  have hcall (e : MdnsEntry) (he : e.size = size) (state : σ) :
      callback m e state = callback m' e state := hcallback m m' e state (by rw [he]; exact h)
  have hskip (offset : Nat) : mdnsStringSkip m size offset = mdnsStringSkip m' size offset :=
    mdnsStringSkipLoop_congr h _ _
  induction records generalizing p with
  | zero => rfl
  | succ records ih =>
    simp only [mdnsRecordsParse,← hskip,ih]
    generalize (mdnsStringSkip m size p.offset).getD p.offset = offset
    split
    · rfl
    · rw [h.be16 (by omega),h.be16 (by omega),h.be16 (by omega),
        show m.be32 (offset + 4) = m'.be32 (offset + 4) by
          rw [Mem.be32,Mem.be32,h.read (by omega)],hcall _ rfl]

theorem mdnsSection_within (hcallback : ReadsWithin callback) {m m' : Mem} {size : Nat}
    (h : AgreeBelow size m m') (sock : Int) (src : Sockaddr) (entry : MdnsEntryType)
    (queryId rrs : UInt16) (p : MdnsProgress σ) :
    mdnsSection callback sock src m size entry queryId rrs p =
      mdnsSection callback sock src m' size entry queryId rrs p := by
  simp only [mdnsSection,mdnsRecordsParse_within hcallback h]

/-- What is behind the header and behind four bytes past the datagram is never looked at. -/
theorem mdnsSocketListen_within (hcallback : ReadsWithin callback) (sock : Int) (capacity : Nat)
    (src : Sockaddr) (datagram : Bytes) {buffer buffer' : Mem}
    (h : AgreeBelow (max 12 (min capacity datagram.length + 4)) buffer buffer') (state : σ) :
    (mdnsSocketListen callback sock capacity buffer (some (src,datagram)) state).2 =
      (mdnsSocketListen callback sock capacity buffer' (some (src,datagram)) state).2 := by
  simp only [mdnsSocketListen]
  split
  · rfl
  · rw [← List.length_take] at h
    generalize datagram.take capacity = received at h
    have hdata : AgreeBelow (max 12 (received.length + 4)) (buffer.write 0 received)
        (buffer'.write 0 received) := by
      intro i hi
      by_cases hin : i < received.length
      · exact agreeBelow_write_same buffer buffer' received i hin
      · rw [Mem.write_above (by omega),Mem.write_above (by omega)]
        exact h i hi
    have hquestions : AgreeBelow (received.length + 4) (buffer.write 0 received)
        (buffer'.write 0 received) := hdata.mono (Nat.le_max_right _ _)
    have hrecords : AgreeBelow received.length (buffer.write 0 received)
        (buffer'.write 0 received) := hquestions.mono (Nat.le_add_right _ 4)
    simp only [hdata.be16 (show 0 + 2 ≤ _ by omega),hdata.be16 (show 2 + 2 ≤ _ by omega),
      hdata.be16 (show 4 + 2 ≤ _ by omega),hdata.be16 (show 6 + 2 ≤ _ by omega),
      hdata.be16 (show 8 + 2 ≤ _ by omega),hdata.be16 (show 10 + 2 ≤ _ by omega),
      mdnsQuestionLoop_within hcallback hquestions,mdnsSection_within hcallback hrecords]

end Listen

theorem serviceCallback_within (service : AdvertiseService) :
    ReadsWithin (serviceCallback service) := fun _ _ _ state h => serviceCallback_congr h state

def fullQuery : Bytes :=
  let fields := be16 MdnsRecordType.a.code ++ be16 mdnsClassIn
  let label := fun n : Nat => UInt8.ofNat n :: List.replicate n 120
  let long := (List.replicate 15 (label 63)).flatten ++ [0] ++ fields
  [0,0,0,0,0,5,0,0,0,0,0,0] ++ (11 :: ascii "_wlr-remote") ++ (4 :: ascii "_udp") ++
    (5 :: ascii "local") ++ [0] ++ fields ++ long ++ long ++ (label 63 ++ label 6 ++ [0] ++ fields) ++
    [0xC0,12]

/-- Whatever is received, the listener and a callback that keeps to the datagram do not look
further than four bytes behind it; with a full buffer they do look at the four bytes behind the
buffer, and the service answers by them. -/
theorem listen_reads_past_buffer :
    (∀ (σ : Type) (callback : Mem → MdnsEntry → σ → Int × σ), ReadsWithin callback →
      ∀ sock capacity src datagram buffer buffer' state,
        AgreeBelow (max 12 (min capacity datagram.length + 4)) buffer buffer' →
          (mdnsSocketListen callback sock capacity buffer (some (src,datagram)) state).2 =
            (mdnsSocketListen callback sock capacity buffer' (some (src,datagram)) state).2) ∧
    (∀ service, ReadsWithin (serviceCallback service)) ∧
    ∃ env port service, advertiseCreateService env port = some service ∧
      ∃ datagram buffer buffer' state, datagram.length = advertiseBufferCapacity ∧
        AgreeBelow (advertiseBufferCapacity + 3) buffer buffer' ∧
        (mdnsSocketListen (serviceCallback service) 3 advertiseBufferCapacity buffer
            (some (.other,datagram)) state).2.2.sent ≠
          (mdnsSocketListen (serviceCallback service) 3 advertiseBufferCapacity buffer'
            (some (.other,datagram)) state).2.2.sent := by
  refine ⟨?_,serviceCallback_within,oneInterface hostA,7777,_,
    advertiseCreateService_oneInterface hostA 7777,fullQuery,
    Mem.write (fun _ => 0) advertiseBufferCapacity [0,12,0,1],
    Mem.write (fun _ => 0) advertiseBufferCapacity [0,12,0,2],⟨fun _ => 0,fun _ => 0,[]⟩,?_,?_,?_⟩
  · intro σ callback hcallback sock capacity src datagram buffer buffer' state h
    exact mdnsSocketListen_within hcallback sock capacity src datagram h state
  · decide +kernel
  · -- the two differ in the last byte of the class
    have hlast (b : UInt8) : AgreeBelow (advertiseBufferCapacity + 3)
        (Mem.write (fun _ => 0) advertiseBufferCapacity [0,12,0])
        (Mem.write (fun _ => 0) advertiseBufferCapacity ([0,12,0] ++ [b])) := by
      rw [Mem.write_append]
      exact agreeBelow_write (Nat.le_refl _)
    exact (hlast 1).symm.trans (hlast 2)
  · intro heq
    have hone : (mdnsSocketListen (serviceCallback (oneInterfaceService hostA 7777)) 3
        advertiseBufferCapacity (Mem.write (fun _ => 0) advertiseBufferCapacity [0,12,0,1])
        (some (.other,fullQuery)) ⟨fun _ => 0,fun _ => 0,[]⟩).2.2.sent.length = 1 := by
      decide +kernel
    have hnone : (mdnsSocketListen (serviceCallback (oneInterfaceService hostA 7777)) 3
        advertiseBufferCapacity (Mem.write (fun _ => 0) advertiseBufferCapacity [0,12,0,2])
        (some (.other,fullQuery)) ⟨fun _ => 0,fun _ => 0,[]⟩).2.2.sent.length = 0 := by
      decide +kernel
    have hcontra : 1 = 0 := hone.symm.trans ((congrArg List.length heq).trans hnone)
    omega

end WlrRemote
