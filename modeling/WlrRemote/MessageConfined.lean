import WlrRemote.BuiltService

set_option autoImplicit false

namespace WlrRemote
open Octets

/-- Past the capacity nothing was written, and a position reached is within it. -/
structure Confined (capacity : Nat) (buffer : Mem) (w : MdnsWriter) : Prop where
  above : ∀ i, capacity ≤ i → w.buffer i = buffer i
  data_le : ∀ d, w.data = some d → d ≤ capacity

theorem Confined.trans {capacity : Nat} {buffer : Mem} {w w' : MdnsWriter}
    (h : Confined capacity buffer w) (h' : Confined capacity w.buffer w') :
    Confined capacity buffer w' :=
  ⟨fun i hi => (h'.above i hi).trans (h.above i hi),h'.data_le⟩

theorem Confined.failed {capacity : Nat} {buffer : Mem} {table : MdnsStringTable} :
    Confined capacity buffer ⟨buffer,none,table⟩ :=
  ⟨fun _ _ => rfl,fun d hd => by cases hd⟩

theorem Confined.abandon {capacity : Nat} {buffer : Mem} {w : MdnsWriter}
    (h : Confined capacity buffer w) (table : MdnsStringTable) :
    Confined capacity buffer ⟨w.buffer,none,table⟩ :=
  ⟨h.above,fun d hd => by cases hd⟩

theorem Confined.write {capacity data n : Nat} {buffer : Mem} {bs : Bytes}
    {table : MdnsStringTable} (hbs : data + bs.length ≤ capacity) (hn : data + n ≤ capacity) :
    Confined capacity buffer ⟨buffer.write data bs,some (data + n),table⟩ := by
  refine ⟨fun i hi => Mem.write_above (by omega),?_⟩
  intro d hd
  obtain rfl := Option.some.inj hd
  exact hn

theorem Confined.patch {capacity data at_ : Nat} {buffer : Mem} {w : MdnsWriter}
    (h : Confined capacity buffer w) (hd : w.data = some data) {bs : Bytes}
    (hat : at_ + bs.length ≤ capacity) :
    Confined capacity buffer ⟨w.buffer.write at_ bs,some data,w.table⟩ := by
  have habove (i : Nat) (hi : capacity ≤ i) : w.buffer.write at_ bs i = buffer i :=
    (Mem.write_above (by omega)).trans (h.above i hi)
  exact ⟨habove,fun d hd' => h.data_le d (hd.trans hd')⟩

theorem mdnsStringMakeLoop_confined {capacity : Nat} {name : Bytes} {length fuel lastPos data : Nat}
    {buffer : Mem} {table : MdnsStringTable} (hdata : data ≤ capacity) :
    Confined capacity buffer
      (mdnsStringMakeLoop capacity name length fuel buffer data lastPos table) := by
  induction fuel generalizing buffer data lastPos table with
  | zero => exact .failed
  | succ fuel ih =>
    unfold mdnsStringMakeLoop
    split
    · simp only
      split
      · unfold mdnsStringMakeRef
        split
        · exact .failed
        · exact .write (by rw [length_be16]; omega) (by omega)
      · split
        · exact .failed
        · generalize (mdnsStringFind name length dot lastPos).getD length - lastPos = n at *
          have hlen : (UInt8.ofNat n :: (name.drop lastPos).take n).length ≤ n + 1 := by
            rw [List.length_cons,List.length_take]
            omega
          have hlabel : Confined capacity buffer ⟨buffer.write data
              (UInt8.ofNat n :: (name.drop lastPos).take n),some (data + (n + 1)),table⟩ :=
            .write (by omega) (by omega)
          exact hlabel.trans (ih (by omega))
    · split
      · exact .failed
      · exact .write (by rw [List.length_singleton]; omega) (by omega)

theorem mdnsStringMake_confined {buffer : Mem} {capacity data : Nat} (name : Bytes)
    (table : MdnsStringTable) (hdata : data ≤ capacity) :
    Confined capacity buffer (mdnsStringMake buffer capacity data name table) := by
  unfold mdnsStringMake
  split <;> exact mdnsStringMakeLoop_confined hdata

theorem mdnsAnswerAddQuestionUnicast_confined {buffer : Mem} {capacity data : Nat}
    (recordType : UInt16) (name : Bytes) (table : MdnsStringTable) (hdata : data ≤ capacity) :
    Confined capacity buffer
      (mdnsAnswerAddQuestionUnicast buffer capacity data recordType name table) := by
  have hname : Confined capacity buffer (mdnsStringMake buffer capacity data name table) :=
    mdnsStringMake_confined name table hdata
  unfold mdnsAnswerAddQuestionUnicast
  simp only
  split
  · exact hname
  · split
    · exact hname.abandon _
    · refine hname.trans (.write ?_ (by omega))
      rw [List.length_append,length_be16,length_be16]
      omega

theorem mdnsAnswerAddRecordHeader_confined {buffer : Mem} {capacity data : Nat}
    (record : MdnsRecord) (table : MdnsStringTable) (hdata : data ≤ capacity) :
    Confined capacity buffer (mdnsAnswerAddRecordHeader buffer capacity data record table) ∧
      ∀ d, (mdnsAnswerAddRecordHeader buffer capacity data record table).data = some d → 2 ≤ d := by
  have hname : Confined capacity buffer (mdnsStringMake buffer capacity data record.name table) :=
    mdnsStringMake_confined record.name table hdata
  unfold mdnsAnswerAddRecordHeader
  simp only
  split
  · rename_i hnone
    exact ⟨hname,fun d hd => by rw [hnone] at hd; cases hd⟩
  · split
    · exact ⟨hname.abandon _,fun d hd => by cases hd⟩
    · refine ⟨hname.trans (.write ?_ (by omega)),?_⟩
      · simp only [List.length_append,length_be16,length_be32]
        omega
      · intro d hd
        obtain rfl := Option.some.inj hd
        omega

theorem mdnsAnswerAddRecordData_confined {buffer : Mem} {capacity data : Nat}
    (record : MdnsRecord) (table : MdnsStringTable) (hdata : data ≤ capacity) :
    Confined capacity buffer (mdnsAnswerAddRecordData buffer capacity data record table) := by
  unfold mdnsAnswerAddRecordData
  simp only
  split
  · exact mdnsStringMake_confined _ table hdata
  · split
    · exact .failed
    · rename_i priority weight port name _ hroom
      have hfields : Confined capacity buffer ⟨buffer.write data
          (be16 priority ++ be16 weight ++ be16 port),some (data + 6),table⟩ := by
        refine .write ?_ (by omega)
        simp only [List.length_append,length_be16]
        omega
      exact hfields.trans (mdnsStringMake_confined name table (by omega))
  · split
    · exact .failed
    · exact .write (by rw [Vector.length_toList]; omega) (by omega)
  · split
    · exact .failed
    · exact .write (by rw [Vector.length_toList]; omega) (by omega)
  · refine ⟨fun _ _ => rfl,fun d hd => ?_⟩
    obtain rfl := Option.some.inj hd
    exact hdata

theorem mdnsAnswerAddRecord_confined {capacity : Nat} {w : MdnsWriter} (record : MdnsRecord)
    (hw : ∀ d, w.data = some d → d ≤ capacity) :
    Confined capacity w.buffer (mdnsAnswerAddRecord capacity w record) := by
  have hsame : Confined capacity w.buffer w := ⟨fun _ _ => rfl,hw⟩
  unfold mdnsAnswerAddRecord
  split
  · exact hsame
  · rename_i data hdata
    split
    · exact hsame
    · obtain ⟨hhead,hlow⟩ : Confined capacity w.buffer
          (mdnsAnswerAddRecordHeader w.buffer capacity data record w.table) ∧ _ :=
        mdnsAnswerAddRecordHeader_confined record w.table (hw data hdata)
      simp only
      split
      · exact hhead
      · rename_i recordData hrecordData
        have hle := hhead.data_le recordData hrecordData
        have hge := hlow recordData hrecordData
        generalize mdnsAnswerAddRecordHeader w.buffer capacity data record w.table = wh at hhead ⊢
        have hbody : Confined capacity wh.buffer
            (mdnsAnswerAddRecordData wh.buffer capacity recordData record wh.table) :=
          mdnsAnswerAddRecordData_confined record wh.table hle
        have hboth := hhead.trans hbody
        split
        · exact hboth
        · rename_i last hlast
          exact hboth.patch hlast (by rw [length_be16]; omega)

theorem foldl_confined {capacity : Nat} {add : MdnsWriter → MdnsRecord → MdnsWriter}
    (hadd : ∀ w r, (∀ d, w.data = some d → d ≤ capacity) → Confined capacity w.buffer (add w r))
    (records : List MdnsRecord) {w : MdnsWriter} (hw : ∀ d, w.data = some d → d ≤ capacity) :
    Confined capacity w.buffer (records.foldl add w) := by
  induction records generalizing w with
  | nil => exact ⟨fun _ _ => rfl,hw⟩
  | cons r records ih =>
    have hfirst := hadd w r hw
    exact hfirst.trans (ih hfirst.data_le)

theorem mdnsAnswerAddTxtRecordLoop_confined {capacity : Nat} (rclass : UInt16) (ttl : UInt32)
    (records : List MdnsRecord) (recordData : Option Nat) {w : MdnsWriter}
    (hw : ∀ d, w.data = some d → d ≤ capacity) (hp : ∀ p, recordData = some p → 2 ≤ p ∧ p ≤ capacity) :
    let loop := mdnsAnswerAddTxtRecordLoop capacity rclass ttl records recordData w
    Confined capacity w.buffer loop.2 ∧ ∀ p, loop.1 = some p → 2 ≤ p ∧ p ≤ capacity := by
  induction records generalizing recordData w with
  | nil => exact ⟨⟨fun _ _ => rfl,hw⟩,hp⟩
  | cons r records ih =>
    unfold mdnsAnswerAddTxtRecordLoop
    split
    · exact ⟨⟨fun _ _ => rfl,hw⟩,hp⟩
    · rename_i data key value hdata hkey
      simp only
      -- the writer once the header has been dealt with, and where the data starts
      generalize hw₁ : (if recordData.isNone = true then mdnsAnswerAddRecordHeader w.buffer capacity
        data (mdnsRecordUpdateRclassTtl r rclass ttl) w.table else w) = w₁
      have hhead : Confined capacity w.buffer w₁ ∧
          ∀ d, w₁.data = some d → 2 ≤ recordData.getD d ∧ recordData.getD d ≤ capacity := by
        subst hw₁
        cases recordData with
        | none =>
          obtain ⟨hc,hlow⟩ : Confined capacity w.buffer (mdnsAnswerAddRecordHeader w.buffer capacity
              data (mdnsRecordUpdateRclassTtl r rclass ttl) w.table) ∧ _ :=
            mdnsAnswerAddRecordHeader_confined _ w.table (hw data hdata)
          exact ⟨hc,fun d hd => ⟨hlow d hd,hc.data_le d hd⟩⟩
        | some p => exact ⟨⟨fun _ _ => rfl,hw⟩,fun d _ => hp p rfl⟩
      obtain ⟨hc,hpos⟩ := hhead
      split
      · exact ⟨hc,by simp⟩
      · rename_i d hd
        split
        · exact ⟨hc.abandon _,by simp⟩
        · rename_i hroom
          have hlen : (UInt8.ofNat (key.length + value.length + 1) :: key ++ [0]).length =
              key.length + 2 := by simp
          have hstring : Confined capacity w₁.buffer ⟨w₁.buffer.write d
              (UInt8.ofNat (key.length + value.length + 1) :: key ++ [0]),
              some (d + (key.length + 2 + value.length)),w₁.table⟩ :=
            .write (by omega) (by omega)
          obtain ⟨hrest,hp'⟩ := ih (some (recordData.getD d)) hstring.data_le
            (fun p hp => by obtain rfl := Option.some.inj hp; exact hpos d hd)
          exact ⟨(hc.trans hstring).trans hrest,hp'⟩
    · exact ih recordData hw hp

theorem mdnsAnswerAddTxtRecord_confined {capacity : Nat} {w : MdnsWriter}
    (records : List MdnsRecord) (rclass : UInt16) (ttl : UInt32)
    (hw : ∀ d, w.data = some d → d ≤ capacity) :
    Confined capacity w.buffer (mdnsAnswerAddTxtRecord capacity w records rclass ttl) := by
  obtain ⟨hloop,hp⟩ := mdnsAnswerAddTxtRecordLoop_confined rclass ttl records none hw (by simp)
  unfold mdnsAnswerAddTxtRecord
  generalize mdnsAnswerAddTxtRecordLoop capacity rclass ttl records none w = loop at hloop hp ⊢
  obtain ⟨recordData,w'⟩ := loop
  cases recordData with
  | none => exact hloop
  | some p =>
    simp only
    split
    · rename_i last hlast hsome
      obtain ⟨hge,hle⟩ := hp p rfl
      obtain rfl := Option.some.inj hlast
      exact hloop.patch hsome (by rw [length_be16]; omega)
    · exact hloop

theorem mdnsAnswerMulticastRclassTtl_confined (buffer : Mem) (capacity : Nat) (answer : MdnsRecord)
    (authority additional : List MdnsRecord) (rclass : UInt16) (ttl : UInt32) :
    Confined capacity buffer
      (mdnsAnswerMulticastRclassTtl buffer capacity answer authority additional rclass ttl) := by
  unfold mdnsAnswerMulticastRclassTtl
  split
  · exact .failed
  · have hheader : Confined capacity buffer ⟨buffer.write 0 (MdnsHeader.bytes ⟨0,0x8400,0,1,
        mdnsAnswerGetRecordCount authority,mdnsAnswerGetRecordCount additional⟩),some (0 + 12),
        .empty⟩ := .write (by rw [MdnsHeader.length_bytes]; omega) (by omega)
    have hadd (w : MdnsWriter) (r : MdnsRecord) (hw : ∀ d, w.data = some d → d ≤ capacity) :
        Confined capacity w.buffer
          (mdnsAnswerAddRecord capacity w (mdnsRecordUpdateRclassTtl r rclass ttl)) :=
      mdnsAnswerAddRecord_confined _ hw
    have hanswer := hheader.trans (hadd _ answer hheader.data_le)
    have hauthority := hanswer.trans (foldl_confined hadd authority hanswer.data_le)
    have hauthority' := hauthority.trans
      (mdnsAnswerAddTxtRecord_confined authority rclass ttl hauthority.data_le)
    have hadditional := hauthority'.trans (foldl_confined hadd additional hauthority'.data_le)
    exact hadditional.trans
      (mdnsAnswerAddTxtRecord_confined additional rclass ttl hadditional.data_le)

theorem mdnsQueryAnswerUnicast_confined (buffer : Mem) (capacity : Nat)
    (queryId recordType : UInt16) (name : Bytes) (answer : MdnsRecord)
    (authority additional : List MdnsRecord) : Confined capacity buffer
      (mdnsQueryAnswerUnicast buffer capacity queryId recordType name answer authority
        additional) := by
  unfold mdnsQueryAnswerUnicast
  split
  · exact .failed
  · have hheader : Confined capacity buffer ⟨buffer.write 0 (MdnsHeader.bytes ⟨queryId,0x8400,1,1,
        mdnsAnswerGetRecordCount authority,mdnsAnswerGetRecordCount additional⟩),some (0 + 12),
        .empty⟩ := .write (by rw [MdnsHeader.length_bytes]; omega) (by omega)
    have hadd (w : MdnsWriter) (r : MdnsRecord) (hw : ∀ d, w.data = some d → d ≤ capacity) :
        Confined capacity w.buffer (mdnsAnswerAddRecord capacity w
          { r with rclass := mdnsClassIn, ttl := if r.ttl = 0 then 10 else r.ttl }) :=
      mdnsAnswerAddRecord_confined _ hw
    have hstart : 12 ≤ capacity := by omega
    have hquestion := hheader.trans
      (mdnsAnswerAddQuestionUnicast_confined recordType name .empty hstart)
    have hanswer := hquestion.trans (mdnsAnswerAddRecord_confined
      { answer with rclass := mdnsClassIn, ttl := 10 } hquestion.data_le)
    have hauthority := hanswer.trans (foldl_confined hadd authority hanswer.data_le)
    have hauthority' := hauthority.trans
      (mdnsAnswerAddTxtRecord_confined authority mdnsClassIn 10 hauthority.data_le)
    have hadditional := hauthority'.trans (foldl_confined hadd additional hauthority'.data_le)
    exact hadditional.trans
      (mdnsAnswerAddTxtRecord_confined additional mdnsClassIn 10 hadditional.data_le)

def ComposedWithin (capacity : Nat) (buffer : Mem) (w : MdnsWriter) : Prop :=
  (∃ size, w.data = some size ∧ size ≤ capacity) ∧ ∀ i, capacity ≤ i → w.buffer i = buffer i

theorem Confined.composed {capacity data n : Nat} {buffer buffer' : Mem} {w : MdnsWriter}
    (h : Confined capacity buffer w) (hext : Extends buffer' data n w) :
    ComposedWithin capacity buffer w := by
  obtain ⟨d,hd,-⟩ := hext
  exact ⟨⟨d,hd,h.data_le d hd⟩,h.above⟩

/-- Whatever the service decides to send is composed within its buffer and sent. -/
structure NothingDropped (service : AdvertiseService) : Prop where
  unicast : ∀ name rtype answer additional,
    serviceAnswer service name rtype = some (answer,additional) → ∀ sendBuffer queryId,
      ComposedWithin sendBufferCapacity sendBuffer (mdnsQueryAnswerUnicast sendBuffer
        sendBufferCapacity queryId rtype name answer [] additional)
  multicast : ∀ name rtype answer additional,
    serviceAnswer service name rtype = some (answer,additional) → ∀ sendBuffer,
      ComposedWithin sendBufferCapacity sendBuffer (mdnsQueryAnswerMulticast sendBuffer
        sendBufferCapacity answer [] additional)
  announcement : ∀ buffer, ComposedWithin advertiseBufferCapacity buffer
    (mdnsAnnounceMulticast buffer advertiseBufferCapacity service.recordPtr []
      (buildAdditional service .ptr))
  goodbye : ∀ buffer, ComposedWithin advertiseBufferCapacity buffer
    (mdnsGoodbyeMulticast buffer advertiseBufferCapacity service.recordPtr []
      (buildAdditional service .ptr))
  sent : ∀ data e state, e.entry = .question →
    (serviceAnswer service (questionName data e) e.rtype).isSome = true →
      ∃ d : Sent, (serviceCallback service data e state).2.sent = state.sent ++ [d] ∧
        d.bytes.length ≤ sendBufferCapacity

theorem ServiceOf.announcement_composed {hostname : HostName} {service : AdvertiseService}
    (h : ServiceOf hostname service) (buffer : Mem) (rclass : UInt16) (ttl : UInt32) :
    ComposedWithin advertiseBufferCapacity buffer (mdnsAnswerMulticastRclassTtl buffer
      advertiseBufferCapacity service.recordPtr [] (buildAdditional service .ptr) rclass ttl) := by
  have hr := h.rooms.1
  have hadd := h.buildAdditional_room .ptr
  have hcap : advertiseBufferCapacity = 2048 := rfl
  have htype : service.recordPtr.type ≠ .txt := by simp [h.record_types.1]
  have hroom : 48 + recordRoom service.recordPtr +
      recordsRoom (buildAdditional service .ptr) ≤ advertiseBufferCapacity := by omega
  exact (mdnsAnswerMulticastRclassTtl_confined buffer advertiseBufferCapacity service.recordPtr []
    (buildAdditional service .ptr) rclass ttl).composed
      (mdnsAnswerMulticastRclassTtl_extends rclass ttl advertiseBufferCapacity_reach htype hroom)

theorem ServiceOf.callback_sends {hostname : HostName} {service : AdvertiseService}
    (h : ServiceOf hostname service) {data : Mem} {e : MdnsEntry} (state : ResponderState)
    (he : e.entry = .question)
    (ha : (serviceAnswer service (questionName data e) e.rtype).isSome = true) :
    ∃ d : Sent, (serviceCallback service data e state).2.sent = state.sent ++ [d] ∧
      d.bytes.length ≤ sendBufferCapacity := by
  obtain ⟨⟨answer,additional⟩,ha⟩ := Option.isSome_iff_exists.mp ha
  obtain ⟨bytes,hsent,-,hmax,-⟩ := h.answerMessage_sent ha state.sendBuffer
  have hstate := congrArg (fun r => r.2.sent) (serviceCallback_of_some state he ha)
  exact ⟨_,hstate.trans (congrArg (state.sent ++ ·) hsent),hmax⟩

theorem messages_fit {env : AdvertiseEnv} {port : UInt16} {service : AdvertiseService}
    (h : advertiseCreateService env port = some service) : NothingDropped service := by
  obtain ⟨hostname,-,hof⟩ := advertiseCreateService_serviceOf h
  constructor
  case unicast =>
    intro name rtype answer additional ha sendBuffer queryId
    obtain ⟨htxt,hroom⟩ := hof.serviceAnswer_fits ha
    exact (mdnsQueryAnswerUnicast_confined sendBuffer sendBufferCapacity queryId rtype name answer []
      additional).composed
        (mdnsQueryAnswerUnicast_extends queryId rtype name sendBufferCapacity_reach htxt hroom)
  case multicast =>
    intro name rtype answer additional ha sendBuffer
    obtain ⟨htxt,hroom⟩ := hof.serviceAnswer_fits ha
    have hroom' : 48 + recordRoom answer + recordsRoom additional ≤ sendBufferCapacity := by omega
    exact (mdnsAnswerMulticastRclassTtl_confined sendBuffer sendBufferCapacity answer [] additional
      mdnsClassIn 60).composed
        (mdnsAnswerMulticastRclassTtl_extends mdnsClassIn 60 sendBufferCapacity_reach htxt hroom')
  case announcement => exact fun buffer => hof.announcement_composed buffer _ 60
  case goodbye => exact fun buffer => hof.announcement_composed buffer mdnsClassIn 0
  case sent => exact fun data e state he ha => hof.callback_sends state he ha

def longestHost : HostName where
  bytes := (List.replicate 32 [97,dot]).flatten
  noNul := by decide
  length_le := by decide

theorem messages_fit_longestHost : NothingDropped (oneInterfaceService longestHost 7777) :=
  messages_fit (advertiseCreateService_oneInterface longestHost 7777)

end WlrRemote
