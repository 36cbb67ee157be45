import WlrRemote.Network
import Mathlib.Algebra.BigOperators.Group.List.Basic
import Mathlib.Algebra.Ring.Int.Defs

set_option autoImplicit false

namespace WlrRemote
open Octets

def MousePacket.ofWire (data : Bytes) : MousePacket where
  dx := (ofBe32 (data.take 4)).toInt32
  dy := (ofBe32 ((data.drop 4).take 4)).toInt32
  button := ofBe16 ((data.drop 8).take 2)
  buttonState := ofBe16 ((data.drop 10).take 2)

def MousePacket.Accepted (packet : MousePacket) : Prop :=
  (packet.buttonState = 0 ∨ packet.buttonState = 1) ∧
    (packet.button = 0 ∨ packet.button ∈ [BTN_LEFT,BTN_RIGHT,BTN_MIDDLE,BTN_SIDE,BTN_EXTRA])

instance (packet : MousePacket) : Decidable packet.Accepted :=
  inferInstanceAs (Decidable (_ ∧ _))

def AcceptedPayload (data : Bytes) : Prop :=
  data.length = sizeofMousePacket ∧ (MousePacket.ofWire data).Accepted

instance (data : Bytes) : Decidable (AcceptedPayload data) := inferInstanceAs (Decidable (_ ∧ _))

/-- At most one button request, at most one motion request, and a frame. -/
structure PointerGroup where
  button : Option (UInt32 × UInt32)
  motion : Option (WlFixed × WlFixed)
  deriving DecidableEq

def PointerGroup.tail (g : PointerGroup) : List PointerRequest :=
  (g.motion.map fun (dx,dy) => .motion 0 dx dy).toList ++ [.frame]

def PointerGroup.requests (g : PointerGroup) : List PointerRequest :=
  (g.button.map fun (button,state) => .button 0 button state).toList ++ g.tail

theorem PointerGroup.button_not_mem_tail (g : PointerGroup) (time button state : UInt32) :
    .button time button state ∉ g.tail := by
  unfold tail
  cases g.motion <;> simp

theorem PointerGroup.requests_split {g : PointerGroup} {pre post : List PointerRequest}
    {time button state : UInt32} (h : g.requests = pre ++ .button time button state :: post) :
    g.button = some (button,state) ∧ post = g.tail := by
  have hnot : ∀ pre', g.tail ≠ pre' ++ .button time button state :: post := by
    intro pre' ht
    exact g.button_not_mem_tail time button state (by simp [ht])
  unfold requests at h
  cases hb : g.button with
  | none => exact absurd (by simpa [hb] using h) (hnot pre)
  | some set =>
    cases pre with
    | nil =>
      simp only [hb,Option.map_some,Option.toList_some,List.cons_append,List.nil_append,
        List.cons.injEq,PointerRequest.button.injEq] at h
      obtain ⟨⟨-,rfl,rfl⟩,ht⟩ := h
      exact ⟨rfl,ht.symm⟩
    | cons r pre =>
      simp only [hb,Option.map_some,Option.toList_some,List.cons_append,List.nil_append,
        List.cons.injEq] at h
      exact absurd h.2 (hnot pre)

def MousePacket.buttonRequest (packet : MousePacket) : Option (UInt32 × UInt32) :=
  if packet.button = 0 then none else some (packet.button.toUInt32,packet.buttonState.toUInt32)

def MousePacket.group (packet : MousePacket) : PointerGroup where
  button := packet.buttonRequest
  motion :=
    if wlFixedFromInt packet.dx ≠ 0 ∨ wlFixedFromInt packet.dy ≠ 0 then
      some (wlFixedFromInt packet.dx,wlFixedFromInt packet.dy)
    else none

def payloadRequests (data : Bytes) : List PointerRequest :=
  if AcceptedPayload data then (MousePacket.ofWire data).group.requests else []

theorem buttonState_cases (s : UInt16) : s = 0 ∨ s = 1 ↔ ¬ 1 < s := by
  simp only [← UInt16.toNat_inj,UInt16.lt_iff_toNat_lt,UInt16.toNat_zero,UInt16.toNat_one]
  omega

theorem vpHandlePacket_virtualPointer (state : ClientState) (packet : MousePacket) :
    (vpHandlePacket state packet).virtualPointer =
      state.virtualPointer ++ if packet.Accepted then packet.group.requests else [] := by
  have hacc : packet.Accepted ↔ ¬ 1 < packet.buttonState ∧ (packet.button = 0 ∨
      packet.button ∈ [BTN_LEFT,BTN_RIGHT,BTN_MIDDLE,BTN_SIDE,BTN_EXTRA]) := by
    rw [MousePacket.Accepted,buttonState_cases]
  unfold vpHandlePacket
  by_cases hs : 1 < packet.buttonState
  · simp [hacc,hs]
  · by_cases hb : packet.button ∈ [BTN_LEFT,BTN_RIGHT,BTN_MIDDLE,BTN_SIDE,BTN_EXTRA]
    · have h0 : packet.button ≠ 0 := by
        intro h
        rw [h] at hb
        exact absurd hb (by decide)
      simp only [hacc,hs,hb,↓reduceIte,not_false_eq_true,or_true,and_self]
      split <;>
        simp_all [MousePacket.group,MousePacket.buttonRequest,PointerGroup.requests,PointerGroup.tail]
    · by_cases h0 : packet.button = 0
      · have hb' : (0 : UInt16) ∉ [BTN_LEFT,BTN_RIGHT,BTN_MIDDLE,BTN_SIDE,BTN_EXTRA] := by decide
        simp only [hacc,hs,h0,hb',↓reduceIte,not_false_eq_true,true_or,and_self]
        split <;>
          simp_all [MousePacket.group,MousePacket.buttonRequest,PointerGroup.requests,PointerGroup.tail]
      · simp [hacc,hs,hb,h0]

theorem netHandleReceive_packet (o : ByteOrder) (session : Session) {data : Bytes}
    (h : data.length = sizeofMousePacket) (state : ClientState) :
    netHandleReceive o session data state = (0,vpHandlePacket state (.ofWire data)) := by
  have h₀ : (data.take 4).length = 4 := by simp [h,sizeofMousePacket]
  have h₁ : ((data.drop 4).take 4).length = 4 := by simp [h,sizeofMousePacket]
  have h₂ : ((data.drop 8).take 2).length = 2 := by simp [h,sizeofMousePacket]
  have h₃ : ((data.drop 10).take 2).length = 2 := by simp [h,sizeofMousePacket]
  simp [netHandleReceive,h,MousePacket.ofImage,MousePacket.ofWire,o.ntohl_load32 h₀,
    o.ntohl_load32 h₁,o.ntohs_load16 h₂,o.ntohs_load16 h₃]

theorem netHandleReceive_result (o : ByteOrder) (session : Session) (data : Bytes)
    (state : ClientState) : (netHandleReceive o session data state).1 = 0 := by
  unfold netHandleReceive
  split <;> rfl

theorem netHandleReceive_virtualPointer (o : ByteOrder) (session : Session) (data : Bytes)
    (state : ClientState) : (netHandleReceive o session data state).2.virtualPointer =
      state.virtualPointer ++ payloadRequests data := by
  by_cases h : data.length = sizeofMousePacket
  · rw [netHandleReceive_packet o session h,vpHandlePacket_virtualPointer]
    simp [payloadRequests,AcceptedPayload,h]
  · simp [netHandleReceive,payloadRequests,AcceptedPayload,h]

def receiveAll (o : ByteOrder) : List (Session × Bytes) → ClientState → List Int × ClientState
  | [], state => ([],state)
  | (session,data) :: payloads, state =>
    let (res,state) := netHandleReceive o session data state
    let (results,state) := receiveAll o payloads state
    (res :: results,state)

theorem receiveAll_virtualPointer (o : ByteOrder) (payloads : List (Session × Bytes))
    (state : ClientState) : (receiveAll o payloads state).2.virtualPointer =
      state.virtualPointer ++ payloads.flatMap fun p => payloadRequests p.2 := by
  induction payloads generalizing state with
  | nil => simp [receiveAll]
  | cons p payloads ih =>
    simp only [receiveAll,ih,netHandleReceive_virtualPointer,List.flatMap_cons,List.append_assoc]

theorem receiveAll_results (o : ByteOrder) (payloads : List (Session × Bytes))
    (state : ClientState) : ∀ res ∈ (receiveAll o payloads state).1, res = 0 := by
  induction payloads generalizing state with
  | nil => simp [receiveAll]
  | cons p payloads ih =>
    simp only [receiveAll,List.mem_cons,forall_eq_or_imp]
    exact ⟨netHandleReceive_result o p.1 p.2 state,ih _⟩

theorem flatMap_payloadRequests (payloads : List (Session × Bytes)) :
    ∃ groups : List PointerGroup,
      List.Forall₂ (fun p g => g.button = (MousePacket.ofWire p.2).buttonRequest)
        (payloads.filter fun p => AcceptedPayload p.2) groups ∧
      payloads.flatMap (fun p => payloadRequests p.2) = groups.flatMap PointerGroup.requests := by
  induction payloads with
  | nil => exact ⟨[],.nil,rfl⟩
  | cons p payloads ih =>
    obtain ⟨groups,hg,hr⟩ := ih
    by_cases hp : AcceptedPayload p.2
    · refine ⟨(MousePacket.ofWire p.2).group :: groups,?_,?_⟩
      · simpa [hp] using ⟨rfl,hg⟩
      · simp [payloadRequests,hp] at hr ⊢
        exact hr
    · refine ⟨groups,by simpa [hp] using hg,?_⟩
      simp only [List.flatMap_cons,hr]
      simp [payloadRequests,hp]

theorem receiveAll_groups (o : ByteOrder) (payloads : List (Session × Bytes))
    (state : ClientState) :
    (∃ groups : List PointerGroup,
      List.Forall₂ (fun p g => g.button = (MousePacket.ofWire p.2).buttonRequest)
        (payloads.filter fun p => AcceptedPayload p.2) groups ∧
      (receiveAll o payloads state).2.virtualPointer =
        state.virtualPointer ++ groups.flatMap PointerGroup.requests) ∧
    ∀ res ∈ (receiveAll o payloads state).1, res = 0 := by
  obtain ⟨groups,hg,hr⟩ := flatMap_payloadRequests payloads
  have hv := receiveAll_virtualPointer o payloads state
  rw [hr] at hv
  exact ⟨⟨groups,hg,hv⟩,receiveAll_results o payloads state⟩

def buttonSet (data : Bytes) : Option (UInt32 × UInt32) :=
  if AcceptedPayload data then (MousePacket.ofWire data).buttonRequest else none

theorem payloadRequests_split {data : Bytes} {pre post : List PointerRequest}
    {time button state : UInt32} (h : payloadRequests data = pre ++ .button time button state :: post) :
    buttonSet data = some (button,state) ∧ post = (MousePacket.ofWire data).group.tail := by
  unfold payloadRequests at h
  by_cases ha : AcceptedPayload data
  · simp only [ha,↓reduceIte] at h
    simp only [buttonSet,ha,↓reduceIte]
    exact PointerGroup.requests_split h
  · simp [ha] at h

theorem mem_payloadRequests_button (data : Bytes) (button state : UInt32) :
    (∃ time, .button time button state ∈ payloadRequests data) ↔
      buttonSet data = some (button,state) := by
  constructor
  · rintro ⟨time,h⟩
    obtain ⟨pre,post,hp⟩ := List.append_of_mem h
    exact (payloadRequests_split hp).1
  · intro h
    refine ⟨0,?_⟩
    unfold buttonSet at h
    by_cases ha : AcceptedPayload data
    · simp only [ha,↓reduceIte] at h
      simp [payloadRequests,ha,PointerGroup.requests,MousePacket.group,h]
    · simp [ha] at h

inductive ClientInput where
  | packet (data : Bytes)
  | event (level : UInt32) (code : UInt16)
  deriving DecidableEq

section Inputs

variable (o : ByteOrder) (dtls : Tinydtls)

def handleInput (state : ClientState) (input : Session × ClientInput) : ClientState :=
  match input.2 with
  | .packet data => (netHandleReceive o input.1 data state).2
  | .event level code => (netHandleEvent dtls input.1 level code state).2

def handleInputs (inputs : List (Session × ClientInput)) (state : ClientState) : ClientState :=
  inputs.foldl (handleInput o dtls) state

/-- The requests in the order they are issued, each with the client that caused it. -/
def issued : List (Session × ClientInput) → ClientState → List (Session × PointerRequest)
  | [], _ => []
  | input :: inputs, state =>
    let after := handleInput o dtls state input
    (after.virtualPointer.drop state.virtualPointer.length).map (fun r => (input.1,r)) ++
      issued inputs after

/-- Every button whose last request from the client is a press is released later. -/
def ReleasedAfter (client : Session) (history : List (Session × PointerRequest)) : Prop :=
  ∀ pre post time button, history = pre ++ (client,.button time button 1) :: post →
    (∀ time' state, (client,.button time' button state) ∉ post) →
      ∃ time', .button time' button 0 ∈ post.map Prod.snd

def inputRequests : ClientInput → List PointerRequest
  | .packet data => payloadRequests data
  | .event _ _ => []

theorem netHandleEvent_virtualPointer (session : Session) (level : UInt32) (code : UInt16)
    (state : ClientState) :
    (netHandleEvent dtls session level code state).2.virtualPointer = state.virtualPointer := by
  obtain ⟨addr⟩ := session
  unfold netHandleEvent
  by_cases hl : 0 < level
  · by_cases hc : code = dtls.alertCloseNotify <;> cases addr <;> simp [hl,hc]
  · by_cases hc : code = dtls.eventConnect
    · cases addr <;> simp [hl,hc]
    · by_cases hd : code = dtls.eventConnected <;> cases addr <;> simp_all

theorem handleInput_virtualPointer (state : ClientState) (input : Session × ClientInput) :
    (handleInput o dtls state input).virtualPointer =
      state.virtualPointer ++ inputRequests input.2 := by
  obtain ⟨session,input⟩ := input
  cases input with
  | packet data => exact netHandleReceive_virtualPointer o session data state
  | event level code =>
    rw [inputRequests,List.append_nil]
    exact netHandleEvent_virtualPointer dtls session level code state

theorem handleInputs_virtualPointer (inputs : List (Session × ClientInput)) (state : ClientState) :
    (handleInputs o dtls inputs state).virtualPointer =
      state.virtualPointer ++ inputs.flatMap fun input => inputRequests input.2 := by
  induction inputs generalizing state with
  | nil => simp [handleInputs]
  | cons input inputs ih =>
    have h := ih (handleInput o dtls state input)
    simp only [handleInputs,List.foldl_cons,List.flatMap_cons] at h ⊢
    rw [h,handleInput_virtualPointer,List.append_assoc]

theorem issued_eq (inputs : List (Session × ClientInput)) (state : ClientState) :
    issued o dtls inputs state =
      inputs.flatMap fun input => (inputRequests input.2).map fun r => (input.1,r) := by
  induction inputs generalizing state with
  | nil => rfl
  | cons input inputs ih =>
    simp only [issued,ih,handleInput_virtualPointer,List.drop_left,List.flatMap_cons]

theorem issued_event (inputs : List (Session × ClientInput)) (state : ClientState)
    (client : Session) (level : UInt32) (code : UInt16) :
    issued o dtls (inputs ++ [(client,.event level code)]) state = issued o dtls inputs state := by
  simp [issued_eq,inputRequests]

theorem mem_issued_button (inputs : List (Session × ClientInput)) (state : ClientState)
    (client : Session) (button buttonState : UInt32) :
    (∃ time, (client,.button time button buttonState) ∈ issued o dtls inputs state) ↔
      ∃ data, (client,.packet data) ∈ inputs ∧ buttonSet data = some (button,buttonState) := by
  rw [issued_eq]
  constructor
  · rintro ⟨time,h⟩
    obtain ⟨⟨c,input⟩,hi,hr⟩ := List.mem_flatMap.mp h
    obtain ⟨r,hr,he⟩ := List.mem_map.mp hr
    obtain ⟨rfl,rfl⟩ := Prod.mk.inj he
    cases input with
    | packet data => exact ⟨data,hi,(mem_payloadRequests_button data button buttonState).mp ⟨time,hr⟩⟩
    | event level code => simp [inputRequests] at hr
  · rintro ⟨data,hi,hs⟩
    obtain ⟨time,hr⟩ := (mem_payloadRequests_button data button buttonState).mpr hs
    exact ⟨time,List.mem_flatMap.mpr ⟨_,hi,List.mem_map.mpr ⟨_,hr,rfl⟩⟩⟩

/-- A button request in the history belongs to a packet; what follows it comes from
the rest of the packet's group, which sets no button, and from later inputs. -/
theorem issued_split {inputs : List (Session × ClientInput)} {state : ClientState}
    {client : Session} {pre post : List (Session × PointerRequest)} {time button buttonState : UInt32}
    (h : issued o dtls inputs state = pre ++ (client,.button time button buttonState) :: post) :
    ∃ before data after, inputs = before ++ (client,.packet data) :: after ∧
      buttonSet data = some (button,buttonState) ∧
      post = (MousePacket.ofWire data).group.tail.map (fun r => (client,r)) ++
        issued o dtls after state := by
  induction inputs generalizing pre with
  | nil => simp [issued] at h
  | cons input inputs ih =>
    have hcons : issued o dtls (input :: inputs) state =
        (inputRequests input.2).map (fun r => (input.1,r)) ++ issued o dtls inputs state := by
      simp [issued_eq]
    rw [hcons] at h
    rcases List.append_eq_append_iff.mp h with ⟨pre',rfl,ht⟩ | ⟨mid,hm,ht⟩
    · obtain ⟨before,data,after,rfl,hs,hp⟩ := ih ht
      exact ⟨input :: before,data,after,rfl,hs,hp⟩
    · cases mid with
      | nil =>
        obtain ⟨before,data,after,rfl,hs,hp⟩ := @ih [] ht.symm
        exact ⟨input :: before,data,after,rfl,hs,hp⟩
      | cons r mid =>
        obtain ⟨rfl,rfl⟩ := List.cons.inj ht
        obtain ⟨g₁,g₂,hg,rfl,hg₂⟩ := List.map_eq_append_iff.mp hm
        obtain ⟨x,g₃,rfl,hx,rfl⟩ := List.map_eq_cons_iff.mp hg₂
        obtain ⟨rfl,rfl⟩ := Prod.mk.inj hx
        obtain ⟨c,input⟩ := input
        cases input with
        | event level code => simp [inputRequests] at hg
        | packet data =>
          obtain ⟨hs,rfl⟩ := payloadRequests_split hg
          exact ⟨[],data,inputs,rfl,hs,rfl⟩

theorem issued_of_packet (before after : List (Session × ClientInput)) (state : ClientState)
    (client : Session) {data : Bytes} {button buttonState : UInt32}
    (h : buttonSet data = some (button,buttonState)) :
    issued o dtls (before ++ (client,.packet data) :: after) state =
      issued o dtls before state ++ (client,.button 0 button buttonState) ::
        ((MousePacket.ofWire data).group.tail.map (fun r => (client,r)) ++
          issued o dtls after state) := by
  unfold buttonSet at h
  by_cases ha : AcceptedPayload data
  · simp only [ha,↓reduceIte] at h
    simp [issued_eq,inputRequests,payloadRequests,ha,PointerGroup.requests,MousePacket.group,h]
  · simp [ha] at h

/-- Closing a session issues no request: every button that the client left pressed is
released exactly if another client has released it since. -/
theorem close_notify_releases_nothing (inputs : List (Session × ClientInput)) (state : ClientState)
    (client : Session) (level : UInt32) :
    issued o dtls (inputs ++ [(client,.event level dtls.alertCloseNotify)]) state =
      issued o dtls inputs state ∧
    (ReleasedAfter client
        (issued o dtls (inputs ++ [(client,.event level dtls.alertCloseNotify)]) state) ↔
      ∀ before data after button, inputs = before ++ (client,.packet data) :: after →
        buttonSet data = some (button,1) →
        (∀ d s, (client,.packet d) ∈ after → buttonSet d ≠ some (button,s)) →
          ∃ c d, c ≠ client ∧ (c,.packet d) ∈ after ∧ buttonSet d = some (button,0)) := by
  refine ⟨issued_event o dtls inputs state client level _,?_⟩
  rw [issued_event]
  constructor
  · intro h before data after button hi hs hlast
    have hmem := mem_issued_button o dtls after state
    subst hi
    obtain ⟨time,hr⟩ := h _ _ 0 button (issued_of_packet o dtls before after state client hs) (by
      intro t s hr
      rcases List.mem_append.mp hr with hr | hr
      · obtain ⟨r,hr,he⟩ := List.mem_map.mp hr
        obtain rfl := (Prod.mk.inj he).2
        exact PointerGroup.button_not_mem_tail _ _ _ _ hr
      · obtain ⟨d,hd,hs⟩ := (hmem client button s).mp ⟨t,hr⟩
        exact hlast d s hd hs)
    obtain ⟨⟨c,r⟩,hr,rfl⟩ := List.mem_map.mp hr
    rcases List.mem_append.mp hr with hr | hr
    · obtain ⟨r,hr,he⟩ := List.mem_map.mp hr
      obtain rfl := (Prod.mk.inj he).2
      exact absurd hr (PointerGroup.button_not_mem_tail _ _ _ _)
    · obtain ⟨d,hd,hs⟩ := (hmem c button 0).mp ⟨time,hr⟩
      refine ⟨c,d,?_,hd,hs⟩
      rintro rfl
      exact hlast d 0 hd hs
  · intro h pre post time button hp hlast
    have hmem := mem_issued_button o dtls
    obtain ⟨before,data,after,rfl,hs,rfl⟩ := issued_split o dtls hp
    obtain ⟨c,d,-,hd,hr⟩ := h before data after button rfl hs (by
      intro d s hd hds
      obtain ⟨t,ht⟩ := (hmem after state client button s).mpr ⟨d,hd,hds⟩
      exact hlast t s (List.mem_append_right _ ht))
    obtain ⟨t,ht⟩ := (hmem after state c button 0).mpr ⟨d,hd,hr⟩
    exact ⟨t,List.mem_map.mpr ⟨_,List.mem_append_right _ ht,rfl⟩⟩

end Inputs

theorem close_notify_keeps_button_held :
    ¬ ∀ (o : ByteOrder) (dtls : Tinydtls) (inputs : List (Session × ClientInput))
      (state : ClientState) (client : Session) (level : UInt32), 0 < level →
      ReleasedAfter client
        (issued o dtls (inputs ++ [(client,.event level dtls.alertCloseNotify)]) state) := by
  intro h
  have hc := h .little .sample [(⟨.other⟩,.packet [0,0,0,0,0,0,0,0,1,16,0,1])]
    ⟨[],⟨-1,-1⟩,[],0,[]⟩ ⟨.other⟩ 1 (by decide) [] [(⟨.other⟩,.frame)] 0 272 (by decide)
    (by simp)
  simp at hc

end WlrRemote
