import WlrRemote.PointerRequests
import WlrRemote.TestClient

set_option autoImplicit false

namespace WlrRemote
open Octets

structure SentPacket where
  session : Session
  order : ByteOrder
  packet : MousePacket
  accepted : packet.Accepted

def SentPacket.payload (p : SentPacket) : Session × Bytes :=
  (p.session,testClientPacket p.order p.packet.dx p.packet.dy p.packet.button p.packet.buttonState)

theorem length_testClientPacket (o : ByteOrder) (dx dy : Int32) (button buttonState : UInt16) :
    (testClientPacket o dx dy button buttonState).length = sizeofMousePacket := by
  simp [testClientPacket,MousePacket.image,sizeofMousePacket]

theorem testClientPacket_eq (o : ByteOrder) (dx dy : Int32) (button buttonState : UInt16) :
    testClientPacket o dx dy button buttonState =
      be32 dx.toUInt32 ++ be32 dy.toUInt32 ++ be16 button ++ be16 buttonState := by
  simp [testClientPacket,MousePacket.image]

theorem ofWire_testClientPacket (o : ByteOrder) (packet : MousePacket) :
    MousePacket.ofWire (testClientPacket o packet.dx packet.dy packet.button packet.buttonState) =
      packet := by
  rw [testClientPacket_eq,MousePacket.ofWire]
  have h₀ : (be32 packet.dx.toUInt32 ++ be32 packet.dy.toUInt32 ++ be16 packet.button ++
      be16 packet.buttonState).take 4 = be32 packet.dx.toUInt32 := rfl
  have h₁ : ((be32 packet.dx.toUInt32 ++ be32 packet.dy.toUInt32 ++ be16 packet.button ++
      be16 packet.buttonState).drop 4).take 4 = be32 packet.dy.toUInt32 := rfl
  have h₂ : ((be32 packet.dx.toUInt32 ++ be32 packet.dy.toUInt32 ++ be16 packet.button ++
      be16 packet.buttonState).drop 8).take 2 = be16 packet.button := rfl
  have h₃ : ((be32 packet.dx.toUInt32 ++ be32 packet.dy.toUInt32 ++ be16 packet.button ++
      be16 packet.buttonState).drop 10).take 2 = be16 packet.buttonState := rfl
  simp only [h₀,h₁,h₂,h₃,ofBe32_be32,ofBe16_be16,Int32.toInt32_toUInt32]

/-- The product in `wl_fixed_from_int` does not fit a 32-bit integer. -/
def WlFixedOverflows (i : Int32) : Prop := i.toInt * 256 < -2 ^ 31 ∨ 2 ^ 31 ≤ i.toInt * 256

def motionAlong (axis : WlFixed × WlFixed → WlFixed) : PointerRequest → Int
  | .motion _ dx dy => (axis (dx,dy)).toInt
  | _ => 0

def PointerRequest.isMotion : PointerRequest → Bool
  | .motion _ _ _ => true
  | _ => false

def newRequests (o : ByteOrder) (payload : Session × Bytes) (state : ClientState) :
    List PointerRequest :=
  (netHandleReceive o payload.1 payload.2 state).2.virtualPointer.drop state.virtualPointer.length

/-- No product overflows, no motion is dropped unless there is none to make, and the
motion requests add up to what the packets say, in units of a 256th. -/
structure Conserved (o : ByteOrder) (sent : List SentPacket) (delivered : List (Session × Bytes))
    (state : ClientState) : Prop where
  exact : ∀ p ∈ sent, ¬ WlFixedOverflows p.packet.dx ∧ ¬ WlFixedOverflows p.packet.dy
  moved : ∀ p ∈ sent, (newRequests o p.payload state).any PointerRequest.isMotion = false →
    p.packet.dx = 0 ∧ p.packet.dy = 0
  sumX : (((receiveAll o delivered state).2.virtualPointer.drop state.virtualPointer.length).map
    (motionAlong Prod.fst)).sum = 256 * (sent.map fun p => p.packet.dx.toInt).sum
  sumY : (((receiveAll o delivered state).2.virtualPointer.drop state.virtualPointer.length).map
    (motionAlong Prod.snd)).sum = 256 * (sent.map fun p => p.packet.dy.toInt).sum

def SmallStep (d : Int32) : Prop := -2 ^ 23 ≤ d.toInt ∧ d.toInt < 2 ^ 23

theorem not_wlFixedOverflows_iff (d : Int32) : ¬ WlFixedOverflows d ↔ SmallStep d := by
  unfold WlFixedOverflows SmallStep
  omega

theorem wlFixedFromInt_toInt {d : Int32} (h : SmallStep d) :
    (wlFixedFromInt d).toInt = 256 * d.toInt := by
  unfold SmallStep at h
  rw [wlFixedFromInt,Int32.toInt_mul]
  have h256 : (256 : Int32).toInt = 256 := rfl
  rw [h256,Int.bmod_eq_of_le (by omega) (by omega)]
  omega

theorem SentPacket.payloadRequests_payload (p : SentPacket) :
    payloadRequests p.payload.2 = p.packet.group.requests := by
  have hw := ofWire_testClientPacket p.order p.packet
  have hl := length_testClientPacket p.order p.packet.dx p.packet.dy p.packet.button
    p.packet.buttonState
  simp only [payloadRequests,AcceptedPayload,SentPacket.payload,hw,hl,p.accepted,and_self,
    ↓reduceIte]

theorem SentPacket.newRequests_payload (p : SentPacket) (o : ByteOrder) (state : ClientState) :
    newRequests o p.payload state = p.packet.group.requests := by
  rw [newRequests,netHandleReceive_virtualPointer,List.drop_left,p.payloadRequests_payload]

theorem MousePacket.sum_motionAlong (packet : MousePacket) {axis : WlFixed × WlFixed → WlFixed}
    (h : axis (0,0) = 0) : (packet.group.requests.map (motionAlong axis)).sum =
      (axis (wlFixedFromInt packet.dx,wlFixedFromInt packet.dy)).toInt := by
  unfold group PointerGroup.requests PointerGroup.tail
  by_cases hm : wlFixedFromInt packet.dx ≠ 0 ∨ wlFixedFromInt packet.dy ≠ 0
  · cases packet.buttonRequest <;> simp [hm,motionAlong]
  · obtain ⟨hx,hy⟩ : wlFixedFromInt packet.dx = 0 ∧ wlFixedFromInt packet.dy = 0 := by
      simpa using hm
    cases packet.buttonRequest <;> simp [motionAlong,hx,hy,h]

theorem sum_delivered (o : ByteOrder) (measure : PointerRequest → Int) {sent : List SentPacket}
    {delivered : List (Session × Bytes)} (h : delivered.Perm (sent.map SentPacket.payload))
    (state : ClientState) :
    (((receiveAll o delivered state).2.virtualPointer.drop state.virtualPointer.length).map
      measure).sum = (sent.map fun p => (p.packet.group.requests.map measure).sum).sum := by
  have hsum : ∀ payloads : List (Session × Bytes),
      ((payloads.flatMap fun p => payloadRequests p.2).map measure).sum =
        (payloads.map fun p => ((payloadRequests p.2).map measure).sum).sum := by
    intro payloads
    induction payloads with
    | nil => rfl
    | cons p payloads ih => simp [ih]
  have hperm := (h.map fun p : Session × Bytes => ((payloadRequests p.2).map measure).sum).sum_eq
  rw [receiveAll_virtualPointer,List.drop_left,hsum,hperm,List.map_map]
  congr 1
  apply List.map_congr_left
  intro p _
  simp only [Function.comp_apply,p.payloadRequests_payload]

theorem sum_wlFixedFromInt {sent : List SentPacket} (field : MousePacket → Int32)
    (h : ∀ p ∈ sent, SmallStep (field p.packet)) :
    (sent.map fun p => (wlFixedFromInt (field p.packet)).toInt).sum =
      256 * (sent.map fun p => (field p.packet).toInt).sum := by
  induction sent with
  | nil => rfl
  | cons p sent ih =>
    have hp := wlFixedFromInt_toInt (h p List.mem_cons_self)
    have hs := ih fun q hq => h q (List.mem_cons_of_mem p hq)
    simp only [List.map_cons,List.sum_cons,hp,hs]
    omega

theorem MousePacket.motion_of_small {packet : MousePacket} (hx : SmallStep packet.dx)
    (hy : SmallStep packet.dy) (h : packet.group.requests.any PointerRequest.isMotion = false) :
    packet.dx = 0 ∧ packet.dy = 0 := by
  have hx' := wlFixedFromInt_toInt hx
  have hy' := wlFixedFromInt_toInt hy
  by_cases hm : wlFixedFromInt packet.dx ≠ 0 ∨ wlFixedFromInt packet.dy ≠ 0
  · simp [group,PointerGroup.requests,PointerGroup.tail,hm,PointerRequest.isMotion] at h
  · simp only [ne_eq,not_or,not_not] at hm
    rw [hm.1] at hx'
    rw [hm.2] at hy'
    simp only [Int32.toInt_zero] at hx' hy'
    constructor
    · exact Int32.toInt_inj.mp (by rw [Int32.toInt_zero]; omega)
    · exact Int32.toInt_inj.mp (by rw [Int32.toInt_zero]; omega)

/-- Displacement is conserved exactly if every step fits the fixed-point format. -/
theorem conserved_iff_small (o : ByteOrder) (sent : List SentPacket)
    (delivered : List (Session × Bytes)) (h : delivered.Perm (sent.map SentPacket.payload))
    (state : ClientState) :
    Conserved o sent delivered state ↔
      ∀ p ∈ sent, SmallStep p.packet.dx ∧ SmallStep p.packet.dy := by
  constructor
  · intro hc p hp
    have he := hc.exact p hp
    exact ⟨(not_wlFixedOverflows_iff _).mp he.1,(not_wlFixedOverflows_iff _).mp he.2⟩
  · intro hs
    have hx := sum_delivered o (motionAlong Prod.fst) h state
    have hy := sum_delivered o (motionAlong Prod.snd) h state
    simp only [MousePacket.sum_motionAlong] at hx hy
    exact {
      exact := fun p hp => ⟨(not_wlFixedOverflows_iff _).mpr (hs p hp).1,
        (not_wlFixedOverflows_iff _).mpr (hs p hp).2⟩
      moved := by
        intro p hp hm
        rw [p.newRequests_payload] at hm
        exact MousePacket.motion_of_small (hs p hp).1 (hs p hp).2 hm
      sumX := by rw [hx,sum_wlFixedFromInt MousePacket.dx fun p hp => (hs p hp).1]
      sumY := by rw [hy,sum_wlFixedFromInt MousePacket.dy fun p hp => (hs p hp).2] }

theorem conserved_iff_small_two :
    let sent : List SentPacket :=
      [⟨⟨.other⟩,.little,⟨10,-3,0,0⟩,by decide⟩,⟨⟨.other⟩,.big,⟨-10,0,BTN_LEFT,1⟩,by decide⟩]
    Conserved .little sent (sent.map SentPacket.payload).reverse ⟨[],⟨-1,-1⟩,[],0,[]⟩ ↔
      ∀ p ∈ sent, SmallStep p.packet.dx ∧ SmallStep p.packet.dy :=
  conserved_iff_small .little _ _ (List.reverse_perm _) _

theorem large_step_is_dropped :
    ¬ Conserved .little [⟨⟨.other⟩,.little,⟨16777216,0,0,0⟩,by decide⟩]
      [(⟨.other⟩,testClientPacket .little 16777216 0 0 0)] ⟨[],⟨-1,-1⟩,[],0,[]⟩ := by
  intro h
  have hm := h.moved _ List.mem_cons_self (by decide)
  exact absurd hm.1 (by decide)

end WlrRemote
