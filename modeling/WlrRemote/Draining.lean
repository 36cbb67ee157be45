import WlrRemote.MainLoop

set_option autoImplicit false

namespace WlrRemote
open Octets Runs

def deliverable (maxBuf : Nat) (datagrams : List (Session × Bytes)) : List (Session × Bytes) :=
  datagrams.filter fun d => d.2.length ≤ maxBuf

theorem deliverable_cons (maxBuf : Nat) (d : Session × Bytes) (datagrams : List (Session × Bytes)) :
    deliverable maxBuf (d :: datagrams) =
      if maxBuf < d.2.length then deliverable maxBuf datagrams
      else d :: deliverable maxBuf datagrams := by
  by_cases h : maxBuf < d.2.length
  · simp [deliverable,h]
  · simp [deliverable,h,Nat.le_of_not_lt h]

/-- The datagrams that come before `recvfrom` reports an error. -/
def arrivals : List Recvfrom → List (Session × Bytes)
  | .datagram session bytes :: queue => (session,bytes) :: arrivals queue
  | _ => []

def recvfromFails : List Recvfrom → Bool
  | .datagram _ _ :: queue => recvfromFails queue
  | .failed :: _ => true
  | _ => false

section Drain

variable {δ : Type} (dtlsHandleMessage : Session → Bytes → ClientState → δ → Int × ClientState × δ)

def dtlsResults (maxBuf : Nat) : List (Session × Bytes) → ClientState → δ → List Int
  | [], _, _ => []
  | (session,bytes) :: datagrams, client, dtls =>
    if maxBuf < bytes.length then
      dtlsResults maxBuf datagrams (client.print (.exceedsBuffer bytes.length)) dtls
    else
      let (res,client,dtls) := dtlsHandleMessage session bytes client dtls
      res :: dtlsResults maxBuf datagrams client dtls

def NoneRejected (maxBuf : Nat) (datagrams : List (Session × Bytes)) (client : ClientState)
    (dtls : δ) : Prop :=
  ∀ res ∈ dtlsResults dtlsHandleMessage maxBuf datagrams client dtls, 0 ≤ res

theorem netHandleEpoll_of_noneRejected (maxBuf : Nat) (queue : List Recvfrom)
    (client : ClientState) (dtls : δ)
    (h : NoneRejected dtlsHandleMessage maxBuf (arrivals queue) client dtls) :
    (netHandleEpoll dtlsHandleMessage maxBuf queue client dtls).handed =
        deliverable maxBuf (arrivals queue) ∧
      (netHandleEpoll dtlsHandleMessage maxBuf queue client dtls).res =
        if recvfromFails queue then -1 else 0 := by
  induction queue generalizing client dtls with
  | nil => simp [netHandleEpoll,arrivals,deliverable,recvfromFails]
  | cons answer queue ih =>
    cases answer with
    | again => simp [netHandleEpoll,arrivals,deliverable,recvfromFails]
    | failed => simp [netHandleEpoll,arrivals,deliverable,recvfromFails]
    | datagram session bytes =>
      simp only [NoneRejected,arrivals,dtlsResults] at h
      by_cases hl : maxBuf < bytes.length
      · simp only [hl,↓reduceIte] at h
        simp only [netHandleEpoll,arrivals,deliverable_cons,recvfromFails,hl,↓reduceIte]
        exact ih _ _ h
      · simp only [hl,↓reduceIte,List.mem_cons,forall_eq_or_imp] at h
        have hres : ¬ (dtlsHandleMessage session bytes client dtls).1 < 0 := by omega
        simp only [netHandleEpoll,arrivals,deliverable_cons,recvfromFails,hl,hres,↓reduceIte]
        exact ⟨congrArg _ (ih _ _ h.2).1,(ih _ _ h.2).2⟩

/-- The result of a draining that meets a rejected datagram is negative, whatever follows. -/
theorem netHandleEpoll_rejected (maxBuf : Nat) (queue : List Recvfrom)
    (client : ClientState) (dtls : δ)
    (h : ¬ NoneRejected dtlsHandleMessage maxBuf (arrivals queue) client dtls) :
    (netHandleEpoll dtlsHandleMessage maxBuf queue client dtls).res < 0 := by
  induction queue generalizing client dtls with
  | nil => simp [NoneRejected,arrivals,dtlsResults] at h
  | cons answer queue ih =>
    cases answer with
    | again => simp [NoneRejected,arrivals,dtlsResults] at h
    | failed => simp [NoneRejected,arrivals,dtlsResults] at h
    | datagram session bytes =>
      simp only [NoneRejected,arrivals,dtlsResults] at h
      by_cases hl : maxBuf < bytes.length
      · simp only [hl,↓reduceIte] at h
        simpa [netHandleEpoll,hl] using ih _ _ h
      · simp only [hl,↓reduceIte,List.mem_cons,forall_eq_or_imp,not_and] at h
        by_cases hres : (dtlsHandleMessage session bytes client dtls).1 < 0
        · simp [netHandleEpoll,hl,hres]
        · simpa [netHandleEpoll,hl,hres] using ih _ _ (h (by omega))

def queueOf (datagrams : List (Session × Bytes)) : List Recvfrom :=
  datagrams.map (fun d => .datagram d.1 d.2) ++ [.again]

theorem arrivals_queueOf (datagrams : List (Session × Bytes)) :
    arrivals (queueOf datagrams) = datagrams := by
  induction datagrams with
  | nil => rfl
  | cons d datagrams ih => simpa [queueOf,arrivals] using ih

theorem recvfromFails_queueOf (datagrams : List (Session × Bytes)) :
    recvfromFails (queueOf datagrams) = false := by
  induction datagrams with
  | nil => rfl
  | cons d datagrams ih => simpa [queueOf,recvfromFails] using ih

def DrainsAll (maxBuf : Nat) (datagrams : List (Session × Bytes)) (client : ClientState)
    (dtls : δ) : Prop :=
  let d := netHandleEpoll dtlsHandleMessage maxBuf (queueOf datagrams) client dtls
  d.handed = deliverable maxBuf datagrams ∧ d.res = 0

theorem drainsAll_iff (maxBuf : Nat) (datagrams : List (Session × Bytes)) (client : ClientState)
    (dtls : δ) : DrainsAll dtlsHandleMessage maxBuf datagrams client dtls ↔
      NoneRejected dtlsHandleMessage maxBuf datagrams client dtls := by
  constructor
  · intro h
    by_contra hr
    rw [← arrivals_queueOf datagrams] at hr
    have hneg := netHandleEpoll_rejected dtlsHandleMessage maxBuf _ client dtls hr
    have hzero := h.2
    omega
  · intro h
    rw [← arrivals_queueOf datagrams] at h
    have hd := netHandleEpoll_of_noneRejected dtlsHandleMessage maxBuf _ client dtls h
    rw [arrivals_queueOf,recvfromFails_queueOf] at hd
    exact hd

end Drain

section Loop

variable {δ : Type}

/-- Quit was set, `epoll_wait` or `recvfrom` failed, or the Wayland dispatch failed. -/
def LeavesFor (s : LoopState δ) (input : LoopInput) : Prop :=
  (s.point = .testQuit ∧ s.quit = true) ∨ input = .returned .failed ∨
    (∃ result, input = .dispatched result ∧ result < 0) ∨
    ∃ queue, input = .received queue ∧ recvfromFails queue = true

def StepAccepts (env : LoopEnv δ) (s : LoopState δ) (input : LoopInput) (_ : LoopState δ) : Prop :=
  ∀ queue, input = .received queue →
    NoneRejected env.dtlsHandleMessage env.maxBuf (arrivals queue) s.client s.dtls

def StepServes (env : LoopEnv δ) (s : LoopState δ) (input : LoopInput) (s' : LoopState δ) : Prop :=
  (∀ queue, input = .received queue →
    (netHandleEpoll env.dtlsHandleMessage env.maxBuf queue s.client s.dtls).handed =
      deliverable env.maxBuf (arrivals queue)) ∧
  ((∀ success, s.point ≠ .leaving success) → (∃ success, s'.point = .leaving success) →
    LeavesFor s input)

theorem stepServes_of_accepts {env : LoopEnv δ} {s s' : LoopState δ} {input : LoopInput}
    (hstep : loopStep env s input = some s') (h : StepAccepts env s input s') :
    StepServes env s input s' := by
  constructor
  · intro queue hi
    exact (netHandleEpoll_of_noneRejected _ _ _ _ _ (h queue hi)).1
  · intro hs hl
    obtain ⟨success,hl⟩ := hl
    cases loopStep_moves hstep with
    | signal hi hq hp hr =>
      rw [hp] at hl
      split at hl
      · contradiction
      · exact absurd hl (hs success)
    | quits hs' hi hq hq' hp => exact Or.inl ⟨hs',hq⟩
    | goesOn hs' hi hq hq' hp => simp [hp] at hl
    | dispatchesPending hs' hi hq hp => simp [hp] at hl
    | flushes all requests hs' hi hq hp => simp [hp] at hl
    | enters hs' hi hq hp => simp [hp] at hl
    | wakes result hs' hi hq hp =>
      cases result with
      | ready events => simp [hp] at hl
      | interrupted => simp [hp] at hl
      | failed => exact Or.inr (Or.inl hi)
    | finishes hs' hi hq hp => simp [hp] at hl
    | dispatches result fd events hs' hi hq hp =>
      by_cases hr : result < 0
      · exact Or.inr (Or.inr (Or.inl ⟨result,hi,hr⟩))
      · simp [hp,hr] at hl
    | drains queue fd events hs' hi hq hp =>
      have hres := (netHandleEpoll_of_noneRejected _ _ _ _ _ (h queue hi)).2
      cases hf : recvfromFails queue with
      | true => exact Or.inr (Or.inr (Or.inr ⟨queue,hi,hf⟩))
      | false => simp [hp,hres,hf] at hl
    | responds received fd events hs' hi hq hp => simp [hp] at hl
    | closes success' hs' hi hq hp hr => simp [hp] at hl

/-- The queue of a socket is drained exactly if no datagram in it is rejected, and where
none is rejected the main loop is left for a good reason only. -/
theorem server_survives (env : LoopEnv δ) :
    (∀ datagrams client dtls, DrainsAll env.dtlsHandleMessage env.maxBuf datagrams client dtls ↔
      NoneRejected env.dtlsHandleMessage env.maxBuf datagrams client dtls) ∧
    ∀ s inputs, Along (loopStep env) (StepAccepts env) s inputs →
      Along (loopStep env) (StepServes env) s inputs := by
  refine ⟨drainsAll_iff env.dtlsHandleMessage env.maxBuf,?_⟩
  intro s inputs h
  refine Along.imp (P := StepAccepts env) ?_ h
  intro _ _ _ hstep ha
  exact stepServes_of_accepts hstep ha

end Loop

/-- A DTLS layer that asks for the key of the identity that a datagram offers. -/
def identityLayer (_ : Session) (bytes : Bytes) (client : ClientState) (_ : Unit) :
    Int × ClientState × Unit :=
  (min 0 (netGetPskInfo .sample client .pskKey bytes Tinydtls.sample.pskMaxKeyLen).1,client,())

theorem unknown_identity_stops_server :
    let client : ClientState := ⟨[],⟨5,-1⟩,ascii "secret",6,[]⟩
    let datagrams : List (Session × Bytes) := [(⟨.other⟩,ascii "mallory"),(⟨.other⟩,PSK_ID)]
    let env : LoopEnv Unit := ⟨3,1400,none,identityLayer⟩
    let s : LoopState Unit := ⟨.handling [5],false,client,(),⟨fun _ => 0,fun _ => 0,[]⟩,0⟩
    ¬ DrainsAll identityLayer 1400 datagrams client () ∧
      ∃ s', loopStep env s (.received (queueOf datagrams)) = some s' ∧ s'.point = .leaving false ∧
        ¬ StepServes env s (.received (queueOf datagrams)) s' := by
  refine ⟨fun h => absurd h.2 (by decide),_,rfl,rfl,?_⟩
  intro h
  exact absurd (h.1 _ rfl) (by decide)

end WlrRemote
