import WlrRemote.MainLeaves
import WlrRemote.PointerRequests
import WlrRemote.Responders

/-!
The loop of `main` against the server it is meant to be: a remote control and an mDNS
responder side by side.
-/

set_option autoImplicit false

namespace WlrRemote
open Octets Descriptors Runs

structure Server where
  issued : List PointerRequest
  responder : ResponderState

inductive ServerEvent where
  | client (input : Session × ClientInput)
  | query (sock : Int) (received : Option (Sockaddr × Bytes))

def serverStep (service : Option AdvertiseService) (s : Server) : ServerEvent → Option Server
  | .client input => some { s with issued := s.issued ++ inputRequests input.2 }
  | .query sock received => service.map fun service =>
    { s with responder := advertiseRespondRequest service sock received s.responder }

section Refinement

variable {δ : Type}

def LoopState.server (s : LoopState δ) : Server := ⟨s.client.virtualPointer,s.responder⟩

/-- The calls that the DTLS layer makes while it handles a datagram, in their order. -/
abbrev LayerCalls (δ : Type) := Session → Bytes → ClientState → δ → List ClientInput

/-- The DTLS layer acts on the program by these calls alone, for the peer whose datagram it is
given. -/
def CallsBack (o : ByteOrder) (dtls : Tinydtls)
    (dtlsHandleMessage : Session → Bytes → ClientState → δ → Int × ClientState × δ)
    (calls : LayerCalls δ) : Prop :=
  ∀ session bytes client d, (dtlsHandleMessage session bytes client d).2.1 =
    handleInputs o dtls ((calls session bytes client d).map fun input => (session,input)) client

structure SameKeys (client client' : ClientState) : Prop where
  socks : client'.socks = client.socks
  pskKey : client'.pskKey = client.pskKey
  pskKeyLen : client'.pskKeyLen = client.pskKeyLen

theorem SameKeys.refl (client : ClientState) : SameKeys client client := ⟨rfl,rfl,rfl⟩

theorem SameKeys.trans {c₁ c₂ c₃ : ClientState} (h : SameKeys c₁ c₂) (h' : SameKeys c₂ c₃) :
    SameKeys c₁ c₃ :=
  ⟨h'.socks.trans h.socks,h'.pskKey.trans h.pskKey,h'.pskKeyLen.trans h.pskKeyLen⟩

theorem SameKeys.print (client : ClientState) (line : Notice) :
    SameKeys client (client.print line) := ⟨rfl,rfl,rfl⟩

theorem SameKeys.request (client : ClientState) (r : PointerRequest) :
    SameKeys client (client.request r) := ⟨rfl,rfl,rfl⟩

theorem vpHandlePacket_sameKeys (client : ClientState) (packet : MousePacket) :
    SameKeys client (vpHandlePacket client packet) := by
  have hrest (c : ClientState) : SameKeys c
      ((if wlFixedFromInt packet.dx ≠ 0 ∨ wlFixedFromInt packet.dy ≠ 0 then
        c.request (.motion 0 (wlFixedFromInt packet.dx) (wlFixedFromInt packet.dy)) else c).request
          .frame) := by
    split
    · exact (SameKeys.request _ _).trans (.request _ _)
    · exact .request _ _
  unfold vpHandlePacket
  split
  · exact .print _ _
  · simp only
    split
    · exact (SameKeys.request _ _).trans (hrest _)
    · split
      · exact hrest _
      · exact .print _ _

theorem handleInput_sameKeys (o : ByteOrder) (dtls : Tinydtls) (client : ClientState)
    (input : Session × ClientInput) : SameKeys client (handleInput o dtls client input) := by
  obtain ⟨⟨addr⟩,input⟩ := input
  cases input with
  | packet data =>
    simp only [handleInput,netHandleReceive]
    split
    · exact vpHandlePacket_sameKeys _ _
    · exact .print _ _
  | event level code =>
    cases addr with
    | inet sa family | inet6 sa6 family =>
      simp only [handleInput,netHandleEvent]
      split
      · split <;> exact .print _ _
      · split
        · exact .print _ _
        · split
          · exact .print _ _
          · exact .refl _
    | other =>
      simp only [handleInput,netHandleEvent]
      split
      · split <;> exact (SameKeys.print _ _).trans (.print _ _)
      · split
        · exact (SameKeys.print _ _).trans (.print _ _)
        · split
          · exact (SameKeys.print _ _).trans (.print _ _)
          · exact .print _ _

theorem handleInputs_sameKeys (o : ByteOrder) (dtls : Tinydtls)
    (inputs : List (Session × ClientInput)) (client : ClientState) :
    SameKeys client (handleInputs o dtls inputs client) := by
  induction inputs generalizing client with
  | nil => exact .refl _
  | cons input inputs ih => exact (handleInput_sameKeys o dtls client input).trans (ih _)

def netHandleEpollCalls
    (dtlsHandleMessage : Session → Bytes → ClientState → δ → Int × ClientState × δ)
    (calls : LayerCalls δ) (maxBuf : Nat) :
    List Recvfrom → ClientState → δ → List (Session × ClientInput)
  | [], _, _ | .again :: _, _, _ | .failed :: _, _, _ => []
  | .datagram session bytes :: queue, client, dtls =>
    if maxBuf < bytes.length then
      netHandleEpollCalls dtlsHandleMessage calls maxBuf queue
        (client.print (.exceedsBuffer bytes.length)) dtls
    else
      let now := (calls session bytes client dtls).map fun input => (session,input)
      let (res,client,dtls) := dtlsHandleMessage session bytes client dtls
      if res < 0 then now
      else now ++ netHandleEpollCalls dtlsHandleMessage calls maxBuf queue client dtls

theorem netHandleEpoll_calls {o : ByteOrder} {dtls : Tinydtls}
    {dtlsHandleMessage : Session → Bytes → ClientState → δ → Int × ClientState × δ}
    {calls : LayerCalls δ} (hcalls : CallsBack o dtls dtlsHandleMessage calls) (maxBuf : Nat)
    (queue : List Recvfrom) (client : ClientState) (d : δ) :
    let drained := netHandleEpoll dtlsHandleMessage maxBuf queue client d
    SameKeys client drained.client ∧ drained.client.virtualPointer = client.virtualPointer ++
      (netHandleEpollCalls dtlsHandleMessage calls maxBuf queue client d).flatMap
        fun input => inputRequests input.2 := by
  induction queue generalizing client d with
  | nil => exact ⟨.refl _,by simp [netHandleEpoll,netHandleEpollCalls]⟩
  | cons answer queue ih =>
    cases answer with
    | again => exact ⟨.refl _,by simp [netHandleEpoll,netHandleEpollCalls]⟩
    | failed => exact ⟨.print _ _,by simp [netHandleEpoll,netHandleEpollCalls]⟩
    | datagram session bytes =>
      simp only [netHandleEpoll,netHandleEpollCalls]
      split
      · obtain ⟨hkeys,hlog⟩ := ih (client.print (.exceedsBuffer bytes.length)) d
        exact ⟨(SameKeys.print _ _).trans hkeys,hlog⟩
      · have hnow := hcalls session bytes client d
        generalize (calls session bytes client d).map (fun input => (session,input)) = now at hnow ⊢
        have hkeys := handleInputs_sameKeys o dtls now client
        have hlog := handleInputs_virtualPointer o dtls now client
        rw [← hnow] at hkeys hlog
        split
        · exact ⟨hkeys,hlog⟩
        · obtain ⟨hkeys',hlog'⟩ := ih (dtlsHandleMessage session bytes client d).2.1
            (dtlsHandleMessage session bytes client d).2.2
          refine ⟨hkeys.trans hkeys',?_⟩
          rw [hlog',hlog,List.flatMap_append,List.append_assoc]

inductive Affects (env : LoopEnv δ) (s : LoopState δ) (input : LoopInput) (s' : LoopState δ) : Prop
    where
  | nothing (hi : ∀ queue, input ≠ .received queue) (hi' : ∀ received, input ≠ .query received)
      (hi'' : ∀ result, input ≠ .dispatched result) (hc : s'.client = s.client)
      (hr : s'.responder = s.responder)
  | dispatches (result fd : Int) (events : List Int) (hi : input = .dispatched result)
      (hs : s.point = .handling (fd :: events)) (hfd : fd = env.wlFd) (hc : s'.client = s.client)
      (hr : s'.responder = s.responder)
  | receives (queue : List Recvfrom) (fd : Int) (events : List Int) (hi : input = .received queue)
      (hs : s.point = .handling (fd :: events)) (hfd : fd ≠ env.wlFd)
      (hsock : fd = s.client.socks.v4 ∨ fd = s.client.socks.v6)
      (hc : s'.client =
        (netHandleEpoll env.dtlsHandleMessage env.maxBuf queue s.client s.dtls).client)
      (hr : s'.responder = s.responder)
  | responds (received : Option (Sockaddr × Bytes)) (fd : Int) (events : List Int)
      (hi : input = .query received) (hs : s.point = .handling (fd :: events)) (hfd : fd ≠ env.wlFd)
      (hsock : fd ≠ s.client.socks.v4 ∧ fd ≠ s.client.socks.v6) (hc : s'.client = s.client)
      (hr : s'.responder = match env.service with
        | none => s.responder
        | some service => advertiseRespondRequest service fd received s.responder)
  | closes (success : Bool) (hi : input = .proceed) (hp : s'.point = .closed success)

theorem handleEvent_affects {env : LoopEnv δ} {s s' : LoopState δ} {fd : Int} {events : List Int}
    {input : LoopInput} (hs : s.point = .handling (fd :: events))
    (h : s.handleEvent env fd events input = some s') : Affects env s input s' := by
  cases input with
  | dispatched result =>
    simp only [LoopState.handleEvent] at h
    split at h
    · rename_i hfd
      obtain rfl := Option.some.inj h
      exact .dispatches result fd events rfl hs hfd rfl rfl
    · contradiction
  | received queue =>
    simp only [LoopState.handleEvent] at h
    split at h
    · rename_i hfd
      obtain rfl := Option.some.inj h
      exact .receives queue fd events rfl hs hfd.1 hfd.2 rfl rfl
    · contradiction
  | query received =>
    simp only [LoopState.handleEvent] at h
    split at h
    · rename_i hfd
      cases hservice : env.service with
      | none =>
        rw [hservice] at h
        obtain rfl := Option.some.inj h
        exact .responds received fd events rfl hs hfd.1 hfd.2 rfl (by rw [hservice])
      | some service =>
        rw [hservice] at h
        obtain rfl := Option.some.inj h
        exact .responds received fd events rfl hs hfd.1 hfd.2 rfl (by rw [hservice])
    · contradiction
  | signal | proceed | flushed | returned => contradiction

theorem loopStep_affects {env : LoopEnv δ} {s s' : LoopState δ} {input : LoopInput}
    (h : loopStep env s input = some s') : Affects env s input s' := by
  unfold loopStep at h
  split at h
  case h_11 hs _ => exact handleEvent_affects hs h
  case h_12 success hs =>
    obtain rfl := Option.some.inj h
    exact .closes success rfl rfl
  case h_13 => contradiction
  all_goals
    obtain rfl := Option.some.inj h
    exact .nothing (by simp) (by simp) (by simp) rfl rfl

def LoopEnv.own (env : LoopEnv δ) : List Int :=
  (env.service.map fun service => service.socks.slots).getD []

def ReportsOf (fds : List Int) (_ : LoopState δ) (input : LoopInput) (_ : LoopState δ) : Prop :=
  ∀ events, input = .returned (.ready events) → events ⊆ fds

structure Wired (env : LoopEnv δ) (client : ClientState) (s : LoopState δ) : Prop where
  keys : SameKeys client s.client
  events : ∀ events, s.point = .handling events →
    events ⊆ env.wlFd :: (client.socks.slots ++ env.own)

theorem mem_slots_iff {socks : Sockets} {fd : Int} (hfd : fd ≠ -1) :
    fd ∈ socks.slots ↔ fd = socks.v4 ∨ fd = socks.v6 := by
  constructor
  · exact fun h => (mem_slots h).2
  · rintro (rfl | rfl) <;> simp [Sockets.slots,hfd]

theorem wired_step {o : ByteOrder} {dtls : Tinydtls} {env : LoopEnv δ} {client : ClientState}
    {calls : LayerCalls δ} (hcalls : CallsBack o dtls env.dtlsHandleMessage calls)
    {s s' : LoopState δ} {input : LoopInput}
    (hs : Wired env client s) (hstep : loopStep env s input = some s')
    (hreports : ReportsOf (env.wlFd :: (client.socks.slots ++ env.own)) s input s') :
    (∃ success, s'.point = .closed success) ∨ Wired env client s' := by
  -- the events that a step leaves are among those there were, or just reported
  have hevents : ∀ events, s'.point = .handling events →
      events ⊆ env.wlFd :: (client.socks.slots ++ env.own) := by
    intro events hp'
    have htail {fd : Int} {rest : List Int} (h : s.point = .handling (fd :: rest)) :
        rest ⊆ env.wlFd :: (client.socks.slots ++ env.own) :=
      fun x hx => hs.events _ h (List.mem_cons_of_mem fd hx)
    cases loopStep_moves hstep with
    | signal hi hq hp hr =>
      rw [hp] at hp'
      split at hp'
      · contradiction
      · exact hs.events _ hp'
    | wakes result hs' hi hq hp =>
      rw [hp] at hp'
      cases result with
      | ready ready =>
        obtain rfl := LoopPoint.handling.inj hp'
        exact hreports _ hi
      | interrupted => contradiction
      | failed => contradiction
    | dispatches result fd rest hs' hi hq hp =>
      rw [hp] at hp'
      split at hp'
      · contradiction
      · obtain rfl := LoopPoint.handling.inj hp'
        exact htail hs'
    | drains queue fd rest hs' hi hq hp =>
      rw [hp] at hp'
      split at hp'
      · contradiction
      · obtain rfl := LoopPoint.handling.inj hp'
        exact htail hs'
    | responds received fd rest hs' hi hq hp =>
      rw [hp] at hp'
      obtain rfl := LoopPoint.handling.inj hp'
      exact htail hs'
    | quits hs' hi hq hq' hp => simp [hp] at hp'
    | goesOn hs' hi hq hq' hp => simp [hp] at hp'
    | dispatchesPending hs' hi hq hp => simp [hp] at hp'
    | flushes all requests hs' hi hq hp => simp [hp] at hp'
    | enters hs' hi hq hp => simp [hp] at hp'
    | finishes hs' hi hq hp => simp [hp] at hp'
    | closes success hs' hi hq hp hr => simp [hp] at hp'
  cases loopStep_affects hstep with
  | nothing hi hi' hi'' hc hr => exact Or.inr ⟨by rw [hc]; exact hs.keys,hevents⟩
  | dispatches result fd rest hi hs' hfd hc hr => exact Or.inr ⟨by rw [hc]; exact hs.keys,hevents⟩
  | receives queue fd rest hi hs' hfd hsock hc hr =>
    obtain ⟨hkeys,-⟩ := netHandleEpoll_calls hcalls env.maxBuf queue s.client s.dtls
    exact Or.inr ⟨by rw [hc]; exact hs.keys.trans hkeys,hevents⟩
  | responds received fd rest hi hs' hfd hsock hc hr =>
    exact Or.inr ⟨by rw [hc]; exact hs.keys,hevents⟩
  | closes success hi hp => exact Or.inl ⟨success,hp⟩

/-- What the server is given by a step of the loop: the calls of the layer for the datagrams it
handles, or a query on the socket of its event. -/
def LoopState.given (env : LoopEnv δ) (calls : LayerCalls δ) (s : LoopState δ) :
    LoopInput → List ServerEvent
  | .received queue => (netHandleEpollCalls env.dtlsHandleMessage calls env.maxBuf queue s.client
      s.dtls).map .client
  | .query received =>
    match s.point with
    | .handling (fd :: _) => [.query fd received]
    | _ => []
  | _ => []

theorem run_clients (service : Option AdvertiseService) (inputs : List (Session × ClientInput))
    (s : Server) : run (serverStep service) s (inputs.map .client) =
      some { s with issued := s.issued ++ inputs.flatMap fun input => inputRequests input.2 } := by
  induction inputs generalizing s with
  | nil => simp [run]
  | cons input inputs ih =>
    simp only [List.map_cons,run,serverStep,Option.bind_some,ih,List.flatMap_cons,List.append_assoc]

theorem server_step {o : ByteOrder} {dtls : Tinydtls} {env : LoopEnv δ} {client : ClientState}
    {calls : LayerCalls δ} (hcalls : CallsBack o dtls env.dtlsHandleMessage calls)
    {s s' : LoopState δ} {input : LoopInput} (hs : Wired env client s)
    (hstep : loopStep env s input = some s') :
    (∃ success, s'.point = .closed success) ∨
      run (serverStep env.service) s.server (s.given env calls input) = some s'.server := by
  cases loopStep_affects hstep with
  | nothing hi hi' hi'' hc hr =>
    have hnone : s.given env calls input = [] := by
      cases input with
      | received queue => exact absurd rfl (hi queue)
      | query received => exact absurd rfl (hi' received)
      | dispatched result => exact absurd rfl (hi'' result)
      | signal | proceed | flushed | returned => rfl
    exact Or.inr (by simp [hnone,run,LoopState.server,hc,hr])
  | dispatches result fd rest hi hs' hfd hc hr =>
    subst hi
    exact Or.inr (by simp [LoopState.given,run,LoopState.server,hc,hr])
  | receives queue fd rest hi hs' hfd hsock hc hr =>
    obtain ⟨-,hlog⟩ := netHandleEpoll_calls hcalls env.maxBuf queue s.client s.dtls
    subst hi
    rw [LoopState.given,run_clients]
    exact Or.inr (by simp [LoopState.server,hc,hr,hlog])
  | responds received fd rest hi hs' hfd hsock hc hr =>
    subst hi
    have hmem := hs.events _ hs' List.mem_cons_self
    rw [hs.keys.socks] at hsock
    have hslots : fd ∉ client.socks.slots := fun h => by
      rcases (mem_slots h).2 with h | h
      · exact hsock.1 h
      · exact hsock.2 h
    have hown : fd ∈ env.own := by
      rcases List.mem_cons.mp hmem with h | h
      · exact absurd h hfd
      · exact (List.mem_append.mp h).resolve_left hslots
    right
    cases hservice : env.service with
    | none => simp [LoopEnv.own,hservice] at hown
    | some service =>
      rw [hservice] at hr
      simp [LoopState.given,hs',run,serverStep,LoopState.server,hc,hr]
  | closes success hi hp => exact Or.inl ⟨success,hp⟩

theorem closed_step {env : LoopEnv δ} (s : LoopState δ) (input : LoopInput) (s' : LoopState δ)
    (hs : ∃ success, s.point = .closed success) (hstep : loopStep env s input = some s') :
    ∃ success, s'.point = .closed success := by
  obtain ⟨success,hs⟩ := hs
  cases loopStep_moves hstep with
  | signal hi hq hp hr => exact ⟨success,by simpa [hs] using hp⟩
  | quits h | goesOn h | dispatchesPending h | flushes _ _ h | enters h | wakes _ h | finishes h
  | dispatches _ _ _ h | drains _ _ _ h | responds _ _ _ h | closes _ h => simp [hs] at h

/-- Up to the clean-up the loop does what the server does with the inputs, step by step, and
touches neither the sockets nor the key. -/
theorem loop_refines {o : ByteOrder} {dtls : Tinydtls} {env : LoopEnv δ} {calls : LayerCalls δ}
    (hcalls : CallsBack o dtls env.dtlsHandleMessage calls) {s s' : LoopState δ}
    {inputs : List LoopInput} (hs : Wired env s.client s)
    (hreports : Along (loopStep env) (ReportsOf (env.wlFd :: (s.client.socks.slots ++ env.own)))
      s inputs)
    (hrun : run (loopStep env) s inputs = some s') (hend : ¬ ∃ success, s'.point = .closed success) :
    Wired env s.client s' ∧ run (serverStep env.service) s.server
      (outputs (loopStep env) (LoopState.given env calls) s inputs) = some s'.server := by
  refine run_refines closed_step ?_ hs hreports hrun hend
  intro s₁ input s₂ hwired hstep hreports
  rcases wired_step hcalls hwired hstep hreports with hclosed | hwired'
  · exact Or.inl hclosed
  · rcases server_step hcalls hwired hstep with hclosed | hgiven
    · exact Or.inl hclosed
    · exact Or.inr ⟨hwired',hgiven⟩

def MainLocals.announced (m : MainLocals) (responder : ResponderState) : ResponderState :=
  match m.service with
  | none => responder
  | some (_,service) => advertiseAnnounceService service responder

def MainLocals.goodbye (m : MainLocals) (responder : ResponderState) : ResponderState :=
  match m.service with
  | none => responder
  | some (_,service) => advertiseAnnounceGoodbye service responder

/-- A place that the set-up leads to: the service is built for the port of the UDP sockets and is
announced before the loop only, and the epoll set holds what the loop serves. -/
structure Ready (k : MainKernel) (p : Process) (result : MainPoint × MainLocals × Process) : Prop
    where
  port : result.2.1.port = setupParsePort k.argv
  built : ∀ blocks service, result.2.1.service = some (blocks,service) →
    ∃ env, advertiseCreateService env result.2.1.port = some service
  set : result.1 = .loop → result.2.1.set.map EpollEvent.fd =
    result.2.1.display :: (result.2.1.socks.slots ++ result.2.1.serviceSlots)
  responder : result.2.2.responder =
    if result.1 = .loop then result.2.1.announced p.responder else p.responder

theorem Ready.failed {k : MainKernel} {p p' : Process} {m : MainLocals} {point : MainPoint}
    (hport : m.port = setupParsePort k.argv) (hnone : m.service = none) (hpoint : point ≠ .loop)
    (hresponder : p'.responder = p.responder) : Ready k p (point,m,p') :=
  ⟨hport,by simp [hnone],fun h => absurd h hpoint,by simp [hpoint,hresponder]⟩

theorem Sockets.fds_epollIn (socks : Sockets) : socks.epollIn.map EpollEvent.fd = socks.slots := by
  unfold epollIn slots
  rw [List.map_append]
  split <;> split <;> rfl

theorem mainService_ready {k : MainKernel} {p₀ p : Process} {m : MainLocals}
    (hport : m.port = setupParsePort k.argv) (hnone : m.service = none)
    (hset : m.set.map EpollEvent.fd = m.display :: m.socks.slots)
    (hresponder : p.responder = p₀.responder) : Ready k p₀ (mainService k m p) := by
  unfold mainService
  split
  · exact .failed hport hnone (by decide) hresponder
  · have hcreated := ServiceLife.advertiseCreateService_created k.service m.port p.fds p.heap
    generalize ServiceLife.advertiseCreateService k.service m.port p.fds p.heap = made at hcreated
    obtain ⟨made,fds,heap⟩ := made
    cases made with
    | none =>
      refine ⟨hport,by simp [hnone],fun _ => ?_,?_⟩
      · simpa [MainLocals.serviceSlots,hnone] using hset
      · simpa [MainLocals.announced,hnone] using hresponder
    | some made =>
      obtain ⟨blocks,service⟩ := made
      obtain ⟨-,-,-,-,hbuilt⟩ := hcreated
      simp only
      split
      · refine ⟨hport,?_,fun h => absurd h MainPoint.noConfusion,hresponder⟩
        rintro _ _ ⟨⟩
        exact ⟨_,hbuilt⟩
      · rename_i more hmore
        refine ⟨hport,?_,fun _ => ?_,?_⟩
        · rintro _ _ ⟨⟩
          exact ⟨_,hbuilt⟩
        · rw [List.map_append,hset,epollAdd_eq hmore,Sockets.fds_epollIn]
          rfl
        · simp only [hresponder,↓reduceIte,MainLocals.announced]

theorem netSetupEpollFds_set (k : MainKernel) (socks : Sockets) (wlFd : Int)
    (fds : FdTable SocketInfo) :
    let made := netSetupEpollFds k socks wlFd fds
    made.1 = -1 ∨ made.2.1 = ⟨wlFd,EPOLLIN⟩ :: socks.epollIn := by
  unfold netSetupEpollFds
  split
  · exact Or.inl rfl
  · rename_i new _
    have hneg : ¬ new.fd < 0 := by
      have := new.nonneg
      omega
    simp only [netSetupEpoll,hneg,↓reduceIte]
    split
    · rename_i set hset
      exact Or.inr (epollAdd_eq hset)
    · exact Or.inl rfl

theorem mainNetwork_ready {k : MainKernel} {p₀ p : Process} {m : MainLocals}
    (hport : m.port = setupParsePort k.argv) (hnone : m.service = none)
    (hresponder : p.responder = p₀.responder) : Ready k p₀ (mainNetwork k m p) := by
  unfold mainNetwork
  simp only
  split
  · exact .failed hport hnone (by decide) hresponder
  · split
    · exact .failed hport hnone (by decide) hresponder
    · have hset := netSetupEpollFds_set k (netSetupUdpSockets k.udp m.socks m.port p.fds).2.1
        m.display (netSetupUdpSockets k.udp m.socks m.port p.fds).2.2
      simp only at hset
      split
      · exact .failed hport hnone (by decide) hresponder
      · rename_i hpos
        rcases hset with hfail | hset
        · rw [hfail] at hpos
          exact absurd (by decide) hpos
        · refine mainService_ready hport hnone ?_ hresponder
          simp only [hset,List.map_cons,Sockets.fds_epollIn]

theorem mainSetup_ready (k : MainKernel) (p : Process) : Ready k p (mainSetup k p) := by
  unfold mainSetup
  split
  · exact .failed rfl rfl (by decide) rfl
  · split
    · exact .failed rfl rfl (by decide) rfl
    · simp only
      split
      · exact .failed rfl rfl (by decide) rfl
      · exact mainNetwork_ready rfl rfl rfl

variable {o : ByteOrder} {k : MainKernel} {w : LoopWorld δ} {calls : LayerCalls δ}
  {p p₁ : Process} {m : MainLocals}

theorem MainLocals.own_env (m : MainLocals) (k : MainKernel) (w : LoopWorld δ) :
    (m.env k w).own = m.serviceSlots := by
  simp only [LoopEnv.own,MainLocals.env,MainLocals.serviceSlots,Option.map_map]
  rfl

theorem MainLocals.serviceSlots_ne (m : MainLocals) {fd : Int} (h : fd ∈ m.serviceSlots) :
    fd ≠ -1 := by
  unfold serviceSlots at h
  cases hs : m.service with
  | none => simp [hs] at h
  | some made =>
    simp only [hs,Option.map_some,Option.getD_some] at h
    exact (mem_slots h).1

theorem set_nodup (hsetup : mainSetup k p = (.loop,m,p₁)) :
    m.set.map EpollEvent.fd = m.display :: (m.socks.slots ++ m.serviceSlots) ∧
      (m.set.map EpollEvent.fd).Nodup := by
  have hset := (mainSetup_ready k p).set
  have hfds := (mainSetup_setUp k p).fds
  rw [hsetup] at hset hfds
  have hset := hset rfl
  refine ⟨hset,?_⟩
  have hnodup := (List.nodup_append.mp hfds.nodup.1).1
  simp only at hset
  rw [hset]
  refine (List.Perm.nodup_iff ?_).mp hnodup
  refine List.perm_append_comm.trans ?_
  rw [List.append_assoc]
  exact List.perm_middle

def MainLocals.given (m : MainLocals) (k : MainKernel) (w : LoopWorld δ) (calls : LayerCalls δ)
    (p : Process) : List ServerEvent :=
  outputs (loopStep (m.env k w)) (LoopState.given (m.env k w) calls) (m.start w p) w.inputs

/-- The state of the loop after the inputs, where it has been set up so and is not over yet. -/
structure Serves (o : ByteOrder) (k : MainKernel) (w : LoopWorld δ) (calls : LayerCalls δ)
    (p p₁ : Process) (m : MainLocals) (s : LoopState δ) : Prop where
  setup : mainSetup k p = (.loop,m,p₁)
  calls : CallsBack o k.dtls w.dtlsHandleMessage calls
  reports : Along (loopStep (m.env k w)) (ReportsOf (m.set.map EpollEvent.fd)) (m.start w p₁)
    w.inputs
  run : run (loopStep (m.env k w)) (m.start w p₁) w.inputs = some s
  goesOn : ¬ ∃ success, s.point = .closed success

theorem Serves.refines {s : LoopState δ} (h : Serves o k w calls p p₁ m s) :
    Wired (m.env k w) (m.start w p₁).client s ∧
      Runs.run (serverStep (m.service.map Prod.snd)) ⟨[],m.announced p.responder⟩
        (m.given k w calls p₁) = some s.server := by
  obtain ⟨hset,-⟩ := set_nodup h.setup
  have hresponder := (mainSetup_ready k p).responder
  simp only [h.setup,↓reduceIte] at hresponder
  have hwired : Wired (m.env k w) (m.start w p₁).client (m.start w p₁) :=
    ⟨.refl _,by simp [MainLocals.start]⟩
  have hreports := h.reports
  rw [hset,← m.own_env k w] at hreports
  have hrefines := loop_refines h.calls hwired hreports h.run h.goesOn
  have hstart : (m.start w p₁).server = ⟨[],m.announced p.responder⟩ := by
    rw [← hresponder]
    rfl
  rw [hstart] at hrefines
  exact hrefines

/-- Whatever arrives in whatever order, the requests to the compositor and the answers on the
network are at any time those of a server that takes, one by one, the calls the layer has made
and the queries on the sockets they came by; the sockets and the key stay what the set-up made
them. -/
theorem main_refines_server {s : LoopState δ} (h : Serves o k w calls p p₁ m s) :
    SameKeys ⟨[],m.socks,m.pskKey,m.pskKeyLen,[]⟩ s.client ∧
      Runs.run (serverStep (m.service.map Prod.snd)) ⟨[],m.announced p.responder⟩
        (m.given k w calls p₁) = some s.server := by
  obtain ⟨hwired,hserver⟩ := h.refines
  exact ⟨hwired.keys,hserver⟩

theorem mem_set_owner (hsetup : mainSetup k p = (.loop,m,p₁)) {fd : Int}
    (h : fd ∈ m.set.map EpollEvent.fd) :
    (fd = m.display ∧ fd ∉ m.socks.slots ∧ fd ∉ m.serviceSlots) ∨
      (fd ≠ m.display ∧ fd ∈ m.socks.slots ∧ fd ∉ m.serviceSlots) ∨
        (fd ≠ m.display ∧ fd ∉ m.socks.slots ∧ fd ∈ m.serviceSlots) := by
  obtain ⟨hset,hnodup⟩ := set_nodup hsetup
  rw [hset] at h hnodup
  rw [List.nodup_cons,List.nodup_append] at hnodup
  obtain ⟨hdisplay,-,-,hdisjoint⟩ := hnodup
  rw [List.mem_append,not_or] at hdisplay
  rcases List.mem_cons.mp h with rfl | h
  · exact Or.inl ⟨rfl,hdisplay⟩
  · rcases List.mem_append.mp h with hslot | hown
    · exact Or.inr (Or.inl ⟨fun heq => hdisplay.1 (heq ▸ hslot),hslot,
        fun hown => hdisjoint fd hslot fd hown rfl⟩)
    · exact Or.inr (Or.inr ⟨fun heq => hdisplay.2 (heq ▸ hown),
        fun hslot => hdisjoint fd hslot fd hown rfl,hown⟩)

/-- The epoll set holds the descriptors of the compositor, of the UDP sockets and of the service.
An event is on one of them and has one owner, and the handler of that owner is the one to run. -/
theorem events_reach_owner {s : LoopState δ} (h : Serves o k w calls p p₁ m s) {fd : Int}
    {events : List Int} (hs : s.point = .handling (fd :: events)) :
    m.set.map EpollEvent.fd = m.display :: (m.socks.slots ++ m.serviceSlots) ∧
      fd ∈ m.set.map EpollEvent.fd ∧ (m.set.map EpollEvent.fd).Nodup ∧
      ((fd = m.display ∧ fd ∉ m.socks.slots ∧ fd ∉ m.serviceSlots) ∨
        (fd ≠ m.display ∧ fd ∈ m.socks.slots ∧ fd ∉ m.serviceSlots) ∨
          (fd ≠ m.display ∧ fd ∉ m.socks.slots ∧ fd ∈ m.serviceSlots)) ∧
      (∀ result, (loopStep (m.env k w) s (.dispatched result)).isSome ↔ fd = m.display) ∧
      (∀ queue, (loopStep (m.env k w) s (.received queue)).isSome ↔ fd ∈ m.socks.slots) ∧
      ∀ received, (loopStep (m.env k w) s (.query received)).isSome ↔ fd ∈ m.serviceSlots := by
  obtain ⟨hset,hnodup⟩ := set_nodup h.setup
  obtain ⟨hwired,-⟩ := h.refines
  have hmem : fd ∈ m.set.map EpollEvent.fd := by
    rw [hset,← m.own_env k w]
    exact hwired.events _ hs List.mem_cons_self
  have howner := mem_set_owner h.setup hmem
  have hsocks : s.client.socks = m.socks := hwired.keys.socks
  have hdispatched (result : Int) :
      (loopStep (m.env k w) s (.dispatched result)).isSome ↔ fd = m.display := by
    by_cases hfd : fd = m.display <;> simp [loopStep,hs,LoopState.handleEvent,MainLocals.env,hfd]
  have hreceived (queue : List Recvfrom) : (loopStep (m.env k w) s (.received queue)).isSome ↔
      fd ≠ m.display ∧ (fd = m.socks.v4 ∨ fd = m.socks.v6) := by
    by_cases hfd : fd ≠ m.display ∧ (fd = m.socks.v4 ∨ fd = m.socks.v6) <;>
      simp [loopStep,hs,LoopState.handleEvent,hsocks,MainLocals.env,hfd]
  have hquery (received : Option (Sockaddr × Bytes)) :
      (loopStep (m.env k w) s (.query received)).isSome ↔
        fd ≠ m.display ∧ fd ≠ m.socks.v4 ∧ fd ≠ m.socks.v6 := by
    by_cases hfd : fd ≠ m.display ∧ fd ≠ m.socks.v4 ∧ fd ≠ m.socks.v6
    · cases hservice : m.service <;>
        simp [loopStep,hs,LoopState.handleEvent,hsocks,MainLocals.env,hfd,hservice]
    · simp [loopStep,hs,LoopState.handleEvent,hsocks,MainLocals.env,hfd]
  refine ⟨hset,hmem,hnodup,howner,hdispatched,?_⟩
  simp only [hreceived,hquery]
  rcases howner with ⟨rfl,hslot,hown⟩ | ⟨hfd,hslot,hown⟩ | ⟨hfd,hslot,hown⟩
  · simp [hslot,hown]
  · obtain ⟨-,hv⟩ := mem_slots hslot
    have hother : ¬ (fd ≠ m.display ∧ fd ≠ m.socks.v4 ∧ fd ≠ m.socks.v6) :=
      fun hq => hv.elim hq.2.1 hq.2.2
    exact ⟨fun _ => iff_of_true ⟨hfd,hv⟩ hslot,fun _ => iff_of_false hother hown⟩
  · have hv := mt (mem_slots_iff (m.serviceSlots_ne hown)).mpr hslot
    rw [not_or] at hv
    exact ⟨fun _ => iff_of_false (fun hq => hq.2.elim hv.1 hv.2) hslot,
      fun _ => iff_of_true ⟨hfd,hv⟩ hown⟩

structure QuitInv (s : LoopState δ) : Prop where
  leaving : s.point = .leaving true → s.quit = true

theorem quitInv_step {env : LoopEnv δ} (s : LoopState δ) (input : LoopInput) (s' : LoopState δ)
    (_ : QuitInv s) (hstep : loopStep env s input = some s') : QuitInv s' := by
  refine ⟨fun hleaving => ?_⟩
  cases loopStep_moves hstep with
  | signal hi hq hp hr => exact hq
  | quits hs' hi hq hq' hp => exact hq'
  | goesOn hs' hi hq hq' hp => simp [hp] at hleaving
  | dispatchesPending hs' hi hq hp => simp [hp] at hleaving
  | flushes all requests hs' hi hq hp => simp [hp] at hleaving
  | enters hs' hi hq hp => simp [hp] at hleaving
  | wakes result hs' hi hq hp =>
    rw [hp] at hleaving
    cases result <;> simp at hleaving
  | finishes hs' hi hq hp => simp [hp] at hleaving
  | dispatches result fd events hs' hi hq hp =>
    rw [hp] at hleaving
    split at hleaving <;> simp at hleaving
  | drains queue fd events hs' hi hq hp =>
    rw [hp] at hleaving
    split at hleaving <;> simp at hleaving
  | responds received fd events hs' hi hq hp => simp [hp] at hleaving
  | closes success hs' hi hq hp hr => simp [hp] at hleaving

theorem quit_run {env : LoopEnv δ} {s s' : LoopState δ} {inputs : List LoopInput}
    (hrun : run (loopStep env) s inputs = some s') (hquit : s'.quit = true) :
    s.quit = true ∨ .signal ∈ inputs := by
  induction inputs generalizing s with
  | nil =>
    obtain rfl := Option.some.inj hrun
    exact Or.inl hquit
  | cons input inputs ih =>
    obtain ⟨s₁,hstep,hrun⟩ := Option.bind_eq_some_iff.mp hrun
    rcases ih hrun with h | h
    · cases loopStep_moves hstep with
      | signal hi hq hp hr => exact Or.inr (hi ▸ List.mem_cons_self)
      | quits _ _ hq | goesOn _ _ hq | dispatchesPending _ _ hq | flushes _ _ _ _ hq
      | enters _ _ hq | wakes _ _ _ hq | finishes _ _ hq | dispatches _ _ _ _ _ hq
      | drains _ _ _ _ _ hq | responds _ _ _ _ _ hq | closes _ _ _ hq => simp_all
    · exact Or.inr (List.mem_cons_of_mem input h)

theorem errFreeAll_responder (m : MainLocals) (p : Process) :
    (errFreeAll m p).responder = m.goodbye p.responder := by
  unfold errFreeAll MainLocals.goodbye
  cases m.service with
  | none => rfl
  | some made => rfl

/-- What `main` says in its life: the announcement, the answers to the queries in their order,
and the goodbye. Without a complete epoll set it says only goodbye, and it succeeds only where
a signal ended the loop. -/
theorem main_speaks {o : ByteOrder} {k : MainKernel} {w : LoopWorld δ} {calls : LayerCalls δ}
    {p p' : Process} {success : Bool} (h : main k w p = some (success,p'))
    (hcalls : CallsBack o k.dtls w.dtlsHandleMessage calls)
    (hreports : ∀ m p₁, mainSetup k p = (.loop,m,p₁) → Along (loopStep (m.env k w))
      (ReportsOf (m.set.map EpollEvent.fd)) (m.start w p₁) w.inputs) :
    match mainSetup k p with
    | (.loop,m,p₁) => (success = true → w.quit = true ∨ .signal ∈ w.inputs) ∧
        ∃ server, Runs.run (serverStep (m.service.map Prod.snd)) ⟨[],m.announced p.responder⟩
            (m.given k w calls p₁) = some server ∧
          p'.responder = m.goodbye server.responder
    | (.errFreeAll,m,_) => success = false ∧ p'.responder = m.goodbye p.responder
    | _ => success = false ∧ p'.responder = p.responder := by
  have hready := (mainSetup_ready k p).responder
  unfold main at h
  generalize hsetup : mainSetup k p = result at *
  obtain ⟨point,m,p₁⟩ := result
  simp only at hready h ⊢
  cases point with
  | exit | errFreeRegistry | errFreeVirtualPointer =>
    obtain ⟨rfl,rfl⟩ := Prod.mk.inj (Option.some.inj h)
    exact ⟨rfl,hready⟩
  | errFreeAll =>
    obtain ⟨rfl,rfl⟩ := Prod.mk.inj (Option.some.inj h)
    refine ⟨rfl,?_⟩
    rw [errFreeAll_responder]
    exact congrArg _ hready
  | loop =>
    obtain ⟨s,hrun,hs⟩ := Option.bind_eq_some_iff.mp h
    split at hs
    · rename_i b hpoint
      obtain ⟨rfl,rfl⟩ := Prod.mk.inj (Option.some.inj hs)
      have hserves : Serves o k w calls p p₁ m s :=
        ⟨hsetup,hcalls,hreports m p₁ rfl,hrun,by simp [hpoint]⟩
      obtain ⟨-,hserver⟩ := hserves.refines
      refine ⟨?_,s.server,hserver,errFreeAll_responder m _⟩
      rintro rfl
      have hinv : QuitInv (m.start w p₁) := ⟨by simp [MainLocals.start]⟩
      exact quit_run hrun ((run_inv quitInv_step hinv hrun).leaving hpoint)
    · contradiction

end Refinement

theorem along_reports {δ : Type} {env : LoopEnv δ} {fds : List Int} {inputs : List LoopInput}
    (h : ∀ input ∈ inputs, ∀ events, input = .returned (.ready events) → events ⊆ fds)
    (s : LoopState δ) : Along (loopStep env) (ReportsOf fds) s inputs := by
  induction inputs generalizing s with
  | nil => trivial
  | cons input inputs ih =>
    intro s' hstep
    exact ⟨h input List.mem_cons_self,ih (fun i hi => h i (List.mem_cons_of_mem _ hi)) s'⟩

def LoopWorld.click : LoopWorld Unit where
  dtlsHandleMessage := plainEnv.dtlsHandleMessage
  dtls := ()
  quit := false
  inputs := [.proceed,.proceed,.flushed true 0,.proceed,.returned (.ready [5,7,3]),
    .received (queueOf [(⟨.other⟩,testClientPacket .little 10 0 BTN_LEFT 1)])]
  globals := []

def plainCalls : LayerCalls Unit := fun _ bytes _ _ => [.packet bytes]

theorem plainEnv_callsBack :
    CallsBack .little .sample plainEnv.dtlsHandleMessage plainCalls := fun _ _ _ _ => rfl

theorem serves_click : ∃ m p₁ s, Serves .little (.sample true) .click plainCalls .start p₁ m s ∧
    s.point = .handling [7,3] ∧ s.client.virtualPointer =
      [.button 0 272 1,.motion 0 2560 0,.frame] := by
  have hpoint : (mainSetup (.sample true) .start).1 = .loop := by decide +kernel
  have hset : (mainSetup (.sample true) .start).2.1.set.map EpollEvent.fd = [3,5,4,7] := by
    decide +kernel
  have hrun : (run (loopStep ((mainSetup (.sample true) .start).2.1.env (.sample true) .click))
      ((mainSetup (.sample true) .start).2.1.start .click (mainSetup (.sample true) .start).2.2)
      LoopWorld.click.inputs).map (fun s => (s.point,s.client.virtualPointer)) =
        some (.handling [7,3],[.button 0 272 1,.motion 0 2560 0,.frame]) := by decide +kernel
  generalize hsetup : mainSetup (.sample true) .start = result at *
  obtain ⟨point,m,p₁⟩ := result
  obtain rfl : point = .loop := hpoint
  obtain ⟨s,hs,heq⟩ := Option.map_eq_some_iff.mp hrun
  obtain ⟨hhandling,hlog⟩ := Prod.mk.inj heq
  refine ⟨m,p₁,s,⟨hsetup,plainEnv_callsBack,along_reports ?_ _,hs,by simp [hhandling]⟩,hhandling,hlog⟩
  rw [hset]
  simp [LoopWorld.click]

theorem main_refines_server_click : ∃ m p₁ s,
    Serves .little (.sample true) .click plainCalls .start p₁ m s ∧ s.client.socks = m.socks ∧
      ∃ responder, Runs.run (serverStep (m.service.map Prod.snd))
        ⟨[],m.announced Process.start.responder⟩ (m.given (.sample true) .click plainCalls p₁) =
          some ⟨[.button 0 272 1,.motion 0 2560 0,.frame],responder⟩ := by
  obtain ⟨m,p₁,s,hserves,-,hlog⟩ := serves_click
  obtain ⟨hkeys,hserver⟩ := main_refines_server hserves
  refine ⟨m,p₁,s,hserves,hkeys.socks,s.responder,?_⟩
  rw [hserver,LoopState.server,hlog]

theorem events_reach_owner_click : ∃ m p₁ s,
    Serves .little (.sample true) .click plainCalls .start p₁ m s ∧ s.point = .handling [7,3] ∧
      ((loopStep (m.env (.sample true) .click) s (.query none)).isSome ↔ 7 ∈ m.serviceSlots) := by
  obtain ⟨m,p₁,s,hserves,hhandling,-⟩ := serves_click
  exact ⟨m,p₁,s,hserves,hhandling,(events_reach_owner hserves hhandling).2.2.2.2.2.2 none⟩

def LoopWorld.queried : LoopWorld Unit where
  dtlsHandleMessage := plainEnv.dtlsHandleMessage
  dtls := ()
  quit := false
  inputs := [.proceed,.proceed,.flushed true 0,.proceed,.returned (.ready [7]),
    .query (some (.other,serviceQuery.bytes)),.signal,.proceed,.proceed]
  globals := []

theorem main_speaks_queried : ∃ m p₁ p', mainSetup (.sample true) .start = (.loop,m,p₁) ∧
    main (.sample true) .queried .start = some (true,p') ∧ p'.responder.sent.length = 3 ∧
    ∃ server, Runs.run (serverStep (m.service.map Prod.snd))
        ⟨[],m.announced Process.start.responder⟩ (m.given (.sample true) .queried plainCalls p₁) =
          some server ∧
      p'.responder = m.goodbye server.responder := by
  have hresult : (main (.sample true) .queried .start).map
      (fun result => (result.1,result.2.responder.sent.length)) = some (true,3) := by
    decide +kernel
  have hsetup : (mainSetup (.sample true) .start).1 = .loop ∧
      (mainSetup (.sample true) .start).2.1.set.map EpollEvent.fd = [3,5,4,7] := by decide +kernel
  obtain ⟨⟨success,p'⟩,hmain,heq⟩ := Option.map_eq_some_iff.mp hresult
  obtain ⟨rfl,hsent⟩ := Prod.mk.inj heq
  have hreports (m : MainLocals) (p₁ : Process)
      (h : mainSetup (.sample true) .start = (.loop,m,p₁)) :
      Along (loopStep (m.env (.sample true) .queried)) (ReportsOf (m.set.map EpollEvent.fd))
        (m.start .queried p₁) LoopWorld.queried.inputs := by
    rw [h] at hsetup
    refine along_reports ?_ _
    rw [hsetup.2]
    simp [LoopWorld.queried]
  have hspeaks := main_speaks hmain plainEnv_callsBack hreports
  generalize mainSetup (.sample true) .start = result at *
  obtain ⟨point,m,p₁⟩ := result
  obtain rfl : point = .loop := hsetup.1
  exact ⟨m,p₁,p',rfl,hmain,hsent,hspeaks.2⟩

end WlrRemote
