import WlrRemote.TestClientMain
import WlrRemote.Displacement
import WlrRemote.MainServes
import WlrRemote.Password

/-!
A whole run of the test client, and what it and the server make of each other: the keys, and
the way of the pointer.
-/

set_option autoImplicit false

namespace WlrRemote
open Octets Descriptors

section Calls

variable {δ : Type} (k : TestClientKernel)

/-- The DTLS layer acts on the client by its callbacks alone. -/
structure ClientDtls.CallsBack (d : ClientDtls δ) : Prop where
  connect : ∀ fd session client layer, ∃ calls,
    (d.connect fd session client layer).2.1 = testClientHandleAll k fd calls client
  handleMessage : ∀ fd session buf client layer, ∃ calls,
    (d.handleMessage fd session buf client layer).2.1 = testClientHandleAll k fd calls client
  write : ∀ fd session pkt client layer, ∃ calls,
    (d.write fd session pkt client layer).2.1 = testClientHandleAll k fd calls client
  freeContext : ∀ fd client layer, ∃ calls,
    (d.freeContext fd client layer).1 = testClientHandleAll k fd calls client

def TestClientCall.connected : TestClientCall → Bool
  | .event level code => level = 0 ∧ code = k.dtls.eventConnected
  | _ => false

def TestClientCall.datagram (fd : Int) : TestClientCall → Option (Int × Session × Bytes)
  | .write session buf => some (fd,session,buf)
  | _ => none

/-- What the calls of the layer come to: the keys stay, and the flag tells of the one event. -/
structure Called (fd : Int) (client : TestClient) (calls : List TestClientCall)
    (client' : TestClient) : Prop where
  keys : client'.pskKey = client.pskKey ∧ client'.pskKeyLen = client.pskKeyLen
  flag : client'.isConnected = (client.isConnected || calls.any (TestClientCall.connected k))
  sent : client'.sent = client.sent ++ calls.filterMap (TestClientCall.datagram fd)

variable {k} {fd : Int}

theorem testClientHandle_called (client : TestClient) (call : TestClientCall) :
    Called k fd client [call] (testClientHandle k fd client call) := by
  cases call with
  | write session buf => exact ⟨⟨rfl,rfl⟩,by simp [testClientHandle,testClientHandleSend,
      TestClientCall.connected],rfl⟩
  | read session data => exact ⟨⟨rfl,rfl⟩,by simp [testClientHandle,testClientHandleReceive,
      TestClientCall.connected],by simp [testClientHandle,testClientHandleReceive,
      TestClientCall.datagram]⟩
  | event level code =>
    have heq : testClientHandle k fd client (.event level code) =
      (testClientHandleEvent k level code client).2 := rfl
    rw [heq,testClientHandleEvent]
    by_cases h : level = 0 ∧ code = k.dtls.eventConnected
    · rw [if_pos h]
      exact ⟨⟨rfl,rfl⟩,by simp [TestClientCall.connected,h],by simp [TestClientCall.datagram]⟩
    · rw [if_neg h]
      exact ⟨⟨rfl,rfl⟩,by simp [TestClientCall.connected,h],by simp [TestClientCall.datagram]⟩
  | getPskInfo type resultLength => exact ⟨⟨rfl,rfl⟩,by simp [testClientHandle,
      TestClientCall.connected],by simp [testClientHandle,TestClientCall.datagram]⟩

theorem Called.trans {client₀ client₁ client₂ : TestClient} {calls calls' : List TestClientCall}
    (h : Called k fd client₀ calls client₁) (h' : Called k fd client₁ calls' client₂) :
    Called k fd client₀ (calls ++ calls') client₂ where
  keys := ⟨h'.keys.1.trans h.keys.1,h'.keys.2.trans h.keys.2⟩
  flag := by rw [h'.flag,h.flag,List.any_append,Bool.or_assoc]
  sent := by rw [h'.sent,h.sent,List.filterMap_append,List.append_assoc]

theorem testClientHandleAll_called (client : TestClient) (calls : List TestClientCall) :
    Called k fd client calls (testClientHandleAll k fd calls client) := by
  induction calls generalizing client with
  | nil => exact ⟨⟨rfl,rfl⟩,by simp [testClientHandleAll],by simp [testClientHandleAll]⟩
  | cons call calls ih => exact (testClientHandle_called client call).trans (ih _)

theorem testClientHandleAll_append (client : TestClient) (calls calls' : List TestClientCall) :
    testClientHandleAll k fd (calls ++ calls') client =
      testClientHandleAll k fd calls' (testClientHandleAll k fd calls client) :=
  List.foldl_append

end Calls

section Run

variable {δ : Type} {d : ClientDtls δ} {k : TestClientKernel} {fd : Int}

theorem testClientHandshake_called (hcalls : d.CallsBack k) {maxBuf : Nat}
    {selects : List Selected} {client client' : TestClient} {layer layer' : δ}
    (h : testClientHandshake d fd maxBuf selects client layer = some (client',layer')) :
    (∃ calls, client' = testClientHandleAll k fd calls client) ∧
      (client'.isConnected = true ∨ Selected.failed ∈ selects ∨ Selected.timeout ∈ selects) := by
  induction selects generalizing client layer with
  | nil =>
    rw [testClientHandshake] at h
    split at h
    · rename_i hflag
      obtain ⟨rfl,-⟩ := Prod.mk.inj (Option.some.inj h)
      exact ⟨⟨[],rfl⟩,Or.inl hflag⟩
    · contradiction
  | cons selected selects ih =>
    have hmore {client₁ : TestClient} {layer₁ : δ} (calls : List TestClientCall)
        (hcall : client₁ = testClientHandleAll k fd calls client)
        (hrest : testClientHandshake d fd maxBuf selects client₁ layer₁ = some (client',layer')) :
        (∃ calls, client' = testClientHandleAll k fd calls client) ∧
          (client'.isConnected = true ∨ Selected.failed ∈ selected :: selects ∨
            Selected.timeout ∈ selected :: selects) := by
      obtain ⟨⟨calls',hcall'⟩,hend⟩ := ih hrest
      refine ⟨⟨calls ++ calls',by rw [testClientHandleAll_append,← hcall,hcall']⟩,?_⟩
      exact hend.imp_right (Or.imp (List.mem_cons_of_mem _) (List.mem_cons_of_mem _))
    unfold testClientHandshake at h
    split at h
    · rename_i hflag
      obtain ⟨rfl,-⟩ := Prod.mk.inj (Option.some.inj h)
      exact ⟨⟨[],rfl⟩,Or.inl hflag⟩
    · cases selected with
      | failed =>
        obtain ⟨rfl,-⟩ := Prod.mk.inj (Option.some.inj h)
        exact ⟨⟨[],rfl⟩,by simp⟩
      | timeout =>
        obtain ⟨rfl,-⟩ := Prod.mk.inj (Option.some.inj h)
        exact ⟨⟨[],rfl⟩,by simp⟩
      | ready received =>
        cases received with
        | none => exact hmore [] rfl h
        | some received =>
          obtain ⟨session,datagram⟩ := received
          simp only at h
          split at h
          · obtain ⟨calls,hcall⟩ := hcalls.handleMessage fd session (datagram.take maxBuf) client
              layer
            exact hmore calls hcall h
          · exact hmore [] rfl h

variable (fd) in
theorem testClientSend_called (hcalls : d.CallsBack k) (session : Session) (pkt : Bytes) (n : Nat)
    (client : TestClient) (layer : δ) :
    let out := testClientSend d fd session pkt n client layer
    out.1.map Prod.fst = List.replicate n pkt ∧
      ∃ calls, out.2.1 = testClientHandleAll k fd calls client := by
  induction n generalizing client layer with
  | zero => exact ⟨rfl,[],rfl⟩
  | succ n ih =>
    obtain ⟨calls,hcall⟩ := hcalls.write fd session pkt client layer
    obtain ⟨hwritten,calls',hcall'⟩ := ih (d.write fd session pkt client layer).2.1
      (d.write fd session pkt client layer).2.2
    refine ⟨?_,calls ++ calls',?_⟩
    · rw [testClientSend,List.map_cons,hwritten,List.replicate_succ]
    · rw [testClientSend,testClientHandleAll_append,← hcall]
      exact hcall'

theorem Called.connected {client client' : TestClient} {calls : List TestClientCall}
    (h : Called k fd client calls client') (hflag : client.isConnected = true) :
    client'.isConnected = true := by
  rw [h.flag,hflag,Bool.true_or]

theorem testClientTalk_called (hcalls : d.CallsBack k) {o : ByteOrder} {maxBuf : Nat}
    {session : Session} {selects : List Selected} {client : TestClient} {layer : δ}
    {out : List (Bytes × Int) × TestClient × δ}
    (h : testClientTalk d fd o maxBuf session selects client layer = some out) :
    (∃ calls, out.2.1 = testClientHandleAll k fd calls client) ∧
      (out.1 = [] ∨ out.2.1.isConnected = true ∧
        out.1.map Prod.fst = List.replicate ITERATIONS (testClientPacket o 10 10 0 0)) ∧
      (out.2.1.isConnected = true ∨ Selected.failed ∈ selects ∨ Selected.timeout ∈ selects ∨
        ∀ selects', testClientTalk d fd o maxBuf session selects' client layer = some out) := by
  obtain ⟨calls,hcall⟩ := hcalls.connect fd session client layer
  unfold testClientTalk at h ⊢
  simp only at h ⊢
  split at h
  · rename_i hneg
    obtain rfl := Option.some.inj h
    exact ⟨⟨calls,hcall⟩,Or.inl rfl,by simp [hneg]⟩
  · obtain ⟨⟨client₁,layer₁⟩,hshake,rfl⟩ := Option.map_eq_some_iff.mp h
    obtain ⟨⟨calls',hcall'⟩,hend⟩ := testClientHandshake_called hcalls hshake
    have hall : client₁ = testClientHandleAll k fd (calls ++ calls') client := by
      rw [testClientHandleAll_append,← hcall,hcall']
    simp only
    split
    · rename_i hflag
      obtain ⟨hwritten,calls'',hcall''⟩ := testClientSend_called fd hcalls session
        (testClientPacket o 10 10 0 0) ITERATIONS client₁ layer₁
      have hconnected : (testClientSend d fd session (testClientPacket o 10 10 0 0) ITERATIONS
          client₁ layer₁).2.1.isConnected = true := by
        rw [hcall'']
        exact (testClientHandleAll_called client₁ calls'').connected hflag
      refine ⟨⟨calls ++ calls' ++ calls'',?_⟩,Or.inr ⟨hconnected,hwritten⟩,Or.inl hconnected⟩
      rw [testClientHandleAll_append,← hall,hcall'']
    · rename_i hflag
      refine ⟨⟨_,hall⟩,Or.inl rfl,Or.inr ?_⟩
      rcases hend with hconnected | hfailed | htimeout
      · exact absurd hconnected hflag
      · exact Or.inl hfailed
      · exact Or.inr (Or.inl htimeout)

def TestClientKernel.client (k : TestClientKernel) : TestClient :=
  match testClientPassword k.dtls k.stdin with
  | none => ⟨[],0,false,[],[]⟩
  | some (pskKey,pskKeyLen) => ⟨pskKey,pskKeyLen,false,[],[]⟩

theorem TestClientKernel.client_some {pskKey : Bytes} {pskKeyLen : Nat}
    (h : testClientPassword k.dtls k.stdin = some (pskKey,pskKeyLen)) :
    k.client = ⟨pskKey,pskKeyLen,false,[],[]⟩ := by
  rw [client,h]

theorem testClientMain_called (hcalls : d.CallsBack k) {o : ByteOrder} {selects : List Selected}
    {layer : δ} {fds : FdTable SocketInfo} {r : TestClientExit}
    (h : testClientMain d o k layer selects fds = some r) :
    fds.Acquired [] r.fds ∧ r.success = r.client.isConnected ∧
      (∃ fd calls, r.client = testClientHandleAll k fd calls k.client) ∧
      (r.written = [] ∨ r.success = true ∧
        r.written.map Prod.fst = List.replicate ITERATIONS (testClientPacket o 10 10 0 0)) ∧
      (r.success = true ∨ Selected.failed ∈ selects ∨ Selected.timeout ∈ selects ∨
        ∀ selects', testClientMain d o k layer selects' fds = some r) := by
  unfold testClientMain at h ⊢
  cases hpassword : testClientPassword k.dtls k.stdin with
  | none =>
    have hstart : k.client = ⟨[],0,false,[],[]⟩ := by rw [TestClientKernel.client,hpassword]
    rw [hpassword] at h
    obtain rfl := Option.some.inj h
    exact ⟨.refl fds,rfl,⟨-1,[],hstart.symm⟩,Or.inl rfl,by simp⟩
  | some password =>
    obtain ⟨pskKey,pskKeyLen⟩ := password
    have hstart := TestClientKernel.client_some hpassword
    rw [hpassword] at h
    simp only at h ⊢
    cases haddr : k.getaddrinfo SERVER_IP SERVER_PORT_STR
        ⟨0,AF_UNSPEC,SOCK_DGRAM,IPPROTO_UDP,none⟩ with
    | none =>
      rw [haddr] at h
      obtain rfl := Option.some.inj h
      exact ⟨.refl fds,rfl,⟨-1,[],hstart.symm⟩,Or.inl rfl,by simp⟩
    | some found =>
      obtain ⟨head,addr⟩ := found
      rw [haddr] at h
      simp only at h ⊢
      cases hsocket : k.socket head fds with
      | none =>
        rw [hsocket] at h
        obtain rfl := Option.some.inj h
        exact ⟨.refl fds,rfl,⟨-1,[],hstart.symm⟩,Or.inl rfl,by simp⟩
      | some new =>
        rw [hsocket] at h
        have hopened : fds.Acquired [new.fd] (fds.openFd new ⟨head.aiFamily,false,false⟩) :=
          (FdTable.Acquired.refl fds).addedTo (FdTable.addedTo_openFd fds new _)
        simp only at h ⊢
        split at h
        · rename_i hcontext
          obtain rfl := Option.some.inj h
          exact ⟨hopened.closeFd,rfl,⟨-1,[],hstart.symm⟩,Or.inl rfl,by simp [hcontext]⟩
        · rename_i hcontext
          obtain ⟨⟨written,client,layer₁⟩,htalk,rfl⟩ := Option.map_eq_some_iff.mp h
          obtain ⟨⟨calls,hcall⟩,hwritten,hend⟩ := testClientTalk_called hcalls htalk
          obtain ⟨calls',hcall'⟩ := hcalls.freeContext new.fd client layer₁
          have hmono : client.isConnected = true →
              (d.freeContext new.fd client layer₁).1.isConnected = true := by
            intro hflag
            rw [hcall']
            exact (testClientHandleAll_called client calls').connected hflag
          refine ⟨hopened.closeFd,rfl,⟨new.fd,calls ++ calls',?_⟩,?_,?_⟩
          · rw [testClientHandleAll_append,hstart,← hcall]
            exact hcall'
          · exact hwritten.imp_right (And.imp_left hmono)
          · rcases hend with hflag | hfailed | htimeout | hnever
            · exact Or.inl (hmono hflag)
            · exact Or.inr (Or.inl hfailed)
            · exact Or.inr (Or.inr (Or.inl htimeout))
            · exact Or.inr (Or.inr (Or.inr fun selects' => by
                rw [if_neg hcontext,hnever selects']
                rfl))

end Run

/-- A key or an identity that the DTLS layer is given, unless it is given an alert. -/
def answered (answer : Int × Bytes) : Option Bytes := if answer.1 < 0 then none else some answer.2

section Keys

variable {δ : Type}

theorem mainNetwork_keys (k : MainKernel) (m : MainLocals) (p : Process) :
    (mainNetwork k m p).2.1.pskKey = m.pskKey ∧ (mainNetwork k m p).2.1.pskKeyLen = m.pskKeyLen := by
  have hservice (m : MainLocals) (p : Process) : (mainService k m p).2.1.pskKey = m.pskKey ∧
      (mainService k m p).2.1.pskKeyLen = m.pskKeyLen := by
    unfold mainService
    split
    · exact ⟨rfl,rfl⟩
    · split
      · exact ⟨rfl,rfl⟩
      · simp only
        split <;> exact ⟨rfl,rfl⟩
  unfold mainNetwork
  simp only
  split
  · exact ⟨rfl,rfl⟩
  · split
    · exact ⟨rfl,rfl⟩
    · split
      · exact ⟨rfl,rfl⟩
      · exact hservice _ _

theorem mainSetup_password {k : MainKernel} {p p₁ : Process} {m : MainLocals}
    (h : mainSetup k p = (.loop,m,p₁)) :
    setupPassword k.dtls k.stdin = .ok (m.pskKey,m.pskKeyLen) := by
  unfold mainSetup at h
  simp only at h
  split at h
  · exact absurd (congrArg Prod.fst h) (by simp)
  · rename_i pskKey pskKeyLen hpassword
    rw [hpassword]
    split at h
    · exact absurd (congrArg Prod.fst h) (by simp)
    · split at h
      · exact absurd (congrArg Prod.fst h) (by simp)
      · obtain ⟨hkey,hlen⟩ := mainNetwork_keys k _ _
        rw [h] at hkey hlen
        simp only at hkey hlen
        rw [hkey,hlen]

theorem Serves.answered_key {o : ByteOrder} {k : MainKernel} {w : LoopWorld δ}
    {calls : LayerCalls δ} {p p₁ : Process} {m : MainLocals} {s : LoopState δ}
    (h : Serves o k w calls p p₁ m s) :
    answered (netGetPskInfo k.dtls s.client .pskKey PSK_ID k.dtls.pskMaxKeyLen) =
      some (kept k.dtls.pskMaxKeyLen (firstLine k.stdin)) := by
  have hpassword := mainSetup_password h.setup
  have hkeys := h.refines.1.keys
  have hsame : { s.client with pskKey := m.pskKey, pskKeyLen := m.pskKeyLen } = s.client := by
    have hkey : s.client.pskKey = m.pskKey := hkeys.pskKey
    have hlen : s.client.pskKeyLen = m.pskKeyLen := hkeys.pskKeyLen
    rw [← hkey,← hlen]
  have hkey := serverKey_eq k.dtls s.client k.stdin (by rw [hpassword]; rfl)
  rw [serverKey,hpassword] at hkey
  simp only [hsame] at hkey
  exact hkey

theorem TestClientKernel.answered_key (k : TestClientKernel)
    (halert : k.dtls.alertFatalCreate k.dtls.alertInternalError < 0) {fd : Int}
    {calls : List TestClientCall} {client : TestClient}
    (h : Called k fd k.client calls client) :
    answered (testClientGetPskInfo k.dtls client.pskKey client.pskKeyLen .pskKey
        k.dtls.pskMaxKeyLen) =
      if k.dtls.pskMaxKeyLen < (kept k.dtls.pskMaxKeyLen (firstLine k.stdin)).length then none
      else some (kept k.dtls.pskMaxKeyLen (firstLine k.stdin)) := by
  rw [h.keys.1,h.keys.2]
  have hanswer := clientAnswer_key k.dtls halert k.stdin
  rw [clientAnswer] at hanswer
  cases hpassword : testClientPassword k.dtls k.stdin with
  | none =>
    have hnil : k.stdin = [] := by
      rw [testClientPassword,pskBufferSize,fgets_eq] at hpassword
      by_contra hne
      simp [hne] at hpassword
    have hline : firstLine k.stdin = [] := by rw [hnil]; rfl
    have hstart : k.client = ⟨[],0,false,[],[]⟩ := by rw [TestClientKernel.client,hpassword]
    rw [hstart,hline]
    simp [testClientGetPskInfo,answered,kept]
  | some password =>
    obtain ⟨pskKey,pskKeyLen⟩ := password
    have hne : k.stdin ≠ [] := by
      intro hnil
      simp [testClientPassword,pskBufferSize,fgets_eq,hnil] at hpassword
    rw [hpassword] at hanswer
    simp only [hne,false_or] at hanswer
    rw [← hanswer,TestClientKernel.client,hpassword]
    rfl

end Keys

def ServerEvent.requests : ServerEvent → List PointerRequest
  | .client input => inputRequests input.2
  | .query _ _ => []

def ServerEvent.payload : ServerEvent → Option Bytes
  | .client (_,.packet data) => some data
  | _ => none

theorem server_issued {service : Option AdvertiseService} {server server' : Server}
    {events : List ServerEvent} (h : Runs.run (serverStep service) server events = some server') :
    server'.issued = server.issued ++ events.flatMap ServerEvent.requests := by
  induction events generalizing server with
  | nil =>
    obtain rfl := Option.some.inj h
    simp
  | cons event events ih =>
    obtain ⟨server₁,hstep,hrun⟩ := Option.bind_eq_some_iff.mp h
    rw [ih hrun,List.flatMap_cons,← List.append_assoc]
    congr 1
    cases event with
    | client input =>
      obtain rfl := Option.some.inj hstep
      rfl
    | query sock received =>
      obtain ⟨service,-,rfl⟩ := Option.map_eq_some_iff.mp hstep
      simp [ServerEvent.requests]

theorem flatMap_requests (events : List ServerEvent) : events.flatMap ServerEvent.requests =
    (events.filterMap ServerEvent.payload).flatMap payloadRequests := by
  induction events with
  | nil => rfl
  | cons event events ih =>
    rw [List.flatMap_cons,ih]
    cases event with
    | client input =>
      obtain ⟨session,input⟩ := input
      cases input with
      | packet data => rfl
      | event level code => rfl
    | query sock received => rfl

theorem payloadRequests_testClient (o : ByteOrder) :
    payloadRequests (testClientPacket o 10 10 0 0) = [.motion 0 2560 2560,.frame] := by
  rw [testClientPacket_eq]
  decide

section Life

variable {δ δ' : Type} {d : ClientDtls δ'} {k' : TestClientKernel} {o o' : ByteOrder}
  {layer : δ'} {selects : List Selected} {fds : FdTable SocketInfo} {r : TestClientExit}

/-- Wherever it fails, the client has closed its socket once. It succeeds exactly if the layer
has told it of the connection, writes all of its packets or none, and without success it has
waited in vain or would have failed whatever had come. -/
theorem client_life (hcalls : d.CallsBack k')
    (h : testClientMain d o' k' layer selects fds = some r) :
    fds.Acquired [] r.fds ∧
      (∃ fd calls, r.client = testClientHandleAll k' fd calls k'.client ∧
        r.success = calls.any (TestClientCall.connected k') ∧
        r.client.sent = calls.filterMap (TestClientCall.datagram fd)) ∧
      (r.written = [] ∨ r.success = true ∧
        r.written.map Prod.fst = List.replicate ITERATIONS (testClientPacket o' 10 10 0 0)) ∧
      (r.success = true ∨ Selected.failed ∈ selects ∨ Selected.timeout ∈ selects ∨
        ∀ selects', testClientMain d o' k' layer selects' fds = some r) := by
  obtain ⟨hfds,hsuccess,⟨fd,calls,hcall⟩,hwritten,hend⟩ := testClientMain_called hcalls h
  have hcalled : Called k' fd k'.client calls (testClientHandleAll k' fd calls k'.client) :=
    testClientHandleAll_called k'.client calls
  have hfresh : k'.client.isConnected = false ∧ k'.client.sent = [] := by
    rw [TestClientKernel.client]
    split <;> exact ⟨rfl,rfl⟩
  refine ⟨hfds,⟨fd,calls,hcall,?_,?_⟩,hwritten,hend⟩
  · rw [hsuccess,hcall,hcalled.flag,hfresh.1,Bool.false_or]
  · rw [hcall,hcalled.sent,hfresh.2,List.nil_append]

/-- Whenever the layers ask for them, the server's and the client's key are the same exactly if
the kept parts of the two passwords are. -/
theorem keys_meet {k : MainKernel} {w : LoopWorld δ} {served : LayerCalls δ} {p p₁ : Process}
    {m : MainLocals} {s : LoopState δ} (hserves : Serves o k w served p p₁ m s) (hcalls : d.CallsBack k')
    (h : testClientMain d o' k' layer selects fds = some r) (hdtls : k'.dtls = k.dtls)
    (halert : k.dtls.alertFatalCreate k.dtls.alertInternalError < 0) :
    ∃ fd calls, r.client = testClientHandleAll k' fd calls k'.client ∧
      ∀ before after, calls = before ++ after →
        let client := testClientHandleAll k' fd before k'.client
        (answered (testClientGetPskInfo k'.dtls client.pskKey client.pskKeyLen .pskKey
              k'.dtls.pskMaxKeyLen) =
            answered (netGetPskInfo k.dtls s.client .pskKey PSK_ID k.dtls.pskMaxKeyLen) ↔
          kept k.dtls.pskMaxKeyLen (firstLine k'.stdin) =
            kept k.dtls.pskMaxKeyLen (firstLine k.stdin)) := by
  obtain ⟨-,-,⟨fd,calls,hcall⟩,-,-⟩ := testClientMain_called hcalls h
  refine ⟨fd,calls,hcall,?_⟩
  intro before after _ client
  rw [k'.answered_key (by rw [hdtls]; exact halert) (testClientHandleAll_called k'.client before),
    hserves.answered_key,hdtls]
  have hstarts : (setupPassword k.dtls k.stdin).isOk = true := by
    rw [mainSetup_password hserves.setup]
    rfl
  have hmax := ((setupPassword_isOk k.dtls k.stdin).mp hstarts).2
  split
  · rename_i hlong
    refine iff_of_false (by simp) fun heq => ?_
    rw [heq] at hlong
    omega
  · exact Option.some_inj

/-- Where the packets that the layer hands to the server are the client's, lost or reordered as
they may be and each at most once, the pointer has gone ten steps right and down for each of
them, no button has been touched, and none has come unless the client was connected. -/
theorem client_moves_pointer {k : MainKernel} {w : LoopWorld δ} {served : LayerCalls δ}
    {p p₁ : Process} {m : MainLocals} {s : LoopState δ} (hserves : Serves o k w served p p₁ m s)
    (hcalls : d.CallsBack k') (h : testClientMain d o' k' layer selects fds = some r)
    (hgiven : ((m.given k w served p₁).filterMap ServerEvent.payload).Subperm
      (r.written.map Prod.fst)) :
    ∃ n, n ≤ ITERATIONS ∧ (0 < n → r.success = true) ∧
      ((m.given k w served p₁).filterMap ServerEvent.payload).length = n ∧
      s.client.virtualPointer =
        (List.replicate n [PointerRequest.motion 0 2560 2560,.frame]).flatten := by
  obtain ⟨-,hrun⟩ := hserves.refines
  obtain ⟨-,-,-,hwritten,-⟩ := testClientMain_called hcalls h
  have hissued := server_issued hrun
  rw [flatMap_requests] at hissued
  generalize (m.given k w served p₁).filterMap ServerEvent.payload = payloads at *
  have hpackets : payloads = List.replicate payloads.length (testClientPacket o' 10 10 0 0) := by
    refine List.eq_replicate_of_mem fun data hdata => ?_
    have hmem := hgiven.subset hdata
    rcases hwritten with hnone | ⟨-,hall⟩
    · simp [hnone] at hmem
    · rw [hall] at hmem
      exact List.eq_of_mem_replicate hmem
  have hlen := hgiven.length_le
  refine ⟨payloads.length,?_,?_,rfl,?_⟩
  · rcases hwritten with hnone | ⟨-,hall⟩
    · rw [hnone] at hlen
      exact hlen.trans (Nat.zero_le _)
    · rwa [hall,List.length_replicate] at hlen
  · intro hpos
    rcases hwritten with hnone | ⟨hsuccess,-⟩
    · rw [hnone] at hlen
      exact absurd (hpos.trans_le hlen) (by simp)
    · exact hsuccess
  · have hpointer : s.client.virtualPointer = payloads.flatMap payloadRequests := hissued
    rw [hpointer,hpackets,List.length_replicate,List.flatMap_replicate,payloadRequests_testClient]

end Life

def TestClientKernel.sample : TestClientKernel where
  stdin := ascii "secret" ++ [newline]
  dtls := .sample
  getaddrinfo _ _ _ := some (⟨0,2,SOCK_DGRAM,IPPROTO_UDP,none⟩,
    .inet ⟨AF_INET,39076,Vector.replicate 4 127⟩ rfl)
  socket _ table := table.offer 3
  dtlsNewContext := true
  sendto _ _ buf := buf.length

def ClientDtls.sample : ClientDtls Unit where
  connect fd session client _ := (1,testClientHandleAll .sample fd
    [.write session [22],.getPskInfo .pskKey 16,.event 0 0x01DE] client,())
  handleMessage _ _ _ client _ := (0,client,())
  write fd session pkt client _ :=
    (pkt.length,testClientHandleAll .sample fd [.write session pkt] client,())
  freeContext _ client _ := (client,())

theorem ClientDtls.sample_callsBack : ClientDtls.sample.CallsBack .sample where
  connect _ _ _ _ := ⟨_,rfl⟩
  handleMessage _ _ _ _ _ := ⟨[],rfl⟩
  write _ _ _ _ _ := ⟨_,rfl⟩
  freeContext _ _ _ := ⟨[],rfl⟩

theorem testClientMain_sample :
    ∃ r, testClientMain .sample .big .sample () [] FdTable.empty = some r ∧ r.success = true := by
  have hsome : (testClientMain .sample .big .sample () [] FdTable.empty).map
      TestClientExit.success = some true := by decide +kernel
  obtain ⟨r,hr,hsuccess⟩ := Option.map_eq_some_iff.mp hsome
  exact ⟨r,hr,hsuccess⟩

theorem client_life_sample : ∃ r, testClientMain .sample .big .sample () [] FdTable.empty = some r ∧
    FdTable.empty.Acquired [] r.fds ∧ ∃ fd calls,
      r.client.sent = List.filterMap (TestClientCall.datagram fd) calls ∧
        calls.any (TestClientCall.connected .sample) = true := by
  obtain ⟨r,hr,hsuccess⟩ := testClientMain_sample
  obtain ⟨hfds,⟨fd,calls,-,hconnected,hsent⟩,-,-⟩ := client_life ClientDtls.sample_callsBack hr
  exact ⟨r,hr,hfds,fd,calls,hsent,hconnected.symm.trans hsuccess⟩

theorem keys_meet_secret : ∃ m p₁ s, Serves .little (.sample true) .click plainCalls .start p₁ m s ∧
    answered (testClientGetPskInfo .sample TestClientKernel.sample.client.pskKey
        TestClientKernel.sample.client.pskKeyLen .pskKey 16) =
      answered (netGetPskInfo .sample s.client .pskKey PSK_ID 16) := by
  obtain ⟨r,hr,-⟩ := testClientMain_sample
  obtain ⟨m,p₁,s,hserves,-⟩ := serves_click
  obtain ⟨fd,calls,-,hmeet⟩ := keys_meet hserves ClientDtls.sample_callsBack hr rfl (by decide)
  exact ⟨m,p₁,s,hserves,(hmeet [] calls rfl).mpr rfl⟩

def LoopWorld.moved : LoopWorld Unit where
  dtlsHandleMessage := plainEnv.dtlsHandleMessage
  dtls := ()
  quit := false
  inputs := [.proceed,.proceed,.flushed true 0,.proceed,.returned (.ready [5,3]),
    .received (queueOf (List.replicate 2 (⟨.other⟩,testClientPacket .big 10 10 0 0))),
    .dispatched 0]
  globals := []

theorem client_moves_pointer_twice : ∃ m p₁ s r,
    Serves .little (.sample true) .moved plainCalls .start p₁ m s ∧
    testClientMain .sample .big .sample () [] FdTable.empty = some r ∧ r.success = true ∧
    s.client.virtualPointer = [.motion 0 2560 2560,.frame,.motion 0 2560 2560,.frame] := by
  have hsetup : (mainSetup (.sample true) .start).1 = .loop ∧
      (mainSetup (.sample true) .start).2.1.set.map EpollEvent.fd = [3,5,4,7] := by decide +kernel
  have hrun : (Runs.run (loopStep ((mainSetup (.sample true) .start).2.1.env (.sample true) .moved))
      ((mainSetup (.sample true) .start).2.1.start .moved (mainSetup (.sample true) .start).2.2)
      LoopWorld.moved.inputs).map LoopState.point = some (.handling []) := by decide +kernel
  have hpayloads : ((mainSetup (.sample true) .start).2.1.given (.sample true) .moved plainCalls
      (mainSetup (.sample true) .start).2.2).filterMap ServerEvent.payload =
        List.replicate 2 (testClientPacket .big 10 10 0 0) := by decide +kernel
  generalize hloop : mainSetup (.sample true) .start = result at *
  obtain ⟨point,m,p₁⟩ := result
  obtain rfl : point = .loop := hsetup.1
  obtain ⟨s,hs,hpoint⟩ := Option.map_eq_some_iff.mp hrun
  have hreports : Runs.Along (loopStep (m.env (.sample true) .moved))
      (ReportsOf (m.set.map EpollEvent.fd)) (m.start .moved p₁) LoopWorld.moved.inputs := by
    refine along_reports ?_ _
    rw [hsetup.2]
    simp [LoopWorld.moved]
  have hserves : Serves .little (.sample true) .moved plainCalls .start p₁ m s :=
    ⟨hloop,plainEnv_callsBack,hreports,hs,by simp [hpoint]⟩
  obtain ⟨r,hr,hsuccess⟩ := testClientMain_sample
  have hwritten : (testClientMain .sample .big .sample () [] FdTable.empty).map
      (fun r => r.written.map Prod.fst) =
        some (List.replicate ITERATIONS (testClientPacket .big 10 10 0 0)) := by decide +kernel
  rw [hr,Option.map_some,Option.some.injEq] at hwritten
  have hgiven : ((m.given (.sample true) .moved plainCalls p₁).filterMap
      ServerEvent.payload).Subperm (r.written.map Prod.fst) := by
    rw [hpayloads,hwritten]
    exact (List.replicate_sublist_replicate _).mpr (by decide) |>.subperm
  obtain ⟨n,-,-,hlen,hpointer⟩ :=
    client_moves_pointer hserves ClientDtls.sample_callsBack hr hgiven
  obtain rfl : n = 2 := by rw [← hlen,hpayloads,List.length_replicate]
  exact ⟨m,p₁,s,r,hserves,hr,hsuccess,hpointer⟩

end WlrRemote
