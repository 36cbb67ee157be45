import WlrRemote.BuiltService
import WlrRemote.UdpSockets

/-!
The life of the mDNS service: the sockets and the blocks of the heap that
`advertise_create_service` takes, whatever fails on the way, and that
`advertise_destroy_service` gives back.
-/

set_option autoImplicit false

namespace WlrRemote
open Octets Descriptors

/-- The heap: a block is in use until it is freed, and its address may come again. -/
abbrev Heap := FdTable Nat

structure ServiceKernel where
  sizeofAdvertiseService : Nat
  malloc : Nat → (heap : Heap) → Option heap.Unused
  getifaddrs : Option (List Ifaddrs)
  socket : UInt16 → (table : FdTable SocketInfo) → Option table.Unused
  ipAddMembership : Int → Vector UInt8 4 → Vector UInt8 4 → Bool
  ipv6JoinGroup : Int → Vector UInt8 16 → Bool
  bindIpv4 : Int → SockaddrIn → Bool
  bindIpv6 : Int → SockaddrIn6 → Bool
  gethostname : Option HostName

def ServiceKernel.env (kernel : ServiceKernel) (socks : Sockets) : AdvertiseEnv where
  getifaddrs := kernel.getifaddrs
  mdnsSocketOpenIpv4 _ := socks.v4
  mdnsSocketOpenIpv6 _ := socks.v6
  gethostname := kernel.gethostname
  malloc := true

def mdnsGroupIpv4 : Vector UInt8 4 := #v[224,0,0,251]

def mdnsGroupIpv6 : Vector UInt8 16 := #v[0xFF,0x02,0,0,0,0,0,0,0,0,0,0,0,0,0,0xFB]

namespace ServiceLife

/-- The address of the block, `none` for the null pointer. -/
def malloc (kernel : ServiceKernel) (size : Nat) (heap : Heap) : Option Int × Heap :=
  match kernel.malloc size heap with
  | none => (none,heap)
  | some new => (some new.fd,heap.openFd new size)

def free (heap : Heap) : Option Int → Heap
  | none => heap
  | some block => heap.closeFd block

/-- A socket that could not join its group or be bound is closed again. -/
def mdnsSocketOpen (kernel : ServiceKernel) (family : UInt16) (joins binds : Int → Bool)
    (table : FdTable SocketInfo) : Int × FdTable SocketInfo :=
  match kernel.socket family table with
  | none => (-1,table)
  | some new =>
    let sock := new.fd
    let table := table.openFd new ⟨family.toNat,false,false⟩
    if !joins sock then (-1,table.closeFd sock)
    else if !binds sock then (-1,table.closeFd sock)
    else (sock,table.modify sock fun s => { s with bound := true })

def mdnsSocketOpenIpv4 (kernel : ServiceKernel) (saddr : SockaddrIn) :
    FdTable SocketInfo → Int × FdTable SocketInfo :=
  mdnsSocketOpen kernel AF_INET
    (fun sock => kernel.ipAddMembership sock mdnsGroupIpv4 saddr.sinAddr)
    (fun sock => kernel.bindIpv4 sock { saddr with sinAddr := Vector.replicate 4 0 })

def mdnsSocketOpenIpv6 (kernel : ServiceKernel) (saddr : SockaddrIn6) :
    FdTable SocketInfo → Int × FdTable SocketInfo :=
  mdnsSocketOpen kernel AF_INET6
    (fun sock => kernel.ipv6JoinGroup sock mdnsGroupIpv6)
    (fun sock => kernel.bindIpv6 sock { saddr with sin6Addr := Vector.replicate 16 0 })

def createMdnsSockets (kernel : ServiceKernel) (socks : Sockets) (addrs : InterfaceAddrs)
    (found : UInt8) (table : FdTable SocketInfo) :
    Bool × Sockets × InterfaceAddrs × FdTable SocketInfo :=
  let (success,socks,addrs,table) :=
    if found &&& bitIpv4Found ≠ 0 then
      let v4 := { addrs.v4 with sinPort := mdnsPort }
      let (sock,table) := mdnsSocketOpenIpv4 kernel v4 table
      (sock != -1,{ socks with v4 := sock },{ addrs with v4 := v4 },table)
    else (false,socks,addrs,table)
  if found &&& bitIpv6Found ≠ 0 then
    let v6 := { addrs.v6 with sin6Port := mdnsPort }
    let (sock,table) := mdnsSocketOpenIpv6 kernel v6 table
    (success || sock != -1,{ socks with v6 := sock },{ addrs with v6 := v6 },table)
  else (success,socks,addrs,table)

structure ServiceBlocks where
  service : Int
  hostname : Option Int
  serviceInstance : Option Int
  qualifiedHostname : Option Int
  buffer : Option Int
  deriving DecidableEq, Repr

/-- Without a hostname its buffer is freed here; what else was taken stays in the service. -/
def createServiceStrings (kernel : ServiceKernel) (blocks : ServiceBlocks) (heap : Heap) :
    Option ServiceStrings × ServiceBlocks × Heap :=
  match malloc kernel (hostNameMax + 1) heap with
  | (none,heap) => (none,blocks,heap)
  | (some hostnameBuffer,heap) =>
    match kernel.gethostname with
    | none => (none,blocks,free heap (some hostnameBuffer))
    | some hostname =>
      let blocks := { blocks with hostname := some hostnameBuffer }
      match malloc kernel (hostNameMax + 1 + (SERVICE_NAME.length + 1)) heap with
      | (none,heap) => (none,blocks,heap)
      | (some serviceInstanceBuffer,heap) =>
        let blocks := { blocks with serviceInstance := some serviceInstanceBuffer }
        match malloc kernel (hostNameMax + (qualifiedSuffix.length + 1)) heap with
        | (none,heap) => (none,blocks,heap)
        | (some qualifiedHostnameBuffer,heap) =>
          (some (WlrRemote.createServiceStrings hostname),
            { blocks with qualifiedHostname := some qualifiedHostnameBuffer },heap)

def advertiseDestroyService (blocks : ServiceBlocks) (socks : Sockets)
    (table : FdTable SocketInfo) (heap : Heap) : FdTable SocketInfo × Heap :=
  let table := if socks.v4 ≠ -1 then table.closeFd socks.v4 else table
  let table := if socks.v6 ≠ -1 then table.closeFd socks.v6 else table
  let heap := free heap blocks.hostname
  let heap := free heap blocks.serviceInstance
  let heap := free heap blocks.qualifiedHostname
  let heap := free heap blocks.buffer
  (table,free heap (some blocks.service))

def advertiseCreateService (kernel : ServiceKernel) (port : UInt16) (table : FdTable SocketInfo)
    (heap : Heap) : Option (ServiceBlocks × AdvertiseService) × FdTable SocketInfo × Heap :=
  match malloc kernel kernel.sizeofAdvertiseService heap with
  | (none,heap) => (none,table,heap)
  | (some service,heap) =>
    let blocks : ServiceBlocks := ⟨service,none,none,none,none⟩
    let (addrs,found) := getInterfaces kernel.getifaddrs .zero
    if found = 0 then (none,advertiseDestroyService blocks ⟨-1,-1⟩ table heap)
    else
      let (success,socks,addrs,table) := createMdnsSockets kernel ⟨-1,-1⟩ addrs found table
      if !success then (none,advertiseDestroyService blocks socks table heap)
      else
        match createServiceStrings kernel blocks heap with
        | (none,blocks,heap) => (none,advertiseDestroyService blocks socks table heap)
        | (some strings,blocks,heap) =>
          match malloc kernel advertiseBufferCapacity heap with
          | (none,heap) => (none,advertiseDestroyService blocks socks table heap)
          | (some buffer,heap) =>
            (some ({ blocks with buffer := some buffer },createMdnsRecords strings addrs socks port),
              table,heap)

def ServiceBlocks.held (blocks : ServiceBlocks) : List Int :=
  blocks.hostname.toList ++ (blocks.serviceInstance.toList ++ (blocks.qualifiedHostname.toList ++
    (blocks.buffer.toList ++ [blocks.service])))

theorem malloc_acquired {kernel : ServiceKernel} {size : Nat} {heap heap₁ heap₂ : Heap}
    {held : List Int} {block : Option Int} (h : heap.Acquired held heap₁)
    (hmalloc : malloc kernel size heap₁ = (block,heap₂)) :
    heap.Acquired (held ++ block.toList) heap₂ := by
  unfold malloc at hmalloc
  split at hmalloc
  · obtain ⟨rfl,rfl⟩ := Prod.mk.inj hmalloc
    rwa [Option.toList_none,List.append_nil]
  · rename_i new _
    obtain ⟨rfl,rfl⟩ := Prod.mk.inj hmalloc
    exact h.addedTo (heap₁.addedTo_openFd new size)

theorem free_acquired {heap heap' : Heap} {block : Option Int} {held : List Int}
    (h : heap.Acquired (block.toList ++ held) heap') : heap.Acquired held (free heap' block) := by
  cases block with
  | none => exact h
  | some block => exact h.closeFd

theorem mdnsSocketOpen_acquired (kernel : ServiceKernel) (family : UInt16)
    (joins binds : Int → Bool) {table table₁ : FdTable SocketInfo} {fds : List Int}
    (h : table.Acquired fds table₁) :
    let opened := mdnsSocketOpen kernel family joins binds table₁
    table.Acquired (fds ++ if opened.1 ≠ -1 then [opened.1] else []) opened.2 := by
  unfold mdnsSocketOpen
  split
  · simpa using h
  · rename_i new _
    have hadded := h.addedTo (table₁.addedTo_openFd new ⟨family.toNat,false,false⟩)
    have hclosed := (hadded.perm List.perm_append_comm).closeFd
    have hfd : new.fd ≠ -1 := by
      have := new.nonneg
      omega
    cases hj : joins new.fd with
    | false => simpa [hj] using hclosed
    | true =>
      cases hb : binds new.fd with
      | false => simpa [hj,hb] using hclosed
      | true =>
        simp only [hj,hb,Bool.not_true,Bool.false_eq_true,↓reduceIte,ne_eq,hfd,not_false_eq_true]
        exact hadded.modify (hadded.nodup.2 new.fd (by simp)) _

theorem createMdnsSockets_acquired {kernel : ServiceKernel} {addrs addrs' : InterfaceAddrs}
    {found : UInt8} {table table' : FdTable SocketInfo} {success : Bool} {socks : Sockets}
    (h : createMdnsSockets kernel ⟨-1,-1⟩ addrs found table = (success,socks,addrs',table')) :
    table.Acquired socks.slots table' ∧ (success = true ↔ socks.slots ≠ []) := by
  rw [ne_eq,Sockets.slots_eq_nil]
  have hnil : table.Acquired [] table := .refl table
  have hopen4 (saddr : SockaddrIn) : table.Acquired
      ([] ++ if (mdnsSocketOpenIpv4 kernel saddr table).1 ≠ -1
        then [(mdnsSocketOpenIpv4 kernel saddr table).1] else [])
      (mdnsSocketOpenIpv4 kernel saddr table).2 :=
    mdnsSocketOpen_acquired kernel _ _ _ hnil
  by_cases h4 : found &&& bitIpv4Found = 0 <;> by_cases h6 : found &&& bitIpv6Found = 0 <;>
    simp only [createMdnsSockets,h4,h6,ne_eq,not_true_eq_false,not_false_eq_true,↓reduceIte,
      Prod.mk.injEq] at h
  · obtain ⟨rfl,rfl,-,rfl⟩ := h
    exact ⟨hnil,by simp⟩
  · obtain ⟨rfl,rfl,-,rfl⟩ := h
    exact ⟨mdnsSocketOpen_acquired kernel _ _ _ hnil,by simp⟩
  · obtain ⟨rfl,rfl,-,rfl⟩ := h
    have hfirst := hopen4 { addrs.v4 with sinPort := mdnsPort }
    exact ⟨by simpa [Sockets.slots] using hfirst,by simp⟩
  · obtain ⟨rfl,rfl,-,rfl⟩ := h
    exact ⟨mdnsSocketOpen_acquired kernel _ _ _ (hopen4 _),by simp [-not_and,not_and_or]⟩

theorem createServiceStrings_acquired {kernel : ServiceKernel} {heap heap₁ heap₂ : Heap}
    {service : Int} {strings : Option ServiceStrings} {blocks : ServiceBlocks}
    (h : heap.Acquired [service] heap₁)
    (hstrings : createServiceStrings kernel ⟨service,none,none,none,none⟩ heap₁ =
      (strings,blocks,heap₂)) :
    heap.Acquired blocks.held heap₂ ∧ blocks.buffer = none ∧
      ∀ s, strings = some s → blocks.held.length = 4 ∧
        ∃ hostname, kernel.gethostname = some hostname ∧
          s = WlrRemote.createServiceStrings hostname := by
  unfold createServiceStrings at hstrings
  generalize hm₁ : malloc kernel (hostNameMax + 1) heap₁ = m₁ at hstrings
  obtain ⟨hostnameBuffer,heap₃⟩ := m₁
  have hh₁ := malloc_acquired h hm₁
  cases hostnameBuffer with
  | none =>
    obtain ⟨rfl,rfl,rfl⟩ : _ ∧ _ ∧ _ := by simpa using hstrings
    exact ⟨hh₁,rfl,by simp⟩
  | some hostnameBuffer =>
    have hfirst : heap.Acquired [hostnameBuffer,service] heap₃ := hh₁.perm List.perm_append_comm
    cases hname : kernel.gethostname with
    | none =>
      simp only [hname] at hstrings
      obtain ⟨rfl,rfl,rfl⟩ : _ ∧ _ ∧ _ := by simpa using hstrings
      exact ⟨free_acquired hfirst,rfl,by simp⟩
    | some hostname =>
      simp only [hname] at hstrings
      generalize hm₂ : malloc kernel (hostNameMax + 1 + (SERVICE_NAME.length + 1)) heap₃ = m₂
        at hstrings
      obtain ⟨serviceInstanceBuffer,heap₄⟩ := m₂
      have hh₂ := malloc_acquired hfirst hm₂
      cases serviceInstanceBuffer with
      | none =>
        obtain ⟨rfl,rfl,rfl⟩ : _ ∧ _ ∧ _ := by simpa using hstrings
        exact ⟨hh₂,rfl,by simp⟩
      | some serviceInstanceBuffer =>
        have hsecond : heap.Acquired [hostnameBuffer,serviceInstanceBuffer,service] heap₄ :=
          hh₂.perm (List.Perm.cons _ List.perm_append_comm)
        simp only at hstrings
        generalize hm₃ : malloc kernel (hostNameMax + (qualifiedSuffix.length + 1)) heap₄ = m₃
          at hstrings
        obtain ⟨qualifiedHostnameBuffer,heap₅⟩ := m₃
        have hh₃ := malloc_acquired hsecond hm₃
        cases qualifiedHostnameBuffer with
        | none =>
          obtain ⟨rfl,rfl,rfl⟩ : _ ∧ _ ∧ _ := by simpa using hstrings
          exact ⟨hh₃,rfl,by simp⟩
        | some qualifiedHostnameBuffer =>
          obtain ⟨rfl,rfl,rfl⟩ : _ ∧ _ ∧ _ := by simpa using hstrings
          exact ⟨hh₃.perm (List.Perm.cons _ (List.Perm.cons _ List.perm_append_comm)),rfl,
            fun s hs => ⟨rfl,hostname,rfl,(Option.some.inj hs).symm⟩⟩

/-- Whatever else has been taken since, what the service holds is given back. -/
theorem advertiseDestroyService_acquired {blocks : ServiceBlocks} {socks : Sockets}
    {table table' : FdTable SocketInfo} {heap heap' : Heap} {fds others : List Int}
    (htable : table.Acquired (socks.slots ++ fds) table')
    (hheap : heap.Acquired (blocks.held ++ others) heap') :
    let given := advertiseDestroyService blocks socks table' heap'
    table.Acquired fds given.1 ∧ heap.Acquired others given.2 := by
  constructor
  · have hclosed := htable.closeAll
    obtain ⟨v4,v6⟩ := socks
    by_cases h4 : v4 = -1 <;> by_cases h6 : v6 = -1 <;>
      simpa [advertiseDestroyService,Sockets.slots,h4,h6] using hclosed
  · simp only [ServiceBlocks.held,List.append_assoc] at hheap
    exact (free_acquired (free_acquired (free_acquired (free_acquired hheap)))).closeFd

theorem createMdnsSockets_env {kernel : ServiceKernel} {addrs addrs' : InterfaceAddrs}
    {found : UInt8} {table table' : FdTable SocketInfo} {success : Bool} {socks : Sockets}
    (h : createMdnsSockets kernel ⟨-1,-1⟩ addrs found table = (success,socks,addrs',table')) :
    WlrRemote.createMdnsSockets (kernel.env socks) ⟨-1,-1⟩ addrs found = (success,socks,addrs') := by
  by_cases h4 : found &&& bitIpv4Found = 0 <;> by_cases h6 : found &&& bitIpv6Found = 0 <;>
    simp only [createMdnsSockets,h4,h6,ne_eq,not_true_eq_false,not_false_eq_true,↓reduceIte,
      Prod.mk.injEq] at h <;>
    obtain ⟨rfl,rfl,rfl,-⟩ := h <;>
    simp [WlrRemote.createMdnsSockets,ServiceKernel.env,h4,h6]

/-- Either nothing is left of the attempt, or the service holds five blocks and one or two
sockets, and is the one that `advertise_create_service` makes of these sockets. -/
def Created (kernel : ServiceKernel) (port : UInt16) (table : FdTable SocketInfo) (heap : Heap) :
    Option (ServiceBlocks × AdvertiseService) × FdTable SocketInfo × Heap → Prop
  | (none,table',heap') => table.Acquired [] table' ∧ heap.Acquired [] heap'
  | (some (blocks,service),table',heap') =>
    table.Acquired service.socks.slots table' ∧ heap.Acquired blocks.held heap' ∧
      blocks.held.length = 5 ∧ service.socks.slots ≠ [] ∧
      WlrRemote.advertiseCreateService (kernel.env service.socks) port = some service

theorem created_none {kernel : ServiceKernel} {port : UInt16} {table table' : FdTable SocketInfo}
    {heap heap' : Heap} {blocks : ServiceBlocks} {socks : Sockets}
    (htable : table.Acquired socks.slots table') (hheap : heap.Acquired blocks.held heap') :
    Created kernel port table heap (none,advertiseDestroyService blocks socks table' heap') :=
  advertiseDestroyService_acquired (by simpa using htable) (by simpa using hheap)

theorem advertiseCreateService_created (kernel : ServiceKernel) (port : UInt16)
    (table : FdTable SocketInfo) (heap : Heap) :
    Created kernel port table heap (advertiseCreateService kernel port table heap) := by
  unfold advertiseCreateService
  generalize hm : malloc kernel kernel.sizeofAdvertiseService heap = m
  obtain ⟨service,heap₁⟩ := m
  have hservice := malloc_acquired (.refl heap) hm
  cases service with
  | none => exact ⟨.refl table,hservice⟩
  | some service =>
    simp only
    generalize hi : getInterfaces kernel.getifaddrs .zero = interfaces
    obtain ⟨addrs,found⟩ := interfaces
    simp only
    split
    · have hnone : table.Acquired (Sockets.slots ⟨-1,-1⟩) table := .refl table
      exact created_none hnone hservice
    · rename_i hfound
      generalize hs : createMdnsSockets kernel ⟨-1,-1⟩ addrs found table = sockets
      obtain ⟨success,socks,addrs',table'⟩ := sockets
      obtain ⟨hsocks,hsuccess⟩ := createMdnsSockets_acquired hs
      cases success with
      | false => exact created_none hsocks hservice
      | true =>
        simp only [Bool.not_true,Bool.false_eq_true,↓reduceIte]
        generalize hstr : createServiceStrings kernel ⟨service,none,none,none,none⟩ heap₁ = strings
        obtain ⟨strings,blocks,heap₂⟩ := strings
        obtain ⟨hblocks,hbuffer,hhost⟩ := createServiceStrings_acquired hservice hstr
        cases strings with
        | none => exact created_none hsocks hblocks
        | some strings =>
          obtain ⟨hfour,hostname,hname,rfl⟩ := hhost strings rfl
          simp only
          generalize hb : malloc kernel advertiseBufferCapacity heap₂ = last
          obtain ⟨buffer,heap₃⟩ := last
          have hall := malloc_acquired hblocks hb
          cases buffer with
          | none => exact created_none hsocks (by simpa using hall)
          | some buffer =>
            have hperm : (blocks.held ++ [buffer]).Perm
                { blocks with buffer := some buffer }.held := by
              simp only [ServiceBlocks.held,hbuffer,List.append_assoc]
              exact List.Perm.append_left _ (List.Perm.append_left _ (List.Perm.append_left _
                (List.Perm.swap buffer blocks.service [])))
            refine ⟨hsocks,hall.perm hperm,?_,hsuccess.mp rfl,?_⟩
            · rw [← hperm.length_eq,List.length_append,hfour]
              rfl
            · have henv := createMdnsSockets_env hs
              simp only [ServiceKernel.env,hname] at henv
              simp only [WlrRemote.advertiseCreateService,createMdnsRecords,ServiceKernel.env,
                Bool.not_true,Bool.false_eq_true,↓reduceIte,hi,hfound,hname,henv]

/-- Creating the service leaves nothing behind where it fails; where it succeeds, destroying
the service gives back all of it, whatever else was opened or allocated in between. -/
theorem service_life (kernel : ServiceKernel) (port : UInt16) (table : FdTable SocketInfo)
    (heap : Heap) :
    let made := advertiseCreateService kernel port table heap
    Created kernel port table heap made ∧
      ∀ blocks service, made.1 = some (blocks,service) →
        ∀ fds table' others heap', made.2.1.Acquired fds table' → made.2.2.Acquired others heap' →
          let given := advertiseDestroyService blocks service.socks table' heap'
          table.Acquired fds given.1 ∧ heap.Acquired others given.2 := by
  have hcreated := advertiseCreateService_created kernel port table heap
  refine ⟨hcreated,?_⟩
  intro blocks service hmade fds table' others heap' htable hheap
  generalize advertiseCreateService kernel port table heap = made at *
  obtain ⟨made,table₁,heap₁⟩ := made
  simp only at hmade
  subst hmade
  obtain ⟨hsocks,hblocks,-⟩ := hcreated
  exact advertiseDestroyService_acquired (hsocks.trans htable) (hblocks.trans hheap)

def interfaceIpv6 : SockaddrIn6 := ⟨AF_INET6,0,0,Vector.replicate 16 1,0⟩

def kernelOne : ServiceKernel where
  sizeofAdvertiseService := 800
  malloc _ heap := heap.offer (1000 * (heap.opened + 1))
  getifaddrs := (oneInterface hostA).getifaddrs.map fun addrs =>
    addrs ++ [⟨IFF_UP ||| IFF_MULTICAST,some (.inet6 interfaceIpv6 rfl)⟩]
  socket _ table := table.offer (3 + table.opened)
  ipAddMembership _ _ _ := true
  ipv6JoinGroup _ _ := false
  bindIpv4 _ _ := true
  bindIpv6 _ _ := true
  gethostname := some hostA

theorem service_life_one :
    let made := advertiseCreateService kernelOne 7777 FdTable.empty FdTable.empty
    (made.1.map fun s => (s.1,s.2.socks)) =
        some (⟨1000,some 2000,some 3000,some 4000,some 5000⟩,⟨3,-1⟩) ∧
      made.2.1.closed = [1] ∧
      ∀ (new : made.2.1.Unused) info,
        let given := advertiseDestroyService ⟨1000,some 2000,some 3000,some 4000,some 5000⟩ ⟨3,-1⟩
          (made.2.1.openFd new info) made.2.2
        FdTable.empty.Acquired [new.fd] given.1 ∧ FdTable.empty.Acquired [] given.2 := by
  intro made
  have hmade : made.1.map (fun s => (s.1,s.2.socks)) =
      some (⟨1000,some 2000,some 3000,some 4000,some 5000⟩,⟨3,-1⟩) := by decide +kernel
  refine ⟨hmade,by decide +kernel,?_⟩
  intro new info
  obtain ⟨⟨blocks,service⟩,hs,heq⟩ := Option.map_eq_some_iff.mp hmade
  obtain ⟨rfl,hsocks⟩ := Prod.mk.inj heq
  have hlife := (service_life kernelOne 7777 FdTable.empty FdTable.empty).2 _ service hs [new.fd]
    (made.2.1.openFd new info) [] made.2.2
    ((FdTable.Acquired.refl _).addedTo (made.2.1.addedTo_openFd new info)) (.refl _)
  rwa [show service.socks = ⟨3,-1⟩ from hsocks] at hlife

end ServiceLife

end WlrRemote
