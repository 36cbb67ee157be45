import WlrRemote.MainLife

set_option autoImplicit false

namespace WlrRemote
open Octets Descriptors Runs ServiceLife

theorem slots_storeV4 {socks : Sockets} {fd : Int} (hfree : socks.v4 = -1) (hfd : fd ≠ -1) :
    (socks.slots ++ [fd]).Perm ({ socks with v4 := fd } : Sockets).slots := by
  simp only [Sockets.slots,hfree,ne_eq,not_true_eq_false,↓reduceIte,List.nil_append,hfd,
    not_false_eq_true]
  exact List.perm_append_comm

theorem slots_storeV6 {socks : Sockets} {fd : Int} (hfree : socks.v6 = -1) (hfd : fd ≠ -1) :
    (socks.slots ++ [fd]).Perm ({ socks with v6 := fd } : Sockets).slots := by
  simp [Sockets.slots,hfree,hfd]

theorem netSetupUdpLoop_acquired (kernel : UdpKernel) (infos : List Addrinfo) (index : Nat)
    {count : Nat} {socks : Sockets} {table₀ table : FdTable SocketInfo}
    (h : table₀.Acquired socks.slots table) (hcount : count = socks.slots.length) :
    let result := netSetupUdpLoop kernel index infos count socks table
    table₀.Acquired result.2.1.slots result.2.2 ∧ result.1 = result.2.1.slots.length := by
  induction infos generalizing index count socks table with
  | nil => exact ⟨h,hcount⟩
  | cons info infos ih =>
    unfold netSetupUdpLoop
    split
    · exact ⟨h,hcount⟩
    · split
      · exact ih _ h hcount
      · rename_i new _
        have hfd : new.fd ≠ -1 := by
          have := new.nonneg
          omega
        have hopen := h.addedTo (table.addedTo_openFd new ⟨info.aiFamily,false,false⟩)
        have hnot : new.fd ∉ table₀.live.map Descriptor.fd := hopen.nodup.2 new.fd (by simp)
        simp only at hopen ⊢
        split
        · exact ih _ (hopen.perm List.perm_append_comm).closeFd hcount
        · generalize hmodify : (if info.aiFamily = AF_INET6.toNat then
            (table.openFd new ⟨info.aiFamily,false,false⟩).modify new.fd
              fun s => { s with v6only := true }
            else table.openFd new ⟨info.aiFamily,false,false⟩) = table'
          have hset : table₀.Acquired (socks.slots ++ [new.fd]) table' := by
            subst hmodify
            split
            · exact hopen.modify hnot _
            · exact hopen
          split
          · exact ih _ (hset.perm List.perm_append_comm).closeFd hcount
          · have hbound := hset.modify hnot fun s => { s with bound := true }
            split
            · rename_i h4
              refine ih _ (hbound.perm (slots_storeV4 h4.2 hfd)) ?_
              rw [Sockets.length_slots_v4 h4.2 hfd,hcount]
            · split
              · rename_i h6
                refine ih _ (hbound.perm (slots_storeV6 h6.2 hfd)) ?_
                rw [Sockets.length_slots_v6 h6.2 hfd,hcount]
              · exact ih _ (hbound.perm List.perm_append_comm).closeFd hcount

theorem netSetupUdpSockets_acquired (kernel : UdpKernel) (port : UInt16)
    (table : FdTable SocketInfo) :
    let result := netSetupUdpSockets kernel ⟨-1,-1⟩ port table
    table.Acquired result.2.1.slots result.2.2 ∧ (result.1 < 0 ↔ result.2.1.slots = []) := by
  have hnone : table.Acquired (Sockets.slots ⟨-1,-1⟩) table := .refl table
  unfold netSetupUdpSockets
  simp only
  split
  · exact ⟨hnone,by simp [Sockets.slots]⟩
  · rename_i head _
    obtain ⟨hacquired,hcount⟩ := netSetupUdpLoop_acquired kernel head 0 hnone
      (rfl : 0 = (Sockets.slots ⟨-1,-1⟩).length)
    generalize netSetupUdpLoop kernel 0 head 0 ⟨-1,-1⟩ table = result at hacquired hcount
    split
    · rename_i hzero
      rw [hcount,List.length_eq_zero_iff] at hzero
      exact ⟨hacquired,by simp [hzero]⟩
    · rename_i hzero
      rw [hcount,List.length_eq_zero_iff] at hzero
      exact ⟨hacquired,by simp [hzero]⟩

def epollCreateFails (k : MainKernel) (p : Process) : Bool :=
  match k.wlDisplayConnect p.fds with
  | none => false
  | some display =>
    let (_,_,fds) := netSetupUdpSockets k.udp ⟨-1,-1⟩ (setupParsePort k.argv)
      (p.fds.openFd display displayInfo)
    (k.epollCreate1 fds).isNone

/-- The descriptors that stay open: the epoll set once it is complete, and the UDP sockets where
`epoll_create1` or `dtls_new_context` fails. -/
def leftOpen (k : MainKernel) (p : Process) (m : MainLocals) : MainPoint → List Int
  | .exit | .errFreeRegistry => []
  | .errFreeVirtualPointer =>
    if m.epollFd ≠ -1 then m.epollFd :: m.socks.slots
    else if epollCreateFails k p then m.socks.slots else []
  | .errFreeAll | .loop => [m.epollFd]

def MainLocals.serviceSlots (m : MainLocals) : List Int :=
  (m.service.map fun s => s.2.socks.slots).getD []

def MainLocals.blocks (m : MainLocals) : List Int :=
  (m.service.map fun s => s.1.held).getD []

/-- The descriptors that the clean-up from a label on closes, in its order. -/
def closedFrom (m : MainLocals) : MainPoint → List Int
  | .exit => []
  | .errFreeRegistry | .errFreeVirtualPointer => [m.display]
  | .errFreeAll | .loop => m.serviceSlots ++ (m.socks.slots ++ [m.display])

structure SetUp (k : MainKernel) (p : Process) (result : MainPoint × MainLocals × Process) : Prop where
  fds : p.fds.Acquired (closedFrom result.2.1 result.1 ++ leftOpen k p result.2.1 result.1)
    result.2.2.fds
  heap : p.heap.Acquired result.2.1.blocks result.2.2.heap
  service : result.1 ≠ .errFreeAll → result.1 ≠ .loop → result.2.1.service = none

theorem netSetupEpollFds_acquired (k : MainKernel) (socks : Sockets) (wlFd : Int)
    {table fds : FdTable SocketInfo} {base : List Int}
    (h : table.Acquired (socks.slots ++ base) fds) :
    let made := netSetupEpollFds k socks wlFd fds
    (made.1 = -1 ∧ table.Acquired
        ((if (k.epollCreate1 fds).isNone then socks.slots else []) ++ base) made.2.2) ∨
      0 ≤ made.1 ∧ made.2.1 = ⟨wlFd,EPOLLIN⟩ :: socks.epollIn ∧
        table.Acquired (made.1 :: (socks.slots ++ base)) made.2.2 := by
  unfold netSetupEpollFds
  split
  · rename_i hnone
    left
    simpa [netSetupEpoll,hnone] using h
  · rename_i new hnew
    have hopen := h.addedTo (fds.addedTo_openFd new epollInfo)
    have hnonneg : ¬ new.fd < 0 := by
      have := new.nonneg
      omega
    cases hset : epollAdd k.epollCtl (⟨wlFd,EPOLLIN⟩ :: socks.epollIn) with
    | none =>
      left
      have hall : table.Acquired ((socks.slots ++ [new.fd]) ++ base)
          (fds.openFd new epollInfo) := by
        refine hopen.perm ?_
        simp only [List.append_assoc]
        exact List.Perm.append_left _ List.perm_append_comm
      have hclosed := hall.closeAll
      simpa [netSetupEpoll,hnonneg,hset,hnew,Sockets.slots] using hclosed
    | some set =>
      right
      simp only [netSetupEpoll,hnonneg,↓reduceIte,hset,List.foldl_nil]
      exact ⟨new.nonneg,epollAdd_eq hset,hopen.perm List.perm_append_comm⟩

theorem mainService_setUp {k : MainKernel} {p₀ p : Process} {m : MainLocals}
    (hfds : p₀.fds.Acquired (m.epollFd :: (m.socks.slots ++ [m.display])) p.fds)
    (hheap : p₀.heap.Acquired [] p.heap) (hnone : m.service = none) (hepoll : m.epollFd ≠ -1) :
    SetUp k p₀ (mainService k m p) := by
  have hlast : (m.epollFd :: (m.socks.slots ++ [m.display])).Perm
      ((m.socks.slots ++ [m.display]) ++ [m.epollFd]) := by
    rw [← List.singleton_append]
    exact List.perm_append_comm
  unfold mainService
  split
  · refine ⟨?_,by simpa [MainLocals.blocks,hnone] using hheap,fun _ _ => hnone⟩
    simp only [closedFrom,leftOpen,hepoll,ne_eq,not_false_eq_true,↓reduceIte]
    exact hfds.perm ((List.Perm.cons _ List.perm_append_comm).trans
      (List.Perm.swap m.display m.epollFd m.socks.slots))
  · have hcreated := ServiceLife.advertiseCreateService_created k.service m.port p.fds p.heap
    generalize ServiceLife.advertiseCreateService k.service m.port p.fds p.heap = made at hcreated
    obtain ⟨made,fds,heap⟩ := made
    cases made with
    | none =>
      obtain ⟨hsame,hblocks⟩ := hcreated
      refine ⟨?_,?_,fun _ h => absurd rfl h⟩
      · have hafter := hfds.trans hsame
        rw [List.append_nil] at hafter
        simpa [closedFrom,leftOpen,MainLocals.serviceSlots,hnone] using hafter.perm hlast
      · simpa [MainLocals.blocks,hnone] using hheap.trans hblocks
    | some made =>
      obtain ⟨blocks,service⟩ := made
      obtain ⟨hsocks,hblocks,-⟩ := hcreated
      have hafter := (hfds.perm hlast).trans hsocks
      have hheap' : p₀.heap.Acquired blocks.held heap := hheap.trans hblocks
      have hperm : (((m.socks.slots ++ [m.display]) ++ [m.epollFd]) ++ service.socks.slots).Perm
          ((service.socks.slots ++ (m.socks.slots ++ [m.display])) ++ [m.epollFd]) := by
        rw [List.append_assoc service.socks.slots]
        exact List.perm_append_comm
      simp only
      split
      · exact ⟨hafter.perm hperm,hheap',fun h => absurd rfl h⟩
      · exact ⟨hafter.perm hperm,hheap',fun _ h => absurd rfl h⟩

theorem mainNetwork_setUp {k : MainKernel} {p₀ p : Process} {m : MainLocals}
    {display : p₀.fds.Unused} (hconnect : k.wlDisplayConnect p₀.fds = some display)
    (hfds : p.fds = p₀.fds.openFd display displayInfo) (hheap : p₀.heap.Acquired [] p.heap)
    (hm : m.display = display.fd ∧ m.port = setupParsePort k.argv ∧ m.socks = ⟨-1,-1⟩ ∧
      m.epollFd = -1 ∧ m.service = none) :
    SetUp k p₀ (mainNetwork k m p) := by
  obtain ⟨hdisplay,hport,hsocks,hepoll,hnone⟩ := hm
  have hnonneg : ¬ m.display < 0 := by
    have := display.nonneg
    omega
  have hopen : p₀.fds.Acquired [m.display] p.fds := by
    rw [hfds,hdisplay]
    exact (FdTable.Acquired.refl p₀.fds).addedTo (p₀.fds.addedTo_openFd display displayInfo)
  have hblocks (m' : MainLocals) (h : m'.service = none) : p₀.heap.Acquired m'.blocks p.heap := by
    simpa [MainLocals.blocks,h] using hheap
  unfold mainNetwork
  simp only [hnonneg,↓reduceIte,hsocks]
  obtain ⟨hudp,hcount⟩ := netSetupUdpSockets_acquired k.udp m.port p.fds
  have hfails : epollCreateFails k p₀ =
      (k.epollCreate1 (netSetupUdpSockets k.udp ⟨-1,-1⟩ m.port p.fds).2.2).isNone := by
    rw [epollCreateFails,hconnect,hport,hfds]
  generalize netSetupUdpSockets k.udp ⟨-1,-1⟩ m.port p.fds = udp at *
  obtain ⟨count,socks,fds⟩ := udp
  have hboth : p₀.fds.Acquired (socks.slots ++ [m.display]) fds :=
    (hopen.trans hudp).perm List.perm_append_comm
  simp only at hcount hfails ⊢
  split
  · rename_i hneg
    refine ⟨?_,hblocks _ hnone,fun _ _ => hnone⟩
    have hslots := hcount.mp hneg
    simpa [closedFrom,leftOpen,hepoll,hslots] using hboth
  · have hset := netSetupEpollFds_acquired k socks m.display hboth
    generalize netSetupEpollFds k socks m.display fds = made at *
    obtain ⟨epollFd,set,fds'⟩ := made
    rcases hset with ⟨rfl,hacquired⟩ | ⟨hpos,-,hacquired⟩
    · refine ⟨?_,hblocks _ hnone,fun _ _ => hnone⟩
      simp only [show (-1 : Int) < 0 by decide,↓reduceIte,closedFrom,leftOpen,ne_eq,
        not_true_eq_false,hfails]
      exact hacquired.perm List.perm_append_comm
    · have hnonneg' : ¬ epollFd < 0 := by omega
      simp only [hnonneg',↓reduceIte]
      exact mainService_setUp hacquired hheap hnone (by simp only; omega)

theorem mainSetup_setUp (k : MainKernel) (p : Process) : SetUp k p (mainSetup k p) := by
  have hheap : p.heap.Acquired [] p.heap := .refl p.heap
  unfold mainSetup
  split
  · exact ⟨.refl p.fds,hheap,fun _ _ => rfl⟩
  · split
    · exact ⟨.refl p.fds,hheap,fun _ _ => rfl⟩
    · rename_i display hconnect
      simp only
      split
      · exact ⟨(FdTable.Acquired.refl p.fds).addedTo (p.fds.addedTo_openFd display displayInfo),hheap,
          fun _ _ => rfl⟩
      · exact mainNetwork_setUp hconnect rfl hheap ⟨rfl,rfl,rfl,rfl,rfl⟩

theorem errFreeAll_acquired (m : MainLocals) (p : Process) {table : FdTable SocketInfo} {heap : Heap}
    {fds : List Int}
    (hfds : table.Acquired (m.serviceSlots ++ (m.socks.slots ++ (m.display :: fds))) p.fds)
    (hheap : heap.Acquired m.blocks p.heap) :
    table.Acquired fds (errFreeAll m p).fds ∧ heap.Acquired [] (errFreeAll m p).heap := by
  have hsocks {t : FdTable SocketInfo} (h : table.Acquired (m.socks.slots ++ (m.display :: fds)) t) :
      table.Acquired fds ((if m.socks.v6 ≠ -1 then
        (if m.socks.v4 ≠ -1 then t.closeFd m.socks.v4 else t).closeFd m.socks.v6
        else if m.socks.v4 ≠ -1 then t.closeFd m.socks.v4 else t).closeFd m.display) := by
    have hclosed := h.closeAll
    by_cases h4 : m.socks.v4 = -1 <;> by_cases h6 : m.socks.v6 = -1 <;>
      simpa [Sockets.slots,h4,h6] using hclosed.closeFd
  cases hs : m.service with
  | none =>
    simp only [MainLocals.serviceSlots,MainLocals.blocks,hs,Option.map_none,Option.getD_none,
      List.nil_append] at hfds hheap
    simp only [errFreeAll,hs]
    exact ⟨hsocks hfds,hheap⟩
  | some made =>
    obtain ⟨blocks,service⟩ := made
    simp only [MainLocals.serviceSlots,MainLocals.blocks,hs,Option.map_some,Option.getD_some]
      at hfds hheap
    rw [← List.append_nil blocks.held] at hheap
    obtain ⟨hgiven,hfreed⟩ := ServiceLife.advertiseDestroyService_acquired hfds hheap
    simp only [errFreeAll,hs]
    exact ⟨hsocks hgiven,hfreed⟩

section Main

variable {δ : Type}

/-- Wherever `main` fails and whatever its loop does, no descriptor is closed twice, the blocks of
the heap are freed, each once, and what stays open is the epoll set, and the UDP sockets where
`epoll_create1` or `dtls_new_context` fails. -/
theorem main_leaves (k : MainKernel) (w : LoopWorld δ) (p p' : Process) (success : Bool)
    (h : main k w p = some (success,p')) :
    p.fds.Acquired (leftOpen k p (mainSetup k p).2.1 (mainSetup k p).1) p'.fds ∧
      p.heap.Acquired [] p'.heap := by
  have hset := mainSetup_setUp k p
  unfold main at h
  generalize hsetup : mainSetup k p = result at *
  obtain ⟨point,m,p₁⟩ := result
  obtain ⟨hfds,hheap,hservice⟩ := hset
  simp only at hfds hheap hservice h ⊢
  cases point with
  | exit =>
    obtain ⟨-,rfl⟩ := Prod.mk.inj (Option.some.inj h)
    rw [MainLocals.blocks,hservice (by decide) (by decide)] at hheap
    exact ⟨hfds,hheap⟩
  | errFreeRegistry =>
    obtain ⟨-,rfl⟩ := Prod.mk.inj (Option.some.inj h)
    rw [MainLocals.blocks,hservice (by decide) (by decide)] at hheap
    exact ⟨hfds.closeFd,hheap⟩
  | errFreeVirtualPointer =>
    obtain ⟨-,rfl⟩ := Prod.mk.inj (Option.some.inj h)
    rw [MainLocals.blocks,hservice (by decide) (by decide)] at hheap
    exact ⟨hfds.closeFd,hheap⟩
  | errFreeAll =>
    obtain ⟨-,rfl⟩ := Prod.mk.inj (Option.some.inj h)
    simp only [closedFrom,List.append_assoc] at hfds
    exact errFreeAll_acquired m p₁ hfds hheap
  | loop =>
    obtain ⟨s,-,hs⟩ := Option.bind_eq_some_iff.mp h
    simp only [closedFrom,List.append_assoc] at hfds
    split at hs
    · obtain ⟨-,rfl⟩ := Prod.mk.inj (Option.some.inj hs)
      exact errFreeAll_acquired m { p₁ with
        registry := w.globals.foldl registryHandleGlobal p₁.registry
        responder := s.responder } hfds hheap
    · contradiction

end Main

def MainKernel.sample (dtlsNewContext : Bool) : MainKernel where
  argv := [ascii "wlr-remote",ascii "7777"]
  stdin := ascii "secret" ++ [newline]
  dtls := .sample
  wlDisplayConnect table := table.offer 3
  roundtrip := [⟨1,wlSeatInterface,7⟩,⟨2,zwlrVirtualPointerManagerV1Interface,2⟩]
  udp := { UdpKernel.sample with
    socket := fun _ _ table => table.offer (3 + table.opened)
    setsockopt := fun _ => true }
  epollCreate1 table := table.offer (3 + table.opened)
  epollCtl _ := true
  dtlsNewContext := dtlsNewContext
  service := kernelOne

def Process.start : Process :=
  ⟨FdTable.empty,FdTable.empty,⟨none,none,[],[]⟩,⟨fun _ => 0,fun _ => 0,[]⟩⟩

def LoopWorld.interrupted : LoopWorld Unit where
  dtlsHandleMessage _ _ client _ := (0,client,())
  dtls := ()
  quit := true
  inputs := [.proceed]
  globals := []

theorem main_leaves_sample : ∃ p₁ p₂,
    main (.sample true) .interrupted .start = some (true,p₁) ∧
      FdTable.empty.Acquired [6] p₁.fds ∧
    main (.sample false) .interrupted .start = some (false,p₂) ∧
      FdTable.empty.Acquired [6,5,4] p₂.fds ∧ FdTable.empty.Acquired [] p₂.heap := by
  have hstatus (b : Bool) : (main (.sample b) .interrupted .start).map Prod.fst = some b := by
    cases b <;> decide +kernel
  obtain ⟨⟨_,p₁⟩,h₁,rfl⟩ := Option.map_eq_some_iff.mp (hstatus true)
  obtain ⟨⟨_,p₂⟩,h₂,hb⟩ := Option.map_eq_some_iff.mp (hstatus false)
  obtain rfl : _ = false := hb
  have hl₁ := main_leaves (.sample true) .interrupted .start p₁ _ h₁
  have hl₂ := main_leaves (.sample false) .interrupted .start p₂ _ h₂
  have heq₁ : leftOpen (.sample true) .start (mainSetup (.sample true) .start).2.1
      (mainSetup (.sample true) .start).1 = [6] := by decide +kernel
  have heq₂ : leftOpen (.sample false) .start (mainSetup (.sample false) .start).2.1
      (mainSetup (.sample false) .start).1 = [6,5,4] := by decide +kernel
  rw [heq₁] at hl₁
  rw [heq₂] at hl₂
  exact ⟨p₁,p₂,h₁,hl₁.1,h₂,hl₂.1,hl₂.2⟩

end WlrRemote
