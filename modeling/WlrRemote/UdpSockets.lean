import WlrRemote.Draining

set_option autoImplicit false

namespace WlrRemote
open Octets Descriptors

def Sockets.slots (socks : Sockets) : List Int :=
  (if socks.v4 ≠ -1 then [socks.v4] else []) ++ (if socks.v6 ≠ -1 then [socks.v6] else [])

theorem Sockets.slots_eq_nil {socks : Sockets} : socks.slots = [] ↔ socks = ⟨-1,-1⟩ := by
  obtain ⟨v4,v6⟩ := socks
  by_cases h4 : v4 = -1 <;> by_cases h6 : v6 = -1 <;> simp [slots,h4,h6]

def SlotHolds (table : FdTable SocketInfo) (P : SocketInfo → Prop) (slot : Int) : Prop :=
  slot = -1 ∨ ∃ d ∈ table.live, d.fd = slot ∧ P d.info

def ServesIpv4 (s : SocketInfo) : Prop := s.family = AF_INET.toNat ∧ s.bound = true

def ServesIpv6 (s : SocketInfo) : Prop :=
  s.family = AF_INET6.toNat ∧ s.v6only = true ∧ s.bound = true

/-- The slots are in order: what is open is what they hold, each once, and each holds a
socket of its family. -/
structure Kept (socks : Sockets) (table : FdTable SocketInfo) : Prop where
  live : (table.live.map Descriptor.fd).Perm socks.slots
  failedCloses : table.failedCloses = 0
  v4 : SlotHolds table ServesIpv4 socks.v4
  v6 : SlotHolds table ServesIpv6 socks.v6

theorem SlotHolds.of_live {table table' : FdTable SocketInfo} {P : SocketInfo → Prop} {slot : Int}
    (h : SlotHolds table P slot) (hlive : table.live ⊆ table'.live) : SlotHolds table' P slot := by
  rcases h with h | ⟨d,hd,hfd,hp⟩
  · exact Or.inl h
  · exact Or.inr ⟨d,hlive hd,hfd,hp⟩

theorem Kept.closeFd {socks : Sockets} {table table' : FdTable SocketInfo}
    {d : Descriptor SocketInfo} (h : Kept socks table) (hd : table.AddedTo d table') :
    Kept socks (table'.closeFd d.fd) := by
  obtain ⟨hlive,hfailed⟩ := hd.closeFd
  have hsame : table.live ⊆ (table'.closeFd d.fd).live := by rw [hlive]; exact List.Subset.refl _
  exact ⟨by rw [hlive]; exact h.live,hfailed.trans h.failedCloses,h.v4.of_live hsame,
    h.v6.of_live hsame⟩

theorem subset_addedTo {table table' : FdTable SocketInfo} {d : Descriptor SocketInfo}
    (hd : table.AddedTo d table') : table.live ⊆ table'.live := by
  rw [hd.live]
  exact List.subset_append_left _ _

theorem Kept.storeV4 {socks : Sockets} {table table' : FdTable SocketInfo}
    {d : Descriptor SocketInfo} (h : Kept socks table) (hd : table.AddedTo d table')
    (hfree : socks.v4 = -1) (hfd : d.fd ≠ -1) (hinfo : ServesIpv4 d.info) :
    Kept { socks with v4 := d.fd } table' := by
  refine ⟨?_,hd.failedCloses.trans h.failedCloses,?_,h.v6.of_live (subset_addedTo hd)⟩
  · have hlive := h.live
    simp only [Sockets.slots,hfree,ne_eq,not_true_eq_false,↓reduceIte,List.nil_append] at hlive
    simp only [hd.live,List.map_append,Sockets.slots,ne_eq,hfd,not_false_eq_true,↓reduceIte]
    exact (hlive.append_right _).trans List.perm_append_comm
  · exact Or.inr ⟨d,by simp [hd.live],rfl,hinfo⟩

theorem Kept.storeV6 {socks : Sockets} {table table' : FdTable SocketInfo}
    {d : Descriptor SocketInfo} (h : Kept socks table) (hd : table.AddedTo d table')
    (hfree : socks.v6 = -1) (hfd : d.fd ≠ -1) (hinfo : ServesIpv6 d.info) :
    Kept { socks with v6 := d.fd } table' := by
  refine ⟨?_,hd.failedCloses.trans h.failedCloses,h.v4.of_live (subset_addedTo hd),?_⟩
  · have hlive := h.live
    simp only [Sockets.slots,hfree,ne_eq,not_true_eq_false,↓reduceIte,List.append_nil] at hlive
    simp only [hd.live,List.map_append,Sockets.slots,ne_eq,hfd,not_false_eq_true,↓reduceIte]
    exact hlive.append_right _
  · exact Or.inr ⟨d,by simp [hd.live],rfl,hinfo⟩

theorem Sockets.length_slots_v4 {socks : Sockets} {fd : Int} (hfree : socks.v4 = -1)
    (hfd : fd ≠ -1) : ({ socks with v4 := fd } : Sockets).slots.length = socks.slots.length + 1 := by
  simp [slots,hfree,hfd]

theorem Sockets.length_slots_v6 {socks : Sockets} {fd : Int} (hfree : socks.v6 = -1)
    (hfd : fd ≠ -1) : ({ socks with v6 := fd } : Sockets).slots.length = socks.slots.length + 1 := by
  simp [slots,hfree,hfd]

/-- Whatever the calls for the entries bring, the slots stay in order and are counted. -/
theorem netSetupUdpLoop_kept (kernel : UdpKernel) (entries : List Addrinfo) (index : Nat)
    {count : Nat} {socks : Sockets} {table : FdTable SocketInfo} (h : Kept socks table)
    (hcount : count = socks.slots.length) :
    let result := netSetupUdpLoop kernel index entries count socks table
    Kept result.2.1 result.2.2 ∧ result.1 = result.2.1.slots.length := by
  induction entries generalizing index count socks table with
  | nil => exact ⟨h,hcount⟩
  | cons info entries ih =>
    unfold netSetupUdpLoop
    split
    · exact ⟨h,hcount⟩
    · split
      · exact ih _ h hcount
      · rename_i new _
        have hfd : new.fd ≠ -1 := by
          have := new.nonneg
          omega
        have hopen := table.addedTo_openFd new ⟨info.aiFamily,false,false⟩
        simp only
        split
        · exact ih _ (h.closeFd hopen) hcount
        · -- the table after the option, and what it says of the socket
          generalize hmodify : (if info.aiFamily = AF_INET6.toNat then
            (table.openFd new ⟨info.aiFamily,false,false⟩).modify new.fd
              fun s => { s with v6only := true }
            else table.openFd new ⟨info.aiFamily,false,false⟩) = table'
          have hset : table.AddedTo ⟨table.opened,new.fd,info.aiFamily,
              decide (info.aiFamily = AF_INET6.toNat),false⟩ table' := by
            subst hmodify
            split
            · rename_i h6
              simpa [h6] using hopen.modify fun s => { s with v6only := true }
            · rename_i h6
              simpa [h6] using hopen
          split
          · exact ih _ (h.closeFd hset) hcount
          · have hbound := hset.modify fun s => { s with bound := true }
            split
            · rename_i h4
              refine ih _ (h.storeV4 hbound h4.2 hfd ⟨h4.1,rfl⟩) ?_
              rw [Sockets.length_slots_v4 h4.2 hfd,hcount]
            · split
              · rename_i h6
                refine ih _ (h.storeV6 hbound h6.2 hfd ⟨h6.1,by simp [h6.1],rfl⟩) ?_
                rw [Sockets.length_slots_v6 h6.2 hfd,hcount]
              · exact ih _ (h.closeFd hbound) hcount

theorem kept_start : Kept ⟨-1,-1⟩ FdTable.empty :=
  ⟨List.Perm.refl _,rfl,Or.inl rfl,Or.inl rfl⟩

theorem netSetupUdpSockets_kept (kernel : UdpKernel) (port : UInt16) :
    let result := netSetupUdpSockets kernel ⟨-1,-1⟩ port FdTable.empty
    Kept result.2.1 result.2.2 ∧
      result.1 = if result.2.1.slots = [] then -1 else (result.2.1.slots.length : Int) := by
  unfold netSetupUdpSockets
  simp only
  split
  · exact ⟨kept_start,rfl⟩
  · rename_i head _
    obtain ⟨hkept,hcount⟩ := netSetupUdpLoop_kept kernel head 0 kept_start
      (rfl : 0 = (Sockets.slots ⟨-1,-1⟩).length)
    generalize netSetupUdpLoop kernel 0 head 0 ⟨-1,-1⟩ FdTable.empty = result at hkept hcount
    split
    · rename_i hzero
      rw [hcount] at hzero
      exact ⟨hkept,by simp [List.length_eq_zero_iff.mp hzero]⟩
    · rename_i hzero
      rw [hcount,List.length_eq_zero_iff] at hzero
      exact ⟨hkept,by simp [hzero,hcount]⟩

/-- The opening of this number was closed, once, or its descriptor is in one slot. -/
def StoredOrClosed (socks : Sockets) (table : FdTable SocketInfo) (serial : Nat) : Prop :=
  (table.closed.count serial = 1 ∧ ∀ d ∈ table.live, d.serial ≠ serial) ∨
    (table.closed.count serial = 0 ∧
      ∃ d ∈ table.live, d.serial = serial ∧ socks.slots.count d.fd = 1)

theorem Kept.storedOrClosed {socks : Sockets} {table : FdTable SocketInfo} (h : Kept socks table)
    {serial : Nat} (hserial : serial < table.opened) : StoredOrClosed socks table serial := by
  have hone := table.closed_or_live hserial
  by_cases hmem : serial ∈ table.live.map Descriptor.serial
  · right
    have hpos := List.count_pos_iff.mpr hmem
    obtain ⟨d,hd,heq⟩ := List.mem_map.mp hmem
    refine ⟨by omega,d,hd,heq,?_⟩
    rw [← h.live.count_eq]
    exact List.count_eq_one_of_mem table.distinct (List.mem_map_of_mem hd)
  · left
    have hzero := List.count_eq_zero.mpr hmem
    exact ⟨by omega,fun d hd heq => hmem (heq ▸ List.mem_map_of_mem hd)⟩

theorem mem_slots {socks : Sockets} {fd : Int} (h : fd ∈ socks.slots) :
    fd ≠ -1 ∧ (fd = socks.v4 ∨ fd = socks.v6) := by
  simp only [Sockets.slots,List.mem_append] at h
  rcases h with h | h
  · split at h
    · rename_i hne
      obtain rfl := List.mem_singleton.mp h
      exact ⟨hne,Or.inl rfl⟩
    · contradiction
  · split at h
    · rename_i hne
      obtain rfl := List.mem_singleton.mp h
      exact ⟨hne,Or.inr rfl⟩
    · contradiction

section Reply

def ReportsPeers (s : SocketInfo) (session : Session) : Prop :=
  (s.family = AF_INET.toNat → ∃ sa h, session.addr = .inet sa h) ∧
    (s.family = AF_INET6.toNat → s.v6only = true → ∃ sa6 h, session.addr = .inet6 sa6 h)

theorem Kept.reply {socks : Sockets} {table : FdTable SocketInfo} (h : Kept socks table)
    {d : Descriptor SocketInfo} (hd : d ∈ table.live) {session : Session}
    (hpeer : ReportsPeers d.info session) {client : ClientState} (hsocks : client.socks = socks)
    (sendto : Int → Session → Bytes → Sendto) (buf : Bytes) :
    d.fd ≠ -1 ∧ (netHandleSend sendto session buf client).2 = some d.fd := by
  have hslot : d.fd ∈ socks.slots := h.live.subset (List.mem_map_of_mem hd)
  obtain ⟨hne,hv⟩ := mem_slots hslot
  refine ⟨hne,?_⟩
  rcases hv with hv | hv
  · obtain hnone | ⟨e,he,hfd,hserves⟩ := h.v4
    · exact absurd (hv.trans hnone) hne
    · obtain rfl := FdTable.eq_of_fd hd he (hv.trans hfd.symm)
      obtain ⟨sa,hfamily,haddr⟩ := hpeer.1 hserves.1
      simp only [netHandleSend,haddr,hsocks,← hv]
      split <;> rfl
  · obtain hnone | ⟨e,he,hfd,hserves⟩ := h.v6
    · exact absurd (hv.trans hnone) hne
    · obtain rfl := FdTable.eq_of_fd hd he (hv.trans hfd.symm)
      obtain ⟨sa6,hfamily,haddr⟩ := hpeer.2 hserves.1 hserves.2.1
      simp only [netHandleSend,haddr,hsocks,← hv]
      split <;> rfl

variable {δ : Type}

theorem netHandleEpoll_handed_subset
    (dtlsHandleMessage : Session → Bytes → ClientState → δ → Int × ClientState × δ) (maxBuf : Nat)
    (queue : List Recvfrom) (client : ClientState) (dtls : δ) :
    (netHandleEpoll dtlsHandleMessage maxBuf queue client dtls).handed ⊆ arrivals queue := by
  induction queue generalizing client dtls with
  | nil => simp [netHandleEpoll]
  | cons answer queue ih =>
    cases answer with
    | again => simp [netHandleEpoll]
    | failed => simp [netHandleEpoll]
    | datagram session bytes =>
      simp only [netHandleEpoll,arrivals]
      split
      · exact List.subset_cons_of_subset _ (ih _ _)
      · split
        · exact List.cons_subset_cons _ (List.nil_subset _)
        · exact List.cons_subset_cons _ (ih _ _)

end Reply

structure BooksKept (result : Int × Sockets × FdTable SocketInfo) : Prop where
  openings : ∀ serial < result.2.2.opened, StoredOrClosed result.2.1 result.2.2 serial
  failedCloses : result.2.2.failedCloses = 0
  v4 : SlotHolds result.2.2 ServesIpv4 result.2.1.v4
  v6 : SlotHolds result.2.2 ServesIpv6 result.2.1.v6
  result : result.1 = -1 ∧ result.2.1 = ⟨-1,-1⟩ ∨
    result.2.1 ≠ ⟨-1,-1⟩ ∧ result.1 = result.2.1.slots.length

/-- Whatever the system answers, the set-up keeps its books, and the reply to a datagram
that was read from one of the sockets leaves by that socket. -/
theorem udp_sockets_kept (kernel : UdpKernel) (port : UInt16) :
    let result := netSetupUdpSockets kernel ⟨-1,-1⟩ port FdTable.empty
    BooksKept result ∧
      ∀ d ∈ result.2.2.live, ∀ queue, (∀ p ∈ arrivals queue, ReportsPeers d.info p.1) →
        ∀ (δ : Type) (dtlsHandleMessage : Session → Bytes → ClientState → δ → Int × ClientState × δ)
          maxBuf client dtls,
          ∀ p ∈ (netHandleEpoll dtlsHandleMessage maxBuf queue client dtls).handed,
            ∀ (sendto : Int → Session → Bytes → Sendto) buf, ∀ client' : ClientState,
              client'.socks = result.2.1 →
              d.fd ≠ -1 ∧ (netHandleSend sendto p.1 buf client').2 = some d.fd := by
  obtain ⟨hkept,hresult⟩ := netSetupUdpSockets_kept kernel port
  refine ⟨⟨fun _ hs => hkept.storedOrClosed hs,hkept.failedCloses,hkept.v4,hkept.v6,?_⟩,?_⟩
  · split at hresult
    · rename_i hnone
      exact Or.inl ⟨hresult,Sockets.slots_eq_nil.mp hnone⟩
    · rename_i hsome
      exact Or.inr ⟨fun heq => hsome (Sockets.slots_eq_nil.mpr heq),hresult⟩
  · intro d hd queue hpeers δ handle maxBuf client dtls p hp sendto buf client' hsocks
    exact hkept.reply hd (hpeers p (netHandleEpoll_handed_subset _ _ _ _ _ hp)) hsocks
      sendto buf

def UdpKernel.sample : UdpKernel where
  getaddrinfo _ hints := some [{ hints with aiFamily := AF_INET6.toNat },
    { hints with aiFamily := AF_INET.toNat },{ hints with aiFamily := AF_INET.toNat }]
  socket index _ table :=
    if h : (3 + index : Int) ∉ table.live.map Descriptor.fd then some ⟨3 + index,by omega,h⟩
    else none
  setsockopt _ := false
  bind _ := true

theorem udp_sockets_kept_sample :
    let result := netSetupUdpSockets .sample ⟨-1,-1⟩ 60000 FdTable.empty
    let peer : Session := ⟨.inet ⟨AF_INET,5353,#v[192,168,0,7]⟩ rfl⟩
    BooksKept result ∧ result.1 = 1 ∧ result.2.1 = ⟨4,-1⟩ ∧ result.2.2.closed = [0,2] ∧
      (netHandleSend (fun _ _ buf => .sent buf.length) peer (ascii "hello")
        ⟨[],result.2.1,[],0,[]⟩).2 = some 4 := by
  obtain ⟨hbooks,hreply⟩ := udp_sockets_kept .sample 60000
  refine ⟨hbooks,by decide,by decide,by decide,?_⟩
  have hpeers : ∀ p ∈ arrivals (queueOf [(⟨.inet ⟨AF_INET,5353,#v[192,168,0,7]⟩ rfl⟩,[1])]),
      ReportsPeers ⟨AF_INET.toNat,false,true⟩ p.1 := by
    intro p hp
    rw [arrivals_queueOf] at hp
    obtain rfl := List.mem_singleton.mp hp
    exact ⟨fun _ => ⟨_,rfl,rfl⟩,fun h => absurd h (by decide)⟩
  exact (hreply ⟨1,4,⟨AF_INET.toNat,false,true⟩⟩ (by decide) _ hpeers Unit
    (fun _ _ client dtls => (0,client,dtls)) 1400 ⟨[],⟨4,-1⟩,[],0,[]⟩ () (⟨_⟩,[1]) (by decide)
    _ (ascii "hello") _ rfl).2

end WlrRemote
