import WlrRemote.CachesFollow

set_option autoImplicit false

namespace WlrRemote
open Octets

/-- A service of a host with a legal name, of which the messages can be read. -/
structure HostedService where
  hostname : HostName
  service : AdvertiseService
  built : ∃ env port, env.gethostname = some hostname ∧
    advertiseCreateService env port = some service
  wellFormed : hostname.WellFormed
  apart : NamesApart service

theorem HostedService.serviceOf (s : HostedService) : ServiceOf s.hostname s.service := by
  obtain ⟨env,port,hhost,hservice⟩ := s.built
  obtain ⟨hostname,hhost',hof⟩ := advertiseCreateService_serviceOf hservice
  obtain rfl := Option.some.inj (hhost.symm.trans hhost')
  exact hof

/-- The service sends the bytes in some state or other; `true` stands for its goodbye. -/
inductive SentBy (service : AdvertiseService) : Bool → Bytes → Prop where
  | announcement (state : ResponderState) (sent : List Sent) (d : Sent)
    (h : (advertiseAnnounceService service state).sent = state.sent ++ sent) (hd : d ∈ sent) :
    SentBy service false d.bytes
  | answer (sock : Int) (received : Option (Sockaddr × Bytes)) (state : ResponderState)
    (sent : List Sent) (d : Sent)
    (h : (advertiseRespondRequest service sock received state).sent = state.sent ++ sent)
    (hd : d ∈ sent) : SentBy service false d.bytes
  | goodbye (state : ResponderState) (sent : List Sent) (d : Sent)
    (h : (advertiseAnnounceGoodbye service state).sent = state.sent ++ sent) (hd : d ∈ sent) :
    SentBy service true d.bytes

/-- A message as it reaches the listener: when, by which way and how often does not matter. -/
structure HeardMessage where
  origin : HostedService
  ends : Bool
  sock : Int
  src : Sockaddr
  bytes : Bytes
  sentBy : SentBy origin.service ends bytes

def HeardMessage.received (x : HeardMessage) : Int × Sockaddr × Bytes := (x.sock,x.src,x.bytes)

def HeardMessage.Tells (x : HeardMessage) (m : RecordMeaning) : Prop :=
  x.ends = false ∧ m ∈ saidBy x.bytes

def HeardMessage.Withdraws (x : HeardMessage) (m : RecordMeaning) : Prop :=
  x.ends = true ∧ m ∈ serviceRecords x.origin.service

theorem SentBy.vouches {s : HostedService} {bytes : Bytes} (h : SentBy s.service false bytes) :
    Vouches s.service bytes := by
  cases h with
  | announcement state sent d h hd =>
    obtain ⟨text,htext,-,hvouches⟩ := s.serviceOf.announcement s.wellFormed s.apart state
    obtain rfl := List.append_cancel_left (h.symm.trans htext)
    obtain ⟨sock,-,rfl⟩ := List.mem_map.mp hd
    exact hvouches
  | answer sock received state sent d h hd =>
    obtain ⟨answers,hanswers,hvouches⟩ :=
      s.serviceOf.respond_vouches s.wellFormed s.apart sock received state
    obtain rfl := List.append_cancel_left (h.symm.trans hanswers)
    exact hvouches d hd

theorem SentBy.withdraws {s : HostedService} {bytes : Bytes} (h : SentBy s.service true bytes) :
    saidBy bytes = serviceRecords s.service ∧ bytes.length ≤ advertiseBufferCapacity ∧
      ∃ saids, decodeSaids bytes = some saids ∧ ∀ s ∈ saids, s.2.ttl = 0 := by
  cases h with
  | goodbye state sent d h hd =>
    obtain ⟨text,htext,hsaid,hlong,htold⟩ := s.serviceOf.goodbye s.wellFormed s.apart state
    obtain rfl := List.append_cancel_left (h.symm.trans htext)
    obtain ⟨sock,-,rfl⟩ := List.mem_map.mp hd
    exact ⟨hsaid,hlong,htold⟩

def HeardMessage.change (x : HeardMessage) : Bool × Set RecordMeaning := (x.ends,saidBy x.bytes)

section Heard

variable {capacity : Nat} (hcap : advertiseBufferCapacity ≤ capacity)
include hcap

theorem HeardMessage.listen (x : HeardMessage) (l : Mem × Set RecordMeaning) :
    (WlrRemote.listen capacity l x.received).2 = Caches.change l.2 x.change := by
  obtain ⟨origin,ends,sock,src,bytes,sentBy⟩ := x
  cases ends with
  | false =>
    obtain ⟨hlong,⟨saids,hsaids,hlasting⟩,-⟩ := sentBy.vouches
    exact listen_lasting hsaids hlasting (hlong.trans hcap) l sock src
  | true =>
    obtain ⟨-,hlong,saids,hsaids,hover⟩ := sentBy.withdraws
    exact listen_over hsaids hover (hlong.trans hcap) l sock src

theorem listenAll_changes (heard : List HeardMessage) (l : Mem × Set RecordMeaning) :
    (listenAll capacity (heard.map HeardMessage.received) l).2 =
      (heard.map HeardMessage.change).foldl Caches.change l.2 := by
  induction heard generalizing l with
  | nil => rfl
  | cons x heard ih =>
    rw [List.map_cons,listenAll,List.foldl_cons,← listenAll,ih,x.listen hcap l]
    rfl

/-- The last word counts. Whatever messages a listener hears, of any number of services and in
any order, it believes in a record exactly if some message told it so, or it did before, and
no service of that record has said goodbye since. Of each service it is told the records that
service has, all of them by an announcement, and nothing else but for their common type. -/
theorem last_word_counts (heard : List HeardMessage) (l : Mem × Set RecordMeaning)
    (m : RecordMeaning) :
    (m ∈ (listenAll capacity (heard.map HeardMessage.received) l).2 ↔
      (m ∈ l.2 ∧ ∀ y ∈ heard, ¬ y.Withdraws m) ∨
        ∃ before x after, heard = before ++ x :: after ∧ x.Tells m ∧
          ∀ y ∈ after, ¬ y.Withdraws m) ∧
    (∀ x ∈ heard, x.Tells m → m ∈ serviceRecords x.origin.service ∨ m = typeRecord) ∧
    ∀ (s : HostedService) (state : ResponderState) (sent : List Sent),
      (advertiseAnnounceService s.service state).sent = state.sent ++ sent →
        ∀ d ∈ sent, saidBy d.bytes = serviceRecords s.service := by
  have hover (y : HeardMessage) : (y.change.1 = true ∧ m ∈ y.change.2) ↔ y.Withdraws m := by
    obtain ⟨origin,ends,sock,src,bytes,sentBy⟩ := y
    refine and_congr_right fun hover => ?_
    obtain rfl : ends = true := hover
    rw [← sentBy.withdraws.1]
    rfl
  refine ⟨?_,?_,?_⟩
  · rw [listenAll_changes hcap,Caches.mem_changes,List.forall_mem_map]
    simp only [hover]
    refine or_congr_right ⟨?_,?_⟩
    · rintro ⟨before,x,after,heq,hx,hafter⟩
      obtain ⟨before,rest,rfl,rfl,hrest⟩ := List.map_eq_append_iff.mp heq
      obtain ⟨x,after,rfl,rfl,rfl⟩ := List.map_eq_cons_iff.mp hrest
      rw [List.forall_mem_map] at hafter
      exact ⟨before,x,after,rfl,hx,fun y hy hy' => hafter y hy ((hover y).mpr hy')⟩
    · rintro ⟨before,x,after,rfl,hx,hafter⟩
      refine ⟨before.map HeardMessage.change,x.change,after.map HeardMessage.change,by simp,hx,?_⟩
      rw [List.forall_mem_map]
      exact fun y hy hy' => hafter y hy ((hover y).mp hy')
  · intro x _ htells
    obtain ⟨origin,ends,sock,src,bytes,sentBy⟩ := x
    obtain ⟨hover,hm⟩ := htells
    obtain rfl : ends = false := hover
    exact sentBy.vouches.own hm
  · intro s state sent h d hd
    obtain ⟨text,htext,hsaid,-⟩ := s.serviceOf.announcement s.wellFormed s.apart state
    obtain rfl := List.append_cancel_left (h.symm.trans htext)
    obtain ⟨sock,-,rfl⟩ := List.mem_map.mp hd
    exact hsaid

end Heard

def hostC : HostName := ⟨ascii "c",by decide,by decide⟩

def hostedTwo (second : Bool) : HostedService where
  hostname := if second then hostC else hostA
  service := oneInterfaceService (if second then hostC else hostA) 7777
  built := ⟨_,_,rfl,advertiseCreateService_oneInterface _ 7777⟩
  wellFormed := by cases second <;> decide
  apart := by cases second <;> decide +kernel

theorem hostedTwo_socket (second : Bool) : 3 ∈ announceSockets (hostedTwo second).service := by
  cases second <;> decide

theorem last_word_counts_twoHosts : ∃ heard : List HeardMessage,
    heard.map (fun x => (x.origin,x.ends)) =
      [(hostedTwo false,false),(hostedTwo true,false),(hostedTwo false,true)] ∧
    let believed := (listenAll advertiseBufferCapacity (heard.map HeardMessage.received)
      (fun _ => 0,∅)).2
    (hostedTwo false).service.recordSrv.meaning ∉ believed ∧
      (hostedTwo true).service.recordSrv.meaning ∈ believed := by
  let state : ResponderState := ⟨fun _ => 0,fun _ => 0,[]⟩
  have hannounces (second : Bool) : ∃ x : HeardMessage, x.origin = hostedTwo second ∧
      x.ends = false ∧ saidBy x.bytes = serviceRecords (hostedTwo second).service := by
    obtain ⟨text,htext,hsaid,-⟩ := (hostedTwo second).serviceOf.announcement
      (hostedTwo second).wellFormed (hostedTwo second).apart state
    have hd : (⟨3,none,text⟩ : Sent) ∈ (announceSockets (hostedTwo second).service).map
        fun sock => ⟨sock,none,text⟩ := List.mem_map_of_mem (hostedTwo_socket second)
    exact ⟨⟨hostedTwo second,false,3,.other,text,.announcement state _ _ htext hd⟩,rfl,rfl,hsaid⟩
  have hleaves : ∃ x : HeardMessage, x.origin = hostedTwo false ∧ x.ends = true := by
    obtain ⟨text,htext,-⟩ := (hostedTwo false).serviceOf.goodbye
      (hostedTwo false).wellFormed (hostedTwo false).apart state
    have hd : (⟨3,none,text⟩ : Sent) ∈ (announceSockets (hostedTwo false).service).map
        fun sock => ⟨sock,none,text⟩ := List.mem_map_of_mem (hostedTwo_socket false)
    exact ⟨⟨hostedTwo false,true,3,.other,text,.goodbye state _ _ htext hd⟩,rfl,rfl⟩
  obtain ⟨x,hx,hxover,hxsaid⟩ := hannounces false
  obtain ⟨y,hy,hyover,hysaid⟩ := hannounces true
  obtain ⟨z,hz,hzover⟩ := hleaves
  have hcounts := last_word_counts (Nat.le_refl advertiseBufferCapacity) [x,y,z] (fun _ => 0,∅)
  have hsrv (s : AdvertiseService) : s.recordSrv.meaning ∈ serviceRecords s :=
    ⟨_,mem_announced.mpr (Or.inr (Or.inl rfl)),rfl⟩
  have hother : (hostedTwo true).service.recordSrv.meaning ∉
      serviceRecords (hostedTwo false).service := by
    rintro ⟨r,hr,heq⟩
    revert r
    decide +kernel
  refine ⟨[x,y,z],by simp [hx,hy,hz,hxover,hyover,hzover],?_,?_⟩
  · intro hm
    have hgone : z.Withdraws (hostedTwo false).service.recordSrv.meaning :=
      ⟨hzover,by rw [hz]; exact hsrv _⟩
    rcases (hcounts _).1.mp hm with ⟨hm,-⟩ | ⟨before,w,after,heq,htells,hafter⟩
    · exact hm
    · have hlast : z ∈ w :: after := by
        have hz : (w :: after).getLast? = some z := by
          rw [← List.getLast?_append_of_ne_nil before (List.cons_ne_nil w after),← heq]
          rfl
        exact List.mem_of_getLast? hz
      rcases List.mem_cons.mp hlast with rfl | hmem
      · exact absurd (hzover.symm.trans htells.1) (by decide)
      · exact hafter z hmem hgone
  · refine (hcounts _).1.mpr (Or.inr ⟨[x],y,[z],rfl,⟨hyover,by rw [hysaid]; exact hsrv _⟩,?_⟩)
    intro w hw hgone
    obtain rfl := List.mem_singleton.mp hw
    rw [HeardMessage.Withdraws,hz] at hgone
    exact hother hgone.2

end WlrRemote
