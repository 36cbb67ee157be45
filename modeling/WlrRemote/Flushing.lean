import WlrRemote.MainLoop
import WlrRemote.TestClient

set_option autoImplicit false

namespace WlrRemote
open Octets Runs

theorem epollAdd_eq {epollCtl : EpollEvent → Bool} {events set : List EpollEvent}
    (h : epollAdd epollCtl events = some set) : set = events := by
  induction events generalizing set with
  | nil => exact (Option.some.inj h).symm
  | cons ev evs ih =>
    unfold epollAdd at h
    split at h
    · obtain ⟨rest,hrest,heq⟩ := Option.map_eq_some_iff.mp h
      rw [← heq,ih hrest]
    · contradiction

theorem Sockets.events_epollIn (socks : Sockets) : ∀ ev ∈ socks.epollIn, ev.events = EPOLLIN := by
  intro ev hev
  unfold epollIn at hev
  rcases List.mem_append.mp hev with h | h <;> split at h
  all_goals first | contradiction | rw [List.mem_singleton.mp h]

theorem netSetupEpoll_events (epollCreate1 : Int) (epollCtl : EpollEvent → Bool) (socks : Sockets)
    (wlFd : Int) : ∀ ev ∈ (netSetupEpoll epollCreate1 epollCtl socks wlFd).2.1,
      ev.events = EPOLLIN := by
  intro ev hev
  unfold netSetupEpoll at hev
  split at hev
  · contradiction
  · split at hev
    · rename_i set hset
      rw [epollAdd_eq hset] at hev
      rcases List.mem_cons.mp hev with rfl | hev
      · rfl
      · exact socks.events_epollIn ev hev
    · contradiction

theorem mainEpollSet_events {epollCreate1 : Int} {epollCtl : EpollEvent → Bool} {socks : Sockets}
    {wlFd : Int} {service : Option AdvertiseService} {set : List EpollEvent}
    (h : mainEpollSet epollCreate1 epollCtl socks wlFd service = some set) :
    ∀ ev ∈ set, ev.events = EPOLLIN := by
  have hnet := netSetupEpoll_events epollCreate1 epollCtl socks wlFd
  unfold mainEpollSet at h
  simp only at h
  split at h
  · contradiction
  · split at h
    · rw [← Option.some.inj h]
      exact hnet
    · rename_i service
      obtain ⟨more,hmore,heq⟩ := Option.map_eq_some_iff.mp h
      rw [← heq,epollAdd_eq hmore]
      intro ev hev
      rcases List.mem_append.mp hev with hev | hev
      · exact hnet ev hev
      · exact service.socks.events_epollIn ev hev

section Loop

variable {δ : Type} {env : LoopEnv δ}

def Delivered (s : LoopState δ) : Prop := s.client.virtualPointer.length ≤ s.written

def WakesOnWritable (set : List EpollEvent) (fd : Int) : Prop :=
  ∃ ev ∈ set, ev.fd = fd ∧ ev.events &&& EPOLLOUT ≠ 0

/-- The step does not go to sleep on input that nothing will deliver. -/
def SleepsDelivered (env : LoopEnv δ) (set : List EpollEvent) (s : LoopState δ) (_ : LoopInput)
    (s' : LoopState δ) : Prop :=
  s.point = .enterWait → s'.point = .waiting → Delivered s' ∨ WakesOnWritable set env.wlFd

def FlushesAll (s : LoopState δ) (input : LoopInput) (_ : LoopState δ) : Prop :=
  ∀ all requests, input = .flushed all requests →
    all = true ∨ s.client.virtualPointer.length ≤ s.written + requests

theorem loopStep_signal {s s' : LoopState δ} (h : loopStep env s .signal = some s') :
    s'.client = s.client ∧ s'.written = s.written := by
  unfold loopStep at h
  split at h
  case h_1 | h_2 =>
    obtain rfl := Option.some.inj h
    exact ⟨rfl,rfl⟩
  all_goals contradiction

theorem loopStep_proceed {s s' : LoopState δ} (h : loopStep env s .proceed = some s') :
    s'.client = s.client ∧ s'.written = s.written := by
  unfold loopStep at h
  split at h
  case h_11 => contradiction
  all_goals first | contradiction | (obtain rfl := Option.some.inj h; exact ⟨rfl,rfl⟩)

theorem loopStep_flushed {s s' : LoopState δ} {all : Bool} {requests : Nat}
    (hs : s.point = .flush) (h : loopStep env s (.flushed all requests) = some s') :
    s' = s.flush all requests := by
  simp only [loopStep,hs] at h
  exact (Option.some.inj h).symm

theorem delivered_flush {s : LoopState δ} {all : Bool} {requests : Nat} :
    Delivered (s.flush all requests) ↔
      all = true ∨ s.client.virtualPointer.length ≤ s.written + requests := by
  cases all <;> simp [Delivered,LoopState.flush]

/-- Before the wait nothing is left to write. -/
def FlushInv (s : LoopState δ) : Prop := s.point = .enterWait → Delivered s

theorem flushInv_step {s s' : LoopState δ} {input : LoopInput} (hs : FlushInv s)
    (hstep : loopStep env s input = some s') (hall : FlushesAll s input s') : FlushInv s' := by
  intro hpoint
  cases loopStep_moves hstep with
  | signal hi hq hp hr =>
    subst hi
    obtain ⟨hclient,hwritten⟩ := loopStep_signal hstep
    rw [hp] at hpoint
    split at hpoint
    · contradiction
    · unfold Delivered
      rw [hclient,hwritten]
      exact hs hpoint
  | flushes all requests hs' hi hq hp =>
    subst hi
    rw [loopStep_flushed hs' hstep,delivered_flush]
    exact hall all requests rfl
  | quits hs' hi hq hq' hp => simp [hp] at hpoint
  | goesOn hs' hi hq hq' hp => simp [hp] at hpoint
  | dispatchesPending hs' hi hq hp => simp [hp] at hpoint
  | enters hs' hi hq hp => simp [hp] at hpoint
  | wakes result hs' hi hq hp =>
    rw [hp] at hpoint
    cases result <;> contradiction
  | finishes hs' hi hq hp => simp [hp] at hpoint
  | dispatches result fd events hs' hi hq hp =>
    rw [hp] at hpoint
    split at hpoint <;> contradiction
  | drains queue fd events hs' hi hq hp =>
    rw [hp] at hpoint
    split at hpoint <;> contradiction
  | responds received fd events hs' hi hq hp => simp [hp] at hpoint
  | closes success hs' hi hq hp hr => simp [hp] at hpoint

theorem input_of_enters {s s' : LoopState δ} {input : LoopInput} (hs : s.point = .enterWait)
    (hstep : loopStep env s input = some s') (hs' : s'.point = .waiting) : input = .proceed := by
  cases loopStep_moves hstep with
  | signal hi hq hp hr => simp [hs,hs'] at hp
  | enters hs' hi hq hp => exact hi
  | quits h | goesOn h | dispatchesPending h | flushes _ _ h | wakes _ h | finishes h
  | dispatches _ _ _ h | drains _ _ _ h | responds _ _ _ h | closes _ h => simp [hs] at h

theorem sleepsDelivered_step (set : List EpollEvent) {s s' : LoopState δ} {input : LoopInput}
    (hs : FlushInv s) (hstep : loopStep env s input = some s') (hall : FlushesAll s input s') :
    FlushInv s' ∧ SleepsDelivered env set s input s' := by
  refine ⟨flushInv_step hs hstep hall,?_⟩
  intro hpoint hpoint'
  obtain rfl := input_of_enters hpoint hstep hpoint'
  obtain ⟨hclient,hwritten⟩ := loopStep_proceed hstep
  left
  unfold Delivered
  rw [hclient,hwritten]
  exact hs hpoint

/-- In a run that starts at the top of the loop and where each flush writes all, the loop
never sleeps on undelivered input; where a flush leaves something, the next wait does. -/
theorem sleeps_delivered (env : LoopEnv δ) {epollCreate1 : Int} {epollCtl : EpollEvent → Bool}
    {socks : Sockets} {set : List EpollEvent}
    (hset : mainEpollSet epollCreate1 epollCtl socks env.wlFd env.service = some set) :
    (∀ s inputs, s.point = .testQuit → Along (loopStep env) FlushesAll s inputs →
      Along (loopStep env) (SleepsDelivered env set) s inputs) ∧
    ∀ s input s₁ s₂, loopStep env s input = some s₁ → ¬ FlushesAll s input s₁ →
      loopStep env s₁ .proceed = some s₂ → ¬ SleepsDelivered env set s₁ .proceed s₂ := by
  constructor
  · intro s inputs hs hall
    have hinv : FlushInv s := by simp [FlushInv,hs]
    exact Along.of_inv (fun _ _ _ => sleepsDelivered_step set) hinv hall
  · intro s input s₁ s₂ h₁ hnot h₂ hsleeps
    simp only [FlushesAll,not_forall] at hnot
    obtain ⟨all,requests,rfl,hleft⟩ := hnot
    cases loopStep_moves h₁ with
    | flushes all requests hs hi hq hp =>
      cases hi
      obtain rfl := loopStep_flushed hs h₁
      obtain ⟨hclient,hwritten⟩ := loopStep_proceed h₂
      have hwaits : s₂.point = .waiting := by
        rw [← Option.some.inj h₂]
      rcases hsleeps rfl hwaits with hd | ⟨ev,hev,-,hout⟩
      · unfold Delivered at hd
        rw [hclient,hwritten] at hd
        exact hleft (delivered_flush.mp hd)
      · rw [mainEpollSet_events hset ev hev] at hout
        exact hout rfl
    | signal hi | quits _ hi | goesOn _ hi | dispatchesPending _ hi | enters _ hi | wakes _ _ hi
    | finishes _ hi | dispatches _ _ _ _ hi | drains _ _ _ _ hi | responds _ _ _ _ hi
    | closes _ _ hi => cases hi

end Loop

def plainEnv : LoopEnv Unit where
  wlFd := 3
  maxBuf := 1400
  service := none
  dtlsHandleMessage session bytes client _ :=
    let (res,client) := netHandleReceive .little session bytes client
    (res,client,())

theorem sleeps_delivered_click :
    let s : LoopState Unit := ⟨.testQuit,false,⟨[.button 0 272 1,.frame],⟨5,-1⟩,[],0,[]⟩,(),
      ⟨fun _ => 0,fun _ => 0,[]⟩,0⟩
    Along (loopStep plainEnv) (SleepsDelivered plainEnv [⟨3,EPOLLIN⟩,⟨5,EPOLLIN⟩]) s
      [.proceed,.proceed,.flushed false 2,.proceed,.returned (.ready [])] := by
  intro s
  have hset : mainEpollSet 4 (fun _ => true) ⟨5,-1⟩ plainEnv.wlFd plainEnv.service =
      some [⟨3,EPOLLIN⟩,⟨5,EPOLLIN⟩] := by decide
  apply (sleeps_delivered plainEnv hset).1 s _ rfl
  simp [Along,loopStep,FlushesAll,LoopState.flush,s]

/-- The release of a button arrives while the compositor takes nothing: the loop sleeps on it,
and only further input would wake it. -/
theorem release_left_unwritten :
    let s : LoopState Unit := ⟨.testQuit,false,⟨[],⟨5,-1⟩,[],0,[]⟩,(),⟨fun _ => 0,fun _ => 0,[]⟩,0⟩
    let set : List EpollEvent := [⟨3,EPOLLIN⟩,⟨5,EPOLLIN⟩]
    let inputs : List LoopInput := [.proceed,.proceed,.flushed true 0,.proceed,.returned (.ready [5]),
      .received [.datagram ⟨.other⟩ (testClientPacket .little 0 0 BTN_LEFT 0),.again],
      .proceed,.proceed,.proceed,.flushed false 0]
    mainEpollSet 4 (fun _ => true) ⟨5,-1⟩ plainEnv.wlFd plainEnv.service = some set ∧
      (∃ s', run (loopStep plainEnv) s (inputs ++ [.proceed]) = some s' ∧ s'.point = .waiting ∧
        s'.client.virtualPointer = [.button 0 272 0,.frame] ∧ s'.written = 0) ∧
      ¬ Along (loopStep plainEnv) (SleepsDelivered plainEnv set) s (inputs ++ [.proceed]) := by
  intro s set inputs
  refine ⟨by decide,⟨_,rfl,rfl,by decide,rfl⟩,?_⟩
  intro h
  rcases h.last rfl rfl rfl rfl with hd | ⟨ev,hev,-,hout⟩
  · exact absurd hd (by unfold Delivered; decide)
  · exact absurd hout (by revert ev; decide)

end WlrRemote
