import WlrRemote.Advertise
import WlrRemote.Network
import WlrRemote.Runs

/-!
`main.c`: the event loop, one step at a time, and the signal handler of `setup.c`
that may run between any two of them.
-/

set_option autoImplicit false

namespace WlrRemote
open Octets

/-- The epoll set that the loop waits on; `none` where the program ends before it. -/
def mainEpollSet (epollCreate1 : Int) (epollCtl : EpollEvent → Bool) (socks : Sockets) (wlFd : Int)
    (service : Option AdvertiseService) : Option (List EpollEvent) :=
  let (epollFd,set,_) := netSetupEpoll epollCreate1 epollCtl socks wlFd
  if epollFd < 0 then none
  else
    match service with
    | none => some set
    | some service => (advertiseSetupEpoll epollCtl service).map (set ++ ·)

/-- Where the program is. `enterWait` is the moment before the system call. -/
inductive LoopPoint where
  | testQuit
  | dispatchPending
  | flush
  | enterWait
  | waiting
  | handling (events : List Int)
  | leaving (success : Bool)
  | closed (success : Bool)
  deriving DecidableEq

inductive EpollWait where
  | ready (events : List Int)
  | interrupted
  | failed

/-- What the outside does: a signal, or what a call of the step at hand brings. -/
inductive LoopInput where
  | signal
  | proceed
  | flushed (all : Bool) (requests : Nat)
  | returned (result : EpollWait)
  | dispatched (result : Int)
  | received (queue : List Recvfrom)
  | query (received : Option (Sockaddr × Bytes))

structure LoopState (δ : Type) where
  point : LoopPoint
  quit : Bool
  client : ClientState
  dtls : δ
  responder : ResponderState
  written : Nat

structure LoopEnv (δ : Type) where
  wlFd : Int
  maxBuf : Nat
  service : Option AdvertiseService
  dtlsHandleMessage : Session → Bytes → ClientState → δ → Int × ClientState × δ

variable {δ : Type}

/-- `wl_display_flush` writes all requests issued, or as many as fit. -/
def LoopState.flush (s : LoopState δ) (all : Bool) (requests : Nat) : LoopState δ :=
  let issued := s.client.virtualPointer.length
  { s with point := .enterWait, written := if all then issued else min (s.written + requests) issued }

def LoopState.handleEvent (env : LoopEnv δ) (s : LoopState δ) (fd : Int) (events : List Int) :
    LoopInput → Option (LoopState δ)
  | .dispatched result =>
    if fd = env.wlFd then
      some { s with point := if result < 0 then .leaving false else .handling events }
    else none
  | .received queue =>
    if fd ≠ env.wlFd ∧ (fd = s.client.socks.v4 ∨ fd = s.client.socks.v6) then
      let d := netHandleEpoll env.dtlsHandleMessage env.maxBuf queue s.client s.dtls
      some { s with
        point := if d.res < 0 then .leaving false else .handling events
        client := d.client
        dtls := d.dtls }
    else none
  | .query received =>
    if fd ≠ env.wlFd ∧ fd ≠ s.client.socks.v4 ∧ fd ≠ s.client.socks.v6 then
      match env.service with
      | none => some { s with point := .handling events }
      | some service => some { s with
          point := .handling events
          responder := advertiseRespondRequest service fd received s.responder }
    else none
  | _ => none

def loopStep (env : LoopEnv δ) (s : LoopState δ) (input : LoopInput) : Option (LoopState δ) :=
  match s.point, input with
  | .waiting, .signal => some { s with point := .testQuit, quit := true }
  | _, .signal => some { s with quit := true }
  | .testQuit, .proceed =>
    some { s with point := if s.quit then .leaving true else .dispatchPending }
  | .dispatchPending, .proceed => some { s with point := .flush }
  | .flush, .flushed all requests => some (s.flush all requests)
  | .enterWait, .proceed => some { s with point := .waiting }
  | .waiting, .returned (.ready events) => some { s with point := .handling events }
  | .waiting, .returned .interrupted => some { s with point := .testQuit }
  | .waiting, .returned .failed => some { s with point := .leaving false }
  | .handling [], .proceed => some { s with point := .testQuit }
  | .handling (fd :: events), input => s.handleEvent env fd events input
  | .leaving success, .proceed => some { s with
      point := .closed success
      responder := match env.service with
        | none => s.responder
        | some service => advertiseAnnounceGoodbye service s.responder }
  | _, _ => none

inductive Moves (env : LoopEnv δ) (s : LoopState δ) (input : LoopInput) (s' : LoopState δ) : Prop where
  | signal (hi : input = .signal) (hq : s'.quit = true)
      (hp : s'.point = if s.point = .waiting then .testQuit else s.point)
      (hr : s'.responder = s.responder)
  | quits (hs : s.point = .testQuit) (hi : input = .proceed) (hq : s.quit = true)
      (hq' : s'.quit = true) (hp : s'.point = .leaving true)
  | goesOn (hs : s.point = .testQuit) (hi : input = .proceed) (hq : s.quit = false)
      (hq' : s'.quit = false) (hp : s'.point = .dispatchPending)
  | dispatchesPending (hs : s.point = .dispatchPending) (hi : input = .proceed)
      (hq : s'.quit = s.quit) (hp : s'.point = .flush)
  | flushes (all : Bool) (requests : Nat) (hs : s.point = .flush) (hi : input = .flushed all requests)
      (hq : s'.quit = s.quit) (hp : s'.point = .enterWait)
  | enters (hs : s.point = .enterWait) (hi : input = .proceed) (hq : s'.quit = s.quit)
      (hp : s'.point = .waiting)
  | wakes (result : EpollWait) (hs : s.point = .waiting) (hi : input = .returned result)
      (hq : s'.quit = s.quit) (hp : s'.point = match result with
        | .ready events => .handling events
        | .interrupted => .testQuit
        | .failed => .leaving false)
  | finishes (hs : s.point = .handling []) (hi : input = .proceed) (hq : s'.quit = s.quit)
      (hp : s'.point = .testQuit)
  | dispatches (result fd : Int) (events : List Int) (hs : s.point = .handling (fd :: events))
      (hi : input = .dispatched result) (hq : s'.quit = s.quit)
      (hp : s'.point = if result < 0 then .leaving false else .handling events)
  | drains (queue : List Recvfrom) (fd : Int) (events : List Int)
      (hs : s.point = .handling (fd :: events)) (hi : input = .received queue)
      (hq : s'.quit = s.quit)
      (hp : s'.point = if (netHandleEpoll env.dtlsHandleMessage env.maxBuf queue s.client
        s.dtls).res < 0 then .leaving false else .handling events)
  | responds (received : Option (Sockaddr × Bytes)) (fd : Int) (events : List Int)
      (hs : s.point = .handling (fd :: events)) (hi : input = .query received)
      (hq : s'.quit = s.quit) (hp : s'.point = .handling events)
  | closes (success : Bool) (hs : s.point = .leaving success) (hi : input = .proceed)
      (hq : s'.quit = s.quit) (hp : s'.point = .closed success)
      (hr : s'.responder = match env.service with
        | none => s.responder
        | some service => advertiseAnnounceGoodbye service s.responder)

theorem handleEvent_moves {env : LoopEnv δ} {s s' : LoopState δ} {fd : Int} {events : List Int}
    {input : LoopInput} (hs : s.point = .handling (fd :: events))
    (h : s.handleEvent env fd events input = some s') : Moves env s input s' := by
  cases input with
  | dispatched result =>
    simp only [LoopState.handleEvent] at h
    split at h
    · obtain rfl := Option.some.inj h
      exact .dispatches result fd events hs rfl rfl rfl
    · contradiction
  | received queue =>
    simp only [LoopState.handleEvent] at h
    split at h
    · obtain rfl := Option.some.inj h
      exact .drains queue fd events hs rfl rfl rfl
    · contradiction
  | query received =>
    simp only [LoopState.handleEvent] at h
    split at h
    · split at h <;> obtain rfl := Option.some.inj h <;>
        exact .responds received fd events hs rfl rfl rfl
    · contradiction
  | signal | proceed | flushed | returned => contradiction

theorem loopStep_moves {env : LoopEnv δ} {s s' : LoopState δ} {input : LoopInput}
    (h : loopStep env s input = some s') : Moves env s input s' := by
  unfold loopStep at h
  split at h
  case h_1 hs =>
    obtain rfl := Option.some.inj h
    exact .signal rfl rfl (by simp [hs]) rfl
  case h_2 hs =>
    obtain rfl := Option.some.inj h
    exact .signal rfl rfl (by simpa using fun hp => absurd hp hs) rfl
  case h_3 hs =>
    obtain rfl := Option.some.inj h
    cases hq : s.quit with
    | true => exact .quits hs rfl hq rfl rfl
    | false => exact .goesOn hs rfl hq rfl rfl
  case h_4 hs =>
    obtain rfl := Option.some.inj h
    exact .dispatchesPending hs rfl rfl rfl
  case h_5 all requests hs =>
    obtain rfl := Option.some.inj h
    exact .flushes all requests hs rfl rfl rfl
  case h_6 hs =>
    obtain rfl := Option.some.inj h
    exact .enters hs rfl rfl rfl
  case h_7 events hs =>
    obtain rfl := Option.some.inj h
    exact .wakes (.ready events) hs rfl rfl rfl
  case h_8 hs =>
    obtain rfl := Option.some.inj h
    exact .wakes .interrupted hs rfl rfl rfl
  case h_9 hs =>
    obtain rfl := Option.some.inj h
    exact .wakes .failed hs rfl rfl rfl
  case h_10 hs =>
    obtain rfl := Option.some.inj h
    exact .finishes hs rfl rfl rfl
  case h_11 hs _ => exact handleEvent_moves hs h
  case h_12 success hs =>
    obtain rfl := Option.some.inj h
    exact .closes success hs rfl rfl rfl rfl
  case h_13 => contradiction

end WlrRemote
