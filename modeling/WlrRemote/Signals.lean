import WlrRemote.MainLoop

set_option autoImplicit false

namespace WlrRemote
open Octets Runs

variable {δ : Type} {env : LoopEnv δ}

/-- The points between the test of `quit` and the call that blocks. -/
def inWindow : LoopPoint → Bool
  | .dispatchPending | .flush | .enterWait => true
  | _ => false

def LoopInput.isSignal : LoopInput → Bool
  | .signal => true
  | _ => false

/-- A step of the program that waits for nothing from outside. -/
def LoopInput.isOwn : LoopInput → Bool
  | .signal | .returned _ => false
  | _ => true

/-- How many steps of its own the program takes at most from a point until it is closed,
once `quit` is set outside the window. -/
def stepsLeft : LoopPoint → Nat
  | .handling events => events.length + 3
  | .testQuit => 2
  | .leaving _ => 1
  | _ => 0

def Noticed (s : LoopState δ) : Prop :=
  s.quit = true ∧ inWindow s.point = false ∧ s.point ≠ .waiting

def SaidGoodbye (env : LoopEnv δ) (s : LoopState δ) : Prop :=
  ∀ service, env.service = some service →
    ∃ responder, s.responder = advertiseAnnounceGoodbye service responder

def CleanedUp (env : LoopEnv δ) (s : LoopState δ) : Prop :=
  (∃ success, s.point = .closed success) ∧ SaidGoodbye env s

/-- However the run goes on, it never waits, it has come to the end of the cleanup after so many
steps, and up to there steps of its own lead on to that end. -/
def CleanupFollows (env : LoopEnv δ) (s : LoopState δ) : Prop :=
  ∀ inputs s', run (loopStep env) s inputs = some s' →
    s'.point ≠ .waiting ∧
      (stepsLeft s.point ≤ inputs.countP (fun input => !input.isSignal) → CleanedUp env s') ∧
      ∃ more s'', (∀ input ∈ more, input.isOwn = true) ∧
        run (loopStep env) s' more = some s'' ∧ CleanedUp env s''

theorem noticed_step {s s' : LoopState δ} {input : LoopInput} (hs : Noticed s)
    (hstep : loopStep env s input = some s') :
    Noticed s' ∧ stepsLeft s'.point + (if input.isSignal then 0 else 1) ≤ stepsLeft s.point := by
  obtain ⟨hquit,hwin,hwait⟩ := hs
  cases loopStep_moves hstep with
  | signal hi hq hp hr =>
    rw [if_neg hwait] at hp
    simp [Noticed,hq,hp,hwin,hwait,hi,LoopInput.isSignal]
  | quits hs hi hq hq' hp => simp [Noticed,hq',hp,hs,hi,inWindow,stepsLeft,LoopInput.isSignal]
  | goesOn hs hi hq hq' hp => simp [hq] at hquit
  | dispatchesPending hs hi hq hp => simp [hs,inWindow] at hwin
  | flushes all requests hs hi hq hp => simp [hs,inWindow] at hwin
  | enters hs hi hq hp => simp [hs,inWindow] at hwin
  | wakes result hs hi hq hp => exact absurd hs hwait
  | finishes hs hi hq hp => simp [Noticed,hq,hquit,hp,hs,hi,inWindow,stepsLeft,LoopInput.isSignal]
  | dispatches result fd events hs hi hq hp =>
    rw [hs,hi]
    split at hp <;> simp [Noticed,hq,hquit,hp,inWindow,stepsLeft,LoopInput.isSignal]
  | drains queue fd events hs hi hq hp =>
    rw [hs,hi]
    split at hp <;> simp [Noticed,hq,hquit,hp,inWindow,stepsLeft,LoopInput.isSignal]
  | responds received fd events hs hi hq hp =>
    rw [hs,hi]
    simp [Noticed,hq,hquit,hp,inWindow,stepsLeft,LoopInput.isSignal]
  | closes success hs hi hq hp hr =>
    simp [Noticed,hq,hquit,hp,hs,hi,inWindow,stepsLeft,LoopInput.isSignal]

theorem noticed_run {s s' : LoopState δ} {inputs : List LoopInput} (hs : Noticed s)
    (hrun : run (loopStep env) s inputs = some s') :
    Noticed s' ∧ stepsLeft s'.point + inputs.countP (fun input => !input.isSignal) ≤
      stepsLeft s.point := by
  induction inputs generalizing s with
  | nil =>
    obtain rfl := Option.some.inj hrun
    simpa using hs
  | cons input inputs ih =>
    obtain ⟨s₁,hstep,hrun⟩ := Option.bind_eq_some_iff.mp hrun
    obtain ⟨hs₁,hle⟩ := noticed_step hs hstep
    obtain ⟨hs',hle'⟩ := ih hs₁ hrun
    refine ⟨hs',?_⟩
    rw [List.countP_cons]
    cases hi : input.isSignal <;> simp [hi] at hle ⊢ <;> omega

theorem own_step (env : LoopEnv δ) {s : LoopState δ} (hwait : s.point ≠ .waiting)
    (hclosed : ∀ success, s.point ≠ .closed success) :
    ∃ input, input.isOwn = true ∧ (loopStep env s input).isSome = true := by
  cases hp : s.point with
  | waiting => exact absurd hp hwait
  | closed success => exact absurd hp (hclosed success)
  | testQuit | dispatchPending | enterWait | leaving success =>
    exact ⟨.proceed,rfl,by simp [loopStep,hp]⟩
  | flush => exact ⟨.flushed true 0,rfl,by simp [loopStep,hp]⟩
  | handling events =>
    cases events with
    | nil => exact ⟨.proceed,rfl,by simp [loopStep,hp]⟩
    | cons fd events =>
      -- whose event it is decides which call the program makes next
      by_cases hwl : fd = env.wlFd
      · exact ⟨.dispatched 0,rfl,by simp [loopStep,hp,LoopState.handleEvent,hwl]⟩
      · by_cases hsock : fd = s.client.socks.v4 ∨ fd = s.client.socks.v6
        · exact ⟨.received [],rfl,by simp [loopStep,hp,LoopState.handleEvent,hwl,hsock]⟩
        · rw [not_or] at hsock
          refine ⟨.query none,rfl,?_⟩
          cases hservice : env.service <;>
            simp [loopStep,hp,LoopState.handleEvent,hwl,hsock,hservice]

theorem LoopInput.isOwn_isSignal {input : LoopInput} (h : input.isOwn = true) :
    input.isSignal = false := by
  cases input <;> simp_all [isOwn,isSignal]

theorem saidGoodbye_step {s s' : LoopState δ} {input : LoopInput}
    (hs : ∀ success, s.point = .closed success → SaidGoodbye env s)
    (hstep : loopStep env s input = some s') (success : Bool) (hc : s'.point = .closed success) :
    SaidGoodbye env s' := by
  intro service hsv
  cases loopStep_moves hstep with
  | signal hi hq hp hr =>
    rw [hp] at hc
    split at hc
    · contradiction
    · obtain ⟨responder,hb⟩ := hs success hc service hsv
      exact ⟨responder,hr.trans hb⟩
  | closes success' hs' hi hq hp hr =>
    rw [hsv] at hr
    exact ⟨s.responder,hr⟩
  | quits hs' hi hq hq' hp => simp [hp] at hc
  | goesOn hs' hi hq hq' hp => simp [hp] at hc
  | dispatchesPending hs' hi hq hp => simp [hp] at hc
  | flushes all requests hs' hi hq hp => simp [hp] at hc
  | enters hs' hi hq hp => simp [hp] at hc
  | wakes result hs' hi hq hp =>
    rw [hp] at hc
    cases result <;> contradiction
  | finishes hs' hi hq hp => simp [hp] at hc
  | dispatches result fd events hs' hi hq hp =>
    rw [hp] at hc
    split at hc <;> contradiction
  | drains queue fd events hs' hi hq hp =>
    rw [hp] at hc
    split at hc <;> contradiction
  | responds received fd events hs' hi hq hp => simp [hp] at hc

structure SignalInv (env : LoopEnv δ) (s : LoopState δ) : Prop where
  quit : s.quit = true → inWindow s.point = false ∧ s.point ≠ .waiting
  goodbye : ∀ success, s.point = .closed success → SaidGoodbye env s

theorem Noticed.cleanedUp {s : LoopState δ} (hs : Noticed s)
    (hgood : ∀ success, s.point = .closed success → SaidGoodbye env s)
    (hzero : stepsLeft s.point = 0) : CleanedUp env s := by
  cases hp : s.point with
  | closed success => exact ⟨⟨success,hp⟩,hgood success hp⟩
  | waiting => exact absurd hp hs.2.2
  | dispatchPending | flush | enterWait => exact absurd hs.2.1 (by simp [hp,inWindow])
  | handling events => simp [hp,stepsLeft] at hzero
  | testQuit => simp [hp,stepsLeft] at hzero
  | leaving success => simp [hp,stepsLeft] at hzero

theorem Noticed.ends {s : LoopState δ} (hs : Noticed s)
    (hgood : ∀ success, s.point = .closed success → SaidGoodbye env s) :
    ∃ more s'', (∀ input ∈ more, input.isOwn = true) ∧ run (loopStep env) s more = some s'' ∧
      CleanedUp env s'' := by
  generalize hn : stepsLeft s.point = n
  induction n using Nat.strong_induction_on generalizing s with
  | _ n ih =>
    by_cases hzero : n = 0
    · exact ⟨[],s,by simp,rfl,hs.cleanedUp hgood (hn.trans hzero)⟩
    · have hclosed : ∀ success, s.point ≠ .closed success := by
        intro success hp
        rw [hp] at hn
        exact hzero hn.symm
      obtain ⟨input,hown,hsome⟩ := own_step env hs.2.2 hclosed
      obtain ⟨s₁,hstep⟩ := Option.isSome_iff_exists.mp hsome
      obtain ⟨hs₁,hle⟩ := noticed_step hs hstep
      rw [if_neg (by simp [input.isOwn_isSignal hown])] at hle
      obtain ⟨more,s'',hmore,hrun,hend⟩ :=
        ih _ (by omega) hs₁ (saidGoodbye_step hgood hstep) rfl
      refine ⟨input :: more,s'',?_,?_,hend⟩
      · exact List.forall_mem_cons.mpr ⟨hown,hmore⟩
      · rw [run,hstep]
        exact hrun

theorem SignalInv.cleanupFollows {s : LoopState δ} (hs : SignalInv env s) (hq : s.quit = true) :
    CleanupFollows env s := by
  intro inputs s' hrun
  obtain ⟨hn,hle⟩ := noticed_run ⟨hq,hs.quit hq⟩ hrun
  have hgood := run_inv (fun s _ _ hinv hstep => saidGoodbye_step hinv hstep) hs.goodbye hrun
  exact ⟨hn.2.2,fun _ => hn.cleanedUp hgood (by omega),hn.ends hgood⟩

def OutsideWindow (s : LoopState δ) (input : LoopInput) (_ : LoopState δ) : Prop :=
  input = .signal → inWindow s.point = false

def SignalKept (env : LoopEnv δ) (s : LoopState δ) (_ : LoopInput) (s' : LoopState δ) : Prop :=
  (s.point = .enterWait → s'.point = .waiting → s.quit = false) ∧
    (s'.quit = true → CleanupFollows env s')

theorem signalInv_step {s s' : LoopState δ} {input : LoopInput} (hs : SignalInv env s)
    (hstep : loopStep env s input = some s') (hw : OutsideWindow s input s') :
    SignalInv env s' := by
  refine ⟨?_,saidGoodbye_step hs.goodbye hstep⟩
  intro hquit
  cases loopStep_moves hstep with
  | signal hi hq hp hr =>
    rw [hp]
    split
    · simp [inWindow]
    · exact ⟨hw hi,by assumption⟩
  | quits hs' hi hq hq' hp => simp [hp,inWindow]
  | goesOn hs' hi hq hq' hp => simp [hq'] at hquit
  | dispatchesPending hs' hi hq hp =>
    have h := hs.quit (hq ▸ hquit)
    simp [hs',inWindow] at h
  | flushes all requests hs' hi hq hp =>
    have h := hs.quit (hq ▸ hquit)
    simp [hs',inWindow] at h
  | enters hs' hi hq hp =>
    have h := hs.quit (hq ▸ hquit)
    simp [hs',inWindow] at h
  | wakes result hs' hi hq hp =>
    have h := hs.quit (hq ▸ hquit)
    exact absurd hs' h.2
  | finishes hs' hi hq hp => simp [hp,inWindow]
  | dispatches result fd events hs' hi hq hp =>
    rw [hp]
    split <;> simp [inWindow]
  | drains queue fd events hs' hi hq hp =>
    rw [hp]
    split <;> simp [inWindow]
  | responds received fd events hs' hi hq hp => simp [hp,inWindow]
  | closes success hs' hi hq hp hr => simp [hp,inWindow]

theorem signalKept_step {s s' : LoopState δ} {input : LoopInput} (hs : SignalInv env s)
    (hstep : loopStep env s input = some s') (hw : OutsideWindow s input s') :
    SignalInv env s' ∧ SignalKept env s input s' := by
  have hs' := signalInv_step hs hstep hw
  refine ⟨hs',?_,hs'.cleanupFollows⟩
  intro hp _
  cases hq : s.quit with
  | false => rfl
  | true => exact absurd (hs.quit hq).1 (by simp [hp,inWindow])

/-- From the top of the loop, with `quit` set or not: where no signal falls between the
test of `quit` and the wait, the loop never waits with `quit` set. -/
theorem signals_kept (env : LoopEnv δ) (s : LoopState δ) (inputs : List LoopInput)
    (hs : s.point = .testQuit) (h : Along (loopStep env) OutsideWindow s inputs) :
    Along (loopStep env) (SignalKept env) s inputs := by
  have hinv : SignalInv env s := ⟨by simp [hs,inWindow],by simp [hs]⟩
  exact Along.of_inv (fun _ _ _ => signalKept_step) hinv h

theorem signals_kept_while_waiting :
    let env : LoopEnv Unit := ⟨3,1400,none,fun _ _ client _ => (0,client,())⟩
    let s : LoopState Unit := ⟨.testQuit,false,⟨[],⟨5,-1⟩,[],0,[]⟩,(),
      ⟨fun _ => 0,fun _ => 0,[]⟩,0⟩
    Along (loopStep env) (SignalKept env) s [.proceed,.proceed,.flushed true 0,.proceed,
      .returned (.ready [5]),.signal,.received [.again],.proceed,.proceed,.proceed] := by
  intro env s
  apply signals_kept env s _ rfl
  simp [Along,loopStep,OutsideWindow,inWindow,s,env,LoopState.flush]

theorem signal_in_window_is_lost :
    let env : LoopEnv Unit := ⟨3,1400,none,fun _ _ client _ => (0,client,())⟩
    let s : LoopState Unit := ⟨.testQuit,false,⟨[],⟨5,-1⟩,[],0,[]⟩,(),
      ⟨fun _ => 0,fun _ => 0,[]⟩,0⟩
    ∃ s', run (loopStep env) s [.proceed,.proceed,.flushed true 0,.signal,.proceed] = some s' ∧
      s'.point = .waiting ∧ s'.quit = true ∧
      ¬ Along (loopStep env) (SignalKept env) s
        [.proceed,.proceed,.flushed true 0,.signal,.proceed] := by
  intro env s
  refine ⟨_,rfl,rfl,rfl,?_⟩
  intro h
  have h₁ := (h _ rfl).2 _ rfl
  have h₂ := (h₁.2 _ rfl).2 _ rfl
  have h₃ := (h₂.2 _ rfl).1.1 rfl rfl
  contradiction

end WlrRemote
