import WlrRemote.ServiceLife
import WlrRemote.Signals
import WlrRemote.Flushing
import WlrRemote.Registry
import WlrRemote.Setup

/-!
`main.c` from its first line to its last: the set-up with all the places it may fail in, the
loop, and the clean-up with the labels that the failures go to.
-/

set_option autoImplicit false

namespace WlrRemote
open Octets Descriptors Runs

structure MainKernel where
  argv : List Bytes
  stdin : Bytes
  dtls : Tinydtls
  wlDisplayConnect : (table : FdTable SocketInfo) → Option table.Unused
  roundtrip : List Global
  udp : UdpKernel
  epollCreate1 : (table : FdTable SocketInfo) → Option table.Unused
  epollCtl : EpollEvent → Bool
  dtlsNewContext : Bool
  service : ServiceKernel

structure LoopWorld (δ : Type) where
  dtlsHandleMessage : Session → Bytes → ClientState → δ → Int × ClientState × δ
  dtls : δ
  quit : Bool
  inputs : List LoopInput
  globals : List Global

/-- What the program has taken from the system, bound at the compositor, and sent. -/
structure Process where
  fds : FdTable SocketInfo
  heap : Heap
  registry : RegistryState
  responder : ResponderState

/-- The variables of `main`; a descriptor that is not there yet is -1. -/
structure MainLocals where
  port : UInt16
  pskKey : Bytes
  pskKeyLen : Nat
  display : Int
  socks : Sockets
  epollFd : Int
  set : List EpollEvent
  service : Option (ServiceLife.ServiceBlocks × AdvertiseService)

/-- Where the set-up leads: an exit without clean-up, one of the labels, or the loop. -/
inductive MainPoint where
  | exit | errFreeRegistry | errFreeVirtualPointer | errFreeAll | loop
  deriving DecidableEq, Repr

def AF_UNIX : Int := 1

def displayInfo : SocketInfo := ⟨AF_UNIX,false,false⟩

def epollInfo : SocketInfo := ⟨AF_UNSPEC,false,false⟩

def netSetupEpollFds (k : MainKernel) (socks : Sockets) (wlFd : Int) (fds : FdTable SocketInfo) :
    Int × List EpollEvent × FdTable SocketInfo :=
  match k.epollCreate1 fds with
  | none =>
    let (epollFd,set,closed) := netSetupEpoll (-1) k.epollCtl socks wlFd
    (epollFd,set,closed.foldl FdTable.closeFd fds)
  | some new =>
    let (epollFd,set,closed) := netSetupEpoll new.fd k.epollCtl socks wlFd
    (epollFd,set,closed.foldl FdTable.closeFd (fds.openFd new epollInfo))

def mainService (k : MainKernel) (m : MainLocals) (p : Process) : MainPoint × MainLocals × Process :=
  if !k.dtlsNewContext then (.errFreeVirtualPointer,m,p)
  else
    match ServiceLife.advertiseCreateService k.service m.port p.fds p.heap with
    | (none,fds,heap) => (.loop,m,{ p with fds := fds, heap := heap })
    | (some (blocks,service),fds,heap) =>
      let m := { m with service := some (blocks,service) }
      let p := { p with fds := fds, heap := heap }
      match advertiseSetupEpoll k.epollCtl service with
      | none => (.errFreeAll,m,p)
      | some more => (.loop,{ m with set := m.set ++ more },
          { p with responder := advertiseAnnounceService service p.responder })

def mainNetwork (k : MainKernel) (m : MainLocals) (p : Process) : MainPoint × MainLocals × Process :=
  let wlFd := m.display
  if wlFd < 0 then (.errFreeVirtualPointer,m,p)
  else
    let (count,socks,fds) := netSetupUdpSockets k.udp m.socks m.port p.fds
    let m := { m with socks := socks }
    let p := { p with fds := fds }
    if count < 0 then (.errFreeVirtualPointer,m,p)
    else
      let (epollFd,set,fds) := netSetupEpollFds k m.socks wlFd p.fds
      let m := { m with epollFd := epollFd, set := set }
      let p := { p with fds := fds }
      if epollFd < 0 then (.errFreeVirtualPointer,m,p) else mainService k m p

def mainSetup (k : MainKernel) (p : Process) : MainPoint × MainLocals × Process :=
  let m : MainLocals := ⟨setupParsePort k.argv,[],0,-1,⟨-1,-1⟩,-1,[],none⟩
  match setupPassword k.dtls k.stdin with
  | .error _ => (.exit,m,p)
  | .ok (pskKey,pskKeyLen) =>
    let m := { m with pskKey := pskKey, pskKeyLen := pskKeyLen }
    match k.wlDisplayConnect p.fds with
    | none => (.exit,m,p)
    | some display =>
      let m := { m with display := display.fd }
      let registry := k.roundtrip.foldl registryHandleGlobal p.registry
      let p := { p with fds := p.fds.openFd display displayInfo, registry := registry }
      if registry.seat = none ∨ registry.pointerManager = none then (.errFreeRegistry,m,p)
      else mainNetwork k m p

def errFreeRegistry (m : MainLocals) (p : Process) : Process :=
  { p with fds := p.fds.closeFd m.display }

def errFreeVirtualPointer (m : MainLocals) (p : Process) : Process :=
  errFreeRegistry m
    { p with registry := (p.registry.destroy p.registry.pointerManager).destroy p.registry.seat }

def errFreeAll (m : MainLocals) (p : Process) : Process :=
  let p := match m.service with
    | none => p
    | some (blocks,service) =>
      let responder := advertiseAnnounceGoodbye service p.responder
      let (fds,heap) := ServiceLife.advertiseDestroyService blocks service.socks p.fds p.heap
      { p with fds := fds, heap := heap, responder := responder }
  let fds := if m.socks.v4 ≠ -1 then p.fds.closeFd m.socks.v4 else p.fds
  let fds := if m.socks.v6 ≠ -1 then fds.closeFd m.socks.v6 else fds
  errFreeVirtualPointer m { p with fds := fds }

section Main

variable {δ : Type}

def MainLocals.env (m : MainLocals) (k : MainKernel) (w : LoopWorld δ) : LoopEnv δ where
  wlFd := m.display
  maxBuf := k.dtls.maxBuf
  service := m.service.map Prod.snd
  dtlsHandleMessage := w.dtlsHandleMessage

def MainLocals.start (m : MainLocals) (w : LoopWorld δ) (p : Process) : LoopState δ where
  point := .testQuit
  quit := w.quit
  client := ⟨[],m.socks,m.pskKey,m.pskKeyLen,[]⟩
  dtls := w.dtls
  responder := p.responder
  written := 0

/-- Whether `main` succeeds, and what it leaves; `none` while the loop goes on. -/
def main (k : MainKernel) (w : LoopWorld δ) (p : Process) : Option (Bool × Process) :=
  match mainSetup k p with
  | (.exit,_,p) => some (false,p)
  | (.errFreeRegistry,m,p) => some (false,errFreeRegistry m p)
  | (.errFreeVirtualPointer,m,p) => some (false,errFreeVirtualPointer m p)
  | (.errFreeAll,m,p) => some (false,errFreeAll m p)
  | (.loop,m,p) =>
    (run (loopStep (m.env k w)) (m.start w p) w.inputs).bind fun s =>
      match s.point with
      | .leaving success => some (success,errFreeAll m { p with
          registry := w.globals.foldl registryHandleGlobal p.registry
          responder := s.responder })
      | _ => none

end Main

end WlrRemote
