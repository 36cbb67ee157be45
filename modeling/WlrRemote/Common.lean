import WlrRemote.Octets

/-!
The structures that the parts of the program share: socket addresses, the two
sockets of a service, and the packet a client sends.
-/

set_option autoImplicit false

namespace WlrRemote
open Octets

def ascii (s : String) : Bytes := s.toList.map fun c => UInt8.ofNat c.toNat

def AF_INET : UInt16 := 2
def AF_INET6 : UInt16 := 10

structure SockaddrIn where
  sinFamily : UInt16
  sinPort : UInt16
  sinAddr : Vector UInt8 4
  deriving DecidableEq, Repr

structure SockaddrIn6 where
  sin6Family : UInt16
  sin6Port : UInt16
  sin6Flowinfo : UInt32
  sin6Addr : Vector UInt8 16
  sin6ScopeId : UInt32
  deriving DecidableEq, Repr

inductive Sockaddr where
  | inet (sa : SockaddrIn) (family : sa.sinFamily = AF_INET)
  | inet6 (sa6 : SockaddrIn6) (family : sa6.sin6Family = AF_INET6)
  | other
  deriving DecidableEq

/-- File descriptors; `-1` where there is none. -/
structure Sockets where
  v4 : Int
  v6 : Int
  deriving DecidableEq, Repr

structure MousePacket where
  dx : Int32
  dy : Int32
  button : UInt16
  buttonState : UInt16
  deriving DecidableEq

/-- `sizeof(struct mouse_packet)`; the structure has no padding. -/
def sizeofMousePacket : Nat := 12

/-- The bytes of the structure in the memory of a machine. -/
def MousePacket.image (o : ByteOrder) (packet : MousePacket) : Bytes :=
  o.store32 packet.dx.toUInt32 ++ o.store32 packet.dy.toUInt32 ++ o.store16 packet.button ++
    o.store16 packet.buttonState

def MousePacket.ofImage (o : ByteOrder) (data : Bytes) : MousePacket where
  dx := (o.load32 (data.take 4)).toInt32
  dy := (o.load32 ((data.drop 4).take 4)).toInt32
  button := o.load16 ((data.drop 8).take 2)
  buttonState := o.load16 ((data.drop 10).take 2)

/-- `wl_fixed_t`: a signed 24.8 number. -/
abbrev WlFixed := Int32

inductive PointerRequest where
  | button (time button state : UInt32)
  | motion (time : UInt32) (dx dy : WlFixed)
  | frame
  deriving DecidableEq

inductive Notice where
  | invalidButtonState (buttonState : UInt16)
  | unknownButton (button : UInt16)
  | unexpectedSize (len : Nat)
  | recvfromFailed
  | exceedsBuffer (bytesRead : Nat)
  | addressNotConverted
  | closedByClient (client : Sockaddr)
  | alertFromClient (level : UInt32) (code : UInt16) (client : Sockaddr)
  | handshakeInitiated (client : Sockaddr)
  | handshakeCompleted (client : Sockaddr)
  deriving DecidableEq

/-- The virtual pointer stands for the requests issued on it so far. -/
structure ClientState where
  virtualPointer : List PointerRequest
  socks : Sockets
  pskKey : Bytes
  pskKeyLen : Nat
  printed : List Notice
  deriving DecidableEq

def ClientState.request (state : ClientState) (r : PointerRequest) : ClientState :=
  { state with virtualPointer := state.virtualPointer ++ [r] }

def ClientState.print (state : ClientState) (line : Notice) : ClientState :=
  { state with printed := state.printed ++ [line] }

@[simp] theorem ClientState.virtualPointer_request (state : ClientState) (r : PointerRequest) :
    (state.request r).virtualPointer = state.virtualPointer ++ [r] := rfl

@[simp] theorem ClientState.virtualPointer_print (state : ClientState) (line : Notice) :
    (state.print line).virtualPointer = state.virtualPointer := rfl

def EPOLLIN : UInt32 := 0x001
def EPOLLOUT : UInt32 := 0x004

structure EpollEvent where
  fd : Int
  events : UInt32
  deriving DecidableEq, Repr

/-- `epoll_ctl` for one descriptor after the other; `none` once a call fails. -/
def epollAdd (epollCtl : EpollEvent → Bool) : List EpollEvent → Option (List EpollEvent)
  | [] => some []
  | ev :: evs => if epollCtl ev then (epollAdd epollCtl evs).map (ev :: ·) else none

def Sockets.epollIn (socks : Sockets) : List EpollEvent :=
  (if socks.v4 ≠ -1 then [⟨socks.v4,EPOLLIN⟩] else []) ++
    (if socks.v6 ≠ -1 then [⟨socks.v6,EPOLLIN⟩] else [])

end WlrRemote
