import WlrRemote.VirtualPointer
import WlrRemote.Descriptors

/-!
`network.c`: the UDP sockets and the epoll set, the callbacks of the DTLS layer, and
the loop that hands it the datagrams of a socket.
-/

set_option autoImplicit false

namespace WlrRemote
open Octets Descriptors

def AF_UNSPEC : Int := 0
def AI_PASSIVE : Int := 1
def SOCK_DGRAM : Int := 2
def IPPROTO_UDP : Int := 17

structure Addrinfo where
  aiFlags : Int
  aiFamily : Int
  aiSocktype : Int
  aiProtocol : Int
  aiAddr : Option Sockaddr

structure SocketInfo where
  family : Int
  v6only : Bool
  bound : Bool
  deriving DecidableEq, Repr

/-- The outcomes of the three calls made for the entry of a given index. -/
structure UdpKernel where
  getaddrinfo : Bytes → Addrinfo → Option (List Addrinfo)
  socket : Nat → Addrinfo → (table : FdTable SocketInfo) → Option table.Unused
  setsockopt : Nat → Bool
  bind : Nat → Bool

def netSetupUdpLoop (kernel : UdpKernel) :
    Nat → List Addrinfo → Nat → Sockets → FdTable SocketInfo → Nat × Sockets × FdTable SocketInfo
  | _, [], count, socks, table => (count,socks,table)
  | index, info :: rest, count, socks, table =>
    if 2 ≤ count then (count,socks,table)
    else
      match kernel.socket index info table with
      | none => netSetupUdpLoop kernel (index + 1) rest count socks table
      | some new =>
        let sock := new.fd
        let table := table.openFd new ⟨info.aiFamily,false,false⟩
        if info.aiFamily = AF_INET6.toNat ∧ !kernel.setsockopt index then
          netSetupUdpLoop kernel (index + 1) rest count socks (table.closeFd sock)
        else
          let table := if info.aiFamily = AF_INET6.toNat then
            table.modify sock fun s => { s with v6only := true } else table
          if !kernel.bind index then
            netSetupUdpLoop kernel (index + 1) rest count socks (table.closeFd sock)
          else
            let table := table.modify sock fun s => { s with bound := true }
            if info.aiFamily = AF_INET.toNat ∧ socks.v4 = -1 then
              netSetupUdpLoop kernel (index + 1) rest (count + 1) { socks with v4 := sock } table
            else if info.aiFamily = AF_INET6.toNat ∧ socks.v6 = -1 then
              netSetupUdpLoop kernel (index + 1) rest (count + 1) { socks with v6 := sock } table
            else netSetupUdpLoop kernel (index + 1) rest count socks (table.closeFd sock)

def netSetupUdpSockets (kernel : UdpKernel) (socks : Sockets) (port : UInt16)
    (table : FdTable SocketInfo) : Int × Sockets × FdTable SocketInfo :=
  let hints : Addrinfo := ⟨AI_PASSIVE,AF_UNSPEC,SOCK_DGRAM,IPPROTO_UDP,none⟩
  match kernel.getaddrinfo (ascii (toString port.toNat)) hints with
  | none => (-1,socks,table)
  | some head =>
    let (count,socks,table) := netSetupUdpLoop kernel 0 head 0 socks table
    if count = 0 then (-1,socks,table) else (count,socks,table)

/-- The descriptor of the set, what is in it, and the descriptors closed after a failure. -/
def netSetupEpoll (epollCreate1 : Int) (epollCtl : EpollEvent → Bool) (socks : Sockets)
    (wlFd : Int) : Int × List EpollEvent × List Int :=
  if epollCreate1 < 0 then (-1,[],[])
  else
    match epollAdd epollCtl (⟨wlFd,EPOLLIN⟩ :: socks.epollIn) with
    | some set => (epollCreate1,set,[])
    | none => (-1,[],(if socks.v4 ≠ -1 then [socks.v4] else []) ++
        (if socks.v6 ≠ -1 then [socks.v6] else []) ++ [epollCreate1])

/-- The constants of tinydtls that the program names, and its constructor of alerts. -/
structure Tinydtls where
  pskMaxKeyLen : Nat
  maxBuf : Nat
  alertCloseNotify : UInt16
  eventConnect : UInt16
  eventConnected : UInt16
  alertIllegalParameter : Int
  alertInternalError : Int
  alertFatalCreate : Int → Int

def Tinydtls.sample : Tinydtls where
  pskMaxKeyLen := 16
  maxBuf := 1400
  alertCloseNotify := 0
  eventConnect := 0x01DC
  eventConnected := 0x01DE
  alertIllegalParameter := 47
  alertInternalError := 80
  alertFatalCreate desc := -(2 * 256 + desc)

inductive DtlsCredentialsType where
  | pskHint | pskIdentity | pskKey
  deriving DecidableEq, Repr

structure Session where
  addr : Sockaddr
  deriving DecidableEq

def PSK_ID : Bytes := ascii "wlr-remote"

/-- The result of `sendto`: what it sent, that it would block or found no buffer, or
another error. -/
inductive Sendto where
  | sent (n : Nat)
  | again
  | failed

/-- The return value, and the socket that was written to. -/
def netHandleSend (sendto : Int → Session → Bytes → Sendto) (session : Session) (buf : Bytes)
    (state : ClientState) : Int × Option Int :=
  let send := fun sock =>
    match sendto sock session buf with
    | .sent n => ((n : Int),some sock)
    | .again => ((buf.length : Int),some sock)
    | .failed => (-1,some sock)
  match session.addr with
  | .inet _ _ => send state.socks.v4
  | .inet6 _ _ => send state.socks.v6
  | .other => (-1,none)

def netHandleReceive (o : ByteOrder) (_session : Session) (data : Bytes) (state : ClientState) :
    Int × ClientState :=
  if data.length = sizeofMousePacket then
    let packet := MousePacket.ofImage o data
    let packet := { packet with dx := (o.ntohl packet.dx.toUInt32).toInt32 }
    let packet := { packet with dy := (o.ntohl packet.dy.toUInt32).toInt32 }
    let packet := { packet with button := o.ntohs packet.button }
    let packet := { packet with buttonState := o.ntohs packet.buttonState }
    (0,vpHandlePacket state packet)
  else (0,state.print (.unexpectedSize data.length))

def netHandleEvent (dtls : Tinydtls) (session : Session) (level : UInt32) (code : UInt16)
    (state : ClientState) : Int × ClientState :=
  let client := session.addr
  let state := match client with
    | .inet _ _ | .inet6 _ _ => state
    | .other => state.print .addressNotConverted
  if 0 < level then
    if code = dtls.alertCloseNotify then (0,state.print (.closedByClient client))
    else (0,state.print (.alertFromClient level code client))
  else if code = dtls.eventConnect then (0,state.print (.handshakeInitiated client))
  else if code = dtls.eventConnected then (0,state.print (.handshakeCompleted client))
  else (0,state)

def netGetPskInfo (dtls : Tinydtls) (state : ClientState) (type : DtlsCredentialsType)
    (id : Bytes) (resultLength : Nat) : Int × Bytes :=
  if type ≠ .pskKey then (0,[])
  else if id.length = PSK_ID.length ∧ id = PSK_ID then
    if resultLength < state.pskKeyLen then (dtls.alertFatalCreate dtls.alertInternalError,[])
    else (state.pskKeyLen,state.pskKey.take state.pskKeyLen)
  else (dtls.alertFatalCreate dtls.alertIllegalParameter,[])

section Drain

inductive Recvfrom where
  | datagram (session : Session) (bytes : Bytes)
  | again
  | failed

variable {δ : Type}

/-- What the draining loop leaves: its result, the datagrams it handed to
`dtls_handle_message`, and the states of the program and of the DTLS layer. -/
structure Drained (δ : Type) where
  res : Int
  handed : List (Session × Bytes)
  client : ClientState
  dtls : δ

variable (dtlsHandleMessage : Session → Bytes → ClientState → δ → Int × ClientState × δ)

/-- `net_handle_epoll` on the answers of `recvfrom` to come; after the last one
listed there is no datagram left. -/
def netHandleEpoll (maxBuf : Nat) : List Recvfrom → ClientState → δ → Drained δ
  | [], client, dtls | .again :: _, client, dtls => ⟨0,[],client,dtls⟩
  | .failed :: _, client, dtls => ⟨-1,[],client.print .recvfromFailed,dtls⟩
  | .datagram session bytes :: queue, client, dtls =>
    if maxBuf < bytes.length then
      netHandleEpoll maxBuf queue (client.print (.exceedsBuffer bytes.length)) dtls
    else
      let (res,client,dtls) := dtlsHandleMessage session bytes client dtls
      if res < 0 then ⟨res,[(session,bytes)],client,dtls⟩
      else
        let d := netHandleEpoll maxBuf queue client dtls
        { d with handed := (session,bytes) :: d.handed }

end Drain

end WlrRemote
