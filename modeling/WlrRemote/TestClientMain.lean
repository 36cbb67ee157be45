import WlrRemote.TestClient

/-!
`test-client.c` from the password to the exit status: the callbacks of the DTLS layer, the
handshake, and the packets.
-/

set_option autoImplicit false

namespace WlrRemote
open Octets Descriptors

def SERVER_PORT_STR : Bytes := ascii "39076"
def SERVER_IP : Bytes := ascii "127.0.0.1"
def ITERATIONS : Nat := 50

structure TestClient where
  pskKey : Bytes
  pskKeyLen : Nat
  isConnected : Bool
  sent : List (Int × Session × Bytes)
  alerts : List (UInt32 × UInt16)
  deriving DecidableEq

/-- What comes from outside before the handshake. Of the list of `getaddrinfo` only the head and
its address are used. -/
structure TestClientKernel where
  stdin : Bytes
  dtls : Tinydtls
  getaddrinfo : Bytes → Bytes → Addrinfo → Option (Addrinfo × Sockaddr)
  socket : Addrinfo → (table : FdTable SocketInfo) → Option table.Unused
  dtlsNewContext : Bool
  sendto : Int → Session → Bytes → Int

section Callbacks

variable (k : TestClientKernel) (fd : Int)

def testClientHandleSend (session : Session) (buf : Bytes) (client : TestClient) :
    Int × TestClient :=
  (k.sendto fd session buf,{ client with sent := client.sent ++ [(fd,session,buf)] })

def testClientHandleReceive (_session : Session) (_data : Bytes) (client : TestClient) :
    Int × TestClient := (0,client)

def testClientHandleEvent (level : UInt32) (code : UInt16) (client : TestClient) :
    Int × TestClient :=
  if level = 0 ∧ code = k.dtls.eventConnected then (0,{ client with isConnected := true })
  else (0,{ client with alerts := client.alerts ++ [(level,code)] })

/-- A call of the DTLS layer; the one for a key changes nothing. -/
inductive TestClientCall where
  | write (session : Session) (buf : Bytes)
  | read (session : Session) (data : Bytes)
  | event (level : UInt32) (code : UInt16)
  | getPskInfo (type : DtlsCredentialsType) (resultLength : Nat)
  deriving DecidableEq

def testClientHandle (client : TestClient) : TestClientCall → TestClient
  | .write session buf => (testClientHandleSend k fd session buf client).2
  | .read session data => (testClientHandleReceive session data client).2
  | .event level code => (testClientHandleEvent k level code client).2
  | .getPskInfo _ _ => client

def testClientHandleAll (calls : List TestClientCall) (client : TestClient) : TestClient :=
  calls.foldl (testClientHandle k fd) client

end Callbacks

/-- The functions of the DTLS layer that `main` calls, on a state of its own. The descriptor is
the data of the context. -/
structure ClientDtls (δ : Type) where
  connect : Int → Session → TestClient → δ → Int × TestClient × δ
  handleMessage : Int → Session → Bytes → TestClient → δ → Int × TestClient × δ
  write : Int → Session → Bytes → TestClient → δ → Int × TestClient × δ
  freeContext : Int → TestClient → δ → TestClient × δ

inductive Selected where
  | failed
  | timeout
  | ready (received : Option (Session × Bytes))

section Talk

variable {δ : Type} (d : ClientDtls δ) (fd : Int)

/-- The loop that waits for the connection; `none` while it goes on. -/
def testClientHandshake (maxBuf : Nat) :
    List Selected → TestClient → δ → Option (TestClient × δ)
  | [], client, layer => if client.isConnected then some (client,layer) else none
  | selected :: rest, client, layer =>
    if client.isConnected then some (client,layer)
    else
      match selected with
      | .failed | .timeout => some (client,layer)
      | .ready none => testClientHandshake maxBuf rest client layer
      | .ready (some (session,datagram)) =>
        let buf := datagram.take maxBuf
        if 0 < buf.length then
          let (_,client,layer) := d.handleMessage fd session buf client layer
          testClientHandshake maxBuf rest client layer
        else testClientHandshake maxBuf rest client layer

def testClientSend (session : Session) (pkt : Bytes) :
    Nat → TestClient → δ → List (Bytes × Int) × TestClient × δ
  | 0, client, layer => ([],client,layer)
  | n + 1, client, layer =>
    let (res,client,layer) := d.write fd session pkt client layer
    let (written,client,layer) := testClientSend session pkt n client layer
    ((pkt,res) :: written,client,layer)

def testClientTalk (o : ByteOrder) (maxBuf : Nat) (session : Session) (selects : List Selected)
    (client : TestClient) (layer : δ) : Option (List (Bytes × Int) × TestClient × δ) :=
  let (res,client,layer) := d.connect fd session client layer
  if res < 0 then some ([],client,layer)
  else
    (testClientHandshake d fd maxBuf selects client layer).map fun (client,layer) =>
      if client.isConnected then
        testClientSend d fd session (testClientPacket o 10 10 0 0) ITERATIONS client layer
      else ([],client,layer)

end Talk

structure TestClientExit where
  success : Bool
  written : List (Bytes × Int)
  client : TestClient
  fds : FdTable SocketInfo

def testClientMain {δ : Type} (d : ClientDtls δ) (o : ByteOrder) (k : TestClientKernel) (layer : δ)
    (selects : List Selected) (fds : FdTable SocketInfo) : Option TestClientExit :=
  match testClientPassword k.dtls k.stdin with
  | none => some ⟨false,[],⟨[],0,false,[],[]⟩,fds⟩
  | some (pskKey,pskKeyLen) =>
    let client : TestClient := ⟨pskKey,pskKeyLen,false,[],[]⟩
    let hints : Addrinfo := ⟨0,AF_UNSPEC,SOCK_DGRAM,IPPROTO_UDP,none⟩
    match k.getaddrinfo SERVER_IP SERVER_PORT_STR hints with
    | none => some ⟨false,[],client,fds⟩
    | some (head,addr) =>
      match k.socket head fds with
      | none => some ⟨false,[],client,fds⟩
      | some new =>
        let fds := fds.openFd new ⟨head.aiFamily,false,false⟩
        if !k.dtlsNewContext then some ⟨false,[],client,fds.closeFd new.fd⟩
        else
          (testClientTalk d new.fd o k.dtls.maxBuf ⟨addr⟩ selects client layer).map
            fun (written,client,layer) =>
              let (client,_) := d.freeContext new.fd client layer
              ⟨client.isConnected,written,client,fds.closeFd new.fd⟩

end WlrRemote
