import WlrRemote.MdnsListen

/-!
`advertise.c`: the mDNS service, what it announces and how it answers.
-/

set_option autoImplicit false

namespace WlrRemote
open Octets

def qualifiedSuffix : Bytes := ascii ".local."
def SERVICE_NAME : Bytes := ascii "_wlr-remote._udp.local."
def DNS_SD_SERVICE_INSTANCE : Bytes := ascii "_services._dns-sd._udp.local."
def advertiseBufferCapacity : Nat := 2048
def sendBufferCapacity : Nat := 1024
def hostNameMax : Nat := 64
def mdnsPort : UInt16 := 5353

/-- What `gethostname` can leave in a buffer of `HOST_NAME_MAX + 1` bytes. -/
structure HostName where
  bytes : Bytes
  noNul : (0 : UInt8) ∉ bytes
  length_le : bytes.length ≤ hostNameMax
  deriving DecidableEq

structure InterfaceAddrs where
  v4 : SockaddrIn
  v6 : SockaddrIn6
  deriving DecidableEq, Repr

def InterfaceAddrs.zero : InterfaceAddrs :=
  ⟨⟨0,0,Vector.replicate 4 0⟩,⟨0,0,0,Vector.replicate 16 0,0⟩⟩

structure Ifaddrs where
  ifaFlags : UInt32
  ifaAddr : Option Sockaddr
  deriving DecidableEq

def IFF_UP : UInt32 := 0x1
def IFF_LOOPBACK : UInt32 := 0x8
def IFF_POINTOPOINT : UInt32 := 0x10
def IFF_MULTICAST : UInt32 := 0x1000

def bitIpv4Found : UInt8 := 0b01
def bitIpv6Found : UInt8 := 0b10

def in6IsAddrLinklocal (a : Vector UInt8 16) : Bool := a[0] == 0xfe && a[1] &&& 0xc0 == 0x80

def in6IsAddrV4mapped (a : Vector UInt8 16) : Bool :=
  (a.toList.take 10).all (· == 0) && a[10] == 0xff && a[11] == 0xff

def getInterfacesLoop : List Ifaddrs → InterfaceAddrs → UInt8 → InterfaceAddrs × UInt8
  | [], addrs, found => (addrs,found)
  | ifa :: rest, addrs, found =>
    if found = 0b11 then (addrs,found)
    else
      match ifa.ifaAddr with
      | none => getInterfacesLoop rest addrs found
      | some addr =>
        if ifa.ifaFlags &&& IFF_UP = 0 ∨ ifa.ifaFlags &&& IFF_MULTICAST = 0 ∨
            ifa.ifaFlags &&& IFF_LOOPBACK ≠ 0 ∨ ifa.ifaFlags &&& IFF_POINTOPOINT ≠ 0 then
          getInterfacesLoop rest addrs found
        else
          match addr with
          | .inet sa _ =>
            if found &&& bitIpv4Found = 0 then
              getInterfacesLoop rest { addrs with v4 := sa } (found ||| bitIpv4Found)
            else getInterfacesLoop rest addrs found
          | .inet6 sa6 _ =>
            if found &&& bitIpv6Found = 0 ∧ !in6IsAddrLinklocal sa6.sin6Addr ∧
                !in6IsAddrV4mapped sa6.sin6Addr then
              getInterfacesLoop rest { addrs with v6 := sa6 } (found ||| bitIpv6Found)
            else getInterfacesLoop rest addrs found
          | .other => getInterfacesLoop rest addrs found

/-- `none` where `getifaddrs` fails. -/
def getInterfaces (ifaddr : Option (List Ifaddrs)) (addrs : InterfaceAddrs) :
    InterfaceAddrs × UInt8 :=
  match ifaddr with
  | none => (addrs,0)
  | some ifaddr => getInterfacesLoop ifaddr addrs 0

structure AdvertiseEnv where
  getifaddrs : Option (List Ifaddrs)
  mdnsSocketOpenIpv4 : SockaddrIn → Int
  mdnsSocketOpenIpv6 : SockaddrIn6 → Int
  gethostname : Option HostName
  malloc : Bool

def createMdnsSockets (env : AdvertiseEnv) (socks : Sockets) (addrs : InterfaceAddrs)
    (found : UInt8) : Bool × Sockets × InterfaceAddrs :=
  let (success,socks,addrs) :=
    if found &&& bitIpv4Found ≠ 0 then
      let v4 := { addrs.v4 with sinPort := mdnsPort }
      let sock := env.mdnsSocketOpenIpv4 v4
      (sock != -1,{ socks with v4 := sock },{ addrs with v4 := v4 })
    else (false,socks,addrs)
  if found &&& bitIpv6Found ≠ 0 then
    let v6 := { addrs.v6 with sin6Port := mdnsPort }
    let sock := env.mdnsSocketOpenIpv6 v6
    (success || sock != -1,{ socks with v6 := sock },{ addrs with v6 := v6 })
  else (success,socks,addrs)

structure AdvertiseService where
  serviceName : Bytes
  hostname : Bytes
  serviceInstance : Bytes
  qualifiedHostname : Bytes
  addrs : InterfaceAddrs
  socks : Sockets
  port : UInt16
  recordPtr : MdnsRecord
  recordSrv : MdnsRecord
  recordA : MdnsRecord
  recordAaaa : MdnsRecord
  recordTxt : MdnsRecord
  deriving DecidableEq, Repr

/-- The text that `snprintf` leaves in a buffer of the given size. -/
def snprintf (size : Nat) (text : Bytes) : Bytes := text.take (size - 1)

/-- The `length` bytes from the start of a C string on; past its terminator the
contents of the heap, here zero. -/
def mdnsString (str : Bytes) (length : Nat) : Bytes :=
  (str ++ List.replicate (length - str.length) 0).take length

structure ServiceStrings where
  hostname : Bytes
  serviceName : Bytes
  serviceInstance : Bytes
  qualifiedHostname : Bytes

def createServiceStrings (hostname : HostName) : ServiceStrings where
  hostname := mdnsString hostname.bytes hostname.bytes.length
  serviceName := SERVICE_NAME
  serviceInstance :=
    mdnsString
      (snprintf (hostNameMax + 1 + (SERVICE_NAME.length + 1)) (hostname.bytes ++ dot :: SERVICE_NAME))
      (hostname.bytes.length + 1 + (SERVICE_NAME.length + 1) - 1)
  qualifiedHostname :=
    mdnsString (snprintf (hostNameMax + (qualifiedSuffix.length + 1)) (hostname.bytes ++ qualifiedSuffix))
      (hostname.bytes.length + (qualifiedSuffix.length + 1) - 1)

def createMdnsRecords (strings : ServiceStrings) (addrs : InterfaceAddrs) (socks : Sockets)
    (port : UInt16) : AdvertiseService where
  serviceName := strings.serviceName
  hostname := strings.hostname
  serviceInstance := strings.serviceInstance
  qualifiedHostname := strings.qualifiedHostname
  addrs := addrs
  socks := socks
  port := port
  recordPtr := ⟨strings.serviceName,.ptr strings.serviceInstance,mdnsClassIn,4500⟩
  recordSrv := ⟨strings.serviceInstance,.srv 0 0 port strings.qualifiedHostname,mdnsClassIn,120⟩
  recordA := ⟨strings.qualifiedHostname,.a addrs.v4,mdnsClassIn,120⟩
  recordAaaa := ⟨strings.qualifiedHostname,.aaaa addrs.v6,mdnsClassIn,120⟩
  recordTxt := ⟨strings.serviceInstance,.txt [] [],mdnsClassIn,120⟩

def advertiseCreateService (env : AdvertiseEnv) (port : UInt16) : Option AdvertiseService :=
  if !env.malloc then none
  else
    let (addrs,found) := getInterfaces env.getifaddrs .zero
    if found = 0 then none
    else
      let (success,socks,addrs) := createMdnsSockets env ⟨-1,-1⟩ addrs found
      if !success then none
      else
        match env.gethostname with
        | none => none
        | some hostname => some (createMdnsRecords (createServiceStrings hostname) addrs socks port)

/-- The labels of the switch in source order; each falls through to the next. -/
def buildAdditional (service : AdvertiseService) (type : MdnsRecordType) : List MdnsRecord :=
  let caseTxt := [service.recordTxt]
  let caseA :=
    (if type ≠ .aaaa ∧ service.addrs.v6.sin6Family = AF_INET6 then [service.recordAaaa] else []) ++
      caseTxt
  let caseSrv :=
    (if service.addrs.v4.sinFamily = AF_INET then [service.recordA] else []) ++ caseA
  match type with
  | .ptr => service.recordSrv :: caseSrv
  | .srv | .aaaa => caseSrv
  | .a => caseA
  | .txt => caseTxt
  | .ignore | .any => []

def strncmpEqual : Bytes → Bytes → Bool
  | a :: as, b :: bs => a == b && (a == 0 || strncmpEqual as bs)
  | _, _ => true

def stringEquals (name target : Bytes) : Bool :=
  name.length == target.length && strncmpEqual name target

/-- The part of `service_callback` that decides on an answer. -/
def serviceAnswer (service : AdvertiseService) (name : Bytes) (rtype : UInt16) :
    Option (MdnsRecord × List MdnsRecord) :=
  let isType := fun type : MdnsRecordType =>
    rtype = type.code ∨ rtype = MdnsRecordType.any.code
  if stringEquals name DNS_SD_SERVICE_INSTANCE then
    if isType .ptr then some (⟨name,.ptr service.serviceName,0,0⟩,[]) else none
  else if stringEquals name service.serviceName then
    if isType .ptr then some (service.recordPtr,buildAdditional service .ptr) else none
  else if stringEquals name service.serviceInstance then
    if isType .srv then some (service.recordSrv,buildAdditional service .srv) else none
  else if stringEquals name service.qualifiedHostname then
    if isType .a ∧ service.addrs.v4.sinFamily = AF_INET then
      some (service.recordA,buildAdditional service .a)
    else if isType .aaaa ∧ service.addrs.v6.sin6Family = AF_INET6 then
      some (service.recordAaaa,buildAdditional service .aaaa)
    else none
  else none

/-- A datagram handed to `sendto`; without a destination it goes to the group. -/
structure Sent where
  sock : Int
  dest : Option Sockaddr
  bytes : Bytes
  deriving DecidableEq

def MdnsWriter.sent (w : MdnsWriter) (sock : Int) (dest : Option Sockaddr) : List Sent :=
  match w.data with
  | none => []
  | some size => [⟨sock,dest,w.buffer.read 0 size⟩]

/-- The two buffers that outlive a call, and what has been sent so far. -/
structure ResponderState where
  buffer : Mem
  sendBuffer : Mem
  sent : List Sent

def serviceCallback (service : AdvertiseService) (data : Mem) (e : MdnsEntry)
    (state : ResponderState) : Int × ResponderState :=
  if e.entry ≠ .question then (0,state)
  else
    let name := ((mdnsStringExtract data e.size e.nameOffset 256).map Prod.fst).getD []
    match serviceAnswer service name e.rtype with
    | none => (0,state)
    | some (answer,additional) =>
      if e.rclass &&& mdnsUnicastResponse ≠ 0 then
        let w := mdnsQueryAnswerUnicast state.sendBuffer sendBufferCapacity e.queryId e.rtype name
          answer [] additional
        (0,{ state with sendBuffer := w.buffer, sent := state.sent ++ w.sent e.sock (some e.src) })
      else
        let w := mdnsQueryAnswerMulticast state.sendBuffer sendBufferCapacity answer [] additional
        (0,{ state with sendBuffer := w.buffer, sent := state.sent ++ w.sent e.sock none })

def advertiseAnnounceOn (service : AdvertiseService)
    (callback : Mem → Nat → MdnsRecord → List MdnsRecord → List MdnsRecord → MdnsWriter)
    (sock : Int) (state : ResponderState) : ResponderState :=
  if sock ≠ -1 then
    let w := callback state.buffer advertiseBufferCapacity service.recordPtr []
      (buildAdditional service .ptr)
    { state with buffer := w.buffer, sent := state.sent ++ w.sent sock none }
  else state

def advertiseAnnounce (service : AdvertiseService)
    (callback : Mem → Nat → MdnsRecord → List MdnsRecord → List MdnsRecord → MdnsWriter)
    (state : ResponderState) : ResponderState :=
  advertiseAnnounceOn service callback service.socks.v6
    (advertiseAnnounceOn service callback service.socks.v4 state)

def advertiseSetupEpoll (epollCtl : EpollEvent → Bool) (service : AdvertiseService) :
    Option (List EpollEvent) :=
  epollAdd epollCtl service.socks.epollIn

def advertiseAnnounceService (service : AdvertiseService) (state : ResponderState) :
    ResponderState :=
  advertiseAnnounce service mdnsAnnounceMulticast state

def advertiseAnnounceGoodbye (service : AdvertiseService) (state : ResponderState) :
    ResponderState :=
  advertiseAnnounce service mdnsGoodbyeMulticast state

def advertiseRespondRequest (service : AdvertiseService) (sock : Int)
    (received : Option (Sockaddr × Bytes)) (state : ResponderState) : ResponderState :=
  let (buffer,_,after) := mdnsSocketListen (serviceCallback service) sock advertiseBufferCapacity
    state.buffer received state
  { after with buffer := buffer }

end WlrRemote
