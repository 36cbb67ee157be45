import WlrRemote.Advertise

/-!
The asking side of `mdns.h`: queries as they are composed and sent, and the loops that
read the answers to them.
-/

set_option autoImplicit false

namespace WlrRemote
open Octets

def mdnsStringMakePlainLoop (capacity : Nat) (name : Bytes) (length : Nat) :
    Nat → Mem → Nat → Nat → Mem × Option Nat
  | 0, buffer, _, _ => (buffer,none)
  | fuel + 1, buffer, data, lastPos =>
    if lastPos < length then
      let pos := mdnsStringFind name length dot lastPos
      let subLength := pos.getD length - lastPos
      if capacity - data ≤ subLength + 1 then (buffer,none)
      else
        mdnsStringMakePlainLoop capacity name length fuel
          (buffer.write data (UInt8.ofNat subLength :: (name.drop lastPos).take subLength))
          (data + (subLength + 1)) ((pos.map (· + 1)).getD length)
    else if capacity - data = 0 then (buffer,none)
    else (buffer.write data [0],some (data + 1))

/-- The buffer, and the position after the name; `none` for the null pointer. -/
def mdnsStringMakePlain (buffer : Mem) (capacity data : Nat) (name : Bytes) : Mem × Option Nat :=
  let length := if name.getLast? = some dot then name.length - 1 else name.length
  mdnsStringMakePlainLoop capacity name length (length + 1) buffer data 0

structure MdnsQuery where
  type : MdnsRecordType
  name : Bytes
  deriving DecidableEq, Repr

/-- An answer to the asker alone is wanted unless the query leaves from the mDNS port.
`none` where `getsockname` fails. -/
def mdnsQueryClass (getsockname : Option Sockaddr) : UInt16 :=
  let rclass := mdnsClassIn ||| mdnsUnicastResponse
  match getsockname with
  | some (.inet sa _) => if sa.sinPort = mdnsPort then rclass &&& ~~~mdnsUnicastResponse else rclass
  | some (.inet6 sa6 _) =>
    if sa6.sin6Port = mdnsPort then rclass &&& ~~~mdnsUnicastResponse else rclass
  | some .other | none => rclass

def mdnsMulticastSend (getsockname : Option Sockaddr) (sendto : Bool) (sock : Int) (bytes : Bytes) :
    Int × List Sent :=
  if getsockname.isNone then (-1,[])
  else (if sendto then 0 else -1,[⟨sock,none,bytes⟩])

def mdnsMultiqueryLoop (capacity : Nat) (rclass : UInt16) :
    List MdnsQuery → Mem → Nat → Mem × Option Nat
  | [], buffer, data => (buffer,some data)
  | query :: queries, buffer, data =>
    match mdnsStringMakePlain buffer capacity data query.name with
    | (buffer,none) => (buffer,none)
    | (buffer,some data) =>
      if capacity - data < 4 then (buffer,none)
      else
        mdnsMultiqueryLoop capacity rclass queries
          (buffer.write data (be16 query.type.code ++ be16 rclass)) (data + 4)

/-- The return value, what is left in the buffer, and what is sent. `getsockname` is called here,
and once more in `mdns_multicast_send`. -/
def mdnsMultiquerySend (getsockname getsockname' : Option Sockaddr) (sendto : Bool) (sock : Int)
    (query : List MdnsQuery) (buffer : Mem) (capacity : Nat) (queryId : UInt16) :
    Int × Mem × List Sent :=
  if query.length = 0 ∨ capacity < 12 + 6 * query.length then (-1,buffer,[])
  else
    let header : MdnsHeader := ⟨queryId,0,UInt16.ofNat query.length,0,0,0⟩
    match mdnsMultiqueryLoop capacity (mdnsQueryClass getsockname) query
        (buffer.write 0 header.bytes) 12 with
    | (buffer,none) => (-1,buffer,[])
    | (buffer,some tosend) =>
      let (res,sent) := mdnsMulticastSend getsockname' sendto sock (buffer.read 0 tosend)
      (if res ≠ 0 then -1 else queryId.toNat,buffer,sent)

def mdnsQuerySend (getsockname getsockname' : Option Sockaddr) (sendto : Bool) (sock : Int)
    (type : MdnsRecordType) (name : Bytes) (buffer : Mem) (capacity : Nat) (queryId : UInt16) :
    Int × Mem × List Sent :=
  mdnsMultiquerySend getsockname getsockname' sendto sock [⟨type,name⟩] buffer capacity queryId

def mdnsDiscoverySend (getsockname : Option Sockaddr) (sendto : Bool) (sock : Int) :
    Int × List Sent :=
  mdnsMulticastSend getsockname sendto sock mdnsServicesQuery

section Receive

variable {σ : Type} (callback : Mem → MdnsEntry → σ → Int × σ)

def mdnsSkipQuestions (buffer : Mem) (size : Nat) : Nat → Nat → Option Nat
  | 0, offset => some offset
  | questions + 1, offset =>
    match mdnsStringSkip buffer size offset with
    | none => none
    | some offset => mdnsSkipQuestions buffer size questions (offset + 4)

/-- What is left in the buffer, the number of records read, and the state of the callback. -/
def mdnsQueryRecv (sock : Int) (capacity : Nat) (buffer : Mem)
    (received : Option (Sockaddr × Bytes)) (onlyQueryId : Int) (state : σ) : Mem × Nat × σ :=
  match received with
  | none => (buffer,0,state)
  | some (src,datagram) =>
    let datagram := datagram.take capacity
    if datagram.length = 0 then (buffer,0,state)
    else
      let buffer := buffer.write 0 datagram
      let size := datagram.length
      let queryId := buffer.be16 0
      if 0 < onlyQueryId ∧ (queryId.toNat : Int) ≠ onlyQueryId then (buffer,0,state)
      else
        match mdnsSkipQuestions buffer size (buffer.be16 4).toNat 12 with
        | none => (buffer,0,state)
        | some offset =>
          let p := mdnsSection callback sock src buffer size .answer queryId (buffer.be16 6)
            ⟨false,offset,0,state⟩
          let p := mdnsSection callback sock src buffer size .authority queryId (buffer.be16 8) p
          let p := mdnsSection callback sock src buffer size .additional queryId (buffer.be16 10) p
          (buffer,p.total,p.state)

def mdnsVerifyQuestions (buffer : Mem) (size : Nat) : Nat → Nat → Option Nat
  | 0, offset => some offset
  | questions + 1, offset =>
    match mdnsStringEqual buffer size offset mdnsServicesQueryMem mdnsServicesQuery.length 12 with
    | none => none
    | some (offset,_) =>
      if buffer.be16 offset ≠ MdnsRecordType.ptr.code ∨
          buffer.be16 (offset + 2) &&& 0x7FFF ≠ mdnsClassIn then none
      else mdnsVerifyQuestions buffer size questions (offset + 4)

/-- How the loop over the answers ends: it goes on to the other sections, or the function
returns a number at once. -/
inductive MdnsAnswersEnd where
  | goesOn (offset : Nat)
  | returns (records : Nat)
  deriving DecidableEq, Repr

/-- Only records of the name asked for are counted and handed to the callback. The length
is compared with what is left before the fixed fields, not after them. -/
def mdnsDiscoveryAnswers (sock : Int) (src : Sockaddr) (buffer : Mem) (size : Nat)
    (queryId : UInt16) : Nat → Nat → Nat → σ → MdnsAnswersEnd × Nat × σ
  | 0, offset, records, state => (.goesOn offset,records,state)
  | answerRrs + 1, nameOffset, records, state =>
    let equal := mdnsStringEqual buffer size nameOffset mdnsServicesQueryMem
      mdnsServicesQuery.length 12
    match (equal.map Prod.fst).or (mdnsStringSkip buffer size nameOffset) with
    | none => (.goesOn nameOffset,records,state)
    | some offset =>
      if size < offset + 10 then (.returns records,records,state)
      else
        let length := (buffer.be16 (offset + 8)).toNat
        if size - offset < length then (.returns 0,records,state)
        else if equal.isSome then
          let e : MdnsEntry := ⟨sock,src,.answer,queryId,buffer.be16 offset,
            buffer.be16 (offset + 2),buffer.be32 (offset + 4),size,nameOffset,offset - nameOffset,
            offset + 10,length⟩
          let (res,state) := callback buffer e state
          if res ≠ 0 then (.returns (records + 1),records + 1,state)
          else
            mdnsDiscoveryAnswers sock src buffer size queryId answerRrs (offset + 10 + length)
              (records + 1) state
        else
          mdnsDiscoveryAnswers sock src buffer size queryId answerRrs (offset + 10 + length) records
            state

def mdnsDiscoveryRecv (sock : Int) (capacity : Nat) (buffer : Mem)
    (received : Option (Sockaddr × Bytes)) (state : σ) : Mem × Nat × σ :=
  match received with
  | none => (buffer,0,state)
  | some (src,datagram) =>
    let datagram := datagram.take capacity
    if datagram.length = 0 then (buffer,0,state)
    else
      let buffer := buffer.write 0 datagram
      let size := datagram.length
      let queryId := buffer.be16 0
      if queryId ≠ 0 ∨ buffer.be16 2 ≠ 0x8400 then (buffer,0,state)
      else
        match mdnsVerifyQuestions buffer size (buffer.be16 4).toNat 12 with
        | none => (buffer,0,state)
        | some offset =>
          match mdnsDiscoveryAnswers callback sock src buffer size queryId (buffer.be16 6).toNat
              offset 0 state with
          | (.returns records,_,state) => (buffer,records,state)
          | (.goesOn offset,records,state) =>
            let p := mdnsSection callback sock src buffer size .authority queryId (buffer.be16 8)
              ⟨false,offset,records,state⟩
            let p := mdnsSection callback sock src buffer size .additional queryId
              (buffer.be16 10) p
            (buffer,p.total,p.state)

end Receive

end WlrRemote
