import WlrRemote.MdnsRecord

/-!
The reading side of `mdns.h`: the loop over a received datagram, and the
functions that read the data of a record.
-/

set_option autoImplicit false

namespace WlrRemote
open Octets

inductive MdnsEntryType where
  | question | answer | authority | additional
  deriving DecidableEq, Repr

structure MdnsEntry where
  sock : Int
  src : Sockaddr
  entry : MdnsEntryType
  queryId : UInt16
  rtype : UInt16
  rclass : UInt16
  ttl : UInt32
  size : Nat
  nameOffset : Nat
  nameLength : Nat
  recordOffset : Nat
  recordLength : Nat

def mdnsServicesQuery : Bytes :=
  [0,0,0,0,0,1,0,0,0,0,0,0] ++ (9 :: ascii "_services") ++ (7 :: ascii "_dns-sd") ++
    (4 :: ascii "_udp") ++ (5 :: ascii "local") ++ [0] ++ be16 MdnsRecordType.ptr.code ++
    [0x80,1]

def mdnsServicesQueryMem : Mem := Mem.write (fun _ => 0) 0 mdnsServicesQuery

structure MdnsQuestion where
  dnsSd : Bool
  length : Nat
  rtype : UInt16
  rclass : UInt16
  next : Nat
  deriving DecidableEq, Repr

/-- One question; the type and the class are read wherever the name ends, also
past the end of the datagram. -/
def mdnsReadQuestion (buffer : Mem) (size questionOffset : Nat) : Option MdnsQuestion :=
  let fields := fun dnsSd offset : _ => (⟨dnsSd,offset - questionOffset,buffer.be16 offset,
    buffer.be16 (offset + 2),offset + 4⟩ : MdnsQuestion)
  match mdnsStringEqual buffer size questionOffset mdnsServicesQueryMem
      mdnsServicesQuery.length 12 with
  | some (offset,_) => some (fields true offset)
  | none => (mdnsStringSkip buffer size questionOffset).map (fields false)

def mdnsClassAccepted (rclass : UInt16) : Bool :=
  let classWithoutFlushbit := rclass &&& ~~~mdnsCacheFlush
  classWithoutFlushbit == mdnsClassIn || classWithoutFlushbit == mdnsClassAny

section Listen

variable {σ : Type} (callback : Mem → MdnsEntry → σ → Int × σ)

structure MdnsProgress (σ : Type) where
  stopped : Bool
  offset : Nat
  total : Nat
  state : σ

def mdnsRecordsParse (sock : Int) (src : Sockaddr) (buffer : Mem) (size : Nat)
    (entry : MdnsEntryType) (queryId : UInt16) : Nat → MdnsProgress σ → MdnsProgress σ
  | 0, p => p
  | records + 1, p =>
    let offset := (mdnsStringSkip buffer size p.offset).getD p.offset
    if size < offset + 10 then { p with offset := offset }
    else
      let length := (buffer.be16 (offset + 8)).toNat
      if length ≤ size - (offset + 10) then
        let e : MdnsEntry := ⟨sock,src,entry,queryId,buffer.be16 offset,buffer.be16 (offset + 2),
          buffer.be32 (offset + 4),size,p.offset,offset - p.offset,offset + 10,length⟩
        let (res,state) := callback buffer e p.state
        if res ≠ 0 then ⟨p.stopped,offset + 10,p.total + 1,state⟩
        else mdnsRecordsParse sock src buffer size entry queryId records
          ⟨p.stopped,offset + 10 + length,p.total + 1,state⟩
      else mdnsRecordsParse sock src buffer size entry queryId records
        { p with offset := offset + 10 + length }

def mdnsQuestionLoop (sock : Int) (src : Sockaddr) (buffer : Mem) (size : Nat)
    (queryId flags : UInt16) : Nat → MdnsProgress σ → MdnsProgress σ
  | 0, p => p
  | questions + 1, p =>
    match mdnsReadQuestion buffer size p.offset with
    | none => p
    | some q =>
      if !mdnsClassAccepted q.rclass then { p with offset := q.next }
      else if q.dnsSd && flags ≠ 0 then
        mdnsQuestionLoop sock src buffer size queryId flags questions { p with offset := q.next }
      else
        let e : MdnsEntry := ⟨sock,src,.question,queryId,q.rtype,q.rclass,0,size,p.offset,q.length,
          p.offset,q.length⟩
        let (res,state) := callback buffer e p.state
        if res ≠ 0 then ⟨true,q.next,p.total + 1,state⟩
        else mdnsQuestionLoop sock src buffer size queryId flags questions
          ⟨p.stopped,q.next,p.total + 1,state⟩

def mdnsSection (sock : Int) (src : Sockaddr) (buffer : Mem) (size : Nat) (entry : MdnsEntryType)
    (queryId rrs : UInt16) (p : MdnsProgress σ) : MdnsProgress σ :=
  if p.stopped then p
  else
    let p' := mdnsRecordsParse callback sock src buffer size entry queryId rrs.toNat
      { p with total := 0 }
    ⟨p'.total ≠ rrs.toNat,p'.offset,p.total + p'.total,p'.state⟩

/-- `none` stands for a receive that failed or brought an empty datagram. -/
def mdnsSocketListen (sock : Int) (capacity : Nat) (buffer : Mem)
    (received : Option (Sockaddr × Bytes)) (state : σ) : Mem × Nat × σ :=
  match received with
  | none => (buffer,0,state)
  | some (src,datagram) =>
    let datagram := datagram.take capacity
    if datagram.length = 0 then (buffer,0,state)
    else
      let buffer := buffer.write 0 datagram
      let size := datagram.length
      let queryId := buffer.be16 0
      let p := mdnsQuestionLoop callback sock src buffer size queryId (buffer.be16 2)
        (buffer.be16 4).toNat ⟨false,12,0,state⟩
      let p := mdnsSection callback sock src buffer size .answer queryId (buffer.be16 6) p
      let p := mdnsSection callback sock src buffer size .authority queryId (buffer.be16 8) p
      let p' := mdnsSection callback sock src buffer size .additional queryId (buffer.be16 10) p
      (buffer,p.total,p'.state)

end Listen

def mdnsRecordParsePtr (buffer : Mem) (size offset length capacity : Nat) : Bytes :=
  if offset + length ≤ size ∧ 2 ≤ length then
    ((mdnsStringExtract buffer size offset capacity).map Prod.fst).getD []
  else []

structure MdnsRecordSrv where
  priority : UInt16
  weight : UInt16
  port : UInt16
  name : Bytes
  deriving DecidableEq, Repr

def mdnsRecordParseSrv (buffer : Mem) (size offset length capacity : Nat) : MdnsRecordSrv :=
  if offset + length ≤ size ∧ 8 ≤ length then
    ⟨buffer.be16 offset,buffer.be16 (offset + 2),buffer.be16 (offset + 4),
      ((mdnsStringExtract buffer size (offset + 6) capacity).map Prod.fst).getD []⟩
  else ⟨0,0,0,[]⟩

/-- The address of the returned `sockaddr_in`; the rest of it is constant. -/
def mdnsRecordParseA (buffer : Mem) (size offset length : Nat) : Bytes :=
  if offset + length ≤ size ∧ length = 4 then buffer.read offset 4 else List.replicate 4 0

def mdnsRecordParseAaaa (buffer : Mem) (size offset length : Nat) : Bytes :=
  if offset + length ≤ size ∧ length = 16 then buffer.read offset 16 else List.replicate 16 0

/-- Without a separator the value is the null string. -/
structure MdnsRecordTxt where
  key : Bytes
  value : Option Bytes
  deriving DecidableEq, Repr

def mdnsTxtSeparator : Bytes → Nat → Nat
  | [], c => c
  | b :: bs, c =>
    if b < 0x20 ∨ 0x7E < b then 0
    else if b = 61 then c
    else mdnsTxtSeparator bs (c + 1)

/-- The first argument bounds the strings, each of which takes a byte at least. -/
def mdnsRecordParseTxtLoop (buffer : Mem) (stop : Nat) : Nat → Nat → Nat → List MdnsRecordTxt
  | 0, _, _ => []
  | fuel + 1, offset, capacity =>
    if offset < stop ∧ 0 < capacity then
      let sublength := (buffer offset).toNat
      if stop - offset ≤ sublength then []
      else
        let strdata := buffer.read (offset + 1) sublength
        let separator := mdnsTxtSeparator strdata 0
        if separator = 0 then
          mdnsRecordParseTxtLoop buffer stop fuel (offset + (sublength + 1)) capacity
        else
          ⟨strdata.take separator,
              if separator < sublength then some (strdata.drop (separator + 1)) else none⟩ ::
            mdnsRecordParseTxtLoop buffer stop fuel (offset + (sublength + 1)) (capacity - 1)
    else []

def mdnsRecordParseTxt (buffer : Mem) (size offset length capacity : Nat) : List MdnsRecordTxt :=
  let stop := min size (offset + length)
  mdnsRecordParseTxtLoop buffer stop (stop - offset) offset capacity

end WlrRemote
