import WlrRemote.MdnsString

/-!
Resource records and the messages that `mdns.h` composes of them.
-/

set_option autoImplicit false

namespace WlrRemote
open Octets

inductive MdnsRecordType where
  | ignore | a | ptr | txt | aaaa | srv | any
  deriving DecidableEq, Repr

def MdnsRecordType.code : MdnsRecordType → UInt16
  | .ignore => 0
  | .a => 1
  | .ptr => 12
  | .txt => 16
  | .aaaa => 28
  | .srv => 33
  | .any => 255

def mdnsClassIn : UInt16 := 1
def mdnsClassAny : UInt16 := 255
def mdnsUnicastResponse : UInt16 := 0x8000
def mdnsCacheFlush : UInt16 := 0x8000

/-- The union `mdns_record_data`. Every record of the program is built with the
type that belongs to the member it sets, so the member decides the type. -/
inductive MdnsRecordData where
  | ptr (name : Bytes)
  | srv (priority weight port : UInt16) (name : Bytes)
  | a (addr : SockaddrIn)
  | aaaa (addr : SockaddrIn6)
  | txt (key value : Bytes)
  deriving DecidableEq, Repr

def MdnsRecordData.type : MdnsRecordData → MdnsRecordType
  | .ptr _ => .ptr
  | .srv _ _ _ _ => .srv
  | .a _ => .a
  | .aaaa _ => .aaaa
  | .txt _ _ => .txt

structure MdnsRecord where
  name : Bytes
  data : MdnsRecordData
  rclass : UInt16
  ttl : UInt32
  deriving DecidableEq, Repr

def MdnsRecord.type (record : MdnsRecord) : MdnsRecordType := record.data.type

def mdnsAnswerAddQuestionUnicast (buffer : Mem) (capacity data : Nat) (recordType : UInt16)
    (name : Bytes) (table : MdnsStringTable) : MdnsWriter :=
  let w := mdnsStringMake buffer capacity data name table
  match w.data with
  | none => w
  | some data =>
    if capacity - data < 4 then ⟨w.buffer,none,w.table⟩
    else
      ⟨w.buffer.write data (be16 recordType ++ be16 (mdnsUnicastResponse ||| mdnsClassIn)),
        some (data + 4),w.table⟩

def mdnsAnswerAddRecordHeader (buffer : Mem) (capacity data : Nat) (record : MdnsRecord)
    (table : MdnsStringTable) : MdnsWriter :=
  let w := mdnsStringMake buffer capacity data record.name table
  match w.data with
  | none => w
  | some data =>
    if capacity - data < 10 then ⟨w.buffer,none,w.table⟩
    else
      ⟨w.buffer.write data (be16 record.type.code ++ be16 record.rclass ++ be32 record.ttl ++
        be16 0),some (data + 10),w.table⟩

/-- The switch over the record type. TXT records do not get here. -/
def mdnsAnswerAddRecordData (buffer : Mem) (capacity data : Nat) (record : MdnsRecord)
    (table : MdnsStringTable) : MdnsWriter :=
  let remain := capacity - data
  match record.data with
  | .ptr name => mdnsStringMake buffer capacity data name table
  | .srv priority weight port name =>
    if remain ≤ 6 then ⟨buffer,none,table⟩
    else
      mdnsStringMake (buffer.write data (be16 priority ++ be16 weight ++ be16 port)) capacity
        (data + 6) name table
  | .a addr =>
    if remain < 4 then ⟨buffer,none,table⟩
    else ⟨buffer.write data addr.sinAddr.toList,some (data + 4),table⟩
  | .aaaa addr =>
    if remain < 16 then ⟨buffer,none,table⟩
    else ⟨buffer.write data addr.sin6Addr.toList,some (data + 16),table⟩
  | .txt _ _ => ⟨buffer,some data,table⟩

def mdnsAnswerAddRecord (capacity : Nat) (w : MdnsWriter) (record : MdnsRecord) : MdnsWriter :=
  match w.data with
  | none => w
  | some data =>
    if record.type = .txt then w
    else
      let w := mdnsAnswerAddRecordHeader w.buffer capacity data record w.table
      match w.data with
      | none => w
      | some recordData =>
        let w := mdnsAnswerAddRecordData w.buffer capacity recordData record w.table
        match w.data with
        | none => w
        | some data =>
          ⟨w.buffer.write (recordData - 2) (be16 (UInt16.ofNat (data - recordData))),some data,
            w.table⟩

def mdnsRecordUpdateRclassTtl (record : MdnsRecord) (rclass : UInt16) (ttl : UInt32) :
    MdnsRecord :=
  let rclass := if record.rclass = 0 then rclass else record.rclass
  let ttl := if record.ttl = 0 ∨ ttl = 0 then ttl else record.ttl
  let rclass := rclass &&& (mdnsClassIn ||| mdnsCacheFlush)
  let rclass := if record.type = .ptr then rclass &&& ~~~mdnsCacheFlush else rclass
  { record with rclass := rclass, ttl := ttl }

/-- The loop over the records: `recordData` is the position after the header of
the one TXT record, once it has been written. -/
def mdnsAnswerAddTxtRecordLoop (capacity : Nat) (rclass : UInt16) (ttl : UInt32) :
    List MdnsRecord → Option Nat → MdnsWriter → Option Nat × MdnsWriter
  | [], recordData, w => (recordData,w)
  | record :: records, recordData, w =>
    match w.data, record.data with
    | none, _ => (recordData,w)
    | some data, .txt key value =>
      let record := mdnsRecordUpdateRclassTtl record rclass ttl
      let w := if recordData.isNone then
          mdnsAnswerAddRecordHeader w.buffer capacity data record w.table else w
      match w.data with
      | none => (none,w)
      | some data =>
        let recordData := recordData.getD data
        let stringLength := key.length + value.length + 1
        if capacity - data ≤ stringLength ∨ 0x3FFF < stringLength then
          (none,⟨w.buffer,none,w.table⟩)
        else
          mdnsAnswerAddTxtRecordLoop capacity rclass ttl records (some recordData)
            ⟨w.buffer.write data (UInt8.ofNat stringLength :: key ++ [0]),
              some (data + (key.length + 2 + value.length)),w.table⟩
    | some _, _ => mdnsAnswerAddTxtRecordLoop capacity rclass ttl records recordData w

def mdnsAnswerAddTxtRecord (capacity : Nat) (w : MdnsWriter) (records : List MdnsRecord)
    (rclass : UInt16) (ttl : UInt32) : MdnsWriter :=
  let (recordData,w) := mdnsAnswerAddTxtRecordLoop capacity rclass ttl records none w
  match recordData, w.data with
  | some recordData, some data =>
    ⟨w.buffer.write (recordData - 2) (be16 (UInt16.ofNat (data - recordData))),some data,w.table⟩
  | _, _ => w

def mdnsAnswerGetRecordCount (records : List MdnsRecord) : UInt16 :=
  let totalCount := records.countP fun record => record.type ≠ .txt
  let txtRecord := if records.any fun record => record.type = .txt then 1 else 0
  UInt16.ofNat (totalCount + txtRecord)

structure MdnsHeader where
  queryId : UInt16
  flags : UInt16
  questions : UInt16
  answerRrs : UInt16
  authorityRrs : UInt16
  additionalRrs : UInt16
  deriving DecidableEq, Repr

def MdnsHeader.bytes (h : MdnsHeader) : Bytes :=
  be16 h.queryId ++ be16 h.flags ++ be16 h.questions ++ be16 h.answerRrs ++
    be16 h.authorityRrs ++ be16 h.additionalRrs

/-- What `mdns_query_answer_unicast` leaves in the buffer; it sends the bytes
before the final position. -/
def mdnsQueryAnswerUnicast (buffer : Mem) (capacity : Nat) (queryId recordType : UInt16)
    (name : Bytes) (answer : MdnsRecord) (authority additional : List MdnsRecord) : MdnsWriter :=
  if capacity < 12 + 32 + 4 then ⟨buffer,none,.empty⟩
  else
    let rclass := mdnsClassIn
    let ttl : UInt32 := 10
    let header : MdnsHeader := ⟨queryId,0x8400,1,1,mdnsAnswerGetRecordCount authority,
      mdnsAnswerGetRecordCount additional⟩
    let addRecord := fun w (record : MdnsRecord) => mdnsAnswerAddRecord capacity w
      { record with rclass := rclass, ttl := if record.ttl = 0 then ttl else record.ttl }
    let w := mdnsAnswerAddQuestionUnicast (buffer.write 0 header.bytes) capacity 12 recordType
      name .empty
    let w := mdnsAnswerAddRecord capacity w { answer with rclass := rclass, ttl := ttl }
    let w := authority.foldl addRecord w
    let w := mdnsAnswerAddTxtRecord capacity w authority rclass ttl
    let w := additional.foldl addRecord w
    mdnsAnswerAddTxtRecord capacity w additional rclass ttl

def mdnsAnswerMulticastRclassTtl (buffer : Mem) (capacity : Nat) (answer : MdnsRecord)
    (authority additional : List MdnsRecord) (rclass : UInt16) (ttl : UInt32) : MdnsWriter :=
  if capacity < 12 + 32 + 4 then ⟨buffer,none,.empty⟩
  else
    let header : MdnsHeader := ⟨0,0x8400,0,1,mdnsAnswerGetRecordCount authority,
      mdnsAnswerGetRecordCount additional⟩
    let addRecord := fun w record => mdnsAnswerAddRecord capacity w
      (mdnsRecordUpdateRclassTtl record rclass ttl)
    let w := addRecord ⟨buffer.write 0 header.bytes,some 12,.empty⟩ answer
    let w := authority.foldl addRecord w
    let w := mdnsAnswerAddTxtRecord capacity w authority rclass ttl
    let w := additional.foldl addRecord w
    mdnsAnswerAddTxtRecord capacity w additional rclass ttl

def mdnsQueryAnswerMulticast (buffer : Mem) (capacity : Nat) (answer : MdnsRecord)
    (authority additional : List MdnsRecord) : MdnsWriter :=
  mdnsAnswerMulticastRclassTtl buffer capacity answer authority additional mdnsClassIn 60

def mdnsAnnounceMulticast (buffer : Mem) (capacity : Nat) (answer : MdnsRecord)
    (authority additional : List MdnsRecord) : MdnsWriter :=
  mdnsAnswerMulticastRclassTtl buffer capacity answer authority additional
    (mdnsClassIn ||| mdnsCacheFlush) 60

def mdnsGoodbyeMulticast (buffer : Mem) (capacity : Nat) (answer : MdnsRecord)
    (authority additional : List MdnsRecord) : MdnsWriter :=
  mdnsAnswerMulticastRclassTtl buffer capacity answer authority additional mdnsClassIn 0

end WlrRemote
