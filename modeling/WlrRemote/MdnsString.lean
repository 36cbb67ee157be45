import WlrRemote.Common
import Mathlib.Data.List.FinRange

/-!
Names on the wire as `mdns.h` reads and writes them. A buffer is a memory and
an offset into it; `MDNS_INVALID_POS` and the null pointer are `none`.
-/

set_option autoImplicit false

namespace WlrRemote
open Octets

def dot : UInt8 := 46

def mdnsMaxSubstrings : Nat := 64

structure MdnsStringPair where
  offset : Option Nat
  length : Nat
  ref : Bool
  deriving DecidableEq, Repr

def mdnsIsStringRef (val : UInt8) : Bool := val &&& 0xC0 == 0xC0

/-- The loop over references. Sixteen may be followed. -/
def mdnsFollowRefs (buffer : Mem) (size : Nat) : Nat → Nat → Bool → MdnsStringPair
  | budget, offset, ref =>
    if mdnsIsStringRef (buffer offset) then
      if size < offset + 2 then ⟨none,0,ref⟩
      else
        let target := (buffer.be16 offset).toNat % 0x4000
        if size ≤ target then ⟨none,0,ref⟩
        else
          match budget with
          | 0 => ⟨none,0,true⟩
          | budget + 1 => mdnsFollowRefs buffer size budget target true
    else
      let length := (buffer offset).toNat
      if size < offset + 1 + length then ⟨none,0,ref⟩ else ⟨some (offset + 1),length,ref⟩

def mdnsGetNextSubstring (buffer : Mem) (size offset : Nat) : MdnsStringPair :=
  if size ≤ offset then ⟨none,0,false⟩
  else if buffer offset = 0 then ⟨some offset,0,false⟩
  else mdnsFollowRefs buffer size 16 offset false

/-- The loops below count down from `mdnsMaxSubstrings + 1`, where the source
counts up and gives up when the counter has passed `MDNS_MAX_SUBSTRINGS`. -/
def mdnsStringSkipLoop (buffer : Mem) (size : Nat) : Nat → Nat → Option Nat
  | 0, _ => none
  | budget + 1, cur =>
    let substr := mdnsGetNextSubstring buffer size cur
    match substr.offset with
    | none => none
    | some offset =>
      if substr.ref then some (cur + 2)
      else if substr.length = 0 then some (offset + 1)
      else mdnsStringSkipLoop buffer size budget (offset + substr.length)

def mdnsStringSkip (buffer : Mem) (size offset : Nat) : Option Nat :=
  mdnsStringSkipLoop buffer size (mdnsMaxSubstrings + 1) offset

def asciiLower (c : UInt8) : UInt8 := if 65 ≤ c ∧ c ≤ 90 then c + 32 else c

/-- `!strncasecmp(s1, s2, n)` on two strings of which `n` bytes are given. -/
def strncasecmpEqual : Bytes → Bytes → Bool
  | a :: as, b :: bs => asciiLower a == asciiLower b && (a == 0 || strncasecmpEqual as bs)
  | _, _ => true

def mdnsStringEqualLoop (lhs : Mem) (sizeLhs : Nat) (rhs : Mem) (sizeRhs : Nat) :
    Nat → Nat → Nat → Option Nat → Option Nat → Option (Nat × Nat)
  | 0, _, _, _, _ => none
  | budget + 1, lhsCur, rhsCur, lhsEnd, rhsEnd =>
    let lhsSubstr := mdnsGetNextSubstring lhs sizeLhs lhsCur
    let rhsSubstr := mdnsGetNextSubstring rhs sizeRhs rhsCur
    match lhsSubstr.offset, rhsSubstr.offset with
    | some lhsOffset, some rhsOffset =>
      if lhsSubstr.length ≠ rhsSubstr.length then none
      else if !strncasecmpEqual (rhs.read rhsOffset rhsSubstr.length)
          (lhs.read lhsOffset rhsSubstr.length) then none
      else
        let lhsEnd := if lhsSubstr.ref && lhsEnd.isNone then some (lhsCur + 2) else lhsEnd
        let rhsEnd := if rhsSubstr.ref && rhsEnd.isNone then some (rhsCur + 2) else rhsEnd
        let lhsCur := lhsOffset + lhsSubstr.length
        let rhsCur := rhsOffset + rhsSubstr.length
        if lhsSubstr.length = 0 then
          some (lhsEnd.getD (lhsCur + 1),rhsEnd.getD (rhsCur + 1))
        else mdnsStringEqualLoop lhs sizeLhs rhs sizeRhs budget lhsCur rhsCur lhsEnd rhsEnd
    | _, _ => none

def mdnsStringEqual (lhs : Mem) (sizeLhs ofsLhs : Nat) (rhs : Mem) (sizeRhs ofsRhs : Nat) :
    Option (Nat × Nat) :=
  mdnsStringEqualLoop lhs sizeLhs rhs sizeRhs (mdnsMaxSubstrings + 1) ofsLhs ofsRhs none none

def mdnsStringExtractLoop (buffer : Mem) (size : Nat) :
    Nat → Nat → Option Nat → Nat → Bytes → Option (Bytes × Nat)
  | 0, _, _, _, _ => none
  | budget + 1, cur, stop, remain, dst =>
    let substr := mdnsGetNextSubstring buffer size cur
    match substr.offset with
    | none => none
    | some offset =>
      let stop := if substr.ref && stop.isNone then some (cur + 2) else stop
      let next := offset + substr.length
      if substr.length = 0 then some (dst,stop.getD (next + 1))
      else
        let toCopy := min substr.length remain
        let dst := dst ++ buffer.read offset toCopy
        let remain := remain - toCopy
        if 0 < remain then
          mdnsStringExtractLoop buffer size budget next stop (remain - 1) (dst ++ [dot])
        else mdnsStringExtractLoop buffer size budget next stop remain dst

/-- The dotted name and the offset past it. After `none` the source returns the
empty string and leaves the offset alone. -/
def mdnsStringExtract (buffer : Mem) (size offset capacity : Nat) : Option (Bytes × Nat) :=
  mdnsStringExtractLoop buffer size (mdnsMaxSubstrings + 1) offset none capacity []

structure MdnsStringTable where
  offset : Fin 16 → Nat
  count : Nat
  next : Fin 16
  count_le : count ≤ 16

def MdnsStringTable.empty : MdnsStringTable := ⟨fun _ => 0,0,0,by omega⟩

def mdnsStringFind (str : Bytes) (length : Nat) (c : UInt8) (offset : Nat) : Option Nat :=
  if length ≤ offset then none
  else (((str.take length).drop offset).idxOf? c).map (offset + ·)

/-- The inner loop of the search: the offset in `str` up to which labels agree.
The first argument bounds the iterations, each of which advances the offset. -/
def mdnsStringTableMatch (buffer : Mem) (capacity : Nat) (str : Bytes) (totalLength : Nat) :
    Nat → Nat → Nat → Nat
  | 0, offset, _ => offset
  | fuel + 1, offset, cur =>
    if offset < totalLength then
      let dotPos := (mdnsStringFind str totalLength dot offset).getD totalLength
      let subString := mdnsGetNextSubstring buffer capacity cur
      match subString.offset with
      | none => offset
      | some at_ =>
        if subString.length = 0 ∨ subString.length ≠ dotPos - offset then offset
        else if (str.drop offset).take subString.length ≠ buffer.read at_ subString.length then
          offset
        else mdnsStringTableMatch buffer capacity str totalLength fuel (dotPos + 1)
          (at_ + subString.length)
    else offset

def mdnsStringTableTry (buffer : Mem) (capacity : Nat) (str : Bytes)
    (firstLength totalLength entry : Nat) : Option Nat :=
  if capacity ≤ entry then none
  else
    let subString := mdnsGetNextSubstring buffer capacity entry
    match subString.offset with
    | none => none
    | some at_ =>
      if subString.length = 0 ∨ subString.length ≠ firstLength then none
      else if str.take subString.length ≠ buffer.read at_ subString.length then none
      else if totalLength ≤ mdnsStringTableMatch buffer capacity str totalLength totalLength
          (firstLength + 1) (at_ + subString.length) then some entry
      else none

def mdnsStringTableFind (stringTable : MdnsStringTable) (buffer : Mem) (capacity : Nat)
    (str : Bytes) (firstLength totalLength : Nat) : Option Nat :=
  ((List.finRange 16).take stringTable.count).findSome? fun istr =>
    mdnsStringTableTry buffer capacity str firstLength totalLength (stringTable.offset istr)

def mdnsStringTableAdd (stringTable : MdnsStringTable) (offset : Nat) : MdnsStringTable where
  offset := Function.update stringTable.offset stringTable.next offset
  count := min (stringTable.count + 1) 16
  next := stringTable.next + 1
  count_le := by omega

/-- What a writing function leaves behind: the buffer, the position after what it
wrote (`none` for the null pointer), and the table. -/
structure MdnsWriter where
  buffer : Mem
  data : Option Nat
  table : MdnsStringTable

def mdnsStringMakeRef (buffer : Mem) (capacity data refOffset : Nat) (table : MdnsStringTable) :
    MdnsWriter :=
  if capacity - data < 2 then ⟨buffer,none,table⟩
  else ⟨buffer.write data (be16 (0xC000 ||| UInt16.ofNat refOffset)),some (data + 2),table⟩

def mdnsStringMakeLoop (capacity : Nat) (name : Bytes) (length : Nat) :
    Nat → Mem → Nat → Nat → MdnsStringTable → MdnsWriter
  | 0, buffer, _, _, table => ⟨buffer,none,table⟩
  | fuel + 1, buffer, data, lastPos, table =>
    if lastPos < length then
      let pos := mdnsStringFind name length dot lastPos
      let subLength := pos.getD length - lastPos
      match mdnsStringTableFind table buffer capacity (name.drop lastPos) subLength
          (length - lastPos) with
      | some refOffset => mdnsStringMakeRef buffer capacity data refOffset table
      | none =>
        if capacity - data ≤ subLength + 1 then ⟨buffer,none,table⟩
        else
          mdnsStringMakeLoop capacity name length fuel
            (buffer.write data (UInt8.ofNat subLength :: (name.drop lastPos).take subLength))
            (data + (subLength + 1)) ((pos.map (· + 1)).getD length)
            (mdnsStringTableAdd table data)
    else if capacity - data = 0 then ⟨buffer,none,table⟩
    else ⟨buffer.write data [0],some (data + 1),table⟩

def mdnsStringMake (buffer : Mem) (capacity data : Nat) (name : Bytes) (table : MdnsStringTable) :
    MdnsWriter :=
  let length := if name.getLast? = some dot then name.length - 1 else name.length
  mdnsStringMakeLoop capacity name length (length + 1) buffer data 0 table

end WlrRemote
