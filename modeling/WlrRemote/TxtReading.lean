import WlrRemote.TxtRecords
import Mathlib.Data.List.TakeWhile
import Mathlib.Data.List.Forall2

set_option autoImplicit false

namespace WlrRemote
open Octets

/-- The strings at the front of a text that are there in full. -/
def countedStrings : Bytes → List Bytes
  | [] => []
  | n :: bs =>
    if n.toNat ≤ bs.length then bs.take n.toNat :: countedStrings (bs.drop n.toNat) else []
termination_by bs => bs.length
decreasing_by simp only [List.length_drop,List.length_cons]; omega

theorem countedStrings_labelBytes {s : Bytes} (hs : s.length ≤ 255) (bs : Bytes) :
    countedStrings (labelBytes s ++ bs) = s :: countedStrings bs := by
  have hn : (UInt8.ofNat s.length).toNat = s.length := by
    rw [UInt8.toNat_ofNat']
    omega
  have hle : s.length ≤ (s ++ bs).length := by simp
  rw [labelBytes,List.cons_append,countedStrings,hn,if_pos hle,List.take_left,List.drop_left]

theorem countedStrings_strings {strings : List Bytes} (h : ∀ s ∈ strings, s.length ≤ 255)
    (bs : Bytes) :
    countedStrings (strings.flatMap labelBytes ++ bs) = strings ++ countedStrings bs := by
  induction strings with
  | nil => rfl
  | cons s strings ih =>
    rw [List.flatMap_cons,List.append_assoc,countedStrings_labelBytes (h s List.mem_cons_self),
      ih fun s hs => h s (List.mem_cons_of_mem _ hs),List.cons_append]

theorem countedStrings_spell (bs : Bytes) :
    (∀ s ∈ countedStrings bs, s.length ≤ 255) ∧ ∃ rest,
      bs = (countedStrings bs).flatMap labelBytes ++ rest ∧ ∀ n ∈ rest.head?, rest.length ≤ n.toNat := by
  induction bs using countedStrings.induct with
  | case1 => exact ⟨by simp [countedStrings],[],by simp [countedStrings],by simp⟩
  | case2 n bs hn ih =>
    obtain ⟨hlen,rest,hrest,hcut⟩ := ih
    have hmax : n.toNat ≤ 255 := by
      have := n.toNat_lt
      omega
    have htake : (bs.take n.toNat).length = n.toNat := List.length_take_of_le hn
    rw [countedStrings,if_pos hn]
    refine ⟨?_,rest,?_,hcut⟩
    · intro s hs
      rcases List.mem_cons.mp hs with rfl | hs
      · rwa [htake]
      · exact hlen s hs
    · rw [List.flatMap_cons,List.append_assoc,← hrest,labelBytes,htake,UInt8.ofNat_toNat,
        List.cons_append,List.take_append_drop]
  | case3 n bs hn =>
    rw [countedStrings,if_neg hn]
    refine ⟨by simp,n :: bs,rfl,?_⟩
    simp only [List.head?_cons,Option.mem_some_iff,forall_eq',List.length_cons]
    omega

def printable (b : UInt8) : Bool := 0x20 ≤ b && b ≤ 0x7E

def keyPart (s : Bytes) : Bytes := s.takeWhile fun b => b ≠ 61

/-- The key and what is behind the separator. Without a key that is printable a string is
ignored. -/
def txtRecord (s : Bytes) : Option MdnsRecordTxt :=
  if keyPart s ≠ [] ∧ (keyPart s).all printable then
    some ⟨keyPart s,
      if (keyPart s).length < s.length then some (s.drop ((keyPart s).length + 1)) else none⟩
  else none

theorem mdnsTxtSeparator_eq (s : Bytes) (c : Nat) : mdnsTxtSeparator s c =
    if (keyPart s).all printable then c + (keyPart s).length else 0 := by
  induction s generalizing c with
  | nil => simp [mdnsTxtSeparator,keyPart]
  | cons b bs ih =>
    rw [mdnsTxtSeparator]
    by_cases hsep : b = 61
    · subst hsep
      simp [keyPart]
    · have hkey : keyPart (b :: bs) = b :: keyPart bs := by simp [keyPart,hsep]
      by_cases hb : printable b = true
      · have hin : ¬ (b < 0x20 ∨ 0x7E < b) := by
          simp only [printable,Bool.and_eq_true,decide_eq_true_eq] at hb
          exact not_or.mpr ⟨UInt8.not_lt.mpr hb.1,UInt8.not_lt.mpr hb.2⟩
        rw [if_neg hin,if_neg hsep,ih,hkey,List.all_cons,hb,Bool.true_and,List.length_cons,
          Nat.add_right_comm,Nat.add_assoc]
      · have hout : b < 0x20 ∨ 0x7E < b := by
          simp only [printable,Bool.and_eq_true,decide_eq_true_eq,not_and_or] at hb
          exact hb.imp UInt8.not_le.mp UInt8.not_le.mp
        rw [if_pos hout,hkey,List.all_cons,Bool.eq_false_iff.mpr hb,Bool.false_and]
        rfl

theorem txtRecord_eq (s : Bytes) : txtRecord s =
    let separator := mdnsTxtSeparator s 0
    if separator = 0 then none
    else some ⟨s.take separator,if separator < s.length then some (s.drop (separator + 1)) else none⟩ := by
  simp only [txtRecord,mdnsTxtSeparator_eq,Nat.zero_add]
  have htake : keyPart s = s.take (keyPart s).length :=
    List.prefix_iff_eq_take.mp (List.takeWhile_prefix _)
  by_cases hall : (keyPart s).all printable = true
  · by_cases hnil : keyPart s = []
    · rw [if_neg fun h => h.1 hnil,if_pos hall,hnil]
      rfl
    · rw [if_pos ⟨hnil,hall⟩,if_pos hall,if_neg (mt List.eq_nil_of_length_eq_zero hnil),← htake]
  · rw [if_neg fun h => hall h.2,if_neg hall,if_pos rfl]

def MdnsRecordTxt.text (r : MdnsRecordTxt) : Bytes :=
  r.key ++ r.value.elim [] fun value => 61 :: value

structure LegalTxt (r : MdnsRecordTxt) : Prop where
  key : r.key ≠ []
  printable : ∀ b ∈ r.key, 0x20 ≤ b ∧ b ≤ 0x7E ∧ b ≠ 61
  fits : r.text.length ≤ 255

theorem LegalTxt.read {r : MdnsRecordTxt} (h : LegalTxt r) : txtRecord r.text = some r := by
  obtain ⟨hne,hprintable,-⟩ := h
  obtain ⟨key,value⟩ := r
  have hkey : keyPart (MdnsRecordTxt.text ⟨key,value⟩) = key := by
    rw [keyPart,MdnsRecordTxt.text,List.takeWhile_append_of_pos (by
      simpa using fun b hb => (hprintable b hb).2.2)]
    cases value <;> simp
  have hall : key.all WlrRemote.printable = true := by
    rw [List.all_eq_true]
    intro b hb
    obtain ⟨hlo,hhi,-⟩ := hprintable b hb
    simp [WlrRemote.printable,hlo,hhi]
  rw [txtRecord,hkey,if_pos ⟨hne,hall⟩]
  cases value with
  | none => simp [MdnsRecordTxt.text]
  | some value => simp [MdnsRecordTxt.text,← List.drop_drop]

theorem mdnsRecordParseTxtLoop_eq (m : Mem) (stop : Nat) {fuel offset : Nat}
    (hfuel : stop - offset ≤ fuel) (capacity : Nat) :
    mdnsRecordParseTxtLoop m stop fuel offset capacity =
      ((countedStrings (m.read offset (stop - offset))).filterMap txtRecord).take capacity := by
  induction fuel generalizing offset capacity with
  | zero =>
    have hnone : stop - offset = 0 := by omega
    rw [hnone,mdnsRecordParseTxtLoop,Mem.read_zero,countedStrings]
    simp
  | succ fuel ih =>
    rw [mdnsRecordParseTxtLoop]
    split
    · rename_i hin
      obtain ⟨k,hk⟩ : ∃ k, stop - offset = k + 1 := ⟨stop - offset - 1,by omega⟩
      rw [hk,Mem.read_succ,countedStrings,Mem.length_read]
      simp only
      by_cases hcut : k + 1 ≤ (m offset).toNat
      · rw [if_pos hcut,if_neg (by omega)]
        simp
      · have hfit : (m offset).toNat ≤ k := by omega
        have hdrop : (m.read (offset + 1) k).drop (m offset).toNat =
            m.read (offset + ((m offset).toNat + 1)) (stop - (offset + ((m offset).toNat + 1))) := by
          obtain ⟨j,rfl⟩ := Nat.exists_eq_add_of_le hfit
          rw [Mem.read_add,List.drop_left' (Mem.length_read _ _ _)]
          congr 1 <;> omega
        rw [if_neg hcut,if_pos hfit,hdrop,Mem.take_read _ _ hfit,List.filterMap_cons,txtRecord_eq]
        simp only
        split
        · exact ih (by omega) capacity
        · obtain ⟨c,rfl⟩ : ∃ c, capacity = c + 1 := ⟨capacity - 1,by omega⟩
          rw [Nat.add_sub_cancel,List.take_succ_cons,ih (by omega) c,Mem.length_read]
    · rename_i hout
      rcases Nat.lt_or_ge offset stop with hlt | hge
      · have hzero : capacity = 0 := by omega
        rw [hzero,List.take_zero]
      · rw [Nat.sub_eq_zero_of_le hge,Mem.read_zero,countedStrings]
        simp

/-- The reader of TXT data, on any bytes whatever: it goes through the strings that are there
in full and returns, as far as there is room, those that have a key. Of data that is written
as it should be it returns each key with its value. -/
theorem txt_read (m : Mem) (size offset length capacity : Nat) :
    let rdata := m.read offset (min size (offset + length) - offset)
    mdnsRecordParseTxt m size offset length capacity =
      ((countedStrings rdata).filterMap txtRecord).take capacity ∧
    (∃ rest, rdata = (countedStrings rdata).flatMap labelBytes ++ rest ∧
      ∀ n ∈ rest.head?, rest.length ≤ n.toNat) ∧
    ∀ records : List MdnsRecordTxt, (∀ r ∈ records, LegalTxt r) → records.length ≤ capacity →
      rdata = records.flatMap (fun r => labelBytes r.text) →
      mdnsRecordParseTxt m size offset length capacity = records := by
  intro rdata
  have hread : mdnsRecordParseTxt m size offset length capacity =
      ((countedStrings rdata).filterMap txtRecord).take capacity :=
    mdnsRecordParseTxtLoop_eq m _ (Nat.le_refl _) capacity
  refine ⟨hread,(countedStrings_spell rdata).2,fun records hlegal hcap hdata => ?_⟩
  have hstrings : countedStrings rdata = records.map MdnsRecordTxt.text := by
    have hfit : ∀ s ∈ records.map MdnsRecordTxt.text, s.length ≤ 255 := by
      intro s hs
      obtain ⟨r,hr,rfl⟩ := List.mem_map.mp hs
      exact (hlegal r hr).fits
    have h := countedStrings_strings hfit []
    rw [List.append_nil,countedStrings,List.append_nil,List.flatMap_map] at h
    rw [hdata]
    exact h
  have hrecords : (records.map MdnsRecordTxt.text).filterMap txtRecord = records := by
    rw [List.filterMap_map]
    refine (List.filterMap_congr fun r hr => (hlegal r hr).read).trans ?_
    exact List.filterMap_some
  rw [hread,hstrings,hrecords,List.take_of_length_le hcap]

def MdnsRecord.txtPair (r : MdnsRecord) : Option (Bytes × Bytes) :=
  match r.data with
  | .txt key value => some (key,value)
  | _ => none

/-- The string that is there for a key and a value: a zero byte takes the separator's place,
and what follows is as long as the value. -/
def ZeroEnded (pair : Bytes × Bytes) (s : Bytes) : Prop :=
  ∃ fill : Bytes, fill.length = pair.2.length ∧ s = pair.1 ++ 0 :: fill

theorem ZeroEnded.ignored {pair : Bytes × Bytes} {s : Bytes} (h : ZeroEnded pair s)
    (hkey : PrintableKey pair.1) : txtRecord s = none := by
  obtain ⟨fill,-,rfl⟩ := h
  have hpart : (0 : UInt8) ∈ keyPart (pair.1 ++ 0 :: fill) := by
    rw [keyPart,List.takeWhile_append_of_pos (by simpa using fun b hb => (hkey b hb).2.2)]
    simp
  rw [txtRecord,if_neg]
  rintro ⟨-,hall⟩
  exact absurd (List.all_eq_true.mp hall 0 hpart) (by decide)

section Writer

variable {capacity : Nat} {rclass : UInt16} {ttl : UInt32}

theorem mdnsAnswerAddTxtRecordLoop_strings {records : List MdnsRecord} {w : MdnsWriter}
    {data start stop : Nat} (hw : w.data = some data)
    (hfit : ∀ r ∈ records, ∀ pair ∈ r.txtPair, pair.1.length + pair.2.length < 255)
    (hok : (mdnsAnswerAddTxtRecordLoop capacity rclass ttl records (some start) w).2.data =
      some stop) :
    let out := mdnsAnswerAddTxtRecordLoop capacity rclass ttl records (some start) w
    out.1 = some start ∧ AgreeBelow data w.buffer out.2.buffer ∧ ∃ strings,
      List.Forall₂ ZeroEnded (records.filterMap MdnsRecord.txtPair) strings ∧
      (∀ s ∈ strings, s.length ≤ 255) ∧ stop = data + (strings.flatMap labelBytes).length ∧
      out.2.buffer.read data (strings.flatMap labelBytes).length = strings.flatMap labelBytes := by
  induction records generalizing w data with
  | nil =>
    obtain rfl := Option.some.inj (hw.symm.trans hok)
    exact ⟨rfl,.refl _ _,[],.nil,by simp,rfl,rfl⟩
  | cons r records ih =>
    have hrest : ∀ r' ∈ records, ∀ pair ∈ r'.txtPair, pair.1.length + pair.2.length < 255 :=
      fun r' hr' => hfit r' (List.mem_cons_of_mem r hr')
    unfold mdnsAnswerAddTxtRecordLoop at hok ⊢
    cases hr : r.data with
    | txt key value =>
      have hpair : r.txtPair = some (key,value) := by rw [MdnsRecord.txtPair,hr]
      have hlen : key.length + value.length < 255 := hfit r List.mem_cons_self _ hpair
      simp only [hw,hr,Option.isNone_some,Bool.false_eq_true,↓reduceIte,Option.getD_some] at hok ⊢
      split at hok
      · contradiction
      · rename_i hroom
        rw [if_neg hroom]
        obtain ⟨hout,hagree,strings,hstrings,hmax,hstop,hread⟩ := ih rfl hrest hok
        generalize mdnsAnswerAddTxtRecordLoop capacity rclass ttl records (some start) _ = out at *
        have hwritten : out.2.buffer.read data (key.length + 2) =
            UInt8.ofNat (key.length + value.length + 1) :: key ++ [0] := by
          have h := w.buffer.read_write data
            (UInt8.ofNat (key.length + value.length + 1) :: key ++ [0])
          rw [List.length_append,List.length_cons,List.length_singleton] at h
          rw [← hagree.read (by omega)]
          exact h
        let fill := out.2.buffer.read (data + (key.length + 2)) value.length
        have hlabel : out.2.buffer.read data (key.length + 2 + value.length) =
            labelBytes (key ++ 0 :: fill) := by
          have hs : (key ++ 0 :: fill).length = key.length + value.length + 1 := by
            simp [fill,Nat.add_assoc]
          rw [Mem.read_add,hwritten,labelBytes,hs]
          simp [fill]
        have hlong : (labelBytes (key ++ 0 :: fill)).length = key.length + 2 + value.length := by
          rw [← hlabel,Mem.length_read]
        refine ⟨hout,(agreeBelow_write (Nat.le_refl data)).trans (hagree.mono (by omega)),
          (key ++ 0 :: fill) :: strings,?_,?_,?_,?_⟩
        · rw [List.filterMap_cons,hpair]
          exact .cons ⟨fill,Mem.length_read _ _ _,rfl⟩ hstrings
        · intro s hs
          rcases List.mem_cons.mp hs with rfl | hs
          · rw [length_labelBytes] at hlong
            omega
          · exact hmax s hs
        · rw [hstop,List.flatMap_cons,List.length_append,hlong,Nat.add_assoc]
        · rw [List.flatMap_cons,List.length_append,hlong,Mem.read_add,hlabel,hread]
    | ptr _ | srv _ _ _ _ | a _ | aaaa _ =>
      have hpair : r.txtPair = none := by rw [MdnsRecord.txtPair,hr]
      simp only [hw,hr] at hok ⊢
      rw [List.filterMap_cons,hpair]
      exact ih hw hrest hok

theorem mdnsAnswerAddTxtRecordLoop_header {records : List MdnsRecord} {w : MdnsWriter}
    {r : MdnsRecord} {data start : Nat} (hw : w.data = some data)
    (hfind : records.find? (fun r => r.type = .txt) = some r)
    (hstart : (mdnsAnswerAddRecordHeader w.buffer capacity data
      (mdnsRecordUpdateRclassTtl r rclass ttl) w.table).data = some start) :
    mdnsAnswerAddTxtRecordLoop capacity rclass ttl records none w =
      mdnsAnswerAddTxtRecordLoop capacity rclass ttl records (some start)
        (mdnsAnswerAddRecordHeader w.buffer capacity data (mdnsRecordUpdateRclassTtl r rclass ttl)
          w.table) := by
  induction records with
  | nil => contradiction
  | cons r' records ih =>
    rw [List.find?_cons] at hfind
    unfold mdnsAnswerAddTxtRecordLoop
    cases hr : r'.data with
    | txt key value =>
      have htype : r'.type = .txt := by rw [MdnsRecord.type,hr]; rfl
      simp only [htype,decide_true] at hfind
      obtain rfl := Option.some.inj hfind
      simp only [hw,hstart,Option.isNone_none,Option.isNone_some,Bool.false_eq_true,↓reduceIte,
        Option.getD_none,Option.getD_some]
    | ptr _ | srv _ _ _ _ | a _ | aaaa _ =>
      have htype : r'.type ≠ .txt := by simp [MdnsRecord.type,hr,MdnsRecordData.type]
      simp only [htype,decide_false] at hfind
      simp only [hw,hstart]
      exact ih hfind

/-- What the reader makes of the TXT record that the writer makes of a list of records, with
whatever values: a string for each, in which no value has been written and of which the key
is followed by a zero byte. So of no record with a printable key that has no separator anything
comes back. -/
theorem txt_read_back {records : List MdnsRecord} {w : MdnsWriter} {r : MdnsRecord}
    {data start stop : Nat} (hw : w.data = some data)
    (hfind : records.find? (fun r => r.type = .txt) = some r)
    (hstart : (mdnsAnswerAddRecordHeader w.buffer capacity data
      (mdnsRecordUpdateRclassTtl r rclass ttl) w.table).data = some start)
    (hfit : ∀ r ∈ records, ∀ pair ∈ r.txtPair, pair.1.length + pair.2.length < 255)
    (hok : (mdnsAnswerAddTxtRecord capacity w records rclass ttl).data = some stop) :
    let buffer := (mdnsAnswerAddTxtRecord capacity w records rclass ttl).buffer
    ∃ strings, List.Forall₂ ZeroEnded (records.filterMap MdnsRecord.txtPair) strings ∧
      stop = start + (strings.flatMap labelBytes).length ∧
      buffer.be16 (start - 2) = UInt16.ofNat (stop - start) ∧
      buffer.read start (stop - start) = strings.flatMap labelBytes ∧
      (∀ room, mdnsRecordParseTxt buffer stop start (stop - start) room =
        (strings.filterMap txtRecord).take room) ∧
      List.Forall₂ (fun pair s => PrintableKey pair.1 → txtRecord s = none)
        (records.filterMap MdnsRecord.txtPair) strings := by
  have hstart₂ := mdnsAnswerAddRecordHeader_start hstart
  have hok' := hok
  unfold mdnsAnswerAddTxtRecord at hok' ⊢
  rw [mdnsAnswerAddTxtRecordLoop_header hw hfind hstart] at hok' ⊢
  obtain ⟨stop',hdata⟩ : ∃ stop', (mdnsAnswerAddTxtRecordLoop capacity rclass ttl records (some start)
      (mdnsAnswerAddRecordHeader w.buffer capacity data (mdnsRecordUpdateRclassTtl r rclass ttl)
        w.table)).2.data = some stop' := by
    rw [← Option.isSome_iff_exists,Option.isSome_iff_ne_none]
    intro hnone
    simp only [hnone] at hok'
    split at hok'
    · contradiction
    · rw [hnone] at hok'
      contradiction
  obtain ⟨hout,-,strings,hstrings,hmax,hstop,hread⟩ :=
    mdnsAnswerAddTxtRecordLoop_strings hstart hfit hdata
  simp only [hout,hdata] at hok' ⊢
  obtain rfl := Option.some.inj hok'
  have hlen : stop' - start = (strings.flatMap labelBytes).length := by omega
  have hrdata {m : Mem} : (m.write (start - 2) (be16 (UInt16.ofNat (stop' - start)))).read start
      (stop' - start) = m.read start (stop' - start) :=
    Mem.read_write_above (by rw [length_be16]; omega)
  have hparse (m : Mem) (room : Nat) (hm : m.read start (stop' - start) = strings.flatMap labelBytes) :
      mdnsRecordParseTxt m stop' start (stop' - start) room =
        (strings.filterMap txtRecord).take room := by
    have hcounted : countedStrings (strings.flatMap labelBytes) = strings := by
      have h := countedStrings_strings hmax []
      rwa [List.append_nil,countedStrings,List.append_nil] at h
    have hmin : min stop' (start + (stop' - start)) = stop' := by omega
    rw [mdnsRecordParseTxt,hmin,mdnsRecordParseTxtLoop_eq m stop' (Nat.le_refl _),hm,hcounted]
  refine ⟨strings,hstrings,hstop,?_,?_,fun room => ?_,?_⟩
  · exact Mem.be16_of_read (Mem.read_write _ _ _)
  · rw [hrdata,hlen,hread]
  · exact hparse _ room (by rw [hrdata,hlen,hread])
  · exact hstrings.imp fun pair s hended hkey => hended.ignored hkey

end Writer

/-- A model is lost with its value; a key that holds a separator comes back with a zero byte. -/
theorem txt_read_back_model :
    let w : MdnsWriter := ⟨fun _ => 0,some 12,.empty⟩
    let records : List MdnsRecord := [{ emptyTxt with data := .txt (ascii "model") (ascii "x1") },
      { emptyTxt with data := .txt (ascii "v=2") [] }]
    let buffer := (mdnsAnswerAddTxtRecord 2048 w records mdnsClassIn 60).buffer
    ∃ strings, List.Forall₂ ZeroEnded [(ascii "model",ascii "x1"),(ascii "v=2",[])] strings ∧
      buffer.read 31 14 = strings.flatMap labelBytes ∧
      (strings.filterMap txtRecord).take 8 = [⟨ascii "v",some (ascii "2" ++ [0])⟩] := by
  intro w records buffer
  have hfind : records.find? (fun r => r.type = .txt) =
      some { emptyTxt with data := .txt (ascii "model") (ascii "x1") } := by decide
  have hok : (mdnsAnswerAddTxtRecord 2048 w records mdnsClassIn 60).data = some 45 := by decide
  obtain ⟨strings,hstrings,-,-,hread,hparse,-⟩ := txt_read_back rfl hfind
    (by decide : _ = some 31) (by decide) hok
  have hv : mdnsRecordParseTxt buffer 45 31 14 8 = [⟨ascii "v",some (ascii "2" ++ [0])⟩] := by decide
  exact ⟨strings,hstrings,hread,(hparse 8).symm.trans hv⟩

end WlrRemote
