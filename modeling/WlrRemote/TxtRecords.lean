import WlrRemote.MdnsListen
import WlrRemote.NameLayout

set_option autoImplicit false

namespace WlrRemote
open Octets

def MdnsRecord.txtKey (r : MdnsRecord) : Bytes :=
  match r.data with
  | .txt key _ => key
  | _ => []

def MdnsRecord.KeyOnly (r : MdnsRecord) : Prop :=
  r.data = .txt r.txtKey [] ∧ r.txtKey.length ≤ 255

def PrintableKey (key : Bytes) : Prop := ∀ b ∈ key, 0x20 ≤ b ∧ b ≤ 0x7E ∧ b ≠ 61

def txtStart (capacity : Nat) (w : MdnsWriter) (records : List MdnsRecord) (rclass : UInt16)
    (ttl : UInt32) : Option Nat :=
  match w.data, records with
  | some data, record :: _ =>
    (mdnsAnswerAddRecordHeader w.buffer capacity data (mdnsRecordUpdateRclassTtl record rclass ttl)
      w.table).data
  | data, _ => data

/-- From `start` to `stop` the buffer holds the strings of the keys, and they can be read back. -/
structure TxtInStep (buffer : Mem) (start stop : Nat) (keys : List Bytes) : Prop where
  rdata : buffer.read start (stop - start) = keys.flatMap labelBytes
  rdlength : keys ≠ [] → (buffer.be16 (start - 2)).toNat = stop - start
  parsed : (∀ key ∈ keys, PrintableKey key) → ∀ capacity, keys.length ≤ capacity →
    mdnsRecordParseTxt buffer stop start (stop - start) capacity =
      (keys.filter (· ≠ [])).map fun key => ⟨key,none⟩
  noData : keys = [[]] → buffer.read start (stop - start) = [0]

def txtBytes (key : Bytes) : Bytes := UInt8.ofNat (key.length + 1) :: key ++ [0]

@[simp] theorem length_txtBytes (key : Bytes) : (txtBytes key).length = key.length + 2 := by
  simp [txtBytes]

theorem length_flatMap_txtBytes (keys : List Bytes) :
    (keys.flatMap txtBytes).length = (keys.flatMap labelBytes).length + keys.length := by
  induction keys with
  | nil => rfl
  | cons key keys ih =>
    simp only [List.flatMap_cons,List.length_append,length_txtBytes,length_labelBytes,ih,
      List.length_cons]
    omega

theorem mdnsAnswerAddTxtRecordLoop_writes {capacity : Nat} {rclass : UInt16} {ttl : UInt32}
    {records : List MdnsRecord} {w : MdnsWriter} {data start : Nat} (hw : w.data = some data)
    (hkeys : ∀ r ∈ records, r.KeyOnly)
    (hok : (mdnsAnswerAddTxtRecordLoop capacity rclass ttl records (some start) w).2.data ≠ none) :
    let out := mdnsAnswerAddTxtRecordLoop capacity rclass ttl records (some start) w
    let bytes := (records.map MdnsRecord.txtKey).flatMap txtBytes
    out.1 = some start ∧ out.2.data = some (data + bytes.length) ∧
      AgreeBelow data w.buffer out.2.buffer ∧ out.2.buffer.read data bytes.length = bytes := by
  induction records generalizing w data with
  | nil => exact ⟨rfl,hw,.refl data w.buffer,rfl⟩
  | cons r records ih =>
    have hr := (hkeys r List.mem_cons_self).1
    unfold mdnsAnswerAddTxtRecordLoop at hok ⊢
    simp only [hw,hr,Option.isNone_some,Bool.false_eq_true,↓reduceIte,Option.getD_some,
      List.length_nil,Nat.add_zero] at hok ⊢
    split at hok
    · contradiction
    · rename_i hroom
      rw [if_neg hroom]
      have hbytes : UInt8.ofNat (r.txtKey.length + 1) :: r.txtKey ++ [0] = txtBytes r.txtKey := rfl
      have hlength : r.txtKey.length + 2 = (txtBytes r.txtKey).length := by simp
      rw [hbytes,hlength] at hok ⊢
      obtain ⟨hout,hdata,hagree,hread⟩ := ih rfl (fun r' hr' => hkeys r' (List.mem_cons_of_mem r hr'))
        hok
      refine ⟨hout,?_,(agreeBelow_write (Nat.le_refl data)).trans (hagree.mono (by omega)),?_⟩
      · rw [hdata,List.map_cons,List.flatMap_cons,List.length_append,Nat.add_assoc]
      · rw [List.map_cons,List.flatMap_cons,List.length_append,Mem.read_add,hread,
          ← hagree.read (Nat.le_refl _),w.buffer.read_write]

theorem mdnsAnswerAddTxtRecordLoop_start {capacity : Nat} {rclass : UInt16} {ttl : UInt32}
    {r : MdnsRecord} {records : List MdnsRecord} {w : MdnsWriter} {data start : Nat}
    (hw : w.data = some data) (hr : r.KeyOnly)
    (hstart : (mdnsAnswerAddRecordHeader w.buffer capacity data
      (mdnsRecordUpdateRclassTtl r rclass ttl) w.table).data = some start) :
    mdnsAnswerAddTxtRecordLoop capacity rclass ttl (r :: records) none w =
      mdnsAnswerAddTxtRecordLoop capacity rclass ttl (r :: records) (some start)
        (mdnsAnswerAddRecordHeader w.buffer capacity data (mdnsRecordUpdateRclassTtl r rclass ttl)
          w.table) := by
  unfold mdnsAnswerAddTxtRecordLoop
  simp only [hw,hr.1,hstart,Option.isNone_none,Option.isNone_some,Bool.false_eq_true,↓reduceIte,
    Option.getD_none,Option.getD_some]

theorem mdnsAnswerAddRecordHeader_start {buffer : Mem} {capacity data start : Nat}
    {record : MdnsRecord} {table : MdnsStringTable}
    (h : (mdnsAnswerAddRecordHeader buffer capacity data record table).data = some start) :
    2 ≤ start := by
  unfold mdnsAnswerAddRecordHeader at h
  simp only at h
  split at h
  · rename_i hnone
    rw [hnone] at h
    contradiction
  · split at h
    · contradiction
    · have := Option.some.inj h
      omega

/-- What is there once the record has been added: for each key a string that counts and
holds one byte more, a zero. -/
theorem mdnsAnswerAddTxtRecord_writes {capacity : Nat} {rclass : UInt16} {ttl : UInt32}
    {records : List MdnsRecord} {w : MdnsWriter} {start stop : Nat}
    (hkeys : ∀ r ∈ records, r.KeyOnly)
    (hstart : txtStart capacity w records rclass ttl = some start)
    (hok : (mdnsAnswerAddTxtRecord capacity w records rclass ttl).data = some stop) :
    let buffer := (mdnsAnswerAddTxtRecord capacity w records rclass ttl).buffer
    let bytes := (records.map MdnsRecord.txtKey).flatMap txtBytes
    stop = start + bytes.length ∧ buffer.read start bytes.length = bytes ∧
      (records ≠ [] → buffer.be16 (start - 2) = UInt16.ofNat bytes.length) := by
  cases records with
  | nil =>
    have hdata : w.data = some start := by
      simpa [txtStart] using hstart
    have hsame : (mdnsAnswerAddTxtRecord capacity w [] rclass ttl).data = w.data := rfl
    rw [hsame,hdata] at hok
    exact ⟨(Option.some.inj hok).symm,rfl,fun h => absurd rfl h⟩
  | cons r records =>
    cases hw : w.data with
    | none => simp [txtStart,hw] at hstart
    | some data =>
      simp only [txtStart,hw] at hstart
      have hstart₂ := mdnsAnswerAddRecordHeader_start hstart
      unfold mdnsAnswerAddTxtRecord at hok ⊢
      rw [mdnsAnswerAddTxtRecordLoop_start hw (hkeys r List.mem_cons_self) hstart] at hok ⊢
      have hloop : (mdnsAnswerAddTxtRecordLoop capacity rclass ttl (r :: records) (some start)
          (mdnsAnswerAddRecordHeader w.buffer capacity data
            (mdnsRecordUpdateRclassTtl r rclass ttl) w.table)).2.data ≠ none := by
        intro hnone
        simp only [hnone] at hok
        split at hok
        · contradiction
        · rw [hnone] at hok
          contradiction
      obtain ⟨hout,hdata,-,hread⟩ := mdnsAnswerAddTxtRecordLoop_writes hstart hkeys hloop
      simp only [hout,hdata,Nat.add_sub_cancel_left] at hok ⊢
      refine ⟨(Option.some.inj hok).symm,?_,fun _ => ?_⟩
      · rw [Mem.read_write_above (by rw [length_be16]; omega),hread]
      · exact Mem.be16_of_read (Mem.read_write _ _ _)

theorem not_txtInStep_of_writes {buffer : Mem} {start : Nat} {keys : List Bytes} (hne : keys ≠ []) :
    ¬ TxtInStep buffer start (start + (keys.flatMap txtBytes).length) keys := by
  intro h
  have hlength := congrArg List.length h.rdata
  rw [Mem.length_read,Nat.add_sub_cancel_left,length_flatMap_txtBytes] at hlength
  have hpos := List.length_pos_iff.mpr hne
  omega

theorem txtInStep_nil (buffer : Mem) (start : Nat) : TxtInStep buffer start start [] where
  rdata := by simp
  rdlength := fun h => absurd rfl h
  parsed := by
    intro _ capacity _
    simp [mdnsRecordParseTxt,mdnsRecordParseTxtLoop]
  noData := by simp

/-- The writer is in step with the reader exactly if there is no key to write. -/
theorem txt_in_step_iff (capacity : Nat) (rclass : UInt16) (ttl : UInt32)
    (records : List MdnsRecord) (w : MdnsWriter) (start stop : Nat)
    (hkeys : ∀ r ∈ records, r.KeyOnly)
    (hstart : txtStart capacity w records rclass ttl = some start)
    (hok : (mdnsAnswerAddTxtRecord capacity w records rclass ttl).data = some stop) :
    TxtInStep (mdnsAnswerAddTxtRecord capacity w records rclass ttl).buffer start stop
      (records.map MdnsRecord.txtKey) ↔ records = [] := by
  obtain ⟨hstop,-⟩ := mdnsAnswerAddTxtRecord_writes hkeys hstart hok
  constructor
  · intro h
    by_contra hne
    rw [hstop] at h
    exact not_txtInStep_of_writes (by simpa using hne) h
  · rintro rfl
    rw [hstop]
    exact txtInStep_nil _ _

def emptyTxt : MdnsRecord := ⟨ascii "a.local.",.txt [] [],mdnsClassIn,120⟩

theorem empty_txt_not_in_step :
    let w : MdnsWriter := ⟨fun _ => 0,some 12,.empty⟩
    let out := mdnsAnswerAddTxtRecord 2048 w [emptyTxt] mdnsClassIn 60
    txtStart 2048 w [emptyTxt] mdnsClassIn 60 = some 31 ∧ out.data = some 33 ∧
      out.buffer.read 31 2 = [1,0] ∧ ¬ TxtInStep out.buffer 31 33 [[]] := by
  intro w out
  refine ⟨by decide,by decide,by decide,?_⟩
  intro h
  exact absurd (h.noData rfl) (by decide)

/-- Also a key that could be read back is lost. -/
theorem txt_in_step_iff_model :
    let w : MdnsWriter := ⟨fun _ => 0,some 12,.empty⟩
    let records : List MdnsRecord := [{ emptyTxt with data := .txt (ascii "model") [] }]
    TxtInStep (mdnsAnswerAddTxtRecord 2048 w records mdnsClassIn 60).buffer 31 38
      (records.map MdnsRecord.txtKey) ↔ records = [] := by
  intro w records
  exact txt_in_step_iff 2048 mdnsClassIn 60 records w 31 38 (by unfold MdnsRecord.KeyOnly; decide)
    (by decide) (by decide)

end WlrRemote
