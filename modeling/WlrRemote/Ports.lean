import WlrRemote.Setup
import Mathlib.Data.List.TakeWhile

set_option autoImplicit false

namespace WlrRemote
open Octets

def decimal (digits : Bytes) : Nat := digits.foldl (fun n b => 10 * n + (b.toNat - 48)) 0

/-- The text begins with this number: blanks, at most a plus, and digits up to the first byte
that is none. -/
structure Numeral (text : Bytes) (n : Nat) : Prop where
  parts : ∃ blanks sign digits rest : Bytes, text = blanks ++ (sign ++ (digits ++ rest)) ∧
    (∀ b ∈ blanks, isspace b = true) ∧ (sign = [] ∨ sign = [43]) ∧ digits ≠ [] ∧
    (∀ b ∈ digits, isdigit b = true) ∧ (∀ b ∈ rest.head?, isdigit b = false) ∧ decimal digits = n

theorem isdigit_iff {b : UInt8} : isdigit b = true ↔ 48 ≤ b.toNat ∧ b.toNat ≤ 57 := by
  simp [isdigit,UInt8.le_iff_toNat_le]

theorem isspace_iff {b : UInt8} : isspace b = true ↔ b.toNat = 32 ∨ 9 ≤ b.toNat ∧ b.toNat ≤ 13 := by
  simp [isspace,UInt8.le_iff_toNat_le,← UInt8.toNat_inj]

theorem isspace_of_isdigit {b : UInt8} (h : isdigit b = true) : isspace b = false := by
  rw [isdigit_iff] at h
  rw [Bool.eq_false_iff,ne_eq,isspace_iff]
  omega

theorem strtolDigits_append {digits rest : Bytes} (hdigits : ∀ b ∈ digits, isdigit b = true)
    (hrest : ∀ b ∈ rest.head?, isdigit b = false) (n : Nat) :
    strtolDigits n (digits ++ rest) = digits.foldl (fun n b => 10 * n + (b.toNat - 48)) n := by
  induction digits generalizing n with
  | nil =>
    cases rest with
    | nil => rfl
    | cons b rest => simp [strtolDigits,hrest b rfl]
  | cons b digits ih =>
    have hb := hdigits b List.mem_cons_self
    simp only [List.cons_append,strtolDigits,hb,↓reduceIte,List.foldl_cons]
    exact ih (fun c hc => hdigits c (List.mem_cons_of_mem b hc)) _

theorem strtolDigits_split (text : Bytes) : ∃ digits rest, text = digits ++ rest ∧
    (∀ b ∈ digits, isdigit b = true) ∧ (∀ b ∈ rest.head?, isdigit b = false) ∧
    strtolDigits 0 text = decimal digits := by
  have hsplit := List.takeWhile_append_dropWhile (p := isdigit) (l := text)
  have hdigits : ∀ b ∈ text.takeWhile isdigit, isdigit b = true :=
    fun b hb => List.mem_takeWhile_imp hb
  have hrest : ∀ b ∈ (text.dropWhile isdigit).head?, isdigit b = false := by
    intro b hb
    have hnot := List.head?_dropWhile_not isdigit text
    rw [Option.mem_def.mp hb] at hnot
    simpa using hnot
  refine ⟨_,_,hsplit.symm,hdigits,hrest,?_⟩
  conv_lhs => rw [← hsplit]
  exact strtolDigits_append hdigits hrest 0

theorem dropWhile_append_head {p : UInt8 → Bool} {front text : Bytes} (hfront : ∀ b ∈ front, p b = true)
    (htext : ∀ b ∈ text.head?, p b = false) : (front ++ text).dropWhile p = text := by
  induction front with
  | nil =>
    cases text with
    | nil => rfl
    | cons b text => simp [htext b rfl]
  | cons b front ih =>
    rw [List.cons_append,List.dropWhile_cons_of_pos (hfront b List.mem_cons_self)]
    exact ih fun c hc => hfront c (List.mem_cons_of_mem b hc)

theorem Numeral.strtol {text : Bytes} {n : Nat} (h : Numeral text n) :
    strtol text = min (n : Int) 0x7FFFFFFFFFFFFFFF := by
  obtain ⟨blanks,sign,digits,rest,rfl,hblanks,hsign,hne,hdigits,hrest,rfl⟩ := h.parts
  obtain ⟨b,ds,rfl⟩ := List.exists_cons_of_ne_nil hne
  have hb := isdigit_iff.mp (hdigits b List.mem_cons_self)
  have hvalue := strtolDigits_append hdigits hrest 0
  have hstart : ∀ c ∈ (sign ++ ((b :: ds) ++ rest)).head?, isspace c = false := by
    rcases hsign with rfl | rfl
    · simpa using isspace_of_isdigit (hdigits b List.mem_cons_self)
    · simp [isspace]
  have hpos : ∀ x : Nat, max (-0x8000000000000000 : Int) (min (x : Int) 0x7FFFFFFFFFFFFFFF) =
      min (x : Int) 0x7FFFFFFFFFFFFFFF := by
    intro x
    omega
  rw [WlrRemote.strtol,dropWhile_append_head hblanks hstart]
  rcases hsign with rfl | rfl
  · have h45 : b ≠ 45 := by
      rintro rfl
      exact absurd hb.1 (by decide)
    have h43 : b ≠ 43 := by
      rintro rfl
      exact absurd hb.1 (by decide)
    simp only [List.nil_append,List.cons_append] at hvalue ⊢
    split
    · rename_i heq
      exact absurd (List.cons.inj heq).1 h45
    · rename_i heq
      exact absurd (List.cons.inj heq).1 h43
    · rw [hvalue]
      exact hpos _
  · simp only [List.cons_append,List.nil_append] at hvalue ⊢
    rw [hvalue]
    exact hpos _

theorem numeral_of_strtol {text : Bytes} (h : 0 < WlrRemote.strtol text) :
    ∃ n, 0 < n ∧ Numeral text n := by
  have hsplit := List.takeWhile_append_dropWhile (p := isspace) (l := text)
  have hblanks : ∀ b ∈ text.takeWhile isspace, isspace b = true :=
    fun b hb => List.mem_takeWhile_imp hb
  -- the rest of the text, after the sign
  have hnumeral : ∀ sign after : Bytes, sign = [] ∨ sign = [43] →
      text.dropWhile isspace = sign ++ after → 0 < strtolDigits 0 after →
        ∃ n, 0 < n ∧ Numeral text n := by
    intro sign after hsign heq hpos
    obtain ⟨digits,rest,rfl,hdigits,hrest,hvalue⟩ := strtolDigits_split after
    rw [hvalue] at hpos
    refine ⟨decimal digits,hpos,⟨_,sign,digits,rest,?_,hblanks,hsign,?_,hdigits,hrest,rfl⟩⟩
    · rw [← heq,hsplit]
    · rintro rfl
      simp [decimal] at hpos
  unfold WlrRemote.strtol at h
  simp only at h
  generalize hdrop : text.dropWhile isspace = after at *
  split at h
  · omega
  · rename_i digits
    exact hnumeral [43] digits (Or.inr rfl) rfl (by omega)
  · exact hnumeral [] after (Or.inl rfl) rfl (by omega)

theorem setupParsePort_iff (program text : Bytes) (more : List Bytes) (port : UInt16) :
    setupParsePort (program :: text :: more) = port ↔
      0 < port.toNat ∧ Numeral text port.toNat ∨
        port = DEFAULT_PORT ∧ ¬ ∃ n, 0 < n ∧ n ≤ 65535 ∧ Numeral text n := by
  by_cases h : ∃ n, 0 < n ∧ n ≤ 65535 ∧ Numeral text n
  · obtain ⟨n,hpos,hle,hn⟩ := h
    have hvalue := hn.strtol
    have hinput : WlrRemote.strtol text = n := by omega
    have hparsed : setupParsePort (program :: text :: more) = UInt16.ofNat n := by
      have hrange : (0 : Int) < n ∧ (n : Int) ≤ 65535 := by omega
      simp only [setupParsePort,hinput,hrange,and_self,↓reduceIte,Int.toNat_natCast]
    have hto : (UInt16.ofNat n).toNat = n := by
      rw [UInt16.toNat_ofNat']
      omega
    rw [hparsed]
    constructor
    · rintro rfl
      rw [hto]
      exact Or.inl ⟨hpos,hn⟩
    · rintro (⟨-,hport⟩ | ⟨-,hnot⟩)
      · have hsame := hport.strtol
        have hlt := port.toNat_lt
        rw [← UInt16.toNat_inj,hto]
        omega
      · exact absurd ⟨n,hpos,hle,hn⟩ hnot
  · have hdefault : setupParsePort (program :: text :: more) = DEFAULT_PORT := by
      simp only [setupParsePort]
      split
      · rename_i hrange
        obtain ⟨n,hpos,hn⟩ := numeral_of_strtol hrange.1
        have hvalue := hn.strtol
        exact absurd ⟨n,hpos,by omega,hn⟩ h
      · rfl
    rw [hdefault]
    constructor
    · rintro rfl
      exact Or.inr ⟨rfl,h⟩
    · rintro (⟨hpos,hport⟩ | ⟨rfl,-⟩)
      · have hlt := port.toNat_lt
        exact absurd ⟨_,hpos,by omega,hport⟩ h
      · rfl

theorem isDigit_iff {c : Char} : c.isDigit = true ↔ 48 ≤ c.toNat ∧ c.toNat ≤ 57 := by
  simp [Char.isDigit,UInt32.le_iff_toNat_le]

theorem toNat_ofDigit {c : Char} (h : c.isDigit = true) : (UInt8.ofNat c.toNat).toNat = c.toNat := by
  rw [isDigit_iff] at h
  rw [UInt8.toNat_ofNat']
  omega

theorem decimal_ascii {digits : List Char} (h : ∀ c ∈ digits, c.isDigit = true) (n : Nat) :
    (digits.map fun c => UInt8.ofNat c.toNat).foldl (fun n b => 10 * n + (b.toNat - 48)) n =
      Nat.ofDigitChars 10 digits n := by
  induction digits generalizing n with
  | nil => rfl
  | cons c digits ih =>
    rw [List.map_cons,List.foldl_cons,toNat_ofDigit (h c List.mem_cons_self),
      ih (fun d hd => h d (List.mem_cons_of_mem c hd)),Nat.ofDigitChars_cons]
    rfl

theorem numeral_toString (n : Nat) : Numeral (ascii (toString n)) n := by
  have htext : (toString n).toList = Nat.toDigits 10 n := Nat.toList_repr
  have hall : ∀ c ∈ Nat.toDigits 10 n, c.isDigit = true :=
    fun c hc => Nat.isDigit_of_mem_toDigits (by decide) (by decide) hc
  refine ⟨[],[],ascii (toString n),[],by simp,by simp,Or.inl rfl,?_,?_,by simp,?_⟩
  · simp [ascii]
  · intro b hb
    rw [ascii,htext] at hb
    obtain ⟨c,hc,rfl⟩ := List.mem_map.mp hb
    rw [isdigit_iff,toNat_ofDigit (hall c hc)]
    exact isDigit_iff.mp (hall c hc)
  · rw [decimal,ascii,htext,decimal_ascii hall,Nat.ofDigitChars_ten_toDigits]

theorem setupParsePort_pos (argv : List Bytes) : 0 < (setupParsePort argv).toNat := by
  unfold setupParsePort
  split
  · decide
  · decide
  · simp only
    split
    · rw [UInt16.toNat_ofNat']
      omega
    · decide

/-- The port is the number that the argument begins with, where that is one from 1 to 65535, and
the default otherwise; the text that `getaddrinfo` is given for it is an argument that brings the
same port again. -/
theorem ports_round_trip (program text : Bytes) (argv more : List Bytes) :
    (∀ port, setupParsePort (program :: text :: more) = port ↔
      0 < port.toNat ∧ Numeral text port.toNat ∨
        port = DEFAULT_PORT ∧ ¬ ∃ n, 0 < n ∧ n ≤ 65535 ∧ Numeral text n) ∧
    setupParsePort (program :: ascii (toString (setupParsePort argv).toNat) :: more) =
      setupParsePort argv := by
  refine ⟨setupParsePort_iff program text more,?_⟩
  rw [setupParsePort_iff]
  exact Or.inl ⟨setupParsePort_pos argv,numeral_toString _⟩

end WlrRemote
