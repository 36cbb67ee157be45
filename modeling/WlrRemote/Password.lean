import WlrRemote.TestClient
import Mathlib.Data.List.TakeWhile

set_option autoImplicit false

namespace WlrRemote
open Octets

def firstLine (stdin : Bytes) : Bytes := stdin.takeWhile fun b => b ≠ newline

/-- The part of a line that both sides keep: it ends at a zero byte, and where the
buffer is full. -/
def kept (maxLen : Nat) (line : Bytes) : Bytes := (line.take (maxLen + 1)).takeWhile fun b => b ≠ 0

theorem strcspn_fgetsLoop (n : Nat) (stdin : Bytes) :
    (fgetsLoop n stdin).takeWhile (fun b => b ≠ 0 ∧ b ≠ newline) =
      ((firstLine stdin).take n).takeWhile fun b => b ≠ 0 := by
  induction stdin generalizing n with
  | nil => cases n <;> simp [fgetsLoop,firstLine]
  | cons b bs ih =>
    cases n with
    | zero => simp [fgetsLoop]
    | succ n =>
      by_cases hb : b = newline
      · simp [fgetsLoop,firstLine,hb]
      · have hi := ih n
        simp only [firstLine] at hi
        by_cases h0 : b = 0 <;> simp_all [fgetsLoop,firstLine]

theorem fgets_eq (maxLen : Nat) (stdin : Bytes) :
    fgets (maxLen + 2) stdin = if stdin = [] then none else some (fgetsLoop (maxLen + 1) stdin) := by
  cases stdin with
  | nil => simp [fgets,fgetsLoop]
  | cons b bs =>
    have hne : fgetsLoop (maxLen + 1) (b :: bs) ≠ [] := by
      unfold fgetsLoop
      split <;> simp
    simp [fgets,hne]

theorem strcspn_stored (maxLen : Nat) (stdin : Bytes) :
    strcspn (fgetsLoop (maxLen + 1) stdin) newline = (kept maxLen (firstLine stdin)).length := by
  rw [strcspn,strcspn_fgetsLoop,kept]

theorem take_stored (maxLen : Nat) (stdin : Bytes) :
    ((fgetsLoop (maxLen + 1) stdin ++ [0]).set (kept maxLen (firstLine stdin)).length 0).take
      (kept maxLen (firstLine stdin)).length = kept maxLen (firstLine stdin) := by
  have hp : kept maxLen (firstLine stdin) <+: fgetsLoop (maxLen + 1) stdin := by
    rw [kept,← strcspn_fgetsLoop]
    exact List.takeWhile_prefix _
  obtain ⟨t,ht⟩ := hp
  rw [List.take_set_of_le (Nat.le_refl _),← ht,List.append_assoc,List.take_left]

theorem length_kept_pos {maxLen : Nat} {line : Bytes} :
    0 < (kept maxLen line).length ↔ line ≠ [] ∧ line.head? ≠ some 0 := by
  cases line with
  | nil => simp [kept]
  | cons b bs => by_cases hb : b = 0 <;> simp [kept,hb]

theorem length_kept_le {maxLen : Nat} {line : Bytes} :
    (kept maxLen line).length ≤ maxLen ↔ line.length ≤ maxLen ∨ 0 ∈ line.take (maxLen + 1) := by
  have hle : (kept maxLen line).length ≤ (line.take (maxLen + 1)).length :=
    (List.takeWhile_prefix _).length_le
  have hlen : (line.take (maxLen + 1)).length = min (maxLen + 1) line.length := List.length_take
  by_cases h0 : (0 : UInt8) ∈ line.take (maxLen + 1)
  · have hne : (kept maxLen line).length ≠ (line.take (maxLen + 1)).length := by
      intro he
      have hall := (List.takeWhile_prefix fun b : UInt8 => b ≠ 0).eq_of_length he
      have hmem := List.mem_takeWhile_imp (hall ▸ h0)
      simp at hmem
    simp only [h0,or_true,iff_true]
    omega
  · have hall : kept maxLen line = line.take (maxLen + 1) := by
      rw [kept,List.takeWhile_eq_self_iff]
      intro b hb
      simp only [ne_eq,decide_not,Bool.not_eq_true',decide_eq_false_iff_not]
      rintro rfl
      exact h0 hb
    rw [hall,hlen]
    simp only [h0,or_false]
    omega

section Keys

variable (dtls : Tinydtls)

theorem setupPassword_eq (stdin : Bytes) : setupPassword dtls stdin =
    let key := kept dtls.pskMaxKeyLen (firstLine stdin)
    if stdin = [] then .error .failedToRead
    else if key.length = dtls.pskMaxKeyLen + 1 then .error .passwordTooLong
    else if key.length = 0 then .error .passwordEmpty
    else .ok ((fgetsLoop (dtls.pskMaxKeyLen + 1) stdin ++ [0]).set key.length 0,key.length) := by
  rw [setupPassword,pskBufferSize,fgets_eq]
  by_cases h : stdin = []
  · simp [h]
  · simp [h,strcspn_stored]

def serverKey (state : ClientState) (id stdin : Bytes) : Option Bytes :=
  match setupPassword dtls stdin with
  | .error _ => none
  | .ok (key,len) =>
    let (res,result) := netGetPskInfo dtls { state with pskKey := key, pskKeyLen := len } .pskKey id
      dtls.pskMaxKeyLen
    if res < 0 then none else some result

def clientAnswer (type : DtlsCredentialsType) (resultLength : Nat) (stdin : Bytes) : Option Bytes :=
  match testClientPassword dtls stdin with
  | none => none
  | some (key,len) =>
    let (res,result) := testClientGetPskInfo dtls key len type resultLength
    if res < 0 then none else some result

def KeysAgree (state : ClientState) (idLength : Nat) (server client : Bytes) : Prop :=
  ∃ id key, clientAnswer dtls .pskIdentity idLength client = some id ∧
    serverKey dtls state id server = some key ∧
    clientAnswer dtls .pskKey dtls.pskMaxKeyLen client = some key

theorem setupPassword_isOk (stdin : Bytes) : (setupPassword dtls stdin).isOk = true ↔
    0 < (kept dtls.pskMaxKeyLen (firstLine stdin)).length ∧
      (kept dtls.pskMaxKeyLen (firstLine stdin)).length ≤ dtls.pskMaxKeyLen := by
  have hle : (kept dtls.pskMaxKeyLen (firstLine stdin)).length ≤ dtls.pskMaxKeyLen + 1 := by
    have hp := (List.takeWhile_prefix (l := (firstLine stdin).take (dtls.pskMaxKeyLen + 1))
      fun b : UInt8 => b ≠ 0).length_le
    rw [List.length_take] at hp
    unfold kept
    omega
  rw [setupPassword_eq]
  by_cases h : stdin = []
  · simp [h,firstLine,kept,Except.isOk,Except.toBool]
  · simp only [h,↓reduceIte]
    split
    · simp only [Except.isOk,Except.toBool,Bool.false_eq_true,false_iff]
      omega
    · split
      · simp only [Except.isOk,Except.toBool,Bool.false_eq_true,false_iff]
        omega
      · simp only [Except.isOk,Except.toBool,true_iff]
        omega

theorem serverKey_eq (state : ClientState) (stdin : Bytes)
    (h : (setupPassword dtls stdin).isOk = true) :
    serverKey dtls state PSK_ID stdin = some (kept dtls.pskMaxKeyLen (firstLine stdin)) := by
  have hlen := (setupPassword_isOk dtls stdin).mp h
  have hne : stdin ≠ [] := by
    rintro rfl
    simp [firstLine,kept] at hlen
  have h₁ : ¬ (kept dtls.pskMaxKeyLen (firstLine stdin)).length = dtls.pskMaxKeyLen + 1 := by omega
  have h₂ : ¬ (kept dtls.pskMaxKeyLen (firstLine stdin)).length = 0 := by omega
  have h₃ : ¬ dtls.pskMaxKeyLen < (kept dtls.pskMaxKeyLen (firstLine stdin)).length := by omega
  have h₄ : ¬ ((kept dtls.pskMaxKeyLen (firstLine stdin)).length : Int) < 0 := by omega
  simp only [serverKey,setupPassword_eq,hne,h₁,h₂,↓reduceIte,netGetPskInfo,ne_eq,not_true_eq_false,
    and_self,h₃,h₄,take_stored]

theorem clientAnswer_key (halert : dtls.alertFatalCreate dtls.alertInternalError < 0)
    (stdin : Bytes) : clientAnswer dtls .pskKey dtls.pskMaxKeyLen stdin =
      if stdin = [] ∨ dtls.pskMaxKeyLen < (kept dtls.pskMaxKeyLen (firstLine stdin)).length then none
      else some (kept dtls.pskMaxKeyLen (firstLine stdin)) := by
  rw [clientAnswer,testClientPassword,pskBufferSize,fgets_eq]
  by_cases h : stdin = []
  · simp [h]
  · by_cases hl : dtls.pskMaxKeyLen < (kept dtls.pskMaxKeyLen (firstLine stdin)).length
    · simp [h,hl,testClientGetPskInfo,strcspn_stored,halert]
    · have h₄ : ¬ ((kept dtls.pskMaxKeyLen (firstLine stdin)).length : Int) < 0 := by omega
      simp [h,hl,testClientGetPskInfo,strcspn_stored,h₄,take_stored]

theorem clientAnswer_identity {idLength : Nat} (hid : PSK_ID.length ≤ idLength) (stdin : Bytes) :
    clientAnswer dtls .pskIdentity idLength stdin = if stdin = [] then none else some PSK_ID := by
  have hlt : ¬ idLength < PSK_ID.length := by omega
  have hneg : ¬ (PSK_ID.length : Int) < 0 := by omega
  rw [clientAnswer,testClientPassword,pskBufferSize,fgets_eq]
  by_cases h : stdin = []
  · simp [h]
  · simp [h,testClientGetPskInfo,hlt,hneg]

theorem keysAgree_iff (halert : dtls.alertFatalCreate dtls.alertInternalError < 0)
    {idLength : Nat} (hid : PSK_ID.length ≤ idLength) (state : ClientState) (server client : Bytes)
    (h : (setupPassword dtls server).isOk = true) :
    KeysAgree dtls state idLength server client ↔
      kept dtls.pskMaxKeyLen (firstLine server) = kept dtls.pskMaxKeyLen (firstLine client) := by
  have hlen := (setupPassword_isOk dtls server).mp h
  unfold KeysAgree
  rw [clientAnswer_key dtls halert,clientAnswer_identity dtls hid]
  constructor
  · rintro ⟨id,key,hi,hs,hc⟩
    by_cases hne : client = []
    · simp [hne] at hi
    · obtain rfl : PSK_ID = id := by simpa [hne] using hi
      rw [serverKey_eq dtls state server h] at hs
      split at hc
      · contradiction
      · exact (Option.some.inj hs).trans (Option.some.inj hc).symm
  · intro he
    have hne : client ≠ [] := by
      rintro rfl
      rw [he] at hlen
      simp [firstLine,kept] at hlen
    refine ⟨PSK_ID,_,by simp [hne],serverKey_eq dtls state server h,?_⟩
    rw [he] at hlen ⊢
    simp only [hne,false_or]
    rw [if_neg (by omega)]

structure SamePassword (state : ClientState) (idLength : Nat) (server client : Bytes) : Prop where
  starts : (setupPassword dtls server).isOk = true ↔
    1 ≤ (firstLine server).length ∧ (firstLine server).length ≤ dtls.pskMaxKeyLen
  agree : (setupPassword dtls server).isOk = true →
    (KeysAgree dtls state idLength server client ↔ firstLine server = firstLine client)

/-- A line of allowed length that starts with a zero byte, or a longer one with a zero
byte in the part that is read, though not in front. -/
def Misjudged (maxLen : Nat) (line : Bytes) : Prop :=
  (line.length ≤ maxLen ∧ line.head? = some 0) ∨
    (maxLen < line.length ∧ line.head? ≠ some 0 ∧ 0 ∈ line.take (maxLen + 1))

theorem starts_iff (server : Bytes) :
    ((setupPassword dtls server).isOk = true ↔
      1 ≤ (firstLine server).length ∧ (firstLine server).length ≤ dtls.pskMaxKeyLen) ↔
      ¬ Misjudged dtls.pskMaxKeyLen (firstLine server) := by
  rw [setupPassword_isOk,length_kept_pos,length_kept_le,Misjudged]
  cases hl : firstLine server with
  | nil => simp
  | cons b line =>
    have hpos : 1 ≤ (b :: line).length := by simp
    have hlt := Nat.not_le (a := (b :: line).length) (b := dtls.pskMaxKeyLen)
    grind

/-- Both sides make the same key of the same password exactly if the server's line is not
misjudged and differs from the client's, if at all, in the part that is kept. -/
theorem samePassword_iff (halert : dtls.alertFatalCreate dtls.alertInternalError < 0)
    {idLength : Nat} (hid : PSK_ID.length ≤ idLength) (state : ClientState)
    (server client : Bytes) :
    SamePassword dtls state idLength server client ↔
      ¬ Misjudged dtls.pskMaxKeyLen (firstLine server) ∧
        (1 ≤ (firstLine server).length → (firstLine server).length ≤ dtls.pskMaxKeyLen →
          firstLine server ≠ firstLine client →
          kept dtls.pskMaxKeyLen (firstLine server) ≠ kept dtls.pskMaxKeyLen (firstLine client)) := by
  have hagree := keysAgree_iff dtls halert hid state server client
  constructor
  · intro h
    refine ⟨(starts_iff dtls server).mp h.starts,?_⟩
    intro hpos hmax hne he
    have hok := h.starts.mpr ⟨hpos,hmax⟩
    exact hne ((h.agree hok).mp ((hagree hok).mpr he))
  · rintro ⟨hm,hd⟩
    have hstarts := (starts_iff dtls server).mpr hm
    refine ⟨hstarts,?_⟩
    intro hok
    rw [hagree hok]
    obtain ⟨hpos,hmax⟩ := hstarts.mp hok
    constructor
    · intro he
      by_contra hne
      exact hd hpos hmax hne he
    · intro he
      rw [he]

end Keys

theorem samePassword_secret :
    SamePassword .sample ⟨[],⟨-1,-1⟩,[],0,[]⟩ 32 (ascii "secret\n") (ascii "secret") ↔
      ¬ Misjudged 16 (firstLine (ascii "secret\n")) ∧
        (1 ≤ (firstLine (ascii "secret\n")).length → (firstLine (ascii "secret\n")).length ≤ 16 →
          firstLine (ascii "secret\n") ≠ firstLine (ascii "secret") →
          kept 16 (firstLine (ascii "secret\n")) ≠ kept 16 (firstLine (ascii "secret"))) :=
  samePassword_iff .sample (by decide) (by decide) _ _ _

theorem zero_byte_ends_password :
    ¬ SamePassword .sample ⟨[],⟨-1,-1⟩,[],0,[]⟩ 32 [115,0,49,10] [115,0,50,10] := by
  intro h
  have hok : (setupPassword .sample [115,0,49,10]).isOk = true := by decide
  have hk : KeysAgree .sample ⟨[],⟨-1,-1⟩,[],0,[]⟩ 32 [115,0,49,10] [115,0,50,10] :=
    ⟨PSK_ID,[115],by decide,by decide,by decide⟩
  exact absurd ((h.agree hok).mp hk) (by decide)

end WlrRemote
