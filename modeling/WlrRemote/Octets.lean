import Mathlib.Algebra.GroupWithZero.Nat
import Mathlib.Data.List.Basic
import Mathlib.Data.List.Infix

/-!
Octets in memory: a byte-addressed memory, reads and writes of byte strings,
and multi-byte integers in both byte orders.
-/

set_option autoImplicit false

namespace Octets

abbrev Bytes := List UInt8

/-- A memory gives a byte at every address. The owner of a buffer decides which
addresses belong to it; the bytes of the others are arbitrary. -/
abbrev Mem := Nat → UInt8

def Mem.read (m : Mem) (a n : Nat) : Bytes := (List.range n).map fun i => m (a + i)

def Mem.write (m : Mem) (a : Nat) (bs : Bytes) : Mem :=
  fun i => if i < a then m i else (bs[i - a]?).getD (m i)

@[simp] theorem Mem.length_read (m : Mem) (a n : Nat) : (m.read a n).length = n := by
  simp [read]

@[simp] theorem Mem.read_zero (m : Mem) (a : Nat) : m.read a 0 = [] := rfl

theorem Mem.getElem?_read (m : Mem) (a n i : Nat) (h : i < n) :
    (m.read a n)[i]? = some (m (a + i)) := by
  simp [read, h]

theorem Mem.read_succ (m : Mem) (a n : Nat) : m.read a (n + 1) = m a :: m.read (a + 1) n := by
  simp only [read, List.range_succ_eq_map, List.map_cons, List.map_map, Nat.add_zero]
  congr 1
  apply List.map_congr_left
  intro i _
  simp only [Function.comp_apply, Nat.succ_eq_add_one]
  congr 1
  omega

theorem Mem.read_add (m : Mem) (a n k : Nat) :
    m.read a (n + k) = m.read a n ++ m.read (a + n) k := by
  simp only [read, List.range_add, List.map_append, List.map_map]
  congr 1
  apply List.map_congr_left
  intro i _
  simp only [Function.comp_apply, Nat.add_assoc]

theorem Mem.take_read (m : Mem) (a : Nat) {n k : Nat} (h : k ≤ n) :
    (m.read a n).take k = m.read a k := by
  obtain ⟨rest,rfl⟩ := Nat.exists_eq_add_of_le h
  rw [m.read_add a k rest,List.take_left' (m.length_read a k)]

theorem Mem.read_congr {m m' : Mem} {a n : Nat} (h : ∀ i, a ≤ i → i < a + n → m i = m' i) :
    m.read a n = m'.read a n := by
  apply List.map_congr_left
  intro i hi
  have hlt := List.mem_range.mp hi
  exact h (a + i) (by omega) (by omega)

theorem Mem.eq_of_read {m m' : Mem} {a n i : Nat} (h : m.read a n = m'.read a n) (ha : a ≤ i)
    (hi : i < a + n) : m i = m' i := by
  obtain ⟨k,rfl⟩ := Nat.exists_eq_add_of_le ha
  have hbyte : (m.read a n)[k]? = (m'.read a n)[k]? := by rw [h]
  rw [getElem?_read _ _ _ _ (by omega),getElem?_read _ _ _ _ (by omega)] at hbyte
  exact Option.some.inj hbyte

theorem Mem.write_below {m : Mem} {a i : Nat} {bs : Bytes} (h : i < a) : m.write a bs i = m i := by
  simp [write, h]

theorem Mem.write_above {m : Mem} {a i : Nat} {bs : Bytes} (h : a + bs.length ≤ i) :
    m.write a bs i = m i := by
  have hlt : ¬ i < a := by omega
  simp only [write, hlt, ↓reduceIte]
  rw [List.getElem?_eq_none (by omega)]
  rfl

theorem Mem.write_at {m : Mem} {a k : Nat} {bs : Bytes} (h : k < bs.length) :
    m.write a bs (a + k) = bs[k] := by
  have hlt : ¬ a + k < a := by omega
  simp only [write, hlt, ↓reduceIte, Nat.add_sub_cancel_left]
  rw [List.getElem?_eq_getElem h]
  rfl

theorem Mem.write_inside {m m' : Mem} {a i : Nat} {bs : Bytes} (ha : a ≤ i)
    (h : i < a + bs.length) : m.write a bs i = m'.write a bs i := by
  obtain ⟨k, rfl⟩ := Nat.exists_eq_add_of_le ha
  rw [write_at (by omega), write_at (by omega)]

@[simp] theorem Mem.write_nil (m : Mem) (a : Nat) : m.write a [] = m := by
  funext i
  by_cases h : i < a
  · exact write_below h
  · exact write_above (by simp only [List.length_nil]; omega)

theorem Mem.write_append (m : Mem) (a : Nat) (bs cs : Bytes) :
    m.write a (bs ++ cs) = (m.write a bs).write (a + bs.length) cs := by
  funext i
  by_cases h₁ : i < a
  · rw [write_below h₁, write_below (by omega), write_below h₁]
  · by_cases h₂ : i < a + bs.length
    · rw [write_below h₂]
      simp only [write, h₁, ↓reduceIte]
      rw [List.getElem?_append_left (by omega)]
    · have hi : i - (a + bs.length) = i - a - bs.length := by omega
      simp only [write, h₁, h₂, ↓reduceIte]
      rw [List.getElem?_append_right (by omega), hi, List.getElem?_eq_none (l := bs) (by omega)]
      rfl

@[simp] theorem Mem.read_write (m : Mem) (a : Nat) (bs : Bytes) :
    (m.write a bs).read a bs.length = bs := by
  apply List.ext_getElem?
  intro i
  by_cases h : i < bs.length
  · rw [getElem?_read _ _ _ _ h, write_at h, List.getElem?_eq_getElem h]
  · rw [List.getElem?_eq_none (by rw [length_read]; omega), List.getElem?_eq_none (by omega)]

theorem Mem.read_write_part {m : Mem} {a k n : Nat} {bs : Bytes} (h : k + n ≤ bs.length) :
    (m.write a bs).read (a + k) n = (bs.drop k).take n := by
  apply List.ext_getElem?
  intro i
  by_cases hi : i < n
  · have hk : k + i < bs.length := by omega
    rw [getElem?_read _ _ _ _ hi,Nat.add_assoc,write_at hk,List.getElem?_take_of_lt hi,
      List.getElem?_drop,List.getElem?_eq_getElem hk]
  · rw [List.getElem?_eq_none (by rw [length_read]; omega),
      List.getElem?_eq_none (by rw [List.length_take]; omega)]

theorem Mem.read_write_below {m : Mem} {a b n : Nat} {bs : Bytes} (h : a + n ≤ b) :
    (m.write b bs).read a n = m.read a n :=
  read_congr fun _ _ hi => write_below (by omega)

theorem Mem.read_write_above {m : Mem} {a b n : Nat} {bs : Bytes} (h : b + bs.length ≤ a) :
    (m.write b bs).read a n = m.read a n :=
  read_congr fun _ _ _ => write_above (by omega)

theorem Mem.drop_prefix_read_write (m : Mem) {bs : Bytes} {k n : Nat} (h : bs.length ≤ k + n) :
    bs.drop k <+: (m.write 0 bs).read k n := by
  by_cases hk : k ≤ bs.length
  · obtain ⟨rest,rfl⟩ : ∃ rest, n = bs.length - k + rest := ⟨n - (bs.length - k),by omega⟩
    have hpart : (m.write 0 bs).read (0 + k) (bs.length - k) = (bs.drop k).take (bs.length - k) :=
      Mem.read_write_part (by omega)
    rw [Nat.zero_add,List.take_of_length_le (by rw [List.length_drop])] at hpart
    rw [Mem.read_add,hpart]
    exact List.prefix_append _ _
  · rw [List.drop_of_length_le (by omega)]
    exact List.nil_prefix

theorem Mem.read_write_prefix (m : Mem) {bs cs : Bytes} {k : Nat} (h : bs.drop k <+: cs) :
    ((m.write k cs).write 0 bs).read k cs.length = cs := by
  by_cases hk : k ≤ bs.length
  · obtain ⟨rest,rfl⟩ := h
    have hpart : ((m.write k (bs.drop k ++ rest)).write 0 bs).read (0 + k) (bs.drop k).length =
        (bs.drop k).take (bs.drop k).length :=
      Mem.read_write_part (by rw [List.length_drop]; omega)
    rw [Nat.zero_add,List.take_length] at hpart
    have hrest : (m.write k (bs.drop k ++ rest)).read (k + (bs.drop k).length) rest.length =
        ((bs.drop k ++ rest).drop (bs.drop k).length).take rest.length :=
      Mem.read_write_part (by rw [List.length_append])
    rw [List.drop_left,List.take_length] at hrest
    rw [List.length_append,Mem.read_add,hpart,Mem.read_write_above,hrest]
    rw [List.length_drop]
    omega
  · rw [Mem.read_write_above (by omega),Mem.read_write]

theorem Mem.write_write_same (m : Mem) (a : Nat) (bs cs : Bytes) (h : bs.length = cs.length) :
    (m.write a bs).write a cs = m.write a cs := by
  funext i
  by_cases h₁ : i < a
  · rw [write_below h₁, write_below h₁, write_below h₁]
  · by_cases h₂ : i < a + cs.length
    · exact write_inside (by omega) h₂
    · rw [write_above (by omega), write_above (by omega), write_above (by omega)]

theorem Mem.write_comm (m : Mem) (a b : Nat) (bs cs : Bytes) (h : a + bs.length ≤ b) :
    (m.write a bs).write b cs = (m.write b cs).write a bs := by
  funext i
  by_cases h₁ : i < b
  · rw [write_below h₁]
    by_cases h₂ : i < a
    · rw [write_below h₂, write_below h₂, write_below h₁]
    · by_cases h₃ : i < a + bs.length
      · exact write_inside (by omega) h₃
      · rw [write_above (by omega), write_above (by omega), write_below h₁]
  · rw [write_above (m := m.write b cs) (by omega)]
    by_cases h₂ : i < b + cs.length
    · exact write_inside (by omega) h₂
    · rw [write_above (by omega), write_above (by omega), write_above (by omega)]

theorem Mem.write_patch (m : Mem) (a : Nat) (xs ys ys' zs : Bytes) (h : ys.length = ys'.length) :
    (m.write a (xs ++ (ys ++ zs))).write (a + xs.length) ys' = m.write a (xs ++ (ys' ++ zs)) := by
  simp only [write_append]
  rw [← write_comm _ _ _ _ _ (by omega),write_write_same _ _ _ _ h,h]

def AgreeBelow (n : Nat) (m m' : Mem) : Prop := ∀ i, i < n → m i = m' i

theorem AgreeBelow.refl (n : Nat) (m : Mem) : AgreeBelow n m m := fun _ _ => rfl

theorem AgreeBelow.trans {n : Nat} {m₁ m₂ m₃ : Mem} (h₁ : AgreeBelow n m₁ m₂)
    (h₂ : AgreeBelow n m₂ m₃) : AgreeBelow n m₁ m₃ := fun i hi => (h₁ i hi).trans (h₂ i hi)

theorem AgreeBelow.symm {n : Nat} {m m' : Mem} (h : AgreeBelow n m m') : AgreeBelow n m' m :=
  fun i hi => (h i hi).symm

theorem AgreeBelow.mono {n k : Nat} {m m' : Mem} (h : AgreeBelow n m m') (hk : k ≤ n) :
    AgreeBelow k m m' := fun i hi => h i (by omega)

theorem agreeBelow_write {m : Mem} {n a : Nat} {bs : Bytes} (h : n ≤ a) :
    AgreeBelow n m (m.write a bs) := fun _ hi => (Mem.write_below (by omega)).symm

theorem agreeBelow_write_same (m m' : Mem) (bs : Bytes) :
    AgreeBelow bs.length (m.write 0 bs) (m'.write 0 bs) :=
  fun i hi => Mem.write_inside (Nat.zero_le i) (by omega)

theorem AgreeBelow.read {n a k : Nat} {m m' : Mem} (h : AgreeBelow n m m') (hk : a + k ≤ n) :
    m.read a k = m'.read a k := Mem.read_congr fun i _ hi => h i (by omega)

def be16 (v : UInt16) : Bytes := [UInt8.ofNat (v.toNat / 256), UInt8.ofNat v.toNat]

def be32 (v : UInt32) : Bytes :=
  [UInt8.ofNat (v.toNat / 2 ^ 24), UInt8.ofNat (v.toNat / 2 ^ 16), UInt8.ofNat (v.toNat / 2 ^ 8),
    UInt8.ofNat v.toNat]

def ofBe16 : Bytes → UInt16
  | [b₁,b₀] => UInt16.ofNat (b₁.toNat * 2 ^ 8 + b₀.toNat)
  | _ => 0

def ofBe32 : Bytes → UInt32
  | [b₃,b₂,b₁,b₀] =>
    UInt32.ofNat (b₃.toNat * 2 ^ 24 + b₂.toNat * 2 ^ 16 + b₁.toNat * 2 ^ 8 + b₀.toNat)
  | _ => 0

def Mem.be16 (m : Mem) (a : Nat) : UInt16 := ofBe16 (m.read a 2)

def Mem.be32 (m : Mem) (a : Nat) : UInt32 := ofBe32 (m.read a 4)

@[simp] theorem length_be16 (v : UInt16) : (be16 v).length = 2 := rfl

@[simp] theorem length_be32 (v : UInt32) : (be32 v).length = 4 := rfl

@[simp] theorem ofBe16_be16 (v : UInt16) : ofBe16 (be16 v) = v := by
  have hv := v.toNat_lt
  apply UInt16.toNat_inj.mp
  simp only [ofBe16,be16,UInt16.toNat_ofNat',UInt8.toNat_ofNat']
  omega

@[simp] theorem ofBe32_be32 (v : UInt32) : ofBe32 (be32 v) = v := by
  have hv := v.toNat_lt
  apply UInt32.toNat_inj.mp
  simp only [ofBe32,be32,UInt32.toNat_ofNat',UInt8.toNat_ofNat']
  omega

theorem be16_ofBe16 {bs : Bytes} (h : bs.length = 2) : be16 (ofBe16 bs) = bs := by
  obtain ⟨b₁,b₀,rfl⟩ := List.length_eq_two.mp h
  have h₁ := b₁.toNat_lt
  have h₀ := b₀.toNat_lt
  simp only [ofBe16,be16,UInt16.toNat_ofNat',List.cons.injEq,← UInt8.toNat_inj,
    UInt8.toNat_ofNat',and_true]
  omega

theorem be32_ofBe32 {bs : Bytes} (h : bs.length = 4) : be32 (ofBe32 bs) = bs := by
  match bs, h with
  | [b₃,b₂,b₁,b₀], _ =>
    have h₃ := b₃.toNat_lt
    have h₂ := b₂.toNat_lt
    have h₁ := b₁.toNat_lt
    have h₀ := b₀.toNat_lt
    simp only [ofBe32,be32,UInt32.toNat_ofNat',List.cons.injEq,← UInt8.toNat_inj,
      UInt8.toNat_ofNat',and_true]
    omega

theorem AgreeBelow.be16 {n a : Nat} {m m' : Mem} (h : AgreeBelow n m m') (ha : a + 2 ≤ n) :
    m.be16 a = m'.be16 a := by
  rw [Mem.be16,Mem.be16,h.read ha]

theorem Mem.be16_of_read {m : Mem} {a : Nat} {v : UInt16} (h : m.read a 2 = Octets.be16 v) :
    m.be16 a = v := by
  rw [Mem.be16,h,ofBe16_be16]

theorem Mem.read_be16_be16 (m : Mem) (a : Nat) :
    m.read a 4 = Octets.be16 (m.be16 a) ++ Octets.be16 (m.be16 (a + 2)) := by
  rw [show 4 = 2 + 2 from rfl,Mem.read_add,Mem.be16,Mem.be16,be16_ofBe16 (by simp),
    be16_ofBe16 (by simp)]

theorem Mem.be16_be16_of_read {m : Mem} {a : Nat} {v w : UInt16}
    (h : m.read a 4 = Octets.be16 v ++ Octets.be16 w) : m.be16 a = v ∧ m.be16 (a + 2) = w := by
  rw [show 4 = 2 + 2 from rfl,Mem.read_add] at h
  obtain ⟨hv,hw⟩ := List.append_inj h (by simp)
  exact ⟨Mem.be16_of_read hv,Mem.be16_of_read hw⟩

inductive ByteOrder where
  | little | big
  deriving DecidableEq, Repr

def ByteOrder.arrange : ByteOrder → Bytes → Bytes
  | .little, bs => bs.reverse
  | .big, bs => bs

@[simp] theorem ByteOrder.arrange_arrange (o : ByteOrder) (bs : Bytes) :
    o.arrange (o.arrange bs) = bs := by
  cases o <;> simp [arrange]

@[simp] theorem ByteOrder.length_arrange (o : ByteOrder) (bs : Bytes) :
    (o.arrange bs).length = bs.length := by
  cases o <;> simp [arrange]

def ByteOrder.store16 (o : ByteOrder) (v : UInt16) : Bytes := o.arrange (Octets.be16 v)
def ByteOrder.store32 (o : ByteOrder) (v : UInt32) : Bytes := o.arrange (Octets.be32 v)
def ByteOrder.load16 (o : ByteOrder) (bs : Bytes) : UInt16 := ofBe16 (o.arrange bs)
def ByteOrder.load32 (o : ByteOrder) (bs : Bytes) : UInt32 := ofBe32 (o.arrange bs)

/-- The integer whose bytes in memory are the big-endian bytes of the given one. -/
def ByteOrder.htons (o : ByteOrder) (v : UInt16) : UInt16 := o.load16 (Octets.be16 v)
def ByteOrder.htonl (o : ByteOrder) (v : UInt32) : UInt32 := o.load32 (Octets.be32 v)

/-- The integer whose big-endian bytes are the bytes in memory of the given one. -/
def ByteOrder.ntohs (o : ByteOrder) (v : UInt16) : UInt16 := ofBe16 (o.store16 v)
def ByteOrder.ntohl (o : ByteOrder) (v : UInt32) : UInt32 := ofBe32 (o.store32 v)

@[simp] theorem ByteOrder.length_store16 (o : ByteOrder) (v : UInt16) :
    (o.store16 v).length = 2 := by
  simp [store16]

@[simp] theorem ByteOrder.length_store32 (o : ByteOrder) (v : UInt32) :
    (o.store32 v).length = 4 := by
  simp [store32]

@[simp] theorem ByteOrder.store16_htons (o : ByteOrder) (v : UInt16) :
    o.store16 (o.htons v) = Octets.be16 v := by
  simp [store16,htons,load16,be16_ofBe16]

@[simp] theorem ByteOrder.store32_htonl (o : ByteOrder) (v : UInt32) :
    o.store32 (o.htonl v) = Octets.be32 v := by
  simp [store32,htonl,load32,be32_ofBe32]

theorem ByteOrder.ntohs_load16 (o : ByteOrder) {bs : Bytes} (h : bs.length = 2) :
    o.ntohs (o.load16 bs) = ofBe16 bs := by
  simp [ntohs,store16,load16,be16_ofBe16,h]

theorem ByteOrder.ntohl_load32 (o : ByteOrder) {bs : Bytes} (h : bs.length = 4) :
    o.ntohl (o.load32 bs) = ofBe32 bs := by
  simp [ntohl,store32,load32,be32_ofBe32,h]

end Octets
