import Mathlib.Data.Nat.Digits.Defs
import Mathlib.Tactic.Common
import Mathlib.Tactic.Ring

/-!
# Byte memory

A memory maps addresses to bytes. A number is stored in `k` bytes from its least significant byte
up, or from its most significant byte down when the machine is big endian.
-/

namespace ByteMemory

/-- A byte for every address. -/
abbrev Memory := ℕ → BitVec 8

/-- The `k` low bytes of a number, least significant first. -/
def encode : ℕ → ℕ → List (BitVec 8)
  | 0, _ => []
  | k + 1, n => BitVec.ofNat 8 n :: encode k (n / 256)

/-- The number whose bytes these are, least significant first. -/
def decode : List (BitVec 8) → ℕ
  | [] => 0
  | b :: bs => b.toNat + 256 * decode bs

/-- The bytes in the order of a machine: reversed when it is big endian. -/
def order (bigEndian : Bool) (bs : List (BitVec 8)) : List (BitVec 8) :=
  if bigEndian then bs.reverse else bs

/-- The `k` bytes from address `p` on. -/
def read (m : Memory) : ℕ → ℕ → List (BitVec 8)
  | _, 0 => []
  | p, k + 1 => m p :: read m (p + 1) k

/-- The memory with bytes put at address `p` and after it. -/
def write (m : Memory) : ℕ → List (BitVec 8) → Memory
  | _, [] => m
  | p, b :: bs => Function.update (write m (p + 1) bs) p b

/-- The number in the `k` bytes at address `p`. -/
def load (bigEndian : Bool) (m : Memory) (p k : ℕ) : ℕ := decode (order bigEndian (read m p k))

/-- The memory with the `k` low bytes of a number at address `p`. -/
def store (bigEndian : Bool) (m : Memory) (p k n : ℕ) : Memory :=
  write m p (order bigEndian (encode k n))

lemma length_encode (k n : ℕ) : (encode k n).length = k := by
  induction k generalizing n with
  | zero => rfl
  | succ k ih => simp [encode, ih]

lemma length_order (bigEndian : Bool) (bs : List (BitVec 8)) :
    (order bigEndian bs).length = bs.length := by
  cases bigEndian <;> simp [order]

@[simp] lemma order_order (bigEndian : Bool) (bs : List (BitVec 8)) :
    order bigEndian (order bigEndian bs) = bs := by
  cases bigEndian <;> simp [order]

/-- Decoding gives the residue that fits in the bytes. -/
lemma decode_encode (k n : ℕ) : decode (encode k n) = n % 2 ^ (8 * k) := by
  induction k generalizing n with
  | zero => simp [encode, decode, Nat.mod_one]
  | succ k ih =>
    have hpow : 2 ^ (8 * (k + 1)) = 256 * 2 ^ (8 * k) := by
      rw [show 8 * (k + 1) = 8 + 8 * k by ring, pow_add]
      norm_num
    rw [encode, decode, ih, BitVec.toNat_ofNat, hpow, Nat.mod_mul]

variable {p q k : ℕ} {m m' : Memory}

lemma write_of_lt (m : Memory) (bs : List (BitVec 8)) (h : q < p) : write m p bs q = m q := by
  induction bs generalizing p with
  | nil => rfl
  | cons b bs ih =>
    rw [write, Function.update_of_ne (by omega)]
    exact ih (by omega)

lemma write_of_le (m : Memory) (bs : List (BitVec 8)) (h : p + bs.length ≤ q) :
    write m p bs q = m q := by
  induction bs generalizing p with
  | nil => rfl
  | cons b bs ih =>
    rw [List.length_cons] at h
    rw [write, Function.update_of_ne (by omega)]
    exact ih (by omega)

lemma read_congr (h : ∀ q, p ≤ q → q < p + k → m q = m' q) : read m p k = read m' p k := by
  induction k generalizing p with
  | zero => rfl
  | succ k ih =>
    rw [read, read, h p (by omega) (by omega)]
    rw [ih fun q hq hq' => h q (by omega) (by omega)]

lemma read_write (m : Memory) (p : ℕ) (bs : List (BitVec 8)) :
    read (write m p bs) p bs.length = bs := by
  induction bs generalizing p with
  | nil => rfl
  | cons b bs ih =>
    rw [List.length_cons, read, write, Function.update_self]
    -- the later bytes are not touched by the write of the first one
    have htail : read (Function.update (write m (p + 1) bs) p b) (p + 1) bs.length =
        read (write m (p + 1) bs) (p + 1) bs.length :=
      read_congr fun q hq _ => Function.update_of_ne (by omega) _ _
    rw [htail, ih]

/-- Loading gives what was stored, as far as it fits. -/
lemma load_store (bigEndian : Bool) (m : Memory) (p k n : ℕ) :
    load bigEndian (store bigEndian m p k n) p k = n % 2 ^ (8 * k) := by
  have hlen : (order bigEndian (encode k n)).length = k := by
    rw [length_order, length_encode]
  have hread : read (store bigEndian m p k n) p k = order bigEndian (encode k n) := by
    have h := read_write m p (order bigEndian (encode k n))
    rwa [hlen] at h
  rw [load, hread, order_order, decode_encode]

lemma store_of_disjoint (bigEndian : Bool) (m : Memory) (n : ℕ) (h : q < p ∨ p + k ≤ q) :
    store bigEndian m p k n q = m q := by
  rcases h with h | h
  · exact write_of_lt m _ h
  · exact write_of_le m _ (by rwa [length_order, length_encode])

lemma decode_lt (bs : List (BitVec 8)) : decode bs < 2 ^ (8 * bs.length) := by
  induction bs with
  | nil => simp [decode]
  | cons b bs ih =>
    have hb := b.isLt
    have hpow : 2 ^ (8 * (b :: bs).length) = 256 * 2 ^ (8 * bs.length) := by
      rw [List.length_cons, show 8 * (bs.length + 1) = 8 + 8 * bs.length by ring, pow_add]
      norm_num
    rw [decode, hpow]
    omega

lemma encode_decode (bs : List (BitVec 8)) : encode bs.length (decode bs) = bs := by
  induction bs with
  | nil => rfl
  | cons b bs ih =>
    have hb := b.isLt
    have hdiv : (b.toNat + 256 * decode bs) / 256 = decode bs := by omega
    have hmod : BitVec.ofNat 8 (b.toNat + 256 * decode bs) = b := by
      apply BitVec.eq_of_toNat_eq
      rw [BitVec.toNat_ofNat]
      omega
    rw [List.length_cons, encode, decode, hdiv, hmod, ih]

lemma length_read (m : Memory) (p k : ℕ) : (read m p k).length = k := by
  induction k generalizing p with
  | zero => rfl
  | succ k ih => simp [read, ih]

lemma load_lt (bigEndian : Bool) (m : Memory) (p k : ℕ) : load bigEndian m p k < 2 ^ (8 * k) := by
  have h := decode_lt (order bigEndian (read m p k))
  rwa [length_order, length_read] at h

lemma load_congr {bigEndian : Bool} (h : ∀ q, p ≤ q → q < p + k → m q = m' q) :
    load bigEndian m p k = load bigEndian m' p k := by
  rw [load, load, read_congr h]

lemma load_store_of_disjoint (bigEndian : Bool) (m : Memory) (n : ℕ) {k' : ℕ}
    (h : q + k' ≤ p ∨ p + k ≤ q) :
    load bigEndian (store bigEndian m p k n) q k' = load bigEndian m q k' :=
  load_congr fun r hr hr' => store_of_disjoint bigEndian m n (by omega)

lemma store_load (bigEndian : Bool) (m : Memory) (p k : ℕ) :
    store bigEndian m p k (load bigEndian m p k) = m := by
  have hwrite : ∀ k p, write m p (read m p k) = m := by
    intro k
    induction k with
    | zero => intro p; rfl
    | succ k ih => intro p; rw [read, write, ih, Function.update_eq_self]
  have hbytes : encode k (decode (order bigEndian (read m p k))) =
      order bigEndian (read m p k) := by
    have h := encode_decode (order bigEndian (read m p k))
    rwa [length_order, length_read] at h
  rw [store, load, hbytes, order_order, hwrite]

/-! ### Parts of a number -/

lemma read_add (m : Memory) (p a b : ℕ) : read m p (a + b) = read m p a ++ read m (p + a) b := by
  induction a generalizing p with
  | zero => simp [read]
  | succ a ih =>
    rw [Nat.add_right_comm, read, ih, read, List.cons_append, show p + 1 + a = p + (a + 1) by omega]

lemma encode_add (a b n : ℕ) : encode (a + b) n = encode a n ++ encode b (n / 2 ^ (8 * a)) := by
  induction a generalizing n with
  | zero => simp [encode]
  | succ a ih =>
    have hpow : 2 ^ (8 * (a + 1)) = 256 * 2 ^ (8 * a) := by
      rw [show 8 * (a + 1) = 8 + 8 * a by ring, pow_add]
      norm_num
    rw [Nat.add_right_comm, encode, ih, encode, List.cons_append, hpow, Nat.div_div_eq_div_mul]

/-- Loading some of the bytes that were stored: those after `o` bytes and before `r` bytes. -/
lemma load_store_part (bigEndian : Bool) (m : Memory) (p o k r n : ℕ) :
    load bigEndian (store bigEndian m p (o + (k + r)) n) (p + o) k =
      n / 2 ^ (8 * if bigEndian then r else o) % 2 ^ (8 * k) := by
  set x := n / 2 ^ (8 * if bigEndian then r else o) with hx
  have hread : read (store bigEndian m p (o + (k + r)) n) p (o + (k + r)) =
      order bigEndian (encode (o + (k + r)) n) := by
    have h := read_write m p (order bigEndian (encode (o + (k + r)) n))
    rwa [length_order, length_encode] at h
  -- the bytes of the number around those of the part
  obtain ⟨before, after, hbytes, hlen⟩ : ∃ before after,
      order bigEndian (encode (o + (k + r)) n) =
        before ++ (order bigEndian (encode k x) ++ after) ∧ before.length = o := by
    cases bigEndian with
    | false =>
      refine ⟨encode o n, encode r (x / 2 ^ (8 * k)), ?_, length_encode _ _⟩
      simp [order, encode_add, hx]
    | true =>
      refine ⟨(encode o (x / 2 ^ (8 * k))).reverse, (encode r n).reverse, ?_, ?_⟩
      · rw [show o + (k + r) = r + (k + o) by ring]
        simp [order, encode_add, hx]
      · rw [List.length_reverse, length_encode]
  rw [read_add, read_add, hbytes] at hread
  have htail := (List.append_inj hread (by rw [length_read, hlen])).2
  have hpart := (List.append_inj htail (by rw [length_read, length_order, length_encode])).1
  rw [load, hpart, order_order, decode_encode]

/-- An empty memory holds zero everywhere. -/
lemma load_zero (bigEndian : Bool) (p k : ℕ) : load bigEndian (fun _ => 0#8) p k = 0 := by
  have hread : ∀ (k p : ℕ), read (fun _ => 0#8) p k = List.replicate k 0#8 := by
    intro k
    induction k with
    | zero => intro p; rfl
    | succ k ih => intro p; rw [read, ih, List.replicate_succ]
  have hdecode : ∀ k : ℕ, decode (List.replicate k 0#8) = 0 := by
    intro k
    induction k with
    | zero => rfl
    | succ k ih => simp [List.replicate_succ, decode, ih]
  cases bigEndian <;> simp [load, order, hread, hdecode]

/-! ### Arrays -/

/-- The memory with numbers of `k` bytes each one after the other. -/
def storeAll (bigEndian : Bool) (m : Memory) (p k : ℕ) : List ℕ → Memory
  | [] => m
  | n :: ns => store bigEndian (storeAll bigEndian m (p + k) k ns) p k n

lemma storeAll_of_lt (bigEndian : Bool) (m : Memory) (ns : List ℕ) (h : q < p) :
    storeAll bigEndian m p k ns q = m q := by
  induction ns generalizing p with
  | nil => rfl
  | cons n ns ih =>
    rw [storeAll, store_of_disjoint _ _ _ (.inl h)]
    exact ih (by omega)

/-- Loading gives what was stored at a position of the array, as far as it fits. -/
lemma load_storeAll (bigEndian : Bool) (m : Memory) {i n : ℕ} {ns : List ℕ} (h : ns[i]? = some n) :
    load bigEndian (storeAll bigEndian m p k ns) (p + i * k) k = n % 2 ^ (8 * k) := by
  induction ns generalizing p i with
  | nil => simp at h
  | cons n' ns ih =>
    cases i with
    | zero =>
      cases h
      rw [storeAll, Nat.zero_mul, Nat.add_zero, load_store]
    | succ i =>
      have hp : p + (i + 1) * k = p + k + i * k := by ring
      rw [storeAll, hp, load_store_of_disjoint _ _ _ (.inr (Nat.le_add_right _ _))]
      exact ih h

end ByteMemory
