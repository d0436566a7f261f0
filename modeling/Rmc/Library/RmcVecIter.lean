import Rmc.Lib.TwoEnded
import Rmc.Library.RmcVec

/-!
# The iterator of the vector stub in Rust

`into_iter` of `rmc_vec.rs` makes an iterator of two pointers, to the first element and behind the
last one. For elements without a size the pointers do not point to elements: their addresses count,
and the end is the address of the buffer plus the length, as a sum of `usize`.

Pointers are addresses, and the memory is bytes. A value is read from as many bytes as its type has,
so that all values of a type without a size are the same. As in the model of the vector, arithmetic
that leaves `usize` and a read of bytes that hold no value are `none`.
-/

namespace Rmc.Library.RmcVec

open Run Simulation TwoEnded

/-! ### Values in memory -/

/-- How the values of a type are stored. -/
structure Layout (T : Type) where
  size : ℕ
  encode : T → List UInt8
  length_encode : ∀ x, (encode x).length = size
  decode : List UInt8 → Option T
  decode_encode : ∀ x, decode (encode x) = some x

/-- The bytes that have been written, by their addresses. -/
abbrev Memory := ℕ → Option UInt8

def Memory.bytes (m : Memory) (addr : ℕ) : ℕ → Option (List UInt8)
  | 0 => some []
  | n + 1 => do return (← m addr) :: (← m.bytes (addr + 1) n)

variable {T : Type} (L : Layout T)

/-- `ptr::read` -/
def Layout.read (m : Memory) (addr : ℕ) : Option T := do
  L.decode (← m.bytes addr L.size)

/-! ### The iterator -/

structure RmcRawValIter where
  start : ℕ
  stop : ℕ
  deriving DecidableEq, Repr

namespace RmcRawValIter

/-- The iterator over a slice, given by the address of its first element and its length. -/
def new (ptr len : ℕ) : Option RmcRawValIter := do
  let stop ← (if L.size = 0 then checkedU64 (ptr + len)
    else if len = 0 then some ptr
    else checkedU64 (ptr + len * L.size))
  return { start := ptr, stop }

def next (m : Memory) (it : RmcRawValIter) : Option (Option T × RmcRawValIter) := do
  if it.start = it.stop then return (none, it)
  else
    let result ← L.read m it.start
    let start ← (if L.size = 0 then checkedU64 (it.start + 1) else checkedU64 (it.start + L.size))
    return (some result, { it with start })

def nextBack (m : Memory) (it : RmcRawValIter) : Option (Option T × RmcRawValIter) := do
  if it.start = it.stop then return (none, it)
  else
    let stop ← (if L.size = 0 then do guard (1 ≤ it.stop); return it.stop - 1
      else do guard (L.size ≤ it.stop); return it.stop - L.size)
    return (some (← L.read m stop), { it with stop })

/-- A call at one of the ends. -/
def call (m : Memory) (it : RmcRawValIter) : Side → Option (Option T × RmcRawValIter)
  | .front => it.next L m
  | .back => it.nextBack L m

/-- Calls one after the other. -/
def calls (m : Memory) (it : RmcRawValIter) : List Side → Option (List (Option T))
  | [] => some []
  | side :: sides => do
    let (result, it) ← it.call L m side
    return result :: (← it.calls m sides)

end RmcRawValIter

/-- The fields of a vector: its buffer and its length. -/
structure Parts where
  ptr : ℕ
  cap : ℕ
  len : ℕ
  deriving DecidableEq, Repr

/-- `into_iter`. The buffer stays with the iterator and is not used by it. -/
def Parts.intoIter (v : Parts) : Option RmcRawValIter := RmcRawValIter.new L v.ptr v.len

/-- The elements of a vector are in its buffer. -/
structure Stored (m : Memory) (v : Parts) (a : List T) : Prop where
  len : v.len = a.length
  le : v.len ≤ v.cap
  cap : v.cap < 2 ^ 64
  fits : v.ptr + v.cap * L.size < 2 ^ 64
  bytes : ∀ i x, a[i]? = some x → m.bytes (v.ptr + i * L.size) L.size = some (L.encode x)

/-! ### Both ends -/

variable {addr : ℕ}

section

variable {L} {m : Memory} {v : Parts} {a : List T} {it : RmcRawValIter}

lemma Layout.read_eq {x : T} (h : m.bytes addr L.size = some (L.encode x)) :
    L.read m addr = some x := by
  simp [Layout.read, h, L.decode_encode]

/-- The distance of one element: that of the addresses, for elements without a size one. -/
def Layout.stride (L : Layout T) : ℕ := if L.size = 0 then 1 else L.size

lemma Layout.stride_pos (L : Layout T) : 0 < L.stride := by
  unfold Layout.stride
  split_ifs with h
  · exact Nat.one_pos
  · exact Nat.pos_of_ne_zero h

/-- The addresses of the iterator are as far apart as there are elements left, and from the first
address on these can be read. For elements without a size every address can be read. -/
structure Between (L : Layout T) (m : Memory) (it : RmcRawValIter) (a : List T) : Prop where
  stop : it.stop = it.start + a.length * L.stride
  lt : it.stop < 2 ^ 64
  read : ∀ i x, a[i]? = some x → L.read m (it.start + i * L.stride) = some x

section

variable (h : Between L m it a)

include h

lemma Between.start_eq_stop_iff : it.start = it.stop ↔ a = [] := by
  have hpos := L.stride_pos
  rw [h.stop, ← List.length_eq_zero_iff]
  constructor
  · intro heq
    by_contra hne
    have := Nat.mul_pos (Nat.pos_of_ne_zero hne) hpos
    omega
  · intro hlen
    rw [hlen, Nat.zero_mul, Nat.add_zero]

lemma Between.next : ∃ it', it.next L m = some (a.head?, it') ∧ Between L m it' a.tail := by
  cases a with
  | nil =>
    have heq : it.start = it.stop := h.start_eq_stop_iff.mpr rfl
    exact ⟨it, by simp [RmcRawValIter.next, heq], h⟩
  | cons x a =>
    have hne : it.start ≠ it.stop := fun heq => nomatch h.start_eq_stop_iff.mp heq
    have hread : L.read m it.start = some x := by simpa using h.read 0 x rfl
    have hstop : it.stop = it.start + L.stride + a.length * L.stride := by
      rw [h.stop, List.length_cons, Nat.succ_mul]
      omega
    have hlt := h.lt
    have hmove : (if L.size = 0 then checkedU64 (it.start + 1)
        else checkedU64 (it.start + L.size)) = some (it.start + L.stride) := by
      unfold Layout.stride at hstop ⊢
      split_ifs at hstop ⊢
      · exact checkedU64_eq_some.mpr ⟨by omega, rfl⟩
      · exact checkedU64_eq_some.mpr ⟨by omega, rfl⟩
    refine ⟨{ it with start := it.start + L.stride }, ?_, hstop, hlt, fun i y hy => ?_⟩
    · simp [RmcRawValIter.next, hne, hread, hmove]
    · have hnext := h.read (i + 1) y hy
      rwa [Nat.succ_mul, Nat.add_comm (i * L.stride), ← Nat.add_assoc] at hnext

lemma Between.nextBack :
    ∃ it', it.nextBack L m = some (a.getLast?, it') ∧ Between L m it' a.dropLast := by
  rcases List.eq_nil_or_concat a with rfl | ⟨a, x, rfl⟩
  · have heq : it.start = it.stop := h.start_eq_stop_iff.mpr rfl
    exact ⟨it, by simp [RmcRawValIter.nextBack, heq], h⟩
  · rw [List.concat_eq_append] at h ⊢
    have hne : it.start ≠ it.stop := fun heq => by simpa using h.start_eq_stop_iff.mp heq
    have hstop : it.stop = it.start + a.length * L.stride + L.stride := by
      rw [h.stop, List.length_append, List.length_singleton, Nat.succ_mul]
      omega
    have hread : L.read m (it.start + a.length * L.stride) = some x := h.read a.length x (by simp)
    have hmove : (if L.size = 0 then do guard (1 ≤ it.stop); return it.stop - 1
        else do guard (L.size ≤ it.stop); return it.stop - L.size) =
        some (it.start + a.length * L.stride) := by
      unfold Layout.stride at hstop ⊢
      split_ifs at hstop ⊢
      · simp [hstop]
      · simp [hstop]
    have hlt := h.lt
    refine ⟨{ it with stop := it.start + a.length * L.stride }, ?_, ?_⟩
    · rw [RmcRawValIter.nextBack, if_neg hne, hmove]
      simp [hread]
    · rw [List.dropLast_concat]
      refine ⟨rfl, by dsimp only; omega, fun i y hy => h.read i y ?_⟩
      rw [List.getElem?_append_left (List.getElem?_eq_some_iff.mp hy).1]
      exact hy

lemma Between.call (side : Side) :
    ∃ it', it.call L m side = some ((take a side).1, it') ∧ Between L m it' (take a side).2 := by
  cases side with
  | front => exact h.next
  | back => exact h.nextBack

lemma Between.calls (sides : List Side) : it.calls L m sides = some (takes a sides) := by
  induction sides generalizing it a with
  | nil => rfl
  | cons side sides ih =>
    obtain ⟨it', hcall, h'⟩ := h.call side
    simp [RmcRawValIter.calls, hcall, ih h', takes]

end

/-- The iterator is made, and is between the ends of the vector, unless the sum of the address and
the length leaves `usize`. -/
lemma Stored.exists_intoIter (h : Stored L m v a) (hlt : L.size = 0 → v.ptr + v.len < 2 ^ 64) :
    ∃ it, v.intoIter L = some it ∧ Between L m it a := by
  by_cases hsize : L.size = 0
  · refine ⟨{ start := v.ptr, stop := v.ptr + v.len }, ?_, ?_, hlt hsize, fun i x hx => ?_⟩
    · have hcheck : checkedU64 (v.ptr + v.len) = some (v.ptr + v.len) :=
        checkedU64_eq_some.mpr ⟨hlt hsize, rfl⟩
      simp [Parts.intoIter, RmcRawValIter.new, hsize, hcheck]
    · simp [Layout.stride, hsize, h.len]
    · have hbytes := h.bytes i x hx
      rw [hsize] at hbytes
      refine Layout.read_eq ?_
      rw [hsize, ← hbytes]
      rfl
  · have hle : v.len * L.size ≤ v.cap * L.size := Nat.mul_le_mul_right _ h.le
    have hfits := h.fits
    have hstride : L.stride = L.size := if_neg hsize
    have hstop : (if v.len = 0 then some v.ptr else checkedU64 (v.ptr + v.len * L.size)) =
        some (v.ptr + v.len * L.size) := by
      split_ifs with hlen
      · rw [hlen, Nat.zero_mul, Nat.add_zero]
      · exact checkedU64_eq_some.mpr ⟨by omega, rfl⟩
    refine ⟨{ start := v.ptr, stop := v.ptr + v.len * L.size }, ?_, ?_, ?_, fun i x hx => ?_⟩
    · simp [Parts.intoIter, RmcRawValIter.new, hsize, hstop]
    · rw [hstride, ← h.len]
    · dsimp only
      omega
    · rw [hstride]
      exact Layout.read_eq (h.bytes i x hx)

end

/-- The iterator of a vector is made and returns its elements from both ends, each of them once and
then no more, in every order of calls, exactly when it is not the case that the elements have no
size and the sum of the address and the length leaves `usize`. -/
theorem rmcIntoIter_exact_iff {L : Layout T} {m : Memory} {v : Parts} {a : List T}
    (h : Stored L m v a) :
    (∃ it, v.intoIter L = some it ∧
      ∀ sides, ∃ results, it.calls L m sides = some results ∧ Exact a sides results) ↔
      (L.size = 0 → v.ptr + v.len < 2 ^ 64) := by
  constructor
  · rintro ⟨it, hit, -⟩ hsize
    simp only [Parts.intoIter, RmcRawValIter.new, hsize, if_true, bind_eq_some,
      checkedU64_eq_some] at hit
    obtain ⟨_, ⟨hlt, -⟩, -⟩ := hit
    exact hlt
  · intro hlt
    obtain ⟨it, hit, hbetween⟩ := h.exists_intoIter hlt
    exact ⟨it, hit, fun sides => ⟨_, hbetween.calls sides, exact_takes a sides⟩⟩

/-! ### Vectors and their buffers -/

section

variable {L} {m : Memory} {a : List T} {ptr : ℕ} {v : Vec T} {e : Elem T}

lemma Memory.bytes_eq_some {l : List UInt8} (h : ∀ j x, l[j]? = some x → m (addr + j) = some x) :
    m.bytes addr l.length = some l := by
  induction l generalizing addr with
  | nil => rfl
  | cons x l ih =>
    have hfirst : m addr = some x := h 0 x rfl
    have hrest : m.bytes (addr + 1) l.length = some l := by
      refine ih fun j y hy => ?_
      rw [Nat.add_assoc, Nat.add_comm 1]
      exact h (j + 1) y hy
    simp [Memory.bytes, hfirst, hrest]

/-- The bytes of a buffer of values at an address. -/
def Layout.image (L : Layout T) (ptr : ℕ) (mem : List (Option T)) : Memory := fun addr => do
  guard (ptr ≤ addr)
  let x ← Buffer.read mem ((addr - ptr) / L.size)
  (L.encode x)[(addr - ptr) % L.size]?

lemma Layout.bytes_image {mem : List (Option T)} (h : Buffer.Holds mem a) (ptr : ℕ) {i : ℕ} {x : T}
    (hx : a[i]? = some x) :
    (L.image ptr mem).bytes (ptr + i * L.size) L.size = some (L.encode x) := by
  obtain ⟨hi, rfl⟩ := List.getElem?_eq_some_iff.mp hx
  have hread : Buffer.read mem i = some a[i] := h.read_eq hi
  have hbytes : (L.image ptr mem).bytes (ptr + i * L.size) (L.encode a[i]).length =
      some (L.encode a[i]) := by
    refine Memory.bytes_eq_some fun j y hy => ?_
    have hj : j < L.size := by
      rw [← L.length_encode a[i]]
      exact (List.getElem?_eq_some_iff.mp hy).1
    have hpos : 0 < L.size := Nat.zero_lt_of_lt hj
    have hoffset : ptr + i * L.size + j - ptr = j + L.size * i := by
      rw [Nat.add_assoc, Nat.add_sub_cancel_left, Nat.mul_comm, Nat.add_comm]
    have hle : ptr ≤ ptr + i * L.size + j := by
      rw [Nat.add_assoc]
      exact Nat.le_add_right _ _
    rw [Layout.image, hoffset, Nat.add_mul_div_left _ _ hpos, Nat.div_eq_of_lt hj, Nat.zero_add,
      Nat.add_mul_mod_self_left, Nat.mod_eq_of_lt hj, hread]
    simp [hle, hy]
  rwa [L.length_encode] at hbytes

/-- A vector that stands for a list has its elements stored, wherever its buffer is. -/
lemma Models.stored (h : Models e v a) (hsize : L.size = e.size)
    (hptr : ptr + v.buf.cap * e.size < 2 ^ 64) :
    Stored L (L.image ptr v.buf.mem) { ptr, cap := v.buf.cap, len := v.len } a where
  len := h.len
  le := h.le
  cap := h.fits.lt.trans (by decide)
  fits := by rw [hsize]; exact hptr
  bytes _ _ hx := L.bytes_image h.holds ptr hx

/-- The iterator of a vector that the operations have built is exact, wherever its buffer is. -/
lemma Models.intoIter_exact (h : Models e v a) (hsize : L.size = e.size)
    (hptr : ptr + v.buf.cap * e.size < 2 ^ 64) :
    ∃ it, RmcRawValIter.new L ptr v.len = some it ∧ ∀ sides, ∃ results,
      it.calls L (L.image ptr v.buf.mem) sides = some results ∧ Exact a sides results := by
  have hne : L.size ≠ 0 := hsize ▸ e.size_ne_zero
  obtain ⟨it, hit, hbetween⟩ := (h.stored hsize hptr).exists_intoIter fun hzero => absurd hzero hne
  exact ⟨it, hit, fun sides => ⟨_, hbetween.calls sides, exact_takes a sides⟩⟩

/-- After any operations within the limit of the allocator, the iterator of each of the vectors is
exact for the list of std's vector, wherever the buffer is. -/
theorem intoIter_exact_of_run {ops : List (Op T)} {as : List (List T)} {i : ℕ}
    (hfits : Along (Op.step e) Op.spec (Op.Fits e) [] [] ops)
    (hspec : run (silence Op.spec) [] ops = some as) (ha : as[i]? = some a)
    (hsize : L.size = e.size) :
    ∃ vs v, run (silence (Op.step e)) [] ops = some vs ∧ vs[i]? = some v ∧
      ∀ ptr, ptr + v.buf.cap * e.size < 2 ^ 64 →
        ∃ it, RmcRawValIter.new L ptr v.len = some it ∧ ∀ sides, ∃ results,
          it.calls L (L.image ptr v.buf.mem) sides = some results ∧ Exact a sides results := by
  have hfollows := (follows_iff_along (stepIff e) .nil ops).mpr hfits
  obtain ⟨vs, hrun, hmodels⟩ := hfollows.exists_run .nil hspec
  obtain ⟨hi, rfl⟩ := List.getElem?_eq_some_iff.mp ha
  have hi' : i < vs.length := hmodels.length_eq ▸ hi
  exact ⟨vs, vs[i], hrun, List.getElem?_eq_getElem hi',
    fun ptr hptr => (hmodels.get hi' hi).intoIter_exact hsize hptr⟩

end

/-! ### Bytes and units -/

/-- A byte is stored as itself. -/
def byteLayout : Layout UInt8 where
  size := 1
  encode x := [x]
  length_encode _ := rfl
  decode l := l.head?
  decode_encode _ := rfl

/-- Units take no bytes. -/
def unitLayout : Layout Unit where
  size := 0
  encode _ := []
  length_encode _ := rfl
  decode _ := some ()
  decode_encode _ := rfl

theorem intoIter_exact_bytes :
    ∃ it, Parts.intoIter byteLayout { ptr := 16, cap := 4, len := 3 } = some it ∧
      ∀ sides, ∃ results, it.calls byteLayout
        (byteLayout.image 16 [some 1, some 2, some 3, none]) sides = some results ∧
          Exact [1, 2, 3] sides results :=
  (rmcIntoIter_exact_iff
    { len := rfl
      le := by decide
      cap := by decide
      fits := by decide
      bytes := fun _ _ hx => byteLayout.bytes_image ⟨[none], rfl⟩ 16 hx }).mpr (by decide)

/-- Two bytes are pushed, and the first one is taken out again. -/
theorem intoIter_exact_of_run_bytes :
    let e : Elem UInt8 := ⟨1, by decide, 1, id, fun _ => rfl, isizeMax, le_rfl⟩
    ∃ vs v, run (silence (Op.step e)) [] [.withCapacity 4, .push 0 1, .push 0 2, .remove 0 0] =
        some vs ∧ vs[0]? = some v ∧
      ∀ ptr, ptr + v.buf.cap * 1 < 2 ^ 64 →
        ∃ it, RmcRawValIter.new byteLayout ptr v.len = some it ∧ ∀ sides, ∃ results,
          it.calls byteLayout (byteLayout.image ptr v.buf.mem) sides = some results ∧
            Exact [2] sides results := by
  intro e
  refine intoIter_exact_of_run (e := e) (L := byteLayout) ?_ rfl rfl rfl
  rintro _ _ ⟨⟩
  refine ⟨by simp [Op.Fits, Elem.Fits, e, isizeMax], ?_⟩
  rintro _ ⟨⟩ _ _ ⟨⟩
  refine ⟨by simp [Op.Fits, Vec.Room], ?_⟩
  rintro _ ⟨⟩ _ _ ⟨⟩
  refine ⟨by simp [Op.Fits, Vec.Room], ?_⟩
  rintro _ ⟨⟩ _ _ ⟨⟩
  exact ⟨trivial, fun _ _ => trivial⟩

/-- No iterator is made for a vector of as many units as a `usize` can count. -/
theorem intoIter_units_eq_none :
    Stored unitLayout (fun _ => none) { ptr := 16, cap := 2 ^ 64 - 1, len := 2 ^ 64 - 1 }
        (List.replicate (2 ^ 64 - 1) ()) ∧
      Parts.intoIter unitLayout { ptr := 16, cap := 2 ^ 64 - 1, len := 2 ^ 64 - 1 } = none := by
  refine ⟨⟨List.length_replicate.symm, le_rfl, by decide, by decide, fun _ _ _ => rfl⟩, ?_⟩
  decide

end Rmc.Library.RmcVec
