import Mathlib.Data.List.GetD
import Mathlib.Data.List.TakeWhile
import Mathlib.Tactic

/-! # Little-endian words and fixed-size byte buffers

A small library for code that stores 32-bit words in bytes.

* **Words.** `leByte w k` is byte `k` of the word `w` in little-endian order and `ofLe f`
  is the word whose four bytes are `f 0 … f 3`; the two are inverse (`ofLe_leByte`,
  `leByte_ofLe`).
* **Buffers.** `Buf n` is a buffer of exactly `n` bytes, read at natural offsets by `get`
  (which is `0` outside the buffer).  `blit` overwrites a range (`memcpy` into the buffer),
  `word` reads the word at an offset.
* **C strings.** `CStr` is a byte string without NUL bytes, carried as a proof.  `strcmp`
  compares a memory with such a string exactly as the C loop does, reading the memory byte
  by byte. -/

namespace Bytes

/-! ### Words -/

/-- Byte `k` of `w` in little-endian order. -/
def leByte (w : UInt32) (k : ℕ) : UInt8 := UInt8.ofNat (w.toNat / 256 ^ k)

/-- The word stored in the bytes `f 0`, `f 1`, `f 2`, `f 3`. -/
def ofLe (f : ℕ → UInt8) : UInt32 :=
  UInt32.ofNat ((f 0).toNat + 256 * (f 1).toNat + 65536 * (f 2).toNat + 16777216 * (f 3).toNat)

theorem toNat_ofLe (f : ℕ → UInt8) : (ofLe f).toNat =
    (f 0).toNat + 256 * (f 1).toNat + 65536 * (f 2).toNat + 16777216 * (f 3).toNat := by
  have h0 := (f 0).toNat_lt
  have h1 := (f 1).toNat_lt
  have h2 := (f 2).toNat_lt
  have h3 := (f 3).toNat_lt
  rw [ofLe, UInt32.toNat_ofNat', Nat.mod_eq_of_lt (by omega)]

theorem toNat_leByte (w : UInt32) (k : ℕ) : (leByte w k).toNat = w.toNat / 256 ^ k % 256 := by
  rw [leByte, UInt8.toNat_ofNat']

theorem ofLe_congr {f g : ℕ → UInt8} (h : ∀ k < 4, f k = g k) : ofLe f = ofLe g := by
  rw [ofLe, ofLe, h 0 (by omega), h 1 (by omega), h 2 (by omega), h 3 (by omega)]

@[simp] theorem ofLe_leByte (w : UInt32) : ofLe (leByte w) = w := by
  apply UInt32.toNat.inj
  have h := w.toNat_lt
  simp only [toNat_ofLe, toNat_leByte]
  omega

theorem leByte_ofLe (f : ℕ → UInt8) {k : ℕ} (hk : k < 4) : leByte (ofLe f) k = f k := by
  apply UInt8.toNat.inj
  have h0 := (f 0).toNat_lt
  have h1 := (f 1).toNat_lt
  have h2 := (f 2).toNat_lt
  have h3 := (f 3).toNat_lt
  rw [toNat_leByte, toNat_ofLe]
  interval_cases k <;> omega

/-! ### Buffers -/

/-- A buffer of `n` bytes. -/
def Buf (n : ℕ) : Type := Fin n → UInt8

namespace Buf

variable {n : ℕ}

instance : DecidableEq (Buf n) := inferInstanceAs (DecidableEq (Fin n → UInt8))

/-- The byte at offset `i` (`0` outside the buffer). -/
def get (b : Buf n) (i : ℕ) : UInt8 := if h : i < n then b ⟨i, h⟩ else 0

/-- The buffer with contents `f 0, f 1, …`. -/
def ofFn (f : ℕ → UInt8) : Buf n := fun i => f i

/-- The zero-filled buffer. -/
def zero : Buf n := ofFn fun _ => 0

theorem get_ofFn (f : ℕ → UInt8) {i : ℕ} (h : i < n) : (ofFn f : Buf n).get i = f i := by
  simp [get, ofFn, h]

theorem get_of_le (b : Buf n) {i : ℕ} (h : n ≤ i) : b.get i = 0 := by
  simp [get, Nat.not_lt.mpr h]

@[simp] theorem get_zero (i : ℕ) : (zero : Buf n).get i = 0 := by
  by_cases h : i < n
  · rw [zero, get_ofFn _ h]
  · exact get_of_le _ (by omega)

theorem ext {b c : Buf n} (h : ∀ i < n, b.get i = c.get i) : b = c := by
  funext ⟨i, hi⟩
  have := h i hi
  simpa [get, hi] using this

/-- Overwrite the bytes `off, …, off + len - 1` by `src 0, …, src (len - 1)`. -/
def blit (b : Buf n) (off len : ℕ) (src : ℕ → UInt8) : Buf n :=
  ofFn fun i => if off ≤ i ∧ i < off + len then src (i - off) else b.get i

theorem get_blit_in (b : Buf n) (off len : ℕ) (src : ℕ → UInt8) {k : ℕ} (hk : k < len)
    (hn : off + k < n) : (b.blit off len src).get (off + k) = src k := by
  rw [blit, get_ofFn _ hn, if_pos (by omega), Nat.add_sub_cancel_left]

theorem get_blit_out (b : Buf n) {off len : ℕ} (src : ℕ → UInt8) {i : ℕ}
    (h : i < off ∨ off + len ≤ i) : (b.blit off len src).get i = b.get i := by
  by_cases hi : i < n
  · rw [blit, get_ofFn _ hi, if_neg (by omega)]
  · rw [get_of_le _ (by omega), get_of_le _ (by omega)]

/-- The little-endian word at offset `off`. -/
def word (b : Buf n) (off : ℕ) : UInt32 := ofLe fun k => b.get (off + k)

theorem word_congr {m : ℕ} {b : Buf n} {c : Buf m} {i j : ℕ}
    (h : ∀ k < 4, b.get (i + k) = c.get (j + k)) : b.word i = c.word j :=
  ofLe_congr h

/-- A word whose four bytes are those of `w` is `w`. -/
theorem word_eq_of_get (b : Buf n) (off : ℕ) (w : UInt32)
    (h : ∀ k < 4, b.get (off + k) = leByte w k) : b.word off = w := by
  rw [word, ofLe_congr h, ofLe_leByte]

end Buf

/-! ### C strings -/

/-- A NUL-terminated string: its bytes before the terminator, none of which is NUL. -/
structure CStr where
  bytes : List UInt8
  noNul : 0 ∉ bytes
deriving DecidableEq

namespace CStr

theorem noNul_nil : (0 : UInt8) ∉ ([] : List UInt8) := List.not_mem_nil

@[ext] theorem ext {s t : CStr} (h : s.bytes = t.bytes) : s = t := by
  cases s; cases t; cases h; rfl

/-- `strlen`. -/
def strlen (s : CStr) : ℕ := s.bytes.length

/-- The byte at offset `k` of the string as it lies in memory (terminator included). -/
def byteAt (s : CStr) (k : ℕ) : UInt8 := s.bytes.getD k 0

theorem byteAt_ne_zero (s : CStr) {k : ℕ} (h : k < s.strlen) : s.byteAt k ≠ 0 := by
  intro he
  apply s.noNul
  rw [byteAt, List.getD_eq_getElem _ _ h] at he
  rw [← he]
  exact List.getElem_mem _

theorem byteAt_strlen (s : CStr) : s.byteAt s.strlen = 0 := by simp [byteAt, strlen]

/-- The C string that starts at `f 0`, when one of the first `n` bytes is NUL; otherwise the
first `n` bytes. -/
def ofMem (n : ℕ) (f : ℕ → UInt8) : CStr :=
  ⟨((List.range n).map f).takeWhile (· ≠ 0), fun h => by simpa using List.mem_takeWhile_imp h⟩

/-- The memory `f` holds the string `s` with its terminator. -/
def Holds (f : ℕ → UInt8) (s : CStr) : Prop := ∀ k ≤ s.strlen, f k = s.byteAt k

theorem Holds.congr {f g : ℕ → UInt8} {s : CStr} (h : Holds f s)
    (hfg : ∀ k ≤ s.strlen, g k = f k) : Holds g s := fun k hk => (hfg k hk).trans (h k hk)

/-- Two strings held by the same memory are equal. -/
theorem Holds.unique {f : ℕ → UInt8} {s t : CStr} (hs : Holds f s) (ht : Holds f t) : s = t := by
  have hlen : s.strlen = t.strlen := by
    rcases Nat.lt_trichotomy s.strlen t.strlen with h | h | h
    · exact absurd ((ht _ h.le).symm.trans ((hs _ le_rfl).trans s.byteAt_strlen)) (t.byteAt_ne_zero h)
    · exact h
    · exact absurd ((hs _ h.le).symm.trans ((ht _ le_rfl).trans t.byteAt_strlen)) (s.byteAt_ne_zero h)
  apply CStr.ext
  apply List.ext_getElem hlen
  intro k h1 h2
  have := (hs k h1.le).symm.trans (ht k h2.le)
  rwa [byteAt, byteAt, List.getD_eq_getElem _ _ h1, List.getD_eq_getElem _ _ h2] at this

theorem ofMem_of_holds {n : ℕ} {f : ℕ → UInt8} {s : CStr} (h : Holds f s) (hn : s.strlen < n) :
    ofMem n f = s := by
  apply CStr.ext
  have hsplit : (List.range n).map f =
      s.bytes ++ (0 :: ((List.range n).map f).drop (s.strlen + 1)) := by
    apply List.ext_getElem
    · simp [strlen] at hn ⊢; omega
    · intro k h1 h2
      simp only [List.length_map, List.length_range] at h1
      rw [List.getElem_map, List.getElem_range]
      rcases Nat.lt_trichotomy k s.strlen with hk | hk | hk
      · rw [List.getElem_append_left hk, h k hk.le, byteAt, List.getD_eq_getElem _ _ hk]
      · subst hk
        rw [List.getElem_append_right (by simp [strlen]), h _ le_rfl, byteAt_strlen]
        simp [strlen]
      · rw [List.getElem_append_right (by simp only [strlen] at hk; omega)]
        obtain ⟨j, rfl⟩ : ∃ j, k = s.strlen + 1 + j := ⟨k - (s.strlen + 1), by omega⟩
        simp only [strlen, show s.bytes.length + 1 + j - s.bytes.length = j + 1 by omega,
          List.getElem_cons_succ, List.getElem_drop, List.getElem_map, List.getElem_range]
  show ((List.range n).map f).takeWhile (· ≠ 0) = s.bytes
  rw [hsplit, List.takeWhile_append_of_pos]
  · simp
  · intro b hb
    have hb0 : b ≠ 0 := fun h0 => s.noNul (by rwa [h0] at hb)
    simpa using hb0

/-- The C string in a text that is followed by a NUL. -/
theorem bytes_ofMem_of_text {n : ℕ} {f : ℕ → UInt8} {l : List UInt8}
    (hl : ∀ k < l.length, f k = l.getD k 0) (h0 : f l.length = 0) (hn : l.length < n) :
    (ofMem n f).bytes = l.takeWhile (· ≠ 0) := by
  obtain ⟨m, rfl⟩ : ∃ m, n = l.length + (m + 1) := ⟨n - l.length - 1, by omega⟩
  have hfirst : (List.range l.length).map f = l := by
    apply List.ext_getElem
    · simp
    · intro k h1 h2
      rw [List.getElem_map, List.getElem_range, hl k h2, List.getD_eq_getElem _ _ h2]
  show ((List.range _).map f).takeWhile (· ≠ 0) = _
  rw [List.range_add, List.map_append, hfirst, List.range_succ_eq_map, List.map_cons,
    List.map_cons, Nat.add_zero, h0, List.takeWhile_append]
  split_ifs with hall
  · rw [List.takeWhile_cons_of_neg (by simp), List.append_nil]
    exact ((List.takeWhile_prefix _).eq_of_length hall).symm
  · rfl

/-- `strcmp(f, t)`, where `t` lists the remaining bytes of the second string and `k` is the
offset reached in the first. -/
def strcmpAux (f : ℕ → UInt8) : List UInt8 → ℕ → ℤ
  | [], k => (f k).toNat
  | c :: t, k => if f k ≠ 0 ∧ f k = c then strcmpAux f t (k + 1) else (f k).toNat - (c.toNat : ℤ)

/-- `strcmp` of the string in memory `f` with `s`. -/
def strcmp (f : ℕ → UInt8) (s : CStr) : ℤ := strcmpAux f s.bytes 0

theorem strcmpAux_eq_zero_iff (f : ℕ → UInt8) : ∀ (t : List UInt8) (k : ℕ), 0 ∉ t →
    (strcmpAux f t k = 0 ↔ ∀ i ≤ t.length, f (k + i) = t.getD i 0)
  | [], k, _ => by
      simp only [strcmpAux, List.length_nil, Nat.le_zero, forall_eq, add_zero, List.getD_nil]
      constructor
      · intro h
        apply UInt8.toNat.inj
        simpa using h
      · intro h
        rw [h]; rfl
  | c :: t, k, hc => by
      simp only [List.mem_cons, not_or] at hc
      have ih := strcmpAux_eq_zero_iff f t (k + 1) hc.2
      simp only [strcmpAux]
      split_ifs with h
      · rw [ih]
        constructor
        · intro hi i hil
          cases i with
          | zero => simpa using h.2
          | succ i =>
              have := hi i (by simpa using hil)
              rw [List.getD_cons_succ, ← this]
              congr 1; omega
        · intro hi i hil
          have := hi (i + 1) (by simpa using hil)
          rw [List.getD_cons_succ] at this
          rw [← this]
          congr 1; omega
      · constructor
        · intro he
          exfalso
          apply h
          have hfc : f k = c := by
            apply UInt8.toNat.inj
            omega
          exact ⟨by rw [hfc]; exact fun h0 => hc.1 h0.symm, hfc⟩
        · intro hi
          have h0 := hi 0 (by simp)
          simp only [add_zero, List.getD_cons_zero] at h0
          rw [h0]; simp

/-- `strcmp` answers `0` exactly when the memory holds the string. -/
theorem strcmp_eq_zero_iff (f : ℕ → UInt8) (s : CStr) : strcmp f s = 0 ↔ Holds f s := by
  rw [strcmp, strcmpAux_eq_zero_iff f s.bytes 0 s.noNul]
  simp only [Nat.zero_add]
  rfl

end CStr

end Bytes
