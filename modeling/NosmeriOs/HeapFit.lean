import NosmeriOs.HeapCanonical

/-! # What `kmalloc` returns

`kmalloc` grows the heap page by page until a block fits or no page is left.  `extendBlocks` is
the block list after `k` more pages, so that a call is described by the number of pages it took.

* `kmalloc_outcome`: either the first fitting block after the least number of pages is taken
  (`Took`), or none fits after all pages that there are (`Failed`).
* `kmallocBounded_eq`: the bounds of the model on the search and on the recursion do not matter.
* `run_delivers_iff`: the size is rounded up on 32 bits, which wraps above `0xFFFFFFFC`.  The
  block returned is as large as asked for exactly when that does not happen, or when there is
  no block and no page at all. -/

namespace NosmeriOs.Heap

open Memory

/-- The blocks of the heap, as memory has them. -/
def blocks (h : State) : List Block := (blockList h).map fun x => ⟨x.addr, x.size, x.free⟩

theorem map_headers (p : ℕ) (bs : List Block) :
    (headers p bs).map (fun x => (⟨x.addr, x.size, x.free⟩ : Block)) = bs := by
  induction bs generalizing p with
  | nil => rfl
  | cons b bs ih => simp [headers, ih]

theorem Ok.blocks {h : State} {bs : List Block} (hok : Ok h bs) : blocks h = bs := by
  unfold Heap.blocks
  rw [hok.blockList, map_headers]

/-- No block fits. -/
def Full (n : ℕ) (bs : List Block) : Prop := ∀ b ∈ bs, ¬ Fits n b

section outcome
variable {σ : Type} {alloc : PageSource σ} {bytes : UInt32} {h : State} {s : σ} {bs : List Block}

/-- The supply of pages after it has been asked for the `k` pages from `e` on. -/
def supplyAfter (alloc : PageSource σ) : ℕ → ℕ → σ → σ
  | 0, _, s => s
  | k + 1, e, s => supplyAfter alloc k (e + PAGE_SIZE) (alloc e s).2

/-- The `k` pages from `e` on lie in the heap and are supplied. -/
def Supplied (alloc : PageSource σ) : ℕ → ℕ → σ → Prop
  | 0, _, _ => True
  | k + 1, e, s => e + PAGE_SIZE ≤ HEAP_MAX_ADDR ∧ (alloc e s).1 ≠ none ∧
      Supplied alloc k (e + PAGE_SIZE) (alloc e s).2

theorem supplied_succ {k e : ℕ} : Supplied alloc (k + 1) e s ↔ Supplied alloc k e s ∧
    e + PAGE_SIZE * k + PAGE_SIZE ≤ HEAP_MAX_ADDR ∧
      (alloc (e + PAGE_SIZE * k) (supplyAfter alloc k e s)).1 ≠ none := by
  induction k generalizing e s with
  | zero => simp [Supplied, supplyAfter]
  | succ k ih =>
      have hnext : e + PAGE_SIZE + PAGE_SIZE * k = e + PAGE_SIZE * (k + 1) := by ring
      rw [Supplied, ih, hnext, Supplied]
      simp only [supplyAfter, and_assoc]

theorem Supplied.mono {j k e : ℕ} (h : Supplied alloc k e s) (hj : j ≤ k) :
    Supplied alloc j e s := by
  induction hj with
  | refl => exact h
  | step _ ih => exact ih (supplied_succ.1 h).1

/-- A call that returns `r` has grown the heap by `k` pages, one by one for as long as nothing
fitted. -/
structure Grew (alloc : PageSource σ) (n : ℕ) (h : State) (s : σ) (bs : List Block) (k : ℕ)
    (r : ℕ × State × σ) : Prop where
  full : ∀ j < k, Full n (extendBlocks bs h.heapCurrentEnd j)
  supplied : Supplied alloc k h.heapCurrentEnd s
  end_eq : r.2.1.heapCurrentEnd = h.heapCurrentEnd + PAGE_SIZE * k

/-- After `k` pages the block `b` was the first that fitted. -/
structure Took (alloc : PageSource σ) (n : ℕ) (h : State) (s : σ) (bs : List Block) (k : ℕ)
    (us : List Block) (b : Block) (vs : List Block) (r : ℕ × State × σ) : Prop
    extends Grew alloc n h s bs k r where
  split : extendBlocks bs h.heapCurrentEnd k = us ++ b :: vs
  layout : Layout (us ++ b :: vs) r.2.1.heapCurrentEnd
  fit : FirstFit n us b
  ptr : r.1 = b.addr + 16
  supply : r.2.2 = supplyAfter alloc k h.heapCurrentEnd s

/-- After `k` pages no block fitted, and the heap could not grow. -/
structure Failed (alloc : PageSource σ) (n : ℕ) (h : State) (s : σ) (bs : List Block) (k : ℕ)
    (r : ℕ × State × σ) : Prop extends Grew alloc n h s bs k r where
  ok : Ok r.2.1 (extendBlocks bs h.heapCurrentEnd k)
  full_end : Full n (extendBlocks bs h.heapCurrentEnd k)
  ptr : r.1 = 0
  stuck : HEAP_MAX_ADDR < h.heapCurrentEnd + PAGE_SIZE * k + PAGE_SIZE ∧
      r.2.2 = supplyAfter alloc k h.heapCurrentEnd s ∨
    h.heapCurrentEnd + PAGE_SIZE * k + PAGE_SIZE ≤ HEAP_MAX_ADDR ∧
      alloc (h.heapCurrentEnd + PAGE_SIZE * k) (supplyAfter alloc k h.heapCurrentEnd s) =
        (none, r.2.2)

/-- One page before the growth of a retry. -/
theorem Grew.cons {n k : ℕ} {g : State} {r : ℕ × State × σ} (hne : bs ≠ []) (hfull : Full n bs)
    (hmax : h.heapCurrentEnd + PAGE_SIZE ≤ HEAP_MAX_ADDR)
    (hpage : (alloc h.heapCurrentEnd s).1 ≠ none)
    (hend : g.heapCurrentEnd = h.heapCurrentEnd + PAGE_SIZE)
    (hg : Grew alloc n g (alloc h.heapCurrentEnd s).2 (extendBlocks bs h.heapCurrentEnd 1) k r) :
    Grew alloc n h s bs (k + 1) r := by
  obtain ⟨h1, h2, h3⟩ := hg
  rw [hend] at h1 h2 h3
  refine ⟨fun j hj => ?_, ⟨hmax, hpage, h2⟩, ?_⟩
  · cases j with
    | zero => simpa using hfull
    | succ j =>
        have := h1 j (by omega)
        rwa [extendBlocks_succ hne] at this
  · rw [h3]
    ring

theorem kmalloc_outcome (alloc : PageSource σ) (s : σ) (hok : Ok h bs) (h0 : bytes ≠ 0) :
    (∃ k us b vs, Took alloc (alignedSize bytes) h s bs k us b vs (kmalloc alloc bytes h s)) ∨
      ∃ k, Failed alloc (alignedSize bytes) h s bs k (kmalloc alloc bytes h s) := by
  -- on the number of pages by which the heap can still grow
  induction hg : growFuel h generalizing h s bs with
  | zero => exact absurd hg (Nat.succ_ne_zero _)
  | succ n ih =>
      rw [kmalloc_eq hok]
      rcases kmallocBody_cases alloc bytes s hok with
        ⟨s', ⟨h0', _⟩ | ⟨hfull, hstuck⟩, hr⟩ | ⟨us, b, vs, rfl, hfit, hr⟩ |
          ⟨page, ⟨hfull, hpage⟩, hmax, hr⟩
      · exact absurd h0' h0
      · rw [hr]
        refine Or.inr ⟨0, ⟨⟨by simp, trivial, rfl⟩, ?_, ?_, rfl, ?_⟩⟩
        · rwa [extendBlocks_zero]
        · rwa [extendBlocks_zero]
        · rcases hstuck with ⟨hmax, rfl⟩ | ⟨hmax, hnone⟩
          · exact Or.inl ⟨hmax, rfl⟩
          · exact Or.inr ⟨hmax, hnone⟩
      · rw [hr]
        exact Or.inl ⟨0, us, b, vs,
          ⟨⟨by simp, trivial, rfl⟩, by simp, hok.layout, hfit, rfl, rfl⟩⟩
      · rw [hr]
        obtain ⟨hok', hend, -, -⟩ := grow_ok hok hmax page
        have hne := hok.layout.nonempty
        have hpage' : (alloc h.heapCurrentEnd s).1 ≠ none := by simp [hpage]
        have hless : growFuel (grow h ((bs.map Block.addr).getLastD 0) page) = n := by
          unfold growFuel at hg ⊢
          rw [hend]
          simp only [HEAP_MAX_ADDR, PAGE_SIZE] at hg hmax ⊢
          omega
        rcases ih (alloc h.heapCurrentEnd s).2 hok' hless with
          ⟨k, us, b, vs, ht⟩ | ⟨k, hf⟩
        · refine Or.inl ⟨k + 1, us, b, vs, ⟨ht.toGrew.cons hne hfull hmax hpage' hend, ?_, ht.layout,
            ht.fit, ht.ptr, ?_⟩⟩
          · rw [← ht.split, hend, extendBlocks_succ hne]
          · rw [ht.supply, hend]
            rfl
        · have hnext : h.heapCurrentEnd + PAGE_SIZE + PAGE_SIZE * k =
              h.heapCurrentEnd + PAGE_SIZE * (k + 1) := by ring
          have hok'' := hf.ok
          have hend'' := hf.full_end
          have hstuck := hf.stuck
          rw [hend, extendBlocks_succ hne] at hok'' hend''
          rw [hend, hnext] at hstuck
          exact Or.inr ⟨k + 1, ⟨hf.toGrew.cons hne hfull hmax hpage' hend, hok'', hend'', hf.ptr,
            hstuck⟩⟩

/-- By how many pages the heap has to grow for a block of `n` bytes if none fits. -/
def pagesNeeded (bs : List Block) (n : ℕ) : ℕ :=
  match bs.getLast? with
  | some b =>
      if b.free then (n - b.size + (PAGE_SIZE - 1)) / PAGE_SIZE
      else (n + 16 + (PAGE_SIZE - 1)) / PAGE_SIZE
  | none => 0

/-- With a page more or less, the last block is the only one that can come to fit. -/
theorem pagesNeeded_le_iff (hne : bs ≠ []) {n : ℕ} (hfull : Full n bs) (e : ℕ) {k : ℕ} :
    pagesNeeded bs n ≤ k ↔ ∃ b ∈ extendBlocks bs e k, Fits n b := by
  obtain ⟨xs, b, rfl⟩ : ∃ xs b, bs = xs ++ [b] :=
    ⟨bs.dropLast, bs.getLast hne, (List.dropLast_append_getLast hne).symm⟩
  have hx : ∀ c ∈ xs, ¬ Fits n c := fun c hc => hfull c (by simp [hc])
  have hb := hfull b (by simp)
  have hp : pagesNeeded (xs ++ [b]) n = if b.free then (n - b.size + (PAGE_SIZE - 1)) / PAGE_SIZE
      else (n + 16 + (PAGE_SIZE - 1)) / PAGE_SIZE := by
    simp [pagesNeeded]
  rw [hp]
  by_cases hk : k = 0
  · rw [hk, extendBlocks_zero]
    refine iff_of_false ?_ fun ⟨c, hc, hfit⟩ => hfull c hc hfit
    cases hf : b.free with
    | true =>
        unfold Fits at hb
        simp only [hf, true_and, not_le] at hb
        simp only [if_true, PAGE_SIZE]
        omega
    | false =>
        simp only [Bool.false_eq_true, if_false, PAGE_SIZE]
        omega
  · cases hf : b.free with
    | true =>
        rw [extendBlocks_of_free hf hk]
        have hlast : (∃ c ∈ xs ++ [{ b with size := b.size + PAGE_SIZE * k }], Fits n c) ↔
            n ≤ b.size + PAGE_SIZE * k := by
          constructor
          · rintro ⟨c, hc, hfit⟩
            rcases List.mem_append.1 hc with hc | hc
            · exact absurd hfit (hx c hc)
            · rw [List.mem_singleton.1 hc] at hfit
              exact hfit.2
          · exact fun hn => ⟨{ b with size := b.size + PAGE_SIZE * k }, by simp, hf, hn⟩
        rw [hlast]
        simp only [if_true, PAGE_SIZE]
        omega
    | false =>
        rw [extendBlocks_of_used hf hk]
        have hlast : (∃ c ∈ (xs ++ [b]) ++ [⟨e, PAGE_SIZE * k - 16, true⟩], Fits n c) ↔
            n ≤ PAGE_SIZE * k - 16 := by
          constructor
          · rintro ⟨c, hc, hfit⟩
            rcases List.mem_append.1 hc with hc | hc
            · exact absurd hfit (hfull c hc)
            · rw [List.mem_singleton.1 hc] at hfit
              exact hfit.2
          · exact fun hn => ⟨⟨e, PAGE_SIZE * k - 16, true⟩, by simp, rfl, hn⟩
        rw [hlast]
        simp only [Bool.false_eq_true, if_false, PAGE_SIZE]
        omega

/-- The block taken is the lowest one that fits, after the least number of pages. -/
theorem Took.isLeast {n k : ℕ} {us vs : List Block} {b : Block} {r : ℕ × State × σ}
    (ht : Took alloc n h s bs k us b vs r) :
    IsLeast {k | ∃ b ∈ extendBlocks bs h.heapCurrentEnd k, Fits n b} k ∧
      IsLeast {p | ∃ b ∈ extendBlocks bs h.heapCurrentEnd k, Fits n b ∧ p = b.addr + 16} r.1 := by
  have hmem : b ∈ extendBlocks bs h.heapCurrentEnd k := by simp [ht.split]
  refine ⟨⟨⟨b, hmem, ht.fit.fits⟩, ?_⟩, ⟨b, hmem, ht.fit.fits, ht.ptr⟩, ?_⟩
  · rintro j ⟨c, hc, hfit⟩
    by_contra hlt
    exact ht.full j (by omega) c hc hfit
  · rintro p ⟨c, hc, hfit, rfl⟩
    rw [ht.ptr]
    rw [ht.split] at hc
    rcases List.mem_append.1 hc with hc | hc
    · exact absurd hfit (ht.fit.first c hc)
    · rcases List.mem_cons.1 hc with rfl | hc
      · exact le_refl _
      · have := ht.layout.tiles.around.2 c hc
        omega

/-! ### The bounds of the loops -/

/-- The search does not depend on its bound. -/
theorem findBlock_bound {m : Mem} {n i j p : ℕ} {xs ys : List Block} (hh : Holds m (xs ++ ys))
    (hi : ys.length < i) (hj : ys.length < j) :
    findBlock m n i ((ys.map Block.addr).headD 0) p =
      findBlock m n j ((ys.map Block.addr).headD 0) p := by
  induction ys generalizing xs i j p with
  | nil =>
      obtain ⟨i, rfl⟩ : ∃ k, i = k + 1 := ⟨i - 1, by simp at hi; omega⟩
      obtain ⟨j, rfl⟩ : ∃ k, j = k + 1 := ⟨j - 1, by simp at hj; omega⟩
      simp [findBlock]
  | cons b ys ih =>
      obtain ⟨i, rfl⟩ : ∃ k, i = k + 1 := ⟨i - 1, by simp at hi; omega⟩
      obtain ⟨j, rfl⟩ : ∃ k, j = k + 1 := ⟨j - 1, by simp at hj; omega⟩
      have hh' : Holds m ((xs ++ [b]) ++ ys) := by simpa using hh
      simp only [List.map_cons, List.headD_cons, findBlock, hh.neighbours.1]
      rw [ih hh' (by simpa using hi) (by simpa using hj)]

/-- `kmalloc` with at most `search` steps of each search and a given recursion depth, below which
`bottom` is called. -/
def kmallocBounded (alloc : PageSource σ) (bytes : UInt32) (search : ℕ)
    (bottom : State → σ → ℕ × State × σ) : ℕ → State → σ → ℕ × State × σ
  | 0, h, s => bottom h s
  | depth + 1, h, s =>
      if bytes = 0 then (0, h, s)
      else
        kmallocFound alloc bytes (kmallocBounded alloc bytes search bottom depth) h s
          (findBlock h.mem (alignedSize bytes) search h.heapHead 0)

/-- More blocks do not fit into the heap. -/
def searchBound : ℕ := (HEAP_MAX_ADDR - HEAP_START) / HEADER_SIZE + 1

theorem Ok.length_lt (hok : Ok h bs) : bs.length < searchFuel h ∧ bs.length < searchBound := by
  have h1 := hok.layout.tiles.le
  have h2 := hok.layout.le
  unfold searchFuel searchBound
  rw [headerSize_eq]
  omega

/-- Both loops end: with larger bounds `kmalloc` returns the same, and whatever is below the
recursion depth is never called. -/
theorem kmallocBounded_eq (hok : Ok h bs) {search depth : ℕ} (hsearch : searchBound ≤ search)
    (hdepth : growFuel h ≤ depth) (bottom : State → σ → ℕ × State × σ) :
    kmallocBounded alloc bytes search bottom depth h s = kmalloc alloc bytes h s := by
  induction depth generalizing h s bs with
  | zero => exact absurd hdepth (Nat.not_succ_le_zero _)
  | succ depth ih =>
      have hstart : h.heapHead = (bs.map Block.addr).headD 0 := by
        obtain ⟨b, t, rfl⟩ := List.exists_cons_of_ne_nil hok.layout.nonempty
        exact hok.head.trans hok.layout.tiles.1.symm
      have hbody : kmallocBounded alloc bytes search bottom (depth + 1) h s =
          kmallocBody alloc bytes (kmallocBounded alloc bytes search bottom depth) h s := by
        obtain ⟨h1, h2⟩ := hok.length_lt
        unfold kmallocBounded kmallocBody
        rw [hstart, findBlock_bound (show Holds h.mem ([] ++ bs) from hok.holds)
          (h2.trans_le hsearch) h1]
      rw [hbody, kmalloc_eq hok]
      rcases kmallocBody_cases alloc bytes s hok with
        ⟨s', _, hr⟩ | ⟨us, b, vs, _, _, hr⟩ | ⟨page, _, hmax, hr⟩
      · rw [hr, hr]
      · rw [hr, hr]
      · obtain ⟨hok', hend, -, -⟩ := grow_ok hok hmax page
        rw [hr, hr]
        refine ih hok' ?_
        unfold growFuel at hdepth ⊢
        rw [hend]
        simp only [HEAP_MAX_ADDR, PAGE_SIZE] at hdepth hmax ⊢
        omega

end outcome

/-! ### The size that was asked for -/

/-- The pointer `p` heads a block in use of at least `size` bytes, and these are in no other
block. -/
structure Delivers (h : State) (p size : ℕ) : Prop where
  heads : ∃ b ∈ blockList h, b.addr + HEADER_SIZE = p ∧ b.free = false
  le : size ≤ payloadSize h p
  apart : ∀ b ∈ blockList h, b.addr + HEADER_SIZE ≠ p →
    p + size ≤ b.addr ∨ b.addr + HEADER_SIZE + b.size ≤ p

theorem toNat_alignedSize {bytes : UInt32} (h : bytes ≤ 0xFFFFFFFC) :
    alignedSize bytes = (bytes.toNat + 3) / 4 * 4 := by
  have hle : bytes.toNat ≤ 0xFFFFFFFC := h
  have h3 : (3 : UInt32).toNat = 3 := rfl
  have h4 : (4 : UInt32).toNat = 4 := rfl
  unfold alignedSize
  rw [UInt32.toNat_mul, UInt32.toNat_div, UInt32.toNat_add, h3, h4]
  omega

theorem alignedSize_wrap {bytes : UInt32} (h : ¬ bytes ≤ 0xFFFFFFFC) : alignedSize bytes = 0 := by
  have hlt := bytes.toNat_lt
  have hle : ¬ bytes.toNat ≤ 0xFFFFFFFC := h
  have h3 : (3 : UInt32).toNat = 3 := rfl
  have h4 : (4 : UInt32).toNat = 4 := rfl
  unfold alignedSize
  rw [UInt32.toNat_mul, UInt32.toNat_div, UInt32.toNat_add, h3, h4]
  omega

theorem exists_header {p : ℕ} {bs : List Block} {x : Header} (hx : x ∈ headers p bs) :
    ∃ b ∈ bs, x.addr = b.addr ∧ x.size = b.size ∧ x.free = b.free := by
  have hmem := List.mem_map_of_mem (f := fun x : Header => (⟨x.addr, x.size, x.free⟩ : Block)) hx
  rw [map_headers] at hmem
  exact ⟨_, hmem, rfl, rfl, rfl⟩

section delivers
variable {σ : Type} {h : State} {bs : List Block} {b : Block} {size : ℕ}

/-- A block in use that is large enough. -/
theorem Ok.delivers (hok : Ok h bs) (hb : Used bs b) (hs : size ≤ b.size) :
    Delivers h (b.addr + 16) size := by
  have hlist := hok.blockList
  refine ⟨?_, ?_, fun x hx hne => ?_⟩
  · have hmem := hb.1
    rw [← map_headers 0 bs, ← hlist] at hmem
    obtain ⟨x, hx, rfl⟩ := List.mem_map.1 hmem
    exact ⟨x, hx, by rw [headerSize_eq], hb.2⟩
  · rw [hok.payloadSize hb]
    exact hs
  · rw [hlist] at hx
    obtain ⟨c, hc, h1, h2, -⟩ := exists_header hx
    rw [headerSize_eq, h1] at hne
    rw [headerSize_eq, h1, h2]
    rcases hok.layout.tiles.apart hb.1 hc with rfl | h' | h'
    · exact absurd rfl hne
    · exact Or.inl (by omega)
    · exact Or.inr (by omega)

/-- No block is larger than the heap. -/
theorem Delivers.lt (hok : Ok h bs) {p : ℕ} (hd : Delivers h p size) : size < 0x20000000 := by
  obtain ⟨⟨x, hx, rfl, hf⟩, hle, -⟩ := hd
  rw [hok.blockList] at hx
  obtain ⟨c, hc, h1, -, h3⟩ := exists_header hx
  have hused : Used bs c := ⟨hc, h3 ▸ hf⟩
  have hbound := hok.layout.addr_pos hc
  rw [headerSize_eq, h1, hok.payloadSize hused] at hle
  omega

end delivers

namespace RunState

/-- **`kmalloc` delivers what was asked for**, after any run, exactly when rounding the size up
does not wrap, or when all blocks are in use and there is no page, so that it returns null. -/
theorem run_delivers_iff {σ : Type} (alloc : PageSource σ) (m : Mem) (s : σ) (calls : List Call)
    (bytes : UInt32) :
    let st := run alloc (start m s) calls
    let r := Heap.kmalloc alloc bytes st.heap st.pager
    (r.1 ≠ 0 → Delivers r.2.1 r.1 bytes.toNat) ↔
      bytes ≤ 0xFFFFFFFC ∨ (∀ b ∈ blocks st.heap, b.free = false) ∧
        (HEAP_MAX_ADDR < st.heap.heapCurrentEnd + PAGE_SIZE ∨
          (alloc st.heap.heapCurrentEnd st.pager).1 = none) := by
  intro st r
  obtain ⟨bs, h⟩ := run_inv alloc m s calls
  rw [h.ok.blocks]
  obtain ⟨bs', hok', hres, -⟩ := kmalloc_spec alloc bytes st.pager h.ok
  by_cases hle : bytes ≤ 0xFFFFFFFC
  · refine iff_of_true (fun hne => ?_) (Or.inl hle)
    rcases hres with ⟨h0, -⟩ | ⟨c, hp, hsize, -, hused⟩
    · exact absurd h0 hne
    · rw [toNat_alignedSize hle] at hsize
      rw [hp]
      exact hok'.delivers ((hused c).2 (Or.inl rfl)) (by omega)
  · -- the size wraps to `0`, which every free block fits
    have hwrap := alignedSize_wrap hle
    have h0 : bytes ≠ 0 := by
      rintro rfl
      exact hle (by decide)
    have hgt : ¬ bytes.toNat ≤ 0xFFFFFFFC := hle
    obtain ⟨hzero, -⟩ := kmalloc_eq_zero_iff h.ok alloc st.pager h0 (by rw [hwrap]; decide)
    have hfits : (∀ b ∈ bs, ¬ Fits (alignedSize bytes) b) ↔ ∀ b ∈ bs, b.free = false := by
      simp [Fits, hwrap]
    rw [hfits] at hzero
    constructor
    · intro hdel
      refine Or.inr (hzero.1 ?_)
      by_contra hne
      have := (hdel hne).lt hok'
      omega
    · rintro (hle' | hstuck)
      · exact absurd hle' hle
      · exact fun hne => absurd (hzero.2 hstuck) hne

/-- The largest sizes wrap to nothing: on the new heap they get a block of size `0`. -/
theorem largest_size_wraps :
    ¬ ∀ (m : Mem) (calls : List Call) (bytes : UInt32),
      let st := run (fun _ s => (none, s)) (start m ()) calls
      let r := Heap.kmalloc (fun _ s => (none, s)) bytes st.heap st.pager
      r.1 ≠ 0 → Delivers r.2.1 r.1 bytes.toNat := by
  intro hall
  have hok := initHeap_ok fun _ => 0
  have hfit : Fits (alignedSize 0xFFFFFFFD) ⟨HEAP_START, 4096 - 16, true⟩ := ⟨rfl, by decide⟩
  have hne := hfit.kmalloc_ne_zero hok (fun _ s => (none, s)) () (by decide)
    (List.mem_singleton_self _)
  obtain ⟨bs', hok', -, -⟩ := kmalloc_spec (fun _ s => (none, s)) 0xFFFFFFFD () hok
  have hlt := (hall (fun _ => 0) [] 0xFFFFFFFD hne).lt hok'
  exact absurd hlt (by decide)

end RunState

end NosmeriOs.Heap
