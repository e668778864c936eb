import NosmeriOs.HeapBlocks

/-! # Runs of the heap

`Ok h bs` is the representation invariant of the heap: `bs` are its blocks.  `kmalloc_spec` and
`kfree_spec` say what the two functions do to it, to the set of blocks in use and to their
payloads; a run alternates calls with writes of the owners into their payloads. -/

namespace NosmeriOs.Heap

open Memory

/-- The heap consists of the blocks `bs`. -/
structure Ok (h : State) (bs : List Block) : Prop where
  head : h.heapHead = HEAP_START
  layout : Layout bs h.heapCurrentEnd
  alternates : Alternates bs
  holds : Holds h.mem bs

/-- A block in use. -/
def Used (bs : List Block) (b : Block) : Prop := b ∈ bs ∧ b.free = false

/-- A byte of the payload of a block in use. -/
def Payload (bs : List Block) (x : ℕ) : Prop :=
  ∃ b, Used bs b ∧ b.addr + 16 ≤ x ∧ x < b.addr + 16 + b.size

theorem used_append_cons {xs ys : List Block} {b c : Block} :
    Used (xs ++ b :: ys) c ↔ (c = b ∧ b.free = false) ∨ Used xs c ∨ Used ys c := by
  unfold Used
  simp only [List.mem_append, List.mem_cons]
  constructor
  · rintro ⟨h | rfl | h, hf⟩
    · exact Or.inr (Or.inl ⟨h, hf⟩)
    · exact Or.inl ⟨rfl, hf⟩
    · exact Or.inr (Or.inr ⟨h, hf⟩)
  · rintro (⟨rfl, hf⟩ | ⟨h, hf⟩ | ⟨h, hf⟩)
    · exact ⟨Or.inr (Or.inl rfl), hf⟩
    · exact ⟨Or.inl h, hf⟩
    · exact ⟨Or.inr (Or.inr h), hf⟩

theorem used_cons {ys : List Block} {b c : Block} :
    Used (b :: ys) c ↔ (c = b ∧ b.free = false) ∨ Used ys c := by
  rw [← List.nil_append (b :: ys), used_append_cons]
  simp [Used]

/-- A payload byte is in no header, in no free block, and below the end of the heap. -/
theorem Payload.outside {bs : List Block} {e x : ℕ} (hl : Layout bs e) (hx : Payload bs x) :
    x < e ∧ ∀ c ∈ bs, Outside x c.addr ∧
      (c.free = true → x < c.addr ∨ c.addr + 16 + c.size ≤ x) := by
  obtain ⟨b, ⟨hb, hf⟩, h1, h2⟩ := hx
  have hbound := (hl.tiles.bounds hb).2
  refine ⟨by omega, fun c hc => ?_⟩
  unfold Outside
  rcases hl.tiles.apart hb hc with rfl | h | h
  · exact ⟨by omega, fun hfree => by rw [hf] at hfree; cases hfree⟩
  · exact ⟨by omega, fun _ => by omega⟩
  · exact ⟨by omega, fun _ => by omega⟩

/-- Two blocks in use at the same address are the same block. -/
theorem Layout.eq_of_addr {bs : List Block} {e : ℕ} (hl : Layout bs e) {b c : Block}
    (hb : b ∈ bs) (hc : c ∈ bs) (h : b.addr = c.addr) : b = c := by
  rcases hl.tiles.apart hb hc with h' | h' | h'
  · exact h'
  · omega
  · omega

/-! ### The search -/

/-- The test of the search loop. -/
def Fits (n : ℕ) (b : Block) : Prop := b.free = true ∧ n ≤ b.size

/-- `b` fits, and none of the blocks `us` before it does. -/
structure FirstFit (n : ℕ) (us : List Block) (b : Block) : Prop where
  fits : Fits n b
  first : ∀ c ∈ us, ¬ Fits n c

/-- The search visits the blocks in order and stops at the first fitting one; if there is none
it ends with the last block as `prevBlock`. -/
theorem findBlock_spec {m : Mem} {n fuel a p : ℕ} {xs ys : List Block} (h : Holds m (xs ++ ys))
    (ha : a = (ys.map Block.addr).headD 0) (hp : p = (xs.map Block.addr).getLastD 0)
    (hpos : ∀ b ∈ ys, b.addr ≠ 0) (hfuel : ys.length < fuel) :
    (∃ us b vs q, ys = us ++ b :: vs ∧ FirstFit n us b ∧ findBlock m n fuel a p = (b.addr, q)) ∨
    (∀ b ∈ ys, ¬ Fits n b) ∧
      findBlock m n fuel a p = (0, ((xs ++ ys).map Block.addr).getLastD 0) := by
  subst ha hp
  induction ys generalizing xs fuel with
  | nil =>
      obtain ⟨k, rfl⟩ : ∃ k, fuel = k + 1 := ⟨fuel - 1, by simp at hfuel; omega⟩
      exact Or.inr ⟨by simp, by simp [findBlock]⟩
  | cons b ys ih =>
      obtain ⟨k, rfl⟩ : ∃ k, fuel = k + 1 := ⟨fuel - 1, by simp at hfuel; omega⟩
      have hb := hpos b (List.mem_cons_self ..)
      have hs := h.size b (by simp)
      have hf := h.free b (by simp)
      have hn := h.neighbours.1
      simp only [List.map_cons, List.headD_cons, findBlock, hb, if_false, hs, hf]
      by_cases hfit : b.free = true ∧ n ≤ b.size
      · rw [if_pos hfit]
        exact Or.inl ⟨[], b, ys, _, rfl, ⟨hfit, by simp⟩, rfl⟩
      · rw [if_neg hfit, hn]
        have hcat : xs ++ b :: ys = (xs ++ [b]) ++ ys := by simp
        have hlast : ((xs ++ [b]).map Block.addr).getLastD 0 = b.addr := by simp
        rw [hcat] at h ⊢
        have hk : ys.length < k := by
          simp only [List.length_cons] at hfuel
          omega
        have hrest := ih h (fun c hc => hpos c (List.mem_cons_of_mem _ hc)) hk
        rw [hlast] at hrest
        rcases hrest with ⟨us, c, vs, q, rfl, hc, he⟩ | ⟨hno, he⟩
        · refine Or.inl ⟨b :: us, c, vs, q, rfl, ⟨hc.fits, fun d hd => ?_⟩, he⟩
          rcases List.mem_cons.mp hd with rfl | hd
          · exact hfit
          · exact hc.first d hd
        · refine Or.inr ⟨fun c hc => ?_, he⟩
          rcases List.mem_cons.mp hc with rfl | hc
          · exact hfit
          · exact hno c hc

/-! ### Taking a block -/

theorem splitBlock_other {m : Mem} {w n x : ℕ} (hw : w + n + 16 < 2 ^ 32) (h1 : Outside x w)
    (h2 : Outside x (w + n + 16)) (h3 : next m w ≠ 0 → Outside x (next m w)) :
    splitBlock m w n x = m x := by
  rw [splitBlock_eq hw]
  simp only
  rw [setSize_other _ h1, setNext_other _ h1]
  by_cases h0 : next m w = 0
  · rw [if_neg (not_not.mpr h0), setPrev_other _ h2, setNext_other _ h2, setFree_other _ h2,
      setSize_other _ h2]
  · rw [if_pos h0, setPrev_other _ (h3 h0), setPrev_other _ h2, setNext_other _ h2,
      setFree_other _ h2, setSize_other _ h2]

theorem Holds.next_mem {m : Mem} {xs ys : List Block} {b : Block} (h : Holds m (xs ++ b :: ys))
    (hne : Heap.next m b.addr ≠ 0) : ∃ y t, ys = y :: t ∧ Heap.next m b.addr = y.addr := by
  have hnext := h.neighbours.1
  cases ys with
  | nil => exact absurd hnext hne
  | cons y t => exact ⟨y, t, rfl, hnext⟩

theorem alignedSize_mod (bytes : UInt32) : alignedSize bytes % 4 = 0 := by
  unfold alignedSize
  rw [UInt32.toNat_mul, UInt32.toNat_div]
  have h4 : (4 : UInt32).toNat = 4 := rfl
  rw [h4]
  have h3 : (bytes + 3).toNat < 2 ^ 32 := UInt32.toNat_lt _
  omega

section take
variable {h : State} {xs ys : List Block} {b : Block} {n : ℕ}

/-- A fitting block is taken as it is or its front is. -/
theorem takeBlock_spec (hok : Ok h (xs ++ b :: ys)) (hfit : Fits n b) (hn : n % 4 = 0) :
    ∃ bs c, Ok { h with mem := takeBlock h.mem b.addr n } bs ∧ c.addr = b.addr ∧ n ≤ c.size ∧
      (∀ d, Used bs d ↔ d = c ∨ Used (xs ++ b :: ys) d) ∧
      (∀ x, Payload (xs ++ b :: ys) x → takeBlock h.mem b.addr n x = h.mem x) ∧
      ∀ d ∈ xs ++ b :: ys, d.free = true → n + 20 ≤ d.size →
        ∃ d' ∈ bs, d'.free = true ∧ d.size - (n + 16) ≤ d'.size := by
  obtain ⟨hhead, hl, ha, hh⟩ := hok
  obtain ⟨hfree, hsize⟩ := hfit
  have hb := hl.addr_pos (b := b) (by simp)
  have hsb := hh.size b (by simp)
  obtain ⟨hax, hay, _, hby⟩ := alternates_append_cons.mp ha
  rw [hfree] at hby
  simp only [true_and] at hby
  unfold takeBlock
  simp only [headerSize_eq, hsb]
  by_cases hsplit : 16 + 4 ≤ b.size - n
  · rw [if_pos hsplit]
    have hl' := hl.split (n := n) (by omega) hn b.free true
    have hh' := hh.split hl (n := n) (by omega)
    have hused : ∀ d, Used (xs ++ ⟨b.addr, n, false⟩ ::
        ⟨b.addr + n + 16, b.size - n - 16, true⟩ :: ys) d ↔
        d = ⟨b.addr, n, false⟩ ∨ Used (xs ++ b :: ys) d := fun d => by
      rw [used_append_cons, used_cons, used_append_cons, hfree]
      simp
    refine ⟨_, ⟨b.addr, n, false⟩, ⟨hhead, hl'.setFree false, ?_, hh'.setFree hl' false⟩, rfl,
      le_refl _, hused, fun x hx => ?_, fun d hd hdf hds => ?_⟩
    · refine alternates_append_cons.mpr ⟨hax, ?_, by simp, by simp⟩
      exact alternates_cons.mpr ⟨hay, by simpa using hby⟩
    · obtain ⟨_, hout⟩ := hx.outside hl
      obtain ⟨hxb, hxf⟩ := hout b (by simp)
      have hxf := hxf hfree
      rw [setFree_other _ hxb]
      refine splitBlock_other (by omega) hxb ?_ fun hne => ?_
      · unfold Outside
        omega
      · obtain ⟨y, t, rfl, he⟩ := hh.next_mem hne
        rw [he]
        exact (hout y (by simp)).1
    · -- the rest of the block, or another one
      by_cases hdb : d = b
      · exact ⟨⟨b.addr + n + 16, b.size - n - 16, true⟩, by simp, rfl, by rw [hdb]; simp; omega⟩
      · have hd' : d ∈ xs ∨ d ∈ ys := by simpa [hdb] using hd
        exact ⟨d, by simp only [List.mem_append, List.mem_cons]; tauto, hdf, Nat.sub_le ..⟩
  · rw [if_neg hsplit]
    refine ⟨_, { b with free := false }, ⟨hhead, hl.setFree false, ?_, hh.setFree hl false⟩, rfl,
      hsize, fun d => ?_, fun x hx => ?_, fun d hd hdf hds => ?_⟩
    · exact alternates_append_cons.mpr ⟨hax, hay, by simp, by simp⟩
    · rw [used_append_cons, used_append_cons, hfree]
      simp
    · exact setFree_other _ ((hx.outside hl).2 b (by simp)).1 _
    · have hdb : d ≠ b := by
        rintro rfl
        omega
      have hd' : d ∈ xs ∨ d ∈ ys := by simpa [hdb] using hd
      exact ⟨d, by simp only [List.mem_append, List.mem_cons]; tauto, hdf, Nat.sub_le ..⟩

end take

/-! ### Growing -/

section grow
variable {h : State} {bs : List Block}

/-- The heap grows by a page. -/
theorem grow_ok (hok : Ok h bs) (he : h.heapCurrentEnd + PAGE_SIZE ≤ HEAP_MAX_ADDR)
    (page : ℕ → UInt8) :
    Ok (grow h ((bs.map Block.addr).getLastD 0) page) (extendBlocks bs h.heapCurrentEnd 1) ∧
      (grow h ((bs.map Block.addr).getLastD 0) page).heapCurrentEnd
        = h.heapCurrentEnd + PAGE_SIZE ∧
      (∀ d, Used (extendBlocks bs h.heapCurrentEnd 1) d ↔ Used bs d) ∧
      ∀ x, Payload bs x →
        (grow h ((bs.map Block.addr).getLastD 0) page).mem x = h.mem x := by
  obtain ⟨hhead, hl, ha, hh⟩ := hok
  obtain ⟨xs, b, rfl⟩ : ∃ xs b, bs = xs ++ [b] :=
    ⟨bs.dropLast, bs.getLast hl.nonempty, (List.dropLast_append_getLast hl.nonempty).symm⟩
  have hb := hl.addr_pos (b := b) (by simp)
  have hlast : ((xs ++ [b]).map Block.addr).getLastD 0 = b.addr := by simp
  have hend : (h.heapCurrentEnd + PAGE_SIZE) % 2 ^ 32 = h.heapCurrentEnd + PAGE_SIZE := by
    simp only [HEAP_MAX_ADDR] at he
    exact Nat.mod_eq_of_lt (by omega)
  have hmap : ∀ x, x < h.heapCurrentEnd →
      mapPage h.mem h.heapCurrentEnd page x = h.mem x := fun x hx => by
    unfold mapPage
    rw [if_neg (by omega)]
  have hh' := hh.mapPage hl page
  have hfree := hh'.free b (by simp)
  obtain ⟨hax, _, hxb, _⟩ := alternates_append_cons.mp ha
  unfold grow
  simp only [hlast, hend, hfree]
  by_cases hf : b.free = true
  · rw [if_pos ⟨by omega, hf⟩, extendBlocks_of_free hf one_ne_zero, mul_one]
    refine ⟨⟨hhead, hl.extend he, ?_, hh'.extend hl he⟩, trivial, fun d => ?_, fun x hx => ?_⟩
    · exact alternates_append_cons.mpr ⟨hax, List.isChain_nil, hxb, by simp⟩
    · rw [used_append_cons, used_append_cons, hf]
      simp
    · obtain ⟨hlt, hout⟩ := hx.outside hl
      rw [setSize_other _ (hout b (by simp)).1, hmap x hlt]
  · have hf' : b.free = false := by simpa using hf
    rw [if_neg (fun hc => hf hc.2), extendBlocks_of_used hf' one_ne_zero, mul_one]
    refine ⟨⟨hhead, hl.push he true, ?_, hh'.push hl he⟩, trivial, fun d => ?_, fun x hx => ?_⟩
    · exact alternates_append_cons.mpr ⟨ha, List.isChain_nil, by simpa using hf, by simp⟩
    · rw [used_append_cons]
      simp [Used]
    · obtain ⟨hlt, hout⟩ := hx.outside hl
      have hbout := (hout b (by simp)).1
      have heout : Outside x h.heapCurrentEnd := Or.inl hlt
      unfold newTail
      rw [setNext_other _ hbout, setPrev_other _ heout, setNext_other _ heout,
        setFree_other _ heout, setSize_other _ heout, hmap x hlt]

/-- With `k` more pages the last block is free and has the room of these, but for a header. -/
theorem exists_free_extendBlocks (hne : bs ≠ []) {e k : ℕ} (hk : k ≠ 0) :
    ∃ d ∈ extendBlocks bs e k, d.free = true ∧ PAGE_SIZE * k - 16 ≤ d.size := by
  obtain ⟨xs, b, rfl⟩ : ∃ xs b, bs = xs ++ [b] :=
    ⟨bs.dropLast, bs.getLast hne, (List.dropLast_append_getLast hne).symm⟩
  cases hb : b.free with
  | true =>
      rw [extendBlocks_of_free hb hk]
      refine ⟨{ b with size := b.size + PAGE_SIZE * k }, by simp, hb, ?_⟩
      dsimp only
      omega
  | false =>
      rw [extendBlocks_of_used hb hk]
      exact ⟨⟨e, PAGE_SIZE * k - 16, true⟩, by simp, rfl, le_refl _⟩

/-- The heap grows by a page with no change to the blocks in use. -/
theorem grow_spec (hok : Ok h bs) (he : h.heapCurrentEnd + PAGE_SIZE ≤ HEAP_MAX_ADDR)
    (page : ℕ → UInt8) :
    ∃ bs', Ok (grow h ((bs.map Block.addr).getLastD 0) page) bs' ∧
      (grow h ((bs.map Block.addr).getLastD 0) page).heapCurrentEnd
        = h.heapCurrentEnd + PAGE_SIZE ∧
      (∀ d, Used bs' d ↔ Used bs d) ∧
      (∀ x, Payload bs x →
        (grow h ((bs.map Block.addr).getLastD 0) page).mem x = h.mem x) ∧
      ∃ d ∈ bs', d.free = true ∧ PAGE_SIZE - 16 ≤ d.size := by
  obtain ⟨hok', hend, hused, hpay⟩ := grow_ok hok he page
  exact ⟨_, hok', hend, hused, hpay, exists_free_extendBlocks hok.layout.nonempty one_ne_zero⟩

end grow

/-! ### `kmalloc` -/

section kmalloc
variable {σ : Type} {alloc : PageSource σ} {bytes : UInt32}
  {h : State} {s : σ} {bs : List Block}

/-- What one pass through the body of `kmalloc` does: it fails, takes a block or grows the heap
and retries. -/
theorem kmallocBody_cases (alloc : PageSource σ) (bytes : UInt32) (s : σ)
    (hok : Ok h bs) :
    (∃ s', (bytes = 0 ∧ s' = s ∨ (∀ b ∈ bs, ¬ Fits (alignedSize bytes) b) ∧
        (HEAP_MAX_ADDR < h.heapCurrentEnd + PAGE_SIZE ∧ s' = s ∨
          h.heapCurrentEnd + PAGE_SIZE ≤ HEAP_MAX_ADDR ∧
            alloc h.heapCurrentEnd s = (none, s'))) ∧
      ∀ retry, kmallocBody alloc bytes retry h s = (0, h, s')) ∨
    (∃ xs b ys, bs = xs ++ b :: ys ∧ FirstFit (alignedSize bytes) xs b ∧
      ∀ retry, kmallocBody alloc bytes retry h s =
        (b.addr + 16, { h with mem := takeBlock h.mem b.addr (alignedSize bytes) }, s)) ∨
    ∃ page, ((∀ b ∈ bs, ¬ Fits (alignedSize bytes) b) ∧
        (alloc h.heapCurrentEnd s).1 = some page) ∧
      h.heapCurrentEnd + PAGE_SIZE ≤ HEAP_MAX_ADDR ∧
      ∀ retry, kmallocBody alloc bytes retry h s =
        retry (grow h ((bs.map Block.addr).getLastD 0) page) (alloc h.heapCurrentEnd s).2 := by
  obtain ⟨hhead, hl, ha, hh⟩ := hok
  have hpos : ∀ b ∈ bs, b.addr ≠ 0 := fun b hb => by
    have := hl.addr_pos hb
    omega
  have hfuel : bs.length < searchFuel h := by
    have := hl.tiles.le
    unfold searchFuel
    rw [headerSize_eq]
    omega
  have hstart : h.heapHead = (bs.map Block.addr).headD 0 := by
    cases bs with
    | nil => exact absurd rfl hl.nonempty
    | cons b bs => exact hhead.trans hl.tiles.1.symm
  have hmod : (h.heapCurrentEnd + PAGE_SIZE) % 2 ^ 32 = h.heapCurrentEnd + PAGE_SIZE := by
    have := hl.le
    simp only [HEAP_MAX_ADDR, PAGE_SIZE] at this ⊢
    exact Nat.mod_eq_of_lt (by omega)
  unfold kmallocBody
  by_cases h0 : bytes = 0
  · exact Or.inl ⟨s, Or.inl ⟨h0, rfl⟩, fun _ => if_pos h0⟩
  · simp only [if_neg h0]
    rcases findBlock_spec (n := alignedSize bytes) (p := 0)
      (show Holds h.mem ([] ++ bs) from hh) hstart rfl hpos hfuel with
      ⟨us, b, vs, q, rfl, hfit, he⟩ | ⟨hnone, he⟩
    · have hb := hl.addr_pos (b := b) (by simp)
      refine Or.inr (Or.inl ⟨us, b, vs, rfl, hfit, fun retry => ?_⟩)
      rw [he]
      unfold kmallocFound
      simp only [headerSize_eq]
      rw [if_pos (by omega), Nat.mod_eq_of_lt (by omega)]
    · rw [List.nil_append] at he
      rw [he]
      unfold kmallocFound
      simp only [hmod, ne_eq, not_true_eq_false, if_false]
      by_cases hmax : HEAP_MAX_ADDR < h.heapCurrentEnd + PAGE_SIZE
      · exact Or.inl ⟨s, Or.inr ⟨hnone, Or.inl ⟨hmax, rfl⟩⟩, fun _ => if_pos hmax⟩
      · simp only [if_neg hmax]
        rcases alloc h.heapCurrentEnd s with ⟨_ | page, s'⟩
        · exact Or.inl ⟨s', Or.inr ⟨hnone, Or.inr ⟨by omega, rfl⟩⟩, fun _ => rfl⟩
        · exact Or.inr (Or.inr ⟨page, ⟨hnone, rfl⟩, by omega, fun _ => rfl⟩)

/-- The fuel of the recursion is enough: `kmalloc` is the body with itself as the recursive
call. -/
theorem kmalloc_eq (hok : Ok h bs) :
    kmalloc alloc bytes h s = kmallocBody alloc bytes (kmalloc alloc bytes) h s := by
  have hstep : kmalloc alloc bytes h s = kmallocBody alloc bytes
      (kmallocFrom alloc bytes ((HEAP_MAX_ADDR - h.heapCurrentEnd) / PAGE_SIZE)) h s := rfl
  rw [hstep]
  rcases kmallocBody_cases alloc bytes s hok with
    ⟨s', _, hr⟩ | ⟨xs, b, ys, _, _, hr⟩ | ⟨page, _, hmax, hr⟩
  · rw [hr, hr]
  · rw [hr, hr]
  · obtain ⟨_, _, hend, _⟩ := grow_spec hok hmax page
    rw [hr, hr]
    have hless : (HEAP_MAX_ADDR - (h.heapCurrentEnd + PAGE_SIZE)) / PAGE_SIZE + 1
        = (HEAP_MAX_ADDR - h.heapCurrentEnd) / PAGE_SIZE := by
      simp only [HEAP_MAX_ADDR, PAGE_SIZE] at hmax ⊢
      omega
    unfold kmalloc growFuel
    rw [hend, hless]

/-- What `kmalloc` does to the heap when it returns `p` and leaves `h'`: a new block is in use,
or none is and `p` is null. -/
structure Malloc (bytes : UInt32) (h : State) (bs : List Block) (p : ℕ) (h' : State)
    (bs' : List Block) : Prop where
  ok : Ok h' bs'
  result : p = 0 ∧ (∀ d, Used bs' d ↔ Used bs d) ∨
    ∃ c, p = c.addr + 16 ∧ alignedSize bytes ≤ c.size ∧ (∀ d, Used bs d → d.addr ≠ c.addr) ∧
      ∀ d, Used bs' d ↔ d = c ∨ Used bs d
  payload : ∀ x, Payload bs x → h'.mem x = h.mem x

theorem payload_iff {bs bs' : List Block} (h : ∀ d, Used bs' d ↔ Used bs d) {x : ℕ} :
    Payload bs' x ↔ Payload bs x := by
  unfold Payload
  simp only [h]

theorem kmallocFrom_spec {fuel : ℕ} (hok : Ok h bs) :
    ∃ bs', Malloc bytes h bs (kmallocFrom alloc bytes fuel h s).1
      (kmallocFrom alloc bytes fuel h s).2.1 bs' := by
  induction fuel generalizing h s bs with
  | zero => exact ⟨bs, hok, Or.inl ⟨rfl, fun _ => Iff.rfl⟩, fun _ _ => rfl⟩
  | succ fuel ih =>
      unfold kmallocFrom
      rcases kmallocBody_cases alloc bytes s hok with
        ⟨s', _, hr⟩ | ⟨xs, b, ys, rfl, hfit, hr⟩ | ⟨page, _, hmax, hr⟩
      · rw [hr]
        exact ⟨bs, hok, Or.inl ⟨rfl, fun _ => Iff.rfl⟩, fun _ _ => rfl⟩
      · rw [hr]
        obtain ⟨bs', c, hok', haddr, hsize, hused, hpay, _⟩ :=
          takeBlock_spec hok hfit.fits (alignedSize_mod bytes)
        refine ⟨bs', hok', Or.inr ⟨c, by rw [haddr], hsize, fun d hd he => ?_, hused⟩, hpay⟩
        -- the taken block was free, and no other block has its address
        have hb : b ∈ xs ++ b :: ys := by simp
        have hdb := hok.layout.eq_of_addr hd.1 hb (he.trans haddr)
        exact absurd hfit.fits.1 (by rw [← hdb, hd.2]; simp)
      · rw [hr]
        obtain ⟨bs₁, hok₁, _, hused₁, hpay₁, _⟩ := grow_spec hok hmax page
        obtain ⟨bs', hok', hres, hpay⟩ := ih (s := (alloc h.heapCurrentEnd s).2) hok₁
        refine ⟨bs', hok', ?_, fun x hx => ?_⟩
        · simp only [hused₁] at hres
          exact hres
        · rw [hpay x ((payload_iff hused₁).mpr hx), hpay₁ x hx]

theorem kmalloc_spec (alloc : PageSource σ) (bytes : UInt32) (s : σ)
    (hok : Ok h bs) :
    ∃ bs', Malloc bytes h bs (kmalloc alloc bytes h s).1 (kmalloc alloc bytes h s).2.1 bs' :=
  kmallocFrom_spec hok

end kmalloc

/-! ### `kfree` -/

theorem absorb_other {m : Mem} {w c x : ℕ} (h1 : Outside x w)
    (h2 : next m c ≠ 0 → Outside x (next m c)) : absorb m w c x = m x := by
  unfold absorb
  by_cases h0 : next m c = 0
  · rw [if_neg (not_not.mpr h0), setNext_other _ h1, setSize_other _ h1]
  · rw [if_pos h0, setPrev_other _ (h2 h0), setNext_other _ h1, setSize_other _ h1]

section kfree
variable {m : Mem} {xs ys : List Block} {b c : Block} {e : ℕ}

/-- Joining two free blocks changes no payload. -/
theorem absorb_payload (hl : Layout (xs ++ b :: c :: ys) e) (hh : Holds m (xs ++ b :: c :: ys))
    {x : ℕ} (hx : Payload (xs ++ b :: c :: ys) x) : absorb m b.addr c.addr x = m x := by
  obtain ⟨_, hout⟩ := hx.outside hl
  refine absorb_other (hout b (by simp)).1 fun hne => ?_
  have hh' : Holds m ((xs ++ [b]) ++ c :: ys) := by simpa using hh
  obtain ⟨y, t, rfl, he⟩ := hh'.next_mem hne
  rw [he]
  exact (hout y (by simp)).1

/-- The list after `kfree` has looked at the next block: the block is free, and what follows it
does not start with a free block. -/
theorem mergeNext_spec (hl : Layout (xs ++ b :: ys) e) (hh : Holds m (xs ++ b :: ys))
    (hb : b.free = true) (hy : Alternates ys) :
    ∃ b' ys', b'.addr = b.addr ∧ b'.free = true ∧ Layout (xs ++ b' :: ys') e ∧
      Holds (if next m b.addr ≠ 0 ∧ isFree m (next m b.addr) = true then mergeNext m b.addr else m)
        (xs ++ b' :: ys') ∧
      Alternates (b' :: ys') ∧ (∀ d, Used ys' d ↔ Used ys d) ∧
      ∀ x, Payload (xs ++ b :: ys) x →
        (if next m b.addr ≠ 0 ∧ isFree m (next m b.addr) = true then mergeNext m b.addr else m) x
          = m x := by
  have hnext := hh.neighbours.1
  cases ys with
  | nil =>
      rw [if_neg (fun h => h.1 hnext)]
      exact ⟨b, [], rfl, hb, hl, hh, by simp [Alternates], fun _ => Iff.rfl, fun _ _ => rfl⟩
  | cons c ys =>
      have hc := hl.addr_pos (b := c) (by simp)
      have hcfree := hh.free c (by simp)
      obtain ⟨hy', hcy⟩ := alternates_cons.mp hy
      rw [show next m b.addr = c.addr from hnext, hcfree]
      by_cases hf : c.free = true
      · have hclear : Clear (next m b.addr) b.addr := by
          rw [show next m b.addr = c.addr from hnext]
          exact hl.tiles.clear (by simp) (by simp)
        rw [if_pos ⟨by omega, hf⟩, mergeNext_eq hclear, show next m b.addr = c.addr from hnext]
        refine ⟨⟨b.addr, b.size + (c.size + 16), b.free⟩, ys, rfl, hb, hl.join b.free,
          hh.join hl, ?_, fun d => ?_, fun x hx => ?_⟩
        · exact alternates_cons.mpr ⟨hy', fun y hy1 hy2 => hcy y hy1 ⟨hf, hy2.2⟩⟩
        · rw [used_cons, hf]
          simp
        · exact absorb_payload hl hh hx
      · rw [if_neg (fun h => hf h.2)]
        refine ⟨b, c :: ys, rfl, hb, hl, hh, ?_, fun _ => Iff.rfl, fun _ _ => rfl⟩
        exact alternates_cons.mpr ⟨hy, by simpa using fun _ => hf⟩

/-- The list after `kfree` has looked at the block before. -/
theorem mergePrev_spec (hl : Layout (xs ++ b :: ys) e) (hh : Holds m (xs ++ b :: ys))
    (hx : Alternates xs) (hy : Alternates (b :: ys)) (hb : b.free = true) :
    ∃ bs', Layout bs' e ∧ Alternates bs' ∧
      Holds (if prev m b.addr ≠ 0 ∧ isFree m (prev m b.addr) = true then mergePrev m b.addr else m)
        bs' ∧
      (∀ d, Used bs' d ↔ Used (xs ++ b :: ys) d) ∧
      ∀ x, Payload (xs ++ b :: ys) x →
        (if prev m b.addr ≠ 0 ∧ isFree m (prev m b.addr) = true then mergePrev m b.addr else m) x
          = m x := by
  have hprev := hh.neighbours.2
  obtain ⟨hys, hby⟩ := alternates_cons.mp hy
  rcases List.eq_nil_or_concat' xs with rfl | ⟨zs, p, rfl⟩
  · rw [if_neg (fun h => h.1 hprev)]
    exact ⟨_, hl, hy, hh, fun _ => Iff.rfl, fun _ _ => rfl⟩
  · have hp : prev m b.addr = p.addr := by simpa using hprev
    have hl' : Layout (zs ++ p :: b :: ys) e := by simpa using hl
    have hh' : Holds m (zs ++ p :: b :: ys) := by simpa using hh
    have hpos := hl'.addr_pos (b := p) (by simp)
    have hlt := hl'.tiles.around.2 b (by simp)
    have hpfree := hh'.free p (by simp)
    obtain ⟨hzs, _, hzp, _⟩ := alternates_append_cons.mp hx
    rw [hp, hpfree]
    by_cases hf : p.free = true
    · have hclear : Clear b.addr (prev m b.addr) := by
        rw [hp]
        exact hl'.tiles.clear (by simp) (by simp)
      rw [if_pos ⟨by omega, hf⟩, mergePrev_eq hclear (by omega), hp]
      refine ⟨_, hl'.join p.free, ?_, hh'.join hl', fun d => ?_, fun x hx' => ?_⟩
      · refine alternates_append_cons.mpr ⟨hzs, hys, hzp, fun y hy1 hy2 => ?_⟩
        exact hby y hy1 ⟨hb, hy2.2⟩
      · rw [List.append_assoc, List.singleton_append, used_append_cons, used_append_cons,
          used_cons, hf, hb]
        simp
      · refine absorb_payload hl' hh' ?_
        simpa using hx'
    · rw [if_neg (fun h => hf h.2)]
      refine ⟨_, hl, ?_, hh, fun _ => Iff.rfl, fun _ _ => rfl⟩
      refine alternates_append_cons.mpr ⟨hx, hys, ?_, hby⟩
      simp [hf]

/-- The three stages of `kfree`. -/
theorem kfree_eq (h : State) (a : ℕ) : kfree h (a + 16) =
    let m₁ := setFree h.mem a true
    let m₂ := if next m₁ a ≠ 0 ∧ isFree m₁ (next m₁ a) = true then mergeNext m₁ a else m₁
    { h with mem := if prev m₂ a ≠ 0 ∧ isFree m₂ (prev m₂ a) = true then mergePrev m₂ a else m₂ } := by
  unfold kfree
  rw [if_neg (by omega), headerSize_eq, Nat.add_sub_cancel]

/-- What `kfree` does to the heap: the block goes out of use. -/
theorem kfree_spec {h : State} {bs : List Block} (hok : Ok h bs) (hb : Used bs b) :
    ∃ bs', Ok (kfree h (b.addr + 16)) bs' ∧ (∀ d, Used bs' d ↔ d ≠ b ∧ Used bs d) ∧
      ∀ d, Used bs d → d ≠ b → ∀ x, d.addr + 16 ≤ x → x < d.addr + 16 + d.size →
        (kfree h (b.addr + 16)).mem x = h.mem x := by
  obtain ⟨hhead, hl, ha, hh⟩ := hok
  obtain ⟨hmem, hfree⟩ := hb
  obtain ⟨xs, ys, rfl⟩ := List.append_of_mem hmem
  obtain ⟨hx, hy, _, _⟩ := alternates_append_cons.mp ha
  have hl₁ := hl.setFree true
  have hh₁ := hh.setFree hl true
  obtain ⟨b₂, ys₂, haddr, hb₂, hl₂, hh₂, hy₂, hu₂, hp₂⟩ := mergeNext_spec hl₁ hh₁ rfl hy
  obtain ⟨bs', hl₃, ha₃, hh₃, hu₃, hp₃⟩ := mergePrev_spec hl₂ hh₂ hx hy₂ hb₂
  have hne : ∀ d, Used xs d ∨ Used ys d → d ≠ b := by
    rintro d hd rfl
    obtain ⟨h1, h2⟩ := hl.tiles.around
    rcases hd with hd | hd
    · have := h1 d hd.1
      omega
    · have := h2 d hd.1
      omega
  have hused : ∀ d, Used bs' d ↔ d ≠ b ∧ Used (xs ++ b :: ys) d := fun d => by
    rw [hu₃, used_append_cons, used_append_cons, hb₂, hu₂]
    have := hne d
    simp only [Bool.true_eq_false, and_false, false_or]
    tauto
  rw [haddr] at hh₃ hp₃
  rw [kfree_eq]
  refine ⟨bs', ⟨hhead, hl₃, ha₃, hh₃⟩, hused, fun d hd hdb x h1 h2 => ?_⟩
  -- a payload byte of another block stays one in the intermediate lists
  have hrest : Used xs d ∨ Used ys d := by
    rcases used_append_cons.mp hd with ⟨rfl, _⟩ | hd
    · exact absurd rfl hdb
    · exact hd
  have hx₁ : Payload (xs ++ { b with free := true } :: ys) x :=
    ⟨d, used_append_cons.mpr (Or.inr hrest), h1, h2⟩
  have hx₂ : Payload (xs ++ b₂ :: ys₂) x :=
    ⟨d, used_append_cons.mpr (Or.inr (hrest.imp_right (hu₂ d).mpr)), h1, h2⟩
  have hout := ((show Payload (xs ++ b :: ys) x from ⟨d, hd, h1, h2⟩).outside hl).2 b (by simp)
  exact (hp₃ x hx₂).trans ((hp₂ x hx₁).trans (setFree_other _ hout.1 _))

end kfree

/-! ### The invariant in terms of memory -/

/-- The heap is the linked list of the blocks `l`: it starts at `heapHead`, `prev` inverts
`next`, the blocks tile the heap and no two adjacent ones are free. -/
structure Represents (h : State) (l : List ℕ) : Prop where
  first : l.head? = some h.heapHead
  head : h.heapHead = HEAP_START ∧ prev h.mem h.heapHead = 0
  adjacent : ∀ xs b c ys, l = xs ++ b :: c :: ys →
    next h.mem b = c ∧ c = b + HEADER_SIZE + size h.mem b ∧
      ¬ (isFree h.mem b = true ∧ isFree h.mem c = true)
  last : ∀ b ∈ l.getLast?, next h.mem b = 0 ∧ b + HEADER_SIZE + size h.mem b = h.heapCurrentEnd
  inverse : ∀ b ∈ l, ∀ c ∈ l, next h.mem b = c ↔ prev h.mem c = b
  tiling : ∀ x, HEAP_START ≤ x → x < h.heapCurrentEnd →
    ∃! b, b ∈ l ∧ b ≤ x ∧ x < b + HEADER_SIZE + size h.mem b
  mult : ∀ b ∈ l, size h.mem b % 4 = 0
  aligned : h.heapCurrentEnd % PAGE_SIZE = 0
  le : h.heapCurrentEnd ≤ HEAP_MAX_ADDR

theorem Tiles.cover {a e x : ℕ} {bs : List Block} (h : Tiles a bs e) (h1 : a ≤ x) (h2 : x < e) :
    ∃ b ∈ bs, b.addr ≤ x ∧ x < b.addr + 16 + b.size := by
  induction bs generalizing a with
  | nil =>
      have : a = e := h
      omega
  | cons b bs ih =>
      obtain ⟨h3, h4⟩ := h
      by_cases hx : x < a + 16 + b.size
      · exact ⟨b, List.mem_cons_self .., by omega, by omega⟩
      · obtain ⟨c, hc, h5⟩ := ih h4 (by omega)
        exact ⟨c, List.mem_cons_of_mem _ hc, h5⟩

section represents
variable {h : State} {bs : List Block} {xs ys : List Block} {b c : Block}

/-- Adjacent blocks point to each other. -/
theorem Holds.adjacent {m : Mem} (h : Holds m (xs ++ b :: c :: ys)) :
    Heap.next m b.addr = c.addr ∧ Heap.prev m c.addr = b.addr := by
  have h' : Holds m ((xs ++ [b]) ++ c :: ys) := by simpa using h
  exact ⟨h.neighbours.1, by simpa using h'.neighbours.2⟩

theorem Ok.inverse (hok : Ok h bs) (hb : b ∈ bs) (hc : c ∈ bs) :
    next h.mem b.addr = c.addr ↔ prev h.mem c.addr = b.addr := by
  have hcpos := hok.layout.addr_pos hc
  have hbpos := hok.layout.addr_pos hb
  have hh := hok.holds
  constructor
  · intro hn
    obtain ⟨xs, ys, rfl⟩ := List.append_of_mem hb
    obtain ⟨y, t, rfl, he⟩ := hh.next_mem (by omega)
    rw [← hn, he]
    exact hh.adjacent.2
  · intro hp
    obtain ⟨xs, ys, rfl⟩ := List.append_of_mem hc
    have hprev := hh.neighbours.2
    rcases List.eq_nil_or_concat' xs with rfl | ⟨zs, p, rfl⟩
    · rw [hp] at hprev
      have : b.addr = 0 := hprev
      omega
    · have hpb : p.addr = b.addr := by
        rw [← hp, hprev]
        simp
      rw [← hpb]
      exact (show Holds h.mem (zs ++ p :: c :: ys) by simpa using hh).adjacent.1

theorem Ok.represents (hok : Ok h bs) : Represents h (bs.map Block.addr) := by
  obtain ⟨hhead, hl, ha, hh⟩ := id hok
  obtain ⟨b₀, t, rfl⟩ := List.exists_cons_of_ne_nil hl.nonempty
  have hb₀ : b₀.addr = HEAP_START := hl.tiles.1
  refine ⟨?_, ⟨hhead, ?_⟩, ?_, ?_, ?_, ?_, ?_, hl.aligned, hl.le⟩
  · rw [List.map_cons, List.head?_cons, hb₀, hhead]
  · rw [hhead, ← hb₀]
    exact (show Holds h.mem ([] ++ b₀ :: t) from hh).neighbours.2
  · intro xs' a a' ys' he
    obtain ⟨xs, r, hbs, rfl, hr⟩ := List.map_eq_append_iff.mp he
    obtain ⟨b, r', rfl, rfl, hr'⟩ := List.map_eq_cons_iff.mp hr
    obtain ⟨c, ys, rfl, rfl, rfl⟩ := List.map_eq_cons_iff.mp hr'
    rw [hbs] at hh hl ha
    have htiles := hl.tiles
    obtain ⟨_, _, hb, hc, _⟩ := tiles_append.mp htiles
    obtain ⟨_, _, _, hbc⟩ := alternates_append_cons.mp ha
    rw [headerSize_eq, hh.size b (by simp), hh.free b (by simp), hh.free c (by simp)]
    exact ⟨hh.adjacent.1, by omega, by simpa using hbc⟩
  · intro a hmem
    rw [Option.mem_def, List.getLast?_map, Option.map_eq_some_iff] at hmem
    obtain ⟨b, hb, rfl⟩ := hmem
    obtain ⟨xs, hbs⟩ := List.getLast?_eq_some_iff.mp hb
    rw [hbs] at hh hl
    obtain ⟨_, _, hb1, hb2⟩ := tiles_append.mp hl.tiles
    have hend : _ = h.heapCurrentEnd := hb2
    rw [headerSize_eq, hh.size b (by simp)]
    exact ⟨hh.neighbours.1, by omega⟩
  · intro a ha a' ha'
    obtain ⟨b, hb, rfl⟩ := List.mem_map.mp ha
    obtain ⟨c, hc, rfl⟩ := List.mem_map.mp ha'
    exact hok.inverse hb hc
  · intro x h1 h2
    obtain ⟨b, hb, h3, h4⟩ := hl.tiles.cover h1 h2
    refine ⟨b.addr, ⟨List.mem_map_of_mem hb, h3, ?_⟩, ?_⟩
    · rw [headerSize_eq, hh.size b hb]
      exact h4
    · rintro a ⟨ha, h5, h6⟩
      obtain ⟨c, hc, rfl⟩ := List.mem_map.mp ha
      rw [headerSize_eq, hh.size c hc] at h6
      rcases hl.tiles.apart hb hc with rfl | h | h
      · rfl
      · omega
      · omega
  · intro a ha
    obtain ⟨b, hb, rfl⟩ := List.mem_map.mp ha
    rw [hh.size b hb]
    exact hl.mult b hb

end represents

/-! ### Runs -/

/-- A pointer that `kmalloc` returned, with the bytes that its owner has written since. -/
structure Alloc where
  ptr : ℕ
  written : ℕ → Option UInt8

structure RunState (σ : Type) where
  heap : State
  pager : σ
  live : List Alloc

/-- The calls of a run: the `k`-th live allocation is freed, or its owner writes a byte of it. -/
inductive Call where
  | kmalloc (bytes : UInt32)
  | kfree (k : ℕ)
  | write (k offset : ℕ) (v : UInt8)

/-- The size of the block of an allocated pointer. -/
def payloadSize (h : State) (ptr : ℕ) : ℕ := size h.mem (ptr - HEADER_SIZE)

namespace RunState

variable {σ : Type} (alloc : PageSource σ)

def step (st : RunState σ) : Call → RunState σ
  | .kmalloc bytes =>
      let (ptr, heap, pager) := kmalloc alloc bytes st.heap st.pager
      ⟨heap, pager, if ptr = 0 then st.live else ⟨ptr, fun _ => none⟩ :: st.live⟩
  | .kfree k =>
      match st.live[k]? with
      | none => st
      | some a => ⟨kfree st.heap a.ptr, st.pager, st.live.eraseIdx k⟩
  | .write k offset v =>
      match st.live[k]? with
      | none => st
      | some a =>
          if offset < payloadSize st.heap a.ptr then
            ⟨{ st.heap with mem := st.heap.mem.store8 (a.ptr + offset) v }, st.pager,
              st.live.set k ⟨a.ptr, Function.update a.written offset (some v)⟩⟩
          else st

def run (st : RunState σ) (calls : List Call) : RunState σ := calls.foldl (step alloc) st

/-- After `init_heap`, over any memory. -/
def start (m : Mem) (pager : σ) : RunState σ := ⟨initHeap m, pager, []⟩

end RunState

theorem layout_initial :
    Layout [⟨HEAP_START, 4096 - 16, true⟩] (HEAP_START + HEAP_INITIAL_SIZE) :=
  ⟨⟨rfl, rfl⟩, by simp, by simp, by simp, by decide, by decide⟩

theorem initHeap_ok (m : Mem) : Ok (initHeap m) [⟨HEAP_START, 4096 - 16, true⟩] := by
  have hc : Clear HEAP_START HEAP_START := Or.inl rfl
  unfold initHeap
  refine ⟨rfl, layout_initial, by simp [Alternates], ?_, ?_, ?_, ?_, trivial⟩
  · simp only [List.mem_singleton, forall_eq]
    rw [size_setPrev _ hc, size_setNext _ hc, size_setFree _ hc, size_setSize _ hc (by decide),
      if_pos rfl]
    decide
  · simp only [List.mem_singleton, forall_eq]
    rw [isFree_setPrev _ hc, isFree_setNext _ hc, isFree_setFree, if_pos rfl]
  · exact (prev_setPrev _ hc (by decide)).trans (if_pos rfl)
  · exact (next_setPrev _ hc).trans ((next_setNext _ hc (by decide)).trans (if_pos rfl))

/-- The size in the header of a block in use. -/
theorem Ok.payloadSize {h : State} {bs : List Block} (hok : Ok h bs) {b : Block} (hb : Used bs b) :
    Heap.payloadSize h (b.addr + 16) = b.size := by
  unfold Heap.payloadSize
  rw [headerSize_eq, Nat.add_sub_cancel]
  exact hok.holds.size b hb.1

/-- Allocations at different places of the list have different pointers. -/
theorem ptr_ne_of_ne {live : List Alloc} (hn : (live.map Alloc.ptr).Nodup) {i k : ℕ} {a c : Alloc}
    (hi : live[i]? = some c) (hk : live[k]? = some a) (hne : i ≠ k) : c.ptr ≠ a.ptr := by
  intro he
  obtain ⟨hlt, _⟩ := List.getElem?_eq_some_iff.mp hi
  refine hne ((List.getElem?_inj (by simpa using hlt) hn).mp ?_)
  rw [List.getElem?_map, List.getElem?_map, hi, hk, Option.map_some, Option.map_some, he]

namespace RunState

variable {σ : Type} {alloc : PageSource σ} {st : RunState σ} {bs : List Block}

/-- Over the blocks `bs`, every live allocation is the payload of a block in use, which holds
what its owner wrote. -/
structure Inv (st : RunState σ) (bs : List Block) : Prop where
  ok : Ok st.heap bs
  block : ∀ a ∈ st.live, ∃ b, Used bs b ∧ a.ptr = b.addr + 16
  nodup : (st.live.map Alloc.ptr).Nodup
  written : ∀ a ∈ st.live, ∀ k < payloadSize st.heap a.ptr, ∀ v,
    a.written k = some v → st.heap.mem (a.ptr + k) = v

/-- A call of `kmalloc` changes no live payload. -/
theorem Inv.kmalloc_payload (h : st.Inv bs) (alloc : PageSource σ) (bytes : UInt32)
    {a : Alloc} (ha : a ∈ st.live) {k : ℕ} (hk : k < payloadSize st.heap a.ptr) :
    (kmalloc alloc bytes st.heap st.pager).2.1.mem (a.ptr + k) = st.heap.mem (a.ptr + k) := by
  obtain ⟨b, hb, hptr⟩ := h.block a ha
  obtain ⟨bs', hm⟩ := kmalloc_spec alloc bytes st.pager h.ok
  rw [hptr, h.ok.payloadSize hb] at hk
  rw [hptr]
  exact hm.payload _ ⟨b, hb, by omega, by omega⟩

/-- A call of `kfree` changes no other live payload. -/
theorem Inv.kfree_payload (h : st.Inv bs) {a f : Alloc} (ha : a ∈ st.live) (hf : f ∈ st.live)
    (hne : a.ptr ≠ f.ptr) {k : ℕ} (hk : k < payloadSize st.heap a.ptr) :
    (kfree st.heap f.ptr).mem (a.ptr + k) = st.heap.mem (a.ptr + k) := by
  obtain ⟨b, hb, hptr⟩ := h.block a ha
  obtain ⟨c, hc, hfptr⟩ := h.block f hf
  obtain ⟨bs', _, _, hpay⟩ := kfree_spec h.ok hc
  rw [hptr, h.ok.payloadSize hb] at hk
  rw [hptr, hfptr]
  refine hpay b hb ?_ _ (by omega) (by omega)
  rintro rfl
  exact hne (hptr.trans hfptr.symm)

theorem Inv.kmalloc (h : st.Inv bs) {bytes : UInt32} {ptr : ℕ} {heap : State} {pager : σ}
    (hr : Heap.kmalloc alloc bytes st.heap st.pager = (ptr, heap, pager)) :
    ∃ bs', (⟨heap, pager, if ptr = 0 then st.live else ⟨ptr, fun _ => none⟩ :: st.live⟩ :
      RunState σ).Inv bs' := by
  have hpay := fun a ha k hk => h.kmalloc_payload alloc bytes (a := a) ha (k := k) hk
  obtain ⟨bs', hok, hres, _⟩ := kmalloc_spec alloc bytes st.pager h.ok
  rw [hr] at hok hres hpay
  have hused : ∀ d, Used bs d → Used bs' d := by
    intro d hd
    rcases hres with ⟨_, hu⟩ | ⟨c, _, _, _, hu⟩
    · exact (hu d).mpr hd
    · exact (hu d).mpr (Or.inr hd)
  have hblock : ∀ a ∈ st.live, ∃ b, Used bs' b ∧ a.ptr = b.addr + 16 := fun a ha => by
    obtain ⟨b, hb, hptr⟩ := h.block a ha
    exact ⟨b, hused b hb, hptr⟩
  have hwritten : ∀ a ∈ st.live, ∀ k < payloadSize heap a.ptr, ∀ v,
      a.written k = some v → heap.mem (a.ptr + k) = v := fun a ha k hk v hv => by
    obtain ⟨b, hb, hptr⟩ := h.block a ha
    have hk' : k < payloadSize st.heap a.ptr := by
      rw [hptr, hok.payloadSize (hused b hb)] at hk
      rw [hptr, h.ok.payloadSize hb]
      exact hk
    exact (hpay a ha k hk').trans (h.written a ha k hk' v hv)
  rcases hres with ⟨hp, hu⟩ | ⟨c, hp, hsize, hfresh, hu⟩
  · rw [if_pos hp]
    exact ⟨bs', hok, hblock, h.nodup, hwritten⟩
  · rw [if_neg (show ¬ ptr = 0 by omega)]
    refine ⟨bs', hok, ?_, ?_, ?_⟩
    · intro a ha
      rcases List.mem_cons.mp ha with rfl | ha
      · exact ⟨c, (hu c).mpr (Or.inl rfl), hp⟩
      · exact hblock a ha
    · refine List.nodup_cons.mpr ⟨fun hmem => ?_, h.nodup⟩
      obtain ⟨a, ha, he⟩ := List.mem_map.mp hmem
      obtain ⟨b, hb, hptr⟩ := h.block a ha
      have : a.ptr = ptr := he
      exact hfresh b hb (by omega)
    · intro a ha k hk v hv
      rcases List.mem_cons.mp ha with rfl | ha
      · cases hv
      · exact hwritten a ha k hk v hv

theorem Inv.kfree (h : st.Inv bs) {k : ℕ} {f : Alloc} (hk : st.live[k]? = some f) :
    ∃ bs', (⟨Heap.kfree st.heap f.ptr, st.pager, st.live.eraseIdx k⟩ : RunState σ).Inv bs' := by
  have hf := List.mem_of_getElem? hk
  obtain ⟨c, hc, hfptr⟩ := h.block f hf
  obtain ⟨bs', hok, hu, _⟩ := kfree_spec h.ok hc
  rw [← hfptr] at hok
  have hmem : ∀ a ∈ st.live.eraseIdx k, a ∈ st.live ∧ a.ptr ≠ f.ptr := fun a ha => by
    obtain ⟨i, hne, hi⟩ := List.mem_eraseIdx_iff_getElem?.mp ha
    exact ⟨List.mem_of_getElem? hi, ptr_ne_of_ne h.nodup hi hk hne⟩
  have hblock : ∀ a ∈ st.live.eraseIdx k, ∃ b, Used bs b ∧ Used bs' b ∧ a.ptr = b.addr + 16 :=
    fun a ha => by
      obtain ⟨ha, hne⟩ := hmem a ha
      obtain ⟨b, hb, hptr⟩ := h.block a ha
      refine ⟨b, hb, (hu b).mpr ⟨?_, hb⟩, hptr⟩
      rintro rfl
      exact hne (hptr.trans hfptr.symm)
  refine ⟨bs', hok, ?_, ?_, ?_⟩
  · intro a ha
    obtain ⟨b, _, hb, hptr⟩ := hblock a ha
    exact ⟨b, hb, hptr⟩
  · rw [← List.eraseIdx_map]
    exact h.nodup.eraseIdx k
  · intro a ha j hj v hv
    obtain ⟨b, hb, hb', hptr⟩ := hblock a ha
    obtain ⟨ha, hne⟩ := hmem a ha
    have hj' : j < payloadSize st.heap a.ptr := by
      rw [hptr, h.ok.payloadSize hb]
      rw [hptr, hok.payloadSize hb'] at hj
      exact hj
    exact (h.kfree_payload ha hf hne hj').trans (h.written a ha j hj' v hv)

/-- An owner's write stays in its payload. -/
theorem Inv.write (h : st.Inv bs) {k j : ℕ} {o : Alloc} (hk : st.live[k]? = some o)
    (hj : j < payloadSize st.heap o.ptr) (v : UInt8) :
    (⟨{ st.heap with mem := st.heap.mem.store8 (o.ptr + j) v }, st.pager,
      st.live.set k ⟨o.ptr, Function.update o.written j (some v)⟩⟩ : RunState σ).Inv bs := by
  have ho := List.mem_of_getElem? hk
  obtain ⟨c, hc, hoptr⟩ := h.block o ho
  rw [hoptr, h.ok.payloadSize hc] at hj
  have hout := Payload.outside h.ok.layout ⟨c, hc, show c.addr + 16 ≤ o.ptr + j by omega, by omega⟩
  have hok : Ok { st.heap with mem := st.heap.mem.store8 (o.ptr + j) v } bs :=
    ⟨h.ok.head, h.ok.layout, h.ok.alternates, h.ok.holds.store8 v fun b hb => (hout.2 b hb).1⟩
  have hmem : ∀ a ∈ st.live.set k ⟨o.ptr, Function.update o.written j (some v)⟩,
      a = ⟨o.ptr, Function.update o.written j (some v)⟩ ∨ a ∈ st.live ∧ a.ptr ≠ o.ptr := by
    intro a ha
    obtain ⟨i, hi⟩ := List.mem_iff_getElem?.mp ha
    rw [List.getElem?_set] at hi
    split_ifs at hi with hik hlt
    · exact Or.inl (Option.some.inj hi).symm
    · exact Or.inr ⟨List.mem_of_getElem? hi, ptr_ne_of_ne h.nodup hi hk (Ne.symm hik)⟩
  refine ⟨hok, ?_, ?_, ?_⟩
  · intro a ha
    rcases hmem a ha with rfl | ⟨ha, _⟩
    · exact ⟨c, hc, hoptr⟩
    · exact h.block a ha
  · have hset : (st.live.set k ⟨o.ptr, Function.update o.written j (some v)⟩).map Alloc.ptr
        = st.live.map Alloc.ptr := by
      refine List.ext_getElem? fun i => ?_
      rw [List.map_set, List.getElem?_set]
      split_ifs with hik hlt
      · rw [← hik, List.getElem?_map, hk, Option.map_some]
      · exact (List.getElem?_eq_none (by omega)).symm
      · rfl
    rw [hset]
    exact h.nodup
  · intro a ha i hi u hu
    rcases hmem a ha with rfl | ⟨ha, hne⟩
    · replace hu : Function.update o.written j (some v) i = some u := hu
      by_cases hij : i = j
      · subst hij
        rw [Function.update_self] at hu
        exact (Mem.store8_same ..).trans (Option.some.inj hu)
      · rw [Function.update_of_ne hij] at hu
        have hsize : payloadSize st.heap o.ptr = c.size := by rw [hoptr, h.ok.payloadSize hc]
        have hsize' := hok.payloadSize hc
        rw [← hoptr] at hsize'
        have hi' : i < payloadSize st.heap o.ptr := (hi.trans_eq hsize').trans_eq hsize.symm
        exact (Mem.store8_other _ _ (by simpa using hij)).trans (h.written o ho i hi' u hu)
    · obtain ⟨b, hb, hptr⟩ := h.block a ha
      have hi' : i < b.size := by
        rw [hptr, hok.payloadSize hb] at hi
        exact hi
      have hne' : a.ptr + i ≠ o.ptr + j := by
        rcases h.ok.layout.tiles.apart hb.1 hc.1 with rfl | h' | h'
        · exact absurd (hptr.trans hoptr.symm) hne
        · omega
        · omega
      rw [← h.ok.payloadSize hb, ← hptr] at hi'
      exact (Mem.store8_other _ _ hne').trans (h.written a ha i hi' u hu)

theorem Inv.step (h : st.Inv bs) (alloc : PageSource σ) (c : Call) :
    ∃ bs', (st.step alloc c).Inv bs' := by
  cases c with
  | kmalloc bytes => exact h.kmalloc rfl
  | kfree k =>
      simp only [RunState.step]
      cases hk : st.live[k]? with
      | none => exact ⟨bs, h⟩
      | some f => exact h.kfree hk
  | write k j v =>
      simp only [RunState.step]
      cases hk : st.live[k]? with
      | none => exact ⟨bs, h⟩
      | some o =>
          by_cases hj : j < payloadSize st.heap o.ptr
          · simp only [if_pos hj]
            exact ⟨bs, h.write hk hj v⟩
          · simp only [if_neg hj]
            exact ⟨bs, h⟩

theorem start_inv (m : Mem) (s : σ) :
    (start m s).Inv [⟨HEAP_START, 4096 - 16, true⟩] := by
  refine ⟨initHeap_ok m, ?_, List.nodup_nil, ?_⟩
  · intro a ha
    cases ha
  · intro a ha
    cases ha

theorem run_inv (alloc : PageSource σ) (m : Mem) (s : σ) (calls : List Call) :
    ∃ bs, (run alloc (start m s) calls).Inv bs := by
  induction calls using List.reverseRecOn with
  | nil => exact ⟨_, start_inv m s⟩
  | append_singleton calls c ih =>
      obtain ⟨bs, h⟩ := ih
      unfold run at h ⊢
      rw [List.foldl_append]
      exact h.step alloc c

/-- **The heap is a tiling list of blocks** after every run of `kmalloc`, `kfree` and writes of
the owners. -/
theorem run_represents (alloc : PageSource σ) (m : Mem) (s : σ)
    (calls : List Call) :
    HEADER_SIZE = 16 ∧ ∃ l, Represents (run alloc (start m s) calls).heap l := by
  obtain ⟨bs, h⟩ := run_inv alloc m s calls
  exact ⟨headerSize_eq, _, h.ok.represents⟩

/-- The live allocations `live` have their payloads apart from each other and from the headers
of the blocks `l`. -/
structure Separate (h : State) (l : List ℕ) (live : List Alloc) : Prop where
  aligned : ∀ a ∈ live, a.ptr % 4 = 0
  inside : ∀ a ∈ live, HEAP_START + 16 ≤ a.ptr ∧ a.ptr < h.heapCurrentEnd ∧
    a.ptr + payloadSize h a.ptr ≤ h.heapCurrentEnd
  headers : ∀ a ∈ live, ∀ b ∈ l, b + HEADER_SIZE ≤ a.ptr ∨ a.ptr + payloadSize h a.ptr ≤ b
  disjoint : live.Pairwise fun a b =>
    a.ptr + payloadSize h a.ptr ≤ b.ptr ∨ b.ptr + payloadSize h b.ptr ≤ a.ptr

theorem Inv.separate (h : st.Inv bs) : Separate st.heap (bs.map Block.addr) st.live := by
  have hl := h.ok.layout
  refine ⟨fun a ha => ?_, fun a ha => ?_, fun a ha p hp => ?_, ?_⟩
  · obtain ⟨b, hb, hptr⟩ := h.block a ha
    have := hl.tiles.addr_mod (by decide) hl.mult hb.1
    omega
  · obtain ⟨b, hb, hptr⟩ := h.block a ha
    have h1 := hl.tiles.bounds hb.1
    have h2 := hl.payload_lt hb.1
    rw [hptr, h.ok.payloadSize hb]
    omega
  · obtain ⟨b, hb, hptr⟩ := h.block a ha
    obtain ⟨c, hc, rfl⟩ := List.mem_map.mp hp
    rw [hptr, h.ok.payloadSize hb, headerSize_eq]
    rcases hl.tiles.apart hb.1 hc with rfl | h' | h'
    · exact Or.inl (le_refl _)
    · exact Or.inr h'
    · exact Or.inl (by omega)
  · have hn := List.pairwise_map.mp h.nodup
    refine hn.imp_of_mem fun {a b} ha hb hne => ?_
    obtain ⟨c, hc, hptr⟩ := h.block a ha
    obtain ⟨d, hd, hptr'⟩ := h.block b hb
    rw [hptr, hptr', h.ok.payloadSize hc, h.ok.payloadSize hd]
    rcases hl.tiles.apart hc.1 hd.1 with rfl | h' | h'
    · exact absurd (hptr.trans hptr'.symm) hne
    · exact Or.inl (by omega)
    · exact Or.inr (by omega)

/-- **Live payloads are apart and untouched**: after every run they are disjoint, aligned, inside
the heap and free of headers, they hold what their owners wrote, and a further call of `kmalloc`
or `kfree` changes no byte of them, the freed one apart. -/
theorem run_payloads (alloc : PageSource σ) (m : Mem) (s : σ) (calls : List Call) :
    let st := run alloc (start m s) calls
    (∃ l, Represents st.heap l ∧ Separate st.heap l st.live) ∧
    (∀ a ∈ st.live, ∀ k < payloadSize st.heap a.ptr,
      (∀ v, a.written k = some v → st.heap.mem (a.ptr + k) = v) ∧
      (∀ bytes, (Heap.kmalloc alloc bytes st.heap st.pager).2.1.mem (a.ptr + k)
        = st.heap.mem (a.ptr + k)) ∧
      ∀ f ∈ st.live, f.ptr ≠ a.ptr →
        (Heap.kfree st.heap f.ptr).mem (a.ptr + k) = st.heap.mem (a.ptr + k)) := by
  intro st
  obtain ⟨bs, h⟩ := run_inv alloc m s calls
  refine ⟨⟨_, h.ok.represents, h.separate⟩, fun a ha k hk => ⟨h.written a ha k hk, ?_, ?_⟩⟩
  · intro bytes
    exact h.kmalloc_payload alloc bytes ha hk
  · intro f hf hne
    exact h.kfree_payload ha hf (Ne.symm hne) hk

end RunState

end NosmeriOs.Heap
