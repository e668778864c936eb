import NosmeriOs.Pmm

/-! # Pages are handed out safely, and where boot frees too much

* `run_safe_pages`: along every run of allocations and valid frees after `init_pmm` the
  outstanding pages are distinct, lie in the detected memory above the kernel, and the free
  pages are the initial ones without them.
* `init_frees_ram_iff`: `init_pmm` reads only the low halves of an entry's address and length,
  and rounds the address up on 32 bits.  An available entry based above `0xFFFFF000` therefore
  opens a window of low memory that it does not describe; `OnlyRam` says exactly when this
  does no harm. -/

namespace NosmeriOs.Pmm

/-! ### Allocating and freeing one page -/

/-- The search finds a free page or answers `-1`. -/
theorem findFirstFreePage_cases (p : Pages) :
    findFirstFreePage p = -1 ∨ ∃ i : ℕ, findFirstFreePage p = i ∧ Free p i := by
  unfold findFirstFreePage
  cases h : (List.range (p.totalMemoryPages.toNat / 32)).findSome? fun i =>
    if p.memoryBitmap i != 0xFFFFFFFF#32 then
      (List.range 32).findSome? fun j =>
        if p.totalMemoryPages.toNat ≤ i * 32 + j then some (-1 : ℤ)
        else if (p.memoryBitmap i &&& 1#32 <<< j) == 0 then some ((i * 32 + j : ℕ) : ℤ)
        else none
    else none with
  | none => exact Or.inl rfl
  | some r =>
      obtain ⟨i, hi, hfound⟩ := List.exists_of_findSome?_eq_some h
      split_ifs at hfound with hw
      obtain ⟨j, hj, hbit⟩ := List.exists_of_findSome?_eq_some hfound
      rw [List.mem_range] at hj
      split_ifs at hbit with h1 h2
      · cases hbit
        exact Or.inl rfl
      · cases hbit
        refine Or.inr ⟨i * 32 + j, rfl, by omega, ?_⟩
        rw [Bitmap.test_eq, show (i * 32 + j) / 32 = i by omega,
          show (i * 32 + j) % 32 = j by omega, ← Bitmap.and_mask_ne_zero _ hj]
        rw [beq_iff_eq] at h2
        rw [h2]
        rfl

/-- A search over a range stops at the first index that has a result. -/
theorem findSome?_range {β : Type} {f : ℕ → Option β} {n i : ℕ} (hi : i < n) (hf : f i ≠ none) :
    ∃ j ≤ i, (List.range n).findSome? f = f j ∧ f j ≠ none := by
  cases h : (List.range n).findSome? f with
  | none =>
      rw [List.findSome?_eq_none_iff] at h
      exact absurd (h i (List.mem_range.2 hi)) hf
  | some b =>
      obtain ⟨l₁, j, l₂, hl, hj, hnone⟩ := List.findSome?_eq_some_iff.1 h
      refine ⟨j, ?_, hj.symm, by rw [hj]; simp⟩
      have hmem : i ∈ l₁ ++ j :: l₂ := by
        rw [← hl]
        exact List.mem_range.2 hi
      have hsorted := @List.pairwise_lt_range n
      rw [hl, List.pairwise_append] at hsorted
      obtain hm | hm := List.mem_append.1 hmem
      · exact absurd (hnone i hm) hf
      · obtain rfl | hm := List.mem_cons.1 hm
        · exact le_refl i
        · exact ((List.pairwise_cons.1 hsorted.2.1).1 i hm).le

/-- The search finds the first free page, short of the last pages when their number is not a
multiple of 32. -/
theorem findFirstFreePage_le {p : Pages} {k : ℕ} (hk : Free p k)
    (hlt : k / 32 < p.totalMemoryPages.toNat / 32) :
    ∃ i ≤ k, findFirstFreePage p = i ∧ Free p i := by
  have hbit : (p.memoryBitmap (k / 32) &&& 1#32 <<< (k % 32)) = 0 := by
    have hne := Bitmap.and_mask_ne_zero (p.memoryBitmap (k / 32)) (Nat.mod_lt k (by omega : 0 < 32))
    rw [← Bitmap.test_eq, hk.2, bne_eq_false_iff_eq] at hne
    exact hne
  have hword : (p.memoryBitmap (k / 32) != 0xFFFFFFFF#32) = true := by
    rw [bne_iff_ne]
    intro he
    have ht := hk.2
    rw [Bitmap.test_eq, he, show (0xFFFFFFFF#32) = BitVec.allOnes 32 from rfl,
      BitVec.getLsbD_allOnes, decide_eq_false_iff_not] at ht
    exact ht (Nat.mod_lt k (by omega))
  -- the answer for bit `j` of word `w`, and for the word
  generalize hG : (fun w j : ℕ => if p.totalMemoryPages.toNat ≤ w * 32 + j then some (-1 : ℤ)
    else if (p.memoryBitmap w &&& 1#32 <<< j) == 0 then some ((w * 32 + j : ℕ) : ℤ)
    else none) = G
  have hfind : findFirstFreePage p = ((List.range (p.totalMemoryPages.toNat / 32)).findSome? fun w =>
      if p.memoryBitmap w != 0xFFFFFFFF#32 then (List.range 32).findSome? (G w) else none).getD
        (-1) := by
    rw [← hG]
    rfl
  have hGk : G (k / 32) (k % 32) ≠ none := by
    rw [← hG]
    dsimp only
    rw [if_neg (by omega), if_pos (by rw [hbit]; rfl)]
    simp
  have hGfree : ∀ w < p.totalMemoryPages.toNat / 32, ∀ j < 32, ∀ r, G w j = some r →
      r = (w * 32 + j : ℕ) := by
    intro w hw j hj r hr
    rw [← hG] at hr
    dsimp only at hr
    rw [if_neg (by omega)] at hr
    split_ifs at hr
    exact (Option.some.inj hr).symm
  obtain ⟨j₀, hj₀, hinner, hsome₀⟩ := findSome?_range (n := 32) (Nat.mod_lt k (by omega)) hGk
  obtain ⟨w, hw, houter, hsome⟩ := findSome?_range (f := fun w =>
    if p.memoryBitmap w != 0xFFFFFFFF#32 then (List.range 32).findSome? (G w) else none) hlt
    (by rw [if_pos hword, hinner]; exact hsome₀)
  rw [houter] at hfind
  have hfull : (p.memoryBitmap w != 0xFFFFFFFF#32) = true := by
    by_contra hf
    exact hsome (if_neg hf)
  rw [if_pos hfull] at hfind hsome
  obtain ⟨r, hr⟩ := Option.ne_none_iff_exists'.1 hsome
  rw [hr] at hfind
  have hle : ∃ i ≤ k, r = (i : ℤ) := by
    obtain rfl | hlt' : w = k / 32 ∨ w < k / 32 := by omega
    · rw [hinner] at hr
      exact ⟨_, by omega, hGfree _ hlt j₀ (by omega) r hr⟩
    · obtain ⟨j, hj, hjr⟩ := List.exists_of_findSome?_eq_some hr
      rw [List.mem_range] at hj
      exact ⟨_, by omega, hGfree w (by omega) j hj r hjr⟩
  obtain ⟨i, hi, rfl⟩ := hle
  have he : findFirstFreePage p = i := hfind
  obtain hneg | ⟨i', hi', hfree⟩ := findFirstFreePage_cases p
  · rw [hneg] at he
    omega
  · rw [hi'] at he
    have hii : i' = i := by omega
    exact ⟨i, hi, by rw [hi', hii], hii ▸ hfree⟩

/-- What `pmm_alloc_page` does. -/
theorem pmmAllocPage_cases {p : Pages} (ht : p.totalMemoryPages.toNat ≤ 2 ^ 20) :
    (findFirstFreePage p = -1 ∧ pmmAllocPage p = (0, p)) ∨
    ∃ i : ℕ, findFirstFreePage p = i ∧ Free p i ∧ (pmmAllocPage p).1.toNat = i * 4096 ∧
      (pmmAllocPage p).2 = bitmapSet p (UInt32.ofNat i) := by
  unfold pmmAllocPage
  rcases findFirstFreePage_cases p with h | ⟨i, h, hf⟩
  · exact Or.inl ⟨h, by simp only [h, if_true]⟩
  · right
    have hlt := hf.1
    have hne : ¬ ((i : ℤ) = -1) := by omega
    refine ⟨i, h, hf, ?_, ?_⟩
    · simp only [h, hne, if_false, Int.toNat_natCast]
      have hpage : PAGE_SIZE.toNat = 4096 := rfl
      rw [UInt32.toNat_mul, UInt32.toNat_ofNat', hpage]
      omega
    · simp only [h, hne, if_false, Int.toNat_natCast]

theorem totalMemoryPages_pmmAllocPage (p : Pages) :
    (pmmAllocPage p).2.totalMemoryPages = p.totalMemoryPages := by
  unfold pmmAllocPage
  simp only
  split_ifs
  · rfl
  · exact totalMemoryPages_bitmapSet _ _

/-! ### Runs -/

/-- The allocator and the pages it has handed out and not got back. -/
structure PmmState where
  pages : Pages
  outstanding : List UInt32

inductive PmmOp where
  /-- `pmm_alloc_page`. -/
  | alloc
  /-- `pmm_free_page` of the outstanding page at a position. -/
  | free (k : ℕ)

namespace PmmState

def init (kernel : KernelImage) (magic : UInt32) (mbi : MultibootInfo) : PmmState :=
  ⟨initPmm kernel magic mbi, []⟩

def step (s : PmmState) : PmmOp → PmmState
  | .alloc =>
      let (ptr, pages) := pmmAllocPage s.pages
      ⟨pages, if ptr = 0 then s.outstanding else s.outstanding ++ [ptr]⟩
  | .free k => match s.outstanding[k]? with
    | some ptr => ⟨pmmFreePage s.pages ptr, s.outstanding.eraseIdx k⟩
    | none => s

def run (s : PmmState) (ops : List PmmOp) : PmmState := ops.foldl step s

/-- Relative to the pages `p₀` before the run: outstanding pages come from the free pages of
`p₀`, one address each, and the others are still free. -/
structure Ok (p₀ : Pages) (s : PmmState) : Prop where
  total : s.pages.totalMemoryPages = p₀.totalMemoryPages
  nodup : s.outstanding.Nodup
  page : ∀ a ∈ s.outstanding, ∃ i, Free p₀ i ∧ a.toNat = i * 4096
  free : ∀ i, Free s.pages i ↔ Free p₀ i ∧ ∀ a ∈ s.outstanding, a.toNat ≠ i * 4096

/-- Handing out the free page `i`. -/
theorem Ok.take {p₀ : Pages} {s : PmmState} (h : s.Ok p₀) {i : ℕ} (hf : Free s.pages i)
    {ptr : UInt32} (ha : ptr.toNat = i * 4096) :
    (⟨bitmapSet s.pages (UInt32.ofNat i), s.outstanding ++ [ptr]⟩ : PmmState).Ok p₀ := by
  obtain ⟨hf₀, hnew⟩ := (h.free i).mp hf
  have hlt := ptr.toNat_lt
  refine ⟨(totalMemoryPages_bitmapSet _ _).trans h.total, ?_, ?_, ?_⟩
  · rw [List.nodup_append]
    refine ⟨h.nodup, List.nodup_singleton _, ?_⟩
    intro a ha' b hb hab
    rw [List.mem_singleton] at hb
    subst hb
    exact hnew a ha' (by rw [hab]; exact ha)
  · intro a ha'
    rcases List.mem_append.mp ha' with ha' | ha'
    · exact h.page a ha'
    · rw [List.mem_singleton] at ha'
      subst ha'
      exact ⟨i, hf₀, ha⟩
  · intro m
    rw [free_bitmapSet, h.free, UInt32.toNat_ofNat', Nat.mod_eq_of_lt (by omega)]
    constructor
    · rintro ⟨⟨h1, h2⟩, h3⟩
      refine ⟨h1, fun a ha' => ?_⟩
      rcases List.mem_append.mp ha' with ha' | ha'
      · exact h2 a ha'
      · rw [List.mem_singleton] at ha'
        subst ha'
        rw [ha]
        omega
    · rintro ⟨h1, h2⟩
      refine ⟨⟨h1, fun a ha' => h2 a (List.mem_append_left _ ha')⟩, ?_⟩
      rintro rfl
      exact h2 _ (List.mem_append_right _ (List.mem_singleton.mpr rfl)) ha

theorem Ok.step {p₀ : Pages} {s : PmmState} (h : s.Ok p₀)
    (ht : p₀.totalMemoryPages.toNat < 2 ^ 20) (h0 : ¬ Free p₀ 0) (op : PmmOp) :
    (s.step op).Ok p₀ := by
  cases op with
  | alloc =>
      simp only [PmmState.step]
      rcases pmmAllocPage_cases (p := s.pages) (by rw [h.total]; exact ht.le) with
        ⟨_, he⟩ | ⟨i, _, hf, ha, hp⟩
      · rw [he]
        exact h
      · have hi : i ≠ 0 := by
          rintro rfl
          exact h0 ((h.free 0).mp hf).1
        have hne : (pmmAllocPage s.pages).1 ≠ 0 := by
          intro hz
          rw [hz] at ha
          simp only [UInt32.toNat_zero] at ha
          omega
        rw [if_neg hne, hp]
        exact h.take hf ha
  | free k =>
      simp only [PmmState.step]
      cases hk : s.outstanding[k]? with
      | none => exact h
      | some ptr =>
          obtain ⟨hklt, hkeq⟩ := List.getElem?_eq_some_iff.mp hk
          obtain ⟨i, hf₀, ha⟩ := h.page ptr (List.mem_of_getElem? hk)
          have hidx : (ptr / PAGE_SIZE).toNat = i := by
            rw [toNat_div_page, ha]
            omega
          have hmem : ∀ a, a ∈ s.outstanding.eraseIdx k ↔ a ∈ s.outstanding ∧ a ≠ ptr := by
            intro a
            rw [← hkeq, ← List.Nodup.erase_getElem h.nodup, h.nodup.mem_erase_iff]
            tauto
          refine ⟨?_, h.nodup.eraseIdx k, ?_, ?_⟩
          · exact (totalMemoryPages_bitmapUnset _ _).trans h.total
          · intro a ha'
            exact h.page a ((hmem a).mp ha').1
          · intro m
            unfold pmmFreePage
            rw [free_bitmapUnset, hidx, h.free, h.total]
            constructor
            · rintro (⟨h1, h2⟩ | ⟨rfl, hlt⟩)
              · exact ⟨h1, fun a ha' => h2 a ((hmem a).mp ha').1⟩
              · refine ⟨hf₀, fun a ha' hae => ((hmem a).mp ha').2 ?_⟩
                exact UInt32.toNat.inj (by rw [hae, ha])
            · rintro ⟨h1, h2⟩
              by_cases hmi : m = i
              · exact Or.inr ⟨hmi, h1.1⟩
              · refine Or.inl ⟨h1, fun a ha' => ?_⟩
                by_cases hap : a = ptr
                · rw [hap, ha]
                  omega
                · exact h2 a ((hmem a).mpr ⟨ha', hap⟩)

theorem Ok.run {p₀ : Pages} {s : PmmState} (h : s.Ok p₀)
    (ht : p₀.totalMemoryPages.toNat < 2 ^ 20) (h0 : ¬ Free p₀ 0) (ops : List PmmOp) :
    (s.run ops).Ok p₀ := by
  induction ops generalizing s with
  | nil => exact h
  | cons op ops ih => exact ih (h.step ht h0 op)

theorem Ok.start (p₀ : Pages) : (⟨p₀, []⟩ : PmmState).Ok p₀ :=
  ⟨rfl, List.nodup_nil, by simp, by simp⟩

end PmmState

/-- What holds of the outstanding pages: distinct, non-zero, aligned, inside the detected
memory and above the kernel; `pmm_alloc_page` answers `0` only for want of a page, and then does
nothing; and the free pages are the initial ones without the outstanding ones. -/
structure SafePages (kernel : KernelImage) (p₀ : Pages) (s : PmmState) : Prop where
  distinct : s.outstanding.Nodup
  nonzero : ∀ a ∈ s.outstanding, a ≠ 0
  aligned : ∀ a ∈ s.outstanding, a.toNat % 4096 = 0
  inside : ∀ a ∈ s.outstanding, a.toNat + 4096 ≤ s.pages.totalMemoryPages.toNat * 4096
  kernel : ∀ a ∈ s.outstanding, kernel.kernelEnd.toNat ≤ a.toNat
  failure : (pmmAllocPage s.pages).1 = 0 ↔ findFirstFreePage s.pages = -1
  unchanged : (pmmAllocPage s.pages).1 = 0 → (pmmAllocPage s.pages).2 = s.pages
  free : ∀ i, Free s.pages i ↔ Free p₀ i ∧ ∀ a ∈ s.outstanding, a.toNat ≠ i * 4096

/-- **Pages are handed out safely** in every run after `init_pmm`, whatever the boot loader
reports. -/
theorem run_safe_pages (kernel : KernelImage) (magic : UInt32) (mbi : MultibootInfo)
    (ops : List PmmOp) : SafePages kernel (initPmm kernel magic mbi)
      ((PmmState.init kernel magic mbi).run ops) := by
  have hge := kernel.ge
  have htot : (initPmm kernel magic mbi).totalMemoryPages.toNat < 2 ^ 20 := by
    rw [totalMemoryPages_initPmm]
    exact totalPages_lt magic mbi
  -- no page below the end of the kernel is free
  have hlow : ∀ i, Free (initPmm kernel magic mbi) i →
      kernel.kernelEnd.toNat ≤ i * 4096 ∧ i ≠ 0 := by
    intro i hi
    have := ((free_initPmm kernel magic mbi i).mp hi).2.2
    unfold kernelPages at this
    omega
  have h : ((PmmState.init kernel magic mbi).run ops).Ok (initPmm kernel magic mbi) :=
    (PmmState.Ok.start _).run htot (fun h0 => (hlow 0 h0).2 rfl) ops
  generalize (PmmState.init kernel magic mbi).run ops = s at h
  have hcases := pmmAllocPage_cases (p := s.pages) (by rw [h.total]; exact htot.le)
  have hpage : ∀ i, Free s.pages i → i ≠ 0 := fun i hi => (hlow i ((h.free i).mp hi).1).2
  refine ⟨h.nodup, ?_, ?_, ?_, ?_, ?_, ?_, h.free⟩
  · rintro a ha rfl
    obtain ⟨i, hi, hz⟩ := h.page 0 ha
    have := (hlow i hi).2
    rw [UInt32.toNat_zero] at hz
    omega
  · intro a ha
    obtain ⟨i, _, hz⟩ := h.page a ha
    omega
  · intro a ha
    obtain ⟨i, hi, hz⟩ := h.page a ha
    have hlt := hi.1
    rw [h.total]
    omega
  · intro a ha
    obtain ⟨i, hi, hz⟩ := h.page a ha
    rw [hz]
    exact (hlow i hi).1
  · rcases hcases with ⟨h1, h2⟩ | ⟨i, h1, hi, h2, _⟩
    · simp [h1, h2]
    · have hne := hpage i hi
      refine ⟨fun hz => ?_, fun hz => ?_⟩
      · rw [hz, UInt32.toNat_zero] at h2
        omega
      · omega
  · intro hz
    rcases hcases with ⟨_, h2⟩ | ⟨i, _, hi, h2, _⟩
    · rw [h2]
    · have hne := hpage i hi
      rw [hz, UInt32.toNat_zero] at h2
      omega

/-! ### Only RAM is freed -/

/-- The 64-bit address and length of an entry. -/
def MmapEntry.base (e : MmapEntry) : ℕ := e.addrHigh.toNat * 2 ^ 32 + e.addrLow.toNat

def MmapEntry.length (e : MmapEntry) : ℕ := e.lenHigh.toNat * 2 ^ 32 + e.lenLow.toNat

/-- Page `i` lies inside an entry of available memory. -/
def InRam (mbi : MultibootInfo) (i : ℕ) : Prop :=
  ∃ e ∈ mbi.mmap, e.type = MULTIBOOT_MEMORY_AVAILABLE ∧
    e.base ≤ i * 4096 ∧ (i + 1) * 4096 ≤ e.base + e.length

/-- Every page free after boot lies in available memory and below the detected size. -/
def FreesOnlyRam (kernel : KernelImage) (magic : UInt32) (mbi : MultibootInfo) : Prop :=
  ∀ i, Free (initPmm kernel magic mbi) i →
    InRam mbi i ∧ (i + 1) * 4096 ≤ (memorySizeKb magic mbi).toNat * 1024

/-- The pages above the kernel that an available entry based above `0xFFFFF000` opens are RAM
by virtue of some entry. -/
def OnlyRam (kernel : KernelImage) (magic : UInt32) (mbi : MultibootInfo) : Prop :=
  ∀ e ∈ mbi.mmap, e.type = MULTIBOOT_MEMORY_AVAILABLE → 0xFFFFF000 < e.base →
    ∀ i, freeWindow e.addrLow e.lenLow i → i < (totalPages magic mbi).toNat →
      kernelPages kernel ≤ i → InRam mbi i

theorem totalPages_le (magic : UInt32) (mbi : MultibootInfo) :
    (totalPages magic mbi).toNat * 4096 ≤ (memorySizeKb magic mbi).toNat * 1024 := by
  have h : (totalPages magic mbi).toNat ≤ (memorySizeKb magic mbi * 1024 / PAGE_SIZE).toNat := by
    unfold totalPages
    simp only
    split_ifs with hlt
    · exact (UInt32.lt_iff_toNat_lt.mp hlt).le
    · exact le_refl _
  have hmul : (memorySizeKb magic mbi * 1024).toNat ≤ (memorySizeKb magic mbi).toNat * 1024 := by
    rw [UInt32.toNat_mul]
    exact Nat.mod_le _ _
  rw [toNat_div_page] at h
  omega

/-- An entry based at or below `0xFFFFF000` opens pages of its own only. -/
theorem inRam_of_window {mbi : MultibootInfo} {e : MmapEntry} (he : e ∈ mbi.mmap)
    (ht : e.type = MULTIBOOT_MEMORY_AVAILABLE) (hb : e.base ≤ 0xFFFFF000) {i : ℕ}
    (hi : freeWindow e.addrLow e.lenLow i) : InRam mbi i := by
  obtain ⟨h1, h2⟩ := hi
  have hhigh : e.addrHigh.toNat = 0 := by
    unfold MmapEntry.base at hb
    omega
  have hlow : e.base = e.addrLow.toNat := by
    unfold MmapEntry.base
    rw [hhigh]
    omega
  rw [toNat_div_page, toNat_add_page_sub_one, Nat.mod_eq_of_lt (by omega)] at h1
  rw [toNat_div_page, UInt32.toNat_add] at h2
  have hmod := Nat.mod_le (e.addrLow.toNat + e.lenLow.toNat) (2 ^ 32)
  refine ⟨e, he, ht, ?_, ?_⟩
  · rw [hlow]
    omega
  · rw [hlow]
    unfold MmapEntry.length
    omega

/-- **When boot frees only RAM**: exactly when no available entry based above `0xFFFFF000`
opens a page that no available entry contains. -/
theorem init_frees_ram_iff (kernel : KernelImage) (magic : UInt32) (mbi : MultibootInfo)
    (hmap : hasInfo magic mbi MULTIBOOT_INFO_MEM_MAP = true) :
    FreesOnlyRam kernel magic mbi ↔ OnlyRam kernel magic mbi := by
  constructor
  · intro h e he ht hb i hw hlt hk
    refine (h i ((free_initPmm kernel magic mbi i).mpr ⟨hlt, ?_, hk⟩)).1
    unfold Opened
    rw [if_pos hmap]
    exact ⟨e, he, ht, hw⟩
  · intro h i hi
    obtain ⟨hlt, hopen, hk⟩ := (free_initPmm kernel magic mbi i).mp hi
    unfold Opened at hopen
    rw [if_pos hmap] at hopen
    obtain ⟨e, he, ht, hw⟩ := hopen
    refine ⟨?_, ?_⟩
    · by_cases hb : e.base ≤ 0xFFFFF000
      · exact inRam_of_window he ht hb hw
      · exact h e he ht (by omega) i hw hlt hk
    · exact (Nat.mul_le_mul_right 4096 hlt).trans (totalPages_le magic mbi)

/-- A kernel that ends at 2 MB. -/
def smallKernel : KernelImage := ⟨0x200000, by decide⟩

/-- A map with 63 MB at 1 MB and 1 GB at 4 GB, without the memory size fields. -/
def highMap : MultibootInfo :=
  ⟨MULTIBOOT_INFO_MEM_MAP, 0, [⟨0x100000, 0, 0x3F00000, 0, 1⟩, ⟨0, 1, 0x40000000, 0, 1⟩]⟩

theorem init_frees_ram_iff_highMap :
    hasInfo MULTIBOOT_BOOTLOADER_MAGIC highMap MULTIBOOT_INFO_MEM_MAP = true ∧
    (FreesOnlyRam smallKernel MULTIBOOT_BOOTLOADER_MAGIC highMap ↔
      OnlyRam smallKernel MULTIBOOT_BOOTLOADER_MAGIC highMap) :=
  ⟨by decide, init_frees_ram_iff _ _ _ (by decide)⟩

/-- On `highMap` the page at 64 MB is free after boot, though no entry contains it. -/
theorem highMap_frees_non_ram :
    ¬ FreesOnlyRam smallKernel MULTIBOOT_BOOTLOADER_MAGIC highMap := by
  intro h
  have hfree : Free (initPmm smallKernel MULTIBOOT_BOOTLOADER_MAGIC highMap) 0x4000 := by
    refine (free_initPmm _ _ _ _).mpr ⟨by decide, ?_, by decide⟩
    unfold Opened
    rw [if_pos (by decide)]
    exact ⟨⟨0, 1, 0x40000000, 0, 1⟩, by simp [highMap], rfl, by decide⟩
  obtain ⟨e, he, _, h1, h2⟩ := (h _ hfree).1
  simp only [highMap, List.mem_cons, List.not_mem_nil, or_false] at he
  rcases he with rfl | rfl
  · exact absurd h2 (by decide)
  · exact absurd h1 (by decide)

end NosmeriOs.Pmm
