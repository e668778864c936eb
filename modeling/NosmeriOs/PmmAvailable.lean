import NosmeriOs.PmmSafety

/-! # Which pages the allocator offers

Safety says what is never handed out.  Here is the other half: which free memory the allocator
knows of and finds.

* `run_lowest_iff`: `find_first_free_page` looks at whole words of the bitmap only.  It finds the
  lowest free page exactly when some free page, if there is one at all, is in such a word
  (`Searched`).
* `init_usable_iff`: `init_pmm` computes the memory size and the ends of the available regions on
  32 bits.  All usable memory is free after boot exactly when neither wraps to an effect
  (`NoWrap`). -/

namespace NosmeriOs.Pmm

/-! ### The lowest free page -/

/-- A call of the allocator, with any pointer. -/
inductive PageCall where
  | alloc
  | free (ptr : UInt32)

namespace Pages

def call (p : Pages) : PageCall → Pages
  | .alloc => (pmmAllocPage p).2
  | .free ptr => pmmFreePage p ptr

def run (p : Pages) (calls : List PageCall) : Pages := calls.foldl call p

theorem totalMemoryPages_call (p : Pages) (c : PageCall) :
    (p.call c).totalMemoryPages = p.totalMemoryPages := by
  cases c with
  | alloc => exact totalMemoryPages_pmmAllocPage p
  | free ptr => exact totalMemoryPages_bitmapUnset p _

theorem totalMemoryPages_run (p : Pages) (calls : List PageCall) :
    (p.run calls).totalMemoryPages = p.totalMemoryPages :=
  totalMemoryPages_foldl _ totalMemoryPages_call calls p

end Pages

/-- `pmm_alloc_page` answers `0` exactly when every page is marked, and otherwise with the lowest
page that is not. -/
structure FindsLowest (p : Pages) : Prop where
  null : (pmmAllocPage p).1 = 0 ↔
    ∀ i < p.totalMemoryPages.toNat, p.memoryBitmap.test i = true
  lowest : ∀ i < p.totalMemoryPages.toNat, p.memoryBitmap.test i = false →
    (∀ j < i, p.memoryBitmap.test j = true) → (pmmAllocPage p).1.toNat = 4096 * i

/-- Page `0` is not free, and if a page is free then so is one of those in the whole words of the
bitmap. -/
structure Searched (p : Pages) : Prop where
  low : ¬ Free p 0
  word : ∀ i, Free p i → ∃ j, Free p j ∧ j < p.totalMemoryPages.toNat / 32 * 32

/-- The last pages, if they do not fill a word, are never found. -/
theorem lt_of_findFirstFreePage {p : Pages} {i : ℕ} (h : findFirstFreePage p = i) :
    i < p.totalMemoryPages.toNat / 32 * 32 := by
  unfold findFirstFreePage at h
  cases hs : (List.range (p.totalMemoryPages.toNat / 32)).findSome? fun i =>
    if p.memoryBitmap i != 0xFFFFFFFF#32 then
      (List.range 32).findSome? fun j =>
        if p.totalMemoryPages.toNat ≤ i * 32 + j then some (-1 : ℤ)
        else if (p.memoryBitmap i &&& 1#32 <<< j) == 0 then some ((i * 32 + j : ℕ) : ℤ)
        else none
    else none with
  | none =>
      rw [hs, Option.getD_none] at h
      omega
  | some r =>
      rw [hs, Option.getD_some] at h
      obtain ⟨w, hw, hfound⟩ := List.exists_of_findSome?_eq_some hs
      rw [List.mem_range] at hw
      split_ifs at hfound
      obtain ⟨j, hj, hbit⟩ := List.exists_of_findSome?_eq_some hfound
      rw [List.mem_range] at hj
      split_ifs at hbit
      · cases hbit
        omega
      · cases hbit
        omega

/-- A page found is the lowest one that is free. -/
theorem findFirstFreePage_lowest {p : Pages} {i j : ℕ} (h : findFirstFreePage p = i)
    (hj : Free p j) : i ≤ j := by
  have hi := lt_of_findFirstFreePage h
  by_cases hlt : j / 32 < p.totalMemoryPages.toNat / 32
  · obtain ⟨k, hk, hfind, _⟩ := findFirstFreePage_le hj hlt
    rw [h] at hfind
    omega
  · omega

/-- A page is free or marked. -/
theorem marked_iff {p : Pages} {i : ℕ} (hi : i < p.totalMemoryPages.toNat) :
    p.memoryBitmap.test i = true ↔ ¬ Free p i := by
  unfold Free
  simp [hi]

section lowest
variable {p : Pages}

theorem Searched.findsLowest (ht : p.totalMemoryPages.toNat < 2 ^ 20) (h : Searched p) :
    FindsLowest p := by
  rcases pmmAllocPage_cases ht.le with ⟨hnone, halloc⟩ | ⟨k, hk, hfree, hptr, _⟩
  · -- nothing was found, so that nothing is free
    have hfull : ∀ i, ¬ Free p i := by
      intro i hi
      obtain ⟨j, hj, hlt⟩ := h.word i hi
      obtain ⟨k, _, hk, _⟩ := findFirstFreePage_le hj (by omega)
      rw [hnone] at hk
      omega
    constructor
    · rw [halloc]
      exact ⟨fun _ i hi => (marked_iff hi).mpr (hfull i), fun _ => rfl⟩
    · intro i hi hf _
      exact absurd ⟨hi, hf⟩ (hfull i)
  · have hk0 : k ≠ 0 := by
      rintro rfl
      exact h.low hfree
    constructor
    · constructor
      · intro hz
        rw [hz, UInt32.toNat_zero] at hptr
        omega
      · intro hall
        exact absurd hfree ((marked_iff hfree.1).mp (hall k hfree.1))
    · intro i hi hf hlow
      have hle := findFirstFreePage_lowest hk ⟨hi, hf⟩
      obtain rfl | hlt : k = i ∨ k < i := by omega
      · omega
      · exact absurd hfree ((marked_iff hfree.1).mp (hlow k hlt))

theorem FindsLowest.searched (ht : p.totalMemoryPages.toNat < 2 ^ 20) (h : FindsLowest p) :
    Searched p := by
  rcases pmmAllocPage_cases ht.le with ⟨_, halloc⟩ | ⟨k, hk, hfree, hptr, _⟩
  · -- the answer `0` means that nothing is free
    have hall := h.null.mp (by rw [halloc])
    have hfull : ∀ i, ¬ Free p i := fun i hi => (marked_iff hi.1).mp (hall i hi.1) hi
    exact ⟨hfull 0, fun i hi => absurd hi (hfull i)⟩
  · refine ⟨fun h0 => ?_, fun i _ => ⟨k, hfree, lt_of_findFirstFreePage hk⟩⟩
    -- page `0` would have been found, and its address read as a failure
    have hk0 : k = 0 := by
      have := findFirstFreePage_lowest hk h0
      omega
    have hz : (pmmAllocPage p).1 = 0 := UInt32.toNat.inj (by rw [hptr, hk0]; rfl)
    exact (marked_iff hfree.1).mp (h.null.mp hz k hfree.1) hfree

end lowest

/-- **When the lowest free page is found**: after `init_pmm` and any calls of the allocator, with
any pointers, exactly in the states that are `Searched`. -/
theorem run_lowest_iff (kernel : KernelImage) (magic : UInt32) (mbi : MultibootInfo)
    (calls : List PageCall) :
    FindsLowest ((initPmm kernel magic mbi).run calls) ↔
      Searched ((initPmm kernel magic mbi).run calls) := by
  have ht : ((initPmm kernel magic mbi).run calls).totalMemoryPages.toNat < 2 ^ 20 := by
    rw [Pages.totalMemoryPages_run, totalMemoryPages_initPmm]
    exact totalPages_lt magic mbi
  exact ⟨FindsLowest.searched ht, Searched.findsLowest ht⟩

/-- A machine with 2 MB and 16 KB of memory, and no memory map. -/
def tinyMachine : MultibootInfo := ⟨MULTIBOOT_INFO_MEMORY, 1040, []⟩

/-- The four pages above a kernel of 2 MB are free on `tinyMachine`, and not found. -/
theorem tinyMachine_not_lowest :
    ¬ FindsLowest ((initPmm smallKernel MULTIBOOT_BOOTLOADER_MAGIC tinyMachine).run []) := by
  rw [Pages.run, List.foldl_nil]
  intro h
  have htotal : (totalPages MULTIBOOT_BOOTLOADER_MAGIC tinyMachine).toNat = 516 := by
    decide +kernel
  have hlt : (initPmm smallKernel MULTIBOOT_BOOTLOADER_MAGIC
      tinyMachine).totalMemoryPages.toNat < 2 ^ 20 := by
    rw [totalMemoryPages_initPmm]
    exact totalPages_lt _ _
  have hfree : Free (initPmm smallKernel MULTIBOOT_BOOTLOADER_MAGIC tinyMachine) 512 := by
    refine (free_initPmm _ _ _ _).mpr ⟨by rw [htotal]; omega, ?_, by decide⟩
    unfold Opened
    rw [if_neg (by decide)]
    decide +kernel
  obtain ⟨j, hj, hword⟩ := (FindsLowest.searched hlt h).word 512 hfree
  have hkernel := ((free_initPmm _ _ _ _).mp hj).2.2
  have h512 : kernelPages smallKernel = 512 := by decide
  rw [h512] at hkernel
  rw [totalMemoryPages_initPmm, htotal] at hword
  omega

/-! ### Usable memory -/

/-- Page `i` is inside an available entry, or at or above 1 MB if there is no map, and clear of the
kernel. -/
def Usable (kernel : KernelImage) (magic : UInt32) (mbi : MultibootInfo) (i : ℕ) : Prop :=
  (if hasInfo magic mbi MULTIBOOT_INFO_MEM_MAP then InRam mbi i else 0x100000 ≤ i * 4096) ∧
    kernel.kernelEnd.toNat ≤ i * 4096

/-- The memory size is that of the machine, and all usable pages below it are free after boot. -/
structure AllUsable (kernel : KernelImage) (magic : UInt32) (mbi : MultibootInfo) : Prop where
  total : hasInfo magic mbi MULTIBOOT_INFO_MEMORY = true →
    (initPmm kernel magic mbi).totalMemoryPages.toNat
      = min MAX_PAGES.toNat ((1024 + mbi.memUpper.toNat) / 4)
  free : ∀ i < (initPmm kernel magic mbi).totalMemoryPages.toNat,
    Usable kernel magic mbi i → Free (initPmm kernel magic mbi) i

/-- There are less than 4 GB of memory, and where an available entry reaches 4 GB, its pages
above the kernel are in the windows that the available entries open. -/
structure NoWrap (kernel : KernelImage) (magic : UInt32) (mbi : MultibootInfo) : Prop where
  size : hasInfo magic mbi MULTIBOOT_INFO_MEMORY = true → 1024 + mbi.memUpper.toNat < 2 ^ 22
  ends : hasInfo magic mbi MULTIBOOT_INFO_MEM_MAP = true →
    ∀ e ∈ mbi.mmap, e.type = MULTIBOOT_MEMORY_AVAILABLE → 2 ^ 32 ≤ e.base + e.length →
      ∀ i < (totalPages magic mbi).toNat, e.base ≤ i * 4096 → kernelPages kernel ≤ i →
        ∃ e' ∈ mbi.mmap, e'.type = MULTIBOOT_MEMORY_AVAILABLE ∧
          freeWindow e'.addrLow e'.lenLow i

section usable
variable {kernel : KernelImage} {magic : UInt32} {mbi : MultibootInfo}

theorem kernelPages_le_iff {i : ℕ} :
    kernelPages kernel ≤ i ↔ kernel.kernelEnd.toNat ≤ i * 4096 := by
  unfold kernelPages
  omega

/-- The memory size in pages, on 32 bits; the limit is never reached. -/
theorem toNat_totalPages (magic : UInt32) (mbi : MultibootInfo) :
    (totalPages magic mbi).toNat = (memorySizeKb magic mbi).toNat * 1024 % 2 ^ 32 / 4096 := by
  have hmul : (memorySizeKb magic mbi * 1024 / PAGE_SIZE).toNat
      = (memorySizeKb magic mbi).toNat * 1024 % 2 ^ 32 / 4096 := by
    rw [toNat_div_page, UInt32.toNat_mul]
    rfl
  have hmax : ¬ MAX_PAGES < memorySizeKb magic mbi * 1024 / PAGE_SIZE := by
    intro hlt
    have hlt' := UInt32.lt_iff_toNat_lt.mp hlt
    have hpages : MAX_PAGES.toNat = 1048576 := by decide
    rw [hmul] at hlt'
    omega
  unfold totalPages
  simp only [hmax, if_false]
  exact hmul

/-- The computed size is that of the machine exactly below 4 GB. -/
theorem totalPages_eq_iff (hm : hasInfo magic mbi MULTIBOOT_INFO_MEMORY = true) :
    (totalPages magic mbi).toNat = min MAX_PAGES.toNat ((1024 + mbi.memUpper.toNat) / 4) ↔
      1024 + mbi.memUpper.toNat < 2 ^ 22 := by
  have hkb : (memorySizeKb magic mbi).toNat = (1024 + mbi.memUpper.toNat) % 2 ^ 32 := by
    unfold memorySizeKb
    rw [if_pos hm, UInt32.toNat_add]
    rfl
  have hpages : MAX_PAGES.toNat = 1048576 := by decide
  have hlt := mbi.memUpper.toNat_lt
  rw [toNat_totalPages, hkb, hpages]
  omega

/-- Without a map all pages from 1 MB on are opened, whatever wraps: the end of the region is
again the memory size. -/
theorem opened_of_noMap (hmap : ¬ hasInfo magic mbi MULTIBOOT_INFO_MEM_MAP = true) {i : ℕ}
    (hi : i < (totalPages magic mbi).toNat) (hlow : 0x100000 ≤ i * 4096) :
    Opened magic mbi i := by
  have hkb := (memorySizeKb magic mbi).toNat_lt
  rw [toNat_totalPages] at hi
  unfold Opened freeWindow
  rw [if_neg hmap]
  have hend : (0x100000 + (memorySizeKb magic mbi - 1024) * 1024 : UInt32).toNat
      = (memorySizeKb magic mbi).toNat * 1024 % 2 ^ 32 := by
    rw [UInt32.toNat_add, UInt32.toNat_mul, UInt32.toNat_sub]
    show (0x100000 + (2 ^ 32 - 1024 + _) % 2 ^ 32 * 1024 % 2 ^ 32) % 2 ^ 32 = _
    omega
  rw [toNat_div_page, toNat_div_page, hend]
  refine ⟨?_, hi⟩
  show 0x100fff / 4096 ≤ i
  omega

/-- An entry that ends below 4 GB opens all pages inside it. -/
theorem freeWindow_of_inside {e : MmapEntry} (hend : e.base + e.length < 2 ^ 32) {i : ℕ}
    (h1 : e.base ≤ i * 4096) (h2 : (i + 1) * 4096 ≤ e.base + e.length) :
    freeWindow e.addrLow e.lenLow i := by
  have hbase : e.base = e.addrLow.toNat := by
    unfold MmapEntry.base at hend ⊢
    omega
  have hlen : e.length = e.lenLow.toNat := by
    unfold MmapEntry.length at hend ⊢
    omega
  rw [hbase, hlen] at hend h2
  rw [hbase] at h1
  unfold freeWindow
  rw [toNat_div_page, toNat_div_page, toNat_add_page_sub_one, UInt32.toNat_add,
    Nat.mod_eq_of_lt (by omega), Nat.mod_eq_of_lt hend]
  omega

/-- **When all usable memory is made available at boot.** -/
theorem init_usable_iff (kernel : KernelImage) (magic : UInt32) (mbi : MultibootInfo) :
    AllUsable kernel magic mbi ↔ NoWrap kernel magic mbi := by
  constructor
  · rintro ⟨htotal, hfree⟩
    rw [totalMemoryPages_initPmm] at htotal hfree
    refine ⟨fun hm => (totalPages_eq_iff hm).mp (htotal hm), ?_⟩
    intro hmap e he ht hend i hi hbase hk
    -- a page below 4 GB is inside an entry that reaches so far
    have hin : InRam mbi i := by
      have := totalPages_lt magic mbi
      exact ⟨e, he, ht, hbase, by omega⟩
    have husable : Usable kernel magic mbi i := by
      unfold Usable
      rw [if_pos hmap]
      exact ⟨hin, kernelPages_le_iff.mp hk⟩
    have hopen := ((free_initPmm kernel magic mbi i).mp (hfree i hi husable)).2.1
    unfold Opened at hopen
    rw [if_pos hmap] at hopen
    exact hopen
  · rintro ⟨hsize, hends⟩
    refine ⟨fun hm => ?_, ?_⟩
    · rw [totalMemoryPages_initPmm]
      exact (totalPages_eq_iff hm).mpr (hsize hm)
    · intro i hi husable
      rw [totalMemoryPages_initPmm] at hi
      obtain ⟨hram, hk⟩ := husable
      have hk := kernelPages_le_iff.mpr hk
      refine (free_initPmm kernel magic mbi i).mpr ⟨hi, ?_, hk⟩
      by_cases hmap : hasInfo magic mbi MULTIBOOT_INFO_MEM_MAP = true
      · rw [if_pos hmap] at hram
        obtain ⟨e, he, ht, h1, h2⟩ := hram
        unfold Opened
        rw [if_pos hmap]
        by_cases hend : e.base + e.length < 2 ^ 32
        · exact ⟨e, he, ht, freeWindow_of_inside hend h1 h2⟩
        · exact hends hmap e he ht (by omega) i hi h1 hk
      · rw [if_neg hmap] at hram
        exact opened_of_noMap hmap hi hram

end usable

/-- A machine with 4 GB of memory, all of it above 1 MB available. -/
def largeMachine : MultibootInfo :=
  ⟨MULTIBOOT_INFO_MEMORY ||| MULTIBOOT_INFO_MEM_MAP, 0x3FFC00, [⟨0x100000, 0, 0xFFF00000, 0, 1⟩]⟩

/-- The size of `largeMachine` is computed as zero. -/
theorem largeMachine_not_usable :
    ¬ AllUsable smallKernel MULTIBOOT_BOOTLOADER_MAGIC largeMachine := by
  intro h
  have hm : hasInfo MULTIBOOT_BOOTLOADER_MAGIC largeMachine MULTIBOOT_INFO_MEMORY = true := by
    decide
  have htotal := h.total hm
  rw [totalMemoryPages_initPmm] at htotal
  have hlarge := (totalPages_eq_iff hm).mp htotal
  exact absurd hlarge (by decide)

end NosmeriOs.Pmm
