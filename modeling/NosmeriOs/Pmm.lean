import Mathlib.Tactic
import NosmeriOs.Bitmap

/-! # Physical pages (`mm/pmm.cpp`)

One bit per 4 KB page, set when the page is in use.  `init_pmm` locks everything, opens what
the boot loader reports as available and locks low memory and the kernel again.

* `unsigned int` is `UInt32` (wrapping); the bitmap is `Bitmap`, indexed by page number.
* The multiboot memory map is the list of entries in the order the loop of `init_pmm` visits
  them; of the other fields of the two structures only those read are kept.
* `kernel_end` is a linker symbol; `KernelImage` carries what the linker script says of it.
* `free_page * PAGE_SIZE` is computed on 32 bits. -/

namespace NosmeriOs.Pmm

def PAGE_SIZE : UInt32 := 4096
def MAX_PAGES : UInt32 := 1024 * 1024
def MULTIBOOT_BOOTLOADER_MAGIC : UInt32 := 0x2BADB002
def MULTIBOOT_INFO_MEMORY : UInt32 := 0x00000001
def MULTIBOOT_INFO_MEM_MAP : UInt32 := 0x00000040
def MULTIBOOT_MEMORY_AVAILABLE : UInt32 := 1

structure MmapEntry where
  addrLow : UInt32
  addrHigh : UInt32
  lenLow : UInt32
  lenHigh : UInt32
  type : UInt32
deriving DecidableEq

structure MultibootInfo where
  flags : UInt32
  memUpper : UInt32
  mmap : List MmapEntry

/-- The kernel is linked at 1 MB, so it ends above it. -/
structure KernelImage where
  kernelEnd : UInt32
  ge : 0x100000 ≤ kernelEnd.toNat

structure Pages where
  memoryBitmap : Bitmap
  totalMemoryPages : UInt32
  usedMemoryPages : UInt32

/-! ### The bitmap -/

def bitmapSet (p : Pages) (pageIdx : UInt32) : Pages :=
  if pageIdx < p.totalMemoryPages then
    if !p.memoryBitmap.test pageIdx.toNat then
      { p with
        memoryBitmap := p.memoryBitmap.set pageIdx.toNat
        usedMemoryPages := p.usedMemoryPages + 1 }
    else p
  else p

def bitmapUnset (p : Pages) (pageIdx : UInt32) : Pages :=
  if pageIdx < p.totalMemoryPages then
    if p.memoryBitmap.test pageIdx.toNat then
      { p with
        memoryBitmap := p.memoryBitmap.unset pageIdx.toNat
        usedMemoryPages := p.usedMemoryPages - 1 }
    else p
  else p

/-- The two nested loops of `find_first_free_page`; `-1` when they find nothing. -/
def findFirstFreePage (p : Pages) : ℤ :=
  ((List.range (p.totalMemoryPages.toNat / 32)).findSome? fun i =>
    if p.memoryBitmap i != 0xFFFFFFFF#32 then
      (List.range 32).findSome? fun j =>
        if p.totalMemoryPages.toNat ≤ i * 32 + j then some (-1 : ℤ)
        else if (p.memoryBitmap i &&& 1#32 <<< j) == 0 then some ((i * 32 + j : ℕ) : ℤ)
        else none
    else none).getD (-1)

def pmmMarkRegionUsed (p : Pages) (base length : UInt32) : Pages :=
  let startPage := base / PAGE_SIZE
  let numPages := (length + PAGE_SIZE - 1) / PAGE_SIZE
  (List.range numPages.toNat).foldl (fun p i => bitmapSet p (startPage + UInt32.ofNat i)) p

def pmmMarkRegionFree (p : Pages) (base length : UInt32) : Pages :=
  let startPage := (base + PAGE_SIZE - 1) / PAGE_SIZE
  let endPage := (base + length) / PAGE_SIZE
  (List.range' startPage.toNat (endPage.toNat - startPage.toNat)).foldl
    (fun p i => bitmapUnset p (UInt32.ofNat i)) p

/-! ### Boot -/

/-- `magic == MULTIBOOT_BOOTLOADER_MAGIC && (mbi->flags & flag)`. -/
def hasInfo (magic : UInt32) (mbi : MultibootInfo) (flag : UInt32) : Bool :=
  magic == MULTIBOOT_BOOTLOADER_MAGIC && mbi.flags &&& flag != 0

/-- `memory_size_kb`. -/
def memorySizeKb (magic : UInt32) (mbi : MultibootInfo) : UInt32 :=
  if hasInfo magic mbi MULTIBOOT_INFO_MEMORY then 1024 + mbi.memUpper else 128 * 1024

/-- The value `init_pmm` gives to `total_memory_pages`. -/
def totalPages (magic : UInt32) (mbi : MultibootInfo) : UInt32 :=
  let total := memorySizeKb magic mbi * 1024 / PAGE_SIZE
  if MAX_PAGES < total then MAX_PAGES else total

def initPmm (kernel : KernelImage) (magic : UInt32) (mbi : MultibootInfo) : Pages :=
  let total := totalPages magic mbi
  let p : Pages := ⟨fun _ => 0xFFFFFFFF#32, total, total⟩
  let p :=
    if hasInfo magic mbi MULTIBOOT_INFO_MEM_MAP then
      mbi.mmap.foldl (fun p mmap =>
        if mmap.type = MULTIBOOT_MEMORY_AVAILABLE then
          pmmMarkRegionFree p mmap.addrLow mmap.lenLow
        else p) p
    else pmmMarkRegionFree p 0x100000 ((memorySizeKb magic mbi - 1024) * 1024)
  let p := pmmMarkRegionUsed p 0x0 0x100000
  pmmMarkRegionUsed p 0x100000 (kernel.kernelEnd - 0x100000)

/-! ### Allocation -/

/-- `pmm_alloc_page`: the address of the page, `0` when there is none. -/
def pmmAllocPage (p : Pages) : UInt32 × Pages :=
  let freePage := findFirstFreePage p
  if freePage = -1 then (0, p)
  else
    let pageIdx := UInt32.ofNat freePage.toNat
    (pageIdx * PAGE_SIZE, bitmapSet p pageIdx)

def pmmFreePage (p : Pages) (ptr : UInt32) : Pages := bitmapUnset p (ptr / PAGE_SIZE)

/-! ### Free pages -/

/-- Page `i` exists and is not marked. -/
def Free (p : Pages) (i : ℕ) : Prop :=
  i < p.totalMemoryPages.toNat ∧ p.memoryBitmap.test i = false

instance (p : Pages) (i : ℕ) : Decidable (Free p i) := inferInstanceAs (Decidable (_ ∧ _))

@[simp] theorem totalMemoryPages_bitmapSet (p : Pages) (k : UInt32) :
    (bitmapSet p k).totalMemoryPages = p.totalMemoryPages := by
  unfold bitmapSet
  split_ifs <;> rfl

@[simp] theorem totalMemoryPages_bitmapUnset (p : Pages) (k : UInt32) :
    (bitmapUnset p k).totalMemoryPages = p.totalMemoryPages := by
  unfold bitmapUnset
  split_ifs <;> rfl

theorem free_bitmapSet (p : Pages) (k : UInt32) (i : ℕ) :
    Free (bitmapSet p k) i ↔ Free p i ∧ i ≠ k.toNat := by
  unfold Free
  rw [totalMemoryPages_bitmapSet]
  unfold bitmapSet
  split_ifs with h1 h2
  · simp only [Bitmap.test_set, Bool.or_eq_false_iff, decide_eq_false_iff_not, ne_eq, and_assoc,
      @eq_comm _ k.toNat]
  · refine ⟨fun h => ⟨h, ?_⟩, fun h => h.1⟩
    rintro rfl
    simp [h.2] at h2
  · refine ⟨fun h => ⟨h, ?_⟩, fun h => h.1⟩
    rintro rfl
    exact h1 h.1

theorem free_bitmapUnset (p : Pages) (k : UInt32) (i : ℕ) :
    Free (bitmapUnset p k) i ↔ Free p i ∨ (i = k.toNat ∧ i < p.totalMemoryPages.toNat) := by
  unfold Free
  rw [totalMemoryPages_bitmapUnset]
  unfold bitmapUnset
  split_ifs with h1 h2
  · rw [Bitmap.test_unset]
    by_cases hik : i = k.toNat
    · subst hik
      exact ⟨fun h => Or.inr ⟨rfl, h.1⟩, fun _ => ⟨h1, by simp⟩⟩
    · simp [hik, Ne.symm hik]
  · refine ⟨Or.inl, ?_⟩
    rintro (h | ⟨rfl, h⟩)
    · exact h
    · exact ⟨h, by simpa using h2⟩
  · refine ⟨Or.inl, ?_⟩
    rintro (h | ⟨rfl, h⟩)
    · exact h
    · exact absurd h h1

/-! ### Regions -/

theorem totalMemoryPages_foldl {α : Type} (f : Pages → α → Pages)
    (hf : ∀ p a, (f p a).totalMemoryPages = p.totalMemoryPages) (l : List α) (p : Pages) :
    (l.foldl f p).totalMemoryPages = p.totalMemoryPages := by
  induction l generalizing p with
  | nil => rfl
  | cons a l ih => rw [List.foldl_cons, ih, hf]

@[simp] theorem totalMemoryPages_pmmMarkRegionUsed (p : Pages) (base length : UInt32) :
    (pmmMarkRegionUsed p base length).totalMemoryPages = p.totalMemoryPages :=
  totalMemoryPages_foldl _ (fun _ _ => totalMemoryPages_bitmapSet _ _) _ p

@[simp] theorem totalMemoryPages_pmmMarkRegionFree (p : Pages) (base length : UInt32) :
    (pmmMarkRegionFree p base length).totalMemoryPages = p.totalMemoryPages :=
  totalMemoryPages_foldl _ (fun _ _ => totalMemoryPages_bitmapUnset _ _) _ p

theorem free_foldl_bitmapSet (f : ℕ → UInt32) (l : List ℕ) (p : Pages) (i : ℕ) :
    Free (l.foldl (fun p k => bitmapSet p (f k)) p) i ↔ Free p i ∧ ∀ k ∈ l, i ≠ (f k).toNat := by
  induction l generalizing p with
  | nil => simp
  | cons k l ih =>
      rw [List.foldl_cons, ih, free_bitmapSet]
      simp only [List.mem_cons, forall_eq_or_imp, and_assoc]

theorem free_foldl_bitmapUnset (f : ℕ → UInt32) (l : List ℕ) (p : Pages) (i : ℕ) :
    Free (l.foldl (fun p k => bitmapUnset p (f k)) p) i ↔
      Free p i ∨ (i < p.totalMemoryPages.toNat ∧ ∃ k ∈ l, i = (f k).toNat) := by
  induction l generalizing p with
  | nil => simp
  | cons k l ih =>
      rw [List.foldl_cons, ih, free_bitmapUnset, totalMemoryPages_bitmapUnset]
      simp only [List.mem_cons, exists_eq_or_imp]
      tauto

/-- First and last page (exclusive) that `pmm_mark_region_free` opens. -/
def freeWindow (base length : UInt32) (i : ℕ) : Prop :=
  ((base + PAGE_SIZE - 1) / PAGE_SIZE).toNat ≤ i ∧ i < ((base + length) / PAGE_SIZE).toNat

instance (base length : UInt32) (i : ℕ) : Decidable (freeWindow base length i) :=
  inferInstanceAs (Decidable (_ ∧ _))

theorem toNat_div_page (a : UInt32) : (a / PAGE_SIZE).toNat = a.toNat / 4096 := UInt32.toNat_div _ _

theorem toNat_add_page_sub_one (a : UInt32) :
    (a + PAGE_SIZE - 1).toNat = (a.toNat + 4095) % 2 ^ 32 := by
  have h : PAGE_SIZE.toNat = 4096 := rfl
  rw [UInt32.toNat_sub, UInt32.toNat_add, h, UInt32.toNat_one]
  omega

theorem free_pmmMarkRegionFree (p : Pages) (base length : UInt32) (i : ℕ) :
    Free (pmmMarkRegionFree p base length) i ↔
      Free p i ∨ (i < p.totalMemoryPages.toNat ∧ freeWindow base length i) := by
  unfold pmmMarkRegionFree freeWindow
  rw [free_foldl_bitmapUnset]
  refine or_congr Iff.rfl (and_congr_right fun hi => ?_)
  have ht := p.totalMemoryPages.toNat_lt
  constructor
  · rintro ⟨k, hk, rfl⟩
    rw [List.mem_range'_1] at hk
    have hend : ((base + length) / PAGE_SIZE).toNat < 2 ^ 32 := UInt32.toNat_lt _
    have : (UInt32.ofNat k).toNat = k := by
      rw [UInt32.toNat_ofNat', Nat.mod_eq_of_lt (by omega)]
    rw [this]
    omega
  · rintro ⟨h1, h2⟩
    refine ⟨i, ?_, ?_⟩
    · rw [List.mem_range'_1]
      omega
    · rw [UInt32.toNat_ofNat', Nat.mod_eq_of_lt (by omega)]

/-- The pages from the start of a region up to its end, rounded up, are locked. -/
theorem free_pmmMarkRegionUsed (p : Pages) {base length : UInt32}
    (h : base.toNat / 4096 + (length.toNat + 4095) / 4096 < 2 ^ 32)
    (hl : length.toNat + 4095 < 2 ^ 32) (i : ℕ) :
    Free (pmmMarkRegionUsed p base length) i ↔ Free p i ∧
      ¬ (base.toNat / 4096 ≤ i ∧ i < base.toNat / 4096 + (length.toNat + 4095) / 4096) := by
  have hnum : ((length + PAGE_SIZE - 1) / PAGE_SIZE).toNat = (length.toNat + 4095) / 4096 := by
    rw [toNat_div_page, toNat_add_page_sub_one, Nat.mod_eq_of_lt hl]
  unfold pmmMarkRegionUsed
  rw [free_foldl_bitmapSet]
  refine and_congr_right fun hi => ?_
  have hval : ∀ k < (length.toNat + 4095) / 4096,
      (base / PAGE_SIZE + UInt32.ofNat k).toNat = base.toNat / 4096 + k := by
    intro k hk
    rw [UInt32.toNat_add, toNat_div_page, UInt32.toNat_ofNat', Nat.mod_eq_of_lt (a := k) (by omega),
      Nat.mod_eq_of_lt (by omega)]
  simp only [List.mem_range, hnum]
  constructor
  · rintro hk ⟨h1, h2⟩
    refine hk (i - base.toNat / 4096) (by omega) ?_
    rw [hval _ (by omega)]
    omega
  · intro hno k hk he
    rw [hval k hk] at he
    omega

/-! ### The pages free after boot -/

/-- The pages that `init_pmm` opens before it locks low memory and the kernel. -/
def Opened (magic : UInt32) (mbi : MultibootInfo) (i : ℕ) : Prop :=
  if hasInfo magic mbi MULTIBOOT_INFO_MEM_MAP then
    ∃ e ∈ mbi.mmap, e.type = MULTIBOOT_MEMORY_AVAILABLE ∧ freeWindow e.addrLow e.lenLow i
  else freeWindow 0x100000 ((memorySizeKb magic mbi - 1024) * 1024) i

/-- The number of pages up to the end of the kernel. -/
def kernelPages (kernel : KernelImage) : ℕ := (kernel.kernelEnd.toNat + 4095) / 4096

theorem totalPages_lt (magic : UInt32) (mbi : MultibootInfo) :
    (totalPages magic mbi).toNat < 2 ^ 20 := by
  have h : (memorySizeKb magic mbi * 1024 / PAGE_SIZE).toNat < 2 ^ 20 := by
    rw [toNat_div_page]
    have := (memorySizeKb magic mbi * 1024).toNat_lt
    omega
  have hmax : ¬ MAX_PAGES < memorySizeKb magic mbi * 1024 / PAGE_SIZE := by
    intro hlt
    have hlt' := UInt32.lt_iff_toNat_lt.mp hlt
    have hmax : MAX_PAGES.toNat = 1048576 := by decide
    omega
  unfold totalPages
  simp only [hmax, if_false]
  exact h

theorem free_foldl_mmap (l : List MmapEntry) (p : Pages) (i : ℕ) :
    Free (l.foldl (fun p e => if e.type = MULTIBOOT_MEMORY_AVAILABLE then
      pmmMarkRegionFree p e.addrLow e.lenLow else p) p) i ↔
      Free p i ∨ (i < p.totalMemoryPages.toNat ∧ ∃ e ∈ l,
        e.type = MULTIBOOT_MEMORY_AVAILABLE ∧ freeWindow e.addrLow e.lenLow i) := by
  induction l generalizing p with
  | nil => simp
  | cons e l ih =>
      rw [List.foldl_cons, ih]
      by_cases ht : e.type = MULTIBOOT_MEMORY_AVAILABLE
      · rw [if_pos ht, free_pmmMarkRegionFree, totalMemoryPages_pmmMarkRegionFree, or_assoc,
          ← and_or_left]
        simp only [List.mem_cons, exists_eq_or_imp, ht, true_and]
      · simp only [ht, if_false, List.mem_cons, exists_eq_or_imp, false_and, false_or]

/-- **What is free after boot**: the opened pages below the detected memory size and above the
kernel. -/
theorem free_initPmm (kernel : KernelImage) (magic : UInt32) (mbi : MultibootInfo) (i : ℕ) :
    Free (initPmm kernel magic mbi) i ↔
      i < (totalPages magic mbi).toNat ∧ Opened magic mbi i ∧ kernelPages kernel ≤ i := by
  have hge := kernel.ge
  have hlt := kernel.kernelEnd.toNat_lt
  have hlen : (kernel.kernelEnd - 0x100000).toNat = kernel.kernelEnd.toNat - 0x100000 := by
    rw [UInt32.toNat_sub_of_le]
    · rfl
    · exact hge
  -- all pages are locked to begin with
  have hfull : ∀ t : UInt32, ¬ Free ⟨fun _ => 0xFFFFFFFF#32, t, t⟩ i := by
    rintro t ⟨_, ht⟩
    rw [Bitmap.test_full] at ht
    cases ht
  unfold initPmm
  simp only
  rw [free_pmmMarkRegionUsed _ (by rw [hlen]; show 0x100000 / 4096 + _ < _; omega)
      (by rw [hlen]; omega),
    free_pmmMarkRegionUsed _ (by decide) (by decide), hlen]
  have hopen : Free (if hasInfo magic mbi MULTIBOOT_INFO_MEM_MAP then
        mbi.mmap.foldl (fun p mmap => if mmap.type = MULTIBOOT_MEMORY_AVAILABLE then
          pmmMarkRegionFree p mmap.addrLow mmap.lenLow else p)
          ⟨fun _ => 0xFFFFFFFF#32, totalPages magic mbi, totalPages magic mbi⟩
      else pmmMarkRegionFree
        ⟨fun _ => 0xFFFFFFFF#32, totalPages magic mbi, totalPages magic mbi⟩ 0x100000
        ((memorySizeKb magic mbi - 1024) * 1024)) i ↔
      i < (totalPages magic mbi).toNat ∧ Opened magic mbi i := by
    unfold Opened
    split_ifs with hm
    · rw [free_foldl_mmap]
      simp [hfull]
    · rw [free_pmmMarkRegionFree]
      simp [hfull]
  rw [hopen]
  unfold kernelPages
  constructor
  · rintro ⟨⟨⟨h1, h2⟩, h3⟩, h4⟩
    refine ⟨h1, h2, ?_⟩
    change ¬ (0 / 4096 ≤ i ∧ i < 0 / 4096 + (0x100000 + 4095) / 4096) at h3
    change ¬ (0x100000 / 4096 ≤ i ∧
      i < 0x100000 / 4096 + (kernel.kernelEnd.toNat - 0x100000 + 4095) / 4096) at h4
    omega
  · rintro ⟨h1, h2, h3⟩
    refine ⟨⟨⟨h1, h2⟩, ?_⟩, ?_⟩
    · show ¬ (0 / 4096 ≤ i ∧ i < 0 / 4096 + (0x100000 + 4095) / 4096)
      omega
    · show ¬ (0x100000 / 4096 ≤ i ∧
        i < 0x100000 / 4096 + (kernel.kernelEnd.toNat - 0x100000 + 4095) / 4096)
      omega

theorem totalMemoryPages_initPmm (kernel : KernelImage) (magic : UInt32) (mbi : MultibootInfo) :
    (initPmm kernel magic mbi).totalMemoryPages = totalPages magic mbi := by
  unfold initPmm
  simp only [totalMemoryPages_pmmMarkRegionUsed]
  split_ifs
  · refine totalMemoryPages_foldl _ (fun p e => ?_) _ _
    split_ifs <;> simp
  · rw [totalMemoryPages_pmmMarkRegionFree]

end NosmeriOs.Pmm
