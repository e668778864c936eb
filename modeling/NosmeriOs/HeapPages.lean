import NosmeriOs.HeapFit
import NosmeriOs.PmmAvailable
import NosmeriOs.PmmPreemption
import NosmeriOs.TaskProgress
import NosmeriOs.VmmHeap

/-! # The heap and its pages

`kmalloc` takes its pages from `pmm_alloc_page`, and each one may cost another for a page table.

* `Workable`: a machine on which the heap can grow.  `Workable.growHeap` counts the pages that
  one growth takes, `supplied_iff` those of several.
* Runs (`heapRun`) start at `init_heap`; between two calls of the heap the rest of the kernel may
  leave any other workable machine, with other pages in use and another directory loaded.
* `run_firstFit`: `kmalloc` returns, takes the first block that fits after the least growth, and
  fails only when the heap or the pages are at their end.
* `run_failed_kmalloc_iff`: the growth before a failure is not undone. -/

namespace NosmeriOs.Tasks

open Vmm Heap

/-! ### Pages left -/

/-- The number of pages that `pmm_alloc_page` can still give: it finds those in the whole words of
the bitmap. -/
def available (p : Pmm.Pages) : ℕ :=
  Nat.count (Pmm.Free p) (p.totalMemoryPages.toNat / 32 * 32)

section available
variable {img : Image} {m : Machine}

theorem available_take (hp : PagesInv img m.pages) {f : ℕ} (hf : Pmm.Free m.pages f)
    (hlt : f < m.pages.totalMemoryPages.toNat / 32 * 32) :
    available m.pages = available (m.take f).pages + 1 := by
  have hf20 : f < 2 ^ 20 := hf.1.trans hp.total
  have htotal : (m.take f).pages.totalMemoryPages = m.pages.totalMemoryPages :=
    Pmm.totalMemoryPages_bitmapSet ..
  unfold available
  rw [htotal]
  refine Pmm.count_insert hlt (fun h => ((Machine.free_take hf20 f).1 h).2 rfl) fun i => ?_
  rw [Machine.free_take hf20]
  constructor
  · intro h
    by_cases hi : i = f
    · exact Or.inr hi
    · exact Or.inl ⟨h, hi⟩
  · rintro (h | rfl)
    · exact h.1
    · exact hf

/-- `pmm_alloc_page` gives one of the pages left, as long as there are any. -/
theorem allocPage_available (hp : PagesInv img m.pages) :
    (available m.pages = 0 ∧ m.allocPage = (0, { m with outOfMemory := true })) ∨
      ∃ f, IsFree img m f ∧ m.allocPage = (frameAddr f, m.take f) ∧
        available m.pages = available (m.take f).pages + 1 := by
  obtain ⟨hnone, -⟩ | ⟨f, hfind, hf, -, -⟩ := Pmm.pmmAllocPage_cases hp.total.le
  · refine Or.inl ⟨?_, ?_⟩
    · unfold available
      rw [Nat.count_iff_forall_not]
      intro i hi hfree
      obtain ⟨j, -, hj, -⟩ := Pmm.findFirstFreePage_le hfree (by omega)
      rw [hnone] at hj
      omega
    · obtain he | ⟨f, hf, he⟩ := allocPage_cases hp
      · exact he
      · exfalso
        obtain ⟨-, h0⟩ | ⟨i, hi, -⟩ := Pmm.pmmAllocPage_cases hp.total.le
        · have hz : frameAddr f = 0 := by
            have hfst := allocPage_fst m
            rw [he, h0] at hfst
            exact hfst
          exact hf.ne_zero ((frameAddr_eq_zero hf.lt).1 hz)
        · rw [hnone] at hi
          omega
  · have hfree := hp.isFree hf
    exact Or.inr ⟨f, hfree, allocPage_of_found hp.total.le hfind hfree.ne_zero,
      available_take hp hf (Pmm.lt_of_findFirstFreePage hfind)⟩

end available

/-! ### Growing on a machine -/

/-- No page of the kernel image is free, and the loaded directory is a page in use, under which
the kernel can work and which is none of the tables of the heap. -/
structure Workable (img : Image) (m : Machine) : Prop where
  pages : PagesInv img m.pages
  space : IsSpace img m (frameOf m.cr3)
  used : ¬ Pmm.Free m.pages (frameOf m.cr3)
  ne_zero : frameOf m.cr3 ≠ 0
  tables : ∀ i, IsHeapSlot i → present (m.pde i) = true → frameOf (m.pde i) ≠ frameOf m.cr3

section workable
variable {img : Image} {m : Machine}

theorem Workable.outOfMemory (h : Workable img m) :
    Workable img { m with outOfMemory := true } :=
  ⟨h.pages, isSpace_congr h.space rfl rfl, h.used, h.ne_zero, h.tables⟩

theorem Workable.take (h : Workable img m) {f : ℕ} (hf : IsFree img m f) :
    Workable img (m.take f) :=
  ⟨h.pages.take hf.lt, isSpace_congr h.space rfl rfl,
    fun hd => h.used ((Machine.free_take hf.lt _).1 hd).1, h.ne_zero, h.tables⟩

theorem pdIdx_heap {e : ℕ} (h1 : HEAP_START ≤ e) (h2 : e < HEAP_MAX_ADDR) :
    pdIdx (UInt32.ofNat e) = e / 2 ^ 22 ∧ IsHeapSlot (e / 2 ^ 22) := by
  simp only [HEAP_START] at h1
  simp only [HEAP_MAX_ADDR] at h2
  have he : (UInt32.ofNat e).toNat = e := by
    rw [UInt32.toNat_ofNat']
    omega
  constructor
  · unfold pdIdx
    rw [he]
  · unfold IsHeapSlot
    omega

/-- A heap page is mapped.  If the slot has no table, one is put there, with a page that is left
or, when there is none, over page 0. -/
theorem Workable.mapPage (h : Workable img m) {e : ℕ} (h1 : HEAP_START ≤ e)
    (h2 : e < HEAP_MAX_ADDR) (physAddr flags : UInt32) :
    ∃ m', vmmMapPage img m (UInt32.ofNat e) physAddr flags = some m' ∧ Workable img m' ∧
      available m'.pages =
        available m.pages - (if present (m.pde (e / 2 ^ 22)) then 0 else 1) ∧
      ∀ i, present (m'.pde i) = true ↔ present (m.pde i) = true ∨ i = e / 2 ^ 22 := by
  obtain ⟨hidx, hslot⟩ := pdIdx_heap h1 h2
  cases hp : present (m.pde (e / 2 ^ 22)) with
  | true =>
      have hp' : present (m.pde (pdIdx (UInt32.ofNat e))) = true := by rw [hidx, hp]
      have hne := h.tables _ hslot hp
      -- the table is another page than the directory
      have hdir : ∀ w i, (m.setWord (frameOf (m.pde (pdIdx (UInt32.ofNat e))))
          (ptIdx (UInt32.ofNat e)) w).frames (frameOf m.cr3) i = m.frames (frameOf m.cr3) i := by
        intro w i
        rw [Machine.frames_setWord, if_neg]
        rintro ⟨he, -⟩
        exact hne (by rw [he, hidx])
      have hpde : ∀ w i, (m.setWord (frameOf (m.pde (pdIdx (UInt32.ofNat e))))
          (ptIdx (UInt32.ofNat e)) w).pde i = m.pde i := hdir
      refine ⟨_, vmmMapPage_of_present h.space.selfMapped hp' physAddr flags,
        ⟨h.pages, ?_, h.used, h.ne_zero, fun i hi hpi => ?_⟩, ?_, fun i => ?_⟩
      · exact isSpace_congr h.space (hdir _ 0) (hdir _ 1023)
      · rw [hpde] at hpi ⊢
        exact h.tables i hi hpi
      · simp
      · rw [hpde]
        constructor
        · exact Or.inl
        · rintro (hpi | rfl)
          · exact hpi
          · exact hp
  | false =>
      have hp' : present (m.pde (pdIdx (UInt32.ofNat e))) = false := by rw [hidx, hp]
      obtain ⟨f, m₁, halloc, hframes, hcr3, hf, hfd, hw₁, hav⟩ : ∃ f m₁,
          m.allocPage = (frameAddr f, m₁) ∧ m₁.frames = m.frames ∧ m₁.cr3 = m.cr3 ∧ f < 2 ^ 20 ∧
          f ≠ frameOf m.cr3 ∧ Workable img m₁ ∧ available m₁.pages = available m.pages - 1 := by
        obtain ⟨h0, he⟩ | ⟨f, hf, he, hav⟩ := allocPage_available h.pages
        · refine ⟨0, _, he, rfl, rfl, by decide, h.ne_zero.symm, h.outOfMemory, ?_⟩
          dsimp only
          omega
        · refine ⟨f, _, he, rfl, rfl, hf.lt, ?_, h.take hf, by omega⟩
          rintro rfl
          exact h.used hf.free
      have hdir : ∀ w i, ((withTable img m₁ (UInt32.ofNat e) f).setWord f (ptIdx (UInt32.ofNat e))
          w).frames (frameOf m.cr3) i =
            if i = e / 2 ^ 22 then tableEntry f else m.frames (frameOf m.cr3) i := by
        intro w i
        rw [Machine.frames_setWord, if_neg (fun he => hfd he.1.symm), frames_withTable,
          if_neg hfd.symm, hframes, hcr3, hidx]
        by_cases hi : i = e / 2 ^ 22
        · rw [if_pos ⟨hi, Or.inl rfl⟩, if_pos hi]
        · rw [if_neg (fun he => hi he.1), if_neg hi]
      have hpde : ∀ w i, ((withTable img m₁ (UInt32.ofNat e) f).setWord f (ptIdx (UInt32.ofNat e))
          w).pde i = if i = e / 2 ^ 22 then tableEntry f else m.pde i := by
        intro w i
        unfold Machine.pde
        rw [Machine.cr3_setWord, cr3_withTable, hcr3, hdir]
      have hslot' := hslot
      unfold IsHeapSlot at hslot'
      refine ⟨_, vmmMapPage_of_absent h.space.selfMapped hp' halloc hframes hcr3 hf hfd physAddr
        flags,
        ⟨?_, ?_, ?_, ?_, fun i hi hpi => ?_⟩, ?_, fun i => ?_⟩
      · rw [Machine.pages_setWord, pages_withTable]
        exact hw₁.pages
      · rw [Machine.cr3_setWord, cr3_withTable, hcr3]
        refine isSpace_congr h.space ?_ ?_
        · rw [hdir, if_neg (by omega)]
        · rw [hdir, if_neg (by omega)]
      · rw [Machine.pages_setWord, pages_withTable, Machine.cr3_setWord, cr3_withTable]
        exact hw₁.used
      · rw [Machine.cr3_setWord, cr3_withTable]
        exact hw₁.ne_zero
      · rw [hpde] at hpi ⊢
        rw [Machine.cr3_setWord, cr3_withTable, hcr3]
        by_cases hie : i = e / 2 ^ 22
        · rw [if_pos hie, frameOf_tableEntry hf]
          exact hfd
        · rw [if_neg hie] at hpi ⊢
          exact h.tables i hi hpi
      · rw [Machine.pages_setWord, pages_withTable, hav]
        rfl
      · rw [hpde]
        by_cases hi : i = e / 2 ^ 22
        · simp [hi, present_tableEntry hf]
        · rw [if_neg hi]
          exact ⟨Or.inl, fun hor => hor.resolve_right hi⟩

/-- The heap gets a page as long as one is left, and the machine goes on. -/
theorem Workable.growHeap (h : Workable img m) {e : ℕ} (h1 : HEAP_START ≤ e)
    (h2 : e < HEAP_MAX_ADDR) :
    (available m.pages = 0 ∧
      Kernel.growHeap img e (some m) = (none, some { m with outOfMemory := true })) ∨
    available m.pages ≠ 0 ∧ ∃ page m', Kernel.growHeap img e (some m) = (some page, some m') ∧
      Workable img m' ∧
      available m'.pages =
        available m.pages - 1 - (if present (m.pde (e / 2 ^ 22)) then 0 else 1) ∧
      ∀ i, present (m'.pde i) = true ↔ present (m.pde i) = true ∨ i = e / 2 ^ 22 := by
  obtain ⟨h0, he⟩ | ⟨f, hf, he, hav⟩ := allocPage_available h.pages
  · refine Or.inl ⟨h0, ?_⟩
    unfold Kernel.growHeap
    simp [he]
  · have hne : frameAddr f ≠ 0 := fun hz => hf.ne_zero ((frameAddr_eq_zero hf.lt).1 hz)
    obtain ⟨m', hmap, hw, hav', hpde⟩ := (h.take hf).mapPage h1 h2 (frameAddr f)
      (PAGE_PRESENT ||| PAGE_RW)
    refine Or.inr ⟨by omega, Kernel.frameBytes m' (frameOf (frameAddr f)), m', ?_, hw, ?_, hpde⟩
    · unfold Kernel.growHeap
      simp only [he, hne, if_false, hmap]
    · rw [hav', hav, Nat.add_sub_cancel]
      rfl

/-- The heap gets no page when none is left, and asking for one changes nothing. -/
theorem Workable.of_none (h : Workable img m) {e : ℕ} (h1 : HEAP_START ≤ e)
    (h2 : e < HEAP_MAX_ADDR) {s : Option Machine}
    (hg : Kernel.growHeap img e (some m) = (none, s)) :
    available m.pages = 0 ∧ s = some { m with outOfMemory := true } := by
  obtain ⟨h0, he⟩ | ⟨-, page, m', he, -⟩ := h.growHeap h1 h2
  · rw [he] at hg
    exact ⟨h0, (congrArg Prod.snd hg).symm⟩
  · rw [he] at hg
    cases congrArg Prod.fst hg

/-- The machine goes on through `kmalloc`. -/
theorem Workable.kmalloc_pager (h : Workable img m) {s : Heap.State} {ptrs : List ℕ}
    (ho : Owns s ptrs) (bytes : UInt32) :
    ∃ m', (Heap.kmalloc (Kernel.growHeap img) bytes s (some m)).2.2 = some m' ∧
      Workable img m' := by
  refine Heap.kmalloc_pager (P := fun o => ∃ m, o = some m ∧ Workable img m) ?_ ho bytes
    ⟨m, rfl, h⟩
  rintro e _ h1 h2 ⟨m, rfl, hw⟩
  obtain ⟨-, hg⟩ | ⟨-, page, m', hg, hw', -, -⟩ := hw.growHeap h1 h2
  · exact ⟨_, by rw [hg], hw.outOfMemory⟩
  · exact ⟨m', by rw [hg], hw'⟩

/-! ### Growing by several pages -/

/-- The `j`-th page from `e` on is the first in a slot of the directory that has no table. -/
def needsTable (m : Machine) (e j : ℕ) : Bool :=
  !present (m.pde ((e + PAGE_SIZE * j) / 2 ^ 22)) &&
    (j == 0 || (e + PAGE_SIZE * j) % 2 ^ 22 == 0)

/-- How many page tables the `k` pages from `e` on need. -/
def tablesNeeded (m : Machine) (e k : ℕ) : ℕ := Nat.count (fun j => needsTable m e j = true) k

theorem needsTable_succ {m' : Machine} {e : ℕ} (he : e % PAGE_SIZE = 0)
    (hpde : ∀ i, present (m'.pde i) = true ↔ present (m.pde i) = true ∨ i = e / 2 ^ 22) (j : ℕ) :
    needsTable m e (j + 1) = needsTable m' (e + PAGE_SIZE) j := by
  have hx : e + PAGE_SIZE + PAGE_SIZE * j = e + PAGE_SIZE * (j + 1) := by ring
  have hslot := hpde ((e + PAGE_SIZE * (j + 1)) / 2 ^ 22)
  -- a page at the start of a slot is in another one than `e`
  have hne : (e + PAGE_SIZE * (j + 1)) % 2 ^ 22 = 0 →
      (e + PAGE_SIZE * (j + 1)) / 2 ^ 22 ≠ e / 2 ^ 22 := by
    simp only [PAGE_SIZE]
    omega
  have hsame : j = 0 → (e + PAGE_SIZE * (j + 1)) % 2 ^ 22 ≠ 0 →
      (e + PAGE_SIZE * (j + 1)) / 2 ^ 22 = e / 2 ^ 22 := by
    simp only [PAGE_SIZE] at he ⊢
    omega
  unfold needsTable
  rw [hx]
  generalize e + PAGE_SIZE * (j + 1) = x at hslot hne hsame
  rw [Bool.eq_iff_iff]
  simp only [Bool.and_eq_true, Bool.not_eq_true', ← Bool.not_eq_true, hslot, Bool.or_eq_true,
    beq_iff_eq]
  have hj : j + 1 ≠ 0 := Nat.succ_ne_zero j
  tauto

theorem tablesNeeded_succ {m' : Machine} {e : ℕ} (he : e % PAGE_SIZE = 0)
    (hpde : ∀ i, present (m'.pde i) = true ↔ present (m.pde i) = true ∨ i = e / 2 ^ 22) (k : ℕ) :
    tablesNeeded m e (k + 1) =
      tablesNeeded m' (e + PAGE_SIZE) k + (if present (m.pde (e / 2 ^ 22)) then 0 else 1) := by
  unfold tablesNeeded
  rw [Nat.count_succ']
  simp only [needsTable_succ he hpde]
  congr 1
  unfold needsTable
  rw [mul_zero, add_zero]
  cases present (m.pde (e / 2 ^ 22)) with
  | true => simp
  | false => simp

/-- The supply of `k` pages, counted. -/
theorem Workable.supplied_iff (h : Workable img m) {e : ℕ} (h1 : HEAP_START ≤ e)
    (he : e % PAGE_SIZE = 0) (k : ℕ) :
    Supplied (Kernel.growHeap img) k e (some m) ↔
      k = 0 ∨ e + PAGE_SIZE * k ≤ HEAP_MAX_ADDR ∧
        k + tablesNeeded m e (k - 1) ≤ available m.pages := by
  induction k generalizing e m with
  | zero => simp [Supplied]
  | succ k ih =>
      by_cases hmax : e + PAGE_SIZE ≤ HEAP_MAX_ADDR
      · have hlt : e < HEAP_MAX_ADDR := by
          simp only [PAGE_SIZE] at hmax
          omega
        obtain ⟨h0, hg⟩ | ⟨h0, page, m', hg, hw, hav, hpde⟩ := h.growHeap h1 hlt
        · simp [Supplied, hg, h0]
        · have he' : (e + PAGE_SIZE) % PAGE_SIZE = 0 := by
            rw [Nat.add_mod_right]
            exact he
          have hnext : e + PAGE_SIZE + PAGE_SIZE * k = e + PAGE_SIZE * (k + 1) := by ring
          rw [Supplied, hg, ih hw (by omega) he', hav, hnext]
          simp only [ne_eq, reduceCtorEq, not_false_eq_true, true_and, hmax]
          cases k with
          | zero =>
              simp only [true_or, zero_add, mul_one, hmax, true_and, tablesNeeded, Nat.sub_self,
                Nat.count_zero, true_iff]
              omega
          | succ k =>
              have htables := tablesNeeded_succ he hpde k
              simp only [Nat.add_sub_cancel] at htables ⊢
              rw [htables]
              refine or_congr (by simp) (and_congr_right fun _ => ?_)
              split_ifs
              · omega
              · omega
      · refine iff_of_false (fun hs => hmax hs.1) ?_
        simp only [PAGE_SIZE] at hmax ⊢
        omega

/-- The machine goes on through the growth. -/
theorem Workable.supplyAfter (h : Workable img m) {e k : ℕ} (h1 : HEAP_START ≤ e)
    (hs : Supplied (Kernel.growHeap img) k e (some m)) :
    ∃ m', supplyAfter (Kernel.growHeap img) k e (some m) = some m' ∧ Workable img m' := by
  induction k generalizing e m with
  | zero => exact ⟨m, rfl, h⟩
  | succ k ih =>
      obtain ⟨hmax, hsome, hs⟩ := hs
      have hlt : e < HEAP_MAX_ADDR := by
        simp only [PAGE_SIZE] at hmax
        omega
      obtain ⟨-, hg⟩ | ⟨-, page, m', hg, hw, -, -⟩ := h.growHeap h1 hlt
      · rw [hg] at hsome
        exact absurd rfl hsome
      · rw [hg] at hs
        obtain ⟨m'', he, hw'⟩ := ih hw (by omega) hs
        refine ⟨m'', ?_, hw'⟩
        unfold Heap.supplyAfter
        rw [hg]
        exact he

end workable

/-! ### Runs -/

/-- A call of the heap, or what the rest of the kernel does between two of them: it leaves some
other workable machine. -/
inductive PagedCall (img : Image) where
  | heap (c : Call)
  | other (m : Machine) (hm : Workable img m)

section run
variable (img : Image)

/-- After `init_pmm`, `init_vmm` and `init_heap`, on a machine with any contents. -/
def heapStart (magic : UInt32) (mbi : Pmm.MultibootInfo) (k : Kernel) :
    RunState (Option Machine) :=
  let m := { k.machine with
    pages := Pmm.initPmm img.toKernelImage magic mbi
    outOfMemory := false
    highDirectory := false }
  match ({ k with machine := initVmm img m }).initHeap img with
  | some k => ⟨k.heap, some k.machine, []⟩
  | none => ⟨k.heap, none, []⟩

def heapStep (st : RunState (Option Machine)) : PagedCall img → RunState (Option Machine)
  | .heap c => st.step (Kernel.growHeap img) c
  | .other m _ => { st with pager := some m }

def heapRun (magic : UInt32) (mbi : Pmm.MultibootInfo) (k : Kernel)
    (calls : List (PagedCall img)) : RunState (Option Machine) :=
  calls.foldl (heapStep img) (heapStart img magic mbi k)

/-- The heap is in order, and the machine has not stopped. -/
def PagedOk (st : RunState (Option Machine)) : Prop :=
  (∃ bs, st.Inv bs) ∧ ∃ m, st.pager = some m ∧ Workable img m

end run

section run
variable {img : Image} {st : RunState (Option Machine)}

theorem workable_initVmm (m : Machine) (hp : PagesInv img m.pages) :
    Workable img (initVmm img m) := by
  have hlt := img.directory_lt
  have hmem := img.directory_mem
  have hd : frameOf (initVmm img m).cr3 = img.pageDirectory := frameOf_frameAddr (by omega)
  refine ⟨hp, ?_, fun hf => ?_, ?_, fun i hi hpi => ?_⟩
  · rw [hd]
    exact isSpace_initVmm img m
  · rw [hd] at hf
    have := hp.kernel _ hf
    omega
  · omega
  · unfold Machine.pde at hpi
    unfold IsHeapSlot at hi
    rw [hd, frames_initVmm_directory] at hpi
    simp only at hpi
    rw [if_neg (by omega), if_neg (by omega), present_zero] at hpi
    cases hpi

theorem Workable.initHeap {k : Kernel} (h : Workable img k.machine) :
    ∃ m mem, k.initHeap img = some { k with machine := m, heap := Heap.initHeap mem } ∧
      Workable img m ∧ available k.machine.pages ≤ available m.pages + 2 := by
  obtain ⟨p, m₁, halloc, hw₁, hav₁⟩ : ∃ p m₁, k.machine.allocPage = (p, m₁) ∧
      Workable img m₁ ∧ available k.machine.pages ≤ available m₁.pages + 1 := by
    obtain ⟨-, he⟩ | ⟨f, hf, he, hav⟩ := allocPage_available h.pages
    · exact ⟨_, _, he, h.outOfMemory, Nat.le_succ _⟩
    · exact ⟨_, _, he, h.take hf, hav.le⟩
  obtain ⟨m, hmap, hw, hav, -⟩ := hw₁.mapPage (le_refl HEAP_START) (by decide) p
    (PAGE_PRESENT ||| PAGE_RW)
  refine ⟨m, Heap.mapPage k.heap.mem HEAP_START (Kernel.frameBytes m (frameOf p)), ?_, hw, ?_⟩
  · unfold Kernel.initHeap
    rw [halloc]
    dsimp only
    rw [hmap]
    rfl
  · rw [hav]
    split_ifs
    · omega
    · omega

/-- The new heap, and its machine. -/
theorem heapStart_eq (img : Image) (magic : UInt32) (mbi : Pmm.MultibootInfo) (k : Kernel) :
    ∃ m mem, heapStart img magic mbi k = RunState.start mem (some m) ∧ Workable img m ∧
      available (Pmm.initPmm img.toKernelImage magic mbi) ≤ available m.pages + 2 := by
  unfold heapStart
  generalize hk : ({ k with machine := initVmm img { k.machine with
    pages := Pmm.initPmm img.toKernelImage magic mbi
    outOfMemory := false
    highDirectory := false } } : Kernel) = k₁
  have hpages : k₁.machine.pages = Pmm.initPmm img.toKernelImage magic mbi := by
    rw [← hk]
    rfl
  have hw₁ : Workable img k₁.machine := by
    rw [← hk]
    exact workable_initVmm _ (pagesInv_initPmm magic mbi)
  obtain ⟨m, mem, he, hw, hav⟩ := hw₁.initHeap
  dsimp only
  rw [hk, he, ← hpages]
  exact ⟨m, mem, rfl, hw, hav⟩

theorem pagedOk_start (img : Image) (magic : UInt32) (mbi : Pmm.MultibootInfo) (k : Kernel) :
    PagedOk img (heapStart img magic mbi k) := by
  obtain ⟨m, mem, he, hw, -⟩ := heapStart_eq img magic mbi k
  rw [he]
  exact ⟨⟨_, RunState.start_inv mem (some m)⟩, m, rfl, hw⟩

theorem heapRun_nil (magic : UInt32) (mbi : Pmm.MultibootInfo) (k : Kernel) :
    heapRun img magic mbi k [] = heapStart img magic mbi k := rfl

theorem PagedOk.step (h : PagedOk img st) (c : PagedCall img) : PagedOk img (heapStep img st c) := by
  obtain ⟨⟨bs, hinv⟩, m, hm, hw⟩ := h
  cases c with
  | other m' hm' => exact ⟨⟨bs, hinv.ok, hinv.block, hinv.nodup, hinv.written⟩, m', rfl, hm'⟩
  | heap c =>
      refine ⟨hinv.step _ c, ?_⟩
      cases c with
      | kmalloc bytes =>
          have hgo := hw.kmalloc_pager hinv.owns bytes
          rw [← hm] at hgo
          exact hgo
      | kfree k =>
          simp only [heapStep, RunState.step]
          split
          · exact ⟨m, hm, hw⟩
          · exact ⟨m, hm, hw⟩
      | write k j v =>
          simp only [heapStep, RunState.step]
          split
          · exact ⟨m, hm, hw⟩
          · split_ifs
            · exact ⟨m, hm, hw⟩
            · exact ⟨m, hm, hw⟩

theorem pagedOk_run (img : Image) (magic : UInt32) (mbi : Pmm.MultibootInfo) (k : Kernel)
    (calls : List (PagedCall img)) : PagedOk img (heapRun img magic mbi k calls) := by
  induction calls using List.reverseRecOn with
  | nil => exact pagedOk_start img magic mbi k
  | append_singleton calls c ih =>
      unfold heapRun at ih ⊢
      rw [List.foldl_append]
      exact ih.step c

/-! ### First fit -/

/-- **`kmalloc` is first-fit and fails only when it must**: after any run and for any size that
does not wrap, both its loops end, whatever their bounds in the model; it takes the lowest block
that fits after the least growth for which one does; and when it returns null no block fits, and
the heap is at its limit or `pmm_alloc_page` has no page. -/
theorem run_firstFit (img : Image) (magic : UInt32) (mbi : Pmm.MultibootInfo) (k : Kernel)
    (calls : List (PagedCall img)) (bytes : UInt32) (h0 : 1 ≤ bytes) (h1 : bytes ≤ 0xFFFFFFFC) :
    let st := heapRun img magic mbi k calls
    let n := (bytes.toNat + 3) / 4 * 4
    let r := Heap.kmalloc (Kernel.growHeap img) bytes st.heap st.pager
    (∀ search depth bottom, searchBound ≤ search → growFuel st.heap ≤ depth →
      kmallocBounded (Kernel.growHeap img) bytes search bottom depth st.heap st.pager = r) ∧
    ∃ m, r.2.2 = some m ∧
      (r.1 ≠ 0 → ∃ k,
        IsLeast {k | ∃ b ∈ extendBlocks (blocks st.heap) st.heap.heapCurrentEnd k, Fits n b} k ∧
        r.2.1.heapCurrentEnd = st.heap.heapCurrentEnd + PAGE_SIZE * k ∧
        IsLeast {p | ∃ b ∈ extendBlocks (blocks st.heap) st.heap.heapCurrentEnd k,
          Fits n b ∧ p = b.addr + HEADER_SIZE} r.1) ∧
      (r.1 = 0 → (∀ b ∈ blocks r.2.1, ¬ Fits n b) ∧
        (r.2.1.heapCurrentEnd = HEAP_MAX_ADDR ∨ m.allocPage.1 = 0)) := by
  intro st n r
  obtain ⟨⟨bs, hinv⟩, m, hm, hw⟩ : PagedOk img st := pagedOk_run img magic mbi k calls
  have hne : bytes ≠ 0 := by
    rintro rfl
    exact absurd h0 (by decide)
  have hn : alignedSize bytes = n := toNat_alignedSize h1
  have hstart : HEAP_START ≤ st.heap.heapCurrentEnd := by
    have := hinv.ok.layout.tiles.le
    omega
  have hsupply : ∀ j, Supplied (Kernel.growHeap img) j st.heap.heapCurrentEnd st.pager →
      ∃ m', supplyAfter (Kernel.growHeap img) j st.heap.heapCurrentEnd st.pager = some m' ∧
        Workable img m' := by
    intro j hj
    rw [hm] at hj ⊢
    exact hw.supplyAfter hstart hj
  refine ⟨fun search depth bottom hs hd => kmallocBounded_eq hinv.ok hs hd bottom, ?_⟩
  rw [hinv.ok.blocks]
  obtain ⟨j, us, b, vs, ht⟩ | ⟨j, hf⟩ := kmalloc_outcome (Kernel.growHeap img)
    st.pager hinv.ok hne
  · rw [hn] at ht
    obtain ⟨m', he, -⟩ := hsupply j ht.supplied
    refine ⟨m', ht.supply.trans he, fun _ => ⟨j, ht.isLeast.1, ht.end_eq, ht.isLeast.2⟩,
      fun hz => absurd (ht.ptr.symm.trans hz) (by omega)⟩
  · rw [hn] at hf
    obtain ⟨m', he, hw'⟩ := hsupply j hf.supplied
    have hend : r.2.1.heapCurrentEnd = st.heap.heapCurrentEnd + PAGE_SIZE * j := hf.end_eq
    have hok := hf.ok
    have hfull : ∀ b ∈ blocks r.2.1, ¬ Fits n b := by
      rw [hok.blocks]
      exact hf.full_end
    obtain ⟨hmax, hs⟩ | ⟨hmax, hs⟩ := hf.stuck
    · refine ⟨m', hs.trans he, fun hp => absurd hf.ptr hp, fun _ => ⟨hfull, Or.inl ?_⟩⟩
      have h1 : r.2.1.heapCurrentEnd % PAGE_SIZE = 0 := hok.layout.aligned
      have h2 : r.2.1.heapCurrentEnd ≤ HEAP_MAX_ADDR := hok.layout.le
      rw [← hend] at hmax
      simp only [PAGE_SIZE, HEAP_MAX_ADDR] at h1 h2 hmax ⊢
      omega
    · rw [he] at hs
      have hlt : st.heap.heapCurrentEnd + PAGE_SIZE * j < HEAP_MAX_ADDR := by
        simp only [PAGE_SIZE] at hmax ⊢
        omega
      obtain ⟨hav, hr⟩ := hw'.of_none (by omega) hlt hs
      refine ⟨_, hr, fun hp => absurd hf.ptr hp, fun _ => ⟨hfull, Or.inr ?_⟩⟩
      -- the search of the bitmap has not changed it
      obtain ⟨-, ha⟩ | ⟨f, -, -, hcount⟩ := allocPage_available hw'.outOfMemory.pages
      · rw [ha]
      · dsimp only at hcount
        omega

/-- One block of 100 bytes is in use, on a machine with 64 MB. -/
def oneBlock : RunState (Option Machine) :=
  heapRun smallImage Pmm.MULTIBOOT_BOOTLOADER_MAGIC smallMap blankKernel [.heap (.kmalloc 100)]

theorem room_oneBlock : Room oneBlock.heap 3964 := by
  obtain ⟨m, mem, he, -, -⟩ := heapStart_eq smallImage Pmm.MULTIBOOT_BOOTLOADER_MAGIC smallMap
    blankKernel
  have h100 : alignedSize 100 = 100 := by decide
  obtain ⟨p, h, hk, -, hr⟩ := @Room.kmalloc_any _ _ _ (room_initHeap mem)
    (Kernel.growHeap smallImage) 100 (by decide) (by rw [h100]; omega)
  have hheap : oneBlock.heap = h := by
    simp only [oneBlock, heapRun, List.foldl_cons, List.foldl_nil, heapStep, RunState.step, he,
      RunState.start, hk]
  rw [h100] at hr
  rw [hheap]
  exact hr

/-- One more byte is found; 768 MB are more than the heap can ever have. -/
theorem run_firstFit_oneBlock :
    ((Heap.kmalloc (Kernel.growHeap smallImage) 1 oneBlock.heap oneBlock.pager).1 ≠ 0 ∧ ∃ k,
      IsLeast {k | ∃ b ∈ extendBlocks (blocks oneBlock.heap) oneBlock.heap.heapCurrentEnd k,
        Fits 4 b} k ∧
      (Heap.kmalloc (Kernel.growHeap smallImage) 1 oneBlock.heap
        oneBlock.pager).2.1.heapCurrentEnd = oneBlock.heap.heapCurrentEnd + PAGE_SIZE * k ∧
      IsLeast {p | ∃ b ∈ extendBlocks (blocks oneBlock.heap) oneBlock.heap.heapCurrentEnd k,
        Fits 4 b ∧ p = b.addr + HEADER_SIZE}
        (Heap.kmalloc (Kernel.growHeap smallImage) 1 oneBlock.heap oneBlock.pager).1) ∧
    (Heap.kmalloc (Kernel.growHeap smallImage) 0x30000000 oneBlock.heap oneBlock.pager).1 = 0 ∧
    ∃ m, (Heap.kmalloc (Kernel.growHeap smallImage) 0x30000000 oneBlock.heap
        oneBlock.pager).2.2 = some m ∧
      (∀ b ∈ blocks (Heap.kmalloc (Kernel.growHeap smallImage) 0x30000000 oneBlock.heap
        oneBlock.pager).2.1, ¬ Fits 0x30000000 b) ∧
      ((Heap.kmalloc (Kernel.growHeap smallImage) 0x30000000 oneBlock.heap
        oneBlock.pager).2.1.heapCurrentEnd = HEAP_MAX_ADDR ∨ m.allocPage.1 = 0) := by
  have hone : (Heap.kmalloc (Kernel.growHeap smallImage) 1 oneBlock.heap oneBlock.pager).1 ≠ 0 := by
    obtain ⟨p, h, hk, hp, -⟩ := @Room.kmalloc_any _ _ _ room_oneBlock (Kernel.growHeap smallImage) 1
      (by decide) (by decide)
    rw [hk]
    exact hp
  have hlarge : (Heap.kmalloc (Kernel.growHeap smallImage) 0x30000000 oneBlock.heap
      oneBlock.pager).1 = 0 := by
    obtain ⟨⟨bs, hinv⟩, -⟩ := pagedOk_run smallImage Pmm.MULTIBOOT_BOOTLOADER_MAGIC smallMap
      blankKernel [.heap (.kmalloc 100)]
    obtain ⟨h0, -⟩ | ⟨-, hle, -⟩ :=
      hinv.owns.kmalloc (Kernel.growHeap smallImage) 0x30000000 oneBlock.pager
    · exact h0
    · exact absurd hle (by decide)
  have h1 := run_firstFit smallImage Pmm.MULTIBOOT_BOOTLOADER_MAGIC smallMap blankKernel
    [.heap (.kmalloc 100)] 1 (by decide) (by decide)
  have h2 := run_firstFit smallImage Pmm.MULTIBOOT_BOOTLOADER_MAGIC smallMap blankKernel
    [.heap (.kmalloc 100)] 0x30000000 (by decide) (by decide)
  have hst : heapRun smallImage Pmm.MULTIBOOT_BOOTLOADER_MAGIC smallMap blankKernel
    [.heap (.kmalloc 100)] = oneBlock := rfl
  have hn1 : ((1 : UInt32).toNat + 3) / 4 * 4 = 4 := by decide
  have hn2 : ((0x30000000 : UInt32).toNat + 3) / 4 * 4 = 0x30000000 := by decide
  obtain ⟨-, -, -, hfound, -⟩ := h1
  obtain ⟨-, m, hm, -, hstuck⟩ := h2
  rw [hst, hn1] at hfound
  rw [hst] at hm
  rw [hst, hn2] at hstuck
  exact ⟨⟨hone, hfound hone⟩, hlarge, m, hm, hstuck hlarge⟩

/-! ### Failed calls -/

/-- The end and the blocks of the heap, the bitmap and the count of pages in use are as before. -/
structure NothingTaken (st : RunState (Option Machine)) (h : Heap.State) (s : Option Machine) :
    Prop where
  heapCurrentEnd : h.heapCurrentEnd = st.heap.heapCurrentEnd
  list : blockList h = blockList st.heap
  pages : s.map (fun m => (m.pages.memoryBitmap, m.pages.usedMemoryPages)) =
    st.pager.map fun m => (m.pages.memoryBitmap, m.pages.usedMemoryPages)

/-- The call does not start to grow the heap, or can grow it by as much as it needs: the pages
and the tables for all but the last of them. -/
def Affordable (h : Heap.State) (m : Machine) (bytes : UInt32) : Prop :=
  let n := alignedSize bytes
  let needed := pagesNeeded (blocks h) n
  bytes = 0 ∨ (∃ b ∈ blocks h, Fits n b) ∨ HEAP_MAX_ADDR < h.heapCurrentEnd + PAGE_SIZE ∨
    available m.pages = 0 ∨
    h.heapCurrentEnd + PAGE_SIZE * needed ≤ HEAP_MAX_ADDR ∧
      needed + tablesNeeded m h.heapCurrentEnd (needed - 1) ≤ available m.pages

section failed
variable {h : Heap.State} {m : Machine} {bs : List Block} {bytes : UInt32} {r : ℕ × Heap.State ×
  Option Machine}

/-- A call that has grown the heap as far as it had to could afford it. -/
theorem Affordable.of_took (hok : Ok h bs) (hw : Workable img m) {k : ℕ} {us vs : List Block}
    {b : Block} (ht : Took (Kernel.growHeap img) (alignedSize bytes) h (some m) bs k us b vs r) :
    Affordable h m bytes := by
  have hstart : HEAP_START ≤ h.heapCurrentEnd := by
    have := hok.layout.tiles.le
    omega
  have hmem : b ∈ extendBlocks bs h.heapCurrentEnd k := by simp [ht.split]
  unfold Affordable
  rw [hok.blocks]
  by_cases hfull : Full (alignedSize bytes) bs
  · have hle := (pagesNeeded_le_iff hok.layout.nonempty hfull h.heapCurrentEnd).2
      ⟨b, hmem, ht.fit.fits⟩
    have hsupplied := ht.supplied.mono hle
    rw [hw.supplied_iff hstart hok.layout.aligned] at hsupplied
    refine Or.inr (Or.inr (Or.inr (Or.inr (hsupplied.resolve_left fun hz => ?_))))
    obtain ⟨c, hc, hfit⟩ := (pagesNeeded_le_iff hok.layout.nonempty hfull h.heapCurrentEnd).1
      hz.le
    rw [extendBlocks_zero] at hc
    exact hfull c hc hfit
  · unfold Full at hfull
    push Not at hfull
    exact Or.inr (Or.inl hfull)

/-- A call that fails after some growth could not. -/
theorem not_affordable_of_failed (hok : Ok h bs) (hw : Workable img m) (h0 : bytes ≠ 0) {k : ℕ}
    (hk : k ≠ 0)
    (hf : Failed (Kernel.growHeap img) (alignedSize bytes) h (some m) bs k r) :
    ¬ Affordable h m bytes := by
  have hstart : HEAP_START ≤ h.heapCurrentEnd := by
    have := hok.layout.tiles.le
    omega
  have hfull : Full (alignedSize bytes) bs := by
    have := hf.full 0 (by omega)
    rwa [extendBlocks_zero] at this
  have hone := hf.supplied.mono (show 1 ≤ k by omega)
  have hsome := (hw.supplied_iff hstart hok.layout.aligned 1).1 hone
  unfold Affordable
  rw [hok.blocks]
  rintro (h0' | ⟨b, hb, hfit⟩ | hmax | hav | hroom)
  · exact h0 h0'
  · exact hfull b hb hfit
  · have := hone.1
    omega
  · omega
  · have hsupplied := (hw.supplied_iff hstart hok.layout.aligned _).2 (Or.inr hroom)
    -- more than `k` pages would have to come, but the next one does not
    have hmore : k + 1 ≤ pagesNeeded bs (alignedSize bytes) := by
      by_contra hle
      obtain ⟨b, hb, hfit⟩ := (pagesNeeded_le_iff hok.layout.nonempty hfull h.heapCurrentEnd).1
        (show pagesNeeded bs (alignedSize bytes) ≤ k by omega)
      exact hf.full_end b hb hfit
    obtain ⟨-, hmax, hpage⟩ := supplied_succ.1 (hsupplied.mono hmore)
    obtain ⟨hmax', -⟩ | ⟨-, hnone⟩ := hf.stuck
    · omega
    · rw [hnone] at hpage
      exact hpage rfl

end failed

theorem PagedOk.nothingTaken_iff (h : PagedOk img st) (bytes : UInt32) :
    ∃ m, st.pager = some m ∧
      (((Heap.kmalloc (Kernel.growHeap img) bytes st.heap st.pager).1 = 0 →
        NothingTaken st (Heap.kmalloc (Kernel.growHeap img) bytes st.heap st.pager).2.1
          (Heap.kmalloc (Kernel.growHeap img) bytes st.heap st.pager).2.2) ↔
        Affordable st.heap m bytes) := by
  obtain ⟨⟨bs, hinv⟩, m, hm, hw⟩ := h
  have hok := hinv.ok
  refine ⟨m, hm, ?_⟩
  by_cases h0 : bytes = 0
  · refine iff_of_true (fun _ => ?_) (Or.inl h0)
    rw [kmalloc_eq hok]
    unfold kmallocBody
    rw [if_pos h0]
    exact ⟨rfl, rfl, rfl⟩
  · obtain ⟨k, us, b, vs, ht⟩ | ⟨k, hf⟩ := kmalloc_outcome (Kernel.growHeap img)
      st.pager hok h0
    · have hptr := ht.ptr
      rw [hm] at ht
      exact iff_of_true (fun hz => absurd (hptr.symm.trans hz) (by omega))
        (Affordable.of_took hok hw ht)
    · have hend := hf.end_eq
      by_cases hk : k = 0
      · subst hk
        have hok' := hf.ok
        have hstuck := hf.stuck
        simp only [extendBlocks_zero, mul_zero, add_zero, supplyAfter] at hok' hend hstuck
        have hstart : HEAP_START ≤ st.heap.heapCurrentEnd := by
          have := hok.layout.tiles.le
          omega
        have hpages : (Heap.kmalloc (Kernel.growHeap img) bytes st.heap st.pager).2.2 =
              st.pager ∧ HEAP_MAX_ADDR < st.heap.heapCurrentEnd + PAGE_SIZE ∨
            (Heap.kmalloc (Kernel.growHeap img) bytes st.heap st.pager).2.2 =
              some { m with outOfMemory := true } ∧ available m.pages = 0 := by
          obtain ⟨hmax, hs⟩ | ⟨hmax, hs⟩ := hstuck
          · exact Or.inl ⟨hs, hmax⟩
          · rw [hm] at hs
            obtain ⟨hav, hr⟩ := hw.of_none hstart (by simp only [PAGE_SIZE] at hmax; omega) hs
            rw [hm]
            exact Or.inr ⟨hr, hav⟩
        refine iff_of_true (fun _ => ⟨hend, by rw [hok'.blockList, hok.blockList], ?_⟩) ?_
        · obtain ⟨hs, -⟩ | ⟨hs, -⟩ := hpages
          · rw [hs]
          · rw [hs, hm]
            rfl
        · obtain ⟨-, hmax⟩ | ⟨-, hav⟩ := hpages
          · exact Or.inr (Or.inr (Or.inl hmax))
          · exact Or.inr (Or.inr (Or.inr (Or.inl hav)))
      · have hptr := hf.ptr
        rw [hm] at hf
        refine iff_of_false (fun hnothing => ?_) (not_affordable_of_failed hok hw h0 hk hf)
        have := (hnothing hptr).heapCurrentEnd
        rw [hend] at this
        simp only [PAGE_SIZE] at this
        omega

/-- **A failed `kmalloc` takes nothing** exactly when it does not grow the heap at all or can grow
it far enough: the pages of a growth that stops half-way stay in the heap. -/
theorem run_failed_kmalloc_iff (img : Image) (magic : UInt32) (mbi : Pmm.MultibootInfo)
    (k : Kernel) (calls : List (PagedCall img)) (bytes : UInt32) :
    let st := heapRun img magic mbi k calls
    let r := Heap.kmalloc (Kernel.growHeap img) bytes st.heap st.pager
    ∃ m, st.pager = some m ∧
      ((r.1 = 0 → NothingTaken st r.2.1 r.2.2) ↔ Affordable st.heap m bytes) :=
  (pagedOk_run img magic mbi k calls).nothingTaken_iff bytes

/-- The small machine has more pages than `init_heap` takes. -/
theorem two_lt_available {p : Pmm.Pages} (hp : p = Pmm.initPmm smallImage.toKernelImage
    Pmm.MULTIBOOT_BOOTLOADER_MAGIC smallMap) : 2 < available p := by
  have hboot : FreeFrom ⟨fun _ _ => 0, p, 0, false, false⟩ 512 16384 := freeFrom_boot hp
  have hfree : ∀ i, 512 ≤ i → i < 16384 → Pmm.Free p i := fun i h1 h2 =>
    (hboot.free i).2 ⟨h1, h2⟩
  have h1 := Nat.count_strict_mono (hfree 512 (by omega) (by omega)) (show 512 < 513 by omega)
  have h2 := Nat.count_strict_mono (hfree 513 (by omega) (by omega)) (show 513 < 514 by omega)
  have h3 := Nat.count_strict_mono (hfree 514 (by omega) (by omega))
    (show 514 < 32768 / 32 * 32 by omega)
  unfold available
  rw [show p.totalMemoryPages.toNat = 32768 from hboot.total]
  omega

/-- 768 MB are more than the heap can ever have: on the new heap of a machine with 64 MB, the
call fails when it has used up the memory. -/
theorem large_request_keeps_pages :
    ¬ ∀ (calls : List (PagedCall smallImage)) (bytes : UInt32),
      let st := heapRun smallImage Pmm.MULTIBOOT_BOOTLOADER_MAGIC smallMap blankKernel calls
      let r := Heap.kmalloc (Kernel.growHeap smallImage) bytes st.heap st.pager
      r.1 = 0 → NothingTaken st r.2.1 r.2.2 := by
  intro hall
  obtain ⟨m, hm, hiff⟩ := (pagedOk_run smallImage Pmm.MULTIBOOT_BOOTLOADER_MAGIC smallMap
    blankKernel []).nothingTaken_iff 0x30000000
  have haff := hiff.1 (hall [] 0x30000000)
  obtain ⟨m', mem, he, hw, hav⟩ := heapStart_eq smallImage Pmm.MULTIBOOT_BOOTLOADER_MAGIC smallMap
    blankKernel
  rw [heapRun_nil, he] at hm haff
  obtain rfl : m' = m := Option.some.inj hm
  have hok := initHeap_ok mem
  have hn : alignedSize 0x30000000 = 0x30000000 := by decide
  have hend : (initHeap mem).heapCurrentEnd = 0xC0001000 := rfl
  have hpages := two_lt_available rfl
  unfold Affordable at haff
  rw [show (RunState.start mem (some m')).heap = initHeap mem from rfl, hok.blocks, hn, hend] at haff
  obtain h0 | ⟨b, hb, -, hfit⟩ | hlt | hav0 | ⟨hle, -⟩ := haff
  · exact absurd h0 (by decide)
  · rw [List.mem_singleton.1 hb] at hfit
    exact absurd hfit (by decide)
  · exact absurd hlt (by decide)
  · omega
  · exact absurd hle (by decide)

end run

end NosmeriOs.Tasks
