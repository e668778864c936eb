import NosmeriOs.Vmm

/-! # What the paging functions do to the frames

* **Entries.**  An entry is the address of a frame plus flags below 4096 (`toNat_entry`).
* **Spaces.**  `IsSpace img m d`: the directory in frame `d` has the identity table in slot 0 and
  itself in slot 1023.  Under such a directory the kernel reaches the first 4 MB at their own
  addresses (`translate_low`), the directory (`translate_self`) and its tables (`pageTable_eq`).
* **Functions.**  `vmmMapPage_of_present`, `vmmMapPage_of_absent`, `vmmCreatePageDirectory_spec`
  and `pageFaultHandler_eq` give the frames afterwards. -/

namespace NosmeriOs.Vmm

open Pmm

/-! ### Entries -/

theorem toNat_frameAddr {f : ℕ} (hf : f < 2 ^ 20) : (frameAddr f).toNat = f * 4096 := by
  unfold frameAddr
  rw [UInt32.toNat_ofNat']
  omega

@[simp] theorem frameOf_frameAddr {f : ℕ} (hf : f < 2 ^ 20) : frameOf (frameAddr f) = f := by
  unfold frameOf
  rw [toNat_frameAddr hf]
  omega

theorem frameAddr_eq_zero {f : ℕ} (hf : f < 2 ^ 20) : frameAddr f = 0 ↔ f = 0 := by
  constructor
  · intro h
    have := toNat_frameAddr hf
    rw [h] at this
    have hz : (0 : UInt32).toNat = 0 := rfl
    omega
  · rintro rfl
    rfl

/-- The address of a frame and flags do not overlap. -/
theorem toNat_entry {a w : UInt32} (ha : a.toNat % 4096 = 0) (hw : w.toNat < 4096) :
    (a ||| w).toNat = a.toNat + w.toNat := by
  have hdiv : a.toNat = 2 ^ 12 * (a.toNat / 4096) := by omega
  rw [UInt32.toNat_or, hdiv, ← Nat.two_pow_add_eq_or_of_lt hw]

theorem present_iff (e : UInt32) : present e = true ↔ e.toNat % 2 = 1 := by
  have hand : (e &&& PAGE_PRESENT).toNat = e.toNat % 2 := by
    rw [UInt32.toNat_and]
    exact Nat.and_one_is_mod _
  unfold present
  rw [bne_iff_ne, Ne, ← UInt32.toNat_inj, hand]
  have hz : (0 : UInt32).toNat = 0 := rfl
  omega

theorem present_zero : present 0 = false := by decide

/-- The entry that `vmm_map_page` makes for a page table. -/
def tableEntry (f : ℕ) : UInt32 := frameAddr f ||| PAGE_PRESENT ||| PAGE_RW ||| PAGE_USER

/-- The recursive entry of the directory in frame `d`. -/
def selfEntry (d : ℕ) : UInt32 := frameAddr d ||| PAGE_PRESENT ||| PAGE_RW

theorem toNat_tableEntry {f : ℕ} (hf : f < 2 ^ 20) : (tableEntry f).toNat = f * 4096 + 7 := by
  have h7 : PAGE_PRESENT ||| PAGE_RW ||| PAGE_USER = 7 := by decide
  have ha := toNat_frameAddr hf
  unfold tableEntry
  rw [UInt32.or_assoc, UInt32.or_assoc, ← UInt32.or_assoc PAGE_PRESENT, h7, toNat_entry (by omega)
    (by decide), ha]
  rfl

theorem toNat_selfEntry {d : ℕ} (hd : d < 2 ^ 20) : (selfEntry d).toNat = d * 4096 + 3 := by
  have h3 : PAGE_PRESENT ||| PAGE_RW = 3 := by decide
  have ha := toNat_frameAddr hd
  unfold selfEntry
  rw [UInt32.or_assoc, h3, toNat_entry (by omega) (by decide), ha]
  rfl

theorem present_tableEntry {f : ℕ} (hf : f < 2 ^ 20) : present (tableEntry f) = true := by
  rw [present_iff, toNat_tableEntry hf]
  omega

theorem frameOf_tableEntry {f : ℕ} (hf : f < 2 ^ 20) : frameOf (tableEntry f) = f := by
  unfold frameOf
  rw [toNat_tableEntry hf]
  omega

theorem present_selfEntry {d : ℕ} (hd : d < 2 ^ 20) : present (selfEntry d) = true := by
  rw [present_iff, toNat_selfEntry hd]
  omega

theorem frameOf_selfEntry {d : ℕ} (hd : d < 2 ^ 20) : frameOf (selfEntry d) = d := by
  unfold frameOf
  rw [toNat_selfEntry hd]
  omega

/-! ### Stores -/

namespace Machine

def setFrame (m : Machine) (f : ℕ) (w : ℕ → UInt32) : Machine :=
  { m with frames := Function.update m.frames f w }

theorem setWord_eq (m : Machine) (f i : ℕ) (w : UInt32) :
    m.setWord f i w = m.setFrame f (Function.update (m.frames f) i w) := rfl

theorem frames_setFrame (m : Machine) (f : ℕ) (w : ℕ → UInt32) (g : ℕ) :
    (m.setFrame f w).frames g = if g = f then w else m.frames g := by
  unfold setFrame
  dsimp only
  rw [Function.update_apply]

theorem frames_setWord (m : Machine) (f i : ℕ) (w : UInt32) (g j : ℕ) :
    (m.setWord f i w).frames g j = if g = f ∧ j = i then w else m.frames g j := by
  rw [setWord_eq, frames_setFrame]
  by_cases hg : g = f
  · subst hg
    rw [if_pos rfl, Function.update_apply]
    by_cases hj : j = i
    · rw [if_pos hj, if_pos ⟨rfl, hj⟩]
    · rw [if_neg hj, if_neg (fun h => hj h.2)]
  · rw [if_neg hg, if_neg (fun h => hg h.1)]

theorem setFrame_setFrame (m : Machine) (f : ℕ) (v w : ℕ → UInt32) :
    (m.setFrame f v).setFrame f w = m.setFrame f w := by
  unfold setFrame
  dsimp only
  rw [Function.update_idem]

theorem setFrame_self (m : Machine) (f : ℕ) : m.setFrame f (m.frames f) = m := by
  unfold setFrame
  rw [Function.update_eq_self]

@[simp] theorem pages_setFrame (m : Machine) (f : ℕ) (w : ℕ → UInt32) :
    (m.setFrame f w).pages = m.pages := rfl
@[simp] theorem cr3_setFrame (m : Machine) (f : ℕ) (w : ℕ → UInt32) :
    (m.setFrame f w).cr3 = m.cr3 := rfl
@[simp] theorem pages_setWord (m : Machine) (f i : ℕ) (w : UInt32) :
    (m.setWord f i w).pages = m.pages := rfl
@[simp] theorem cr3_setWord (m : Machine) (f i : ℕ) (w : UInt32) :
    (m.setWord f i w).cr3 = m.cr3 := rfl

end Machine

/-! ### Spaces -/

/-- The directory in frame `d` is one the kernel can work under. -/
structure IsSpace (img : Image) (m : Machine) (d : ℕ) : Prop where
  lt : d < 2 ^ 20
  low : m.frames d 0 = tableEntry img.firstPageTable
  self : m.frames d 1023 = selfEntry d

/-- `first_page_table` maps the first 4 MB to themselves. -/
def LowMapped (img : Image) (m : Machine) : Prop :=
  ∀ i < 1024, m.frames img.firstPageTable i = tableEntry i

theorem Image.directory_lt (img : Image) : img.pageDirectory < 1024 := by
  have h1 := img.directory_mem
  have h2 := img.le
  omega

theorem Image.table_lt (img : Image) : img.firstPageTable < 1024 := by
  have h1 := img.table_mem
  have h2 := img.le
  omega

/-- The low table, whose entry 0 names frame 0, is no directory. -/
theorem ne_table_of_space {img : Image} {m : Machine} {d : ℕ} (h : IsSpace img m d)
    (hl : LowMapped img m) : img.firstPageTable ≠ d := by
  intro e
  have hlt := img.table_lt
  have hmem := img.table_mem.1
  have h1 := h.low
  rw [← e, hl 0 (by omega)] at h1
  have h2 := congrArg frameOf h1
  rw [frameOf_tableEntry (by omega), frameOf_tableEntry (by omega)] at h2
  omega

theorem frames_initVmm_directory (img : Image) (m : Machine) :
    (initVmm img m).frames img.pageDirectory = fun i =>
      if i = 0 then tableEntry img.firstPageTable
      else if i = 1023 then selfEntry img.pageDirectory else 0 := by
  show Function.update _ _ _ _ = _
  rw [Function.update_of_ne img.ne, Function.update_self]
  rfl

theorem lowMapped_initVmm (img : Image) (m : Machine) : LowMapped img (initVmm img m) := by
  have htable : (initVmm img m).frames img.firstPageTable = tableEntry := by
    show Function.update _ _ _ _ = _
    rw [Function.update_self]
    rfl
  intro i _
  rw [htable]

theorem isSpace_initVmm (img : Image) (m : Machine) :
    IsSpace img (initVmm img m) img.pageDirectory := by
  have hd := img.directory_lt
  refine ⟨by omega, ?_, ?_⟩
  · rw [frames_initVmm_directory]
    rfl
  · rw [frames_initVmm_directory]
    rfl

section translate

variable {img : Image} {m : Machine}

/-- The first 4 MB are at their own addresses. -/
theorem translate_low (hs : IsSpace img m (frameOf m.cr3)) (hl : LowMapped img m) {addr : UInt32}
    (ha : addr.toNat < 0x400000) : m.translate addr = some (frameOf addr) := by
  have ht := img.table_lt
  have hpd : pdIdx addr = 0 := by
    unfold pdIdx
    omega
  have hpt : ptIdx addr = frameOf addr := by
    unfold ptIdx frameOf
    omega
  have hf : frameOf addr < 1024 := by
    unfold frameOf
    omega
  unfold Machine.translate Machine.pde
  dsimp only
  rw [hpd, hs.low, if_pos (present_tableEntry (by omega)), frameOf_tableEntry (by omega), hpt,
    hl _ hf, if_pos (present_tableEntry (by omega)), frameOf_tableEntry (by omega)]

/-- Entry 1023 of the directory that is loaded names the directory. -/
structure SelfMapped (m : Machine) : Prop where
  isPresent : present (m.pde 1023) = true
  frame : frameOf (m.pde 1023) = frameOf m.cr3

theorem IsSpace.selfMapped (hs : IsSpace img m (frameOf m.cr3)) : SelfMapped m := by
  have hself : m.pde 1023 = selfEntry (frameOf m.cr3) := hs.self
  constructor
  · rw [hself, present_selfEntry hs.lt]
  · rw [hself, frameOf_selfEntry hs.lt]

/-- An address in a recursive slot leads to the entry of the directory. -/
theorem translate_recursive (hs : SelfMapped m) {addr : UInt32} (ha : pdIdx addr = 1023) :
    m.translate addr =
      if present (m.pde (ptIdx addr)) then some (frameOf (m.pde (ptIdx addr))) else none := by
  unfold Machine.translate
  dsimp only
  rw [ha, if_pos hs.isPresent, hs.frame]
  rfl

/-- `0xFFFFF000` is the directory itself. -/
theorem translate_self (hs : SelfMapped m) : m.translate 0xFFFFF000 = some (frameOf m.cr3) := by
  rw [translate_recursive hs (by decide), show ptIdx 0xFFFFF000 = 1023 by decide,
    if_pos hs.isPresent, hs.frame]

theorem toNat_tableAddr (virtAddr : UInt32) :
    (0xFFC00000 ||| UInt32.ofNat (pdIdx virtAddr * 4096)).toNat =
      0xFFC00000 + pdIdx virtAddr * 4096 := by
  have hlt := virtAddr.toNat_lt
  have hi : pdIdx virtAddr < 1024 := by
    unfold pdIdx
    omega
  have ho : (UInt32.ofNat (pdIdx virtAddr * 4096)).toNat = pdIdx virtAddr * 4096 := by
    rw [UInt32.toNat_ofNat']
    omega
  have hc : (0xFFC00000 : UInt32).toNat = 2 ^ 22 * 1023 := rfl
  rw [UInt32.toNat_or, ho, hc, ← Nat.two_pow_add_eq_or_of_lt (by omega)]

/-- The page table of an address, reached through the recursive slot. -/
theorem pageTable_eq (hs : SelfMapped m) (virtAddr : UInt32) :
    pageTable m virtAddr = if present (m.pde (pdIdx virtAddr)) then
      some (frameOf (m.pde (pdIdx virtAddr))) else none := by
  have hlt := virtAddr.toNat_lt
  have hn := toNat_tableAddr virtAddr
  have hi : pdIdx virtAddr < 1024 := by
    unfold pdIdx
    omega
  have hpd : pdIdx (0xFFC00000 ||| UInt32.ofNat (pdIdx virtAddr * 4096)) = 1023 := by
    generalize pdIdx virtAddr = i at hn hi ⊢
    unfold pdIdx
    omega
  have hpt : ptIdx (0xFFC00000 ||| UInt32.ofNat (pdIdx virtAddr * 4096)) = pdIdx virtAddr := by
    generalize pdIdx virtAddr = i at hn hi ⊢
    unfold ptIdx
    omega
  unfold pageTable
  rw [translate_recursive hs hpd, hpt]

end translate

/-! ### Pages -/

/-- No page of the kernel image is free. -/
structure PagesInv (img : Image) (p : Pages) : Prop where
  total : p.totalMemoryPages.toNat < 2 ^ 20
  kernel : ∀ f, Free p f → img.kernelEnd.toNat ≤ f * 4096

/-- A frame that `pmm_alloc_page` may hand out. -/
structure IsFree (img : Image) (m : Machine) (f : ℕ) : Prop where
  free : Free m.pages f
  lt : f < 2 ^ 20
  ge : img.kernelEnd.toNat ≤ f * 4096

theorem PagesInv.isFree {img : Image} {m : Machine} (h : PagesInv img m.pages) {f : ℕ}
    (hf : Free m.pages f) : IsFree img m f :=
  ⟨hf, hf.1.trans h.total, h.kernel f hf⟩

namespace IsFree

variable {img : Image} {m : Machine} {f : ℕ}

theorem ne_directory (h : IsFree img m f) : f ≠ img.pageDirectory := by
  have h1 := img.directory_mem
  have h2 := h.ge
  omega

theorem ne_table (h : IsFree img m f) : f ≠ img.firstPageTable := by
  have h1 := img.table_mem
  have h2 := h.ge
  omega

theorem ne_zero (h : IsFree img m f) : f ≠ 0 := by
  have h1 := img.ge
  have h2 := h.ge
  omega

end IsFree

namespace Machine

/-- The machine after frame `f` has been handed out. -/
def take (m : Machine) (f : ℕ) : Machine :=
  { m with pages := bitmapSet m.pages (UInt32.ofNat f) }

@[simp] theorem frames_take (m : Machine) (f : ℕ) : (m.take f).frames = m.frames := rfl
@[simp] theorem cr3_take (m : Machine) (f : ℕ) : (m.take f).cr3 = m.cr3 := rfl
@[simp] theorem outOfMemory_take (m : Machine) (f : ℕ) :
    (m.take f).outOfMemory = m.outOfMemory := rfl
@[simp] theorem highDirectory_take (m : Machine) (f : ℕ) :
    (m.take f).highDirectory = m.highDirectory := rfl

theorem free_take {m : Machine} {f : ℕ} (hf : f < 2 ^ 20) (g : ℕ) :
    Free (m.take f).pages g ↔ Free m.pages g ∧ g ≠ f := by
  unfold take
  dsimp only
  rw [free_bitmapSet, UInt32.toNat_ofNat', Nat.mod_eq_of_lt (by omega)]

end Machine

section pages

variable {img : Image} {m : Machine}

theorem allocPage_fst (m : Machine) : m.allocPage.1 = (pmmAllocPage m.pages).1 := rfl

/-- `pmm_alloc_page` when the search finds a frame. -/
theorem allocPage_of_found (ht : m.pages.totalMemoryPages.toNat ≤ 2 ^ 20) {f : ℕ}
    (hf : findFirstFreePage m.pages = f) (h0 : f ≠ 0) : m.allocPage = (frameAddr f, m.take f) := by
  obtain ⟨hneg, -⟩ | ⟨f', hf', hfree, ha, hp⟩ := pmmAllocPage_cases ht
  · rw [hneg] at hf
    omega
  · obtain rfl : f = f' := by omega
    have hlt : f < 2 ^ 20 := lt_of_lt_of_le hfree.1 ht
    have haddr : (pmmAllocPage m.pages).1 = frameAddr f := by
      apply UInt32.toNat.inj
      rw [ha, toNat_frameAddr hlt]
    have hne : frameAddr f ≠ 0 := fun hz => h0 ((frameAddr_eq_zero hlt).1 hz)
    unfold Machine.allocPage
    dsimp only
    rw [haddr, hp, beq_false_of_ne hne, Bool.or_false]
    rfl

/-- What `pmm_alloc_page` does to the machine. -/
theorem allocPage_cases (h : PagesInv img m.pages) :
    m.allocPage = (0, { m with outOfMemory := true }) ∨
    ∃ f, IsFree img m f ∧ m.allocPage = (frameAddr f, m.take f) := by
  obtain ⟨-, he⟩ | ⟨f, hfind, hf, -, -⟩ := pmmAllocPage_cases h.total.le
  · refine Or.inl ?_
    unfold Machine.allocPage
    dsimp only
    rw [he]
    simp
  · have hfree := h.isFree hf
    exact Or.inr ⟨f, hfree, allocPage_of_found h.total.le hfind hfree.ne_zero⟩

theorem PagesInv.take (h : PagesInv img m.pages) {f : ℕ} (hf : f < 2 ^ 20) :
    PagesInv img (m.take f).pages := by
  refine ⟨?_, fun g hg => h.kernel g ((Machine.free_take hf g).1 hg).1⟩
  unfold Machine.take
  dsimp only
  rw [totalMemoryPages_bitmapSet]
  exact h.total

theorem pagesInv_initPmm (magic : UInt32) (mbi : MultibootInfo) :
    PagesInv img (initPmm img.toKernelImage magic mbi) := by
  refine ⟨?_, fun f hf => ?_⟩
  · rw [totalMemoryPages_initPmm]
    exact totalPages_lt magic mbi
  · have hge := ((free_initPmm _ magic mbi f).1 hf).2.2
    unfold kernelPages at hge
    omega

theorem free_freePage {f : ℕ} (hf : f < 2 ^ 20) (g : ℕ) :
    Free (m.freePage (frameAddr f)).pages g ↔
      Free m.pages g ∨ g = f ∧ g < m.pages.totalMemoryPages.toNat := by
  unfold Machine.freePage pmmFreePage
  dsimp only
  rw [free_bitmapUnset, toNat_div_page, toNat_frameAddr hf, Nat.mul_div_cancel _ (by omega)]

/-- Freeing a page that is not the kernel's. -/
theorem PagesInv.freePage (h : PagesInv img m.pages) {f : ℕ} (hf : f < 2 ^ 20)
    (hge : img.kernelEnd.toNat ≤ f * 4096) :
    PagesInv img (m.freePage (frameAddr f)).pages ∧
      ∀ g, Free (m.freePage (frameAddr f)).pages g → Free m.pages g ∨ g = f := by
  have hfree : ∀ g, Free (m.freePage (frameAddr f)).pages g → Free m.pages g ∨ g = f := by
    intro g hg
    exact ((free_freePage hf g).1 hg).imp id And.left
  refine ⟨⟨?_, fun g hg => ?_⟩, hfree⟩
  · unfold Machine.freePage pmmFreePage
    dsimp only
    rw [totalMemoryPages_bitmapUnset]
    exact h.total
  · obtain hg | rfl := hfree g hg
    · exact h.kernel g hg
    · exact hge

end pages

/-! ### The functions -/

section functions

variable {img : Image} {m : Machine}

/-- The entry that `vmm_map_page` stores for the page. -/
def pageEntry (physAddr flags : UInt32) : UInt32 := (physAddr &&& 0xFFFFF000) ||| flags

/-- `vmm_map_page` under a directory that has the page table. -/
theorem vmmMapPage_of_present (hs : SelfMapped m) {virtAddr : UInt32}
    (hp : present (m.pde (pdIdx virtAddr)) = true) (physAddr flags : UInt32) :
    vmmMapPage img m virtAddr physAddr flags =
      some (m.setWord (frameOf (m.pde (pdIdx virtAddr))) (ptIdx virtAddr)
        (pageEntry physAddr flags)) := by
  have hp' : present (m.frames (frameOf m.cr3) (pdIdx virtAddr)) = true := hp
  unfold vmmMapPage
  rw [translate_self hs]
  dsimp only [Option.bind_eq_bind, Option.bind_some]
  rw [if_pos hp', pageTable_eq hs, if_pos hp]
  rfl

/-- The machine after a page table in frame `f` has been entered under `virtAddr` and cleared. -/
def withTable (img : Image) (m : Machine) (virtAddr : UInt32) (f : ℕ) : Machine :=
  let m' := m.setWord (frameOf m.cr3) (pdIdx virtAddr) (tableEntry f)
  let m' :=
    if 0xC0000000 ≤ virtAddr then m'.setWord img.pageDirectory (pdIdx virtAddr) (tableEntry f)
    else m'
  m'.setFrame f fun _ => 0

theorem frames_withTable {virtAddr : UInt32} {f : ℕ} (g i : ℕ) :
    (withTable img m virtAddr f).frames g i =
      if g = f then 0
      else if i = pdIdx virtAddr ∧ (g = frameOf m.cr3 ∨ 0xC0000000 ≤ virtAddr ∧
        g = img.pageDirectory) then tableEntry f
      else m.frames g i := by
  unfold withTable
  dsimp only
  rw [Machine.frames_setFrame]
  by_cases hg : g = f
  · rw [if_pos hg, if_pos hg]
  · rw [if_neg hg, if_neg hg]
    by_cases hk : 0xC0000000 ≤ virtAddr
    · rw [if_pos hk, Machine.frames_setWord, Machine.frames_setWord]
      split_ifs <;> tauto
    · rw [if_neg hk, Machine.frames_setWord]
      split_ifs <;> tauto

@[simp] theorem cr3_withTable (virtAddr : UInt32) (f : ℕ) :
    (withTable img m virtAddr f).cr3 = m.cr3 := by
  unfold withTable
  dsimp only
  split_ifs <;> rfl

theorem isSpace_congr {m' : Machine} {d : ℕ} (h : IsSpace img m d)
    (h0 : m'.frames d 0 = m.frames d 0) (h1023 : m'.frames d 1023 = m.frames d 1023) :
    IsSpace img m' d :=
  ⟨h.lt, h0.trans h.low, h1023.trans h.self⟩

/-- A slot without a table is neither the one of the low memory nor the recursive one. -/
theorem IsSpace.slot_ne {d : ℕ} (hs : IsSpace img m d) {i : ℕ}
    (hp : present (m.frames d i) = false) : i ≠ 0 ∧ i ≠ 1023 := by
  have ht := img.table_lt
  constructor
  · rintro rfl
    rw [hs.low, present_tableEntry (by omega)] at hp
    cases hp
  · rintro rfl
    rw [hs.self, present_selfEntry hs.lt] at hp
    cases hp

theorem SelfMapped.ne_of_absent (hs : SelfMapped m) {i : ℕ} (hp : present (m.pde i) = false) :
    1023 ≠ i := by
  rintro rfl
  rw [hs.isPresent] at hp
  cases hp

theorem SelfMapped.congr (hs : SelfMapped m) {m' : Machine} (hc : m'.cr3 = m.cr3)
    (h1023 : m'.frames (frameOf m.cr3) 1023 = m.frames (frameOf m.cr3) 1023) : SelfMapped m' := by
  have hpde : m'.pde 1023 = m.pde 1023 := by
    unfold Machine.pde
    rw [hc, h1023]
  constructor
  · rw [hpde, hs.isPresent]
  · rw [hpde, hc, hs.frame]

/-- `vmm_map_page` under a directory that lacks the page table.  `f` is the frame that
`pmm_alloc_page` gives, `0` if there is none. -/
theorem vmmMapPage_of_absent (hs : SelfMapped m) {virtAddr : UInt32}
    (hp : present (m.pde (pdIdx virtAddr)) = false) {f : ℕ} {m₁ : Machine}
    (halloc : m.allocPage = (frameAddr f, m₁)) (hframes : m₁.frames = m.frames)
    (hcr3 : m₁.cr3 = m.cr3) (hf : f < 2 ^ 20) (hfd : f ≠ frameOf m.cr3)
    (physAddr flags : UInt32) :
    vmmMapPage img m virtAddr physAddr flags =
      some ((withTable img m₁ virtAddr f).setWord f (ptIdx virtAddr)
        (pageEntry physAddr flags)) := by
  have hp' : ¬ present (m.frames (frameOf m.cr3) (pdIdx virtAddr)) = true := by
    rw [show m.frames (frameOf m.cr3) (pdIdx virtAddr) = m.pde (pdIdx virtAddr) from rfl, hp]
    decide
  have hi1023 : 1023 ≠ pdIdx virtAddr := hs.ne_of_absent hp
  -- the directory after the entry has been made, before and after the table is cleared
  have hspace : ∀ m' : Machine, m'.cr3 = m.cr3 →
      (∀ i, m'.frames (frameOf m.cr3) i =
        if i = pdIdx virtAddr then tableEntry f else m.frames (frameOf m.cr3) i) →
      pageTable m' virtAddr = some f := by
    intro m' hc hd
    have hs' : SelfMapped m' := hs.congr hc (by rw [hd, if_neg hi1023])
    have hpde : m'.pde (pdIdx virtAddr) = tableEntry f := by
      unfold Machine.pde
      rw [hc, hd, if_pos rfl]
    rw [pageTable_eq hs', hpde, if_pos (present_tableEntry hf), frameOf_tableEntry hf]
  have hnew : newPageTable img m (frameOf m.cr3) virtAddr =
      some (withTable img m₁ virtAddr f) := by
    unfold newPageTable
    rw [halloc]
    dsimp only
    have hpt : pageTable (if 0xC0000000 ≤ virtAddr then
        (m₁.setWord (frameOf m.cr3) (pdIdx virtAddr) (tableEntry f)).setWord img.pageDirectory
          (pdIdx virtAddr) (tableEntry f)
        else m₁.setWord (frameOf m.cr3) (pdIdx virtAddr) (tableEntry f)) virtAddr = some f := by
      refine hspace _ ?_ fun i => ?_
      · split_ifs <;> exact hcr3
      · split_ifs with hk hi hi
        · rw [Machine.frames_setWord, Machine.frames_setWord]
          simp [hi]
        · rw [Machine.frames_setWord, Machine.frames_setWord, if_neg (fun h => hi h.2),
            if_neg (fun h => hi h.2), hframes]
        · rw [Machine.frames_setWord, if_pos ⟨rfl, hi⟩]
        · rw [Machine.frames_setWord, if_neg (fun h => hi h.2), hframes]
    unfold tableEntry at hpt
    rw [hpt]
    unfold withTable
    rw [hcr3]
    rfl
  unfold vmmMapPage
  rw [translate_self hs]
  dsimp only [Option.bind_eq_bind, Option.bind_some]
  rw [if_neg hp', hnew, Option.bind_some, hspace]
  · rfl
  · rw [cr3_withTable, hcr3]
  · intro i
    rw [frames_withTable, if_neg (Ne.symm hfd), hcr3, hframes]
    by_cases hi : i = pdIdx virtAddr
    · rw [if_pos ⟨hi, Or.inl rfl⟩, if_pos hi]
    · rw [if_neg (fun h => hi h.1), if_neg hi]

/-- `page_fault_handler` on an address whose slot the kernel has. -/
theorem pageFaultHandler_eq (hs : IsSpace img m (frameOf m.cr3)) {addr : UInt32}
    (ha : 0xC0000000 ≤ addr) (hi : pdIdx addr < 1023) :
    pageFaultHandler img m addr =
      if present (m.frames img.pageDirectory (pdIdx addr)) then
        some (m.setWord (frameOf m.cr3) (pdIdx addr) (m.frames img.pageDirectory (pdIdx addr)))
      else none := by
  unfold pageFaultHandler
  rw [translate_self hs.selfMapped]
  by_cases hp : present (m.frames img.pageDirectory (pdIdx addr)) = true
  · rw [if_pos ⟨ha, hi, hp⟩, if_pos hp]
    rfl
  · rw [if_neg (fun h => hp h.2.2), if_neg hp]

theorem pages_pageFaultHandler {m' : Machine} {addr : UInt32}
    (h : pageFaultHandler img m addr = some m') : m'.pages = m.pages := by
  unfold pageFaultHandler at h
  split_ifs at h
  obtain ⟨pd, -, h⟩ := Option.bind_eq_some_iff.1 h
  cases h
  rfl

/-- The kernel can write to frame `f` of the low memory without changing what it works with. -/
structure Writable (img : Image) (m : Machine) (f : ℕ) : Prop where
  space : IsSpace img m (frameOf m.cr3)
  low : LowMapped img m
  lt : f < 1024
  ne_space : f ≠ frameOf m.cr3
  ne_table : f ≠ img.firstPageTable
  ne_directory : f ≠ img.pageDirectory

theorem Writable.setFrame {f : ℕ} (h : Writable img m f) (w : ℕ → UInt32) :
    Writable img (m.setFrame f w) f := by
  have hspace := m.frames_setFrame f w (frameOf m.cr3)
  have htable := m.frames_setFrame f w img.firstPageTable
  rw [if_neg (Ne.symm h.ne_space)] at hspace
  rw [if_neg (Ne.symm h.ne_table)] at htable
  refine ⟨isSpace_congr h.space ?_ ?_, fun i hi => ?_, h.lt, h.ne_space, h.ne_table,
    h.ne_directory⟩
  · exact congrFun hspace 0
  · exact congrFun hspace 1023
  · rw [htable]
    exact h.low i hi

theorem storeAt_low {f : ℕ} (h : Writable img m f) (i : ℕ) (w : UInt32) :
    storeAt img m (frameAddr f) i w =
      some (m.setFrame f (Function.update (m.frames f) i w)) := by
  have hlt := h.lt
  have ha := toNat_frameAddr (f := f) (by omega)
  unfold storeAt
  rw [translate_low h.space h.low (by omega), frameOf_frameAddr (by omega)]
  rfl

/-- The words of a frame after those of `l` have been stored, where `g` has one. -/
def storedWords (g : ℕ → Option UInt32) (l : List ℕ) (w : ℕ → UInt32) : ℕ → UInt32 :=
  fun i => if i ∈ l then (g i).getD (w i) else w i

/-- A loop that stores words to frame `f`, taken from what the other frames hold. -/
theorem foldlM_store {f : ℕ} {F : Machine → ℕ → Option Machine} {g : ℕ → Option UInt32}
    (hF : ∀ w i, F (m.setFrame f w) i =
      some (m.setFrame f (storedWords g [i] w))) (l : List ℕ) :
    ∀ w, l.foldlM F (m.setFrame f w) = some (m.setFrame f (storedWords g l w)) := by
  induction l with
  | nil =>
      intro w
      rfl
  | cons i l ih =>
      intro w
      rw [List.foldlM_cons, hF, Option.bind_eq_bind, Option.bind_some, ih]
      congr 2
      funext j
      unfold storedWords
      by_cases hj : j = i
      · subst hj
        cases g j <;> simp
      · simp [hj]

/-- The words of a new directory in frame `f`. -/
def newDirectory (img : Image) (m : Machine) (f i : ℕ) : UInt32 :=
  if i = 0 then m.frames img.pageDirectory 0
  else if i = 1023 then selfEntry f
  else if 768 ≤ i ∧ i < 896 ∧ present (m.frames img.pageDirectory i) = true then
    m.frames img.pageDirectory i
  else 0

/-- The frame of a new directory; the words beyond its 1024 do not matter. -/
def directoryFrame (img : Image) (m : Machine) (f : ℕ) : ℕ → UInt32 := fun i =>
  if i < 1024 then newDirectory img m f i else m.frames f i

/-- `vmm_create_page_directory` with other ways to read `page_directory` and to store a word. -/
def createPageDirectoryWith (load : Machine → ℕ → Option UInt32)
    (store : Machine → UInt32 → ℕ → UInt32 → Option Machine) (m : Machine) :
    Option (UInt32 × Machine) :=
  let (newPd, m) := m.allocPage
  if newPd = 0 then some (0, m)
  else do
    let m := { m with highDirectory := m.highDirectory || decide (0x400000 ≤ newPd) }
    let m ← (List.range 1024).foldlM (fun (m : Machine) i => store m newPd i 0) m
    let e ← load m 0
    let m ← store m newPd 0 e
    let m ← (List.range' 768 128).foldlM (fun (m : Machine) i => do
      let e ← load m i
      if present e then store m newPd i e else some m) m
    let m ← store m newPd 1023 (newPd ||| PAGE_PRESENT ||| PAGE_RW)
    some (newPd, m)

theorem vmmCreatePageDirectory_eq (img : Image) (m : Machine) : vmmCreatePageDirectory img m =
    createPageDirectoryWith (fun m i => some (m.frames img.pageDirectory i)) (storeAt img) m := rfl

/-- The stores go to frame `f`, and the loads see the kernel's directory, which is elsewhere. -/
theorem createPageDirectoryWith_low {load : Machine → ℕ → Option UInt32}
    {store : Machine → UInt32 → ℕ → UInt32 → Option Machine} {f : ℕ} {m₁ : Machine}
    (halloc : m.allocPage = (frameAddr f, m₁)) (h0 : f ≠ 0) (hlt : f < 1024)
    (hload : ∀ w i, load (m₁.setFrame f w) i = some (m₁.frames img.pageDirectory i))
    (hstore : ∀ w i v, store (m₁.setFrame f w) (frameAddr f) i v =
      some (m₁.setFrame f (Function.update w i v))) :
    createPageDirectoryWith load store m =
      some (frameAddr f, m₁.setFrame f (directoryFrame img m₁ f)) := by
  have hne : ¬ frameAddr f = 0 := fun hz => h0 ((frameAddr_eq_zero (by omega)).1 hz)
  have hhigh : decide (0x400000 ≤ frameAddr f) = false := by
    have ha := toNat_frameAddr (f := f) (by omega)
    rw [decide_eq_false_iff_not, UInt32.le_iff_toNat_le, ha]
    have hc : (0x400000 : UInt32).toNat = 0x400000 := rfl
    omega
  have hclear := foldlM_store (m := m₁) (f := f) (g := fun _ => some 0)
    (F := fun m i => store m (frameAddr f) i 0)
    (fun w i => by
      rw [hstore]
      congr 2
      funext j
      unfold storedWords
      simp [Function.update_apply]) (List.range 1024)
  have hcopy := foldlM_store (m := m₁) (f := f)
    (g := fun i => if present (m₁.frames img.pageDirectory i) then
      some (m₁.frames img.pageDirectory i) else none)
    (F := fun m i => do
      let e ← load m i
      if present e then store m (frameAddr f) i e else some m)
    (fun w i => by
      rw [hload, Option.bind_eq_bind, Option.bind_some, hstore]
      split_ifs with hp
      · congr 2
        funext j
        unfold storedWords
        by_cases hj : j = i
        · subst hj
          simp [hp]
        · simp [hj]
      · congr 2
        funext j
        unfold storedWords
        by_cases hj : j = i
        · subst hj
          simp [hp]
        · simp [hj]) (List.range' 768 128)
  have hstart : ({ m₁ with highDirectory := m₁.highDirectory || false } : Machine) =
      m₁.setFrame f (m₁.frames f) := by
    rw [Machine.setFrame_self, Bool.or_false]
  unfold createPageDirectoryWith
  rw [halloc]
  dsimp only
  rw [if_neg hne, hhigh, hstart, hclear]
  dsimp only [Option.bind_eq_bind, Option.bind_some] at hcopy ⊢
  rw [hload, Option.bind_some, hstore, Option.bind_some, hcopy, Option.bind_some, hstore,
    Option.bind_some]
  congr 3
  funext i
  unfold directoryFrame newDirectory storedWords
  simp only [Function.update_apply, List.mem_range, List.mem_range'_1, Nat.reduceAdd]
  by_cases hi0 : i = 0
  · subst hi0
    simp
  by_cases hi1023 : i = 1023
  · subst hi1023
    simp [selfEntry]
  by_cases hheap : 768 ≤ i ∧ i < 896
  · have hlt' : i < 1024 := by omega
    by_cases hp : present (m₁.frames img.pageDirectory i) = true
    · simp [hi0, hi1023, hheap, hlt', hp]
    · simp [hi0, hi1023, hheap, hlt', hp]
  · have hheap' : ¬ (768 ≤ i ∧ i < 896 ∧ present (m₁.frames img.pageDirectory i) = true) :=
      fun h => hheap ⟨h.1, h.2.1⟩
    simp only [hi0, hi1023, hheap, hheap', if_false, Option.getD_some]

/-- `vmm_create_page_directory` with a page below 4 MB. -/
theorem vmmCreatePageDirectory_low {f : ℕ} {m₁ : Machine}
    (halloc : m.allocPage = (frameAddr f, m₁)) (h0 : f ≠ 0) (h : Writable img m₁ f) :
    vmmCreatePageDirectory img m =
      some (frameAddr f, m₁.setFrame f (directoryFrame img m₁ f)) := by
  rw [vmmCreatePageDirectory_eq]
  apply createPageDirectoryWith_low halloc h0 h.lt
  · intro w i
    rw [Machine.frames_setFrame, if_neg (Ne.symm h.ne_directory)]
  · intro w i v
    rw [storeAt_low (h.setFrame w), Machine.frames_setFrame, if_pos rfl, Machine.setFrame_setFrame]

/-- The first store fails. -/
theorem createPageDirectoryWith_none {load : Machine → ℕ → Option UInt32}
    {store : Machine → UInt32 → ℕ → UInt32 → Option Machine} {newPd : UInt32} {m₁ : Machine}
    (halloc : m.allocPage = (newPd, m₁)) (h0 : newPd ≠ 0)
    (hstore : store { m₁ with highDirectory := m₁.highDirectory || decide (0x400000 ≤ newPd) }
      newPd 0 0 = none) : createPageDirectoryWith load store m = none := by
  unfold createPageDirectoryWith
  rw [halloc]
  dsimp only
  rw [if_neg h0, List.range_eq_range', List.range'_succ, List.foldlM_cons, hstore]
  rfl

/-- `vmm_create_page_directory` does not return when its page is not mapped at its address. -/
theorem vmmCreatePageDirectory_unmapped {newPd : UInt32} {m₁ : Machine}
    (halloc : m.allocPage = (newPd, m₁)) (h0 : newPd ≠ 0) (ht : m₁.translate newPd = none)
    (hlt : newPd < 0xC0000000) : vmmCreatePageDirectory img m = none := by
  rw [vmmCreatePageDirectory_eq]
  apply createPageDirectoryWith_none halloc h0
  generalize hm₂ : ({ m₁ with
    highDirectory := m₁.highDirectory || decide (0x400000 ≤ newPd) } : Machine) = m₂
  have ht₂ : m₂.translate newPd = none := by
    rw [← hm₂]
    exact ht
  have hfault : pageFaultHandler img m₂ newPd = none := by
    unfold pageFaultHandler
    rw [if_neg (fun h => UInt32.not_le.2 hlt h.1)]
  unfold storeAt
  rw [ht₂]
  dsimp only
  rw [hfault]
  rfl

end functions

/-! ### A small machine -/

/-- A kernel of 1 MB. -/
def smallImage : Image where
  toKernelImage := smallKernel
  pageDirectory := 0x100
  firstPageTable := 0x101
  kernelTask := 0x102000
  directory_mem := by decide
  table_mem := by decide
  ne := by decide
  task_mem := by decide
  le := by decide

/-- 63 MB of memory from 1 MB on. -/
def smallMap : MultibootInfo := ⟨MULTIBOOT_INFO_MEM_MAP, 0, [⟨0x100000, 0, 0x3F00000, 0, 1⟩]⟩

/-- The free frames are the ones from `n` to `top`. -/
structure FreeFrom (m : Machine) (n top : ℕ) : Prop where
  total : m.pages.totalMemoryPages.toNat = 32768
  free : ∀ i, Free m.pages i ↔ n ≤ i ∧ i < top

/-- A memory map of one region. -/
def regionMap (base length : UInt32) : MultibootInfo :=
  ⟨MULTIBOOT_INFO_MEM_MAP, 0, [⟨base, 0, length, 0, 1⟩]⟩

theorem opened_regionMap (base length : UInt32) (i : ℕ) :
    Opened MULTIBOOT_BOOTLOADER_MAGIC (regionMap base length) i ↔ freeWindow base length i := by
  have hinfo : (MULTIBOOT_BOOTLOADER_MAGIC == MULTIBOOT_BOOTLOADER_MAGIC &&
      MULTIBOOT_INFO_MEM_MAP &&& MULTIBOOT_INFO_MEM_MAP != 0) = true := by decide
  unfold Opened hasInfo regionMap
  dsimp only
  rw [if_pos hinfo]
  constructor
  · rintro ⟨e, he, -, hf⟩
    obtain rfl := List.mem_singleton.1 he
    exact hf
  · intro hf
    exact ⟨_, List.mem_singleton.2 rfl, rfl, hf⟩

/-- The small kernel ends at frame 512. -/
theorem freeFrom_regionMap {m : Machine} {base length : UInt32} {n top : ℕ}
    (h : m.pages = initPmm smallImage.toKernelImage MULTIBOOT_BOOTLOADER_MAGIC
      (regionMap base length))
    (htotal : (totalPages MULTIBOOT_BOOTLOADER_MAGIC (regionMap base length)).toNat = 32768)
    (hwin : ∀ i, i < 32768 ∧ freeWindow base length i ∧ 512 ≤ i ↔ n ≤ i ∧ i < top) :
    FreeFrom m n top := by
  have hk : kernelPages smallImage.toKernelImage = 512 := by decide
  refine ⟨?_, fun i => ?_⟩
  · rw [h, totalMemoryPages_initPmm, htotal]
  · rw [h, free_initPmm, htotal, opened_regionMap, hk]
    exact hwin i

theorem freeFrom_boot {m : Machine} (h : m.pages = initPmm smallImage.toKernelImage
    MULTIBOOT_BOOTLOADER_MAGIC smallMap) : FreeFrom m 512 16384 := by
  refine freeFrom_regionMap h (by decide) fun i => ?_
  have hw : freeWindow 0x100000 0x3F00000 i ↔ 256 ≤ i ∧ i < 16384 := Iff.rfl
  rw [hw]
  omega

theorem FreeFrom.congr {m m' : Machine} {n top : ℕ} (h : FreeFrom m n top)
    (hp : m'.pages = m.pages) : FreeFrom m' n top := by
  refine ⟨?_, fun i => ?_⟩
  · rw [hp]
    exact h.total
  · rw [hp]
    exact h.free i

theorem FreeFrom.alloc {m : Machine} {n top : ℕ} (h : FreeFrom m n top) (h0 : 0 < n)
    (hn : n < top) :
    m.allocPage = (frameAddr n, m.take n) ∧ FreeFrom (m.take n) (n + 1) top := by
  have htotal := h.total
  have hfree := (h.free n).2 ⟨le_refl n, hn⟩
  have hlt := hfree.1
  obtain ⟨i, hi, hfind, hfi⟩ := findFirstFreePage_le hfree (by omega)
  obtain rfl : i = n := by
    have := ((h.free i).1 hfi).1
    omega
  refine ⟨allocPage_of_found (by omega) hfind (by omega), ?_, fun g => ?_⟩
  · unfold Machine.take
    dsimp only
    rw [totalMemoryPages_bitmapSet, htotal]
  · rw [Machine.free_take (by omega), h.free]
    omega

end NosmeriOs.Vmm
