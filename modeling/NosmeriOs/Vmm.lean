import NosmeriOs.PmmSafety

/-! # Virtual memory (`mm/vmm.cpp`)

Physical memory is a table of frames of 1024 words, which is where page directories and page
tables live.  The processor translates addresses through the directory that `cr3` names.

* The functions reach the current directory and its tables through the recursive entry 1023, and
  a new directory through its physical address, which is only mapped below 4 MB.  Both go
  through `translate` here.
* A function that faults on such an access does not return, unless `page_fault_handler` puts in
  a missing entry of the heap: the handler stops the machine, and the result is `none`.
* `page_directory` and `first_page_table` are arrays of the kernel image, which every directory
  maps at its physical address; they are accessed directly.
* `invlpg` and the load of `cr3` end what the TLB keeps, so an address is translated at each access.
  Only the loop that copies a program can overwrite the table that it goes through; it keeps the
  translation of a page (`Tasks`). -/

namespace NosmeriOs.Vmm

open Pmm

def PAGE_PRESENT : UInt32 := 0x1
def PAGE_RW : UInt32 := 0x2
def PAGE_USER : UInt32 := 0x4

/-- The linked kernel: the frames of `page_directory` and `first_page_table` and the address of
`kernel_task`.  It lies in the 4 MB that are identity-mapped when paging is switched on. -/
structure Image extends KernelImage where
  pageDirectory : ℕ
  firstPageTable : ℕ
  kernelTask : ℕ
  directory_mem : 0x100 ≤ pageDirectory ∧ (pageDirectory + 1) * 4096 ≤ kernelEnd.toNat
  table_mem : 0x100 ≤ firstPageTable ∧ (firstPageTable + 1) * 4096 ≤ kernelEnd.toNat
  ne : pageDirectory ≠ firstPageTable
  task_mem : 0x100000 ≤ kernelTask ∧ kernelTask < kernelEnd.toNat
  le : kernelEnd.toNat ≤ 0x400000

/-- `outOfMemory` records whether `pmm_alloc_page` has ever returned `0`, and `highDirectory`
whether a directory has ever been put at 4 MB or above; no function reads them. -/
structure Machine where
  frames : ℕ → ℕ → UInt32
  pages : Pages
  cr3 : UInt32
  outOfMemory : Bool
  highDirectory : Bool

/-! ### Words, entries and translation -/

/-- The physical address of a frame. -/
def frameAddr (f : ℕ) : UInt32 := UInt32.ofNat (f * 4096)

/-- The frame that an entry, `cr3` or a physical address names. -/
def frameOf (e : UInt32) : ℕ := e.toNat / 4096

def present (e : UInt32) : Bool := e &&& PAGE_PRESENT != 0

def pdIdx (addr : UInt32) : ℕ := addr.toNat / 2 ^ 22
def ptIdx (addr : UInt32) : ℕ := addr.toNat / 4096 % 1024

namespace Machine

def setWord (m : Machine) (f i : ℕ) (w : UInt32) : Machine :=
  { m with frames := Function.update m.frames f (Function.update (m.frames f) i w) }

/-- The entry of the directory that `cr3` names. -/
def pde (m : Machine) (i : ℕ) : UInt32 := m.frames (frameOf m.cr3) i

/-- The frame at a virtual address, as the kernel sees it. -/
def translate (m : Machine) (addr : UInt32) : Option ℕ :=
  let pde := m.pde (pdIdx addr)
  if present pde then
    let pte := m.frames (frameOf pde) (ptIdx addr)
    if present pte then some (frameOf pte) else none
  else none

/-- `pmm_alloc_page`. -/
def allocPage (m : Machine) : UInt32 × Machine :=
  let (ptr, pages) := pmmAllocPage m.pages
  (ptr, { m with pages := pages, outOfMemory := m.outOfMemory || ptr == 0 })

/-- `pmm_free_page`. -/
def freePage (m : Machine) (ptr : UInt32) : Machine := { m with pages := pmmFreePage m.pages ptr }

end Machine

/-! ### The functions -/

section functions
variable (img : Image)

/-- `init_vmm`. -/
def initVmm (m : Machine) : Machine :=
  let directory : ℕ → UInt32 := fun i =>
    if i = 0 then frameAddr img.firstPageTable ||| PAGE_PRESENT ||| PAGE_RW ||| PAGE_USER
    else if i = 1023 then frameAddr img.pageDirectory ||| PAGE_PRESENT ||| PAGE_RW
    else 0
  let table : ℕ → UInt32 := fun i => frameAddr i ||| PAGE_PRESENT ||| PAGE_RW ||| PAGE_USER
  { m with
    frames := Function.update (Function.update m.frames img.pageDirectory directory)
      img.firstPageTable table
    cr3 := frameAddr img.pageDirectory }

def vmmGetKernelPageDirectory : UInt32 := frameAddr img.pageDirectory

/-- `page_fault_handler`: an entry of the heap that the current directory lacks is copied from
the kernel's; any other fault stops the machine. -/
def pageFaultHandler (m : Machine) (faultingAddress : UInt32) : Option Machine :=
  if 0xC0000000 ≤ faultingAddress ∧ pdIdx faultingAddress < 1023 ∧
      present (m.frames img.pageDirectory (pdIdx faultingAddress)) = true then do
    let pd ← m.translate 0xFFFFF000
    some (m.setWord pd (pdIdx faultingAddress)
      (m.frames img.pageDirectory (pdIdx faultingAddress)))
  else none

/-- A store to word `i` of the page at the virtual address `addr`; after a fault that the handler
returns from it is tried once more. -/
def storeAt (m : Machine) (addr : UInt32) (i : ℕ) (w : UInt32) : Option Machine :=
  match m.translate addr with
  | some f => some (m.setWord f i w)
  | none => do
      let m ← pageFaultHandler img m addr
      let f ← m.translate addr
      some (m.setWord f i w)

/-- `vmm_create_page_directory`: the physical address of the directory, `0` if there is no
page. -/
def vmmCreatePageDirectory (m : Machine) : Option (UInt32 × Machine) :=
  let (newPd, m) := m.allocPage
  if newPd = 0 then some (0, m)
  else do
    let m := { m with highDirectory := m.highDirectory || decide (0x400000 ≤ newPd) }
    let m ← (List.range 1024).foldlM (fun (m : Machine) i => storeAt img m newPd i 0) m
    let m ← storeAt img m newPd 0 (m.frames img.pageDirectory 0)
    let m ← (List.range' 768 128).foldlM (fun (m : Machine) i =>
      if present (m.frames img.pageDirectory i) then
        storeAt img m newPd i (m.frames img.pageDirectory i)
      else some m) m
    let m ← storeAt img m newPd 1023 (newPd ||| PAGE_PRESENT ||| PAGE_RW)
    some (newPd, m)

/-- `vmm_switch_page_directory`.  Page 0 holds no directory: with it the next instruction cannot
be fetched. -/
def vmmSwitchPageDirectory (m : Machine) (cr3 : UInt32) : Option Machine :=
  if cr3 = 0 then none else some { m with cr3 := cr3 }

/-- The page table of `vmm_map_page`, at `0xFFC00000 | (pd_idx << 12)`. -/
def pageTable (m : Machine) (virtAddr : UInt32) : Option ℕ :=
  m.translate (0xFFC00000 ||| UInt32.ofNat (pdIdx virtAddr * 4096))

/-- A page table for the address is allocated, entered and cleared. -/
def newPageTable (m : Machine) (pd : ℕ) (virtAddr : UInt32) : Option Machine := do
  let (newPt, m) := m.allocPage
  let entry := newPt ||| PAGE_PRESENT ||| PAGE_RW ||| PAGE_USER
  let m := m.setWord pd (pdIdx virtAddr) entry
  let m :=
    if 0xC0000000 ≤ virtAddr then m.setWord img.pageDirectory (pdIdx virtAddr) entry else m
  let pt ← pageTable m virtAddr
  some { m with frames := Function.update m.frames pt fun _ => 0 }

/-- `vmm_map_page`. -/
def vmmMapPage (m : Machine) (virtAddr physAddr flags : UInt32) : Option Machine := do
  let pd ← m.translate 0xFFFFF000
  let m ←
    if present (m.frames pd (pdIdx virtAddr)) then some m else newPageTable img m pd virtAddr
  let pt ← pageTable m virtAddr
  some (m.setWord pt (ptIdx virtAddr) ((physAddr &&& 0xFFFFF000) ||| flags))

/-- `vmm_unmap_page`. -/
def vmmUnmapPage (m : Machine) (virtAddr : UInt32) : Option Machine := do
  let pd ← m.translate 0xFFFFF000
  if present (m.frames pd (pdIdx virtAddr)) then do
    let pt ← pageTable m virtAddr
    some (m.setWord pt (ptIdx virtAddr) 0)
  else some m

end functions

end NosmeriOs.Vmm
