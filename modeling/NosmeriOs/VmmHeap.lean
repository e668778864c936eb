import NosmeriOs.VmmSpec

/-! # The heap's page tables in several address spaces

The kernel's directory has the page tables of the heap in slots 768 to 895.  A new directory gets
the ones that exist, the others when it faults; `vmm_map_page` enters a new table both in the
current directory and in the kernel's.  It looks only at the current one before, so under a
directory that lacks a table which the kernel has, it replaces the kernel's.

* `Spaces`: the machine and the directories created so far; `Spaces.step` runs one call.
* `Tables`: what holds as long as that does not happen (`Careful`): directories and tables are
  distinct frames in use, and all directories have the kernel's tables.
* `run_heap_slots`: along every run of careful steps the kernel's slots do not change once they
  are there, all other directories agree with them, and mapped pages stay mapped.
* `second_space_replaces_table`: the run that breaks it. -/

namespace NosmeriOs.Vmm

open Pmm

/-! ### Runs -/

/-- The machine and the physical addresses of the directories created. -/
structure Spaces where
  machine : Machine
  created : List UInt32

inductive VmmOp where
  | createPageDirectory
  /-- To the directory at a position; the kernel's is the first. -/
  | switchPageDirectory (k : ℕ)
  | mapPage (virtAddr physAddr flags : UInt32)
  | pageFault (addr : UInt32)

def IsHeapAddr (addr : UInt32) : Prop := 0xC0000000 ≤ addr ∧ addr ≤ 0xDFFFFFFF

/-- The slots of the heap. -/
def IsHeapSlot (i : ℕ) : Prop := 768 ≤ i ∧ i < 896

/-- The calls are about addresses of the heap. -/
def VmmOp.OnHeap : VmmOp → Prop
  | .mapPage virtAddr _ _ => IsHeapAddr virtAddr
  | .pageFault addr => IsHeapAddr addr
  | _ => True

namespace Spaces

variable (img : Image)

def directories (s : Spaces) : List UInt32 := vmmGetKernelPageDirectory img :: s.created

def step (s : Spaces) : VmmOp → Option Spaces
  | .createPageDirectory =>
      (vmmCreatePageDirectory img s.machine).map fun r =>
        ⟨r.2, if r.1 = 0 then s.created else s.created ++ [r.1]⟩
  | .switchPageDirectory k =>
      match (s.directories img)[k]? with
      | none => some s
      | some pd => (vmmSwitchPageDirectory s.machine pd).map (⟨·, s.created⟩)
  | .mapPage virtAddr physAddr flags =>
      (vmmMapPage img s.machine virtAddr physAddr flags).map (⟨·, s.created⟩)
  | .pageFault addr => (pageFaultHandler img s.machine addr).map (⟨·, s.created⟩)

def run (s : Spaces) (ops : List VmmOp) : Option Spaces := ops.foldlM (step img) s

/-- After `init_pmm` and `init_vmm`, on a machine with any contents. -/
def start (magic : UInt32) (mbi : MultibootInfo) (m : Machine) : Spaces :=
  ⟨initVmm img { m with pages := initPmm img.toKernelImage magic mbi }, []⟩

/-- The entry of the kernel's directory. -/
def kernelSlot (s : Spaces) (i : ℕ) : UInt32 := s.machine.frames img.pageDirectory i

/-- The frame at an address in the space of a directory. -/
def translateIn (s : Spaces) (pd addr : UInt32) : Option ℕ :=
  { s.machine with cr3 := pd }.translate addr

/-- The same after a page fault there. -/
def translateAfterFault (s : Spaces) (pd addr : UInt32) : Option ℕ :=
  (pageFaultHandler img { s.machine with cr3 := pd } addr).bind (·.translate addr)

end Spaces

/-! ### The claim -/

open Spaces in
/-- Every directory lacks a slot of the heap or has the kernel's. -/
def Agree (img : Image) (s : Spaces) : Prop :=
  ∀ pd ∈ s.created, ∀ i, IsHeapSlot i →
    present (s.machine.frames (frameOf pd) i) = false ∨
      s.machine.frames (frameOf pd) i = s.kernelSlot img i

/-- The kernel's slots that are there in `s` are the same in `s'`. -/
def SlotsKept (img : Image) (s s' : Spaces) : Prop :=
  ∀ i, IsHeapSlot i → present (s.kernelSlot img i) = true → s'.kernelSlot img i = s.kernelSlot img i

/-- The call maps the page of `addr` anew. -/
def VmmOp.Remaps (addr : UInt32) : VmmOp → Prop
  | .mapPage virtAddr _ _ => virtAddr.toNat / 4096 = addr.toNat / 4096
  | _ => False

/-- A page of the heap mapped in some space of `s` is mapped to the same frame in every space of
`s'`, if not at once then after a page fault. -/
def PageKept (img : Image) (s s' : Spaces) (addr : UInt32) : Prop :=
  ∀ pd ∈ s.directories img, ∀ f, s.translateIn pd addr = some f →
    ∀ pd' ∈ s'.directories img, s'.translateIn pd' addr = some f ∨
      s'.translateIn pd' addr = none ∧ s'.translateAfterFault img pd' addr = some f

/-- The step neither replaces a table of the kernel's nor lacks the page for a new one; a new
directory is put below 3 GB, where no other frame is mapped at its address. -/
def Careful (img : Image) (s : Spaces) : VmmOp → Prop
  | .createPageDirectory => (pmmAllocPage s.machine.pages).1 < 0xC0000000
  | .mapPage virtAddr _ _ =>
      present (s.machine.pde (pdIdx virtAddr)) = true ∨
        present (s.kernelSlot img (pdIdx virtAddr)) = false ∧
          (pmmAllocPage s.machine.pages).1 ≠ 0
  | _ => True

/-- Runs on addresses of the heap in which every step is careful. -/
inductive CarefulRun (img : Image) : Spaces → List VmmOp → Spaces → Prop
  | nil (s : Spaces) : CarefulRun img s [] s
  | cons {s s' s'' : Spaces} {op : VmmOp} {ops : List VmmOp} : op.OnHeap → Careful img s op →
      s.step img op = some s' → CarefulRun img s' ops s'' → CarefulRun img s (op :: ops) s''

theorem CarefulRun.append {img : Image} {s s' s'' : Spaces} {ops ops' : List VmmOp}
    (h : CarefulRun img s ops s') (h' : CarefulRun img s' ops' s'') :
    CarefulRun img s (ops ++ ops') s'' := by
  induction h with
  | nil s => exact h'
  | cons hon hc hs _ ih => exact .cons hon hc hs (ih h')

theorem CarefulRun.run_eq {img : Image} {s s' : Spaces} {ops : List VmmOp}
    (h : CarefulRun img s ops s') : s.run img ops = some s' := by
  induction h with
  | nil s => rfl
  | cons _ _ hs _ ih =>
      unfold Spaces.run at ih ⊢
      rw [List.foldlM_cons, hs, Option.bind_eq_bind, Option.bind_some, ih]

/-! ### The invariant -/

/-- A frame that has been handed out. -/
structure InUse (img : Image) (m : Machine) (f : ℕ) : Prop where
  ge : img.kernelEnd.toNat ≤ f * 4096
  used : ¬ Free m.pages f

namespace InUse

variable {img : Image} {m : Machine} {f : ℕ}

theorem ne_directory (h : InUse img m f) : f ≠ img.pageDirectory := by
  have h1 := img.directory_mem
  have h2 := h.ge
  omega

theorem ne_table (h : InUse img m f) : f ≠ img.firstPageTable := by
  have h1 := img.table_mem
  have h2 := h.ge
  omega

theorem ne_free (h : InUse img m f) {g : ℕ} (hg : IsFree img m g) : f ≠ g := by
  rintro rfl
  exact h.used hg.free

theorem take (h : InUse img m f) {g : ℕ} (hg : g < 2 ^ 20) : InUse img (m.take g) f :=
  ⟨h.ge, fun hf => h.used ((Machine.free_take hg f).1 hf).1⟩

theorem of_take (h : IsFree img m f) : InUse img (m.take f) f :=
  ⟨h.ge, fun hf => ((Machine.free_take h.lt f).1 hf).2 rfl⟩

end InUse

/-- Directories and tables are distinct frames in use, every directory can be worked under, and
all agree with the kernel's. -/
structure Tables (img : Image) (s : Spaces) : Prop where
  pages : PagesInv img s.machine.pages
  current : s.machine.cr3 ∈ s.directories img
  low : LowMapped img s.machine
  space : ∀ pd ∈ s.directories img, IsSpace img s.machine (frameOf pd)
  empty : ∀ pd ∈ s.directories img, ∀ i, 0 < i → i < 768 →
    present (s.machine.frames (frameOf pd) i) = false
  created : ∀ pd ∈ s.created, InUse img s.machine (frameOf pd)
  table : ∀ i, IsHeapSlot i → present (s.kernelSlot img i) = true →
    InUse img s.machine (frameOf (s.kernelSlot img i)) ∧
      ∀ pd ∈ s.created, frameOf pd ≠ frameOf (s.kernelSlot img i)
  distinct : ∀ i j, IsHeapSlot i → IsHeapSlot j → present (s.kernelSlot img i) = true →
    present (s.kernelSlot img j) = true →
    frameOf (s.kernelSlot img i) = frameOf (s.kernelSlot img j) → i = j
  agree : Agree img s

theorem frameOf_kernel (img : Image) :
    frameOf (vmmGetKernelPageDirectory img) = img.pageDirectory := by
  have h := img.directory_lt
  exact frameOf_frameAddr (by omega)

theorem mem_directories {img : Image} {s : Spaces} {pd : UInt32} :
    pd ∈ s.directories img ↔ pd = vmmGetKernelPageDirectory img ∨ pd ∈ s.created :=
  List.mem_cons

/-- The kernel's table has the same entry for the page of `addr`. -/
def EntryKept (img : Image) (addr : UInt32) (s s' : Spaces) : Prop :=
  present (s.kernelSlot img (pdIdx addr)) = true →
    s'.machine.frames (frameOf (s.kernelSlot img (pdIdx addr))) (ptIdx addr) =
      s.machine.frames (frameOf (s.kernelSlot img (pdIdx addr))) (ptIdx addr)

section invariant

variable {img : Image} {s s' : Spaces} {addr : UInt32}

theorem heapSlot_of_addr (ha : IsHeapAddr addr) : IsHeapSlot (pdIdx addr) := by
  have h1 : 0xC0000000 ≤ addr.toNat := ha.1
  have h2 : addr.toNat ≤ 0xDFFFFFFF := ha.2
  unfold IsHeapSlot pdIdx
  omega

theorem SlotsKept.trans {s'' : Spaces} (h : SlotsKept img s s') (h' : SlotsKept img s' s'') :
    SlotsKept img s s'' := by
  intro i hi hp
  have he := h i hi hp
  rw [← he]
  exact h' i hi (by rw [he]; exact hp)

theorem EntryKept.trans {s'' : Spaces} (ha : IsHeapAddr addr) (hslots : SlotsKept img s s')
    (h : EntryKept img addr s s') (h' : EntryKept img addr s' s'') : EntryKept img addr s s'' := by
  intro hp
  have he := hslots _ (heapSlot_of_addr ha) hp
  have h2 := h' (by rw [he]; exact hp)
  rw [he] at h2
  rw [h2, h hp]

/-- The slot of a directory is the kernel's when it is there. -/
theorem Tables.slot_eq (h : Tables img s) {pd : UInt32} (hpd : pd ∈ s.directories img) {i : ℕ}
    (hi : IsHeapSlot i) (hp : present (s.machine.frames (frameOf pd) i) = true) :
    s.machine.frames (frameOf pd) i = s.kernelSlot img i := by
  obtain rfl | hc := mem_directories.1 hpd
  · rw [frameOf_kernel]
    rfl
  · obtain hno | he := h.agree pd hc i hi
    · rw [hno] at hp
      cases hp
    · exact he

/-- A table is no directory. -/
theorem Tables.table_ne (h : Tables img s) {i : ℕ} (hi : IsHeapSlot i)
    (hp : present (s.kernelSlot img i) = true) {pd : UInt32} (hpd : pd ∈ s.directories img) :
    frameOf pd ≠ frameOf (s.kernelSlot img i) := by
  obtain ⟨huse, hne⟩ := h.table i hi hp
  obtain rfl | hc := mem_directories.1 hpd
  · rw [frameOf_kernel]
    exact huse.ne_directory.symm
  · exact hne pd hc

/-- The invariant only depends on the directories, the low table, the pages and `cr3`. -/
theorem Tables.congr (h : Tables img s) (hcreated : s'.created = s.created)
    (hpages : s'.machine.pages = s.machine.pages) (hcr3 : s'.machine.cr3 ∈ s.directories img)
    (hlow : s'.machine.frames img.firstPageTable = s.machine.frames img.firstPageTable)
    (hdirs : ∀ pd ∈ s.directories img,
      s'.machine.frames (frameOf pd) = s.machine.frames (frameOf pd)) : Tables img s' := by
  have hd : s'.directories img = s.directories img := by
    unfold Spaces.directories
    rw [hcreated]
  have hk : ∀ i, s'.kernelSlot img i = s.kernelSlot img i := by
    intro i
    have he := hdirs _ (mem_directories.2 (Or.inl rfl))
    rw [frameOf_kernel] at he
    exact congrFun he i
  have huse : ∀ f, InUse img s.machine f → InUse img s'.machine f := by
    intro f hf
    refine ⟨hf.ge, ?_⟩
    rw [hpages]
    exact hf.used
  refine ⟨?_, ?_, ?_, ?_, ?_, ?_, ?_, ?_, ?_⟩
  · rw [hpages]
    exact h.pages
  · rw [hd]
    exact hcr3
  · intro i hi
    rw [hlow]
    exact h.low i hi
  · intro pd hpd
    rw [hd] at hpd
    have he := hdirs pd hpd
    exact isSpace_congr (h.space pd hpd) (congrFun he 0) (congrFun he 1023)
  · intro pd hpd
    rw [hd] at hpd
    rw [hdirs pd hpd]
    exact h.empty pd hpd
  · intro pd hpd
    rw [hcreated] at hpd
    exact huse _ (h.created pd hpd)
  · intro i hi hp
    rw [hk] at hp ⊢
    rw [hcreated]
    obtain ⟨h1, h2⟩ := h.table i hi hp
    exact ⟨huse _ h1, h2⟩
  · intro i j hi hj hpi hpj he
    rw [hk] at hpi he
    rw [hk] at hpj he
    exact h.distinct i j hi hj hpi hpj he
  · intro pd hpd i hi
    rw [hcreated] at hpd
    rw [hk, hdirs pd (mem_directories.2 (Or.inr hpd))]
    exact h.agree pd hpd i hi

/-! ### One step -/

theorem page_eq {a b : UInt32} (hpd : pdIdx a = pdIdx b) (hpt : ptIdx a = ptIdx b) :
    a.toNat / 4096 = b.toNat / 4096 := by
  unfold pdIdx at hpd
  unfold ptIdx at hpt
  omega

/-- What steps preserve: the invariant, and the kernel's tables but for the pages they map. -/
structure KeptBy (img : Image) (ops : List VmmOp) (s s' : Spaces) : Prop where
  tables : Tables img s'
  slots : SlotsKept img s s'
  entry : ∀ addr, IsHeapAddr addr → (∀ op ∈ ops, ¬ op.Remaps addr) → EntryKept img addr s s'

/-- A step after which the directories are as before. -/
theorem Tables.kept_of_frames (h : Tables img s) (hcreated : s'.created = s.created)
    (hpages : s'.machine.pages = s.machine.pages) (hcr3 : s'.machine.cr3 ∈ s.directories img)
    (hframes : s'.machine.frames = s.machine.frames) (ops : List VmmOp) : KeptBy img ops s s' := by
  refine ⟨h.congr hcreated hpages hcr3 (by rw [hframes]) fun _ _ => by rw [hframes],
    fun i _ _ => ?_, fun addr _ _ _ => by rw [hframes]⟩
  unfold Spaces.kernelSlot
  rw [hframes]

theorem Tables.switch (h : Tables img s) {k : ℕ}
    (hs : s.step img (.switchPageDirectory k) = some s') :
    KeptBy img [.switchPageDirectory k] s s' := by
  unfold Spaces.step at hs
  dsimp only at hs
  cases hk : (s.directories img)[k]? with
  | none =>
      rw [hk] at hs
      cases hs
      exact h.kept_of_frames rfl rfl h.current rfl _
  | some pd =>
      rw [hk] at hs
      dsimp only at hs
      unfold vmmSwitchPageDirectory at hs
      have hmem : pd ∈ s.directories img := List.mem_of_getElem? hk
      by_cases h0 : pd = 0
      · rw [if_pos h0] at hs
        cases hs
      · rw [if_neg h0] at hs
        cases hs
        refine h.kept_of_frames ?_ ?_ ?_ ?_ _
        · rfl
        · rfl
        · exact hmem
        · rfl

/-- `vmm_map_page` with the table there. -/
theorem Tables.map_present (h : Tables img s) {virtAddr physAddr flags : UInt32}
    (hv : IsHeapAddr virtAddr) (hp : present (s.machine.pde (pdIdx virtAddr)) = true)
    (hs : s.step img (.mapPage virtAddr physAddr flags) = some s') :
    KeptBy img [.mapPage virtAddr physAddr flags] s s' := by
  have hi := heapSlot_of_addr hv
  have hslot : s.machine.pde (pdIdx virtAddr) = s.kernelSlot img (pdIdx virtAddr) :=
    h.slot_eq h.current hi hp
  have hpk : present (s.kernelSlot img (pdIdx virtAddr)) = true := hslot ▸ hp
  have hm := @vmmMapPage_of_present img _ (h.space _ h.current).selfMapped _ hp physAddr flags
  unfold Spaces.step at hs
  dsimp only at hs
  rw [hm, hslot] at hs
  cases hs
  have huse := (h.table _ hi hpk).1
  have hframe : ∀ g ≠ frameOf (s.kernelSlot img (pdIdx virtAddr)),
      (s.machine.setWord (frameOf (s.kernelSlot img (pdIdx virtAddr))) (ptIdx virtAddr)
        (pageEntry physAddr flags)).frames g = s.machine.frames g := by
    intro g hg
    funext j
    rw [Machine.frames_setWord, if_neg (fun h => hg h.1)]
  refine ⟨h.congr rfl rfl h.current (hframe _ huse.ne_table.symm)
    fun pd hpd => hframe _ (h.table_ne hi hpk hpd), fun i _ _ => ?_, fun addr ha hr hpa => ?_⟩
  · exact congrFun (hframe _ huse.ne_directory.symm) i
  · dsimp only
    rw [Machine.frames_setWord, if_neg]
    rintro ⟨hf, hpt⟩
    have hpd := h.distinct _ _ (heapSlot_of_addr ha) hi hpa hpk hf
    exact hr _ (List.mem_singleton.2 rfl) (page_eq hpd.symm hpt.symm)

/-- `page_fault_handler` copies the kernel's slot. -/
theorem Tables.fault (h : Tables img s) {a : UInt32} (hv : IsHeapAddr a)
    (hs : s.step img (.pageFault a) = some s') : KeptBy img [.pageFault a] s s' := by
  have hi := heapSlot_of_addr hv
  have hlt : pdIdx a < 1023 := by
    have := hi.2
    omega
  have hm := pageFaultHandler_eq (h.space _ h.current) hv.1 hlt
  unfold Spaces.step at hs
  dsimp only at hs
  rw [hm] at hs
  by_cases hp : present (s.machine.frames img.pageDirectory (pdIdx a)) = true
  swap
  · rw [if_neg hp] at hs
    cases hs
  rw [if_pos hp] at hs
  cases hs
  generalize hm' : s.machine.setWord (frameOf s.machine.cr3) (pdIdx a)
    (s.machine.frames img.pageDirectory (pdIdx a)) = m'
  have hframe : ∀ g i, m'.frames g i = if g = frameOf s.machine.cr3 ∧ i = pdIdx a then
      s.kernelSlot img (pdIdx a) else s.machine.frames g i := by
    intro g i
    rw [← hm', Machine.frames_setWord]
    rfl
  -- in the kernel's directory the slot is stored over itself
  have hk : ∀ i, m'.frames img.pageDirectory i = s.machine.frames img.pageDirectory i := by
    intro i
    rw [hframe]
    split_ifs with h1
    · rw [h1.2]
      rfl
    · rfl
  have hpages : m'.pages = s.machine.pages := by rw [← hm']; rfl
  have hcr3 : m'.cr3 = s.machine.cr3 := by rw [← hm']; rfl
  have hother : ∀ g i, ¬ IsHeapSlot i → m'.frames g i = s.machine.frames g i := by
    intro g i hni
    rw [hframe, if_neg]
    rintro ⟨-, rfl⟩
    exact hni hi
  have huse : ∀ f, InUse img s.machine f → InUse img m' f := by
    intro f hf
    refine ⟨hf.ge, ?_⟩
    rw [hpages]
    exact hf.used
  have hcur : frameOf s.machine.cr3 ≠ img.firstPageTable := by
    obtain he | hc := mem_directories.1 h.current
    · rw [he, frameOf_kernel]
      exact img.ne
    · exact (h.created _ hc).ne_table
  have hks : ∀ i, (Spaces.mk m' s.created).kernelSlot img i = s.kernelSlot img i := hk
  refine ⟨⟨?_, ?_, ?_, ?_, ?_, fun pd hpd => huse _ (h.created pd hpd), ?_, ?_, ?_⟩,
    fun i _ _ => hk i, fun addr ha _ hpa => ?_⟩
  · rw [hpages]
    exact h.pages
  · rw [hcr3]
    exact h.current
  · intro i hlt'
    rw [hframe, if_neg (fun he => hcur he.1.symm)]
    exact h.low i hlt'
  · intro pd hpd
    refine isSpace_congr (h.space pd hpd) (hother _ _ ?_) (hother _ _ ?_)
    · exact fun h0 => absurd h0.1 (by omega)
    · exact fun h0 => absurd h0.2 (by omega)
  · intro pd hpd i h1 h2
    rw [hother _ _ (fun h0 => absurd h0.1 (by omega))]
    exact h.empty pd hpd i h1 h2
  · intro i hi' hpi
    rw [hks] at hpi ⊢
    obtain ⟨h1, h2⟩ := h.table i hi' hpi
    exact ⟨huse _ h1, h2⟩
  · intro i j hi' hj' hpi hpj he
    rw [hks] at hpi he
    rw [hks] at hpj he
    exact h.distinct i j hi' hj' hpi hpj he
  · intro pd hpd i hi'
    rw [hks]
    dsimp only
    rw [hframe]
    split_ifs with h1
    · rw [h1.2]
      exact Or.inr rfl
    · exact h.agree pd hpd i hi'
  · dsimp only
    rw [hframe, if_neg]
    rintro ⟨he, -⟩
    exact h.table_ne (heapSlot_of_addr ha) hpa h.current he.symm

/-- A free frame is no directory. -/
theorem Tables.free_ne (h : Tables img s) {f : ℕ} (hf : IsFree img s.machine f) {pd : UInt32}
    (hpd : pd ∈ s.directories img) : frameOf pd ≠ f := by
  obtain rfl | hc := mem_directories.1 hpd
  · rw [frameOf_kernel]
    exact hf.ne_directory.symm
  · exact (h.created pd hc).ne_free hf

/-- The frames after `vmm_map_page` has made a new table for the heap in frame `f`. -/
theorem frames_newTable {m : Machine} {virtAddr : UInt32} (hv : 0xC0000000 ≤ virtAddr) {f : ℕ}
    (p : ℕ) (e : UInt32) {g : ℕ} (hg : g ≠ f) (i : ℕ) :
    ((withTable img (m.take f) virtAddr f).setWord f p e).frames g i =
      if i = pdIdx virtAddr ∧ (g = frameOf m.cr3 ∨ g = img.pageDirectory) then tableEntry f
      else m.frames g i := by
  have hc : (0xC0000000 ≤ virtAddr) = True := eq_true hv
  rw [Machine.frames_setWord, if_neg (fun he => hg he.1), frames_withTable, if_neg hg]
  simp only [hc, true_and, Machine.frames_take, Machine.cr3_take]

@[simp] theorem pages_withTable (m : Machine) (virtAddr : UInt32) (f : ℕ) :
    (withTable img m virtAddr f).pages = m.pages := by
  unfold withTable
  dsimp only
  split_ifs <;> rfl

theorem Tables.step_newTable (h : Tables img s) {virtAddr : UInt32}
    (hp : present (s.machine.pde (pdIdx virtAddr)) = false) {f : ℕ} (hf : IsFree img s.machine f)
    (halloc : s.machine.allocPage = (frameAddr f, s.machine.take f)) (physAddr flags : UInt32) :
    s.step img (.mapPage virtAddr physAddr flags) =
      some ⟨(withTable img (s.machine.take f) virtAddr f).setWord f (ptIdx virtAddr)
        (pageEntry physAddr flags), s.created⟩ := by
  unfold Spaces.step
  dsimp only
  rw [vmmMapPage_of_absent (h.space _ h.current).selfMapped hp halloc rfl rfl hf.lt
    (h.free_ne hf h.current).symm physAddr flags]
  rfl

/-- `vmm_map_page` with a new table, which the kernel did not have either. -/
theorem Tables.map_absent (h : Tables img s) {virtAddr physAddr flags : UInt32}
    (hv : IsHeapAddr virtAddr) (hp : present (s.machine.pde (pdIdx virtAddr)) = false)
    (hpk : present (s.kernelSlot img (pdIdx virtAddr)) = false) {f : ℕ}
    (hf : IsFree img s.machine f) (halloc : s.machine.allocPage = (frameAddr f, s.machine.take f))
    (hs : s.step img (.mapPage virtAddr physAddr flags) = some s') :
    KeptBy img [.mapPage virtAddr physAddr flags] s s' := by
  have hi := heapSlot_of_addr hv
  rw [h.step_newTable hp hf halloc] at hs
  cases hs
  generalize hm' : (withTable img (s.machine.take f) virtAddr f).setWord f (ptIdx virtAddr)
    (pageEntry physAddr flags) = m'
  have hframe : ∀ g i, g ≠ f → m'.frames g i =
      if i = pdIdx virtAddr ∧ (g = frameOf s.machine.cr3 ∨ g = img.pageDirectory) then tableEntry f
      else s.machine.frames g i := by
    intro g i hg
    rw [← hm']
    exact frames_newTable hv.1 _ _ hg i
  have hcr3 : m'.cr3 = s.machine.cr3 := by
    rw [← hm', Machine.cr3_setWord, cr3_withTable]
    rfl
  have hpages : m'.pages = (s.machine.take f).pages := by
    rw [← hm', Machine.pages_setWord, pages_withTable]
  have huse : ∀ g, InUse img s.machine g → InUse img m' g := by
    intro g hg
    refine ⟨hg.ge, ?_⟩
    rw [hpages]
    exact (hg.take hf.lt).used
  have hfuse : InUse img m' f := by
    refine ⟨hf.ge, ?_⟩
    rw [hpages]
    exact (InUse.of_take hf).used
  have hother : ∀ g i, g ≠ f → ¬ IsHeapSlot i → m'.frames g i = s.machine.frames g i := by
    intro g i hg hni
    rw [hframe g i hg, if_neg]
    rintro ⟨rfl, -⟩
    exact hni hi
  have hk : ∀ i, (Spaces.mk m' s.created).kernelSlot img i =
      if i = pdIdx virtAddr then tableEntry f else s.kernelSlot img i := by
    intro i
    show m'.frames img.pageDirectory i = _
    rw [hframe _ i hf.ne_directory.symm]
    by_cases hie : i = pdIdx virtAddr
    · rw [if_pos ⟨hie, Or.inr rfl⟩, if_pos hie]
    · rw [if_neg (fun he => hie he.1), if_neg hie]
      rfl
  have hnew : frameOf (tableEntry f) = f := frameOf_tableEntry hf.lt
  refine ⟨⟨?_, ?_, ?_, ?_, ?_, fun pd hpd => huse _ (h.created pd hpd), ?_, ?_, ?_⟩,
    fun i _ hpi => ?_, fun addr ha _ hpa => ?_⟩
  · rw [hpages]
    exact h.pages.take hf.lt
  · rw [hcr3]
    exact h.current
  · intro i hlt
    have hcur : img.firstPageTable ≠ frameOf s.machine.cr3 := by
      obtain he | hc := mem_directories.1 h.current
      · rw [he, frameOf_kernel]
        exact img.ne.symm
      · exact (h.created _ hc).ne_table.symm
    rw [hframe _ i hf.ne_table.symm, if_neg]
    · exact h.low i hlt
    · rintro ⟨-, he | he⟩
      · exact hcur he
      · exact img.ne he.symm
  · intro pd hpd
    have hne := h.free_ne hf hpd
    refine isSpace_congr (h.space pd hpd) (hother _ _ hne ?_) (hother _ _ hne ?_)
    · exact fun h0 => absurd h0.1 (by omega)
    · exact fun h0 => absurd h0.2 (by omega)
  · intro pd hpd i h1 h2
    rw [hother _ _ (h.free_ne hf hpd) (fun h0 => absurd h0.1 (by omega))]
    exact h.empty pd hpd i h1 h2
  · intro i hi' hpi
    rw [hk] at hpi ⊢
    split_ifs at hpi ⊢ with hie
    · rw [hnew]
      exact ⟨hfuse, fun pd hpd => (h.created pd hpd).ne_free hf⟩
    · obtain ⟨h1, h2⟩ := h.table i hi' hpi
      exact ⟨huse _ h1, h2⟩
  · intro i j hi' hj' hpi hpj he
    rw [hk] at hpi hpj
    rw [hk, hk] at he
    split_ifs at hpi hpj he with h1 h2 h2
    · rw [h1, h2]
    · rw [hnew] at he
      exact absurd he.symm ((h.table j hj' hpj).1.ne_free hf)
    · rw [hnew] at he
      exact absurd he ((h.table i hi' hpi).1.ne_free hf)
    · exact h.distinct i j hi' hj' hpi hpj he
  · intro pd hpd i hi'
    rw [hk]
    dsimp only
    have hne := (h.created pd hpd).ne_free hf
    rw [hframe _ i hne]
    by_cases hie : i = pdIdx virtAddr
    · rw [if_pos hie]
      by_cases hc : frameOf pd = frameOf s.machine.cr3 ∨ frameOf pd = img.pageDirectory
      · rw [if_pos ⟨hie, hc⟩]
        exact Or.inr rfl
      · -- no other directory had a table there
        rw [if_neg (fun h0 => hc h0.2)]
        left
        obtain hno | he := h.agree pd hpd i hi'
        · exact hno
        · rw [he, hie]
          exact hpk
    · rw [if_neg (fun h0 => hie h0.1), if_neg hie]
      exact h.agree pd hpd i hi'
  · rw [hk, if_neg]
    rintro rfl
    rw [hpk] at hpi
    cases hpi
  · have hT := (h.table _ (heapSlot_of_addr ha) hpa).1
    dsimp only
    rw [hframe _ _ (hT.ne_free hf), if_neg]
    rintro ⟨-, he | he⟩
    · exact h.table_ne (heapSlot_of_addr ha) hpa h.current he.symm
    · exact hT.ne_directory he

/-- A page between 4 MB and 3 GB is not mapped at its address. -/
theorem Tables.translate_high (h : Tables img s) {a : UInt32} (h1 : 0x400000 ≤ a.toNat)
    (h2 : a.toNat < 0xC0000000) : s.machine.translate a = none := by
  have hi : 0 < pdIdx a ∧ pdIdx a < 768 := by
    unfold pdIdx
    omega
  have hp := h.empty _ h.current _ hi.1 hi.2
  unfold Machine.translate Machine.pde
  dsimp only
  rw [hp]
  rfl

/-- A new directory in frame `f`. -/
theorem Tables.create_low (h : Tables img s) {f : ℕ} (hf : IsFree img s.machine f)
    {ops : List VmmOp} :
    KeptBy img ops s ⟨(s.machine.take f).setFrame f (directoryFrame img (s.machine.take f) f),
      s.created ++ [frameAddr f]⟩ := by
  generalize hm' : (s.machine.take f).setFrame f (directoryFrame img (s.machine.take f) f) = m'
  have hframe : ∀ g, g ≠ f → m'.frames g = s.machine.frames g := by
    intro g hg
    rw [← hm', Machine.frames_setFrame, if_neg hg]
    rfl
  have hnew : ∀ i < 1024, m'.frames f i = newDirectory img s.machine f i := by
    intro i hi
    rw [← hm', Machine.frames_setFrame, if_pos rfl]
    unfold directoryFrame newDirectory
    rw [if_pos hi, Machine.frames_take]
  have hcr3 : m'.cr3 = s.machine.cr3 := by
    rw [← hm']
    rfl
  have hpages : m'.pages = (s.machine.take f).pages := by
    rw [← hm']
    rfl
  have huse : ∀ g, InUse img s.machine g → InUse img m' g := by
    intro g hg
    refine ⟨hg.ge, ?_⟩
    rw [hpages]
    exact (hg.take hf.lt).used
  have hfuse : InUse img m' f := by
    refine ⟨hf.ge, ?_⟩
    rw [hpages]
    exact (InUse.of_take hf).used
  have hfr : frameOf (frameAddr f) = f := frameOf_frameAddr hf.lt
  have hk : ∀ i, (Spaces.mk m' (s.created ++ [frameAddr f])).kernelSlot img i =
      s.kernelSlot img i := fun i => congrFun (hframe _ hf.ne_directory.symm) i
  have hmem : ∀ pd, pd ∈ (Spaces.mk m' (s.created ++ [frameAddr f])).directories img →
      pd ∈ s.directories img ∨ pd = frameAddr f := by
    intro pd hpd
    rw [mem_directories] at hpd ⊢
    rw [List.mem_append, List.mem_singleton] at hpd
    exact or_assoc.2 hpd
  have hcases : ∀ pd ∈ s.created ++ [frameAddr f], pd ∈ s.created ∨ pd = frameAddr f := by
    intro pd hpd
    rw [List.mem_append, List.mem_singleton] at hpd
    exact hpd
  refine ⟨⟨?_, ?_, ?_, ?_, ?_, ?_, ?_, ?_, ?_⟩, fun i _ _ => hk i,
    fun addr ha _ hpa => ?_⟩
  · rw [hpages]
    exact h.pages.take hf.lt
  · dsimp only
    rw [hcr3, mem_directories, List.mem_append]
    obtain hc | hc := mem_directories.1 h.current
    · exact Or.inl hc
    · exact Or.inr (Or.inl hc)
  · intro i hi
    dsimp only
    rw [hframe _ hf.ne_table.symm]
    exact h.low i hi
  · intro pd hpd
    obtain hpd | rfl := hmem pd hpd
    · have he := hframe _ (h.free_ne hf hpd)
      exact isSpace_congr (h.space pd hpd) (congrFun he 0) (congrFun he 1023)
    · rw [hfr]
      have hkern := (h.space _ (mem_directories.2 (Or.inl rfl))).low
      rw [frameOf_kernel] at hkern
      exact ⟨hf.lt, (hnew 0 (by omega)).trans hkern, hnew 1023 (by omega)⟩
  · intro pd hpd i h1 h2
    dsimp only
    obtain hpd | rfl := hmem pd hpd
    · rw [hframe _ (h.free_ne hf hpd)]
      exact h.empty pd hpd i h1 h2
    · rw [hfr, hnew i (by omega)]
      unfold newDirectory
      rw [if_neg (by omega), if_neg (by omega), if_neg (by omega)]
      exact present_zero
  · intro pd hpd
    obtain hpd | rfl := hcases pd hpd
    · exact huse _ (h.created pd hpd)
    · rw [hfr]
      exact hfuse
  · intro i hi hpi
    rw [hk] at hpi ⊢
    obtain ⟨h1, h2⟩ := h.table i hi hpi
    refine ⟨huse _ h1, fun pd hpd => ?_⟩
    obtain hpd | rfl := hcases pd hpd
    · exact h2 pd hpd
    · rw [hfr]
      exact (h1.ne_free hf).symm
  · intro i j hi hj hpi hpj he
    rw [hk] at hpi he
    rw [hk] at hpj he
    exact h.distinct i j hi hj hpi hpj he
  · intro pd hpd i hi
    rw [hk]
    dsimp only
    obtain hpd | rfl := hcases pd hpd
    · rw [hframe _ (h.free_ne hf (mem_directories.2 (Or.inr hpd)))]
      exact h.agree pd hpd i hi
    · obtain ⟨h1, h2⟩ := hi
      rw [hfr, hnew i (by omega)]
      unfold newDirectory
      rw [if_neg (by omega), if_neg (by omega)]
      by_cases hp : present (s.machine.frames img.pageDirectory i) = true
      · rw [if_pos ⟨h1, h2, hp⟩]
        exact Or.inr rfl
      · rw [if_neg (fun h0 => hp h0.2.2)]
        exact Or.inl present_zero
  · have hT := (h.table _ (heapSlot_of_addr ha) hpa).1
    exact congrFun (hframe _ (hT.ne_free hf)) _

theorem Tables.step_create (h : Tables img s) {f : ℕ} (hf : IsFree img s.machine f)
    (halloc : s.machine.allocPage = (frameAddr f, s.machine.take f)) (hlt : f < 1024) :
    s.step img .createPageDirectory =
      some ⟨(s.machine.take f).setFrame f (directoryFrame img (s.machine.take f) f),
        s.created ++ [frameAddr f]⟩ := by
  have h0 : frameAddr f ≠ 0 := fun hz => hf.ne_zero ((frameAddr_eq_zero hf.lt).1 hz)
  have hw : Writable img (s.machine.take f) f :=
    ⟨isSpace_congr (h.space _ h.current) rfl rfl, h.low, hlt, (h.free_ne hf h.current).symm,
      hf.ne_table, hf.ne_directory⟩
  unfold Spaces.step
  dsimp only
  rw [vmmCreatePageDirectory_low halloc hf.ne_zero hw, Option.map_some, if_neg h0]

theorem Tables.create (h : Tables img s) (hlow : (pmmAllocPage s.machine.pages).1 < 0xC0000000)
    (hs : s.step img .createPageDirectory = some s') :
    KeptBy img [.createPageDirectory] s s' := by
  obtain ha | ⟨f, hf, ha⟩ := allocPage_cases h.pages
  · have hc : vmmCreatePageDirectory img s.machine =
        some (0, { s.machine with outOfMemory := true }) := by
      unfold vmmCreatePageDirectory
      rw [ha]
      rfl
    unfold Spaces.step at hs
    dsimp only at hs
    rw [hc] at hs
    cases hs
    refine h.kept_of_frames ?_ ?_ ?_ ?_ _
    · rfl
    · rfl
    · exact h.current
    · rfl
  · have haddr := toNat_frameAddr hf.lt
    have h0 : frameAddr f ≠ 0 := fun hz => hf.ne_zero ((frameAddr_eq_zero hf.lt).1 hz)
    have hfst : (pmmAllocPage s.machine.pages).1 = frameAddr f := by
      rw [← allocPage_fst, ha]
    by_cases hlt : f < 1024
    · rw [h.step_create hf ha hlt] at hs
      cases hs
      exact h.create_low hf
    · have hlt3 : (frameAddr f).toNat < 0xC0000000 := by
        rw [hfst] at hlow
        exact hlow
      have ht : (s.machine.take f).translate (frameAddr f) = none :=
        h.translate_high (by omega) hlt3
      unfold Spaces.step at hs
      dsimp only at hs
      rw [vmmCreatePageDirectory_unmapped ha h0 ht hlt3] at hs
      cases hs

/-- **One step.** -/
theorem Tables.step (h : Tables img s) {op : VmmOp} (hon : op.OnHeap) (hc : Careful img s op)
    (hs : s.step img op = some s') : KeptBy img [op] s s' := by
  cases op with
  | createPageDirectory => exact h.create hc hs
  | switchPageDirectory k => exact h.switch hs
  | mapPage virtAddr physAddr flags =>
      cases hp : present (s.machine.pde (pdIdx virtAddr)) with
      | true => exact h.map_present hon hp hs
      | false =>
          obtain hp' | ⟨hpk, hne⟩ := hc
          · rw [hp] at hp'
            cases hp'
          · obtain ha | ⟨f, hf, ha⟩ := allocPage_cases h.pages
            · rw [← allocPage_fst, ha] at hne
              exact absurd rfl hne
            · exact h.map_absent hon hp hpk hf ha hs
  | pageFault a => exact h.fault hon hs

/-- **Every run of careful steps.** -/
theorem Tables.run {ops : List VmmOp} (h : Tables img s) (hr : CarefulRun img s ops s') :
    KeptBy img ops s s' := by
  induction hr with
  | nil s => exact ⟨h, fun _ _ _ => rfl, fun _ _ _ _ => rfl⟩
  | cons hon hc hs _ ih =>
      have h1 := h.step hon hc hs
      have h2 := ih h1.tables
      refine ⟨h2.tables, h1.slots.trans h2.slots, fun addr ha hno => ?_⟩
      refine EntryKept.trans ha h1.slots (h1.entry addr ha fun op hop => ?_)
        (h2.entry addr ha fun op hop => hno op (List.mem_cons_of_mem _ hop))
      rw [List.mem_singleton] at hop
      subst hop
      exact hno op List.mem_cons_self

theorem tables_start (magic : UInt32) (mbi : MultibootInfo) (m : Machine) :
    Tables img (Spaces.start img magic mbi m) := by
  have hd := img.directory_lt
  have hkern : (Spaces.start img magic mbi m).machine.frames img.pageDirectory = fun i =>
      if i = 0 then tableEntry img.firstPageTable
      else if i = 1023 then selfEntry img.pageDirectory else 0 :=
    frames_initVmm_directory img _
  have hslot : ∀ i, 0 < i → i ≠ 1023 → present
      ((Spaces.start img magic mbi m).machine.frames img.pageDirectory i) = false := by
    intro i h0 h1
    rw [hkern]
    dsimp only
    rw [if_neg (by omega), if_neg h1]
    exact present_zero
  have hmem : ∀ pd ∈ (Spaces.start img magic mbi m).directories img,
      frameOf pd = img.pageDirectory := by
    intro pd hpd
    obtain rfl | hc := mem_directories.1 hpd
    · exact frameOf_kernel img
    · cases hc
  have hheap : ∀ i, IsHeapSlot i →
      present ((Spaces.start img magic mbi m).kernelSlot img i) = false := by
    intro i hi
    have h1 := hi.1
    have h2 := hi.2
    exact hslot i (by omega) (by omega)
  refine ⟨pagesInv_initPmm magic mbi, mem_directories.2 (Or.inl rfl), ?_, ?_, ?_, ?_, ?_, ?_, ?_⟩
  · exact lowMapped_initVmm img _
  · intro pd hpd
    rw [hmem pd hpd]
    exact isSpace_initVmm img _
  · intro pd hpd i h1 h2
    rw [hmem pd hpd]
    exact hslot i h1 (by omega)
  · intro pd hpd
    cases hpd
  · intro i hi hp
    rw [hheap i hi] at hp
    cases hp
  · intro i j hi _ hp
    rw [hheap i hi] at hp
    cases hp
  · intro pd hpd
    cases hpd

/-! ### Mapped pages -/

theorem translateIn_eq (s : Spaces) (pd addr : UInt32) : s.translateIn pd addr =
    if present (s.machine.frames (frameOf pd) (pdIdx addr)) then
      if present (s.machine.frames (frameOf (s.machine.frames (frameOf pd) (pdIdx addr)))
          (ptIdx addr)) then
        some (frameOf (s.machine.frames (frameOf (s.machine.frames (frameOf pd) (pdIdx addr)))
          (ptIdx addr)))
      else none
    else none := rfl

/-- A space that has the slot sees what the kernel's table says. -/
theorem Tables.translateIn_of_present (h : Tables img s) {pd : UInt32}
    (hpd : pd ∈ s.directories img) (ha : IsHeapAddr addr)
    (hp : present (s.machine.frames (frameOf pd) (pdIdx addr)) = true) : s.translateIn pd addr =
      if present (s.machine.frames (frameOf (s.kernelSlot img (pdIdx addr))) (ptIdx addr)) then
        some (frameOf (s.machine.frames (frameOf (s.kernelSlot img (pdIdx addr))) (ptIdx addr)))
      else none := by
  rw [translateIn_eq, if_pos hp, h.slot_eq hpd (heapSlot_of_addr ha) hp]

/-- A space that lacks the slot gets it by a fault. -/
theorem Tables.translateAfterFault_eq (h : Tables img s) {pd : UInt32}
    (hpd : pd ∈ s.directories img) (ha : IsHeapAddr addr)
    (hpk : present (s.kernelSlot img (pdIdx addr)) = true) :
    s.translateAfterFault img pd addr =
      if present (s.machine.frames (frameOf (s.kernelSlot img (pdIdx addr))) (ptIdx addr)) then
        some (frameOf (s.machine.frames (frameOf (s.kernelSlot img (pdIdx addr))) (ptIdx addr)))
      else none := by
  have hi := heapSlot_of_addr ha
  have hlt : pdIdx addr < 1023 := by
    have := hi.2
    omega
  have hspace : IsSpace img { s.machine with cr3 := pd } (frameOf pd) :=
    isSpace_congr (h.space pd hpd) rfl rfl
  have hne := h.table_ne hi hpk hpd
  have hpk' : present (s.machine.frames img.pageDirectory (pdIdx addr)) = true := hpk
  unfold Spaces.translateAfterFault
  rw [pageFaultHandler_eq (m := { s.machine with cr3 := pd }) hspace ha.1 hlt]
  dsimp only
  rw [if_pos hpk', Option.bind_some]
  generalize hm' : Machine.setWord _ (frameOf pd) (pdIdx addr)
    (s.machine.frames img.pageDirectory (pdIdx addr)) = m'
  have hframe : ∀ g i, m'.frames g i = if g = frameOf pd ∧ i = pdIdx addr then
      s.kernelSlot img (pdIdx addr) else s.machine.frames g i := by
    intro g i
    rw [← hm', Machine.frames_setWord]
    rfl
  have hpde : m'.pde (pdIdx addr) = s.kernelSlot img (pdIdx addr) := by
    have hcr3 : m'.cr3 = pd := by
      rw [← hm']
      rfl
    unfold Machine.pde
    rw [hcr3, hframe, if_pos ⟨rfl, rfl⟩]
  have hpte := hframe (frameOf (s.kernelSlot img (pdIdx addr))) (ptIdx addr)
  rw [if_neg (fun he => hne he.1.symm)] at hpte
  unfold Machine.translate
  dsimp only
  rw [hpde, if_pos hpk, hpte]

theorem pageKept_of_entry (h : Tables img s) (h' : Tables img s') (ha : IsHeapAddr addr)
    (hslots : SlotsKept img s s') (hentry : EntryKept img addr s s') :
    PageKept img s s' addr := by
  intro pd hpd f hf pd' hpd'
  have hi := heapSlot_of_addr ha
  have hp : present (s.machine.frames (frameOf pd) (pdIdx addr)) = true := by
    by_contra hno
    rw [translateIn_eq, if_neg hno] at hf
    cases hf
  have hpk : present (s.kernelSlot img (pdIdx addr)) = true := by
    rw [← h.slot_eq hpd hi hp]
    exact hp
  have hslot := hslots _ hi hpk
  rw [h.translateIn_of_present hpd ha hp, ← hentry hpk, ← hslot] at hf
  by_cases hp' : present (s'.machine.frames (frameOf pd') (pdIdx addr)) = true
  · left
    rw [h'.translateIn_of_present hpd' ha hp']
    exact hf
  · right
    refine ⟨?_, ?_⟩
    · rw [translateIn_eq, if_neg hp']
    · rw [h'.translateAfterFault_eq hpd' ha (by rw [hslot]; exact hpk)]
      exact hf

end invariant

/-- **The heap's page tables stay consistent** along every run of careful steps after boot:
between any two states of it the kernel's slots are kept, all directories agree with them, and a
mapped page stays mapped unless it is mapped anew. -/
theorem run_heap_slots (img : Image) (magic : UInt32) (mbi : MultibootInfo) (m : Machine)
    (ops₁ ops₂ : List VmmOp) (s₁ s₂ : Spaces)
    (h₁ : CarefulRun img (Spaces.start img magic mbi m) ops₁ s₁)
    (h₂ : CarefulRun img s₁ ops₂ s₂) :
    SlotsKept img s₁ s₂ ∧ Agree img s₁ ∧ Agree img s₂ ∧
      ∀ addr, IsHeapAddr addr → (∀ op ∈ ops₂, ¬ op.Remaps addr) → PageKept img s₁ s₂ addr := by
  have hk₁ := (tables_start magic mbi m).run h₁
  have hk₂ := hk₁.tables.run h₂
  exact ⟨hk₂.slots, hk₁.tables.agree, hk₂.tables.agree, fun addr ha hno =>
    pageKept_of_entry hk₁.tables hk₂.tables ha hk₂.slots (hk₂.entry addr ha hno)⟩

/-! ### Two spaces on a small machine -/

def blankMachine : Machine := ⟨fun _ _ => 0, ⟨fun _ => 0, 0, 0⟩, 0, false, false⟩

def smallStart : Spaces :=
  Spaces.start smallImage MULTIBOOT_BOOTLOADER_MAGIC smallMap blankMachine

theorem smallStart_tables : Tables smallImage smallStart := tables_start _ _ _

theorem pages_start (img : Image) (magic : UInt32) (mbi : MultibootInfo) (m : Machine) :
    (Spaces.start img magic mbi m).machine.pages = initPmm img.toKernelImage magic mbi := rfl

theorem smallStart_free : FreeFrom smallStart.machine 512 16384 := freeFrom_boot (pages_start _ _ _ _)

/-- After the creation of a directory in frame 512 and the first page of the heap, whose table is in
frame 513: the new directory lacks the table. -/
structure OneTable (s : Spaces) : Prop where
  run : CarefulRun smallImage smallStart
    [.createPageDirectory, .mapPage 0xC0000000 0x500000 3] s
  created : s.created = [frameAddr 512]
  kernel : s.kernelSlot smallImage 768 = tableEntry 513
  lacks : present (s.machine.frames 512 768) = false
  free : FreeFrom s.machine 514 16384

theorem Tables.isFree {img : Image} {s : Spaces} (h : Tables img s) {n top : ℕ}
    (hn : FreeFrom s.machine n top) (hlt : n < top) : IsFree img s.machine n :=
  h.pages.isFree ((hn.free n).2 ⟨le_refl n, hlt⟩)

/-- The state of the small machine after the creation. -/
structure OneSpace (s : Spaces) : Prop where
  run : CarefulRun smallImage smallStart [.createPageDirectory] s
  created : s.created = [frameAddr 512]
  cr3 : s.machine.cr3 = vmmGetKernelPageDirectory smallImage
  kernel : present (s.kernelSlot smallImage 768) = false
  lacks : present (s.machine.frames 512 768) = false
  free : FreeFrom s.machine 513 16384

theorem exists_oneSpace : ∃ s, OneSpace s := by
  have ht := smallStart_tables
  obtain ⟨halloc, hfree⟩ := smallStart_free.alloc (by omega) (by omega)
  have hf := ht.isFree smallStart_free (by omega)
  have hcareful : Careful smallImage smallStart .createPageDirectory := by
    unfold Careful
    dsimp only
    rw [← allocPage_fst, halloc]
    decide
  have hkernel : present (smallStart.kernelSlot smallImage 768) = false := by decide
  have hdir : smallImage.pageDirectory ≠ 512 := by decide
  refine ⟨_, .cons (by trivial) hcareful (ht.step_create hf halloc (by omega)) (.nil _), rfl, rfl,
    ?_, ?_, ?_⟩
  · unfold Spaces.kernelSlot
    dsimp only
    rw [Machine.frames_setFrame, if_neg hdir]
    exact hkernel
  · dsimp only
    rw [Machine.frames_setFrame, if_pos rfl]
    unfold directoryFrame newDirectory
    rw [if_pos (by omega), if_neg (by omega), if_neg (by omega), if_neg]
    · exact present_zero
    · rintro ⟨-, -, hp⟩
      unfold Spaces.kernelSlot at hkernel
      rw [Machine.frames_take, hkernel] at hp
      cases hp
  · exact hfree.congr (Machine.pages_setFrame _ _ _)

theorem exists_oneTable : ∃ s, OneTable s := by
  obtain ⟨s, hs⟩ := exists_oneSpace
  have ht := (smallStart_tables.run hs.run).tables
  obtain ⟨halloc, hfree⟩ := hs.free.alloc (by omega) (by omega)
  have hf := ht.isFree hs.free (by omega)
  have hpd : pdIdx 0xC0000000 = 768 := by decide
  have hcur : frameOf s.machine.cr3 = smallImage.pageDirectory := by
    rw [hs.cr3, frameOf_kernel]
  have habsent : present (s.machine.pde (pdIdx 0xC0000000)) = false := by
    unfold Machine.pde
    rw [hcur, hpd]
    exact hs.kernel
  have hcareful : Careful smallImage s (.mapPage 0xC0000000 0x500000 3) := by
    right
    rw [hpd, ← allocPage_fst, halloc]
    exact ⟨hs.kernel, show frameAddr 513 ≠ 0 by decide⟩
  have hstep := ht.step_newTable habsent hf halloc 0x500000 3
  have hheap : VmmOp.OnHeap (.mapPage 0xC0000000 0x500000 3) := by
    constructor <;> decide
  refine ⟨_, hs.run.append (.cons hheap hcareful hstep (.nil _)), hs.created, ?_, ?_, ?_⟩
  · unfold Spaces.kernelSlot
    dsimp only
    rw [frames_newTable (by decide) _ _ (by decide), if_pos ⟨hpd.symm, Or.inr rfl⟩]
  · dsimp only
    rw [frames_newTable (by decide) _ _ (by decide), if_neg]
    · exact hs.lacks
    · rw [hcur]
      rintro ⟨-, h | h⟩
      · exact absurd h (by decide)
      · exact absurd h (by decide)
  · refine hfree.congr ?_
    rw [Machine.pages_setWord, pages_withTable]

/-- The directory of the small machine is loaded. -/
theorem OneTable.switch {s : Spaces} (h : OneTable s) :
    s.step smallImage (.switchPageDirectory 1) =
      some ⟨{ s.machine with cr3 := frameAddr 512 }, s.created⟩ := by
  have hdirs : (s.directories smallImage)[1]? = some (frameAddr 512) := by
    unfold Spaces.directories
    rw [h.created]
    rfl
  have h0 : frameAddr 512 ≠ 0 := by decide
  unfold Spaces.step
  dsimp only
  rw [hdirs]
  dsimp only
  unfold vmmSwitchPageDirectory
  rw [if_neg h0]
  rfl

/-- The first page stays mapped when the new directory is loaded. -/
theorem run_heap_slots_oneTable : ∃ s₁ s₂,
    s₁.kernelSlot smallImage 768 = tableEntry 513 ∧ s₂.machine.cr3 = frameAddr 512 ∧
      SlotsKept smallImage s₁ s₂ ∧ PageKept smallImage s₁ s₂ 0xC0000000 := by
  obtain ⟨s, hs⟩ := exists_oneTable
  obtain ⟨h1, -, -, h4⟩ := run_heap_slots smallImage MULTIBOOT_BOOTLOADER_MAGIC smallMap
    blankMachine _ [.switchPageDirectory 1] s _ hs.run (.cons trivial trivial hs.switch (.nil _))
  refine ⟨s, _, hs.kernel, rfl, h1, h4 0xC0000000 (by constructor <;> decide) fun op hop => ?_⟩
  rw [List.mem_singleton] at hop
  rw [hop]
  exact id

/-- Under the new directory, which lacks the table, the second page of the heap replaces the
kernel's table by another one. -/
theorem second_space_replaces_table : ∃ s₁ s₂,
    smallStart.run smallImage [.createPageDirectory, .mapPage 0xC0000000 0x500000 3] = some s₁ ∧
    s₁.run smallImage [.switchPageDirectory 1, .mapPage 0xC0001000 0x501000 3] = some s₂ ∧
    ¬ SlotsKept smallImage s₁ s₂ := by
  obtain ⟨s, hs⟩ := exists_oneTable
  have ht := (smallStart_tables.run hs.run).tables
  have ht' := (ht.step (show VmmOp.OnHeap (.switchPageDirectory 1) from trivial) trivial
    hs.switch).tables
  obtain ⟨halloc, -⟩ := (hs.free.congr (show ({ s.machine with cr3 := frameAddr 512 } :
    Machine).pages = s.machine.pages from rfl)).alloc (by omega) (by omega)
  have hf := ht'.isFree (hs.free.congr rfl) (by omega)
  have hpd : pdIdx 0xC0001000 = 768 := by decide
  have hfr : frameOf (frameAddr 512) = 512 := by decide
  have habsent : present (({ s.machine with cr3 := frameAddr 512 } : Machine).pde
      (pdIdx 0xC0001000)) = false := by
    unfold Machine.pde
    rw [hfr, hpd]
    exact hs.lacks
  have hstep := ht'.step_newTable habsent hf halloc 0x501000 3
  have hrun : ∀ s', Spaces.step smallImage ⟨{ s.machine with cr3 := frameAddr 512 }, s.created⟩
      (.mapPage 0xC0001000 0x501000 3) = some s' →
      s.run smallImage [.switchPageDirectory 1, .mapPage 0xC0001000 0x501000 3] = some s' := by
    intro s' hs'
    unfold Spaces.run
    rw [List.foldlM_cons, hs.switch, Option.bind_eq_bind, Option.bind_some, List.foldlM_cons, hs']
    rfl
  refine ⟨s, _, hs.run.run_eq, hrun _ hstep, fun hkept => ?_⟩
  have he := hkept 768 (by constructor <;> omega) (by rw [hs.kernel]; decide)
  rw [hs.kernel] at he
  unfold Spaces.kernelSlot at he
  dsimp only at he
  rw [frames_newTable (by decide) _ _ (by decide), if_pos ⟨hpd.symm, Or.inr rfl⟩] at he
  exact absurd he (by decide)

end NosmeriOs.Vmm
