import NosmeriOs.TaskLeftover

/-! # Where a new page directory can be

`vmm_create_page_directory` reads `page_directory` and writes its new frame at their physical
addresses, under the directory that is loaded.

* `createIdentity`: the function with every access checked to be at an address that is mapped to
  itself.
* `BuildsDirectory`: no check fails, and the new frame holds what the function is to put there.
* `Layout.buildsDirectory` and `Layout.translate_ne`: so it is below 4 MB, while the address of a
  free frame beyond leads elsewhere or nowhere.
* `reached_buildsDirectory_iff`: both, in the states of every run. -/

namespace NosmeriOs.Vmm

open Pmm Ledgers

/-! ### Checked accesses -/

def loadIdentity (m : Machine) (addr : UInt32) (i : ℕ) : Option UInt32 :=
  if m.translate addr = some (frameOf addr) then some (m.frames (frameOf addr) i) else none

def storeIdentity (m : Machine) (addr : UInt32) (i : ℕ) (w : UInt32) : Option Machine :=
  if m.translate addr = some (frameOf addr) then some (m.setWord (frameOf addr) i w) else none

def createIdentity (img : Image) (m : Machine) : Option (UInt32 × Machine) :=
  createPageDirectoryWith (fun m i => loadIdentity m (frameAddr img.pageDirectory) i)
    storeIdentity m

/-- Frame `f` is a new directory, and the others are as before. -/
structure NewDirectory (img : Image) (m m' : Machine) (f : ℕ) : Prop where
  kernel : m'.frames f 0 = m.frames img.pageDirectory 0
  heap : ∀ i, 768 ≤ i → i < 896 → present (m.frames img.pageDirectory i) = true →
    m'.frames f i = m.frames img.pageDirectory i
  self : m'.frames f 1023 = selfEntry f
  absent : ∀ i < 1024, i ≠ 0 → i ≠ 1023 →
    ¬ (768 ≤ i ∧ i < 896 ∧ present (m.frames img.pageDirectory i) = true) →
    present (m'.frames f i) = false
  others : ∀ g, g ≠ f → m'.frames g = m.frames g

/-- `vmm_create_page_directory` returns, after accesses at identity-mapped addresses only, and
the frame that it took is a directory. -/
def BuildsDirectory (img : Image) (m : Machine) : Prop :=
  ∃ m', vmmCreatePageDirectory img m = some (m.allocPage.1, m') ∧
    createIdentity img m = some (m.allocPage.1, m') ∧
    NewDirectory img m m' (frameOf m.allocPage.1)

variable {img : Image} {m : Machine} {ρ : Ledger ℕ Use} {f : ℕ}

theorem newDirectory_setFrame (img : Image) (m : Machine) (f : ℕ) :
    NewDirectory img m ((m.take f).setFrame f (directoryFrame img (m.take f) f)) f := by
  have hself : ∀ i < 1024, ((m.take f).setFrame f (directoryFrame img (m.take f) f)).frames f i =
      newDirectory img m f i := by
    intro i hi
    rw [Machine.frames_setFrame, if_pos rfl]
    exact if_pos hi
  unfold newDirectory at hself
  refine ⟨?_, fun i h1 h2 hp => ?_, ?_, fun i hi h0 h1023 hn => ?_, fun g hg => ?_⟩
  · simp [hself]
  · rw [hself i (by omega), if_neg (by omega), if_neg (by omega), if_pos ⟨h1, h2, hp⟩]
  · simp [hself]
  · rw [hself i hi, if_neg h0, if_neg h1023, if_neg hn]
    exact present_zero
  · rw [Machine.frames_setFrame, if_neg hg]
    rfl

namespace Layout

/-- Below 4 MB. -/
theorem buildsDirectory (h : Layout img m ρ) (hd : IsDirectory img ρ (frameOf m.cr3))
    (hf : IsFree img m f) (ha : m.allocPage = (frameAddr f, m.take f)) (hlt : f < 1024) :
    BuildsDirectory img m := by
  have hw := h.writable hd hf hlt
  have hpd := img.directory_lt
  have hkernel := toNat_frameAddr (f := img.pageDirectory) (by omega)
  have hframe := toNat_frameAddr (f := f) (by omega)
  refine ⟨(m.take f).setFrame f (directoryFrame img (m.take f) f), ?_, ?_, ?_⟩
  · rw [ha]
    exact vmmCreatePageDirectory_low ha hf.ne_zero hw
  · rw [ha]
    apply createPageDirectoryWith_low ha hf.ne_zero hlt
    · intro w i
      have hw' := hw.setFrame w
      unfold loadIdentity
      rw [if_pos (translate_low hw'.space hw'.low (by omega)), frameOf_frameAddr (by omega),
        Machine.frames_setFrame, if_neg (Ne.symm hw.ne_directory)]
    · intro w i v
      have hw' := hw.setFrame w
      unfold storeIdentity
      rw [if_pos (translate_low hw'.space hw'.low (by omega)), frameOf_frameAddr (by omega),
        Machine.setWord_eq, Machine.frames_setFrame, if_pos rfl, Machine.setFrame_setFrame]
  · rw [ha, frameOf_frameAddr hf.lt]
    exact newDirectory_setFrame img m f

/-- The address of a free frame beyond 4 MB does not lead to it. -/
theorem translate_ne (h : Layout img m ρ) (hd : IsDirectory img ρ (frameOf m.cr3))
    (hf : IsFree img m f) (hge : 1024 ≤ f) : m.translate (frameAddr f) ≠ some f := by
  intro ht
  have hunused := h.sound.eq_none hf.free
  have hlt := hf.lt
  have haddr := toNat_frameAddr hlt
  have h0 : 0 < pdIdx (frameAddr f) := by
    unfold pdIdx
    omega
  by_cases hi : pdIdx (frameAddr f) < 1023
  · rw [h.translate hd h0 hi ht] at hunused
    cases hunused
  · -- through the recursive slot the directory and its tables can be reached
    have hlast : pdIdx (frameAddr f) = 1023 := by
      unfold pdIdx at hi ⊢
      omega
    have hj := ptIdx_lt (frameAddr f)
    rw [translate_recursive (h.space _ hd).selfMapped hlast] at ht
    split_ifs at ht with hp
    have he := Option.some.inj ht
    unfold Machine.pde at hp he
    obtain hz | hz | hz : ptIdx (frameAddr f) = 0 ∨ ptIdx (frameAddr f) = 1023 ∨
        0 < ptIdx (frameAddr f) ∧ ptIdx (frameAddr f) < 1023 := by omega
    · have htable := img.table_lt
      rw [hz, (h.space _ hd).low, frameOf_tableEntry (by omega)] at he
      omega
    · rw [hz, (h.space _ hd).self, frameOf_selfEntry (h.space _ hd).lt] at he
      exact h.ne_free hf hd he
    · have htable := h.table _ hd _ hz.1 hz.2 hp
      rw [he, hunused] at htable
      cases htable

theorem not_buildsDirectory (h : Layout img m ρ) (hd : IsDirectory img ρ (frameOf m.cr3))
    (hf : IsFree img m f) (ha : m.allocPage = (frameAddr f, m.take f)) (hge : 1024 ≤ f) :
    ¬ BuildsDirectory img m := by
  rintro ⟨m', -, hc, -⟩
  have hne : ¬ frameAddr f = 0 := fun hz => hf.ne_zero ((frameAddr_eq_zero hf.lt).1 hz)
  have ht : ¬ m.translate (frameAddr f) = some (frameOf (frameAddr f)) := by
    rw [frameOf_frameAddr hf.lt]
    exact h.translate_ne hd hf hge
  have hnone : createIdentity img m = none := createPageDirectoryWith_none ha hne (if_neg ht)
  rw [hnone] at hc
  cases hc

end Layout

end NosmeriOs.Vmm

namespace NosmeriOs.Tasks

open Vmm

/-- **A new directory is built exactly if its frame is below 4 MB**, in every state of a run in
which no page was missing and the directories so far were below 4 MB. -/
theorem reached_buildsDirectory_iff {img : Image} {s : System} (hs : Reached img s)
    (hclean : Clean s.kernel.machine) (hp : s.kernel.machine.allocPage.1 ≠ 0) :
    BuildsDirectory img s.kernel.machine ↔ s.kernel.machine.allocPage.1 < 0x400000 := by
  obtain ⟨⟨⟨l, hc⟩, -⟩, hctx, hframed⟩ := hs.settled
  obtain ⟨ρ, hframes⟩ := hframed hclean
  have h := hframes.layout
  have hd := Kernel.Framed.current_isDirectory hctx hc hframes
  obtain ha | ⟨f, hf, ha⟩ := allocPage_cases h.pages
  · rw [ha] at hp
    exact absurd rfl hp
  have hlow : frameAddr f < 0x400000 ↔ f < 1024 := by
    have hc : (0x400000 : UInt32).toNat = 0x400000 := rfl
    rw [UInt32.lt_iff_toNat_lt, toNat_frameAddr hf.lt, hc]
    omega
  rw [ha, hlow]
  constructor
  · intro hb
    by_contra hge
    exact h.not_buildsDirectory hd hf ha (Nat.le_of_not_lt hge) hb
  · exact h.buildsDirectory hd hf ha

/-- On a small machine the first directory is in frame 514. -/
theorem reached_buildsDirectory_small : ∃ s, Reached smallImage s ∧
    BuildsDirectory smallImage s.kernel.machine := by
  obtain ⟨k, hboot, hcalm⟩ := blankKernel_boot
  have hs : Reached smallImage (System.start k) := .boot hboot
  have ha := (hcalm.machine.take (by omega)).1
  have hclean : Clean (System.start k).kernel.machine :=
    ⟨hcalm.machine.outOfMemory, hcalm.machine.highDirectory⟩
  have hp : (System.start k).kernel.machine.allocPage.1 = frameAddr 514 := congrArg Prod.fst ha
  refine ⟨_, hs, (reached_buildsDirectory_iff hs hclean ?_).2 ?_⟩
  · rw [hp]
    decide
  · rw [hp]
    decide

/-- The memory below 4 MB is the kernel's, and there are 60 MB from 4 MB on. -/
def highMap : Pmm.MultibootInfo := regionMap 0x400000 0x3C00000

/-- There the first directory is not built. -/
theorem high_directory : ∃ k, blankKernel.boot smallImage Pmm.MULTIBOOT_BOOTLOADER_MAGIC highMap =
    some k ∧ k.machine.allocPage.1 ≠ 0 ∧ ¬ BuildsDirectory smallImage k.machine := by
  have hopen : ∀ m : Machine, m.pages = Pmm.initPmm smallImage.toKernelImage
      Pmm.MULTIBOOT_BOOTLOADER_MAGIC highMap → m.outOfMemory = false → m.highDirectory = false →
      Open smallImage (initVmm smallImage m) 1024 16384 := by
    intro m hpages ho hh
    refine open_of_freeFrom (by decide) (freeFrom_regionMap hpages (by decide) fun i => ?_)
      (by omega) ho hh
    have hw : Pmm.freeWindow 0x400000 0x3C00000 i ↔ 1024 ≤ i ∧ i < 16384 := Iff.rfl
    rw [hw]
    omega
  obtain ⟨k, hboot, hcalm⟩ := @Kernel.boot_of_open smallImage blankKernel 1024 16384 _ _ hopen
    (by omega)
  obtain ⟨⟨⟨l, hc⟩, -⟩, hctx, hframed⟩ := (Reached.boot hboot).settled
  obtain ⟨ρ, hframes⟩ := hframed ⟨hcalm.machine.outOfMemory, hcalm.machine.highDirectory⟩
  have ha := (hcalm.machine.take (by omega)).1
  refine ⟨k, hboot, ?_, ?_⟩
  · rw [ha]
    show frameAddr (1024 + 2) ≠ 0
    decide
  · exact hframes.layout.not_buildsDirectory (Kernel.Framed.current_isDirectory hctx hc hframes)
      (hcalm.machine.isFree (by omega)) ha (by omega)

end NosmeriOs.Tasks
