import NosmeriOs.FrameUse

/-! # One translation is changed

`vmm_map_page` and `vmm_unmap_page` edit the tables through the recursive slot, under any directory
whose tables are distinct frames.

* `walk`: what the processor finds for an address, the frame and the flags of the entry.
* `PageTree m`: the directory that is loaded names itself in slot 1023 and distinct tables in the
  others.  `PageTree.setWord` is about one entry, `PageTree.withTable` about a new table.
* `vmmMapPage_walk`: both functions. -/

namespace NosmeriOs.Vmm

open Pmm

/-! ### Walks -/

/-- What the entry of a table says. -/
def leaf (e : UInt32) : Option (ℕ × UInt32) :=
  if present e then some (frameOf e, e &&& 0xFFF) else none

/-- The walk of the processor through the directory and a table. -/
def Machine.walk (m : Machine) (addr : UInt32) : Option (ℕ × UInt32) :=
  if present (m.pde (pdIdx addr)) then leaf (m.frames (frameOf (m.pde (pdIdx addr))) (ptIdx addr))
  else none

theorem Machine.translate_eq_walk (m : Machine) (addr : UInt32) :
    m.translate addr = (m.walk addr).map Prod.fst := by
  unfold Machine.translate Machine.walk leaf
  dsimp only
  split_ifs <;> rfl

theorem leaf_zero : leaf 0 = none := by decide

/-- The flags of an entry. -/
theorem and_flags {e flags : UInt32} {f : ℕ} (he : e.toNat = f * 4096 + flags.toNat)
    (hflags : flags.toNat < 4096) : e &&& 0xFFF = flags := by
  have hc : (0xFFF : UInt32).toNat = 2 ^ 12 - 1 := rfl
  apply UInt32.toNat.inj
  rw [UInt32.toNat_and, he, hc, Nat.and_two_pow_sub_one_eq_mod]
  omega

theorem leaf_pageEntry {physAddr flags : UInt32} (hphys : physAddr.toNat % 4096 = 0)
    (hflags : flags.toNat < 4096) (hp : present flags = true) :
    leaf (pageEntry physAddr flags) = some (frameOf physAddr, flags) := by
  have hlt : frameOf physAddr < 2 ^ 20 := by
    have := physAddr.toNat_lt
    unfold frameOf
    omega
  have hphys' : frameAddr (frameOf physAddr) = physAddr := by
    apply UInt32.toNat.inj
    rw [toNat_frameAddr hlt]
    unfold frameOf
    omega
  have hframe := frameOf_pageEntry hlt hflags
  have hnat := toNat_pageEntry hlt hflags
  rw [hphys'] at hframe hnat
  have hpresent : present (pageEntry physAddr flags) = true := by
    rw [present_iff] at hp ⊢
    omega
  unfold leaf
  rw [if_pos hpresent, hframe, and_flags hnat hflags]

/-- Two addresses in the same page. -/
theorem samePage_iff {a b : UInt32} :
    a.toNat / 4096 = b.toNat / 4096 ↔ pdIdx a = pdIdx b ∧ ptIdx a = ptIdx b := by
  unfold pdIdx ptIdx
  omega

/-! ### Trees of tables -/

structure PageTree (m : Machine) : Prop where
  self : SelfMapped m
  ne_directory : ∀ i < 1023, present (m.pde i) = true → frameOf (m.pde i) ≠ frameOf m.cr3
  distinct : ∀ i < 1023, ∀ j < 1023, present (m.pde i) = true → present (m.pde j) = true →
    frameOf (m.pde i) = frameOf (m.pde j) → i = j

/-- All walks below the recursive slot but that of one page are the same. -/
def SameWalks (m m' : Machine) (virtAddr : UInt32) : Prop :=
  ∀ addr, pdIdx addr < 1023 → addr.toNat / 4096 ≠ virtAddr.toNat / 4096 →
    m'.walk addr = m.walk addr

variable {img : Image} {m m₁ m' : Machine} {virtAddr : UInt32} {f : ℕ}

theorem PageTree.congr (h : PageTree m) (hc : m'.cr3 = m.cr3) (hpde : ∀ i, m'.pde i = m.pde i) :
    PageTree m' := by
  refine ⟨h.self.congr hc ?_, ?_, ?_⟩
  · have h1023 := hpde 1023
    unfold Machine.pde at h1023
    rw [hc] at h1023
    exact h1023
  · simp only [hpde, hc]
    exact h.ne_directory
  · simp only [hpde]
    exact h.distinct

/-- An entry of a table is written. -/
theorem PageTree.setWord (h : PageTree m) (hi : pdIdx virtAddr < 1023)
    (hp : present (m.pde (pdIdx virtAddr)) = true) (e : UInt32)
    (hm : m' = m.setWord (frameOf (m.pde (pdIdx virtAddr))) (ptIdx virtAddr) e) :
    PageTree m' ∧ m'.walk virtAddr = leaf e ∧ SameWalks m m' virtAddr := by
  have hpde : ∀ i, m'.pde i = m.pde i := by
    intro i
    unfold Machine.pde
    rw [hm, Machine.cr3_setWord, Machine.frames_setWord, if_neg]
    exact fun he => h.ne_directory _ hi hp he.1.symm
  refine ⟨h.congr (by rw [hm, Machine.cr3_setWord]) hpde, ?_, fun addr ha hne => ?_⟩
  · unfold Machine.walk
    rw [hpde, if_pos hp, hm, Machine.frames_setWord, if_pos ⟨rfl, rfl⟩]
  · unfold Machine.walk
    rw [hpde]
    by_cases hpa : present (m.pde (pdIdx addr)) = true
    · rw [if_pos hpa, if_pos hpa, hm, Machine.frames_setWord, if_neg]
      rintro ⟨he, hpt⟩
      exact hne (samePage_iff.2 ⟨h.distinct _ ha _ hi hpa hp he, hpt⟩)
    · rw [if_neg hpa, if_neg hpa]

/-- A table is entered and cleared. -/
theorem PageTree.withTable (h : PageTree m) (hi : pdIdx virtAddr < 1023)
    (hp : present (m.pde (pdIdx virtAddr)) = false) (hframes : m₁.frames = m.frames)
    (hc : m₁.cr3 = m.cr3) (hf : f < 2 ^ 20) (hfd : f ≠ frameOf m.cr3)
    (hft : ∀ i < 1023, present (m.pde i) = true → frameOf (m.pde i) ≠ f)
    (hk : ∀ i < 1023, present (m.pde i) = true → frameOf (m.pde i) ≠ img.pageDirectory) :
    PageTree (withTable img m₁ virtAddr f) ∧
      (∀ i, (withTable img m₁ virtAddr f).pde i =
        if i = pdIdx virtAddr then tableEntry f else m.pde i) ∧
      SameWalks m (withTable img m₁ virtAddr f) virtAddr := by
  have hpde : ∀ i, (Vmm.withTable img m₁ virtAddr f).pde i =
      if i = pdIdx virtAddr then tableEntry f else m.pde i := by
    intro i
    unfold Machine.pde
    rw [cr3_withTable, hc, frames_withTable, if_neg (Ne.symm hfd), hc, hframes]
    simp
  -- a table keeps its words
  have htable : ∀ i < 1023, present (m.pde i) = true → ∀ j,
      (Vmm.withTable img m₁ virtAddr f).frames (frameOf (m.pde i)) j =
        m.frames (frameOf (m.pde i)) j := by
    intro i hi' hpi j
    rw [frames_withTable, if_neg (hft i hi' hpi), hc, hframes, if_neg]
    rintro ⟨-, he | ⟨-, he⟩⟩
    · exact h.ne_directory i hi' hpi he
    · exact hk i hi' hpi he
  have hne : ∀ {i}, present (m.pde i) = true → i ≠ pdIdx virtAddr := by
    rintro i hpi rfl
    rw [hp] at hpi
    cases hpi
  refine ⟨⟨h.self.congr ?_ ?_, fun i hi' hpi => ?_, fun i hi' j hj hpi hpj he => ?_⟩, hpde,
    fun addr ha hpage => ?_⟩
  · rw [cr3_withTable, hc]
  · have h1023 := hpde 1023
    rw [if_neg (by omega)] at h1023
    unfold Machine.pde at h1023
    rw [cr3_withTable, hc] at h1023
    exact h1023
  · rw [cr3_withTable, hc]
    rw [hpde] at hpi ⊢
    split_ifs at hpi ⊢ with he
    · rw [frameOf_tableEntry hf]
      exact hfd
    · exact h.ne_directory i hi' hpi
  · rw [hpde] at hpi hpj
    rw [hpde, hpde] at he
    split_ifs at hpi hpj he with h1 h2 h2
    · rw [h1, h2]
    · rw [frameOf_tableEntry hf] at he
      exact absurd he.symm (hft j hj hpj)
    · rw [frameOf_tableEntry hf] at he
      exact absurd he (hft i hi' hpi)
    · exact h.distinct i hi' j hj hpi hpj he
  · unfold Machine.walk
    rw [hpde]
    by_cases hslot : pdIdx addr = pdIdx virtAddr
    · rw [if_pos hslot, if_pos (present_tableEntry hf), frameOf_tableEntry hf, frames_withTable,
        if_pos rfl, hslot, hp]
      exact leaf_zero
    · rw [if_neg hslot]
      by_cases hpa : present (m.pde (pdIdx addr)) = true
      · rw [if_pos hpa, if_pos hpa, htable _ ha hpa]
      · rw [if_neg hpa, if_neg hpa]

/-! ### Both functions -/

/-- The states in which the tables may be edited.  The bitmap has a bit for each page, and neither
the tables nor the directory are free; the kernel's directory is at its own address. -/
structure Editable (img : Image) (m : Machine) : Prop extends PageTree m where
  total : m.pages.totalMemoryPages.toNat ≤ 2 ^ 20
  directory : ¬ Free m.pages (frameOf m.cr3)
  used : ∀ i < 1023, present (m.pde i) = true → ¬ Free m.pages (frameOf (m.pde i))
  kernel : m.translate (frameAddr img.pageDirectory) = some img.pageDirectory
  ne_kernel : ∀ i < 1023, present (m.pde i) = true → frameOf (m.pde i) ≠ img.pageDirectory

/-- The frames that have been taken from the bitmap. -/
def takenFrames (m m' : Machine) : Set ℕ := {g | Free m.pages g ∧ ¬ Free m'.pages g}

/-- The walk of the address leads to `r` now; the others and the recursive slot are the same. -/
structure ChangesOne (m m' : Machine) (virtAddr : UInt32) (r : Option (ℕ × UInt32)) : Prop where
  walk : m'.walk virtAddr = r
  others : SameWalks m m' virtAddr
  self : SelfMapped m'
  cr3 : m'.cr3 = m.cr3

/-- `pmm_alloc_page` with a result that is not null. -/
theorem allocPage_of_ne_zero (ht : m.pages.totalMemoryPages.toNat ≤ 2 ^ 20)
    (h0 : m.allocPage.1 ≠ 0) :
    ∃ f, f < 2 ^ 20 ∧ Free m.pages f ∧ m.allocPage = (frameAddr f, m.take f) := by
  obtain ⟨-, he⟩ | ⟨f, hfind, hf, haddr, -⟩ := pmmAllocPage_cases ht
  · rw [allocPage_fst, he] at h0
    exact absurd rfl h0
  · have hne : f ≠ 0 := by
      rintro rfl
      apply h0
      rw [allocPage_fst]
      exact UInt32.toNat.inj haddr
    exact ⟨f, lt_of_lt_of_le hf.1 ht, hf, allocPage_of_found ht hfind hne⟩

theorem ChangesOne.of_setWord {m₀ : Machine} {e : UInt32} (h : PageTree m)
    (hi : pdIdx virtAddr < 1023) (hp : present (m.pde (pdIdx virtAddr)) = true)
    (hm : m' = m.setWord (frameOf (m.pde (pdIdx virtAddr))) (ptIdx virtAddr) e)
    (h₀ : SameWalks m₀ m virtAddr) (hc : m.cr3 = m₀.cr3) :
    PageTree m' ∧ present (m'.pde (pdIdx virtAddr)) = true ∧
      ChangesOne m₀ m' virtAddr (leaf e) := by
  obtain ⟨htree, hwalk, hothers⟩ := h.setWord hi hp e hm
  refine ⟨htree, ?_, hwalk, fun addr ha hne => (hothers addr ha hne).trans (h₀ addr ha hne),
    htree.self, ?_⟩
  · unfold Machine.pde
    rw [hm, Machine.cr3_setWord, Machine.frames_setWord, if_neg]
    · exact hp
    · exact fun he => h.ne_directory _ hi hp he.1.symm
  · rw [hm, Machine.cr3_setWord, hc]

/-- The entry of an address is cleared. -/
theorem vmmUnmapPage_walk (h : PageTree m) (hi : pdIdx virtAddr < 1023)
    (hp : present (m.pde (pdIdx virtAddr)) = true) :
    ∃ m', vmmUnmapPage m virtAddr = some m' ∧ ChangesOne m m' virtAddr none ∧
      m'.pages = m.pages := by
  have hp' : present (m.frames (frameOf m.cr3) (pdIdx virtAddr)) = true := hp
  have hunmap : vmmUnmapPage m virtAddr =
      some (m.setWord (frameOf (m.pde (pdIdx virtAddr))) (ptIdx virtAddr) 0) := by
    unfold vmmUnmapPage
    rw [translate_self h.self]
    dsimp only [Option.bind_eq_bind, Option.bind_some]
    rw [if_pos hp', pageTable_eq h.self, if_pos hp]
    rfl
  obtain ⟨-, -, hchange⟩ := ChangesOne.of_setWord h hi hp rfl (fun _ _ _ => rfl) rfl
  rw [leaf_zero] at hchange
  exact ⟨_, hunmap, hchange, rfl⟩

/-- A frame is taken for a table if the address has none. -/
theorem Editable.mapPage (h : Editable img m) (hi : pdIdx virtAddr < 1023)
    (physAddr flags : UInt32)
    (halloc : present (m.pde (pdIdx virtAddr)) = false → m.allocPage.1 ≠ 0) :
    ∃ m', vmmMapPage img m virtAddr physAddr flags = some m' ∧ PageTree m' ∧
      present (m'.pde (pdIdx virtAddr)) = true ∧
      ChangesOne m m' virtAddr (leaf (pageEntry physAddr flags)) ∧
      (∀ g, Free m'.pages g → Free m.pages g) ∧
      (present (m.pde (pdIdx virtAddr)) = true → takenFrames m m' = ∅) ∧
      (present (m.pde (pdIdx virtAddr)) = false → ∃ g, takenFrames m m' = {g}) := by
  cases hp : present (m.pde (pdIdx virtAddr)) with
  | true =>
      obtain ⟨htree, hpresent, hchange⟩ :=
        ChangesOne.of_setWord h.toPageTree hi hp rfl (fun _ _ _ => rfl) rfl
      refine ⟨_, vmmMapPage_of_present h.self hp physAddr flags, htree, hpresent, hchange,
        fun g hg => hg, fun _ => ?_, ?_⟩
      · exact Set.eq_empty_of_forall_notMem fun g hg => hg.2 hg.1
      · intro e
        cases e
  | false =>
      obtain ⟨f, hf, hfree, ha⟩ := allocPage_of_ne_zero h.total (halloc hp)
      have hfd : f ≠ frameOf m.cr3 := fun e => h.directory (e ▸ hfree)
      have hft : ∀ i < 1023, present (m.pde i) = true → frameOf (m.pde i) ≠ f :=
        fun i hi' hpi e => h.used i hi' hpi (e ▸ hfree)
      obtain ⟨htree, hpde, hsame⟩ := h.toPageTree.withTable hi hp (Machine.frames_take m f)
        (Machine.cr3_take m f) hf hfd hft h.ne_kernel
      have hslot := hpde (pdIdx virtAddr)
      rw [if_pos rfl] at hslot
      have htable : frameOf ((withTable img (m.take f) virtAddr f).pde (pdIdx virtAddr)) = f := by
        rw [hslot, frameOf_tableEntry hf]
      obtain ⟨htree', hpresent, hchange⟩ := @ChangesOne.of_setWord _ _ _ m
        (pageEntry physAddr flags) htree hi (by rw [hslot, present_tableEntry hf]) rfl hsame
        (cr3_withTable ..)
      have hmap : vmmMapPage img m virtAddr physAddr flags = _ :=
        vmmMapPage_of_absent h.self hp ha rfl rfl hf hfd physAddr flags
      rw [htable] at htree' hpresent hchange
      have hpages : ∀ g, Free ((withTable img (m.take f) virtAddr f).setWord f (ptIdx virtAddr)
          (pageEntry physAddr flags)).pages g ↔ Free m.pages g ∧ g ≠ f := by
        intro g
        rw [Machine.pages_setWord, pages_withTable, Machine.free_take hf]
      refine ⟨_, hmap, htree', hpresent, hchange, fun g hg => ((hpages g).1 hg).1, ?_, ?_⟩
      · intro e
        cases e
      intro _
      refine ⟨f, ?_⟩
      ext g
      unfold takenFrames
      rw [Set.mem_ofPred_eq, hpages, Set.mem_singleton_iff]
      constructor
      · rintro ⟨hg, hn⟩
        by_contra hne
        exact hn ⟨hg, hne⟩
      · rintro rfl
        exact ⟨hfree, fun hg => hg.2 rfl⟩

/-- **`vmm_map_page` changes one translation**, and `vmm_unmap_page` takes it back. -/
theorem vmmMapPage_walk (h : Editable img m) (hi : pdIdx virtAddr < 1023)
    {physAddr flags : UInt32} (hphys : physAddr.toNat % 4096 = 0) (hflags : flags.toNat < 4096)
    (hp : present flags = true)
    (halloc : present (m.pde (pdIdx virtAddr)) = false → m.allocPage.1 ≠ 0) :
    ∃ m', vmmMapPage img m virtAddr physAddr flags = some m' ∧
      ChangesOne m m' virtAddr (some (frameOf physAddr, flags)) ∧
      (∀ g, Free m'.pages g → Free m.pages g) ∧
      (present (m.pde (pdIdx virtAddr)) = true → takenFrames m m' = ∅) ∧
      (present (m.pde (pdIdx virtAddr)) = false → ∃ g, takenFrames m m' = {g}) ∧
      ∃ m'', vmmUnmapPage m' virtAddr = some m'' ∧ ChangesOne m' m'' virtAddr none ∧
        m''.pages = m'.pages := by
  obtain ⟨m', hmap, htree, hpresent, hchange, hfree, hnone, hone⟩ :=
    h.mapPage hi physAddr flags halloc
  rw [leaf_pageEntry hphys hflags hp] at hchange
  exact ⟨m', hmap, hchange, hfree, hnone, hone, vmmUnmapPage_walk htree hi hpresent⟩

/-- After `init_vmm` the directory has the low table only. -/
theorem editable_initVmm (hp : PagesInv img m.pages) : Editable img (initVmm img m) := by
  have hd := img.directory_lt
  have ht := img.table_lt
  have hcr3 : frameOf (initVmm img m).cr3 = img.pageDirectory := frameOf_frameAddr (by omega)
  have hs : IsSpace img (initVmm img m) (frameOf (initVmm img m).cr3) := by
    rw [hcr3]
    exact isSpace_initVmm img m
  have hpde : ∀ i, (initVmm img m).pde i = if i = 0 then tableEntry img.firstPageTable
      else if i = 1023 then selfEntry img.pageDirectory else 0 := by
    intro i
    unfold Machine.pde
    rw [hcr3, frames_initVmm_directory]
  have hslot : ∀ i < 1023, present ((initVmm img m).pde i) = true →
      i = 0 ∧ frameOf ((initVmm img m).pde i) = img.firstPageTable := by
    intro i hi hpi
    rw [hpde] at hpi ⊢
    split_ifs at hpi ⊢ with h0 h1023
    · exact ⟨h0, frameOf_tableEntry (by omega)⟩
    · omega
    · cases hpi
  have hkernel := toNat_frameAddr (f := img.pageDirectory) (by omega)
  have hused : ∀ f, (f + 1) * 4096 ≤ img.kernelEnd.toNat → ¬ Free m.pages f := by
    intro f hf hfree
    have := hp.kernel f hfree
    omega
  refine ⟨⟨hs.selfMapped, fun i hi hpi => ?_, fun i hi j hj hpi hpj _ => ?_⟩, hp.total.le, ?_,
    fun i hi hpi => ?_, ?_, fun i hi hpi => ?_⟩
  · rw [(hslot i hi hpi).2, hcr3]
    exact img.ne.symm
  · rw [(hslot i hi hpi).1, (hslot j hj hpj).1]
  · rw [hcr3]
    exact hused _ img.directory_mem.2
  · rw [(hslot i hi hpi).2]
    exact hused _ img.table_mem.2
  · rw [translate_low hs (lowMapped_initVmm img m) (by omega), frameOf_frameAddr (by omega)]
  · rw [(hslot i hi hpi).2]
    exact img.ne.symm

theorem editable_start (img : Image) (magic : UInt32) (mbi : MultibootInfo) (m : Machine) :
    Editable img (Spaces.start img magic mbi m).machine :=
  editable_initVmm (pagesInv_initPmm magic mbi)

/-- The first page of code is mapped to frame 600. -/
theorem vmmMapPage_walk_small : ∃ m' m'',
    vmmMapPage smallImage smallStart.machine 0x40000000 (frameAddr 600) 7 = some m' ∧
    m'.walk 0x40000000 = some (600, 7) ∧
    vmmUnmapPage m' 0x40000000 = some m'' ∧ m''.walk 0x40000000 = none := by
  have hi : pdIdx 0x40000000 < 1023 := by decide
  have hphys : (frameAddr 600).toNat % 4096 = 0 := by
    rw [toNat_frameAddr (by omega)]
  have hflags : (7 : UInt32).toNat < 4096 := by decide
  have hframe : frameOf (frameAddr 600) = 600 := by decide
  have halloc : smallStart.machine.allocPage.1 ≠ 0 := by
    rw [(smallStart_free.alloc (by omega) (by omega)).1]
    show frameAddr 512 ≠ 0
    decide
  have heditable : Editable smallImage smallStart.machine := editable_start _ _ _ _
  obtain ⟨m', hmap, hwalk, -, -, -, m'', hunmap, hgone, -⟩ :=
    vmmMapPage_walk heditable hi hphys hflags (by decide) fun _ => halloc
  rw [hframe] at hwalk
  exact ⟨m', m'', hmap, hwalk.walk, hunmap, hgone.walk⟩

end NosmeriOs.Vmm
