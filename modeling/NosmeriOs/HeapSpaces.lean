import NosmeriOs.HeapPages
import NosmeriOs.TaskFrames

/-! # The heap in the spaces of the tasks

A page table that the heap gets goes into the directory that is loaded and into the kernel's; the
other directories do without it until a page fault.

* `Shares img m D e`: the directories in `D` have no other tables for the heap than the kernel's,
  in which the heap is mapped up to `e`.
* `Shares.grow`: so it is after another page, if the table that it goes to is not replaced.
* `HeapKept`: the tables of the heap are not written; `vmm_map_page` keeps to that below 3 GB. -/

namespace NosmeriOs.Tasks

open Vmm Heap Ledgers

/-- The page of the heap at `a` is mapped in the kernel's directory. -/
def HeapPage (img : Image) (m : Machine) (a : ℕ) : Prop :=
  present (m.frames img.pageDirectory (a / 2 ^ 22)) = true ∧
    present (m.frames (frameOf (m.frames img.pageDirectory (a / 2 ^ 22))) (a / 4096 % 1024)) = true

structure Shares (img : Image) (m : Machine) (D : Set ℕ) (e : ℕ) : Prop where
  agree : ∀ d ∈ D, ∀ i, IsHeapSlot i → present (m.frames d i) = true →
    m.frames d i = m.frames img.pageDirectory i
  mapped : ∀ a, HEAP_START ≤ a → a < e → HeapPage img m a
  opened : ∀ i, IsHeapSlot i → present (m.frames img.pageDirectory i) = true → i * 2 ^ 22 < e

/-- Directories and tables of the heap are as they were. -/
structure HeapKept (img : Image) (m : Machine) (ρ : Ledger ℕ Use) (m' : Machine) : Prop where
  slots : ∀ d, IsDirectory img ρ d → ∀ i, IsHeapSlot i → m'.frames d i = m.frames d i
  tables : ∀ g, ρ g = some .heapTable → m'.frames g = m.frames g

/-- The table for the heap at `e` is in the loaded directory if it is in the kernel's. -/
def AtHand (img : Image) (m : Machine) (e : ℕ) : Prop := IsHeapSlot (e / 2 ^ 22) →
  present (m.frames img.pageDirectory (e / 2 ^ 22)) = true → present (m.pde (e / 2 ^ 22)) = true

/-- Tables for the heap are added to the loaded directory and the kernel's, and nothing else. -/
structure TablesAdded (img : Image) (D : Set ℕ) (m m' : Machine) : Prop where
  stay : ∀ d ∈ D, ∀ i, IsHeapSlot i → present (m.frames d i) = true →
    m'.frames d i = m.frames d i
  others : ∀ d ∈ D, d ≠ frameOf m.cr3 → d ≠ img.pageDirectory → ∀ i, IsHeapSlot i →
    m'.frames d i = m.frames d i

variable {img : Image} {m m' m'' : Machine} {ρ ρ' : Ledger ℕ Use} {D D' : Set ℕ} {e f : ℕ}

namespace TablesAdded

theorem of_eq (h : ∀ d ∈ D, ∀ i, IsHeapSlot i → m'.frames d i = m.frames d i) :
    TablesAdded img D m m' :=
  ⟨fun d hd i hi _ => h d hd i hi, fun d hd _ _ => h d hd⟩

theorem refl (img : Image) (D : Set ℕ) (m : Machine) : TablesAdded img D m m :=
  of_eq fun _ _ _ _ => rfl

theorem mono (h : TablesAdded img D m m') (hD : D' ⊆ D) : TablesAdded img D' m m' :=
  ⟨fun d hd => h.stay d (hD hd), fun d hd => h.others d (hD hd)⟩

theorem trans (h : TablesAdded img D m m') (h' : TablesAdded img D m' m'')
    (hcr3 : m'.cr3 = m.cr3) : TablesAdded img D m m'' := by
  refine ⟨fun d hd i hi hp => ?_, fun d hd h1 h2 i hi => ?_⟩
  · have he := h.stay d hd i hi hp
    rw [h'.stay d hd i hi (by rw [he, hp]), he]
  · rw [h'.others d hd (by rw [hcr3]; exact h1) h2 i hi, h.others d hd h1 h2 i hi]

end TablesAdded

/-- The table of a slot of the heap. -/
theorem heapTable_of_present (hl : Layout img m ρ) {d : ℕ} (hd : IsDirectory img ρ d) {i : ℕ}
    (hi : IsHeapSlot i) (hp : present (m.frames d i) = true) :
    ρ (frameOf (m.frames d i)) = some .heapTable := by
  unfold IsHeapSlot at hi
  rw [hl.table d hd i (by omega) (by omega) hp, tableUse_heap hi.1]

namespace Shares

theorem mono (h : Shares img m D e) (hD : D' ⊆ D) : Shares img m D' e :=
  ⟨fun d hd => h.agree d (hD hd), h.mapped, h.opened⟩

theorem of_frames (h : Shares img m D e) (hframes : m'.frames = m.frames) :
    Shares img m' D e := by
  refine ⟨?_, ?_, ?_⟩
  · rw [hframes]
    exact h.agree
  · unfold HeapPage
    rw [hframes]
    exact h.mapped
  · rw [hframes]
    exact h.opened

theorem heapSlot {a : ℕ} (h1 : HEAP_START ≤ a) (h2 : a < HEAP_MAX_ADDR) :
    IsHeapSlot (a / 2 ^ 22) :=
  (pdIdx_heap h1 h2).2

/-- The tables of the heap may not be written. -/
theorem kept (h : Shares img m D e) (hl : Layout img m ρ) (hD : ∀ d ∈ D, IsDirectory img ρ d)
    (he : e ≤ HEAP_MAX_ADDR) (hk : HeapKept img m ρ m') : Shares img m' D e := by
  have hkernel : ∀ i, IsHeapSlot i → m'.frames img.pageDirectory i =
      m.frames img.pageDirectory i := hk.slots _ (Or.inl rfl)
  refine ⟨fun d hd i hi hp => ?_, fun a h1 h2 => ?_, fun i hi hp => ?_⟩
  · rw [hk.slots d (hD d hd) i hi] at hp ⊢
    rw [hkernel i hi, h.agree d hd i hi hp]
  · have hi := heapSlot h1 (h2.trans_le he)
    obtain ⟨hp, hp'⟩ := h.mapped a h1 h2
    unfold HeapPage
    rw [hkernel _ hi, hk.tables _ (heapTable_of_present hl (Or.inl rfl) hi hp)]
    exact ⟨hp, hp'⟩
  · rw [hkernel i hi] at hp
    exact h.opened i hi hp

end Shares

/-! ### Another page -/

/-- The entry for a page of the heap. -/
theorem present_heapEntry {f : ℕ} (hf : f < 2 ^ 20) :
    present (pageEntry (frameAddr f) (PAGE_PRESENT ||| PAGE_RW)) = true :=
  present_pageEntry hf (by decide)

/-- The addresses in the page at `e` have its slot and its place there. -/
theorem page_of_lt {a : ℕ} (he : e % PAGE_SIZE = 0) (h1 : a < e + PAGE_SIZE) (h2 : ¬ a < e) :
    a / 2 ^ 22 = e / 2 ^ 22 ∧ a / 4096 % 1024 = e / 4096 % 1024 := by
  simp only [PAGE_SIZE] at h1 he
  omega

section grow
variable (h : Shares img m D e) (hl : Layout img m ρ) (hD : ∀ d ∈ D, IsDirectory img ρ d)
  (hc : frameOf m.cr3 ∈ D) (he : e % PAGE_SIZE = 0) (hslot : IsHeapSlot (e / 2 ^ 22))
  (hf : f < 2 ^ 20)

include h hl hD hc he hslot hf

/-- The entry goes to a table that is there. -/
theorem Shares.grow_present (hp : present (m.pde (e / 2 ^ 22)) = true)
    (hframes : ∀ a j, m'.frames a j =
      if a = frameOf (m.pde (e / 2 ^ 22)) ∧ j = e / 4096 % 1024 then
        pageEntry (frameAddr f) (PAGE_PRESENT ||| PAGE_RW)
      else m.frames a j) :
    Shares img m' D (e + PAGE_SIZE) ∧ ∀ d ∈ D, ∀ i, m'.frames d i = m.frames d i := by
  have htable := heapTable_of_present hl (hD _ hc) hslot hp
  have hagree := h.agree _ hc _ hslot hp
  have hold : ∀ d, IsDirectory img ρ d → ∀ i, m'.frames d i = m.frames d i := by
    intro d hd i
    rw [hframes, if_neg]
    exact fun e => hl.ne_directory htable (by simp) hd e.1.symm
  refine ⟨⟨fun d hd i hi hpi => ?_, fun a h1 h2 => ?_, fun i hi hpi => ?_⟩,
    fun d hd => hold d (hD d hd)⟩
  · rw [hold d (hD d hd)] at hpi ⊢
    rw [hold _ (Or.inl rfl), h.agree d hd i hi hpi]
  · unfold HeapPage
    rw [hold _ (Or.inl rfl), hframes]
    by_cases hlt : a < e
    · obtain ⟨h3, h4⟩ := h.mapped a h1 hlt
      refine ⟨h3, ?_⟩
      split_ifs
      · exact present_heapEntry hf
      · exact h4
    · obtain ⟨h3, h4⟩ := page_of_lt he h2 hlt
      rw [h3, h4, ← hagree, if_pos ⟨rfl, rfl⟩]
      exact ⟨hp, present_heapEntry hf⟩
  · rw [hold _ (Or.inl rfl)] at hpi
    exact (h.opened i hi hpi).trans (Nat.lt_add_of_pos_right (by decide))

/-- A new table, in the frame `g`, goes into the loaded directory and into the kernel's. -/
theorem Shares.grow_absent {g : ℕ}
    (hk : present (m.frames img.pageDirectory (e / 2 ^ 22)) = false) (hg : g < 2 ^ 20)
    (hgd : ∀ d, IsDirectory img ρ d → d ≠ g) (hgt : ∀ t, ρ t = some .heapTable → t ≠ g)
    (hframes : ∀ a j, m'.frames a j =
      if a = g then
        if j = e / 4096 % 1024 then pageEntry (frameAddr f) (PAGE_PRESENT ||| PAGE_RW) else 0
      else if j = e / 2 ^ 22 ∧ (a = frameOf m.cr3 ∨ a = img.pageDirectory) then tableEntry g
      else m.frames a j) :
    Shares img m' D (e + PAGE_SIZE) ∧ m'.frames (frameOf m.cr3) (e / 2 ^ 22) = tableEntry g ∧
      TablesAdded img D m m' := by
  have hnew : ∀ d, IsDirectory img ρ d → ∀ i, m'.frames d i =
      if i = e / 2 ^ 22 ∧ (d = frameOf m.cr3 ∨ d = img.pageDirectory) then tableEntry g
      else m.frames d i := by
    intro d hd i
    rw [hframes, if_neg (hgd d hd)]
  have habsent : ∀ d ∈ D, present (m.frames d (e / 2 ^ 22)) = false := by
    intro d hd
    rw [← Bool.not_eq_true]
    intro hpd
    rw [h.agree d hd _ hslot hpd, hk] at hpd
    cases hpd
  have hother : ∀ d, IsDirectory img ρ d → ∀ i, i ≠ e / 2 ^ 22 →
      m'.frames d i = m.frames d i := by
    intro d hd i hi
    rw [hnew d hd, if_neg fun e => hi e.1]
  have hkernel : m'.frames img.pageDirectory (e / 2 ^ 22) = tableEntry g := by
    rw [hnew _ (Or.inl rfl), if_pos ⟨rfl, Or.inr rfl⟩]
  refine ⟨⟨fun d hd i hi hpi => ?_, fun a h1 h2 => ?_, fun i hi hpi => ?_⟩, ?_,
    fun d hd i hi hpi => ?_, fun d hd h1 h2 i _ => ?_⟩
  · by_cases hie : i = e / 2 ^ 22
    · subst hie
      rw [hkernel]
      rw [hnew d (hD d hd)] at hpi ⊢
      split_ifs at hpi ⊢ with hcur
      · rfl
      · rw [habsent d hd] at hpi
        cases hpi
    · rw [hother d (hD d hd) i hie] at hpi ⊢
      rw [hother _ (Or.inl rfl) i hie]
      exact h.agree d hd i hi hpi
  · unfold HeapPage
    by_cases hlt : a < e
    · obtain ⟨h3, h4⟩ := h.mapped a h1 hlt
      have hne : a / 2 ^ 22 ≠ e / 2 ^ 22 := by
        intro heq
        rw [heq, hk] at h3
        cases h3
      have hi : IsHeapSlot (a / 2 ^ 22) := by
        unfold IsHeapSlot HEAP_START at *
        omega
      have ht := heapTable_of_present hl (Or.inl rfl) hi h3
      rw [hother _ (Or.inl rfl) _ hne, hframes, if_neg (hgt _ ht), if_neg]
      · exact ⟨h3, h4⟩
      · rintro ⟨-, e | e⟩
        · exact hl.ne_directory ht (by simp) (hD _ hc) e
        · exact hl.ne_directory ht (by simp) (Or.inl rfl) e
    · obtain ⟨h3, h4⟩ := page_of_lt he h2 hlt
      rw [h3, h4, hkernel, frameOf_tableEntry hg, hframes, if_pos rfl, if_pos rfl]
      exact ⟨present_tableEntry hg, present_heapEntry hf⟩
  · by_cases hie : i = e / 2 ^ 22
    · simp only [PAGE_SIZE]
      omega
    · rw [hother _ (Or.inl rfl) i hie] at hpi
      exact (h.opened i hi hpi).trans (Nat.lt_add_of_pos_right (by decide))
  · rw [hnew _ (hD _ hc), if_pos ⟨rfl, Or.inl rfl⟩]
  · refine hother d (hD d hd) i ?_
    rintro rfl
    rw [habsent d hd] at hpi
    cases hpi
  · rw [hnew d (hD d hd), if_neg fun e => e.2.elim h1 h2]

end grow

/-- The next table is a new one, unless it is that of the page. -/
theorem Shares.atHand (h : Shares img m D (e + PAGE_SIZE)) (he : e % PAGE_SIZE = 0)
    (hp : present (m.pde (e / 2 ^ 22)) = true) : AtHand img m (e + PAGE_SIZE) := by
  intro hslot hk
  have hlt := h.opened _ hslot hk
  have hsame : (e + PAGE_SIZE) / 2 ^ 22 = e / 2 ^ 22 := by
    simp only [PAGE_SIZE] at he hlt ⊢
    omega
  rw [hsame]
  exact hp

/-- The heap grows by the page at `e`, and no table of the kernel's is replaced. -/
theorem Shares.grow (h : Shares img m D e) (hl : Layout img m ρ)
    (hD : ∀ d ∈ D, IsDirectory img ρ d) (hc : frameOf m.cr3 ∈ D) (h1 : HEAP_START ≤ e)
    (h2 : e < HEAP_MAX_ADDR) (he : e % PAGE_SIZE = 0) (hr : AtHand img m e) {p : UInt32}
    {m₁ : Machine} (ha : m.allocPage = (p, m₁))
    (hm : vmmMapPage img m₁ (UInt32.ofNat e) p (PAGE_PRESENT ||| PAGE_RW) = some m')
    (ho : m'.outOfMemory = false) : Shares img m' D (e + PAGE_SIZE) ∧
      AtHand img m' (e + PAGE_SIZE) ∧ TablesAdded img D m m' := by
  obtain ⟨hidx, hslot⟩ := pdIdx_heap h1 h2
  have hpt : ptIdx (UInt32.ofNat e) = e / 4096 % 1024 := by
    have hlt : e < 2 ^ 32 := by
      simp only [HEAP_MAX_ADDR] at h2
      omega
    unfold ptIdx
    rw [UInt32.toNat_ofNat', Nat.mod_eq_of_lt hlt]
  have hframes : m₁.frames = m.frames := congrArg (fun a => a.2.frames) ha.symm
  have hk₁ := Keeps.of_allocPage ha
  have hk := keeps_vmmMapPage hm
  obtain ⟨f, rfl, hlt, -, hl₁, hext⟩ := hl.allocPage (u := .heapPage) ha (hk.outOfMemory ho) rfl
    (by simp) fun d hd => by cases hd
  have hd₁ : IsDirectory img (ρ.give f .heapPage) (frameOf m₁.cr3) := by
    rw [hk₁.cr3]
    exact hl.isDirectory hext (hD _ hc)
  have hpde : m₁.pde (e / 2 ^ 22) = m.pde (e / 2 ^ 22) := by
    unfold Machine.pde
    rw [hframes, hk₁.cr3]
  have hcases := hl₁.mapPage_cases hd₁ hm ho
  rw [hidx, hpt, hpde, hk₁.cr3, hframes] at hcases
  obtain ⟨hp, hm'⟩ | ⟨hp, g, hg, -, hnew⟩ := hcases
  · have hset : ∀ a j, m'.frames a j =
        if a = frameOf (m.pde (e / 2 ^ 22)) ∧ j = e / 4096 % 1024 then
          pageEntry (frameAddr f) (PAGE_PRESENT ||| PAGE_RW)
        else m.frames a j := by
      intro a j
      rw [hm', Machine.frames_setWord, hframes]
    obtain ⟨hs, hold⟩ := h.grow_present hl hD hc he hslot hlt hp hset
    refine ⟨hs, hs.atHand he ?_, .of_eq fun d hd i _ => hold d hd i⟩
    unfold Machine.pde
    rw [hk.cr3, hk₁.cr3, hold _ hc]
    exact hp
  · have hpk : present (m.frames img.pageDirectory (e / 2 ^ 22)) = false := by
      rw [← Bool.not_eq_true]
      intro hpk
      rw [hr hslot hpk] at hp
      cases hp
    simp only [hslot.1, true_and] at hnew
    obtain ⟨hs, hslots, hstay⟩ := h.grow_absent hl hD hc he hslot hlt hpk hg.lt
      (fun d hd => hl₁.ne_free hg (hl.isDirectory hext hd))
      (fun t ht => hl₁.sound.ne hg.free (hext.of_some hl.sound ht)) hnew
    refine ⟨hs, hs.atHand he ?_, hstay⟩
    unfold Machine.pde
    rw [hk.cr3, hk₁.cr3, hslots]
    exact present_tableEntry hg.lt

/-! ### Below 3 GB -/

namespace HeapKept

theorem of_frames (hframes : m'.frames = m.frames) : HeapKept img m ρ m' :=
  ⟨fun _ _ _ _ => by rw [hframes], fun _ _ => by rw [hframes]⟩

theorem trans (h : HeapKept img m ρ m') (h' : HeapKept img m' ρ' m'')
    (hkeep : ∀ f u, ρ f = some u → u ≠ .reserved → ρ' f = some u) : HeapKept img m ρ m'' := by
  refine ⟨fun d hd i hi => ?_, fun g hg => ?_⟩
  · have hd' : IsDirectory img ρ' d := hd.imp_right fun hu => hkeep d _ hu (by simp)
    rw [h'.slots d hd' i hi, h.slots d hd i hi]
  · rw [h'.tables g (hkeep g _ hg (by simp)), h.tables g hg]

theorem tablesAdded (h : HeapKept img m ρ m') (hD : ∀ d ∈ D, IsDirectory img ρ d) :
    TablesAdded img D m m' :=
  .of_eq fun d hd => h.slots d (hD d hd)

/-- Only pages were written. -/
theorem of_leaves (hl : Layout img m ρ) (hframes : ∀ g, ¬ Leaf ρ g → m'.frames g = m.frames g) :
    HeapKept img m ρ m' := by
  refine ⟨fun d hd i _ => ?_, fun g hg => ?_⟩
  · rw [hframes d fun hf => hf.ne_directory hl hd rfl]
  · exact hframes g fun hf => hf.ne_table hg rfl rfl

/-- A page is mapped below 3 GB. -/
theorem of_mapPage (hl : Layout img m ρ) (hd : IsDirectory img ρ (frameOf m.cr3))
    {virtAddr physAddr flags : UInt32} (h0 : 0 < pdIdx virtAddr) (hi : pdIdx virtAddr < 768)
    (hm : vmmMapPage img m virtAddr physAddr flags = some m') (ho : m'.outOfMemory = false) :
    HeapKept img m ρ m' := by
  obtain ⟨hp, rfl⟩ | ⟨-, g, hg, -, hframes⟩ := hl.mapPage_cases hd hm ho
  · have ht := hl.table _ hd _ h0 (by omega) hp
    unfold tableUse at ht
    rw [if_pos hi] at ht
    refine ⟨fun d hd' i _ => ?_, fun t hheap => ?_⟩
    · rw [Machine.frames_setWord, if_neg]
      exact fun e => hl.ne_directory ht (by simp) hd' e.1.symm
    · funext j
      rw [Machine.frames_setWord, if_neg]
      rintro ⟨rfl, -⟩
      cases ht.symm.trans hheap
  · refine ⟨fun d hd' i hi' => ?_, fun t hheap => ?_⟩
    · rw [hframes, if_neg (hl.ne_free hg hd'), if_neg]
      rintro ⟨rfl, -⟩
      exact absurd hi'.1 (by omega)
    · funext j
      rw [hframes, if_neg (hl.sound.ne hg.free hheap), if_neg]
      rintro ⟨-, e | ⟨hge, -⟩⟩
      · exact hl.ne_directory hheap (by simp) hd e
      · omega

end HeapKept

/-! ### Directories -/

/-- A new directory gets the tables that the kernel's has. -/
theorem Shares.createPageDirectory (h : Shares img m D e) (hl : Layout img m ρ)
    (hD : ∀ d ∈ D, IsDirectory img ρ d) (hc : IsDirectory img ρ (frameOf m.cr3))
    (he : e ≤ HEAP_MAX_ADDR) {newPd : UInt32}
    (hm : vmmCreatePageDirectory img m = some (newPd, m')) (h0 : newPd ≠ 0)
    (hlow : newPd < 0x400000) : Shares img m' (insert (frameOf newPd) D) e ∧
      HeapKept img m ρ m' ∧ ∀ i, IsHeapSlot i → present (m.frames img.pageDirectory i) = true →
        m'.frames (frameOf newPd) i = m.frames img.pageDirectory i := by
  obtain ⟨f, rfl, hf, rfl⟩ := hl.createPageDirectory_cases hc hm h0 hlow
  rw [frameOf_frameAddr hf.lt]
  have hother : ∀ g, g ≠ f →
      ((m.take f).setFrame f (directoryFrame img (m.take f) f)).frames g = m.frames g := by
    intro g hg
    rw [Machine.frames_setFrame, if_neg hg]
    rfl
  have hself : ∀ i, IsHeapSlot i →
      ((m.take f).setFrame f (directoryFrame img (m.take f) f)).frames f i =
        if present (m.frames img.pageDirectory i) = true then m.frames img.pageDirectory i
        else 0 := by
    intro i hi
    unfold IsHeapSlot at hi
    have hnew : newDirectory img m f i = if present (m.frames img.pageDirectory i) = true then
        m.frames img.pageDirectory i else 0 := by
      unfold newDirectory
      rw [if_neg (by omega), if_neg (by omega)]
      simp only [hi, true_and]
    rw [Machine.frames_setFrame, if_pos rfl, ← hnew]
    exact if_pos (by omega)
  have hkept : HeapKept img m ρ ((m.take f).setFrame f (directoryFrame img (m.take f) f)) :=
    ⟨fun d hd _ _ => by rw [hother d (hl.ne_free hf hd)],
      fun g hg => hother g (hl.sound.ne hf.free hg)⟩
  obtain ⟨hagree, hmapped, hopened⟩ := h.kept hl hD he hkept
  refine ⟨⟨fun d hd i hi hp => ?_, hmapped, hopened⟩, hkept, fun i hi hp => ?_⟩
  · obtain rfl | hd := hd
    · rw [hself i hi] at hp ⊢
      split_ifs at hp ⊢ with hk
      · exact (hkept.slots _ (Or.inl rfl) i hi).symm
      · rw [present_zero] at hp
        cases hp
    · exact hagree d hd i hi hp
  · rw [hself i hi, if_pos hp]

/-- A page fault puts a table of the kernel's into the loaded directory. -/
theorem Shares.pageFault (h : Shares img m D e) (hl : Layout img m ρ)
    (hc : IsDirectory img ρ (frameOf m.cr3))
    (he : e ≤ HEAP_MAX_ADDR) {addr : UInt32} (hm : pageFaultHandler img m addr = some m') :
    Shares img m' D e ∧ TablesAdded img D m m' := by
  by_cases ha : 0xC0000000 ≤ addr ∧ pdIdx addr < 1023
  swap
  · unfold pageFaultHandler at hm
    rw [if_neg (fun e => ha ⟨e.1, e.2.1⟩)] at hm
    cases hm
  rw [pageFaultHandler_eq (hl.space _ hc) ha.1 ha.2] at hm
  split_ifs at hm with hp
  cases hm
  have hslot : ∀ d i, (m.setWord (frameOf m.cr3) (pdIdx addr)
      (m.frames img.pageDirectory (pdIdx addr))).frames d i =
        if d = frameOf m.cr3 ∧ i = pdIdx addr then m.frames img.pageDirectory (pdIdx addr)
        else m.frames d i := fun d i => Machine.frames_setWord ..
  have hkernel : ∀ i, (m.setWord (frameOf m.cr3) (pdIdx addr)
      (m.frames img.pageDirectory (pdIdx addr))).frames img.pageDirectory i =
        m.frames img.pageDirectory i := by
    intro i
    rw [hslot]
    split_ifs with heq
    · rw [heq.2]
    · rfl
  refine ⟨⟨fun d hd i hi hpi => ?_, fun a h1 h2 => ?_, fun i hi hpi => ?_⟩,
    fun d hd i hi hpi => ?_, fun d _ h1 _ i _ => ?_⟩
  · rw [hkernel]
    rw [hslot] at hpi ⊢
    split_ifs at hpi ⊢ with heq
    · rw [heq.2]
    · exact h.agree d hd i hi hpi
  · obtain ⟨h3, h4⟩ := h.mapped a h1 h2
    have ht := heapTable_of_present hl (Or.inl rfl) (Shares.heapSlot h1 (h2.trans_le he)) h3
    unfold HeapPage
    rw [hkernel, hslot, if_neg]
    · exact ⟨h3, h4⟩
    · exact fun heq => hl.ne_directory ht (by simp) hc heq.1
  · rw [hkernel] at hpi
    exact h.opened i hi hpi
  · rw [hslot]
    split_ifs with heq
    · obtain ⟨rfl, rfl⟩ := heq
      exact (h.agree _ hd _ hi hpi).symm
    · rfl
  · rw [hslot, if_neg fun heq => h1 heq.1]

end NosmeriOs.Tasks
