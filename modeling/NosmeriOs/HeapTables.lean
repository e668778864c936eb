import NosmeriOs.TaskLoader

/-! # The tables of the heap

`vmm_map_page` does not check that there is a page for a page table: when there is none, frame 0
becomes the table.

* `TablesFound`: no growth of the heap in a call of `kmalloc` comes to this.
* `kmalloc_found`: then the machine has only been grown, and the call fails when no page is left.
* `kmalloc_lost`: else the directory names frame 0, and no page is left. -/

namespace NosmeriOs.Tasks

open Vmm Heap

/-- The last page that is left does not go to a place in the heap that needs a table as well. -/
def TablesFound (h : Heap.State) (m : Machine) (bytes : UInt32) : Prop :=
  let n := alignedSize bytes
  bytes = 0 ∨ (∃ b ∈ blocks h, Fits n b) ∨
    ∀ j < pagesNeeded (blocks h) n, h.heapCurrentEnd + PAGE_SIZE * (j + 1) ≤ HEAP_MAX_ADDR →
      needsTable m h.heapCurrentEnd j = true →
        j + 1 + tablesNeeded m h.heapCurrentEnd j ≠ available m.pages

section growth
variable {img : Image} {m m' : Machine} {e k : ℕ}

theorem needsTable_zero (m : Machine) (e : ℕ) :
    needsTable m e 0 = !present (m.pde (e / 2 ^ 22)) := by
  unfold needsTable
  rw [mul_zero, add_zero, beq_self_eq_true, Bool.true_or, Bool.and_true]

/-- A growth by one page, which takes the frame `f`.  A slot without a table gets one in the frame
`g`, which is 0 if there is no page for it. -/
theorem Workable.growHeap_cases (h : Workable img m) (h1 : HEAP_START ≤ e)
    (h2 : e < HEAP_MAX_ADDR) {page : ℕ → UInt8}
    (hg : Kernel.growHeap img e (some m) = (some page, some m')) : ∃ f, IsFree img m f ∧
      (present (m.pde (e / 2 ^ 22)) = true ∧
        m' = (m.take f).setWord (frameOf (m.pde (e / 2 ^ 22))) (ptIdx (UInt32.ofNat e))
          (pageEntry (frameAddr f) (PAGE_PRESENT ||| PAGE_RW)) ∨
      present (m.pde (e / 2 ^ 22)) = false ∧ ∃ g m₁,
        (available m.pages = 1 ∧ g = 0 ∧ m₁ = { m.take f with outOfMemory := true } ∨
          available m.pages ≠ 1 ∧ IsFree img (m.take f) g ∧ m₁ = (m.take f).take g) ∧
        g ≠ frameOf m.cr3 ∧
        m' = (withTable img m₁ (UInt32.ofNat e) g).setWord g (ptIdx (UInt32.ofNat e))
          (pageEntry (frameAddr f) (PAGE_PRESENT ||| PAGE_RW))) := by
  have hidx := (pdIdx_heap h1 h2).1
  obtain ⟨-, he⟩ | ⟨f, hf, he, hav⟩ := allocPage_available h.pages
  · unfold Kernel.growHeap at hg
    simp [he] at hg
  have hne : frameAddr f ≠ 0 := fun hz => hf.ne_zero ((frameAddr_eq_zero hf.lt).1 hz)
  have hmap : vmmMapPage img (m.take f) (UInt32.ofNat e) (frameAddr f)
      (PAGE_PRESENT ||| PAGE_RW) = some m' := by
    unfold Kernel.growHeap at hg
    simp only [he, hne, if_false] at hg
    split at hg
    · cases hg
    · cases hg
      assumption
  have hw := h.take hf
  have hpde : (m.take f).pde (pdIdx (UInt32.ofNat e)) = m.pde (e / 2 ^ 22) := by
    rw [hidx]
    rfl
  refine ⟨f, hf, ?_⟩
  cases hp : present (m.pde (e / 2 ^ 22)) with
  | true =>
      rw [vmmMapPage_of_present hw.space.selfMapped (by rw [hpde, hp]), hpde] at hmap
      exact Or.inl ⟨rfl, (Option.some.inj hmap).symm⟩
  | false =>
      have hp' : present ((m.take f).pde (pdIdx (UInt32.ofNat e))) = false := by rw [hpde, hp]
      obtain ⟨h0, he'⟩ | ⟨g, hg', he', hav'⟩ := allocPage_available hw.pages
      · rw [vmmMapPage_of_absent (f := 0) hw.space.selfMapped hp' he' rfl rfl (by omega)
          h.ne_zero.symm] at hmap
        exact Or.inr ⟨rfl, 0, _, Or.inl ⟨by omega, rfl, rfl⟩, h.ne_zero.symm,
          (Option.some.inj hmap).symm⟩
      · have hgd : g ≠ frameOf m.cr3 := by
          rintro rfl
          exact hw.used hg'.free
        rw [vmmMapPage_of_absent hw.space.selfMapped hp' he' rfl rfl hg'.lt hgd] at hmap
        exact Or.inr ⟨rfl, g, _, Or.inr ⟨by omega, hg', rfl⟩, hgd, (Option.some.inj hmap).symm⟩

/-- The slot names the new table. -/
theorem pde_withTable {m₁ : Machine} {g j : ℕ} {w : UInt32} (h1 : HEAP_START ≤ e)
    (h2 : e < HEAP_MAX_ADDR) (hgd : g ≠ frameOf m₁.cr3) :
    ((withTable img m₁ (UInt32.ofNat e) g).setWord g j w).pde (e / 2 ^ 22) = tableEntry g := by
  unfold Machine.pde
  rw [Machine.cr3_setWord, cr3_withTable, Machine.frames_setWord, if_neg fun hz => hgd hz.1.symm,
    frames_withTable, if_neg hgd.symm]
  exact if_pos ⟨(pdIdx_heap h1 h2).1.symm, Or.inl rfl⟩

/-- Either a page was found for the table as well if one was needed, or frame 0 is the table. -/
theorem Workable.growHeap_table (h : Workable img m) (h1 : HEAP_START ≤ e)
    (h2 : e < HEAP_MAX_ADDR) {page : ℕ → UInt8}
    (hg : Kernel.growHeap img e (some m) = (some page, some m')) :
    (present (m.pde (e / 2 ^ 22)) = true ∨ available m.pages ≠ 1) ∧
      m'.outOfMemory = m.outOfMemory ∨
    present (m.pde (e / 2 ^ 22)) = false ∧ available m.pages = 1 ∧
      m'.pde (e / 2 ^ 22) = tableEntry 0 := by
  obtain ⟨f, -, ⟨hp, rfl⟩ | ⟨hp, g, m₁, ⟨hone, rfl, rfl⟩ | ⟨hone, -, rfl⟩, hgd, rfl⟩⟩ :=
    h.growHeap_cases h1 h2 hg
  · exact Or.inl ⟨Or.inl hp, rfl⟩
  · exact Or.inr ⟨hp, hone, pde_withTable h1 h2 hgd⟩
  · refine Or.inl ⟨Or.inr hone, ?_⟩
    rw [outOfMemory_setWord, outOfMemory_withTable]
    rfl

/-- As long as a page is left the heap gets it. -/
theorem Workable.growHeap_some (h : Workable img m) (h1 : HEAP_START ≤ e) (h2 : e < HEAP_MAX_ADDR)
    (hav : available m.pages ≠ 0) : ∃ page m', Kernel.growHeap img e (some m) =
      (some page, some m') ∧ Workable img m' ∧
      available m'.pages = available m.pages - 1 - (if present (m.pde (e / 2 ^ 22)) then 0 else 1) ∧
      ∀ i, present (m'.pde i) = true ↔ present (m.pde i) = true ∨ i = e / 2 ^ 22 := by
  obtain ⟨h0, -⟩ | ⟨-, hsome⟩ := h.growHeap h1 h2
  · exact absurd h0 hav
  · exact hsome

/-- The heap has grown by `k` pages, and every table that was needed has been found. -/
theorem Workable.supplied_found (h : Workable img m) (h1 : HEAP_START ≤ e)
    (he : e % PAGE_SIZE = 0) (hs : Supplied (Kernel.growHeap img) k e (some m))
    (ht : ∀ j < k, needsTable m e j = true → j + 1 + tablesNeeded m e j ≠ available m.pages) :
    ∃ m', Heap.supplyAfter (Kernel.growHeap img) k e (some m) = some m' ∧ Workable img m' ∧
      Grows img m m' ∧ m'.outOfMemory = m.outOfMemory := by
  induction k generalizing e m with
  | zero => exact ⟨m, rfl, h, .refl, rfl⟩
  | succ k ih =>
      obtain ⟨hmax, hsome, hs⟩ := hs
      have hlt : e < HEAP_MAX_ADDR := by
        simp only [PAGE_SIZE] at hmax
        omega
      obtain ⟨-, hg⟩ | ⟨h0, page, m₁, hg, hw, hav, hpde⟩ := h.growHeap h1 hlt
      · rw [hg] at hsome
        exact absurd rfl hsome
      rw [hg] at hs
      have hzero := ht 0 (by omega)
      rw [needsTable_zero, show tablesNeeded m e 0 = 0 from Nat.count_zero _, zero_add,
        Nat.add_zero, Bool.not_eq_true'] at hzero
      obtain ⟨hfound, ho⟩ | ⟨hp, hone, -⟩ := h.growHeap_table h1 hlt hg
      swap
      · exact absurd hone.symm (hzero hp)
      obtain ⟨m', hm', hw', hgrows, ho'⟩ := ih hw (by omega) (by
        rw [Nat.add_mod_right]
        exact he) hs fun j hj hn => by
          have hnext := ht (j + 1) (by omega)
          rw [needsTable_succ he hpde, tablesNeeded_succ he hpde] at hnext
          have := hnext hn
          rw [hav]
          split_ifs at this ⊢ with hp
          · omega
          · have := hfound.resolve_left hp
            omega
      refine ⟨m', ?_, hw', (Relation.ReflTransGen.single ⟨e, h1, hlt, ?_⟩).trans hgrows,
        ho'.trans ho⟩
      · unfold Heap.supplyAfter
        rw [hg]
        exact hm'
      · rw [hg]

/-- The last page goes to a slot without a table. -/
theorem Workable.supplied_lost (h : Workable img m) (h1 : HEAP_START ≤ e)
    (he : e % PAGE_SIZE = 0) {j : ℕ} (hmax : e + PAGE_SIZE * (j + 1) ≤ HEAP_MAX_ADDR)
    (hn : needsTable m e j = true) (hlast : j + 1 + tablesNeeded m e j = available m.pages) :
    Supplied (Kernel.growHeap img) (j + 1) e (some m) ∧ ∃ m' i, IsHeapSlot i ∧
      Heap.supplyAfter (Kernel.growHeap img) (j + 1) e (some m) = some m' ∧ Workable img m' ∧
      available m'.pages = 0 ∧ m'.pde i = tableEntry 0 := by
  induction j generalizing e m with
  | zero =>
      have hlt : e < HEAP_MAX_ADDR := by
        simp only [PAGE_SIZE] at hmax
        omega
      rw [needsTable_zero, Bool.not_eq_true'] at hn
      rw [show tablesNeeded m e 0 = 0 from Nat.count_zero _] at hlast
      obtain ⟨page, m₁, hg, hw, hav, -⟩ := h.growHeap_some h1 hlt (by omega)
      refine ⟨⟨hmax, by simp [hg], trivial⟩, m₁, e / 2 ^ 22, (pdIdx_heap h1 hlt).2, ?_, hw, ?_, ?_⟩
      · unfold Heap.supplyAfter
        rw [hg]
        rfl
      · rw [hav]
        omega
      · obtain ⟨hfound, -⟩ | ⟨-, -, hzero⟩ := h.growHeap_table h1 hlt hg
        · rw [hn] at hfound
          exact absurd hlast.symm (hfound.resolve_left (by simp))
        · exact hzero
  | succ j ih =>
      have hnext : e + PAGE_SIZE + PAGE_SIZE * (j + 1) = e + PAGE_SIZE * (j + 1 + 1) := by ring
      have hmax' : e + PAGE_SIZE + PAGE_SIZE * (j + 1) ≤ HEAP_MAX_ADDR := by
        rw [hnext]
        exact hmax
      have hlt : e < HEAP_MAX_ADDR := by
        simp only [PAGE_SIZE] at hmax'
        omega
      obtain ⟨page, m₁, hg, hw, hav, hpde⟩ := h.growHeap_some h1 hlt (by omega)
      rw [needsTable_succ he hpde] at hn
      rw [tablesNeeded_succ he hpde] at hlast
      obtain ⟨hs, m', i, hi, hm', hrest⟩ := ih hw (by omega) (by
        rw [Nat.add_mod_right]
        exact he) hmax' hn (by
          rw [hav]
          split_ifs at hlast ⊢ <;> omega)
      refine ⟨⟨by omega, by simp [hg], ?_⟩, m', i, hi, ?_, hrest⟩
      · rw [hg]
        exact hs
      · unfold Heap.supplyAfter
        rw [hg]
        exact hm'

/-- Without pages the heap does not grow, and the machine stays as it is. -/
theorem Grows.of_empty (hg : Grows img m m') (hp : PagesInv img m.pages)
    (h0 : available m.pages = 0) : m' = m ∨ m' = { m with outOfMemory := true } := by
  have hnone : ∀ m₁ : Machine, m₁.pages = m.pages →
      m₁.allocPage = (0, { m₁ with outOfMemory := true }) := by
    intro m₁ hm₁
    obtain ⟨-, he⟩ | ⟨f, -, -, hav⟩ := @allocPage_available img m₁ (by rwa [hm₁])
    · exact he
    · rw [hm₁] at hav
      omega
  induction hg with
  | refl => exact Or.inl rfl
  | @tail m₁ m' _ hstep ih =>
      obtain ⟨addr, -, -, hgrow⟩ := hstep
      have hm₁ : m₁.pages = m.pages := by
        obtain rfl | rfl := ih <;> rfl
      have he := hnone m₁ hm₁
      obtain ha | ⟨f, m₂, hf, ha, -⟩ := growHeap_cases hgrow
      · obtain rfl := (Prod.mk.inj (he.symm.trans ha)).2
        obtain rfl | rfl := ih <;> exact Or.inr rfl
      · exact absurd (Prod.mk.inj (he.symm.trans ha)).1.symm hf

end growth

section outcome
variable {σ : Type} {alloc : PageSource σ} {n k : ℕ} {h : Heap.State} {s : σ} {bs : List Block}
  {r : ℕ × Heap.State × σ}

/-- The heap only asks for pages that it needs and that fit into it. -/
theorem lt_pagesNeeded_of_grew (hok : Ok h bs) (hg : Grew alloc n h s bs k r) {j : ℕ}
    (hj : j < k) : j < pagesNeeded bs n ∧ Full n bs ∧
      h.heapCurrentEnd + PAGE_SIZE * (j + 1) ≤ HEAP_MAX_ADDR := by
  have hfull : Full n bs := by
    have hzero := hg.full 0 (by omega)
    rwa [extendBlocks_zero] at hzero
  refine ⟨?_, hfull, ?_⟩
  · by_contra hle
    obtain ⟨b, hb, hfit⟩ := (pagesNeeded_le_iff hok.layout.nonempty hfull h.heapCurrentEnd).1
      (not_lt.1 hle)
    exact hg.full j hj b hb hfit
  · have hmax := (supplied_succ.1 (hg.supplied.mono (show j + 1 ≤ k by omega))).2.1
    rwa [mul_add, mul_one, ← add_assoc]

end outcome

namespace Kernel

variable {img : Image} {k k' : Kernel} {bytes : UInt32} {p : ℕ}

/-- The machine has been grown; if then a page was missing, the call has failed. -/
theorem kmalloc_found (hw : k.Working img) (ht : TablesFound k.heap k.machine bytes)
    (h : k.kmalloc img bytes = some (p, k')) : ∃ m, Grows img k.machine m ∧
      m.outOfMemory = k.machine.outOfMemory ∧
      (k'.machine = m ∨ p = 0 ∧ k'.machine = { m with outOfMemory := true }) := by
  obtain ⟨heap, machine, rfl, he⟩ := kmalloc_some h
  obtain ⟨bs, hok, -⟩ := hw.heap
  have hstart : HEAP_START ≤ k.heap.heapCurrentEnd := by
    have := hok.layout.tiles.le
    omega
  unfold TablesFound at ht
  rw [hok.blocks] at ht
  by_cases h0 : bytes = 0
  · subst h0
    unfold Heap.kmalloc growFuel kmallocFrom kmallocBody at he
    rw [if_pos rfl] at he
    cases he
    exact ⟨_, .refl, rfl, Or.inl rfl⟩
  -- the growth, whether it was enough or not
  have hgrown : ∀ {j : ℕ} {r : ℕ × Heap.State × Option Machine},
      Grew (growHeap img) (alignedSize bytes) k.heap (some k.machine) bs j r →
      ∃ m, Heap.supplyAfter (growHeap img) j k.heap.heapCurrentEnd (some k.machine) = some m ∧
        Workable img m ∧ Grows img k.machine m ∧ m.outOfMemory = k.machine.outOfMemory := by
    intro j r hg
    refine hw.machine.supplied_found hstart hok.layout.aligned hg.supplied fun i hi => ?_
    obtain ⟨hneeded, hfull, hmax⟩ := lt_pagesNeeded_of_grew hok hg hi
    obtain hz | ⟨b, hb, hfit⟩ | ht := ht
    · exact absurd hz h0
    · exact absurd hfit (hfull b hb)
    · exact ht i hneeded hmax
  obtain ⟨j, us, b, vs, htook⟩ | ⟨j, hfailed⟩ :=
    kmalloc_outcome (growHeap img) (some k.machine) hok h0
  · obtain ⟨m, hm, -, hg, ho⟩ := hgrown htook.toGrew
    have hs := htook.supply
    rw [he, hm] at hs
    cases hs
    exact ⟨_, hg, ho, Or.inl rfl⟩
  · obtain ⟨m, hm, hw', hg, ho⟩ := hgrown hfailed.toGrew
    have hp := hfailed.ptr
    have hstuck := hfailed.stuck
    rw [he] at hp hstuck
    rw [hm] at hstuck
    obtain ⟨-, hs⟩ | ⟨hmax, hs⟩ := hstuck
    · cases hs
      exact ⟨_, hg, ho, Or.inl rfl⟩
    · obtain ⟨-, hs⟩ := hw'.of_none (by omega) (by
        simp only [PAGE_SIZE] at hmax ⊢
        omega) hs
      cases hs
      exact ⟨_, hg, ho, Or.inr ⟨hp, rfl⟩⟩

/-- A slot of the heap names frame 0, and there is no page any more. -/
theorem kmalloc_lost (hw : k.Working img) (ht : ¬ TablesFound k.heap k.machine bytes)
    (h : k.kmalloc img bytes = some (p, k')) : available k'.machine.pages = 0 ∧
      ∃ i, IsHeapSlot i ∧ k'.machine.pde i = tableEntry 0 := by
  obtain ⟨heap, machine, rfl, he⟩ := kmalloc_some h
  obtain ⟨bs, hok, -⟩ := hw.heap
  have hstart : HEAP_START ≤ k.heap.heapCurrentEnd := by
    have := hok.layout.tiles.le
    omega
  unfold TablesFound at ht
  rw [hok.blocks] at ht
  dsimp only at ht
  push Not at ht
  obtain ⟨h0, hfull, j, hj, hmax, hn, hlast⟩ := ht
  obtain ⟨hsupplied, m, i, hi, hm, hw', hav, hpde⟩ :=
    hw.machine.supplied_lost hstart hok.layout.aligned hmax hn hlast
  -- with this page the growth ends, as it cannot end before
  have hend : ∀ {i : ℕ} {r : ℕ × Heap.State × Option Machine},
      Grew (growHeap img) (alignedSize bytes) k.heap (some k.machine) bs i r → i ≤ j + 1 := by
    intro i r hg
    by_contra hlt
    obtain ⟨-, hmax', hpage⟩ :=
      supplied_succ.1 (hg.supplied.mono (show j + 1 + 1 ≤ i by omega))
    rw [hm] at hpage
    obtain ⟨-, hnone⟩ | ⟨hav', -⟩ := hw'.growHeap (e := k.heap.heapCurrentEnd + PAGE_SIZE * (j + 1))
      (by omega) (by
        simp only [PAGE_SIZE] at hmax' ⊢
        omega)
    · rw [hnone] at hpage
      exact hpage rfl
    · exact hav' hav
  obtain ⟨i', us, b, vs, htook⟩ | ⟨i', hfailed⟩ :=
    kmalloc_outcome (growHeap img) (some k.machine) hok h0
  · have hge : j + 1 ≤ i' := by
      by_contra hlt
      have hle : pagesNeeded bs (alignedSize bytes) ≤ i' :=
        (pagesNeeded_le_iff hok.layout.nonempty hfull k.heap.heapCurrentEnd).2
          ⟨b, by simp [htook.split], htook.fit.fits⟩
      omega
    obtain rfl : i' = j + 1 := le_antisymm (hend htook.toGrew) hge
    have hs := htook.supply
    rw [he, hm] at hs
    cases hs
    exact ⟨hav, i, hi, hpde⟩
  · have hstuck := hfailed.stuck
    rw [he] at hstuck
    have hge : j + 1 ≤ i' := by
      by_contra hlt
      obtain ⟨-, hmax', hpage⟩ :=
        supplied_succ.1 (hsupplied.mono (show i' + 1 ≤ j + 1 by omega))
      obtain ⟨hover, -⟩ | ⟨-, hnone⟩ := hstuck
      · omega
      · rw [hnone] at hpage
        exact hpage rfl
    obtain rfl : i' = j + 1 := le_antisymm (hend hfailed.toGrew) hge
    rw [hm] at hstuck
    obtain ⟨-, hs⟩ | ⟨hmax', hs⟩ := hstuck
    · cases hs
      exact ⟨hav, i, hi, hpde⟩
    · obtain ⟨-, hs⟩ := hw'.of_none (by omega) (by
        simp only [PAGE_SIZE] at hmax' ⊢
        omega) hs
      cases hs
      exact ⟨hav, i, hi, hpde⟩

end Kernel

end NosmeriOs.Tasks
