import Mathlib.Data.Nat.Count
import NosmeriOs.PmmSafety

/-! # Page allocation under preemption

`pmm_alloc_page` searches a free page and then marks it.  The kernel task runs it with
interrupts enabled, so a timer switch can come between the two, and other tasks then allocate
and free whole pages before the mark.

* `PreemptState`: the allocator and the answer of a search whose mark is still to come.
* `UsedExact`: `used_memory_pages` counts the marked pages, whatever happens.
* `run_preempted_iff`: no page is handed out twice in a run exactly when every mark finds its
  page still free. -/

namespace NosmeriOs.Pmm

/-! ### The page counter -/

/-- `used_memory_pages` is the number of marked pages. -/
def UsedExact (p : Pages) : Prop :=
  p.usedMemoryPages.toNat =
    Nat.count (fun i => p.memoryBitmap.test i = true) p.totalMemoryPages.toNat

/-- Adding one number below `n` to a predicate raises its count by one. -/
theorem count_insert {p q : ℕ → Prop} [DecidablePred p] [DecidablePred q] {n k : ℕ} (hk : k < n)
    (hp : ¬ p k) (hq : ∀ i, q i ↔ p i ∨ i = k) : Nat.count q n = Nat.count p n + 1 := by
  rw [Nat.count_eq_card_filter_range, Nat.count_eq_card_filter_range]
  have hinsert : (Finset.range n).filter q = insert k ((Finset.range n).filter p) := by
    ext i
    simp only [Finset.mem_filter, Finset.mem_range, Finset.mem_insert, hq]
    constructor
    · rintro ⟨hi, h | h⟩
      · exact Or.inr ⟨hi, h⟩
      · exact Or.inl h
    · rintro (rfl | ⟨hi, h⟩)
      · exact ⟨hk, Or.inr rfl⟩
      · exact ⟨hi, Or.inl h⟩
  rw [hinsert, Finset.card_insert_of_notMem]
  simp [hp]

theorem UsedExact.bitmapSet {p : Pages} (h : UsedExact p) (k : UInt32) :
    UsedExact (bitmapSet p k) := by
  unfold Pmm.bitmapSet
  split_ifs with hlt ht
  · have hcount := @count_insert (fun i => p.memoryBitmap.test i = true)
      (fun i => (p.memoryBitmap.set k.toNat).test i = true) _ _ p.totalMemoryPages.toNat k.toNat
      hlt (by simpa using ht) (fun i => by
        rw [Bitmap.test_set, Bool.or_eq_true, decide_eq_true_eq, @eq_comm _ k.toNat])
    have hlt32 := p.totalMemoryPages.toNat_lt
    have hle := Nat.count_le (p := fun i => (p.memoryBitmap.set k.toNat).test i = true)
      (n := p.totalMemoryPages.toNat)
    unfold UsedExact at h ⊢
    dsimp only
    rw [UInt32.toNat_add, h, UInt32.toNat_one, hcount]
    omega
  · exact h
  · exact h

theorem UsedExact.bitmapUnset {p : Pages} (h : UsedExact p) (k : UInt32) :
    UsedExact (bitmapUnset p k) := by
  unfold Pmm.bitmapUnset
  split_ifs with hlt ht
  · have hcount := @count_insert (fun i => (p.memoryBitmap.unset k.toNat).test i = true)
      (fun i => p.memoryBitmap.test i = true) _ _ p.totalMemoryPages.toNat k.toNat hlt
      (by rw [Bitmap.test_unset]; simp) (fun i => by
        rw [Bitmap.test_unset]
        by_cases hi : k.toNat = i
        · simp [← hi, ht]
        · simp [hi, Ne.symm hi])
    have hlt32 := p.totalMemoryPages.toNat_lt
    have hlt32' := p.usedMemoryPages.toNat_lt
    unfold UsedExact at h ⊢
    dsimp only
    rw [UInt32.toNat_sub_of_le, h, hcount, UInt32.toNat_one]
    · omega
    · rw [UInt32.le_iff_toNat_le, h, hcount, UInt32.toNat_one]
      omega
  · exact h
  · exact h

theorem UsedExact.foldl {α : Type} {f : Pages → α → Pages}
    (hf : ∀ p a, UsedExact p → UsedExact (f p a)) (l : List α) {p : Pages} (h : UsedExact p) :
    UsedExact (l.foldl f p) := by
  induction l generalizing p with
  | nil => exact h
  | cons a l ih => exact ih (hf p a h)

theorem UsedExact.pmmMarkRegionUsed {p : Pages} (h : UsedExact p) (base length : UInt32) :
    UsedExact (pmmMarkRegionUsed p base length) :=
  h.foldl (fun _ _ h => h.bitmapSet _) _

theorem UsedExact.pmmMarkRegionFree {p : Pages} (h : UsedExact p) (base length : UInt32) :
    UsedExact (pmmMarkRegionFree p base length) :=
  h.foldl (fun _ _ h => h.bitmapUnset _) _

/-- The counter is right from `init_pmm` on. -/
theorem usedExact_initPmm (kernel : KernelImage) (magic : UInt32) (mbi : MultibootInfo) :
    UsedExact (initPmm kernel magic mbi) := by
  have hfull : ∀ t : UInt32, UsedExact ⟨fun _ => 0xFFFFFFFF#32, t, t⟩ := by
    intro t
    unfold UsedExact
    rw [Nat.count_of_forall fun i _ => Bitmap.test_full i]
  unfold initPmm
  apply UsedExact.pmmMarkRegionUsed
  apply UsedExact.pmmMarkRegionUsed
  split_ifs
  · refine (hfull _).foldl (fun p e hp => ?_) _
    split_ifs
    · exact hp.pmmMarkRegionFree _ _
    · exact hp
  · exact (hfull _).pmmMarkRegionFree _ _

theorem UsedExact.pmmAllocPage {p : Pages} (h : UsedExact p) : UsedExact (pmmAllocPage p).2 := by
  unfold Pmm.pmmAllocPage
  dsimp only
  split_ifs
  · exact h
  · exact h.bitmapSet _

/-! ### Steps -/

/-- The allocator, and the answer of `find_first_free_page` in a call of the kernel task that
was preempted before `bitmap_set`. -/
structure PreemptState where
  pmm : PmmState
  found : Option ℤ

inductive PreemptOp where
  /-- The kernel task enters `pmm_alloc_page`: `find_first_free_page`. -/
  | find
  /-- The kernel task goes on: `bitmap_set`, and the page is returned. -/
  | mark
  /-- A whole call, of another task or of the kernel task between its own calls. -/
  | call (op : PmmOp)

namespace PreemptState

def init (kernel : KernelImage) (magic : UInt32) (mbi : MultibootInfo) : PreemptState :=
  ⟨PmmState.init kernel magic mbi, none⟩

/-- The second half of `pmm_alloc_page`. -/
def markFound (s : PmmState) (freePage : ℤ) : PmmState :=
  if freePage = -1 then s
  else
    let pageIdx := UInt32.ofNat freePage.toNat
    ⟨bitmapSet s.pages pageIdx, s.outstanding ++ [pageIdx * PAGE_SIZE]⟩

def step (s : PreemptState) : PreemptOp → PreemptState
  | .find => match s.found with
    | none => ⟨s.pmm, some (findFirstFreePage s.pmm.pages)⟩
    | some _ => s
  | .mark => match s.found with
    | none => s
    | some freePage => ⟨markFound s.pmm freePage, none⟩
  | .call op => ⟨s.pmm.step op, s.found⟩

def run (s : PreemptState) (ops : List PreemptOp) : PreemptState := ops.foldl step s

/-- The page the kernel task is about to mark is free. -/
def FoundFree (s : PreemptState) : Prop := ∀ i : ℕ, s.found = some (i : ℤ) → Free s.pmm.pages i

/-- Pages are held once, and the counter counts the marked pages. -/
structure Exclusive (s : PreemptState) : Prop where
  distinct : s.pmm.outstanding.Nodup
  used : UsedExact s.pmm.pages

theorem toNat_pageIdx {i : ℕ} (hi : i < 2 ^ 20) :
    (UInt32.ofNat i * PAGE_SIZE).toNat = i * 4096 := by
  have hpage : PAGE_SIZE.toNat = 4096 := rfl
  rw [UInt32.toNat_mul, UInt32.toNat_ofNat', hpage]
  omega

theorem pageIdx_ne_zero {i : ℕ} (hi : i < 2 ^ 20) (h0 : i ≠ 0) :
    UInt32.ofNat i * PAGE_SIZE ≠ 0 := by
  intro hz
  have hz' := congrArg UInt32.toNat hz
  rw [toNat_pageIdx hi, UInt32.toNat_zero] at hz'
  omega

/-- Without a preemption the two halves are one call. -/
theorem find_mark {p₀ : Pages} {s : PmmState} (h : s.Ok p₀)
    (ht : p₀.totalMemoryPages.toNat < 2 ^ 20) (h0 : ¬ Free p₀ 0) :
    (step (step ⟨s, none⟩ .find) .mark) = ⟨s.step .alloc, none⟩ := by
  simp only [step, markFound, PmmState.step, pmmAllocPage]
  rcases findFirstFreePage_cases s.pages with hi | ⟨i, hi, hf⟩
  · simp [hi]
  · have hne : ¬ ((i : ℤ) = -1) := by omega
    have hfree := ((h.free i).1 hf).1
    have hptr := pageIdx_ne_zero (hfree.1.trans ht) fun hi0 => h0 (hi0 ▸ hfree)
    simp [hi, hne, hptr]

/-! ### Runs -/

/-- The allocator is in order, and a page found was free when the pages `p₀` were set up. -/
structure Ok (p₀ : Pages) (s : PreemptState) : Prop where
  pmm : s.pmm.Ok p₀
  found : ∀ r, s.found = some r → r = -1 ∨ ∃ i : ℕ, r = i ∧ Free p₀ i

section

variable {p₀ : Pages} {s : PreemptState}

theorem Ok.step (h : s.Ok p₀) (ht : p₀.totalMemoryPages.toNat < 2 ^ 20) (h0 : ¬ Free p₀ 0)
    {op : PreemptOp} (hop : op = .mark → s.FoundFree) : (s.step op).Ok p₀ := by
  cases op with
  | find =>
      cases hf : s.found with
      | some r =>
          simp only [PreemptState.step, hf]
          exact h
      | none =>
          simp only [PreemptState.step, hf]
          refine ⟨h.pmm, fun r hr => ?_⟩
          rw [← Option.some.inj hr]
          rcases findFirstFreePage_cases s.pmm.pages with hr | ⟨i, hr, hfree⟩
          · exact Or.inl hr
          · exact Or.inr ⟨i, hr, ((h.pmm.free i).1 hfree).1⟩
  | mark =>
      cases hf : s.found with
      | none =>
          simp only [PreemptState.step, hf]
          exact h
      | some r =>
          simp only [PreemptState.step, hf]
          refine ⟨?_, fun r hr => by cases hr⟩
          rcases h.found r hf with rfl | ⟨i, rfl, hi⟩
          · exact h.pmm
          · rw [markFound, if_neg (by omega), Int.toNat_natCast]
            exact h.pmm.take (hop rfl i hf) (toNat_pageIdx (hi.1.trans ht))
  | call op => exact ⟨h.pmm.step ht h0 op, h.found⟩

/-- A mark that finds its page taken hands it out a second time. -/
theorem Ok.not_distinct_mark (h : s.Ok p₀) (ht : p₀.totalMemoryPages.toNat < 2 ^ 20)
    (hop : ¬ s.FoundFree) : ¬ (s.step .mark).pmm.outstanding.Nodup := by
  unfold FoundFree at hop
  push Not at hop
  obtain ⟨i, hf, hfree⟩ := hop
  have hi : Free p₀ i := by
    rcases h.found _ hf with hr | ⟨j, hj, hfree'⟩
    · omega
    · rw [Nat.cast_inj] at hj
      exact hj ▸ hfree'
  -- the page was free at first, so somebody holds it
  have hheld : ∃ a ∈ s.pmm.outstanding, a.toNat = i * 4096 := by
    by_contra hno
    push Not at hno
    exact hfree ((h.pmm.free i).2 ⟨hi, hno⟩)
  obtain ⟨a, ha, hai⟩ := hheld
  have hptr : UInt32.ofNat i * PAGE_SIZE = a := by
    apply UInt32.toNat_inj.1
    rw [toNat_pageIdx (hi.1.trans ht), hai]
  simp only [PreemptState.step, hf]
  rw [markFound, if_neg (by omega), Int.toNat_natCast]
  dsimp only
  rw [hptr]
  intro hnodup
  exact (List.nodup_append.1 hnodup).2.2 a ha a (List.mem_singleton.2 rfl) rfl

theorem usedExact_step (h : UsedExact s.pmm.pages) (op : PreemptOp) :
    UsedExact (s.step op).pmm.pages := by
  cases op with
  | find =>
      cases hf : s.found with
      | some r =>
          simp only [PreemptState.step, hf]
          exact h
      | none =>
          simp only [PreemptState.step, hf]
          exact h
  | mark =>
      cases hf : s.found with
      | none =>
          simp only [PreemptState.step, hf]
          exact h
      | some r =>
          simp only [PreemptState.step, hf, markFound]
          split_ifs
          · exact h
          · exact h.bitmapSet _
  | call op =>
      cases op with
      | alloc => exact h.pmmAllocPage
      | free k =>
          simp only [PreemptState.step, PmmState.step]
          cases s.pmm.outstanding[k]? with
          | none => exact h
          | some ptr => exact h.bitmapUnset _

theorem usedExact_run (h : UsedExact s.pmm.pages) (ops : List PreemptOp) :
    UsedExact (s.run ops).pmm.pages := by
  induction ops generalizing s with
  | nil => exact h
  | cons op ops ih => exact ih (usedExact_step h op)

theorem run_append (s : PreemptState) (ops : List PreemptOp) (op : PreemptOp) :
    s.run (ops ++ [op]) = (s.run ops).step op := by
  simp [run]

/-- As long as every mark finds its page free, the allocator stays in order. -/
theorem Ok.run (h : s.Ok p₀) (ht : p₀.totalMemoryPages.toNat < 2 ^ 20) (h0 : ¬ Free p₀ 0)
    {ops : List PreemptOp} (hops : ∀ pre, pre ++ [.mark] <+: ops → (s.run pre).FoundFree) :
    (s.run ops).Ok p₀ := by
  induction ops using List.reverseRecOn with
  | nil => exact h
  | append_singleton ops op ih =>
      have hprev := ih fun pre hpre => hops pre (hpre.trans (List.prefix_append _ _))
      rw [run_append]
      refine hprev.step ht h0 fun hop => ?_
      subst hop
      exact hops ops (List.prefix_refl _)

/-- Every state of a run is exclusive exactly when every mark finds its page free. -/
theorem Ok.exclusive_iff (h : s.Ok p₀) (hu : UsedExact s.pmm.pages)
    (ht : p₀.totalMemoryPages.toNat < 2 ^ 20) (h0 : ¬ Free p₀ 0) (ops : List PreemptOp) :
    (∀ pre, pre <+: ops → (s.run pre).Exclusive) ↔
      ∀ pre, pre ++ [.mark] <+: ops → (s.run pre).FoundFree := by
  constructor
  · intro hall
    induction ops using List.reverseRecOn with
    | nil =>
        intro pre hpre
        exact absurd (List.prefix_nil.1 hpre) (by simp)
    | append_singleton ops op ih =>
        have hfree := ih fun pre hpre => hall pre (hpre.trans (List.prefix_append _ _))
        intro pre hpre
        rcases List.prefix_concat_iff.1 hpre with heq | hpre
        · obtain ⟨rfl, hop⟩ := List.append_inj' heq rfl
          by_contra hno
          have hbad := (h.run ht h0 hfree).not_distinct_mark ht hno
          rw [← run_append] at hbad
          exact hbad (hall _ hpre).distinct
        · exact hfree pre hpre
  · intro hfree pre hpre
    exact ⟨(h.run ht h0 fun q hq => hfree q (hq.trans hpre)).pmm.nodup, usedExact_run hu pre⟩

end

end PreemptState

open PreemptState in
/-- **Page allocation under preemption.**  In every run after `init_pmm`, pages are held once
and counted right in all states reached exactly when every mark finds its page still free. -/
theorem run_preempted_iff (kernel : KernelImage) (magic : UInt32) (mbi : MultibootInfo)
    (ops : List PreemptOp) :
    (∀ pre, pre <+: ops → ((PreemptState.init kernel magic mbi).run pre).Exclusive) ↔
      ∀ pre, pre ++ [.mark] <+: ops →
        ((PreemptState.init kernel magic mbi).run pre).FoundFree := by
  have htot : (initPmm kernel magic mbi).totalMemoryPages.toNat < 2 ^ 20 := by
    rw [totalMemoryPages_initPmm]
    exact totalPages_lt magic mbi
  have h0 : ¬ Free (initPmm kernel magic mbi) 0 := by
    intro hfree
    have hge := kernel.ge
    have hk := ((free_initPmm kernel magic mbi 0).1 hfree).2.2
    unfold kernelPages at hk
    omega
  exact Ok.exclusive_iff ⟨PmmState.Ok.start _, fun r hr => by cases hr⟩
    (usedExact_initPmm kernel magic mbi) htot h0 ops

theorem free_highMap : Free (initPmm smallKernel MULTIBOOT_BOOTLOADER_MAGIC highMap) 0x200 := by
  refine (free_initPmm _ _ _ _).mpr ⟨by decide, ?_, by decide⟩
  rw [Opened, if_pos (by decide)]
  exact ⟨_, List.mem_cons_self, by decide, by decide⟩

/-- After a search that found something, one whole call hands the page out before the mark. -/
theorem not_distinct_of_found {p : Pages} {i : ℕ} (hfind : findFirstFreePage p = i)
    (hi : i < 2 ^ 20) (h0 : i ≠ 0) :
    ¬ (PreemptState.run ⟨⟨p, []⟩, none⟩ [.find, .call .alloc, .mark]).pmm.outstanding.Nodup := by
  have hne : ¬ ((i : ℤ) = -1) := by omega
  have hptr := PreemptState.pageIdx_ne_zero hi h0
  simp only [PreemptState.run, List.foldl_cons, List.foldl_nil, PreemptState.step, PmmState.step,
    pmmAllocPage, PreemptState.markFound, hfind, hne, hptr, if_false, Int.toNat_natCast]
  simp

/-- The kernel task finds a page, another task takes it whole, and the kernel task marks it. -/
theorem one_page_twice : ¬ ∀ pre,
    pre <+: [PreemptOp.find, .call .alloc, .mark] →
      ((PreemptState.init smallKernel MULTIBOOT_BOOTLOADER_MAGIC highMap).run pre).Exclusive := by
  have htotal := totalMemoryPages_initPmm smallKernel MULTIBOOT_BOOTLOADER_MAGIC highMap
  have hlt : 0x200 / 32 <
      (initPmm smallKernel MULTIBOOT_BOOTLOADER_MAGIC highMap).totalMemoryPages.toNat / 32 := by
    rw [htotal]
    decide
  obtain ⟨i, hi, hfind, hfree⟩ := findFirstFreePage_le free_highMap hlt
  have hlow : 0x200 ≤ i := ((free_initPmm _ _ _ i).1 hfree).2.2
  have hpos : 0 < 0x200 := by norm_num
  have hsmall : 0x200 < 2 ^ 20 := by norm_num
  intro hall
  exact not_distinct_of_found hfind (hi.trans_lt hsmall) (hpos.trans_le hlow).ne'
    (hall _ (List.prefix_refl _)).distinct

end NosmeriOs.Pmm
