import Mathlib.Logic.Relation
import NosmeriOs.PmmAvailable
import NosmeriOs.PmmPreemption

/-! # What the allocator reports (`mm/pmm.cpp`)

`pmm_get_free_pages` and the statistics in KB are computed from the two counters on 32 bits.

* `Marks`: the allocator changes its bitmap by `bitmap_set` and `bitmap_unset` only, from
  `init_pmm` on (`marks_initPmm`, `marks_run`); what both keep holds of every run.
* `run_statistics`: the counter is the number of marked pages, the bits beyond the memory stay
  set, and no statistic wraps. -/

namespace NosmeriOs.Pmm

/-! ### Statistics -/

def pmmGetTotalPages (p : Pages) : UInt32 := p.totalMemoryPages
def pmmGetUsedPages (p : Pages) : UInt32 := p.usedMemoryPages
def pmmGetFreePages (p : Pages) : UInt32 := p.totalMemoryPages - p.usedMemoryPages
def pmmGetTotalMemoryKb (p : Pages) : UInt32 := p.totalMemoryPages * PAGE_SIZE / 1024
def pmmGetUsedMemoryKb (p : Pages) : UInt32 := p.usedMemoryPages * PAGE_SIZE / 1024
def pmmGetFreeMemoryKb (p : Pages) : UInt32 := pmmGetFreePages p * PAGE_SIZE / 1024

/-- Up to 2^20 pages have a size in KB. -/
theorem toNat_kb {n : UInt32} (hn : n.toNat < 2 ^ 20) :
    (n * PAGE_SIZE / 1024).toNat = 4 * n.toNat := by
  have hpage : PAGE_SIZE.toNat = 4096 := rfl
  have hkb : (1024 : UInt32).toNat = 1024 := rfl
  rw [UInt32.toNat_div, UInt32.toNat_mul, hpage, hkb, Nat.mod_eq_of_lt (by omega)]
  omega

/-! ### Marks -/

/-- `p'` comes from `p` by marking and freeing pages. -/
def Marks : Pages → Pages → Prop :=
  Relation.ReflTransGen fun p p' => ∃ k, p' = bitmapSet p k ∨ p' = bitmapUnset p k

namespace Marks

variable {p p' : Pages}

theorem refl (p : Pages) : Marks p p := Relation.ReflTransGen.refl

theorem trans {p'' : Pages} (h : Marks p p') (h' : Marks p' p'') : Marks p p'' :=
  Relation.ReflTransGen.trans h h'

theorem set (p : Pages) (k : UInt32) : Marks p (bitmapSet p k) := .single ⟨k, Or.inl rfl⟩

theorem unset (p : Pages) (k : UInt32) : Marks p (bitmapUnset p k) := .single ⟨k, Or.inr rfl⟩

theorem foldl {α : Type} {f : Pages → α → Pages} (hf : ∀ p a, Marks p (f p a)) (l : List α)
    (p : Pages) : Marks p (l.foldl f p) := by
  induction l generalizing p with
  | nil => exact refl p
  | cons a l ih => exact (hf p a).trans (ih (f p a))

/-- What `bitmap_set` and `bitmap_unset` keep. -/
theorem induction {P : Pages → Prop} (hset : ∀ p k, P p → P (bitmapSet p k))
    (hunset : ∀ p k, P p → P (bitmapUnset p k)) (h : Marks p p') (hp : P p) : P p' := by
  induction h with
  | refl => exact hp
  | tail _ hstep ih =>
      obtain ⟨k, rfl | rfl⟩ := hstep
      · exact hset _ k ih
      · exact hunset _ k ih

theorem region_used (p : Pages) (base length : UInt32) :
    Marks p (pmmMarkRegionUsed p base length) := foldl (fun p _ => set p _) _ p

theorem region_free (p : Pages) (base length : UInt32) :
    Marks p (pmmMarkRegionFree p base length) := foldl (fun p _ => unset p _) _ p

end Marks

/-- All memory is locked, as at the start of `init_pmm`. -/
def locked (total : UInt32) : Pages := ⟨fun _ => 0xFFFFFFFF#32, total, total⟩

theorem marks_initPmm (kernel : KernelImage) (magic : UInt32) (mbi : MultibootInfo) :
    Marks (locked (totalPages magic mbi)) (initPmm kernel magic mbi) := by
  unfold initPmm
  refine Marks.trans ?_ ((Marks.region_used ..).trans (Marks.region_used ..))
  split_ifs
  · refine Marks.foldl (fun p e => ?_) _ _
    split_ifs
    · exact .region_free ..
    · exact .refl p
  · exact .region_free ..

theorem marks_call (p : Pages) (c : PageCall) : Marks p (p.call c) := by
  cases c with
  | alloc =>
      simp only [Pages.call, pmmAllocPage]
      split_ifs
      · exact .refl p
      · exact .set p _
  | free ptr => exact .unset p _

theorem marks_run (p : Pages) (calls : List PageCall) : Marks p (p.run calls) :=
  .foldl marks_call calls p

/-! ### What the statistics say -/

/-- The bits beyond the last page are set. -/
def HighSet (p : Pages) : Prop :=
  ∀ i, p.totalMemoryPages.toNat ≤ i → p.memoryBitmap.test i = true

theorem HighSet.bitmapSet {p : Pages} (h : HighSet p) (k : UInt32) : HighSet (bitmapSet p k) := by
  intro i hi
  rw [totalMemoryPages_bitmapSet] at hi
  unfold Pmm.bitmapSet
  split_ifs
  · simp [Bitmap.test_set, h i hi]
  · exact h i hi
  · exact h i hi

theorem HighSet.bitmapUnset {p : Pages} (h : HighSet p) (k : UInt32) :
    HighSet (bitmapUnset p k) := by
  intro i hi
  rw [totalMemoryPages_bitmapUnset] at hi
  unfold Pmm.bitmapUnset
  split_ifs with hk
  · have hne : k.toNat ≠ i := by
      have := UInt32.lt_iff_toNat_lt.1 hk
      omega
    simp [Bitmap.test_unset, h i hi, hne]
  · exact h i hi
  · exact h i hi

/-- The counters and the statistics agree with the bitmap. -/
structure Reported (p : Pages) : Prop where
  used : (pmmGetUsedPages p).toNat =
    Nat.count (fun i => p.memoryBitmap.test i = true) (pmmGetTotalPages p).toNat
  high : HighSet p
  noUnderflow : (pmmGetUsedPages p).toNat ≤ (pmmGetTotalPages p).toNat
  free : (pmmGetFreePages p).toNat = (pmmGetTotalPages p).toNat - (pmmGetUsedPages p).toNat
  totalKb : (pmmGetTotalMemoryKb p).toNat = 4 * (pmmGetTotalPages p).toNat
  usedKb : (pmmGetUsedMemoryKb p).toNat = 4 * (pmmGetUsedPages p).toNat
  freeKb : (pmmGetFreeMemoryKb p).toNat = 4 * (pmmGetFreePages p).toNat

theorem UsedExact.reported {p : Pages} (h : UsedExact p) (hhigh : HighSet p)
    (ht : p.totalMemoryPages.toNat < 2 ^ 20) : Reported p := by
  have hle : p.usedMemoryPages.toNat ≤ p.totalMemoryPages.toNat := by
    rw [h]
    exact Nat.count_le _
  have hfree : (pmmGetFreePages p).toNat =
      p.totalMemoryPages.toNat - p.usedMemoryPages.toNat :=
    UInt32.toNat_sub_of_le _ _ (UInt32.le_iff_toNat_le.2 hle)
  exact ⟨h, hhigh, hle, hfree, toNat_kb ht, toNat_kb (by omega), toNat_kb (by omega)⟩

/-- **The statistics are right**: after `init_pmm` and any calls of `pmm_alloc_page` and
`pmm_free_page`, whatever pointers are freed. -/
theorem run_statistics (kernel : KernelImage) (magic : UInt32) (mbi : MultibootInfo)
    (calls : List PageCall) : Reported ((initPmm kernel magic mbi).run calls) := by
  have hinit := marks_initPmm kernel magic mbi
  have hrun := marks_run (initPmm kernel magic mbi) calls
  have hhigh : HighSet (locked (totalPages magic mbi)) := fun i _ => Bitmap.test_full i
  apply UsedExact.reported
  · apply hrun.induction (fun _ k h => h.bitmapSet k) (fun _ k h => h.bitmapUnset k)
    exact usedExact_initPmm kernel magic mbi
  · apply (hinit.trans hrun).induction (fun _ k h => h.bitmapSet k) (fun _ k h => h.bitmapUnset k)
    exact hhigh
  · rw [Pages.totalMemoryPages_run, totalMemoryPages_initPmm]
    exact totalPages_lt magic mbi

end NosmeriOs.Pmm
