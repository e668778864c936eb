import NosmeriOs.FrameBytes
import NosmeriOs.VmmWalk

/-! # Who may use a page

The walks from any directory, whether it is loaded or not, in the slots below 3 GB.

* `walkFrom m d v`: the frame behind page `v` and the flags that the entries on the way have in
  common.
* `UserOnly m d`: whatever the directory in frame `d` maps there is for the user to read and write,
  so that its walks lead where those of user mode do (`UserOnly.walkFrom`).
* `Confined img e m ρ m'`: from `m` to `m'` the space of one directory has changed only, so that
  the walks from all others are the same (`Confined.walkFrom`). -/

namespace NosmeriOs.Vmm

open Pmm Ledgers

/-! ### Entries for the user -/

/-- If the entry is present, its flags are those of a user's page or table. -/
def ForUser (e : UInt32) : Prop :=
  present e = true → e &&& 0xFFF = PAGE_USER ||| PAGE_RW ||| PAGE_PRESENT

theorem forUser_zero : ForUser 0 := by
  intro hp
  rw [present_zero] at hp
  cases hp

theorem forUser_tableEntry {f : ℕ} (hf : f < 2 ^ 20) : ForUser (tableEntry f) :=
  fun _ => and_flags (toNat_tableEntry hf) (by decide)

theorem forUser_pageEntry {f : ℕ} (hf : f < 2 ^ 20) :
    ForUser (pageEntry (frameAddr f) (PAGE_USER ||| PAGE_RW ||| PAGE_PRESENT)) :=
  fun _ => and_flags (toNat_pageEntry hf (by decide)) (by decide)

theorem ForUser.user {e : UInt32} (h : ForUser e) (hp : present e = true) : user e = true := by
  have hmask : e &&& PAGE_USER = (e &&& 0xFFF) &&& PAGE_USER := by
    rw [UInt32.and_assoc]
    rfl
  unfold Vmm.user
  rw [hmask, h hp]
  rfl

/-- The flags that two such entries have in common. -/
theorem ForUser.and {e e' : UInt32} (h : ForUser e) (h' : ForUser e') (hp : present e = true)
    (hp' : present e' = true) :
    e &&& (e' &&& 0xFFF) = PAGE_USER ||| PAGE_RW ||| PAGE_PRESENT := by
  have hmask : e &&& (PAGE_USER ||| PAGE_RW ||| PAGE_PRESENT) =
      (e &&& 0xFFF) &&& (PAGE_USER ||| PAGE_RW ||| PAGE_PRESENT) := by
    rw [UInt32.and_assoc]
    rfl
  rw [h' hp', hmask, h hp]
  rfl

/-! ### Walks -/

/-- The walk from the directory in frame `d` to page `v`: its frame, and the flags that both
entries have. -/
def walkFrom (m : Machine) (d v : ℕ) : Option (ℕ × UInt32) :=
  let pde := m.frames d (v / 1024)
  if present pde then (leaf (m.frames (frameOf pde) (v % 1024))).map fun r => (r.1, pde &&& r.2)
  else none

structure UserOnly (m : Machine) (d : ℕ) : Prop where
  slots : ∀ i, 0 < i → i < 768 → ForUser (m.frames d i)
  entries : ∀ i, 0 < i → i < 768 → present (m.frames d i) = true → ∀ j < 1024,
    ForUser (m.frames (frameOf (m.frames d i)) j)

structure Confined (img : Image) (e : ℕ) (m : Machine) (ρ : Ledger ℕ Use) (m' : Machine) :
    Prop where
  slots : ∀ d, IsDirectory img ρ d → d ≠ e → ∀ i < 768, m'.frames d i = m.frames d i
  tables : ∀ d i g, ρ g = some (.table d i) → i < 768 → d ≠ e → m'.frames g = m.frames g

variable {img : Image} {m m' m'' : Machine} {ρ ρ' : Ledger ℕ Use} {d e f v : ℕ}

/-- The walks of a space for the user. -/
theorem UserOnly.walkFrom (hu : UserOnly m d) (h1 : 1024 ≤ v) (h2 : v < 768 * 1024) :
    walkFrom m d v =
      (userFrame m d v).map fun f => (f, PAGE_USER ||| PAGE_RW ||| PAGE_PRESENT) := by
  unfold Vmm.walkFrom userFrame leaf
  dsimp only
  by_cases hp : present (m.frames d (v / 1024)) = true
  · have hpde := hu.slots (v / 1024) (by omega) (by omega)
    have hpte := hu.entries _ (by omega) (by omega) hp (v % 1024) (by omega)
    by_cases hp' : present (m.frames (frameOf (m.frames d (v / 1024))) (v % 1024)) = true
    · simp [hp, hp', hpde.user hp, hpte.user hp', hpde.and hpte hp hp']
    · simp [hp, hp']
  · simp [hp]

namespace Confined

theorem refl (img : Image) (e : ℕ) (m : Machine) (ρ : Ledger ℕ Use) : Confined img e m ρ m :=
  ⟨fun _ _ _ _ _ => rfl, fun _ _ _ _ _ _ => rfl⟩

/-- Nothing was written. -/
theorem of_frames (hframes : m'.frames = m.frames) : Confined img e m ρ m' :=
  ⟨fun _ _ _ _ _ => by rw [hframes], fun _ _ _ _ _ _ => by rw [hframes]⟩

theorem trans (h : Confined img e m ρ m') (h' : Confined img e m' ρ' m'')
    (hkeep : ∀ f u, ρ f = some u → u ≠ .reserved → ρ' f = some u) : Confined img e m ρ m'' := by
  refine ⟨fun d hd hne i hi => ?_, fun d i g hg hi hne => ?_⟩
  · have hd' : IsDirectory img ρ' d := hd.imp_right fun hu => hkeep d _ hu (by simp)
    rw [h'.slots d hd' hne i hi, h.slots d hd hne i hi]
  · rw [h'.tables d i g (hkeep g _ hg (by simp)) hi hne, h.tables d i g hg hi hne]

/-- Only pages were written. -/
theorem of_leaves (hl : Layout img m ρ) (hframes : ∀ g, ¬ Leaf ρ g → m'.frames g = m.frames g) :
    Confined img e m ρ m' := by
  refine ⟨fun d hd _ i _ => ?_, fun d i g hg _ _ => ?_⟩
  · rw [hframes d fun hf => hf.ne_directory hl hd rfl]
  · exact hframes g fun hf => hf.ne_table hg rfl rfl

/-- Only a frame that was free has been written. -/
theorem of_free (hl : Layout img m ρ) (hf : IsFree img m f)
    (hframes : ∀ g, g ≠ f → m'.frames g = m.frames g) : Confined img e m ρ m' := by
  refine ⟨fun d hd _ i _ => ?_, fun d i g hg _ _ => ?_⟩
  · rw [hframes d (hl.ne_free hf hd)]
  · exact hframes g (hl.sound.ne hf.free hg)

section outside
variable (h : Confined img e m ρ m') (hl : Layout img m ρ) (hd : IsDirectory img ρ d) (hne : d ≠ e)
include h hl hd hne

/-- The table of a slot of another directory. -/
theorem table {i : ℕ} (h0 : 0 < i) (hi : i < 768) (hp : present (m.frames d i) = true) :
    m'.frames (frameOf (m.frames d i)) = m.frames (frameOf (m.frames d i)) :=
  h.tables d i _ (Maps.table hl hd h0 hi hp) hi hne

/-- The walks from another directory are the same. -/
theorem walkFrom (h1 : 1024 ≤ v) (h2 : v < 768 * 1024) :
    walkFrom m' d v = walkFrom m d v := by
  unfold Vmm.walkFrom
  dsimp only
  rw [h.slots d hd hne (v / 1024) (by omega)]
  by_cases hp : present (m.frames d (v / 1024)) = true
  · rw [h.table hl hd hne (by omega) (by omega) hp]
  · rw [if_neg hp, if_neg hp]

theorem userOnly (hu : UserOnly m d) : UserOnly m' d := by
  refine ⟨fun i h0 hi => ?_, fun i h0 hi hp j hj => ?_⟩
  · rw [h.slots d hd hne i hi]
    exact hu.slots i h0 hi
  · rw [h.slots d hd hne i hi] at hp ⊢
    rw [h.table hl hd hne h0 hi hp]
    exact hu.entries i h0 hi hp j hj

end outside

end Confined

namespace Layout

/-- `vmm_map_page` writes to the space that is loaded, or to the heap. -/
theorem mapPage_confined (h : Layout img m ρ) (hc : IsDirectory img ρ (frameOf m.cr3))
    {virtAddr physAddr flags : UInt32} (h0 : 0 < pdIdx virtAddr) (h1023 : pdIdx virtAddr < 1023)
    (hm : vmmMapPage img m virtAddr physAddr flags = some m') (ho : m'.outOfMemory = false)
    (he : frameOf m.cr3 = e ∨ 768 ≤ pdIdx virtAddr) : Confined img e m ρ m' := by
  have hother : ∀ {d i}, IsDirectory img ρ d → d ≠ e → i < 768 →
      m'.frames d i = m.frames d i ∧ ∀ g, ρ g = some (.table d i) → m'.frames g = m.frames g := by
    intro d i hd hne hi
    apply h.mapPage_other hc h0 h1023 hm ho hd hi
    obtain rfl | hheap := he
    · exact Or.inl hne
    · exact Or.inr (by omega)
  refine ⟨fun d hd hne i hi => (hother hd hne hi).1, fun d i g hg hi hne => ?_⟩
  exact (hother (h.owned g _ d hg rfl) hne hi).2 g hg

/-- A page for the user is mapped in the space that is loaded. -/
theorem mapPage_userOnly (h : Layout img m ρ) (hd : IsDirectory img ρ (frameOf m.cr3))
    {virtAddr : UInt32} (h0 : 0 < pdIdx virtAddr) (hi : pdIdx virtAddr < 768) (hlt : f < 2 ^ 20)
    (hm : vmmMapPage img m virtAddr (frameAddr f) (PAGE_USER ||| PAGE_RW ||| PAGE_PRESENT) =
      some m') (ho : m'.outOfMemory = false) (hu : UserOnly m (frameOf m.cr3)) :
    UserOnly m' (frameOf m.cr3) := by
  have hother : ∀ {i}, 0 < i → i < 768 → i ≠ pdIdx virtAddr →
      m'.frames (frameOf m.cr3) i = m.frames (frameOf m.cr3) i ∧
        ∀ g, ρ g = some (.table (frameOf m.cr3) i) → m'.frames g = m.frames g :=
    fun _ h2 hne => h.mapPage_other hd h0 (by omega) hm ho hd h2 (Or.inr hne)
  -- the slot of the page, and its table
  obtain ⟨hslot, htable⟩ : ForUser (m'.frames (frameOf m.cr3) (pdIdx virtAddr)) ∧
      ∀ j < 1024, ForUser (m'.frames (frameOf (m'.frames (frameOf m.cr3) (pdIdx virtAddr))) j) := by
    obtain ⟨hp, rfl⟩ | ⟨hp, g, hg, -, hframes⟩ := h.mapPage_cases hd hm ho
    · have ht := Maps.table h hd h0 hi hp
      have hdir : (m.setWord (frameOf (m.pde (pdIdx virtAddr))) (ptIdx virtAddr)
          (pageEntry (frameAddr f) (PAGE_USER ||| PAGE_RW ||| PAGE_PRESENT))).frames (frameOf m.cr3)
            (pdIdx virtAddr) = m.frames (frameOf m.cr3) (pdIdx virtAddr) := by
        rw [Machine.frames_setWord, if_neg]
        exact fun e => h.ne_directory ht (by simp) hd e.1.symm
      rw [hdir]
      refine ⟨hu.slots _ h0 hi, fun j hj => ?_⟩
      rw [Machine.frames_setWord]
      split_ifs
      · exact forUser_pageEntry hlt
      · exact hu.entries _ h0 hi hp j hj
    · have hnew : m'.frames (frameOf m.cr3) (pdIdx virtAddr) = tableEntry g := by
        rw [hframes, if_neg (h.ne_free hg hd), if_pos ⟨rfl, Or.inl rfl⟩]
      rw [hnew, frameOf_tableEntry hg.lt]
      refine ⟨forUser_tableEntry hg.lt, fun j _ => ?_⟩
      rw [hframes, if_pos rfl]
      split_ifs
      · exact forUser_pageEntry hlt
      · exact forUser_zero
  refine ⟨fun i hi0 hi' => ?_, fun i hi0 hi' hp j hj => ?_⟩
  · by_cases hs : i = pdIdx virtAddr
    · rw [hs]
      exact hslot
    · rw [(hother hi0 hi' hs).1]
      exact hu.slots i hi0 hi'
  · by_cases hs : i = pdIdx virtAddr
    · rw [hs]
      exact htable j hj
    · obtain ⟨hsame, hold⟩ := hother hi0 hi' hs
      rw [hsame] at hp ⊢
      rw [hold _ (Maps.table h hd hi0 hi' hp)]
      exact hu.entries i hi0 hi' hp j hj

/-- A new directory has no entries for the user. -/
theorem createPageDirectory_userOnly (h : Layout img m ρ) (hd : IsDirectory img ρ (frameOf m.cr3))
    (hf : f < 2 ^ 20) (hc : vmmCreatePageDirectory img m = some (frameAddr f, m'))
    (h0 : frameAddr f ≠ 0) (hlow : frameAddr f < 0x400000) :
    Confined img e m ρ m' ∧ UserOnly m' f := by
  obtain ⟨f', he, hfree, rfl⟩ := h.createPageDirectory_cases hd hc h0 hlow
  obtain rfl : f = f' := by
    rw [← frameOf_frameAddr hf, he, frameOf_frameAddr hfree.lt]
  refine ⟨.of_free h hfree fun g hg => ?_, fun i hi0 hi => ?_, fun i hi0 hi hp => ?_⟩
  · rw [Machine.frames_setFrame, if_neg hg]
    rfl
  · rw [slot_directoryFrame hi0 hi]
    exact forUser_zero
  · rw [slot_directoryFrame hi0 hi, present_zero] at hp
    cases hp

end Layout

end NosmeriOs.Vmm
