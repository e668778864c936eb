import NosmeriOs.FrameUse

/-! # What stays in the page frames

The functions of `vmm.cpp` write to directories and to tables only.

* `Carries m ρ m' ρ'`: a frame that is free in the end, or was used for a page before, has its
  old contents.
* `Maps m d P`: what user mode can access through the slots 1 to 767 of the directory in frame
  `d` are the pages `v` with `P v = some f`, and page `v` is in frame `f` then.
* `Layout.mapPage_user`, `Layout.mapPage_heap` and `Layout.createPageDirectory_maps` say what
  `vmm_map_page` and `vmm_create_page_directory` do to both. -/

namespace NosmeriOs.Vmm

open Pmm Ledgers

/-- The frame is used for a page, or will be. -/
def Leaf (ρ : Ledger ℕ Use) (f : ℕ) : Prop := ∃ u, ρ f = some u ∧ u.entries = none ∧ u ≠ .directory

structure Carries (m : Machine) (ρ : Ledger ℕ Use) (m' : Machine) (ρ' : Ledger ℕ Use) : Prop where
  free : freeFrames m' ⊆ freeFrames m
  leaf : ∀ f, Leaf ρ f → Leaf ρ' f
  frames : ∀ f, f ∈ freeFrames m' ∨ Leaf ρ f → m'.frames f = m.frames f

/-- The frame behind page `v` of the directory in frame `d`, if user mode can access it. -/
def userFrame (m : Machine) (d v : ℕ) : Option ℕ :=
  let pde := m.frames d (v / 1024)
  let pte := m.frames (frameOf pde) (v % 1024)
  if present pde && user pde && (present pte && user pte) then some (frameOf pte) else none

structure Maps (m : Machine) (d : ℕ) (P : ℕ → Option ℕ) : Prop where
  user : ∀ i, 0 < i → i < 768 → present (m.frames d i) = true → user (m.frames d i) = true
  pages : ∀ v, 1024 ≤ v → v < 768 * 1024 → userFrame m d v = P v

variable {img : Image} {m m' m'' : Machine} {ρ ρ' ρ'' : Ledger ℕ Use} {d f : ℕ} {P : ℕ → Option ℕ}

/-! ### Contents -/

namespace Leaf

theorem not_free (h : Leaf ρ f) (hl : Layout img m ρ) : f ∉ freeFrames m := by
  obtain ⟨u, hu, -⟩ := h
  exact hl.sound f u hu

theorem ne_directory (h : Leaf ρ f) (hl : Layout img m ρ) (hd : IsDirectory img ρ d) : f ≠ d := by
  obtain ⟨u, hu, -, hne⟩ := h
  exact hl.ne_directory hu hne hd

theorem ne_table (h : Leaf ρ f) {g : ℕ} {u v : Use} (hg : ρ g = some u) (hv : u.entries = some v) :
    f ≠ g := by
  rintro rfl
  obtain ⟨u', hu, hnone, -⟩ := h
  rw [hg] at hu
  cases hu
  rw [hv] at hnone
  cases hnone

theorem of_page (h : ρ f = some (.page d)) : Leaf ρ f := ⟨_, h, rfl, by simp⟩

theorem of_reserved (h : ρ f = some .reserved) : Leaf ρ f := ⟨_, h, rfl, by simp⟩

theorem extends' {Q : Use → Prop} {F F' : Set ℕ} (h : Leaf ρ f) (he : Extends Q F F' ρ ρ')
    (hs : Sound F ρ) : Leaf ρ' f := by
  obtain ⟨u, hu, hrest⟩ := h
  exact ⟨u, he.of_some hs hu, hrest⟩

end Leaf

namespace Carries

theorem refl (m : Machine) (ρ : Ledger ℕ Use) : Carries m ρ m ρ :=
  ⟨subset_rfl, fun _ h => h, fun _ _ => rfl⟩

theorem trans (h : Carries m ρ m' ρ') (h' : Carries m' ρ' m'' ρ'') : Carries m ρ m'' ρ'' := by
  refine ⟨h'.free.trans h.free, fun f hf => h'.leaf f (h.leaf f hf), fun f hf => ?_⟩
  rw [h'.frames f (hf.imp_right (h.leaf f)), h.frames f (hf.imp_left fun e => h'.free e)]

/-- Nothing was written. -/
theorem of_frames (hfree : freeFrames m' ⊆ freeFrames m) (hleaf : ∀ f, Leaf ρ f → Leaf ρ' f)
    (hframes : m'.frames = m.frames) : Carries m ρ m' ρ' :=
  ⟨hfree, hleaf, fun _ _ => by rw [hframes]⟩

/-- A free frame is to be used for a page. -/
theorem of_give {u : Use} (hfree : freeFrames m' ⊆ freeFrames m) (hu : u.entries = none)
    (hd : u ≠ .directory) (hframes : m'.frames = m.frames) : Carries m ρ m' (ρ.give f u) := by
  refine .of_frames hfree (fun g hg => ?_) hframes
  by_cases he : g = f
  · rw [he]
    exact ⟨u, Ledger.give_self .., hu, hd⟩
  · obtain ⟨v, hv, hrest⟩ := hg
    exact ⟨v, by rw [Ledger.give_of_ne _ he, hv], hrest⟩

theorem of_extends {Q : Use → Prop} (hl : Layout img m ρ)
    (he : Extends Q (freeFrames m) (freeFrames m') ρ ρ')
    (hframes : ∀ f, f ∈ freeFrames m' ∨ Leaf ρ f → m'.frames f = m.frames f) :
    Carries m ρ m' ρ' :=
  ⟨he.free, fun _ hf => hf.extends' he hl.sound, hframes⟩

end Carries

/-! ### Mapped pages -/

theorem present_pageEntry (hf : f < 2 ^ 20) {flags : UInt32} (hw : flags.toNat < 4096) :
    present (pageEntry (frameAddr f) flags) = present flags := by
  rw [Bool.eq_iff_iff, present_iff, present_iff, toNat_pageEntry hf hw]
  omega

/-- Equal entries map to equal frames. -/
theorem userFrame_congr {v : ℕ} (hpde : m'.frames d (v / 1024) = m.frames d (v / 1024))
    (hpte : present (m.frames d (v / 1024)) = true →
      m'.frames (frameOf (m.frames d (v / 1024))) (v % 1024) =
        m.frames (frameOf (m.frames d (v / 1024))) (v % 1024)) :
    userFrame m' d v = userFrame m d v := by
  cases hp : present (m.frames d (v / 1024)) with
  | false => simp [userFrame, hpde, hp]
  | true => simp only [userFrame, hpde, hpte hp]

/-- An entry for the user. -/
theorem userFrame_of_entry {v : ℕ} {flags : UInt32} (hf : f < 2 ^ 20) (hw : flags.toNat < 4096)
    (hp : present flags = true) (hu : user flags = true)
    (hpde : present (m.frames d (v / 1024)) = true ∧ user (m.frames d (v / 1024)) = true)
    (hpte : m.frames (frameOf (m.frames d (v / 1024))) (v % 1024) = pageEntry (frameAddr f) flags) :
    userFrame m d v = some f := by
  simp [userFrame, hpde, hpte, present_pageEntry hf hw, user_pageEntry hf hw, hp, hu,
    frameOf_pageEntry hf hw]

theorem userFrame_of_absent {v : ℕ} (h : present (m.frames d (v / 1024)) = false) :
    userFrame m d v = none := by
  simp [userFrame, h]

namespace Maps

/-- The table of a slot, which is one of the directory's own. -/
theorem table (hl : Layout img m ρ) (hd : IsDirectory img ρ d) {i : ℕ} (h0 : 0 < i) (hi : i < 768)
    (hp : present (m.frames d i) = true) : ρ (frameOf (m.frames d i)) = some (.table d i) := by
  rw [hl.table d hd i h0 (by omega) hp]
  unfold tableUse
  rw [if_pos hi]

theorem congr (h : Maps m d P) (hl : Layout img m ρ) (hd : IsDirectory img ρ d)
    (hdir : ∀ i, 0 < i → i < 768 → m'.frames d i = m.frames d i)
    (htable : ∀ i g, i < 768 → ρ g = some (.table d i) → m'.frames g = m.frames g) :
    Maps m' d P := by
  refine ⟨fun i h0 hi hp => ?_, fun v h1 h2 => ?_⟩
  · rw [hdir i h0 hi] at hp ⊢
    exact h.user i h0 hi hp
  · rw [← h.pages v h1 h2]
    refine userFrame_congr (hdir _ (by omega) (by omega)) fun hp => ?_
    rw [htable _ _ (by omega) (table hl hd (by omega) (by omega) hp)]

/-- Only pages were written. -/
theorem carries (h : Maps m d P) (hl : Layout img m ρ) (hd : IsDirectory img ρ d)
    (hframes : ∀ g, ¬ Leaf ρ g → m'.frames g = m.frames g) : Maps m' d P := by
  refine h.congr hl hd (fun i _ _ => ?_) fun i g _ hg => ?_
  · rw [hframes d fun hf => hf.ne_directory hl hd rfl]
  · exact hframes g fun hf => hf.ne_table hg rfl rfl

theorem of_frames (h : Maps m d P) (hframes : m'.frames = m.frames) : Maps m' d P := by
  obtain ⟨h1, h2⟩ := h
  unfold userFrame at h2
  rw [← hframes] at h1 h2
  exact ⟨h1, h2⟩

end Maps

namespace Layout

/-! ### `vmm_map_page` -/

/-- Pages and free frames are left alone. -/
theorem mapPage_carries (h : Layout img m ρ) (hd : IsDirectory img ρ (frameOf m.cr3))
    {virtAddr physAddr flags : UInt32} (h0 : 0 < pdIdx virtAddr) (hi : pdIdx virtAddr < 1023)
    (hm : vmmMapPage img m virtAddr physAddr flags = some m') (ho : m'.outOfMemory = false)
    {Q : Use → Prop} (he : Extends Q (freeFrames m) (freeFrames m') ρ ρ') : Carries m ρ m' ρ' := by
  refine .of_extends h he fun f hf => ?_
  obtain ⟨hp, rfl⟩ | ⟨hp, g, hg, hpages, hframes⟩ := h.mapPage_cases hd hm ho
  · -- the entry goes to a table
    have ht := h.table _ hd _ h0 hi hp
    have hne : f ≠ frameOf (m.pde (pdIdx virtAddr)) := by
      obtain hf | hf := hf
      · exact (h.sound.ne (show f ∈ freeFrames m from hf) ht).symm
      · exact hf.ne_table ht (entries_tableUse ..)
    funext j
    rw [Machine.frames_setWord, if_neg (fun e => hne e.1)]
  · have hfg : f ≠ g := by
      obtain hf | hf := hf
      · unfold freeFrames at hf
        rw [Set.mem_ofPred_eq, hpages] at hf
        exact ((Machine.free_take hg.lt f).1 hf).2
      · obtain ⟨u, hu, -⟩ := hf
        exact h.sound.ne hg.free hu
    have hfd : ∀ d, IsDirectory img ρ d → f ≠ d := by
      intro d hd
      obtain hf | hf := hf
      · have hf' := h.pages.isFree (he.free hf)
        obtain rfl | hd := hd
        · exact hf'.ne_directory
        · exact (h.sound.ne hf'.free hd).symm
      · exact hf.ne_directory h hd
    funext j
    rw [hframes, if_neg hfg, if_neg]
    rintro ⟨-, rfl | ⟨-, rfl⟩⟩
    · exact hfd _ hd rfl
    · exact hfd _ (Or.inl rfl) rfl

/-- Only one slot of one directory changes below 3 GB, and only its table. -/
theorem mapPage_other (h : Layout img m ρ) (hc : IsDirectory img ρ (frameOf m.cr3))
    {virtAddr physAddr flags : UInt32} (h0 : 0 < pdIdx virtAddr) (h1023 : pdIdx virtAddr < 1023)
    (hm : vmmMapPage img m virtAddr physAddr flags = some m') (ho : m'.outOfMemory = false)
    (hd : IsDirectory img ρ d) {i : ℕ} (hi : i < 768) (hne : d ≠ frameOf m.cr3 ∨ i ≠ pdIdx virtAddr) :
    m'.frames d i = m.frames d i ∧ ∀ g, ρ g = some (.table d i) → m'.frames g = m.frames g := by
  obtain ⟨hp, rfl⟩ | ⟨hp, f, hf, hpages, hframes⟩ := h.mapPage_cases hc hm ho
  · -- the entry goes to the table of the slot
    have ht := h.table _ hc _ h0 h1023 hp
    refine ⟨?_, fun g hg => ?_⟩
    · rw [Machine.frames_setWord, if_neg]
      rintro ⟨rfl, -⟩
      exact h.ne_directory ht (tableUse_ne_directory _ _) hd rfl
    · funext j
      rw [Machine.frames_setWord, if_neg]
      rintro ⟨rfl, -⟩
      obtain ⟨he1, he2⟩ := tableUse_eq_table (Option.some.inj (ht.symm.trans hg))
      exact hne.elim (fun hne => hne he1.symm) fun hne => hne he2.symm
  · have hfd : ∀ {e}, IsDirectory img ρ e → e ≠ f := h.ne_free hf
    refine ⟨?_, fun g hg => ?_⟩
    · rw [hframes, if_neg (hfd hd), if_neg]
      rintro ⟨rfl, rfl | ⟨hheap, rfl⟩⟩
      · exact hne.elim (fun hne => hne rfl) fun hne => hne rfl
      · omega
    · have hdir : ∀ e, IsDirectory img ρ e → g ≠ e := fun e he => h.ne_directory hg (by simp) he
      funext j
      rw [hframes, if_neg (h.sound.ne hf.free hg), if_neg]
      rintro ⟨-, rfl | ⟨-, rfl⟩⟩
      · exact hdir _ hc rfl
      · exact hdir _ (Or.inl rfl) rfl

/-- A page is mapped for the user. -/
theorem mapPage_user (h : Layout img m ρ) (hd : IsDirectory img ρ (frameOf m.cr3))
    {virtAddr flags : UInt32} (h0 : 0 < pdIdx virtAddr) (hi : pdIdx virtAddr < 768)
    (hlt : f < 2 ^ 20) (hw : flags.toNat < 4096) (hp : present flags = true)
    (hu : user flags = true)
    (hm : vmmMapPage img m virtAddr (frameAddr f) flags = some m') (ho : m'.outOfMemory = false)
    (hP : Maps m (frameOf m.cr3) P) :
    Maps m' (frameOf m.cr3) (Function.update P (virtAddr.toNat / 4096) (some f)) := by
  have hslot : virtAddr.toNat / 4096 / 1024 = pdIdx virtAddr := by
    unfold pdIdx
    omega
  have hentry : virtAddr.toNat / 4096 % 1024 = ptIdx virtAddr := rfl
  have hother : ∀ i, 0 < i → i < 768 → i ≠ pdIdx virtAddr →
      m'.frames (frameOf m.cr3) i = m.frames (frameOf m.cr3) i ∧
        ∀ g, ρ g = some (.table (frameOf m.cr3) i) → m'.frames g = m.frames g :=
    fun i _ h2 hne => h.mapPage_other hd h0 (by omega) hm ho hd h2 (Or.inr hne)
  -- the slot of the page is for the user now, and its table has the entry beside the old ones
  obtain ⟨hpde, hpte, hold⟩ : (present (m'.frames (frameOf m.cr3) (pdIdx virtAddr)) = true ∧
      user (m'.frames (frameOf m.cr3) (pdIdx virtAddr)) = true) ∧
      m'.frames (frameOf (m'.frames (frameOf m.cr3) (pdIdx virtAddr))) (ptIdx virtAddr) =
        pageEntry (frameAddr f) flags ∧
      ∀ v, v / 1024 = pdIdx virtAddr → v % 1024 ≠ ptIdx virtAddr →
        userFrame m' (frameOf m.cr3) v = userFrame m (frameOf m.cr3) v := by
    obtain ⟨hpd, rfl⟩ | ⟨hpd, g, hg, hpages, hframes⟩ := h.mapPage_cases hd hm ho
    · have ht := Maps.table h hd h0 hi hpd
      have hdir : ∀ i, (m.setWord (frameOf (m.pde (pdIdx virtAddr))) (ptIdx virtAddr)
          (pageEntry (frameAddr f) flags)).frames (frameOf m.cr3) i =
            m.frames (frameOf m.cr3) i := by
        intro i
        rw [Machine.frames_setWord, if_neg]
        exact fun e => h.ne_directory ht (by simp) hd e.1.symm
      refine ⟨?_, ?_, fun v hv hj => userFrame_congr (hdir _) fun _ => ?_⟩
      · rw [hdir]
        exact ⟨hpd, hP.user _ h0 hi hpd⟩
      · rw [hdir, Machine.frames_setWord, if_pos ⟨rfl, rfl⟩]
      · rw [Machine.frames_setWord, if_neg fun e => hj e.2]
    · have hnew : m'.frames (frameOf m.cr3) (pdIdx virtAddr) = tableEntry g := by
        rw [hframes, if_neg (h.ne_free hg hd), if_pos ⟨rfl, Or.inl rfl⟩]
      refine ⟨?_, ?_, fun v hv hj => ?_⟩
      · rw [hnew]
        exact ⟨present_tableEntry hg.lt, user_tableEntry hg.lt⟩
      · rw [hnew, frameOf_tableEntry hg.lt, hframes, if_pos rfl, if_pos rfl]
      · rw [userFrame_of_absent (m := m) (by rw [hv]; exact hpd)]
        simp [userFrame, hv, hnew, frameOf_tableEntry hg.lt, hframes, hj, present_zero]
  refine ⟨fun i hi0 hi' hp' => ?_, fun v h1 h2 => ?_⟩
  · by_cases hs : i = pdIdx virtAddr
    · rw [hs]
      exact hpde.2
    · rw [(hother i hi0 hi' hs).1] at hp' ⊢
      exact hP.user i hi0 hi' hp'
  · by_cases hv : v = virtAddr.toNat / 4096
    · subst hv
      rw [Function.update_self]
      refine userFrame_of_entry hlt hw hp hu ?_ ?_
      · rw [hslot]
        exact hpde
      · rw [hslot, hentry]
        exact hpte
    · rw [Function.update_of_ne hv, ← hP.pages v h1 h2]
      by_cases hs : v / 1024 = pdIdx virtAddr
      · exact hold v hs (by omega)
      · obtain ⟨hsame, htable⟩ := hother (v / 1024) (by omega) (by omega) hs
        refine userFrame_congr hsame fun hpv => ?_
        rw [htable _ (Maps.table h hd (by omega) (by omega) hpv)]

/-- A page of the heap is mapped. -/
theorem mapPage_heap (h : Layout img m ρ) (hc : IsDirectory img ρ (frameOf m.cr3))
    {virtAddr physAddr flags : UInt32} (hlo : 768 ≤ pdIdx virtAddr) (hi : pdIdx virtAddr < 1023)
    (hm : vmmMapPage img m virtAddr physAddr flags = some m') (ho : m'.outOfMemory = false)
    (hd : IsDirectory img ρ d) (hP : Maps m d P) : Maps m' d P := by
  have hother : ∀ i < 768, m'.frames d i = m.frames d i ∧
      ∀ g, ρ g = some (.table d i) → m'.frames g = m.frames g :=
    fun i hi' => h.mapPage_other hc (by omega) hi hm ho hd hi' (Or.inr (by omega))
  refine hP.congr h hd (fun i _ h768 => (hother i h768).1) fun i g h768 hg => ?_
  exact (hother i h768).2 g hg

/-! ### `vmm_create_page_directory` -/

/-- The slots of the user are empty. -/
theorem slot_directoryFrame {i : ℕ} (hi0 : 0 < i) (hi : i < 768) :
    ((m.take f).setFrame f (directoryFrame img (m.take f) f)).frames f i = 0 := by
  rw [Machine.frames_setFrame, if_pos rfl]
  unfold directoryFrame newDirectory
  rw [if_pos (by omega), if_neg (by omega), if_neg (by omega), if_neg fun e => by omega]

/-- A new directory has no page of the user's, and no other frame was written. -/
theorem createPageDirectory_maps (h : Layout img m ρ) (hd : IsDirectory img ρ (frameOf m.cr3))
    (hf : f < 2 ^ 20) (hc : vmmCreatePageDirectory img m = some (frameAddr f, m'))
    (h0 : frameAddr f ≠ 0) (hlow : frameAddr f < 0x400000) :
    Maps m' f (fun _ => none) ∧ ∀ g, g ≠ f → m'.frames g = m.frames g := by
  obtain ⟨f', he, hfree, rfl⟩ := h.createPageDirectory_cases hd hc h0 hlow
  obtain rfl : f = f' := by
    rw [← frameOf_frameAddr hf, he, frameOf_frameAddr hfree.lt]
  refine ⟨⟨fun i hi0 hi hp => ?_, fun v h1 h2 => ?_⟩, fun g hg => ?_⟩
  · rw [slot_directoryFrame hi0 hi, present_zero] at hp
    cases hp
  · apply userFrame_of_absent
    rw [slot_directoryFrame (by omega) (by omega), present_zero]
  · rw [Machine.frames_setFrame, if_neg hg]
    rfl

theorem createPageDirectory_carries (h : Layout img m ρ)
    (h' : Layout img m' (ρ.give f .directory)) {Q : Use → Prop}
    (he : Extends Q (freeFrames m) (freeFrames m') ρ (ρ.give f .directory)) (hf : f ∈ freeFrames m)
    (hframes : ∀ g, g ≠ f → m'.frames g = m.frames g) :
    Carries m ρ m' (ρ.give f .directory) := by
  refine .of_extends h he fun g hg => hframes g ?_
  rintro rfl
  obtain hg | hg := hg
  · exact h'.sound g _ (Ledger.give_self ..) hg
  · exact hg.not_free h hf

end Layout

end NosmeriOs.Vmm
