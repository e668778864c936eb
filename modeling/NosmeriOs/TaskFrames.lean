import NosmeriOs.FrameRights
import NosmeriOs.TaskContext

/-! # The page frames of tasks

What the creation of tasks does to a machine that is laid out as a ledger says.

* `Grown`, `NewSpace` and `CodeMapped`: the machine after pages for the heap, after the creation of
  a user task, and with the pages of a program mapped.
* `Grows.layout`, `Aborted.layout`, `Spawned.newSpace` and `Loaded.layout`: creation makes entries
  for the frames it takes (`Gains`), as long as no call of `pmm_alloc_page` returns `0` and no
  directory is put at 4 MB or above.  Only the new space changes below 3 GB (`Confined`). -/

namespace NosmeriOs.Tasks

open Vmm Vfs Heap Ledgers

variable {img : Image} {m m' : Machine} {ρ : Ledger ℕ Use}

/-! ### The heap -/

/-- The uses that the heap has for frames. -/
def HeapUse (u : Use) : Prop := u = .heapTable ∨ u = .heapPage

theorem toNat_heapAddr {addr : ℕ} (h1 : HEAP_START ≤ addr) (h2 : addr < HEAP_MAX_ADDR) :
    768 ≤ pdIdx (UInt32.ofNat addr) ∧ pdIdx (UInt32.ofNat addr) < 896 := by
  unfold HEAP_START at h1
  unfold HEAP_MAX_ADDR at h2
  unfold pdIdx
  rw [UInt32.toNat_ofNat']
  omega

/-- The machine after some pages for the heap: nothing of the user's has changed. -/
structure Grown (img : Image) (m : Machine) (ρ : Ledger ℕ Use) (m' : Machine) (ρ' : Ledger ℕ Use) :
    Prop where
  layout : Layout img m' ρ'
  extend : Extends HeapUse (freeFrames m) (freeFrames m') ρ ρ'
  carries : Carries m ρ m' ρ'
  maps : ∀ d P, IsDirectory img ρ d → Maps m d P → Maps m' d P

theorem Grown.refl (h : Layout img m ρ) : Grown img m ρ m ρ :=
  ⟨h, .refl .., .refl .., fun _ _ _ hP => hP⟩

theorem Grown.trans {m'' : Machine} {ρ' ρ'' : Ledger ℕ Use} (h : Layout img m ρ)
    (h₁ : Grown img m ρ m' ρ') (h₂ : Grown img m' ρ' m'' ρ'') : Grown img m ρ m'' ρ'' :=
  ⟨h₂.layout, h₁.extend.trans h₂.extend, h₁.carries.trans h₂.carries, fun d P hd hP =>
    h₂.maps d P (h.isDirectory h₁.extend hd) (h₁.maps d P hd hP)⟩

/-- One page for the heap. -/
theorem grown_mapHeap (h : Layout img m ρ) (hd : IsDirectory img ρ (frameOf m.cr3)) {p : UInt32}
    {m₁ : Machine} {addr : ℕ} (h1 : HEAP_START ≤ addr) (h2 : addr < HEAP_MAX_ADDR)
    (ha : m.allocPage = (p, m₁))
    (hm : vmmMapPage img m₁ (UInt32.ofNat addr) p (PAGE_PRESENT ||| PAGE_RW) = some m')
    (ho : m'.outOfMemory = false) :
    ∃ ρ', Grown img m ρ m' ρ' ∧ ∀ e, Confined img e m ρ m' := by
  obtain ⟨hlo, hhi⟩ := toNat_heapAddr h1 h2
  have hk := keeps_vmmMapPage hm
  have hcr3 : m₁.cr3 = m.cr3 := (Keeps.of_allocPage ha).cr3
  have hframes : m₁.frames = m.frames := congrArg (fun a => a.2.frames) ha.symm
  obtain ⟨f, rfl, hlt, -, h', hext⟩ := h.allocPage (u := .heapPage) ha (hk.outOfMemory ho) rfl
    (by simp) (fun d hd => by cases hd)
  have hdir : ∀ {d}, IsDirectory img ρ d → IsDirectory img (ρ.give f .heapPage) d :=
    fun hd => h.isDirectory hext hd
  have hd' : IsDirectory img (ρ.give f .heapPage) (frameOf m₁.cr3) := by
    rw [hcr3]
    exact hdir hd
  have huse : pageUse (frameOf m₁.cr3) (pdIdx (UInt32.ofNat addr)) = .heapPage :=
    if_neg (by omega)
  obtain ⟨ρ', hl, hext'⟩ := h'.mapPage hd' (by omega) (by omega)
    (by rw [huse, Ledger.give_self]) hlt (by decide) (fun _ => by decide) hm ho
  refine ⟨ρ', ⟨hl, ?_, ?_, fun d P hd hP => ?_⟩, fun e => ?_⟩
  · rw [tableUse_heap hlo] at hext'
    exact (hext.mono fun u hu => Or.inr hu).trans (hext'.mono fun u hu => Or.inl hu)
  · exact (Carries.of_give hext.free rfl (by simp) hframes).trans
      (h'.mapPage_carries hd' (by omega) (by omega) hm ho hext')
  · exact h'.mapPage_heap hd' hlo (by omega) hm ho (hdir hd) (hP.of_frames hframes)
  · exact (Confined.of_frames hframes).trans
      (h'.mapPage_confined hd' (by omega) (by omega) hm ho (Or.inr hlo))
      fun _ _ hu _ => hext.of_some h.sound hu

theorem layout_mapHeap (h : Layout img m ρ) (hd : IsDirectory img ρ (frameOf m.cr3)) {p : UInt32}
    {m₁ : Machine} {addr : ℕ} (h1 : HEAP_START ≤ addr) (h2 : addr < HEAP_MAX_ADDR)
    (ha : m.allocPage = (p, m₁))
    (hm : vmmMapPage img m₁ (UInt32.ofNat addr) p (PAGE_PRESENT ||| PAGE_RW) = some m')
    (ho : m'.outOfMemory = false) :
    ∃ ρ', Layout img m' ρ' ∧ Extends HeapUse (freeFrames m) (freeFrames m') ρ ρ' := by
  obtain ⟨ρ', hg, -⟩ := grown_mapHeap h hd h1 h2 ha hm ho
  exact ⟨ρ', hg.layout, hg.extend⟩

theorem Grows.grown (hg : Grows img m m') (h : Layout img m ρ)
    (hd : IsDirectory img ρ (frameOf m.cr3)) (ho : m'.outOfMemory = false) :
    ∃ ρ', Grown img m ρ m' ρ' ∧ ∀ e, Confined img e m ρ m' := by
  induction hg with
  | refl => exact ⟨ρ, .refl h, fun e => .refl img e m ρ⟩
  | @tail m₁ m' hg₁ hstep ih =>
      obtain ⟨addr, h1, h2, hgrow⟩ := hstep
      have hcr3 : m₁.cr3 = m.cr3 := Grows.keeps hg₁ |>.cr3
      obtain he | ⟨p, m₂, -, ha, hm⟩ := growHeap_cases hgrow
      · obtain ⟨ρ₁, hg₁, -⟩ := ih ((Keeps.of_allocPage he).outOfMemory ho)
        obtain ⟨f, hf, -, hfree, -⟩ := hg₁.layout.alloc he ho
        exact absurd ((frameAddr_eq_zero hfree.lt).1 hf.symm) hfree.ne_zero
      · have hk := (Keeps.of_allocPage ha).trans (keeps_vmmMapPage hm)
        obtain ⟨ρ₁, hg₁, hc₁⟩ := ih (hk.outOfMemory ho)
        obtain ⟨ρ', hg', hc'⟩ := grown_mapHeap hg₁.layout
          (by rw [hcr3]; exact h.isDirectory hg₁.extend hd) h1 h2 ha hm ho
        exact ⟨ρ', hg₁.trans h hg', fun e =>
          (hc₁ e).trans (hc' e) fun _ _ hu _ => hg₁.extend.of_some h.sound hu⟩

theorem Grows.layout (hg : Grows img m m') (h : Layout img m ρ)
    (hd : IsDirectory img ρ (frameOf m.cr3)) (ho : m'.outOfMemory = false) :
    ∃ ρ', Layout img m' ρ' ∧ Extends HeapUse (freeFrames m) (freeFrames m') ρ ρ' := by
  obtain ⟨ρ', hg', -⟩ := hg.grown h hd ho
  exact ⟨ρ', hg'.layout, hg'.extend⟩

/-! ### Creation -/

/-- What the ledgers before and after a step have in common. -/
def Gains (m : Machine) (ρ : Ledger ℕ Use) (m' : Machine) (ρ' : Ledger ℕ Use) : Prop :=
  Extends (fun _ => True) (freeFrames m) (freeFrames m') ρ ρ'

theorem Gains.of_heap {ρ' : Ledger ℕ Use}
    (h : Extends HeapUse (freeFrames m) (freeFrames m') ρ ρ') : Gains m ρ m' ρ' :=
  h.mono fun _ _ => trivial

namespace Kernel

/-- The stack and maybe pages for the heap were taken, and the stack was given back. -/
theorem Aborted.layout (ha : Aborted img m m') (h : Layout img m ρ)
    (hd : IsDirectory img ρ (frameOf m.cr3)) (ho : m'.outOfMemory = false) :
    ∃ ρ', Layout img m' ρ' ∧ Gains m ρ m' ρ' := by
  obtain ⟨hg, halloc⟩ | @⟨m₁, m₂, m₃, stack, hg, halloc, hs, hg', rfl⟩ := ha
  · obtain ⟨ρ₁, hl, hext⟩ := hg.layout h hd ((Keeps.of_allocPage halloc).outOfMemory ho)
    obtain ⟨f, hf, -, hfree, -⟩ := hl.alloc halloc ho
    exact absurd ((frameAddr_eq_zero hfree.lt).1 hf.symm) hfree.ne_zero
  have ho₃ : m₃.outOfMemory = false := ho
  have ho₂ := hg'.keeps.outOfMemory ho₃
  have hka := Keeps.of_allocPage halloc
  obtain ⟨ρ₁, hl₁, hext₁⟩ := hg.layout h hd (hka.outOfMemory ho₂)
  obtain ⟨f, rfl, hlt, hff, hl₂, hext₂⟩ := hl₁.allocPage (u := .reserved) halloc ho₂ rfl
    (by simp) (fun d hd => by cases hd)
  have hd₂ : IsDirectory img (ρ₁.give f .reserved) (frameOf m₂.cr3) := by
    rw [hka.cr3, hg.keeps.cr3]
    exact hl₁.isDirectory hext₂ (h.isDirectory hext₁ hd)
  obtain ⟨ρ₃, hl₃, hext₃⟩ := hg'.layout hl₂ hd₂ ho₃
  have hf₃ : ρ₃ f = some .reserved := hext₃.of_some hl₂.sound (Ledger.give_self ..)
  have hge := (hl₃.taken f _ hf₃).ge
  have hgain : Gains m ρ m₃ ρ₃ :=
    ((Gains.of_heap hext₁).trans (hext₂.mono fun _ _ => trivial)).trans (Gains.of_heap hext₃)
  have hfree : f ∈ freeFrames m := hext₁.free hff
  refine ⟨ρ₃.drop (· = f), (hl₃.unreserve hf₃).freePage (if_pos rfl) hlt hge, fun g hg => ?_,
    fun g => ?_⟩
  · obtain hg | rfl := (hl₃.pages.freePage hlt hge).2 g hg
    · exact hgain.free hg
    · exact hfree
  · by_cases hgf : g = f
    · -- the stack had no entry and has none again
      subst hgf
      exact Or.inl ((if_pos rfl).trans (h.sound.eq_none hfree).symm)
    · rw [show ρ₃.drop (· = f) g = ρ₃ g from if_neg hgf]
      exact hgain.entry g

/-- A new space: the directory in frame `d` has the stack in frame `f` and no table for code.
What the frame of the stack holds is what it held when it was free. -/
structure NewSpace (img : Image) (m : Machine) (ρ : Ledger ℕ Use) (m' : Machine)
    (ρ' : Ledger ℕ Use) (d f : ℕ) : Prop where
  layout : Layout img m' ρ'
  directory : ρ' d = some .directory
  directory_free : d ∈ freeFrames m
  stack : ρ' f = some (.page d)
  noCode : ∀ g, ρ' g ≠ some (.table d 256)
  gains : Gains m ρ m' ρ'
  carries : Carries m ρ m' ρ'
  stack_free : f ∈ freeFrames m
  stack_eq : m'.frames f = m.frames f
  maps : Maps m' d (Function.update (fun _ => none) (USER_STACK_BOTTOM.toNat / 4096) (some f))

/-- The stack is mapped in an empty space. -/
theorem mapStack {d f : ℕ} (h : Layout img m ρ) (hd : ρ d = some .directory)
    (hf : ρ f = some .reserved) (hlt : f < 2 ^ 20) (hmaps : Maps m d fun _ => none)
    (huser : UserOnly m d) (hm : vmmMapPage img { m with cr3 := frameAddr d } USER_STACK_BOTTOM
      (frameAddr f) USER_PAGE = some m') (ho : m'.outOfMemory = false) :
    ∃ ρ', Layout img m' ρ' ∧ Extends (· = .table d 767) (freeFrames m) (freeFrames m')
        (ρ.give f (.page d)) ρ' ∧ (∀ g u, ρ.give f (.page d) g = some u → ρ' g = some u) ∧
      Carries m ρ m' ρ' ∧
      Maps m' d (Function.update (fun _ => none) (USER_STACK_BOTTOM.toNat / 4096) (some f)) ∧
      Confined img d m ρ m' ∧ UserOnly m' d := by
  have hfr : frameOf (frameAddr d) = d := frameOf_frameAddr (h.space d (Or.inr hd)).lt
  have hl : Layout img { m with cr3 := frameAddr d } ρ := h.of_frames rfl rfl
  have hl' := hl.give (u := .page d) (Or.inr hf) ((h.taken f _ hf).congr rfl) rfl (by simp) (by
    rintro e he
    cases he
    exact Or.inr hd)
  have hcarry : Carries m ρ { m with cr3 := frameAddr d } (ρ.give f (.page d)) :=
    .of_give subset_rfl rfl (by simp) rfl
  have hidx : pdIdx USER_STACK_BOTTOM = 767 := by decide
  have hfd : d ≠ f := by
    rintro rfl
    cases hd.symm.trans hf
  have hdir : IsDirectory img (ρ.give f (.page d)) (frameOf (frameAddr d)) := by
    rw [hfr]
    exact Or.inr (by rw [Ledger.give_of_ne _ hfd, hd])
  obtain ⟨ρ', hl₅, hext⟩ := hl'.mapPage hdir (by omega) (by omega)
    (by rw [hidx, hfr, Ledger.give_self]; rfl) hlt (by decide) (fun h => by omega) hm ho
  have hcarry' := hl'.mapPage_carries hdir (by omega) (by omega) hm ho hext
  have hmaps' := hl'.mapPage_user (P := fun _ => none) hdir (by omega) (by omega) hlt (by decide)
    (by decide) (by decide) hm ho (by
      show Maps { m with cr3 := frameAddr d } (frameOf (frameAddr d)) _
      rw [hfr]
      exact hmaps.of_frames rfl)
  have hconf := hl'.mapPage_confined hdir (by omega) (by omega) hm ho (Or.inl hfr)
  have huser' := hl'.mapPage_userOnly hdir (by omega) (by omega) hlt hm ho (by
    show UserOnly { m with cr3 := frameAddr d } (frameOf (frameAddr d))
    rw [hfr]
    exact ⟨huser.slots, huser.entries⟩)
  have huse : tableUse (frameOf (frameAddr d)) (pdIdx USER_STACK_BOTTOM) = .table d 767 := by
    rw [hidx, hfr]
    exact if_pos (by omega)
  dsimp only at hext hmaps' huser'
  rw [huse] at hext
  rw [hfr] at hmaps' huser'
  refine ⟨ρ', hl₅, hext, fun g u hg => hext.of_some hl'.sound hg, hcarry.trans hcarry', hmaps',
    ⟨fun e he hne i hi => ?_, fun e i g hg hi hne => ?_⟩, huser'⟩
  · refine hconf.slots e (he.imp_right fun h => ?_) hne i hi
    rw [Ledger.give_of_ne, h]
    rintro rfl
    cases hf.symm.trans h
  · refine hconf.tables e i g ?_ hi hne
    rw [Ledger.give_of_ne, hg]
    rintro rfl
    cases hf.symm.trans hg

theorem SpawnedFrom.newSpace {current stack cr3 : UInt32}
    (hs : SpawnedFrom img current stack cr3 m m') (h : Layout img m ρ)
    (hd : IsDirectory img ρ (frameOf m.cr3)) (hcur : m.cr3 = current)
    (ho : m'.outOfMemory = false) (hh : m'.highDirectory = false) :
    ∃ ρ' d f, cr3 = frameAddr d ∧ stack = frameAddr f ∧ d < 2 ^ 20 ∧ f < 2 ^ 20 ∧
      NewSpace img m ρ m' ρ' d f ∧ Confined img d m ρ m' ∧ UserOnly m' d := by
  obtain @⟨m₂, m₃, m₄, m₅, halloc, -, hg', hc, hc0, hm, -, hg''⟩ := hs
  have ho₅ := hg''.keeps.outOfMemory ho
  have ho₄ := (keeps_vmmMapPage hm).outOfMemory ho₅
  have ho₃ := (keeps_vmmCreatePageDirectory hc).outOfMemory ho₄
  have ho₂ := hg'.keeps.outOfMemory ho₃
  have hka := Keeps.of_allocPage halloc
  have hh₄ := (keeps_vmmMapPage hm).highDirectory (hg''.keeps.highDirectory hh)
  -- the stack
  have hframes₂ : m₂.frames = m.frames := congrArg (fun a => a.2.frames) halloc.symm
  obtain ⟨f, rfl, hlt, hff, hl₂, hext₂⟩ := h.allocPage (u := .reserved) halloc ho₂ rfl
    (by simp) (fun d hd => by cases hd)
  have hd₂ := h.isDirectory hext₂ hd
  have hcr₂ : m₂.cr3 = m.cr3 := hka.cr3
  have hcarry₂ : Carries m ρ m₂ (ρ.give f .reserved) :=
    .of_give hext₂.free rfl (by simp) hframes₂
  obtain ⟨ρ₃, hgrown₃, hconf₃⟩ := hg'.grown hl₂ (by rw [hcr₂]; exact hd₂) ho₃
  have hl₃ := hgrown₃.layout
  have hext₃ := hgrown₃.extend
  have hd₃ := hl₂.isDirectory hext₃ hd₂
  have hcr₃ : m₃.cr3 = m.cr3 := hg'.keeps.cr3.trans hcr₂
  -- the directory
  have hlow := vmmCreatePageDirectory_lt hc hh₄
  obtain ⟨d, rfl, hdlt, hdf, hl₄, hext₄⟩ := hl₃.createPageDirectory (by rw [hcr₃]; exact hd₃) hc
    hc0 ho₄ hlow
  obtain ⟨hmaps₄, hframes₄⟩ := hl₃.createPageDirectory_maps (by rw [hcr₃]; exact hd₃) hdlt hc hc0
    hlow
  obtain ⟨hconf₄, huser₄⟩ := @Layout.createPageDirectory_userOnly _ _ _ _ d _ hl₃
    (by rw [hcr₃]; exact hd₃) hdlt hc hc0 hlow
  have hcarry₄ := hl₃.createPageDirectory_carries hl₄ hext₄ hdf hframes₄
  have hd₄ := hl₃.isDirectory hext₄ hd₃
  have hf₃ : ρ₃ f = some .reserved := hext₃.of_some hl₂.sound (Ledger.give_self ..)
  have hf₄ := hext₄.of_some hl₃.sound hf₃
  obtain ⟨ρ₅, hl₅, hext₅, hold₅, hcarry₅, hmaps₅, hconf₅, huser₅⟩ :=
    mapStack hl₄ (Ledger.give_self ..) hf₄ hlt hmaps₄ huser₄ hm ho₅
  have hfd : d ≠ f := hl₃.sound.ne hdf hf₃ |>.symm
  have hdir₅ : ρ₅ d = some .directory :=
    hold₅ d _ (by rw [Ledger.give_of_ne _ hfd, Ledger.give_self])
  have hd₅ : IsDirectory img ρ₅ (frameOf current) := by
    rw [← hcur]
    refine hd₄.imp_right fun e => hold₅ _ _ ?_
    rw [Ledger.give_of_ne, e]
    intro e'
    rw [e', hf₄] at e
    cases e
  have hl₅s : Layout img { m₅ with cr3 := current } ρ₅ := hl₅.of_frames rfl rfl
  obtain ⟨ρ₆, hgrown₆, hconf₆⟩ := hg''.grown hl₅s hd₅ ho
  have hext₆ := hgrown₆.extend
  have hlast : ∀ g u, (ρ₃.give d .directory).give f (.page d) g = some u → ρ₆ g = some u :=
    fun g u hg => hext₆.of_some hl₅.sound (hold₅ g u hg)
  have hstack : ρ₆ f = some (.page d) := hlast f _ (Ledger.give_self ..)
  have hcarry₅' : Carries m₅ ρ₅ { m₅ with cr3 := current } ρ₅ :=
    .of_frames subset_rfl (fun _ hf => hf) rfl
  have hcarry : Carries m₂ (ρ.give f .reserved) m' ρ₆ :=
    (((hgrown₃.carries.trans hcarry₄).trans hcarry₅).trans hcarry₅').trans hgrown₆.carries
  -- the frame of the stack is the only one that is used for something else now
  have hkeep₅ : ∀ g u, ρ₃.give d .directory g = some u → u ≠ .reserved → ρ₅ g = some u := by
    intro g u hg hu
    refine hold₅ g u ?_
    rw [Ledger.give_of_ne, hg]
    rintro rfl
    exact hu (Option.some.inj (hg.symm.trans hf₄))
  have hkeep₃ : ∀ g u, ρ g = some u → ρ₃ g = some u := fun g u hu =>
    hext₃.of_some hl₂.sound (hext₂.of_some h.sound hu)
  have hconf₃' : Confined img d m ρ m₃ := (Confined.of_frames hframes₂).trans (hconf₃ d)
    fun _ _ hu _ => hext₂.of_some h.sound hu
  have hconf₅' : Confined img d m ρ m₅ := (hconf₃'.trans hconf₄ fun g u hu _ => hkeep₃ g u hu).trans
    hconf₅ fun g u hu _ => hext₄.of_some hl₃.sound (hkeep₃ g u hu)
  have hswitch : Confined img d m₅ ρ₅ { m₅ with cr3 := current } := .of_frames rfl
  have hconf : Confined img d m ρ m' := hconf₅'.trans (hswitch.trans (hconf₆ d) fun _ _ hu _ => hu)
    fun g u hu hne => hkeep₅ g u (hext₄.of_some hl₃.sound (hkeep₃ g u hu)) hne
  have huser : UserOnly m' d := (hconf₆ (d + 1)).userOnly hl₅s (Or.inr hdir₅) (by omega)
    ⟨huser₅.slots, huser₅.entries⟩
  refine ⟨ρ₆, d, f, rfl, rfl, hdlt, hlt, ⟨hgrown₆.layout, hlast d _ ?_, hext₂.free (hext₃.free hdf),
    hstack, fun g hg => ?_, ?_, hcarry₂.trans hcarry, hff, ?_, ?_⟩, hconf, huser⟩
  · rw [Ledger.give_of_ne _ hfd, Ledger.give_self]
  · -- the directory is new, so that nothing was used for it
    have h1 := hext₆.old_of_not (by unfold HeapUse; simp) hg
    have h2 := hext₅.old_of_not (by simp) h1
    obtain ⟨-, he⟩ | ⟨-, h3⟩ := Ledger.give_eq_some h2
    · cases he
    obtain ⟨-, he⟩ | ⟨-, h4⟩ := Ledger.give_eq_some h3
    · cases he
    obtain rfl | h5 := hl₃.owned g _ d h4 rfl
    · have := (hl₃.pages.isFree hdf).ne_directory
      exact this rfl
    · exact hl₃.sound d _ h5 hdf
  · have hgain : Gains m ρ m₄ (ρ₃.give d .directory) :=
      ((hext₂.mono fun _ _ => trivial).trans (Gains.of_heap hext₃)).trans
        (hext₄.mono fun _ _ => trivial)
    have hgain' : Gains m ρ m₅ ρ₅ :=
      Extends.trans (Extends.regive hgain hff trivial) (hext₅.mono fun _ _ => trivial)
    exact Extends.trans hgain' (Gains.of_heap hext₆)
  · rw [hcarry.frames f (Or.inr (.of_reserved (Ledger.give_self ..))), hframes₂]
  · exact hgrown₆.maps _ _ (Or.inr hdir₅) (hmaps₅.of_frames rfl)

theorem NewSpace.grown {m₁ : Machine} {ρ₁ ρ' : Ledger ℕ Use} {d f : ℕ}
    (hn : NewSpace img m₁ ρ₁ m' ρ' d f) (hg : Grown img m ρ m₁ ρ₁) : NewSpace img m ρ m' ρ' d f :=
  ⟨hn.layout, hn.directory, hg.extend.free hn.directory_free, hn.stack, hn.noCode,
    (Gains.of_heap hg.extend).trans hn.gains, hg.carries.trans hn.carries,
    hg.extend.free hn.stack_free,
    hn.stack_eq.trans (hg.carries.frames f (Or.inl hn.stack_free)), hn.maps⟩

/-- A new directory, with the stack in it, and without a table for code. -/
theorem Spawned.newSpace {current stack cr3 : UInt32} (hs : Spawned img current stack cr3 m m')
    (h : Layout img m ρ) (hd : IsDirectory img ρ (frameOf m.cr3)) (hcur : m.cr3 = current)
    (ho : m'.outOfMemory = false) (hh : m'.highDirectory = false) :
    ∃ ρ' d f, cr3 = frameAddr d ∧ stack = frameAddr f ∧ d < 2 ^ 20 ∧ f < 2 ^ 20 ∧
      NewSpace img m ρ m' ρ' d f := by
  obtain ⟨m₁, hg, hs'⟩ := hs.split
  obtain ⟨ρ₁, hgrown, -⟩ := hg.grown h hd (hs'.keeps (hg.keeps.cr3.trans hcur) |>.outOfMemory ho)
  obtain ⟨ρ', d, f, hcr3, hstack, hdlt, hflt, hn, -⟩ := hs'.newSpace hgrown.layout
    (by rw [hg.keeps.cr3]; exact h.isDirectory hgrown.extend hd) (hg.keeps.cr3.trans hcur) ho hh
  exact ⟨ρ', d, f, hcr3, hstack, hdlt, hflt, hn.grown hgrown⟩

theorem pdIdx_code {n : ℕ} (hn : n < 0x20000000) {addr : UInt32}
    (ha : addr = USER_CODE_START + UInt32.ofNat n) :
    256 ≤ pdIdx addr ∧ pdIdx addr < 384 := by
  have hc : USER_CODE_START.toNat = 0x40000000 := rfl
  have hv : addr.toNat = 0x40000000 + n := by
    rw [ha, UInt32.toNat_add, hc, UInt32.toNat_ofNat']
    omega
  unfold pdIdx
  omega

/-- The first page of the code. -/
def CODE_PAGE : ℕ := USER_CODE_START.toNat / 4096

theorem codePage_toNat {n : ℕ} (hn : n < 0x20000) :
    (USER_CODE_START + UInt32.ofNat n * 4096).toNat / 4096 = CODE_PAGE + n := by
  unfold CODE_PAGE
  have hc : USER_CODE_START.toNat = 0x40000000 := rfl
  have hp : (4096 : UInt32).toNat = 4096 := rfl
  rw [UInt32.toNat_add, UInt32.toNat_mul, UInt32.toNat_ofNat', hc, hp]
  omega

theorem codePage_eq (i : ℕ) :
    USER_CODE_START + UInt32.ofNat i * 4096 = USER_CODE_START + UInt32.ofNat (i * 4096) := by
  have hc : (4096 : UInt32).toNat = 4096 := rfl
  have he : UInt32.ofNat i * 4096 = UInt32.ofNat (i * 4096) := by
    apply UInt32.toNat.inj
    rw [UInt32.toNat_mul, UInt32.toNat_ofNat', UInt32.toNat_ofNat', hc]
    omega
  rw [he]

/-- The frame that the code page `i` gets. -/
def codeFrame (img : Image) (m : Machine) (i : ℕ) : ℕ :=
  ((mapCode img m i).map fun m => frameOf m.allocPage.1).getD 0

theorem mapCode_succ (m : Machine) (n : ℕ) : mapCode img m (n + 1) =
    (mapCode img m n).bind fun m => vmmMapPage img m.allocPage.2
      (USER_CODE_START + UInt32.ofNat n * 4096) m.allocPage.1 USER_PAGE := by
  unfold mapCode
  rw [List.range_succ, List.foldlM_append]
  simp [USER_PAGE]

/-- `n` pages of code, in a space with the pages `P`. -/
def codePages (img : Image) (m : Machine) (P : ℕ → Option ℕ) (n : ℕ) : ℕ → Option ℕ := fun v =>
  if CODE_PAGE ≤ v ∧ v < CODE_PAGE + n then some (codeFrame img m (v - CODE_PAGE)) else P v

theorem codePages_succ (m : Machine) (P : ℕ → Option ℕ) (n : ℕ) :
    codePages img m P (n + 1) =
      Function.update (codePages img m P n) (CODE_PAGE + n) (some (codeFrame img m n)) := by
  funext v
  by_cases hv : v = CODE_PAGE + n
  · subst hv
    rw [Function.update_self, codePages, if_pos ⟨by omega, by omega⟩, Nat.add_sub_cancel_left]
  · have hiff : CODE_PAGE ≤ v ∧ v < CODE_PAGE + (n + 1) ↔ CODE_PAGE ≤ v ∧ v < CODE_PAGE + n := by
      omega
    rw [Function.update_of_ne hv]
    simp only [codePages, hiff]

/-- The machine with the first `n` pages of the code mapped. -/
structure CodeMapped (img : Image) (m : Machine) (ρ : Ledger ℕ Use) (m' : Machine)
    (ρ' : Ledger ℕ Use) (d n : ℕ) : Prop where
  layout : Layout img m' ρ'
  gains : Gains m ρ m' ρ'
  carries : Carries m ρ m' ρ'
  free : ∀ i < n, codeFrame img m i ∈ freeFrames m
  page : ∀ i < n, ρ' (codeFrame img m i) = some (.page d)
  code_eq : ∀ i < n, m'.frames (codeFrame img m i) = m.frames (codeFrame img m i)
  ne : ∀ j < n, ∀ i < j, codeFrame img m i ≠ codeFrame img m j
  maps : ∀ P, Maps m d P → Maps m' d (codePages img m P n)

/-- Each page of the code takes a frame. -/
theorem codeMapped {n d : ℕ} (hn : n ≤ 0x20000) (h : Layout img m ρ)
    (hd : ρ d = some .directory) (hcr3 : frameOf m.cr3 = d) (hm : mapCode img m n = some m')
    (ho : m'.outOfMemory = false) : ∃ ρ', CodeMapped img m ρ m' ρ' d n ∧ Confined img d m ρ m' ∧
      (UserOnly m d → UserOnly m' d) := by
  induction n generalizing m' with
  | zero =>
      cases hm
      have hP : ∀ P, codePages img m P 0 = P := fun P => funext fun v => if_neg (by omega)
      exact ⟨ρ, ⟨h, Extends.refl .., .refl .., by simp, by simp, by simp, by simp,
        fun P hmaps => by rw [hP]; exact hmaps⟩, .refl .., id⟩
  | succ n ih =>
      rw [mapCode_succ] at hm
      obtain ⟨s, hs, hm⟩ := Option.bind_eq_some_iff.1 hm
      obtain ⟨p, s₁, ha⟩ : ∃ p s₁, s.allocPage = (p, s₁) := ⟨_, _, rfl⟩
      have hcode : codeFrame img m n = frameOf p := by
        unfold codeFrame
        rw [hs, Option.map_some, ha]
        rfl
      rw [ha] at hm
      dsimp only at hm
      have hka := Keeps.of_allocPage ha
      have hkm := keeps_vmmMapPage hm
      have hframes : s₁.frames = s.frames := congrArg (fun a => a.2.frames) ha.symm
      have hcr₁ : frameOf s₁.cr3 = d := by
        rw [hka.cr3, (keeps_mapCode hs).cr3, hcr3]
      obtain ⟨ρ₁, hc, hconf₁, huser₁⟩ := ih (by omega) hs (hka.outOfMemory (hkm.outOfMemory ho))
      have hd₁ : ρ₁ d = some .directory := hc.gains.of_some h.sound hd
      obtain ⟨f, rfl, hlt, hfree, hl₁, hext₁⟩ := hc.layout.allocPage (u := .page d) ha
        (hkm.outOfMemory ho) rfl (by simp) (by
          rintro e he
          cases he
          exact Or.inr hd₁)
      rw [frameOf_frameAddr hlt] at hcode
      have hdir : IsDirectory img (ρ₁.give f (.page d)) (frameOf s₁.cr3) := by
        rw [hcr₁]
        exact hc.layout.isDirectory hext₁ (Or.inr hd₁)
      obtain ⟨hlo, hhi⟩ := pdIdx_code (n := n * 4096) (by omega) (codePage_eq n)
      have huse : pageUse d (pdIdx (USER_CODE_START + UInt32.ofNat n * 4096)) = .page d :=
        if_pos (by omega)
      obtain ⟨ρ₂, hl₂, hext₂⟩ := hl₁.mapPage hdir (by omega) (by omega)
        (by rw [hcr₁, huse, Ledger.give_self]) hlt (by decide) (fun h => by omega) hm ho
      have hold : ∀ {g u}, ρ₁ g = some u → ρ₂ g = some u := fun hg =>
        hext₂.of_some hl₁.sound (hext₁.of_some hc.layout.sound hg)
      have hgive : Carries s ρ₁ s₁ (ρ₁.give f (.page d)) :=
        .of_give hext₁.free rfl (by simp) hframes
      have hcarry := hl₁.mapPage_carries hdir (by omega) (by omega) hm ho hext₂
      have hconf := hl₁.mapPage_confined hdir (by omega) (by omega) hm ho (Or.inl hcr₁)
      refine ⟨ρ₂, ⟨hl₂, ?_, (hc.carries.trans hgive).trans hcarry, fun i hi => ?_, fun i hi => ?_,
        fun i hi => ?_, fun j hj i hi => ?_, fun P hP => ?_⟩, ?_, fun hu => ?_⟩
      · exact Extends.trans (Extends.trans hc.gains (hext₁.mono fun _ _ => trivial))
          (hext₂.mono fun _ _ => trivial)
      · obtain rfl | hi := Nat.eq_or_lt_of_le (Nat.le_of_lt_succ hi)
        · rw [hcode]
          exact hc.carries.free hfree
        · exact hc.free i hi
      · obtain rfl | hi := Nat.eq_or_lt_of_le (Nat.le_of_lt_succ hi)
        · rw [hcode]
          exact hext₂.of_some hl₁.sound (Ledger.give_self ..)
        · exact hold (hc.page i hi)
      · obtain rfl | hi := Nat.eq_or_lt_of_le (Nat.le_of_lt_succ hi)
        · rw [hcode, hcarry.frames f (Or.inr (.of_page (Ledger.give_self ..))), hframes,
            hc.carries.frames f (Or.inl hfree)]
        · rw [(hgive.trans hcarry).frames _ (Or.inr (.of_page (hc.page i hi))), hc.code_eq i hi]
      · obtain rfl | hj := Nat.eq_or_lt_of_le (Nat.le_of_lt_succ hj)
        · -- the new frame was still free
          rw [hcode]
          exact hc.layout.sound.ne hfree (hc.page i hi)
        · exact hc.ne j hj i hi
      · have hP₁ : Maps s₁ (frameOf s₁.cr3) (codePages img m P n) := by
          rw [hcr₁]
          exact (hc.maps P hP).of_frames hframes
        have hmaps := hl₁.mapPage_user hdir (by omega) (by omega) hlt (by decide) (by decide)
          (by decide) hm ho hP₁
        rwa [hcr₁, codePage_toNat (by omega), ← hcode, ← codePages_succ] at hmaps
      · exact (hconf₁.trans (Confined.of_frames hframes) fun _ _ hu _ =>
          hc.gains.of_some h.sound hu).trans hconf fun _ _ hu _ =>
            hext₁.of_some hc.layout.sound (hc.gains.of_some h.sound hu)
      · have hu₁ := huser₁ hu
        have huser := hl₁.mapPage_userOnly hdir (by omega) (by omega) hlt hm ho (by
          rw [hcr₁]
          exact ⟨by rw [hframes]; exact hu₁.slots, by rw [hframes]; exact hu₁.entries⟩)
        rwa [hcr₁] at huser

theorem layout_mapCode {n d : ℕ} (hn : n ≤ 0x20000) (h : Layout img m ρ)
    (hd : ρ d = some .directory) (hcr3 : frameOf m.cr3 = d) (hm : mapCode img m n = some m')
    (ho : m'.outOfMemory = false) : ∃ ρ', Layout img m' ρ' ∧ Gains m ρ m' ρ' := by
  obtain ⟨ρ', hc, -⟩ := codeMapped hn h hd hcr3 hm ho
  exact ⟨ρ', hc.layout, hc.gains⟩

/-- The code is in pages of the directory. -/
theorem pageUse_code {s : Machine} {i d f : ℕ} (h : Layout img s ρ) (hi : i < 0x20000000)
    (hd : ρ d = some .directory) (hcr3 : frameOf s.cr3 = d)
    (ht : s.translate (USER_CODE_START + UInt32.ofNat i) = some f) : ρ f = some (.page d) := by
  obtain ⟨hlo, hhi⟩ := pdIdx_code (n := i) hi rfl
  have hf := h.translate (by rw [hcr3]; exact Or.inr hd) (by omega) (by omega) ht
  have huse : pageUse (frameOf s.cr3) (pdIdx (USER_CODE_START + UInt32.ofNat i)) =
      .page (frameOf s.cr3) := if_pos (by omega)
  rw [huse, hcr3] at hf
  exact hf

/-- The bytes of the code are stored in pages of the directory. -/
theorem layout_copyCode {src : ℕ → UInt8} {n d : ℕ} (hn : n ≤ 0x20000000) (h : Layout img m ρ)
    (hd : ρ d = some .directory) (hcr3 : frameOf m.cr3 = d)
    (hm : copyCode m src n = some m') : Layout img m' ρ := by
  refine (copyCode_induction (P := fun s => frameOf s.cr3 = d ∧ Layout img s ρ)
    (Q := fun f => ρ f = some (.page d)) ?_ ?_ ⟨hcr3, h⟩ hm).2
  · rintro i hi s f ⟨hcr, hl⟩ ht
    exact pageUse_code hl (by omega) hd hcr ht
  · rintro s f x b ⟨hcr, hl⟩ hf
    exact ⟨hcr, hl.setWord hf (by simp) fun v hv _ => by cases hv⟩

/-- The size of a program that fits in the heap, or so large that it has no pages at all. -/
theorem codeSize_cases {size : UInt32} (hs : alignedSize size ≤ HEAP_MAX_ADDR - HEAP_START) :
    size.toNat ≤ 0x20000000 ∧ ((size + 4096 - 1) / 4096).toNat ≤ 0x20000 ∨
      0 < size.toNat ∧ ((size + 4096 - 1) / 4096).toNat = 0 := by
  have hlt := size.toNat_lt
  have h3 : (3 : UInt32).toNat = 3 := rfl
  have h4 : (4 : UInt32).toNat = 4 := rfl
  have hpages : ((size + 4096 - 1) / 4096).toNat = (size.toNat + 4095) % 2 ^ 32 / 4096 := by
    have := Pmm.toNat_add_page_sub_one size
    unfold Pmm.PAGE_SIZE at this
    rw [UInt32.toNat_div, this]
    rfl
  unfold alignedSize HEAP_MAX_ADDR HEAP_START at hs
  rw [UInt32.toNat_mul, UInt32.toNat_div, UInt32.toNat_add, h3, h4] at hs
  rw [hpages]
  omega

/-- The first byte has to have a table. -/
theorem present_of_copyCode {src : ℕ → UInt8} {n : ℕ} (hn : 0 < n)
    (hm : copyCode m src n = some m') : present (m.pde 256) = true := by
  obtain ⟨s, hs, -⟩ := Option.map_eq_some_iff.1 hm
  clear hm
  induction n, hn using Nat.le_induction generalizing s with
  | base =>
      rw [copyLoop_succ] at hs
      obtain ⟨f, ht, -⟩ := Option.map_eq_some_iff.1 hs
      rw [if_pos (Nat.zero_mod _)] at ht
      unfold Machine.translate at ht
      dsimp only at ht
      split_ifs at ht with hp
      exact hp
  | succ n hn ih =>
      rw [copyLoop_succ] at hs
      obtain ⟨s₁, h1, -⟩ := Option.bind_eq_some_iff.1 hs
      exact ih s₁ h1

/-- A program that was loaded fits in the heap. -/
theorem codeSize_le {size : UInt32} {src : ℕ → UInt8} {d : ℕ} {m₁ m₂ : Machine}
    (h : Layout img m ρ) (hd : ρ d = some .directory) (hcr3 : frameOf m.cr3 = d)
    (hno : ∀ g, ρ g ≠ some (.table d 256))
    (hs : alignedSize size ≤ HEAP_MAX_ADDR - HEAP_START)
    (hmap : mapCode img m ((size + 4096 - 1) / 4096).toNat = some m₁)
    (hcopy : copyCode m₁ src size.toNat = some m₂) :
    size.toNat ≤ 0x20000000 ∧ ((size + 4096 - 1) / 4096).toNat ≤ 0x20000 := by
  obtain hle | ⟨hpos, hzero⟩ := codeSize_cases hs
  · exact hle
  · rw [hzero] at hmap
    cases hmap
    have hp := present_of_copyCode hpos hcopy
    unfold Machine.pde at hp
    rw [hcr3] at hp
    exact absurd (h.table d (Or.inr hd) 256 (by omega) (by omega) hp) (hno _)

/-- Loading a program takes frames for its pages. -/
theorem Loaded.layout {current cr3 size : UInt32} {d : ℕ}
    (hl : Loaded img current cr3 size m m') (h : Layout img m ρ) (hd : ρ d = some .directory)
    (hcr3 : cr3 = frameAddr d) (hno : ∀ g, ρ g ≠ some (.table d 256))
    (hs : alignedSize size ≤ HEAP_MAX_ADDR - HEAP_START) (ho : m'.outOfMemory = false) :
    ∃ ρ', Layout img m' ρ' ∧ Gains m ρ m' ρ' := by
  obtain @⟨m₁, m₂, src, hmap, hcopy, rfl⟩ := hl
  have hdlt : d < 2 ^ 20 := (h.space d (Or.inr hd)).lt
  have hfr : frameOf cr3 = d := by rw [hcr3, frameOf_frameAddr hdlt]
  have h₀ : Layout img { m with cr3 := cr3 } ρ := h.of_frames rfl rfl
  have ho₁ := (keeps_copyCode hcopy).outOfMemory ho
  obtain ⟨hsize, hpages⟩ := codeSize_le h₀ hd hfr hno hs hmap hcopy
  obtain ⟨ρ₁, hl₁, hext⟩ := layout_mapCode hpages h₀ hd hfr hmap ho₁
  have hcr₁ : frameOf m₁.cr3 = d := by rw [(keeps_mapCode hmap).cr3, hfr]
  have hl₂ := layout_copyCode hsize hl₁ (hext.of_some h₀.sound hd) hcr₁ hcopy
  refine ⟨ρ₁, hl₂.of_frames rfl rfl, ?_⟩
  have hpg := pages_copyCode hcopy
  have hfree : freeFrames { m₂ with cr3 := current } = freeFrames m₁ := by
    unfold freeFrames
    dsimp only
    rw [hpg]
  unfold Gains
  rw [hfree]
  exact hext

end Kernel

end NosmeriOs.Tasks
