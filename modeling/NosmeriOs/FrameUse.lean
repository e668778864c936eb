import Mathlib.Data.Nat.Bitwise
import NosmeriOs.Ledger
import NosmeriOs.VmmHeap

/-! # What the page frames are used for

The bitmap only says which frames are in use.  A ledger says for what: `Use` lists directories,
page tables and pages, those below 3 GB with the directory they belong to, and those of the heap,
which all directories share.

* `Layout img m ρ`: the machine is laid out as the ledger says.  Frames with an entry are marked,
  slots name tables and tables name pages of the same directory, or those of the heap.
* `Layout.alloc`, `Layout.mapPage`, `Layout.createPageDirectory`, `Layout.pageFault` and
  `Layout.freePage`: the functions of `vmm.cpp` keep to it, with new entries for the frames they
  take. -/

namespace NosmeriOs.Vmm

open Pmm Ledgers

/-! ### Entries -/

/-- Bit 2, which lets a user's access through. -/
def user (e : UInt32) : Bool := e &&& PAGE_USER != 0

theorem user_iff (e : UInt32) : user e = true ↔ e.toNat / 4 % 2 = 1 := by
  have hand : (e &&& PAGE_USER).toNat = (e.toNat.testBit 2).toNat * 2 ^ 2 := by
    rw [UInt32.toNat_and]
    exact Nat.and_two_pow _ 2
  have hz : (0 : UInt32).toNat = 0 := rfl
  unfold user
  rw [bne_iff_ne, Ne, ← UInt32.toNat_inj, hand, Nat.testBit_eq_decide_div_mod_eq, hz]
  by_cases h : e.toNat / 4 % 2 = 1
  · simp [h]
  · simp [h]

theorem user_tableEntry {f : ℕ} (hf : f < 2 ^ 20) : user (tableEntry f) = true := by
  rw [user_iff, toNat_tableEntry hf]
  omega

theorem user_selfEntry {d : ℕ} (hd : d < 2 ^ 20) : user (selfEntry d) = false := by
  rw [← Bool.not_eq_true, user_iff, toNat_selfEntry hd]
  omega

theorem toNat_pageEntry {f : ℕ} (hf : f < 2 ^ 20) {flags : UInt32} (hw : flags.toNat < 4096) :
    (pageEntry (frameAddr f) flags).toNat = f * 4096 + flags.toNat := by
  have ha := toNat_frameAddr hf
  have hmask : frameAddr f &&& 0xFFFFF000 = frameAddr f := by
    have hc : (0xFFFFF000 : UInt32).toNat = (2 ^ 20 - 1) <<< 12 := rfl
    apply UInt32.toNat.inj
    rw [UInt32.toNat_and, ha, hc, ← Nat.shiftLeft_eq f 12, ← Nat.shiftLeft_and_distrib,
      Nat.and_two_pow_sub_one_of_lt_two_pow hf]
  unfold pageEntry
  rw [hmask, toNat_entry (by omega) hw, ha]

theorem frameOf_pageEntry {f : ℕ} (hf : f < 2 ^ 20) {flags : UInt32} (hw : flags.toNat < 4096) :
    frameOf (pageEntry (frameAddr f) flags) = f := by
  unfold frameOf
  rw [toNat_pageEntry hf hw]
  omega

theorem user_pageEntry {f : ℕ} (hf : f < 2 ^ 20) {flags : UInt32} (hw : flags.toNat < 4096) :
    user (pageEntry (frameAddr f) flags) = user flags := by
  rw [Bool.eq_iff_iff, user_iff, user_iff, toNat_pageEntry hf hw]
  omega

theorem ptIdx_lt (addr : UInt32) : ptIdx addr < 1024 := Nat.mod_lt _ (by omega)

theorem heap_iff (addr : UInt32) : 0xC0000000 ≤ addr ↔ 768 ≤ pdIdx addr := by
  have hc : (0xC0000000 : UInt32).toNat = 0xC0000000 := rfl
  rw [UInt32.le_iff_toNat_le, hc]
  unfold pdIdx
  omega

/-! ### Uses -/

/-- What a frame beyond the kernel is used for. -/
inductive Use where
  | directory
  /-- The table in a slot of the directory `d`. -/
  | table (d i : ℕ)
  | page (d : ℕ)
  | heapTable
  | heapPage
  /-- Taken, and not mapped yet. -/
  | reserved
deriving DecidableEq

namespace Use

/-- What the entries of a table name. -/
def entries : Use → Option Use
  | table d _ => some (page d)
  | heapTable => some heapPage
  | _ => none

/-- The directory whose frames are no longer used without it. -/
def owner : Use → Option ℕ
  | table d _ => some d
  | page d => some d
  | _ => none

end Use

/-- The table in slot `i` of the directory `d`. -/
def tableUse (d i : ℕ) : Use := if i < 768 then .table d i else .heapTable

/-- The pages in that table. -/
def pageUse (d i : ℕ) : Use := if i < 768 then .page d else .heapPage

@[simp] theorem entries_tableUse (d i : ℕ) : (tableUse d i).entries = some (pageUse d i) := by
  unfold tableUse pageUse
  split_ifs <;> rfl

theorem tableUse_ne_directory (d i : ℕ) : tableUse d i ≠ .directory := by
  unfold tableUse
  split_ifs <;> simp

theorem tableUse_eq_table {d i e j : ℕ} (h : tableUse d i = .table e j) : d = e ∧ i = j := by
  unfold tableUse at h
  split_ifs at h
  exact Use.table.inj h

theorem tableUse_heap {i : ℕ} (hi : 768 ≤ i) (d : ℕ) : tableUse d i = .heapTable :=
  if_neg (by omega)

/-- A frame that is marked in the bitmap and not the kernel's. -/
structure Taken (img : Image) (m : Machine) (f : ℕ) : Prop extends InUse img m f where
  lt : f < m.pages.totalMemoryPages.toNat

namespace Taken

variable {img : Image} {m m' : Machine} {f : ℕ}

theorem marked (h : Taken img m f) : m.pages.memoryBitmap.test f = true := by
  cases ht : m.pages.memoryBitmap.test f with
  | true => rfl
  | false => exact absurd ⟨h.lt, ht⟩ h.used

theorem congr (h : Taken img m f) (hp : m'.pages = m.pages) : Taken img m' f :=
  ⟨⟨h.ge, by rw [hp]; exact h.used⟩, by rw [hp]; exact h.lt⟩

theorem total_take (m : Machine) (g : ℕ) :
    (m.take g).pages.totalMemoryPages = m.pages.totalMemoryPages := totalMemoryPages_bitmapSet ..

theorem take (h : Taken img m f) {g : ℕ} (hg : g < 2 ^ 20) : Taken img (m.take g) f :=
  ⟨h.toInUse.take hg, by rw [total_take]; exact h.lt⟩

theorem of_take (h : IsFree img m f) : Taken img (m.take f) f :=
  ⟨.of_take h, by rw [total_take]; exact h.free.1⟩

/-- Another frame is freed. -/
theorem freePage (h : Taken img m f) (hp : PagesInv img m.pages) {g : ℕ} (hg : g < 2 ^ 20)
    (hge : img.kernelEnd.toNat ≤ g * 4096) (hne : f ≠ g) :
    Taken img (m.freePage (frameAddr g)) f := by
  refine ⟨⟨h.ge, fun hf => ?_⟩, ?_⟩
  · obtain hf | hf := (hp.freePage hg hge).2 f hf
    · exact h.used hf
    · exact hne hf
  · show f < (bitmapUnset _ _).totalMemoryPages.toNat
    rw [totalMemoryPages_bitmapUnset]
    exact h.lt

end Taken

@[simp] theorem outOfMemory_setWord (m : Machine) (f i : ℕ) (w : UInt32) :
    (m.setWord f i w).outOfMemory = m.outOfMemory := rfl

theorem outOfMemory_withTable (img : Image) (m : Machine) (virtAddr : UInt32) (f : ℕ) :
    (withTable img m virtAddr f).outOfMemory = m.outOfMemory := by
  unfold withTable
  dsimp only
  split_ifs <;> rfl

/-! ### Layouts -/

/-- The frames that `pmm_alloc_page` may hand out. -/
def freeFrames (m : Machine) : Set ℕ := {f | Free m.pages f}

/-- The kernel's directory, or one that has been created. -/
def IsDirectory (img : Image) (ρ : Ledger ℕ Use) (d : ℕ) : Prop :=
  d = img.pageDirectory ∨ ρ d = some .directory

/-- The entry of a table is for a page of this use; those of the heap are the kernel's only. -/
def EntryOk (ρ : Ledger ℕ Use) (u : Use) (e : UInt32) : Prop :=
  present e = true → ρ (frameOf e) = some u ∧ (u = .heapPage → user e = false)

/-- The frames are used as the ledger says. -/
structure Layout (img : Image) (m : Machine) (ρ : Ledger ℕ Use) : Prop where
  pages : PagesInv img m.pages
  low : LowMapped img m
  taken : ∀ f u, ρ f = some u → Taken img m f
  space : ∀ d, IsDirectory img ρ d → IsSpace img m d
  table : ∀ d, IsDirectory img ρ d → ∀ i, 0 < i → i < 1023 → present (m.frames d i) = true →
    ρ (frameOf (m.frames d i)) = some (tableUse d i)
  entry : ∀ f u v, ρ f = some u → u.entries = some v → ∀ j < 1024, EntryOk ρ v (m.frames f j)
  owned : ∀ f u d, ρ f = some u → u.owner = some d → IsDirectory img ρ d

theorem entryOk_zero (ρ : Ledger ℕ Use) (u : Use) : EntryOk ρ u 0 := by
  intro hp
  rw [present_zero] at hp
  cases hp

namespace Layout

variable {img : Image} {m m' : Machine} {ρ ρ' : Ledger ℕ Use} {d f : ℕ} {u v : Use}

theorem sound (h : Layout img m ρ) : Sound (freeFrames m) ρ :=
  fun f u hu hf => (h.taken f u hu).used hf

theorem isDirectory (h : Layout img m ρ) {P : Use → Prop} {F : Set ℕ}
    (he : Extends P (freeFrames m) F ρ ρ') (hd : IsDirectory img ρ d) : IsDirectory img ρ' d :=
  hd.imp_right (he.of_some h.sound)

/-- A frame used otherwise is no directory. -/
theorem ne_directory (h : Layout img m ρ) (hf : ρ f = some u) (hu : u ≠ .directory)
    (hd : IsDirectory img ρ d) : f ≠ d := by
  rintro rfl
  obtain rfl | hd := hd
  · exact (h.taken _ u hf).ne_directory rfl
  · rw [hf] at hd
    exact hu (Option.some.inj hd)

/-- No directory is in a free frame. -/
theorem ne_free (h : Layout img m ρ) (hf : IsFree img m f) {d : ℕ} (hd : IsDirectory img ρ d) :
    d ≠ f := by
  obtain rfl | hd := hd
  · exact hf.ne_directory.symm
  · exact h.sound.ne hf.free hd

theorem directory_ne_zero (h : Layout img m ρ) (hd : IsDirectory img ρ d) : d ≠ 0 := by
  obtain rfl | hd := hd
  · have := img.directory_mem.1
    omega
  · have h1 := (h.taken d _ hd).ge
    have h2 := img.ge
    omega

theorem ne_lowTable (h : Layout img m ρ) (hd : IsDirectory img ρ d) : img.firstPageTable ≠ d :=
  ne_table_of_space (h.space d hd) h.low

/-- Only tables and pages are written, and the tables still name pages of their use. -/
theorem congr (h : Layout img m ρ) (hpages : m'.pages = m.pages)
    (hlow : m'.frames img.firstPageTable = m.frames img.firstPageTable)
    (hdirs : ∀ d, IsDirectory img ρ d → m'.frames d = m.frames d)
    (hentry : ∀ f u v, ρ f = some u → u.entries = some v → ∀ j < 1024,
      EntryOk ρ v (m'.frames f j)) : Layout img m' ρ := by
  refine ⟨?_, fun i hi => ?_, fun f u hu => (h.taken f u hu).congr hpages, fun d hd => ?_,
    fun d hd => ?_, hentry, h.owned⟩
  · rw [hpages]
    exact h.pages
  · rw [hlow]
    exact h.low i hi
  · have he := hdirs d hd
    exact isSpace_congr (h.space d hd) (congrFun he 0) (congrFun he 1023)
  · rw [hdirs d hd]
    exact h.table d hd

/-- Other directories may be loaded, and the marks set. -/
theorem of_frames (h : Layout img m ρ) (hpages : m'.pages = m.pages)
    (hframes : m'.frames = m.frames) : Layout img m' ρ := by
  refine h.congr hpages (by rw [hframes]) (fun d _ => by rw [hframes]) ?_
  rw [hframes]
  exact h.entry

/-- A word of a page is written. -/
theorem setWord (h : Layout img m ρ) (hf : ρ f = some u) (hu : u ≠ .directory)
    {i : ℕ} {w : UInt32} (hw : ∀ v, u.entries = some v → i < 1024 → EntryOk ρ v w) :
    Layout img (m.setWord f i w) ρ := by
  have hother : ∀ g, g ≠ f → (m.setWord f i w).frames g = m.frames g := by
    intro g hg
    funext j
    rw [Machine.frames_setWord, if_neg (fun e => hg e.1)]
  refine h.congr rfl (hother _ (h.taken f u hf).ne_table.symm)
    (fun d hd => hother d (h.ne_directory hf hu hd).symm) fun g u' v hg hv j hj => ?_
  rw [Machine.frames_setWord]
  split_ifs with he
  · obtain ⟨rfl, rfl⟩ := he
    rw [hf] at hg
    cases hg
    exact hw v hv hj
  · exact h.entry g u' v hg hv j hj

/-! ### Pages -/

theorem entries_ne_reserved (hv : u.entries = some v) : v ≠ .reserved := by
  rintro rfl
  cases u <;> cases hv

/-- A frame without a use gets one, which is not to be a directory or a table. -/
theorem give (h : Layout img m ρ) (hf : ρ f = none ∨ ρ f = some .reserved) (ht : Taken img m f)
    (hu : u.entries = none) (hd : u ≠ .directory)
    (ho : ∀ d, u.owner = some d → IsDirectory img ρ d) : Layout img m (ρ.give f u) := by
  have hkeep : ∀ {g v}, ρ g = some v → v ≠ .reserved → ρ.give f u g = some v := by
    intro g v hg hv
    rw [Ledger.give_of_ne, hg]
    rintro rfl
    obtain hf | hf := hf
    · rw [hf] at hg
      cases hg
    · rw [hf] at hg
      exact hv (Option.some.inj hg).symm
  have hdir : ∀ {d}, IsDirectory img (ρ.give f u) d → IsDirectory img ρ d := by
    intro d hd'
    obtain rfl | he := hd'
    · exact Or.inl rfl
    · obtain ⟨-, he⟩ | ⟨-, he⟩ := Ledger.give_eq_some he
      · exact absurd he.symm hd
      · exact Or.inr he
  have hdir' : ∀ {d}, IsDirectory img ρ d → IsDirectory img (ρ.give f u) d :=
    fun hd' => hd'.imp_right fun e => hkeep e (by simp)
  refine ⟨h.pages, h.low, fun g v hg => ?_, fun d hd' => h.space d (hdir hd'),
    fun d hd' i h0 hi hp => ?_, fun g u' v hg hv j hj hp => ?_, fun g v d hg hv => ?_⟩
  · obtain ⟨rfl, -⟩ | ⟨-, hg⟩ := Ledger.give_eq_some hg
    · exact ht
    · exact h.taken g v hg
  · refine hkeep (h.table d (hdir hd') i h0 hi hp) ?_
    unfold tableUse
    split_ifs <;> simp
  · obtain ⟨-, rfl⟩ | ⟨-, hg⟩ := Ledger.give_eq_some hg
    · rw [hu] at hv
      cases hv
    · obtain ⟨h1, h2⟩ := h.entry g u' v hg hv j hj hp
      exact ⟨hkeep h1 (entries_ne_reserved hv), h2⟩
  · obtain ⟨-, rfl⟩ | ⟨-, hg⟩ := Ledger.give_eq_some hg
    · exact hdir' (ho d hv)
    · exact hdir' (h.owned g v d hg hv)

/-- `pmm_alloc_page` finds a frame that is used for nothing. -/
theorem alloc (h : Layout img m ρ) {p : UInt32} (ha : m.allocPage = (p, m'))
    (ho : m'.outOfMemory = false) : ∃ f, p = frameAddr f ∧ m' = m.take f ∧ IsFree img m f ∧
      ρ f = none ∧ Taken img m' f ∧ Layout img m' ρ ∧ freeFrames m' ⊆ freeFrames m := by
  obtain he | ⟨f, hf, he⟩ := allocPage_cases h.pages
  · rw [he] at ha
    cases ha
    cases ho
  · rw [he] at ha
    cases ha
    have hlt := hf.lt
    refine ⟨f, rfl, rfl, hf, h.sound.eq_none hf.free, .of_take hf, ?_,
      fun g hg => ((Machine.free_take hlt g).1 hg).1⟩
    exact ⟨h.pages.take hlt, h.low, fun g u hg => (h.taken g u hg).take hlt,
      fun d hd => ⟨(h.space d hd).lt, (h.space d hd).low, (h.space d hd).self⟩, h.table, h.entry,
      h.owned⟩

/-- The same with an entry for the frame. -/
theorem allocPage (h : Layout img m ρ) {p : UInt32} (ha : m.allocPage = (p, m'))
    (ho : m'.outOfMemory = false) (hu : u.entries = none) (hd : u ≠ .directory)
    (hown : ∀ d, u.owner = some d → IsDirectory img ρ d) :
    ∃ f, p = frameAddr f ∧ f < 2 ^ 20 ∧ f ∈ freeFrames m ∧ Layout img m' (ρ.give f u) ∧
      Extends (· = u) (freeFrames m) (freeFrames m') ρ (ρ.give f u) := by
  obtain ⟨f, hp, -, hf, hr, ht, h', hsub⟩ := h.alloc ha ho
  exact ⟨f, hp, hf.lt, hf.free, h'.give (Or.inl hr) ht hu hd hown, .give ρ hsub hf.free rfl⟩

/-- A frame that is used for nothing is freed. -/
theorem freePage (h : Layout img m ρ) (hf : ρ f = none) (hlt : f < 2 ^ 20)
    (hge : img.kernelEnd.toNat ≤ f * 4096) : Layout img (m.freePage (frameAddr f)) ρ := by
  have hp := (h.pages.freePage (m := m) hlt hge).1
  refine ⟨hp, h.low, fun g u hg => (h.taken g u hg).freePage h.pages hlt hge ?_,
    fun d hd => ⟨(h.space d hd).lt, (h.space d hd).low, (h.space d hd).self⟩, h.table, h.entry,
    h.owned⟩
  rintro rfl
  rw [hf] at hg
  cases hg

/-- A frame that has not been mapped is given up. -/
theorem unreserve (h : Layout img m ρ) (hf : ρ f = some .reserved) :
    Layout img m (ρ.drop (· = f)) := by
  have hkeep : ∀ {g v}, ρ g = some v → v ≠ .reserved → ρ.drop (· = f) g = some v := by
    intro g v hg hv
    refine Ledger.drop_eq_some.2 ⟨?_, hg⟩
    rintro rfl
    rw [hf] at hg
    exact hv (Option.some.inj hg).symm
  have hdir : ∀ {d}, IsDirectory img (ρ.drop (· = f)) d → IsDirectory img ρ d :=
    fun hd => hd.imp_right fun e => (Ledger.drop_eq_some.1 e).2
  refine ⟨h.pages, h.low, fun g u hg => h.taken g u (Ledger.drop_eq_some.1 hg).2,
    fun d hd => h.space d (hdir hd), fun d hd i h0 hi hp => ?_, fun g u v hg hv j hj hp => ?_,
    fun g u d hg hu => ?_⟩
  · refine hkeep (h.table d (hdir hd) i h0 hi hp) ?_
    unfold tableUse
    split_ifs <;> simp
  · obtain ⟨h1, h2⟩ := h.entry g u v (Ledger.drop_eq_some.1 hg).2 hv j hj hp
    exact ⟨hkeep h1 (entries_ne_reserved hv), h2⟩
  · exact (h.owned g u d (Ledger.drop_eq_some.1 hg).2 hu).imp_right fun e => hkeep e (by simp)

/-- A directory is given up together with its tables and pages. -/
theorem drop (h : Layout img m ρ) (hd : ρ d = some .directory) :
    Layout img m (ρ.drop fun f => f = d ∨ (ρ f).bind Use.owner = some d) := by
  have hne : d ≠ img.pageDirectory := (h.taken d _ hd).ne_directory
  -- what the slots of the other directories name is not dropped
  have hkeep : ∀ {f u}, ρ f = some u → u ≠ .directory → u.owner ≠ some d →
      (ρ.drop fun f => f = d ∨ (ρ f).bind Use.owner = some d) f = some u := by
    intro f u hf hu ho
    refine Ledger.drop_eq_some.2 ⟨?_, hf⟩
    rintro (rfl | he)
    · rw [hf] at hd
      exact hu (Option.some.inj hd)
    · rw [hf] at he
      exact ho he
  have hdir : ∀ {d'}, IsDirectory img (ρ.drop fun f => f = d ∨ (ρ f).bind Use.owner = some d) d' →
      IsDirectory img ρ d' ∧ d' ≠ d := by
    rintro d' (rfl | he)
    · exact ⟨Or.inl rfl, hne.symm⟩
    · obtain ⟨hn, he⟩ := Ledger.drop_eq_some.1 he
      exact ⟨Or.inr he, fun e => hn (Or.inl e)⟩
  refine ⟨h.pages, h.low, fun f u hf => h.taken f u (Ledger.drop_eq_some.1 hf).2,
    fun d' hd' => h.space d' (hdir hd').1, fun d' hd' i h0 hi hp => ?_,
    fun f u v hf hv j hj hp => ?_, fun f u e hf hu => ?_⟩
  · obtain ⟨h1, h2⟩ := hdir hd'
    refine hkeep (h.table d' h1 i h0 hi hp) ?_ ?_
    · unfold tableUse
      split_ifs <;> simp
    · unfold tableUse Use.owner
      split_ifs <;> simp [h2]
  · obtain ⟨hn, hf⟩ := Ledger.drop_eq_some.1 hf
    obtain ⟨h1, h2⟩ := h.entry f u v hf hv j hj hp
    rw [hf] at hn
    refine ⟨hkeep h1 ?_ fun e => hn (Or.inr ?_), h2⟩
    · rintro rfl
      cases u <;> cases hv
    · cases u <;> cases hv
      · exact e
      · cases e
  · obtain ⟨hn, hf⟩ := Ledger.drop_eq_some.1 hf
    rw [hf] at hn
    refine (h.owned f u e hf hu).imp_right fun he => Ledger.drop_eq_some.2 ⟨?_, he⟩
    rintro (rfl | h2)
    · exact hn (Or.inr hu)
    · rw [he] at h2
      cases h2

/-! ### Tables -/

/-- `vmm_map_page` enters the page in the table of its slot, which may be a new one. -/
theorem mapPage_cases (h : Layout img m ρ) (hd : IsDirectory img ρ (frameOf m.cr3))
    {virtAddr physAddr flags : UInt32}
    (hm : vmmMapPage img m virtAddr physAddr flags = some m') (ho : m'.outOfMemory = false) :
    present (m.pde (pdIdx virtAddr)) = true ∧
      m' = m.setWord (frameOf (m.pde (pdIdx virtAddr))) (ptIdx virtAddr)
        (pageEntry physAddr flags) ∨
    present (m.pde (pdIdx virtAddr)) = false ∧
      ∃ g, IsFree img m g ∧ m'.pages = (m.take g).pages ∧ ∀ a j, m'.frames a j =
        if a = g then if j = ptIdx virtAddr then pageEntry physAddr flags else 0
        else if j = pdIdx virtAddr ∧ (a = frameOf m.cr3 ∨ 768 ≤ pdIdx virtAddr ∧
          a = img.pageDirectory) then tableEntry g
        else m.frames a j := by
  have hs := h.space _ hd
  by_cases hp : present (m.pde (pdIdx virtAddr)) = true
  · rw [vmmMapPage_of_present hs.selfMapped hp] at hm
    cases hm
    exact Or.inl ⟨hp, rfl⟩
  rw [Bool.not_eq_true] at hp
  obtain he | ⟨g, hg, he⟩ := allocPage_cases h.pages
  · -- there is no frame for the table
    have hne : 0 ≠ frameOf m.cr3 := (h.directory_ne_zero hd).symm
    rw [vmmMapPage_of_absent (f := 0) hs.selfMapped hp he rfl rfl (by omega) hne] at hm
    cases hm
    rw [outOfMemory_setWord, outOfMemory_withTable] at ho
    cases ho
  have hgd : g ≠ frameOf m.cr3 := (h.ne_free hg hd).symm
  rw [vmmMapPage_of_absent hs.selfMapped hp he rfl rfl hg.lt hgd] at hm
  have hm' := Option.some.inj hm
  refine Or.inr ⟨hp, g, hg, ?_, fun a j => ?_⟩
  · rw [← hm', Machine.pages_setWord, pages_withTable]
  · have hheap := heap_iff virtAddr
    rw [← hm', Machine.frames_setWord, frames_withTable]
    simp only [hheap]
    split_ifs <;> first | rfl | tauto

/-- Under such a directory `vmm_map_page` returns, whether there is a frame for the table or not. -/
theorem exists_mapPage (h : Layout img m ρ) (hd : IsDirectory img ρ (frameOf m.cr3))
    (virtAddr physAddr flags : UInt32) : ∃ m', vmmMapPage img m virtAddr physAddr flags = some m' := by
  have hs := h.space _ hd
  by_cases hp : present (m.pde (pdIdx virtAddr)) = true
  · exact ⟨_, vmmMapPage_of_present hs.selfMapped hp physAddr flags⟩
  rw [Bool.not_eq_true] at hp
  obtain he | ⟨g, hg, he⟩ := allocPage_cases h.pages
  · exact ⟨_, vmmMapPage_of_absent (f := 0) hs.selfMapped hp he rfl rfl (by omega)
      (h.directory_ne_zero hd).symm physAddr flags⟩
  · exact ⟨_, vmmMapPage_of_absent hs.selfMapped hp he rfl rfl hg.lt (h.ne_free hg hd).symm physAddr
      flags⟩

/-- `vmm_map_page` maps a page of the use that the slot is for. -/
theorem mapPage (h : Layout img m ρ) (hd : IsDirectory img ρ (frameOf m.cr3))
    {virtAddr flags : UInt32} (h0 : 0 < pdIdx virtAddr) (hi : pdIdx virtAddr < 1023)
    (hf : ρ f = some (pageUse (frameOf m.cr3) (pdIdx virtAddr))) (hlt : f < 2 ^ 20)
    (hw : flags.toNat < 4096) (hu : 768 ≤ pdIdx virtAddr → user flags = false)
    (hm : vmmMapPage img m virtAddr (frameAddr f) flags = some m')
    (ho : m'.outOfMemory = false) :
    ∃ ρ', Layout img m' ρ' ∧ Extends (· = tableUse (frameOf m.cr3) (pdIdx virtAddr))
      (freeFrames m) (freeFrames m') ρ ρ' := by
  have hentry : ∀ {ρ' : Ledger ℕ Use}, ρ' f = ρ f →
      EntryOk ρ' (pageUse (frameOf m.cr3) (pdIdx virtAddr)) (pageEntry (frameAddr f) flags) := by
    intro ρ' he _
    rw [frameOf_pageEntry hlt hw, user_pageEntry hlt hw, he]
    refine ⟨hf, fun hp => hu ?_⟩
    by_contra hlt'
    unfold pageUse at hp
    rw [if_pos (by omega)] at hp
    cases hp
  obtain ⟨hp, rfl⟩ | ⟨hp, g, hg, hpages, hframes⟩ := h.mapPage_cases hd hm ho
  · -- the table is there
    have ht := h.table _ hd _ h0 hi hp
    refine ⟨ρ, h.setWord ht (tableUse_ne_directory _ _) fun v hv _ => ?_, .shrink subset_rfl⟩
    rw [entries_tableUse] at hv
    cases hv
    exact hentry rfl
  -- it takes the frame `g`
  have hr : ρ g = none := h.sound.eq_none hg.free
  have hgd : ∀ {d}, IsDirectory img ρ d → d ≠ g := h.ne_free hg
  have hfg : f ≠ g := h.sound.ne hg.free hf
  refine ⟨ρ.give g (tableUse (frameOf m.cr3) (pdIdx virtAddr)), ?_,
    .give ρ (fun a ha => ?_) hg.free rfl⟩
  swap
  · unfold freeFrames at ha
    rw [Set.mem_ofPred_eq, hpages] at ha
    exact ((Machine.free_take hg.lt a).1 ha).1
  have hdir : ∀ {d}, IsDirectory img (ρ.give g (tableUse (frameOf m.cr3) (pdIdx virtAddr))) d →
      IsDirectory img ρ d := by
    rintro d (rfl | hd')
    · exact Or.inl rfl
    · obtain ⟨-, he⟩ | ⟨-, he⟩ := Ledger.give_eq_some hd'
      · unfold tableUse at he
        split_ifs at he
      · exact Or.inr he
  -- frames that are no directory keep their words
  have hother : ∀ {a}, a ≠ g → (∀ d, IsDirectory img ρ d → a ≠ d) → m'.frames a = m.frames a := by
    intro a ha hnd
    funext j
    rw [hframes, if_neg ha, if_neg]
    rintro ⟨-, rfl | ⟨-, rfl⟩⟩
    · exact hnd _ hd rfl
    · exact hnd _ (Or.inl rfl) rfl
  refine ⟨?_, fun j hj => ?_, fun a u ha => ?_, fun d hd' => ?_, fun d hd' j hj0 hj hpj => ?_,
    fun a u v ha hv j hj => ?_, fun a u d ha hu => ?_⟩
  · rw [hpages]
    exact h.pages.take hg.lt
  · rw [hother hg.ne_table.symm fun d hd' => h.ne_lowTable hd']
    exact h.low j hj
  · obtain ⟨rfl, -⟩ | ⟨-, ha⟩ := Ledger.give_eq_some ha
    · exact (Taken.of_take hg).congr hpages
    · exact ((h.taken a u ha).take hg.lt).congr hpages
  · have hd' := hdir hd'
    refine isSpace_congr (h.space d hd') ?_ ?_
    · rw [hframes, if_neg (hgd hd'), if_neg]
      rintro ⟨he, -⟩
      omega
    · rw [hframes, if_neg (hgd hd'), if_neg]
      rintro ⟨he, -⟩
      omega
  · have hd' := hdir hd'
    rw [hframes, if_neg (hgd hd')] at hpj ⊢
    split_ifs at hpj ⊢ with hj'
    · -- the new slot
      rw [frameOf_tableEntry hg.lt, Ledger.give_self]
      obtain ⟨rfl, rfl | ⟨hheap, -⟩⟩ := hj'
      · rfl
      · rw [tableUse_heap hheap, tableUse_heap hheap]
    · exact Ledger.give_of_some hr (h.table d hd' j hj0 hj hpj) _
  · obtain ⟨rfl, rfl⟩ | ⟨hag, ha⟩ := Ledger.give_eq_some ha
    · -- the new table has only the new entry
      rw [entries_tableUse] at hv
      cases hv
      rw [hframes, if_pos rfl]
      split_ifs
      · exact hentry (Ledger.give_of_ne ρ hfg _)
      · exact entryOk_zero _ _
    · rw [hother hag fun d hd' => h.ne_directory ha (by rintro rfl; cases hv) hd']
      intro hpj
      obtain ⟨h1, h2⟩ := h.entry a u v ha hv j hj hpj
      exact ⟨Ledger.give_of_some hr h1 _, h2⟩
  · have hold : IsDirectory img ρ d := by
      obtain ⟨-, rfl⟩ | ⟨-, ha⟩ := Ledger.give_eq_some ha
      · unfold tableUse at hu
        split_ifs at hu <;> cases hu
        exact hd
      · exact h.owned a u d ha hu
    exact hold.imp_right fun e => Ledger.give_of_some hr e _

/-! ### Directories -/

theorem writable (h : Layout img m ρ) (hd : IsDirectory img ρ (frameOf m.cr3))
    (hf : IsFree img m f) (hlt : f < 1024) : Writable img (m.take f) f := by
  have hs := h.space _ hd
  exact ⟨⟨hs.lt, hs.low, hs.self⟩, h.low, hlt, (h.ne_free hf hd).symm, hf.ne_table,
    hf.ne_directory⟩

/-- `vmm_create_page_directory` below 4 MB writes the frame that it takes. -/
theorem createPageDirectory_cases (h : Layout img m ρ) (hd : IsDirectory img ρ (frameOf m.cr3))
    {newPd : UInt32} (hc : vmmCreatePageDirectory img m = some (newPd, m')) (h0 : newPd ≠ 0)
    (hlow : newPd < 0x400000) : ∃ f, newPd = frameAddr f ∧ IsFree img m f ∧
      m' = (m.take f).setFrame f (directoryFrame img (m.take f) f) := by
  obtain he | ⟨f, hf, he⟩ := allocPage_cases h.pages
  · unfold vmmCreatePageDirectory at hc
    rw [he] at hc
    cases hc
    exact absurd rfl h0
  have hfst : newPd = frameAddr f := by
    unfold vmmCreatePageDirectory at hc
    rw [he] at hc
    dsimp only at hc
    split_ifs at hc with hz
    · cases hc
      exact absurd rfl h0
    · obtain ⟨_, -, hc⟩ := Option.bind_eq_some_iff.1 hc
      obtain ⟨_, -, hc⟩ := Option.bind_eq_some_iff.1 hc
      obtain ⟨_, -, hc⟩ := Option.bind_eq_some_iff.1 hc
      obtain ⟨_, -, hc⟩ := Option.bind_eq_some_iff.1 hc
      cases hc
      rfl
  have hlt : f < 1024 := by
    have h1 := UInt32.lt_iff_toNat_lt.1 hlow
    have h2 : (0x400000 : UInt32).toNat = 0x400000 := rfl
    rw [hfst, toNat_frameAddr hf.lt] at h1
    omega
  rw [vmmCreatePageDirectory_low he hf.ne_zero (h.writable hd hf hlt)] at hc
  cases hc
  exact ⟨f, rfl, hf, rfl⟩

/-- `vmm_create_page_directory` below 4 MB. -/
theorem createPageDirectory (h : Layout img m ρ) (hd : IsDirectory img ρ (frameOf m.cr3))
    {newPd : UInt32} (hc : vmmCreatePageDirectory img m = some (newPd, m')) (h0 : newPd ≠ 0)
    (ho : m'.outOfMemory = false) (hlow : newPd < 0x400000) :
    ∃ f, newPd = frameAddr f ∧ f < 2 ^ 20 ∧ f ∈ freeFrames m ∧
      Layout img m' (ρ.give f .directory) ∧
      Extends (· = .directory) (freeFrames m) (freeFrames m') ρ (ρ.give f .directory) := by
  obtain ⟨f, rfl, hf, rfl⟩ := h.createPageDirectory_cases hd hc h0 hlow
  have hfd : ∀ {d}, IsDirectory img ρ d → d ≠ f := h.ne_free hf
  have hr : ρ f = none := h.sound.eq_none hf.free
  have hother : ∀ g, g ≠ f →
      ((m.take f).setFrame f (directoryFrame img (m.take f) f)).frames g = m.frames g := by
    intro g hg
    rw [Machine.frames_setFrame, if_neg hg]
    rfl
  have hself : ∀ i < 1024, ((m.take f).setFrame f (directoryFrame img (m.take f) f)).frames f i =
      newDirectory img m f i := by
    intro i hi
    rw [Machine.frames_setFrame, if_pos rfl]
    exact if_pos hi
  have hkeep : ∀ {g u}, ρ g = some u → ρ.give f .directory g = some u :=
    fun hg => Ledger.give_of_some hr hg _
  have hdir : ∀ {d}, IsDirectory img (ρ.give f .directory) d →
      d = f ∨ d ≠ f ∧ IsDirectory img ρ d := by
    rintro d (rfl | hd')
    · exact Or.inr ⟨hf.ne_directory.symm, Or.inl rfl⟩
    · obtain ⟨rfl, -⟩ | ⟨hne, he⟩ := Ledger.give_eq_some hd'
      · exact Or.inl rfl
      · exact Or.inr ⟨hne, Or.inr he⟩
  refine ⟨f, rfl, hf.lt, hf.free, ⟨h.pages.take hf.lt, fun j hj => ?_, fun g u hg => ?_,
    fun d hd' => ?_, fun d hd' i hi0 hi hp => ?_, fun g u v hg hv j hj => ?_,
    fun g u d hg hu => ?_⟩, .give ρ (fun g hg => ((Machine.free_take hf.lt g).1 hg).1) hf.free rfl⟩
  · rw [hother _ hf.ne_table.symm]
    exact h.low j hj
  · obtain ⟨rfl, -⟩ | ⟨-, hg⟩ := Ledger.give_eq_some hg
    · exact (Taken.of_take hf).congr rfl
    · exact ((h.taken g u hg).take hf.lt).congr rfl
  · obtain rfl | ⟨hne, hd'⟩ := hdir hd'
    · refine ⟨hf.lt, ?_, ?_⟩
      · rw [hself _ (by omega)]
        exact (h.space _ (Or.inl rfl)).low
      · rw [hself _ (by omega)]
        rfl
    · have he' := hother d hne
      exact isSpace_congr (h.space d hd') (congrFun he' 0) (congrFun he' 1023)
  · obtain rfl | ⟨hne, hd'⟩ := hdir hd'
    · -- the slots of the heap are the kernel's
      rw [hself _ (by omega)] at hp ⊢
      unfold newDirectory at hp ⊢
      rw [if_neg (by omega), if_neg (by omega)] at hp ⊢
      split_ifs at hp ⊢ with hheap
      · rw [tableUse_heap hheap.1, ← tableUse_heap hheap.1 img.pageDirectory]
        exact hkeep (h.table _ (Or.inl rfl) i hi0 hi hp)
      · rw [present_zero] at hp
        cases hp
    · rw [hother d hne] at hp ⊢
      exact hkeep (h.table d hd' i hi0 hi hp)
  · obtain ⟨-, rfl⟩ | ⟨hne, hg⟩ := Ledger.give_eq_some hg
    · cases hv
    · rw [hother g hne]
      intro hp
      obtain ⟨h1, h2⟩ := h.entry g u v hg hv j hj hp
      exact ⟨hkeep h1, h2⟩
  · obtain ⟨-, rfl⟩ | ⟨-, hg⟩ := Ledger.give_eq_some hg
    · cases hu
    · exact (h.owned g u d hg hu).imp_right hkeep

/-- `page_fault_handler` copies a slot of the heap. -/
theorem pageFault (h : Layout img m ρ) (hd : IsDirectory img ρ (frameOf m.cr3)) {addr : UInt32}
    (hm : pageFaultHandler img m addr = some m') : Layout img m' ρ := by
  by_cases ha : 0xC0000000 ≤ addr ∧ pdIdx addr < 1023
  swap
  · unfold pageFaultHandler at hm
    rw [if_neg (fun e => ha ⟨e.1, e.2.1⟩)] at hm
    cases hm
  obtain ⟨hge, hlt⟩ := ha
  rw [pageFaultHandler_eq (h.space _ hd) hge hlt] at hm
  split_ifs at hm with hp
  cases hm
  have hi := (heap_iff addr).1 hge
  have hother : ∀ g, g ≠ frameOf m.cr3 → (m.setWord (frameOf m.cr3) (pdIdx addr)
      (m.frames img.pageDirectory (pdIdx addr))).frames g = m.frames g := by
    intro g hg
    funext j
    rw [Machine.frames_setWord, if_neg (fun e => hg e.1)]
  have hslot : ∀ d j, j ≠ pdIdx addr → (m.setWord (frameOf m.cr3) (pdIdx addr)
      (m.frames img.pageDirectory (pdIdx addr))).frames d j = m.frames d j := by
    intro d j hj
    rw [Machine.frames_setWord, if_neg (fun e => hj e.2)]
  refine ⟨h.pages, fun j hj => ?_, fun f u hf => (h.taken f u hf).congr rfl,
    fun d hd' => isSpace_congr (h.space d hd') (hslot d 0 (by omega)) (hslot d 1023 (by omega)),
    fun d hd' i hi0 hi' hpi => ?_, fun f u v hf hv j hj => ?_, h.owned⟩
  · rw [hother _ (h.ne_lowTable hd)]
    exact h.low j hj
  · rw [Machine.frames_setWord] at hpi ⊢
    split_ifs at hpi ⊢ with he
    · rw [he.2, tableUse_heap hi, ← tableUse_heap hi img.pageDirectory]
      exact h.table _ (Or.inl rfl) _ (by omega) hlt hp
    · exact h.table d hd' i hi0 hi' hpi
  · rw [hother _ (h.ne_directory hf (by rintro rfl; cases hv) hd)]
    exact h.entry f u v hf hv j hj

/-- After `init_vmm` only the kernel's frames are used. -/
theorem start (hp : PagesInv img m.pages) : Layout img (initVmm img m) (fun _ => none) := by
  have hdir : ∀ {d}, IsDirectory img (fun _ => none) d → d = img.pageDirectory := by
    rintro d (rfl | he)
    · rfl
    · cases he
  refine ⟨hp, lowMapped_initVmm img m, fun f u hf => ?_, fun d hd => ?_,
    fun d hd i hi0 hi hpi => ?_, fun f u v hf => ?_, fun f u d hf => ?_⟩
  · cases hf
  · rw [hdir hd]
    exact isSpace_initVmm img m
  · rw [hdir hd, frames_initVmm_directory] at hpi
    dsimp only at hpi
    rw [if_neg (by omega), if_neg (by omega), present_zero] at hpi
    cases hpi
  · cases hf
  · cases hf

/-- An address that the current directory translates leads to a page of the slot's use. -/
theorem translate (h : Layout img m ρ) (hd : IsDirectory img ρ (frameOf m.cr3)) {addr : UInt32}
    (h0 : 0 < pdIdx addr) (hi : pdIdx addr < 1023) (ht : m.translate addr = some f) :
    ρ f = some (pageUse (frameOf m.cr3) (pdIdx addr)) := by
  unfold Machine.translate at ht
  dsimp only at ht
  split_ifs at ht with hp hp'
  cases ht
  have htable := h.table _ hd _ h0 hi hp
  exact (h.entry _ _ _ htable (entries_tableUse ..) _ (ptIdx_lt addr) hp').1

end Layout

end NosmeriOs.Vmm
