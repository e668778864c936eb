import NosmeriOs.TaskIsolation

/-! # What a new program sees

Every byte that a new program can access from 4 MB up to 3 GB.

* `Copied` and `CodeSpace.copied`: what the copying loop of `create_user_process` has written
  after `n` bytes.  It does not fault (`CodeSpace.exists_copyCode`).
* `programSpace`: the pages of a program that was loaded, and what is in them.
* `createUserTask_heap`: the buffer of the file is left alone while the task is created.
* `createUserProcess_space`: the space of the new task, on frames that were free.
* `userByte_createUserProcess`: the program sees its file, and in the rest of its pages what their
  frames held when they were free. -/

namespace NosmeriOs.Tasks

open Vmm Vfs Heap Ledgers

namespace Kernel

variable {img : Image} {k k' : Kernel} {m m' : Machine} {ρ ρ' : Ledger ℕ Use} {d f n : ℕ}
  {P : ℕ → Option ℕ} {src : ℕ → UInt8}

/-! ### The bytes of the code -/

theorem frames_storeByte_of_ne (m : Machine) {f g : ℕ} (h : g ≠ f) (x : ℕ) (b : UInt8) :
    (storeByte m f x b).frames g = m.frames g := by
  unfold storeByte Machine.setWord
  exact Function.update_of_ne h ..

theorem frameBytes_congr (h : m'.frames f = m.frames f) : frameBytes m' f = frameBytes m f := by
  unfold frameBytes
  rw [h]

/-- The word that four bytes of a frame make. -/
theorem ofLe_frameBytes (m : Machine) (f i : ℕ) :
    Bytes.ofLe (fun j => frameBytes m f (i * 4 + j)) = m.frames f i := by
  rw [← Bytes.ofLe_leByte (m.frames f i)]
  refine Bytes.ofLe_congr fun j hj => ?_
  unfold frameBytes
  rw [show (i * 4 + j) / 4 = i by omega, show (i * 4 + j) % 4 = j by omega]

theorem frameBytes_storeByte (m : Machine) (f x y : ℕ) (b : UInt8) :
    frameBytes (storeByte m f x b) f y = if y = x then b else frameBytes m f y := by
  unfold frameBytes storeByte
  rw [Machine.frames_setWord]
  by_cases hw : y / 4 = x / 4
  · rw [if_pos ⟨rfl, hw⟩, Bytes.leByte_ofLe _ (Nat.mod_lt _ (by omega)), hw]
    by_cases he : y = x
    · rw [if_pos (by rw [he]), if_pos he]
    · rw [if_neg (by omega), if_neg he]
  · rw [if_neg (fun e => hw e.2), if_neg]
    rintro rfl
    exact hw rfl

theorem translate_of_userFrame {addr : UInt32}
    (h : userFrame m (frameOf m.cr3) (addr.toNat / 4096) = some f) : m.translate addr = some f := by
  have hslot : addr.toNat / 4096 / 1024 = pdIdx addr := by
    unfold pdIdx
    omega
  have hentry : addr.toNat / 4096 % 1024 = ptIdx addr := rfl
  unfold userFrame at h
  dsimp only at h
  rw [hslot, hentry] at h
  split_ifs at h with hp
  simp only [Bool.and_eq_true] at hp
  unfold Machine.translate Machine.pde
  dsimp only
  rw [if_pos hp.1.1, if_pos hp.2.1]
  exact h

theorem codeByte_toNat (hn : n < 0x20000000) :
    (USER_CODE_START + UInt32.ofNat n).toNat = CODE_PAGE * 4096 + n := by
  have hc : USER_CODE_START.toNat = 0x40000000 := rfl
  unfold CODE_PAGE
  rw [UInt32.toNat_add, UInt32.toNat_ofNat', hc]
  omega

/-- The first `n` bytes of the code are in their frames `F i`, and nothing else was written. -/
structure Copied (F : ℕ → ℕ) (pages : ℕ) (src : ℕ → UInt8) (m m' : Machine) (n : ℕ) : Prop where
  cr3 : m'.cr3 = m.cr3
  clean : Clean m → Clean m'
  others : ∀ g, (∀ i < pages, g ≠ F i) → m'.frames g = m.frames g
  bytes : ∀ i < pages, ∀ x < 4096, frameBytes m' (F i) x =
    if i * 4096 + x < n then src (i * 4096 + x) else frameBytes m (F i) x

theorem Copied.step {F : ℕ → ℕ} {pages c : ℕ} (h : Copied F pages src m m' n)
    (hc : c = n / 4096) (hlt : c < pages) (hne : ∀ i < pages, ∀ j < pages, F i = F j → i = j) :
    Copied F pages src m (storeByte m' (F c) (n % 4096) (src n)) (n + 1) := by
  refine ⟨h.cr3, fun hm => ⟨(h.clean hm).outOfMemory, (h.clean hm).highDirectory⟩, fun g hg => ?_,
    fun i hi x hx => ?_⟩
  · rw [frames_storeByte_of_ne _ (hg c hlt), h.others g hg]
  · by_cases hic : i = c
    · rw [hic, frameBytes_storeByte]
      by_cases hxn : x = n % 4096
      · have hn : c * 4096 + x = n := by omega
        rw [if_pos hxn, hn, if_pos (by omega)]
      · have hiff : c * 4096 + x < n + 1 ↔ c * 4096 + x < n := by omega
        rw [if_neg hxn, h.bytes c hlt x hx]
        simp only [hiff]
    · have hiff : i * 4096 + x < n + 1 ↔ i * 4096 + x < n := by omega
      rw [frameBytes_congr (frames_storeByte_of_ne _ (fun e => hic (hne i hi c hlt e)) _ _),
        h.bytes i hi x hx]
      simp only [hiff]

/-- A program of at most one page goes to the frame of its first byte, even if the table of the
page is there. -/
theorem copyCode_page (ht : m.translate USER_CODE_START = some f) (src : ℕ → UInt8)
    (hn : n ≤ 4096) :
    ∃ m', copyCode m src n = some m' ∧ Copied (fun _ => f) 1 src m m' n := by
  suffices hs : ∃ s, copyLoop m src n = some s ∧ Copied (fun _ => f) 1 src m s.1 n ∧
      (0 < n → s.2 = f) by
    obtain ⟨s, hs, hcopied, -⟩ := hs
    exact ⟨s.1, Option.map_eq_some_iff.2 ⟨s, hs, rfl⟩, hcopied⟩
  induction n with
  | zero =>
      exact ⟨_, rfl, ⟨rfl, id, fun _ _ => rfl, fun i _ x _ => by simp⟩,
        fun h0 => absurd h0 (lt_irrefl 0)⟩
  | succ n ih =>
      obtain ⟨s, hs, hcopied, hkept⟩ := ih (by omega)
      have hstep := hcopied.step (show 0 = n / 4096 by omega) one_pos fun i hi j hj _ => by omega
      have hf : (if n % 4096 = 0 then s.1.translate (USER_CODE_START + UInt32.ofNat n)
          else some s.2) = some f := by
        split_ifs with h0
        · obtain rfl : n = 0 := by omega
          cases hs
          exact ht
        · rw [hkept (by omega)]
      rw [copyLoop_succ, hs, Option.bind_some, hf]
      exact ⟨_, rfl, hstep, fun _ => rfl⟩

/-- The code pages of the space that is loaded are in the frames `F i`. -/
structure CodeSpace (img : Image) (m : Machine) (ρ : Ledger ℕ Use) (P : ℕ → Option ℕ) (F : ℕ → ℕ)
    (pages : ℕ) : Prop where
  layout : Layout img m ρ
  directory : IsDirectory img ρ (frameOf m.cr3)
  maps : Maps m (frameOf m.cr3) P
  le : pages ≤ 0x20000
  code : ∀ i < pages, P (CODE_PAGE + i) = some (F i)
  leaf : ∀ i < pages, Leaf ρ (F i)
  inj : ∀ i < pages, ∀ j < pages, F i = F j → i = j

namespace CodeSpace

variable {F : ℕ → ℕ} {pages : ℕ}

/-- The directory and the tables are those from before the loop. -/
theorem maps_copied (h : CodeSpace img m ρ P F pages) (hc : Copied F pages src m m' n) :
    Maps m' (frameOf m.cr3) P := by
  refine h.maps.carries h.layout h.directory fun g hg => hc.others g ?_
  rintro i hi rfl
  exact hg (h.leaf i hi)

/-- The next byte goes to its page. -/
theorem translate (h : CodeSpace img m ρ P F pages) (hc : Copied F pages src m m' n)
    (hn : n / 4096 < pages) :
    m'.translate (USER_CODE_START + UInt32.ofNat n) = some (F (n / 4096)) := by
  have hle := h.le
  have hpage : CODE_PAGE = 0x40000 := rfl
  have huser := (h.maps_copied hc).pages (CODE_PAGE + n / 4096) (by omega) (by omega)
  rw [h.code _ hn, ← hc.cr3] at huser
  apply translate_of_userFrame
  rw [codeByte_toNat (by omega), ← huser]
  congr 1
  omega

/-- The copying loop, which keeps the frame of the page that it is in. -/
theorem copied_copyLoop (h : CodeSpace img m ρ P F pages) (hn : n ≤ pages * 4096) {s : Machine × ℕ}
    (hs : copyLoop m src n = some s) :
    Copied F pages src m s.1 n ∧ (n % 4096 ≠ 0 → s.2 = F (n / 4096)) := by
  induction n generalizing s with
  | zero =>
      cases hs
      exact ⟨⟨rfl, id, fun _ _ => rfl, fun i _ x _ => by simp⟩, fun h0 => absurd rfl h0⟩
  | succ n ih =>
      rw [copyLoop_succ] at hs
      obtain ⟨s₁, h1, hs⟩ := Option.bind_eq_some_iff.1 hs
      obtain ⟨f, hf, rfl⟩ := Option.map_eq_some_iff.1 hs
      obtain ⟨hcopied, hkept⟩ := ih (by omega) h1
      have hc : n / 4096 < pages := by omega
      obtain rfl : F (n / 4096) = f := by
        split_ifs at hf with h0
        · exact Option.some.inj ((h.translate hcopied hc).symm.trans hf)
        · exact (hkept h0).symm.trans (Option.some.inj hf)
      refine ⟨hcopied.step rfl hc h.inj, fun h0 => ?_⟩
      rw [show (n + 1) / 4096 = n / 4096 by omega]

theorem copied (h : CodeSpace img m ρ P F pages) (hn : n ≤ pages * 4096)
    (hm : copyCode m src n = some m') : Copied F pages src m m' n := by
  obtain ⟨s, hs, rfl⟩ := Option.map_eq_some_iff.1 hm
  exact (h.copied_copyLoop hn hs).1

/-- It does not fault. -/
theorem exists_copyCode (h : CodeSpace img m ρ P F pages) (src : ℕ → UInt8)
    (hn : n ≤ pages * 4096) : ∃ m', copyCode m src n = some m' := by
  suffices hs : ∃ s, copyLoop m src n = some s by
    obtain ⟨s, hs⟩ := hs
    exact ⟨s.1, Option.map_eq_some_iff.2 ⟨s, hs, rfl⟩⟩
  induction n with
  | zero => exact ⟨_, rfl⟩
  | succ n ih =>
      obtain ⟨s, hs⟩ := ih (by omega)
      rw [copyLoop_succ, hs, Option.bind_some]
      split_ifs
      · rw [h.translate (h.copied_copyLoop (by omega) hs).1 (by omega)]
        exact ⟨_, rfl⟩
      · exact ⟨_, rfl⟩

end CodeSpace

/-- Another directory is loaded. -/
theorem NewSpace.switch (h : NewSpace img m ρ m' ρ' d f) (cr3 : UInt32) :
    NewSpace img m ρ { m' with cr3 := cr3 } ρ' d f :=
  ⟨h.layout.of_frames rfl rfl, h.directory, h.directory_free, h.stack, h.noCode, h.gains,
    h.carries.trans (.of_frames subset_rfl (fun _ hf => hf) rfl), h.stack_free, h.stack_eq,
    h.maps.of_frames rfl⟩

/-- The page of the user stack. -/
def STACK_PAGE : ℕ := USER_STACK_BOTTOM.toNat / 4096

/-- The space of a new program on the machine `m'`: the directory in frame `d` has the stack in
frame `f`, which was not written since the machine `m`, and the code in the frames `F i`, of which
the first `n` bytes were written. -/
structure ProgramSpace (m m' : Machine) (d f : ℕ) (F : ℕ → ℕ) (pages : ℕ) (src : ℕ → UInt8)
    (n : ℕ) : Prop where
  stack : userFrame m' d STACK_PAGE = some f
  stack_eq : m'.frames f = m.frames f
  code : ∀ i < pages, userFrame m' d (CODE_PAGE + i) = some (F i)
  code_eq : ∀ i < pages, ∀ x < 4096, frameBytes m' (F i) x =
    if i * 4096 + x < n then src (i * 4096 + x) else frameBytes m (F i) x
  others : ∀ v, 1024 ≤ v → v < 768 * 1024 → v ≠ STACK_PAGE →
    ¬ (CODE_PAGE ≤ v ∧ v < CODE_PAGE + pages) → userFrame m' d v = none

/-- The pages with the stack and `pages` pages of code. -/
def programPages (img : Image) (m : Machine) (f pages : ℕ) : ℕ → Option ℕ :=
  codePages img m (Function.update (fun _ => none) STACK_PAGE (some f)) pages

/-- The code is mapped in a new space. -/
theorem CodeMapped.codeSpace {ρ'' : Ledger ℕ Use} {m'' : Machine} {pages : ℕ}
    (hc : CodeMapped img m' ρ' m'' ρ'' d pages) (hn : NewSpace img m ρ m' ρ' d f)
    (hcr3 : frameOf m''.cr3 = d) (hpages : pages ≤ 0x20000) :
    CodeSpace img m'' ρ'' (programPages img m' f pages) (codeFrame img m') pages := by
  refine ⟨hc.layout, ?_, ?_, hpages, fun i hi => ?_, fun i hi => .of_page (hc.page i hi),
    fun i hi j hj he => ?_⟩
  · rw [hcr3]
    exact Or.inr (hc.gains.of_some hn.layout.sound hn.directory)
  · rw [hcr3]
    exact hc.maps _ hn.maps
  · unfold programPages codePages
    rw [if_pos ⟨by omega, by omega⟩, Nat.add_sub_cancel_left]
  · obtain hlt | he' | hlt := Nat.lt_trichotomy i j
    · exact absurd he (hc.ne j hj i hlt)
    · exact he'
    · exact absurd he.symm (hc.ne i hi j hlt)

/-- The program is copied to the new space. -/
theorem programSpace {mA m₂ m₁ : Machine} {ρA ρ₂ ρ₁ : Ledger ℕ Use} {pages : ℕ}
    (hg : Grown img m ρ mA ρA) (hn : NewSpace img mA ρA m₂ ρ₂ d f)
    (hc : CodeMapped img m₂ ρ₂ m₁ ρ₁ d pages) (hcr3 : frameOf m₁.cr3 = d) (hpages : pages ≤ 0x20000)
    (hsize : n ≤ pages * 4096) (hcopy : copyCode m₁ src n = some m') :
    ProgramSpace m m' d f (codeFrame img m₂) pages src n := by
  have hcode := hc.codeSpace hn hcr3 hpages
  have hcopied := hcode.copied hsize hcopy
  have hmaps := hcode.maps_copied hcopied
  rw [hcr3] at hmaps
  have hcp : CODE_PAGE = 0x40000 := rfl
  have hsp : STACK_PAGE = 0xBFFFE := rfl
  refine ⟨?_, ?_, fun i hi => ?_, fun i hi x hx => ?_, fun v h1 h2 hv hv' => ?_⟩
  · rw [hmaps.pages _ (by omega) (by omega), programPages, codePages, if_neg (by omega),
      Function.update_self]
  · -- the stack was in use when frames for the code were taken
    have hnot : ∀ i < pages, f ≠ codeFrame img m₂ i := fun i hi =>
      hn.layout.sound.ne (hc.free i hi) hn.stack
    rw [hcopied.others f hnot, hc.carries.frames f (Or.inr (.of_page hn.stack)), hn.stack_eq,
      hg.carries.frames f (Or.inl hn.stack_free)]
  · rw [hmaps.pages _ (by omega) (by omega)]
    exact hcode.code i hi
  · have hfree := hc.free i hi
    have hold : m₁.frames (codeFrame img m₂ i) = m.frames (codeFrame img m₂ i) := by
      rw [hc.code_eq i hi, hn.carries.frames _ (Or.inl hfree),
        hg.carries.frames _ (Or.inl (hn.carries.free hfree))]
    rw [hcopied.bytes i hi x hx, frameBytes_congr hold]
  · rw [hmaps.pages v h1 h2, programPages, codePages, if_neg hv', Function.update_of_ne hv]

/-! ### The buffer of the file -/

section heap
variable {H : Heap.State → Prop} {ptrs : List ℕ} {buf t : ℕ}

/-- What `kmalloc` keeps, `create_user_task` keeps when it succeeds: it frees nothing then. -/
theorem kmalloc_heap (hH : ∀ h bytes s, H h → H (Heap.kmalloc (growHeap img) bytes h s).2.1)
    {bytes : UInt32} {p : ℕ} (h : k.kmalloc img bytes = some (p, k')) (hk : H k.heap) :
    H k'.heap := by
  obtain ⟨heap, machine, rfl, he⟩ := kmalloc_some h
  have hkeep := hH k.heap bytes (some k.machine) hk
  rw [he] at hkeep
  exact hkeep

theorem createFile_heap (hH : ∀ h bytes s, H h → H (Heap.kmalloc (growHeap img) bytes h s).2.1)
    {type : FileType} {ops : FileOps} {f : ℕ} (h : k.createFile img type ops = some (f, k'))
    (hk : H k.heap) : H k'.heap := by
  obtain ⟨⟨p, k₁⟩, h1, h⟩ := Option.bind_eq_some_iff.1 h
  cases h
  have hk₁ : H k₁.heap := kmalloc_heap hH h1 hk
  exact hk₁

theorem initTaskFds_heap (hH : ∀ h bytes s, H h → H (Heap.kmalloc (growHeap img) bytes h s).2.1)
    (h : k.initTaskFds img t = some k') (hk : H k.heap) : H k'.heap := by
  obtain ⟨⟨f₀, k₁⟩, h1, h⟩ := Option.bind_eq_some_iff.1 h
  obtain ⟨⟨f₁, k₂⟩, h2, h⟩ := Option.bind_eq_some_iff.1 h
  obtain ⟨⟨f₂, k₃⟩, h3, h⟩ := Option.bind_eq_some_iff.1 h
  cases h
  have hk₁ : H k₁.heap := createFile_heap hH h1 hk
  have hk₂ : H k₂.heap := createFile_heap hH h2 hk₁
  have hk₃ : H k₃.heap := createFile_heap hH h3 hk₂
  exact hk₃

theorem createUserTask_heap
    (hH : ∀ h bytes s, H h → H (Heap.kmalloc (growHeap img) bytes h s).2.1)
    (h : k.createUserTask img = some (t, k')) (ht : t ≠ 0) (hk : H k.heap) : H k'.heap := by
  obtain ⟨⟨kstack, k₁⟩, h1, h⟩ := Option.bind_eq_some_iff.1 h
  dsimp only at h
  by_cases h0 : kstack = 0 ∨ k₁.machine.allocPage.1 = 0
  · rw [if_pos h0] at h
    cases h
    exact absurd rfl ht
  rw [if_neg h0] at h
  obtain ⟨⟨t', k₂⟩, h2, h⟩ := Option.bind_eq_some_iff.1 h
  dsimp only at h
  split_ifs at h with ht'
  · cases h
    exact absurd rfl ht
  obtain ⟨⟨cr3, m⟩, -, h⟩ := Option.bind_eq_some_iff.1 h
  obtain ⟨k₃, h4, h⟩ := Option.bind_eq_some_iff.1 h
  cases h
  obtain ⟨k₄, h5, h4⟩ := Option.bind_eq_some_iff.1 h4
  cases h4
  have hk₁ : H k₁.heap := kmalloc_heap hH h1 hk
  have hk₂ : H k₂.heap := kmalloc_heap hH h2 hk₁
  have hk₄ : H k₄.heap := initTaskFds_heap hH h5 hk₂
  exact hk₄

/-- The buffer of the file stays what it is while the task is created. -/
theorem hasBytes_createUserTask {k₁ : Kernel} {size : UInt32} (ho : Owns k.heap ptrs)
    (h : k.kmalloc img size = some (buf, k₁)) (hbuf : buf ≠ 0)
    (hsize : size.toNat ≤ alignedSize size)
    (h' : k₁.createUserTask img = some (t, k')) (ht : t ≠ 0) :
    HasBytes k'.heap buf size.toNat fun i => k₁.heap.mem (buf + i) := by
  obtain ⟨heap, machine, rfl, he⟩ := kmalloc_some h
  have hnew := ho.hasBytes (growHeap img) (some k.machine) hsize (by rw [he]; exact hbuf)
  rw [he] at hnew
  exact createUserTask_heap
    (H := fun h => HasBytes h buf size.toNat fun i => heap.mem (buf + i))
    (fun _ bytes s hb => hb.kmalloc _ bytes s) h' ht hnew

/-- The buffer has the bytes that `vfs_read` found there, while the task is created. -/
theorem bufferBytes_createUserTask {k₁ : Kernel} {file : Program} (ho : Owns k.heap ptrs)
    (h : k.kmalloc img file.size = some (buf, k₁)) (hbuf : buf ≠ 0)
    (hsize : file.size.toNat ≤ alignedSize file.size)
    (h' : k₁.createUserTask img = some (t, k')) (ht : t ≠ 0) {i : ℕ} (hi : i < file.size.toNat) :
    k'.bufferBytes file buf i = k₁.bufferBytes file buf i := by
  obtain ⟨_, _, -, -, -, -, hbytes⟩ := hasBytes_createUserTask ho h hbuf hsize h' ht
  unfold bufferBytes
  rw [hbytes i hi]

end heap

/-! ### The bytes of the new space -/

/-- What user mode reads at the address, in the space of the task. -/
def userByte (k : Kernel) (t : ℕ) (addr : UInt32) : Option UInt8 :=
  (userFrame k.machine (frameOf (k.tasks t).cr3) (addr.toNat / 4096)).map fun f =>
    frameBytes k.machine f (addr.toNat % 4096)

/-- The pages of a program. -/
def pageCnt (size : UInt32) : ℕ := ((size + 4096 - 1) / 4096).toNat

section space
variable (img) (k)

/-- The frame that is free for the stack, after the buffer and the kernel stack. -/
def stackFrame (size : UInt32) : ℕ :=
  ((k.kmalloc img size).bind fun a => (a.2.kmalloc img TASK_STACK_SIZE).map fun b =>
    frameOf b.2.machine.allocPage.1).getD 0

/-- The frame that is free for the code page `i`, after the task. -/
def programFrame (size : UInt32) (i : ℕ) : ℕ :=
  ((k.kmalloc img size).bind fun a => (a.2.createUserTask img).map fun b =>
    codeFrame img { b.2.machine with cr3 := (b.2.tasks b.1).cr3 } i).getD 0

/-- What is in the buffer before `vfs_read`. -/
def freshByte (size : UInt32) (i : ℕ) : UInt8 :=
  ((k.kmalloc img size).map fun a => a.2.heap.mem (a.1 + i)).getD 0

/-- The file, and behind it what the frame of the last page held. -/
def codeByte (file : Program) (i : ℕ) : UInt8 :=
  if i < file.size.toNat then file.data.getD i (freshByte img k file.size i)
  else frameBytes k.machine (programFrame img k file.size (i / 4096)) (i % 4096)

/-- What a program that is loaded now will see at the address. -/
def seen (file : Program) (addr : UInt32) : Option UInt8 :=
  if CODE_PAGE ≤ addr.toNat / 4096 ∧ addr.toNat / 4096 < CODE_PAGE + pageCnt file.size then
    some (codeByte img k file (addr.toNat - CODE_PAGE * 4096))
  else if addr.toNat / 4096 = STACK_PAGE then
    some (frameBytes k.machine (stackFrame img k file.size) (addr.toNat % 4096))
  else none

end space

section loaded
variable {buffers l : List ℕ} {t : ℕ} {file : Program}

theorem pageCnt_eq {size : UInt32} (h : size.toNat ≤ 0x20000000) :
    pageCnt size = (size.toNat + 4095) / 4096 := by
  have h4096 : (4096 : UInt32).toNat = 4096 := rfl
  have hpages := Pmm.toNat_add_page_sub_one size
  unfold Pmm.PAGE_SIZE at hpages
  unfold pageCnt
  rw [UInt32.toNat_div, hpages, h4096]
  omega

theorem le_pageCnt {size : UInt32} (h : size.toNat ≤ 0x20000000) :
    size.toNat ≤ pageCnt size * 4096 ∧ size.toNat ≤ alignedSize size := by
  have h3 : (3 : UInt32).toNat = 3 := rfl
  have h4 : (4 : UInt32).toNat = 4 := rfl
  unfold alignedSize
  constructor
  · rw [pageCnt_eq h]
    omega
  · rw [UInt32.toNat_mul, UInt32.toNat_div, UInt32.toNat_add, h3, h4]
    omega

theorem offset_of_page {a c i : ℕ} (h : a / 4096 = c + i) :
    a - c * 4096 = i * 4096 + a % 4096 := by omega

theorem page_offset {i x : ℕ} (hx : x < 4096) :
    (i * 4096 + x) / 4096 = i ∧ (i * 4096 + x) % 4096 = x := by omega

/-- The space of the program, byte for byte. -/
theorem ProgramSpace.seen {F : ℕ → ℕ}
    (h : ProgramSpace k.machine m' d f F (pageCnt file.size) src file.size.toNat)
    (hstack : stackFrame img k file.size = f) (hcode : ∀ i, programFrame img k file.size i = F i)
    (hsrc : ∀ i < file.size.toNat, src i = file.data.getD i (freshByte img k file.size i))
    {addr : UInt32} (h0 : 0 < pdIdx addr) (hi : pdIdx addr < 768) :
    ((userFrame m' d (addr.toNat / 4096)).map fun g => frameBytes m' g (addr.toNat % 4096)) =
      seen img k file addr := by
  unfold pdIdx at h0 hi
  unfold Kernel.seen
  split_ifs with hin hs
  · obtain ⟨i, he⟩ : ∃ i, addr.toNat / 4096 = CODE_PAGE + i := ⟨_, (Nat.add_sub_of_le hin.1).symm⟩
    have hlt : i < pageCnt file.size := by omega
    have hx : addr.toNat % 4096 < 4096 := Nat.mod_lt _ (by omega)
    rw [offset_of_page he, he, h.code i hlt, Option.map_some, h.code_eq i hlt _ hx]
    unfold codeByte
    split_ifs with hsize
    · rw [hsrc _ hsize]
    · rw [(page_offset hx).1, (page_offset hx).2, hcode]
  · rw [hs, h.stack, Option.map_some, frameBytes_congr h.stack_eq, hstack]
  · rw [h.others _ (by omega) (by omega) hs hin, Option.map_none]

/-- The space of the task that `create_user_process` has created, with nothing loaded there. -/
theorem createUserTask_newSpace {buf : ℕ} {k₁ k₂ : Kernel} (hf : Frames img k ρ)
    (hctx : k.ContextOk) (hc : Consistent img k buffers l)
    (h1 : k.kmalloc img file.size = some (buf, k₁)) (h0 : buf ≠ 0)
    (h2 : k₁.createUserTask img = some (t, k₂)) (ht : t ≠ 0) (hclean : Clean k₂.machine) :
    alignedSize file.size ≤ HEAP_MAX_ADDR - HEAP_START ∧ k₂.current.cr3 = k.current.cr3 ∧
    (k₂.tasks t).userStackBottom = frameAddr (stackFrame img k file.size) ∧
    ∃ mA ρA ρ₂ d, (k₂.tasks t).cr3 = frameAddr d ∧ d < 2 ^ 20 ∧ Grown img k.machine ρ mA ρA ∧
      NewSpace img mA ρA k₂.machine ρ₂ d (stackFrame img k file.size) ∧
      Confined img d k.machine ρ k₂.machine ∧ UserOnly k₂.machine d := by
  have hstack : ∀ kstack kA, k₁.kmalloc img TASK_STACK_SIZE = some (kstack, kA) →
      stackFrame img k file.size = frameOf kA.machine.allocPage.1 := by
    intro kstack kA hA
    unfold stackFrame
    rw [h1, Option.bind_some, hA]
    rfl
  obtain ⟨heap₁, machine₁, rfl, hg1, ⟨he, -⟩ | ⟨-, hsize, ho1⟩⟩ := kmalloc_cases h1 hc.owns
  · exact absurd he h0
  obtain ⟨hcr, kstack, stack, cr3, kA, hA, hh, -, hsp⟩ :=
    createUserTask_spawned h2 ht (hc.currentHeld.cons buf) ho1
  obtain ⟨heapA, machineA, rfl, hgA, -⟩ := kmalloc_cases hA ho1
  have hgrows := hg1.trans hgA
  have hcur : machineA.cr3 = k.current.cr3 := hgrows.keeps.cr3.trans hctx.cr3
  have hdir := Framed.current_isDirectory hctx hc hf
  obtain ⟨ρA, hgrown, hconfA⟩ :=
    hgrows.grown hf.layout hdir ((hsp.keeps hcur).clean hclean).outOfMemory
  have hdA : IsDirectory img ρA (frameOf machineA.cr3) := by
    rw [hgrows.keeps.cr3]
    exact hf.layout.isDirectory hgrown.extend hdir
  obtain ⟨ρ₂, d, f, rfl, rfl, hdlt, hflt, hn, hconf, huser⟩ := hsp.newSpace hgrown.layout hdA hcur
    hclean.outOfMemory hclean.highDirectory
  have hframe : stackFrame img k file.size = f := by
    obtain ⟨halloc, -⟩ := hsp
    rw [hstack _ _ hA, halloc]
    exact frameOf_frameAddr hflt
  refine ⟨hsize, ?_, hframe ▸ hh.userStack, machineA, ρA, ρ₂, d, hh.cr3, hdlt, hgrown, hframe ▸ hn,
    (hconfA d).trans hconf fun _ _ hu _ => hgrown.extend.of_some hf.layout.sound hu, huser⟩
  unfold Kernel.current
  rw [hcr.currentTask, hcr.current]
  rfl

theorem clean_createUserProcess (hctx : k.ContextOk) (hc : Consistent img k buffers l)
    (h : k.createUserProcess img (some file) = some (t, k')) (ht : t ≠ 0)
    (hclean : Clean k'.machine) : Clean k.machine := by
  obtain ⟨he, -⟩ | ⟨-, -, _, _, _, _, _, -, -, hs, -, hl⟩ :=
    createUserProcess_cases h hc.currentHeld hc.owns
  · exact absurd he ht
  · have hkeeps := hs.keeps hctx.cr3
    exact hkeeps.clean ((hl.keeps (hkeeps.cr3.trans hctx.cr3)).clean hclean)

/-- A new process takes frames that were free, and maps pages for the user to read and write. -/
structure TakesFree (img : Image) (k : Kernel) (ρ : Ledger ℕ Use) (size : UInt32) (m' : Machine)
    (d : ℕ) : Prop where
  directory : d ∈ freeFrames k.machine
  stack : stackFrame img k size ∈ freeFrames k.machine
  code : ∀ i < pageCnt size, programFrame img k size i ∈ freeFrames k.machine
  userOnly : UserOnly m' d
  confined : Confined img d k.machine ρ m'

/-- The space of a program that has been loaded, and the buffer that it was copied from. -/
theorem createUserProcess_space (hf : Frames img k ρ) (hctx : k.ContextOk)
    (hc : Consistent img k buffers l) (h : k.createUserProcess img (some file) = some (t, k'))
    (ht : t ≠ 0) (hclean : Clean k'.machine) :
    file.size.toNat ≤ pageCnt file.size * 4096 ∧ pageCnt file.size ≤ 0x20000 ∧
    ∃ d buf k₁ k₂, (k'.tasks t).cr3 = frameAddr d ∧ d < 2 ^ 20 ∧
      k.kmalloc img file.size = some (buf, k₁) ∧ buf ≠ 0 ∧
      k₁.createUserTask img = some (t, k₂) ∧
      ProgramSpace k.machine k'.machine d (stackFrame img k file.size)
        (programFrame img k file.size) (pageCnt file.size) (k₂.bufferBytes file buf)
        file.size.toNat ∧
      (k'.tasks t).userStackBottom = frameAddr (stackFrame img k file.size) ∧
      (∀ i < pageCnt file.size, programFrame img k file.size i ≠ stackFrame img k file.size) ∧
      TakesFree img k ρ file.size k'.machine d := by
  obtain ⟨buf, k₁, k₂, m₁, m₂, h1, h0, h2, hmap, hcopy, rfl⟩ := createUserProcess_loaded h ht
  have hprogram : programFrame img k file.size =
      codeFrame img { k₂.machine with cr3 := (k₂.tasks t).cr3 } := by
    funext i
    unfold programFrame
    rw [h1, Option.bind_some, h2]
    rfl
  -- no step has failed
  have hclean₁ : Clean m₁ := (keeps_copyCode hcopy).clean ⟨hclean.outOfMemory, hclean.highDirectory⟩
  have hclean₂ : Clean k₂.machine := by
    have hmapped := (keeps_mapCode hmap).clean hclean₁
    exact ⟨hmapped.outOfMemory, hmapped.highDirectory⟩
  obtain ⟨hsize, -, hstack, mA, ρA, ρ₂, d, hcr3, hdlt, hgrown, hn, hconf₂, huser₂⟩ :=
    createUserTask_newSpace hf hctx hc h1 h0 h2 ht hclean₂
  have hd : frameOf (k₂.tasks t).cr3 = d := by
    rw [hcr3]
    exact frameOf_frameAddr hdlt
  have hn' := hn.switch (k₂.tasks t).cr3
  obtain ⟨hle, hpages⟩ := codeSize_le hn'.layout hn.directory hd hn.noCode hsize hmap hcopy
  obtain ⟨hcnt, -⟩ := le_pageCnt hle
  obtain ⟨ρ₁, hmapped, hconf₁, huser₁⟩ :=
    codeMapped hpages hn'.layout hn.directory hd hmap hclean₁.outOfMemory
  have hcr3₁ : frameOf m₁.cr3 = d := by
    rw [(keeps_mapCode hmap).cr3]
    exact hd
  have hspace := programSpace hgrown hn' hmapped hcr3₁ hpages hcnt hcopy
  rw [← hprogram] at hspace
  -- the pages are copied to, and nothing else
  have hcode := hmapped.codeSpace hn' hcr3₁ hpages
  have hcopied := hcode.copied hcnt hcopy
  have hleaves : Confined img (d + 1) m₁ ρ₁ m₂ ∧ Confined img d m₁ ρ₁ m₂ := by
    have hframes : ∀ g, ¬ Leaf ρ₁ g → m₂.frames g = m₁.frames g := by
      intro g hg
      apply hcopied.others
      rintro i hi rfl
      exact hg (hcode.leaf i hi)
    exact ⟨.of_leaves hmapped.layout hframes, .of_leaves hmapped.layout hframes⟩
  have hkeep₂ : ∀ g u, ρ g = some u → ρ₂ g = some u := fun g u hu =>
    hn.gains.of_some hgrown.layout.sound (hgrown.extend.of_some hf.layout.sound hu)
  have hconf : Confined img d k.machine ρ m₂ := by
    refine (hconf₂.trans ?_ fun g u hu _ => hkeep₂ g u hu).trans hleaves.2
      fun g u hu _ => hmapped.gains.of_some hn'.layout.sound (hkeep₂ g u hu)
    exact ⟨hconf₁.slots, hconf₁.tables⟩
  have huser : UserOnly m₂ d :=
    hleaves.1.userOnly hmapped.layout (by rw [← hcr3₁]; exact hcode.directory) (by omega)
      (huser₁ ⟨huser₂.slots, huser₂.entries⟩)
  refine ⟨hcnt, hpages, d, buf, k₁, k₂, ?_, hdlt, h1, h0, h2, ?_, ?_, fun i hi => ?_, ?_, ?_,
    fun i hi => ?_, ?_, ?_⟩
  · simp only [setTask, Function.update_self, hcr3]
  · exact ⟨hspace.stack, hspace.stack_eq, hspace.code, hspace.code_eq, hspace.others⟩
  · simp only [setTask, Function.update_self, hstack]
  · rw [hprogram]
    exact (hn'.layout.sound.ne (hmapped.free i hi) hn'.stack).symm
  · exact hgrown.extend.free hn.directory_free
  · exact hgrown.extend.free hn.stack_free
  · rw [hprogram]
    exact hgrown.extend.free (hn'.carries.free (hmapped.free i hi))
  · exact ⟨huser.slots, huser.entries⟩
  · exact ⟨hconf.slots, hconf.tables⟩

/-- The buffer has the file, and what was there before when nothing was read. -/
theorem bufferBytes_eq {buf : ℕ} {k₁ k₂ : Kernel} (hc : Consistent img k buffers l)
    (h1 : k.kmalloc img file.size = some (buf, k₁)) (h0 : buf ≠ 0)
    (hle : file.size.toNat ≤ 0x20000000)
    (h2 : k₁.createUserTask img = some (t, k₂)) (ht : t ≠ 0) {i : ℕ} (hi : i < file.size.toNat) :
    k₂.bufferBytes file buf i = file.data.getD i (freshByte img k file.size i) := by
  have hfresh : freshByte img k file.size i = k₁.heap.mem (buf + i) := by
    unfold freshByte
    rw [h1]
    rfl
  obtain ⟨-, haligned⟩ := le_pageCnt hle
  rw [bufferBytes_createUserTask hc.owns h1 h0 haligned h2 ht hi, hfresh]
  rfl

/-- **What a new program sees**: its file, and what was left in the frames. -/
theorem userByte_createUserProcess (hf : Frames img k ρ) (hctx : k.ContextOk)
    (hc : Consistent img k buffers l) (h : k.createUserProcess img (some file) = some (t, k'))
    (ht : t ≠ 0) (hclean : Clean k'.machine) :
    file.size.toNat ≤ pageCnt file.size * 4096 ∧ pageCnt file.size ≤ 0x20000 ∧
    ∀ addr, 0 < pdIdx addr → pdIdx addr < 768 → userByte k' t addr = seen img k file addr := by
  obtain ⟨hcnt, hpages, d, buf, k₁, k₂, hcr3, hdlt, h1, h0, h2, hspace, -⟩ :=
    createUserProcess_space hf hctx hc h ht hclean
  refine ⟨hcnt, hpages, fun addr hlo hhi => ?_⟩
  rw [← hspace.seen rfl (fun _ => rfl) (fun i hi => ?_) hlo hhi]
  · unfold userByte
    rw [hcr3, frameOf_frameAddr hdlt]
  · exact bufferBytes_eq hc h1 h0 (by omega) h2 ht hi

theorem seen_code (hpages : pageCnt file.size ≤ 0x20000) {i : ℕ}
    (hi : i < pageCnt file.size * 4096) :
    seen img k file (USER_CODE_START + UInt32.ofNat i) = some (codeByte img k file i) := by
  have haddr := codeByte_toNat (n := i) (by omega)
  have hcp : CODE_PAGE = 0x40000 := rfl
  unfold seen
  rw [haddr, if_pos ⟨by omega, by omega⟩, Nat.add_sub_cancel_left]

end loaded

end Kernel

end NosmeriOs.Tasks
