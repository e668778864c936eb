import NosmeriOs.TaskLoader

/-! # What is left in memory for a new program

`create_user_process` clears neither the frame of the stack nor those of the code.

* `SameLeftover`: what two programs that are loaded from one file see beside it is the same.
* `Reached`: the states of a run in which the programs also write to their memory.
* `reached_newProcess_iff`: two new programs see the same exactly if the same was left.
* `boot_withFrame`: the kernel starts whatever free frames hold, so that
  `newProcess_sees_leftover`. -/

namespace NosmeriOs.Tasks

open Vmm Vfs Heap Ledgers

namespace Kernel

variable {img : Image} {k : Kernel} {buffers l : List ℕ}

/-! ### What is left in the frames -/

/-- What the program will see beside its file is the same in both kernels: what the frame for the
stack holds, what the frame of the last code page holds behind the file, and, if the file is not
read, what is in the buffer. -/
structure SameLeftover (img : Image) (k₁ k₂ : Kernel) (file : Program) : Prop where
  stack : ∀ x < 4096, frameBytes k₁.machine (stackFrame img k₁ file.size) x =
    frameBytes k₂.machine (stackFrame img k₂ file.size) x
  tail : ∀ i, file.size.toNat ≤ i → i < pageCnt file.size * 4096 →
    frameBytes k₁.machine (programFrame img k₁ file.size (i / 4096)) (i % 4096) =
      frameBytes k₂.machine (programFrame img k₂ file.size (i / 4096)) (i % 4096)
  buffer : file.data = [] → ∀ i < file.size.toNat,
    freshByte img k₁ file.size i = freshByte img k₂ file.size i

section seen
variable {k₁ k₂ : Kernel} {file : Program}

theorem stackByte_toNat {x : ℕ} (hx : x < 4096) :
    (USER_STACK_BOTTOM + UInt32.ofNat x).toNat = STACK_PAGE * 4096 + x := by
  have hs : USER_STACK_BOTTOM.toNat = 0xBFFFE000 := rfl
  unfold STACK_PAGE
  rw [UInt32.toNat_add, UInt32.toNat_ofNat', hs]
  omega

theorem seen_stack (hpages : pageCnt file.size ≤ 0x20000) {x : ℕ} (hx : x < 4096) :
    seen img k file (USER_STACK_BOTTOM + UInt32.ofNat x) =
      some (frameBytes k.machine (stackFrame img k file.size) x) := by
  have haddr := stackByte_toNat hx
  have hcp : CODE_PAGE = 0x40000 := rfl
  have hsp : STACK_PAGE = 0xBFFFE := rfl
  have hoff : (STACK_PAGE * 4096 + x) % 4096 = x := by omega
  unfold seen
  rw [haddr, if_neg (by omega), if_pos (by omega), hoff]

theorem pdIdx_stack {x : ℕ} (hx : x < 4096) : pdIdx (USER_STACK_BOTTOM + UInt32.ofNat x) = 767 := by
  have hsp : STACK_PAGE = 0xBFFFE := rfl
  unfold pdIdx
  rw [stackByte_toNat hx]
  omega

/-- Bytes that were read from the file are the same everywhere. -/
theorem SameLeftover.codeByte (h : SameLeftover img k₁ k₂ file) {i : ℕ}
    (hi : i < pageCnt file.size * 4096) :
    codeByte img k₁ file i = codeByte img k₂ file i := by
  unfold Kernel.codeByte
  split_ifs with hsize
  · obtain he | ⟨hlen, -⟩ := file.le
    · rw [h.buffer he i hsize]
    · rw [List.getD_eq_getElem _ _ (by omega), List.getD_eq_getElem _ _ (by omega)]
  · exact h.tail i (by omega) hi

/-- Programs see the same when the same was left. -/
theorem seen_eq_iff (hcnt : file.size.toNat ≤ pageCnt file.size * 4096)
    (hpages : pageCnt file.size ≤ 0x20000) :
    (∀ addr, 0 < pdIdx addr → pdIdx addr < 768 → seen img k₁ file addr = seen img k₂ file addr) ↔
      SameLeftover img k₁ k₂ file := by
  constructor
  · intro h
    have hcode : ∀ i < pageCnt file.size * 4096,
        Kernel.codeByte img k₁ file i = Kernel.codeByte img k₂ file i := by
      intro i hi
      obtain ⟨h1, h2⟩ := pdIdx_code (n := i) (by omega) rfl
      have hseen := h (USER_CODE_START + UInt32.ofNat i) (by omega) (by omega)
      rw [seen_code hpages hi, seen_code hpages hi] at hseen
      exact Option.some.inj hseen
    refine ⟨fun x hx => ?_, fun i h1 h2 => ?_, fun he i hi => ?_⟩
    · have hidx := pdIdx_stack hx
      have hseen := h (USER_STACK_BOTTOM + UInt32.ofNat x) (by omega) (by omega)
      rw [seen_stack hpages hx, seen_stack hpages hx] at hseen
      exact Option.some.inj hseen
    · have hbyte := hcode i h2
      unfold Kernel.codeByte at hbyte
      rw [if_neg (by omega), if_neg (by omega)] at hbyte
      exact hbyte
    · have hbyte := hcode i (by omega)
      unfold Kernel.codeByte at hbyte
      rw [if_pos hi, if_pos hi, he] at hbyte
      exact hbyte
  · intro h addr _ _
    unfold seen
    split_ifs with hin hs
    · obtain ⟨i, hi⟩ : ∃ i, addr.toNat / 4096 = CODE_PAGE + i := ⟨_, (Nat.add_sub_of_le hin.1).symm⟩
      have hlt : addr.toNat % 4096 < 4096 := Nat.mod_lt _ (by omega)
      rw [offset_of_page hi, h.codeByte (by omega)]
    · rw [h.stack _ (Nat.mod_lt _ (by omega))]
    · rfl

end seen

/-- A store of the current task, in user mode. -/
def userStore (k : Kernel) (addr : UInt32) (b : UInt8) : Kernel :=
  match userFrame k.machine (frameOf k.machine.cr3) (addr.toNat / 4096) with
  | some f => { k with machine := storeByte k.machine f (addr.toNat % 4096) b }
  | none => k

theorem userStore_cases (k : Kernel) (addr : UInt32) (b : UInt8) :
    k.userStore addr b = k ∨
      ∃ f, userFrame k.machine (frameOf k.machine.cr3) (addr.toNat / 4096) = some f ∧
        k.userStore addr b = { k with machine := storeByte k.machine f (addr.toNat % 4096) b } := by
  unfold userStore
  split
  · next f hf => exact Or.inr ⟨f, hf, rfl⟩
  · exact Or.inl rfl

theorem sameTasks_userStore (k : Kernel) (addr : UInt32) (b : UInt8) :
    SameTasks k (k.userStore addr b) := by
  obtain he | ⟨f, -, he⟩ := userStore_cases k addr b
  · rw [he]
    exact ⟨rfl, rfl, rfl, rfl, rfl, rfl⟩
  · rw [he]
    exact ⟨rfl, rfl, rfl, rfl, rfl, rfl⟩

/-- A program writes to pages of its own. -/
theorem Onward.userStore (hctx : k.ContextOk) (hc : Consistent img k buffers l) {addr : UInt32}
    (b : UInt8) (h0 : 0 < pdIdx addr) (hi : pdIdx addr < 768) :
    Onward img k (k.userStore addr b) := by
  have hp := (sameTasks_userStore k addr b).persists
  obtain he | ⟨f, hf, he⟩ := userStore_cases k addr b
  · rw [he]
    exact refl k
  · rw [he] at hp ⊢
    refine gains hp (fun hclean => ⟨hclean.outOfMemory, hclean.highDirectory⟩) fun _ ρ hfr =>
      ⟨ρ, ?_, .refl ..⟩
    have hpage := hfr.layout.translate (Framed.current_isDirectory hctx hc hfr) h0 (by omega)
      (translate_of_userFrame hf)
    have huse : pageUse (frameOf k.machine.cr3) (pdIdx addr) = .page (frameOf k.machine.cr3) :=
      if_pos hi
    rw [huse] at hpage
    exact hfr.layout.setWord hpage (by simp) fun v hv _ => by cases hv

theorem Framed.userStore (h : k.Framed img) (hctx : k.ContextOk) (hc : Consistent img k buffers l)
    {addr : UInt32} (b : UInt8) (h0 : 0 < pdIdx addr) (hi : pdIdx addr < 768) :
    (k.userStore addr b).Framed img := h.onward (.userStore hctx hc b h0 hi)

end Kernel

/-- The states of a run in which the programs also write to their memory. -/
inductive Reached (img : Image) : System → Prop
  | boot {k₀ k : Kernel} {magic : UInt32} {mbi : Pmm.MultibootInfo} :
      k₀.boot img magic mbi = some k → Reached img (System.start k)
  | step {s s' : System} {op : Op} : Reached img s → s.step img op = some s' → Reached img s'
  | userStore {s : System} {addr : UInt32} (b : UInt8) : Reached img s → 0 < pdIdx addr →
      pdIdx addr < 768 → Reached img (s.withKernel (s.kernel.userStore addr b))

/-- What holds of all states reached. -/
structure Settled (img : Image) (s : System) : Prop where
  inv : s.Inv img
  context : s.kernel.ContextOk
  framed : s.kernel.Framed img

section reached
variable {img : Image} {s : System}

theorem Settled.userStore (h : Settled img s) {addr : UInt32} (b : UInt8) (h0 : 0 < pdIdx addr)
    (hi : pdIdx addr < 768) : Settled img (s.withKernel (s.kernel.userStore addr b)) := by
  obtain ⟨⟨⟨l, hc⟩, hpids⟩, hctx, hframed⟩ := h
  have hframed' := hframed.userStore hctx hc b h0 hi
  obtain he | ⟨f, -, he⟩ := s.kernel.userStore_cases addr b
  · rw [he]
    exact ⟨⟨⟨l, hc⟩, hpids⟩, hctx, hframed⟩
  · rw [he] at hframed' ⊢
    exact ⟨⟨⟨l, ⟨hc.ring, hc.alive, hc.kernel, hc.kernelId, hc.owns⟩⟩, ⟨hpids.next, hpids.le,
      hpids.nodup⟩⟩, ⟨hctx.running, hctx.cr3, hctx.esp0⟩, hframed'⟩

theorem Reached.settled (h : Reached img s) : Settled img s := by
  induction h with
  | boot hboot =>
      obtain ⟨_, _, _, _, _, _, hbooted⟩ := Kernel.boot_cases hboot
      exact ⟨hbooted.inv, Kernel.contextOk_boot hboot, Kernel.framed_boot hboot⟩
  | step _ hs ih =>
      obtain ⟨l, hc⟩ := ih.inv.list
      exact ⟨ih.inv.step hs, System.contextOk_step hc ih.context hs,
        ih.framed.onward (System.onward_step hc ih.context hs)⟩
  | userStore b _ h0 hi ih => exact ih.userStore b h0 hi

end reached

/-! ### A program is loaded -/

namespace Kernel

variable {img : Image} {k : Kernel} {m : Machine} {ρ : Ledger ℕ Use} {buffers l : List ℕ}

/-- A program of at most a page is loaded as long as there is room. -/
theorem createUserProcess_of_calm {r n top : ℕ} (h : Calm img k r n top) (hf : Frames img k ρ)
    (hctx : k.ContextOk) (hc : Consistent img k buffers l) (file : Program)
    (h0 : 0 < file.size.toNat) (hsize : file.size.toNat ≤ 4096)
    (hr : alignedSize file.size + 1520 ≤ r) (hn : n + 2 < 1024) (htop : n + 4 < top) :
    Gives (k.createUserProcess img (some file)) fun a =>
      a.1 ≠ 0 ∧ Clean a.2.machine ∧ stackFrame img k file.size = n := by
  have hne : file.size ≠ 0 := by
    intro e
    rw [e] at h0
    exact absurd h0 (by decide)
  have hlt := h.machine.lt
  obtain ⟨hcnt, -⟩ := @le_pageCnt file.size (by omega)
  have hpages : pageCnt file.size ≤ 0x20000 := by
    rw [pageCnt_eq (by omega)]
    omega
  obtain ⟨⟨t, k'⟩, hk, ht, hclean⟩ := createUserProcess_returns hf hctx hc hcnt hpages
    (h.provided hf hctx hc file h0 hsize hr hn htop)
  refine ⟨(t, k'), hk, ht, hclean, ?_⟩
  -- the heap takes no frame for the buffer and the kernel stack
  obtain ⟨⟨buf, k₁⟩, h1, -, hends, -⟩ :=
    @kmalloc_of_room img k r 1500 h.room file.size hne (by omega)
  obtain ⟨⟨kstack, kA⟩, hA, -, hends', -⟩ :=
    @kmalloc_of_room img k₁ 1500 0 hends.room TASK_STACK_SIZE (by decide) (by decide)
  unfold stackFrame
  rw [h1, Option.bind_some, hA]
  dsimp only [Option.map_some, Option.getD_some]
  rw [hends'.machine, hends.machine, (h.machine.take (by omega)).1]
  exact frameOf_frameAddr (by omega)

/-! ### Two machines

Nothing looks at free frames, so that the kernel starts with other contents there as well. -/

variable {r : ℕ}

/-- The kernel on another machine. -/
def onMachine (k : Kernel) (m : Machine) : Kernel := { k with machine := m }

theorem kmalloc_onMachine (r' : ℕ) (hr : Room k.heap r) {bytes : UInt32} (h0 : bytes ≠ 0)
    (hn : r' + (alignedSize bytes + 20) ≤ r) : ∃ p, ∃ k' : Kernel, Room k'.heap r' ∧
      ∀ m, (k.onMachine m).kmalloc img bytes = some (p, k'.onMachine m) := by
  obtain ⟨p, heap, he, -, hr'⟩ := hr.kmalloc_any (growHeap img) h0 (by omega)
  refine ⟨p, { k with heap := heap }, Room.mono hr' (by omega), fun m => ?_⟩
  unfold kmalloc onMachine
  dsimp only
  rw [he]

theorem createFile_onMachine (r' : ℕ) (hr : Room k.heap r) (hn : r' + 88 ≤ r) (type : FileType)
    (ops : FileOps) : ∃ f, ∃ k' : Kernel, Room k'.heap r' ∧
      ∀ m, (k.onMachine m).createFile img type ops = some (f, k'.onMachine m) := by
  have hsize : alignedSize FILE_SIZE = 68 := by decide
  obtain ⟨f, k₁, hr', h1⟩ := @kmalloc_onMachine img k r r' hr FILE_SIZE (by decide) (by omega)
  refine ⟨f, { k₁ with files := Function.update k₁.files f { k₁.files f with
    type := type, ops := ops, offset := 0, flags := 0, refCount := 1 } }, hr', fun m => ?_⟩
  unfold createFile
  rw [h1]
  rfl

theorem initTaskFds_onMachine (r' : ℕ) (hr : Room k.heap r) (hn : r' + 264 ≤ r) (t : ℕ) :
    ∃ k' : Kernel, Room k'.heap r' ∧
      ∀ m, (k.onMachine m).initTaskFds img t = some (k'.onMachine m) := by
  obtain ⟨f₀, k₁, hr₁, h1⟩ := @createFile_onMachine img
    (k.setTask t { k.tasks t with fdTable := fun _ => 0 }) r (r' + 176) hr (by omega) .stdin
    .stdinOps
  obtain ⟨f₁, k₂, hr₂, h2⟩ := @createFile_onMachine img (k₁.setFd t 0 f₀) (r' + 176) (r' + 88)
    hr₁ (by omega) .stdout .stdoutOps
  obtain ⟨f₂, k₃, hr₃, h3⟩ := @createFile_onMachine img (k₂.setFd t 1 f₁) (r' + 88) r' hr₂
    (by omega) .stderr .stderrOps
  refine ⟨k₃.setFd t 2 f₂, hr₃, fun m => ?_⟩
  refine Option.bind_eq_some_iff.2 ⟨(f₀, k₁.onMachine m), h1 m, ?_⟩
  refine Option.bind_eq_some_iff.2 ⟨(f₁, k₂.onMachine m), h2 m, ?_⟩
  exact Option.bind_eq_some_iff.2 ⟨(f₂, k₃.onMachine m), h3 m, rfl⟩

theorem initTasking_onMachine (hr : Room k.heap r) (hn : 264 ≤ r) :
    ∃ k' : Kernel, ∀ m, (k.onMachine m).initTasking img = some (k'.onMachine m) := by
  obtain ⟨k₁, -, h1⟩ := @initTaskFds_onMachine img { k.setTask img.kernelTask
    { k.tasks img.kernelTask with
      id := k.nextPid
      kernelStackBottom := 0
      cr3 := vmmGetKernelPageDirectory img
      isUser := false
      state := .running
      wakeTick := 0 } with nextPid := k.nextPid + 1 } r 0 hr hn img.kernelTask
  let k₂ := k₁.setNext img.kernelTask img.kernelTask
  let k₃ := k₂.setTask img.kernelTask { k₂.tasks img.kernelTask with cwd := k₂.vfsRoot }
  refine ⟨{ k₃ with currentTask := img.kernelTask, alive := [img.kernelTask] }, fun m => ?_⟩
  exact Option.bind_eq_some_iff.2 ⟨k₁.onMachine m, h1 m, rfl⟩

/-- The kernel with the contents `w` of frame `g`. -/
def withFrame (k : Kernel) (g : ℕ) (w : ℕ → UInt32) : Kernel := k.onMachine (k.machine.setFrame g w)

theorem setFrame_comm (m : Machine) {f g : ℕ} (h : g ≠ f) (v w : ℕ → UInt32) :
    (m.setFrame g w).setFrame f v = (m.setFrame f v).setFrame g w := by
  unfold Machine.setFrame
  dsimp only
  rw [Function.update_comm h]

theorem setWord_setFrame (m : Machine) {f g : ℕ} (h : g ≠ f) (i : ℕ) (v : UInt32)
    (w : ℕ → UInt32) : (m.setFrame g w).setWord f i v = (m.setWord f i v).setFrame g w := by
  rw [Machine.setWord_eq, Machine.setWord_eq, setFrame_comm _ h, Machine.frames_setFrame,
    if_neg h.symm]

theorem withTable_setFrame {f g : ℕ} (hg : g ≠ f) (hd : g ≠ frameOf m.cr3)
    (hk : g ≠ img.pageDirectory) (w : ℕ → UInt32) (virtAddr : UInt32) :
    withTable img (m.setFrame g w) virtAddr f = (withTable img m virtAddr f).setFrame g w := by
  unfold withTable
  dsimp only
  rw [Machine.cr3_setFrame, setWord_setFrame _ hd]
  split_ifs
  · rw [setWord_setFrame _ hk, setFrame_comm _ hg]
  · rw [setFrame_comm _ hg]

theorem initHeap_withFrame {n top g : ℕ} {w : ℕ → UInt32} (h : Open img k.machine n top)
    (h' : Open img (k.machine.setFrame g w) n top) (hn : n + 1 < top) (hg : n + 1 < g)
    (hp : present (k.machine.pde 768) = false) : ∃ k₁, k.initHeap img = some k₁ ∧
      (k.withFrame g w).initHeap img = some (k₁.withFrame g w) ∧ Room k₁.heap 4080 := by
  have hidx : pdIdx (UInt32.ofNat HEAP_START) = 768 := by decide
  have hlt := h.lt
  have hk := h.directory_lt
  have hmax := h.lt_of_lt (by omega)
  -- the page and its table, on both machines
  have hmap : ∀ {m : Machine}, Open img m n top → present (m.pde 768) = false →
      m.allocPage = (frameAddr n, m.take n) ∧ vmmMapPage img (m.take n) (UInt32.ofNat HEAP_START)
        (frameAddr n) (PAGE_PRESENT ||| PAGE_RW) =
          some ((withTable img ((m.take n).take (n + 1)) (UInt32.ofNat HEAP_START) (n + 1)).setWord
            (n + 1) (ptIdx (UInt32.ofNat HEAP_START))
            (pageEntry (frameAddr n) (PAGE_PRESENT ||| PAGE_RW))) := by
    intro m hm hp
    obtain ⟨halloc, hm'⟩ := hm.take (by omega)
    have hlt' := hm'.lt
    refine ⟨halloc, vmmMapPage_of_absent hm'.space.selfMapped ?_ (hm'.take (by omega)).1 rfl rfl
      (by omega) (by omega) _ _⟩
    rw [hidx]
    exact hp
  obtain ⟨ha, hm⟩ := hmap h hp
  obtain ⟨ha', hm'⟩ := hmap h' (by
    unfold Machine.pde at hp ⊢
    rw [Machine.frames_setFrame, Machine.cr3_setFrame, if_neg (by omega)]
    exact hp)
  have hcomm : ((k.machine.setFrame g w).take n).take (n + 1) =
      ((k.machine.take n).take (n + 1)).setFrame g w := rfl
  rw [hcomm, withTable_setFrame (by omega) (by show g ≠ frameOf k.machine.cr3; omega) (by omega),
    setWord_setFrame _ (by omega)] at hm'
  unfold initHeap
  rw [ha, show (k.withFrame g w).machine.allocPage = _ from ha']
  dsimp only
  rw [hm, hm']
  refine ⟨_, rfl, ?_, room_initHeap _⟩
  have hframe : frameOf (frameAddr n) ≠ g := by
    rw [frameOf_frameAddr (by omega)]
    omega
  simp only [Option.bind_eq_bind, Option.bind_some]
  rw [frameBytes_congr ((Machine.frames_setFrame ..).trans (if_neg hframe))]
  rfl

/-- The kernel starts whatever is in a frame above its first ones. -/
theorem boot_withFrame {n top g : ℕ} {w : ℕ → UInt32} {magic : UInt32} {mbi : Pmm.MultibootInfo}
    (h : ∀ m : Machine, m.pages = Pmm.initPmm img.toKernelImage magic mbi →
      m.outOfMemory = false → m.highDirectory = false → Open img (initVmm img m) n top)
    (hn : n + 1 < top) (hg : n + 1 < g) : ∃ k', k.boot img magic mbi = some k' ∧
      (k.withFrame g w).boot img magic mbi = some (k'.withFrame g w) := by
  have hd := img.directory_lt
  have hcr3 : frameOf (vmmGetKernelPageDirectory img) = img.pageDirectory :=
    frameOf_frameAddr (by omega)
  generalize hm : ({ k.machine with
    pages := Pmm.initPmm img.toKernelImage magic mbi
    outOfMemory := false
    highDirectory := false } : Machine) = m
  have hopen : Open img (initVmm img m) n top := h m (hm ▸ rfl) (hm ▸ rfl) (hm ▸ rfl)
  have hopen' : Open img (initVmm img (m.setFrame g w)) n top :=
    h (m.setFrame g w) (hm ▸ rfl) (hm ▸ rfl) (hm ▸ rfl)
  have hdir := hopen.directory_lt
  have htab : img.firstPageTable < n := by
    have hge := hopen.ge
    have hmem := img.table_mem.2
    omega
  have hcomm : initVmm img (m.setFrame g w) = (initVmm img m).setFrame g w := by
    unfold initVmm Machine.setFrame
    dsimp only
    rw [Function.update_comm (show g ≠ img.pageDirectory by omega),
      Function.update_comm (show g ≠ img.firstPageTable by omega)]
  rw [hcomm] at hopen'
  have hm' : ({ (k.withFrame g w).machine with
      pages := Pmm.initPmm img.toKernelImage magic mbi
      outOfMemory := false
      highDirectory := false } : Machine) = m.setFrame g w := by
    rw [← hm]
    rfl
  have habsent : present ((initVmm img m).pde 768) = false := by
    show present ((initVmm img m).frames (frameOf (vmmGetKernelPageDirectory img)) 768) = false
    rw [hcr3, frames_initVmm_directory]
    exact present_zero
  obtain ⟨k₁, e1, e2, hroom⟩ := @initHeap_withFrame img { k with
    machine := initVmm img m
    timerTicks := 0
    currentTask := 0
    nextPid := 0
    alive := [] } n top g w hopen hopen' hn hg habsent
  obtain ⟨k₂, ht⟩ := @initTasking_onMachine img k₁ 4080 hroom (by omega)
  refine ⟨k₂.onMachine k₁.machine, ?_, ?_⟩
  · unfold boot
    dsimp only
    rw [hm]
    exact Option.bind_eq_some_iff.2 ⟨k₁, e1, ht k₁.machine⟩
  · unfold boot
    dsimp only
    rw [hm', hcomm]
    exact Option.bind_eq_some_iff.2 ⟨_, e2, ht _⟩

/-- The kernels differ at most in what free frames hold. -/
def EqualButFree (k₁ k₂ : Kernel) : Prop :=
  ∃ frames, k₂ = k₁.onMachine { k₁.machine with frames := frames } ∧
    ∀ f, ¬ Pmm.Free k₁.machine.pages f → frames f = k₁.machine.frames f

theorem equalButFree_withFrame {g : ℕ} (hg : Pmm.Free k.machine.pages g) (v w : ℕ → UInt32) :
    EqualButFree (k.withFrame g v) (k.withFrame g w) := by
  refine ⟨((k.machine.setFrame g v).setFrame g w).frames, ?_, fun f hf => ?_⟩
  · rw [Machine.setFrame_setFrame]
    rfl
  · rw [Machine.frames_setFrame, if_neg]
    · rfl
    · rintro rfl
      exact hf hg

end Kernel

/-- **What a new program sees of earlier memory**: two programs that are loaded from the same file
in any two states see the same exactly if the same was left in the frames they get. -/
theorem reached_newProcess_iff {img : Image} {s₁ s₂ : System} {file : Kernel.Program}
    {t₁ t₂ : ℕ} {k₁ k₂ : Kernel} (hs₁ : Reached img s₁) (hs₂ : Reached img s₂)
    (h₁ : s₁.kernel.createUserProcess img (some file) = some (t₁, k₁)) (ht₁ : t₁ ≠ 0)
    (h₂ : s₂.kernel.createUserProcess img (some file) = some (t₂, k₂)) (ht₂ : t₂ ≠ 0)
    (hclean₁ : Clean k₁.machine) (hclean₂ : Clean k₂.machine) :
    (∀ addr, 0 < pdIdx addr → pdIdx addr < 768 → k₁.userByte t₁ addr = k₂.userByte t₂ addr) ↔
      Kernel.SameLeftover img s₁.kernel s₂.kernel file := by
  have seenBy : ∀ {s t k}, Reached img s →
      s.kernel.createUserProcess img (some file) = some (t, k) → t ≠ 0 → Clean k.machine →
      file.size.toNat ≤ Kernel.pageCnt file.size * 4096 ∧ Kernel.pageCnt file.size ≤ 0x20000 ∧
        ∀ addr, 0 < pdIdx addr → pdIdx addr < 768 →
          k.userByte t addr = s.kernel.seen img file addr := by
    intro s t k hs h ht hclean
    obtain ⟨hinv, hctx, hframed⟩ := hs.settled
    obtain ⟨l, hc⟩ := hinv.list
    obtain ⟨ρ, hf⟩ := hframed (Kernel.clean_createUserProcess hctx hc h ht hclean)
    exact Kernel.userByte_createUserProcess hf hctx hc h ht hclean
  obtain ⟨hcnt, hpages, hseen₁⟩ := seenBy hs₁ h₁ ht₁ hclean₁
  obtain ⟨-, -, hseen₂⟩ := seenBy hs₂ h₂ ht₂ hclean₂
  rw [← Kernel.seen_eq_iff hcnt hpages]
  refine forall_congr' fun addr => forall_congr' fun h0 => forall_congr' fun hi => ?_
  rw [hseen₁ addr h0 hi, hseen₂ addr h0 hi]

/-- The code is one byte. -/
def oneByte : Kernel.Program := ⟨1, [0], Or.inr ⟨rfl, by decide⟩⟩

/-- The program is loaded from two states that differ in what the frame of the stack holds. -/
structure TwoLoads (s₁ s₂ : System) (t₁ t₂ : ℕ) (k₁ k₂ : Kernel) : Prop where
  reached₁ : Reached smallImage s₁
  reached₂ : Reached smallImage s₂
  equal : Kernel.EqualButFree s₁.kernel s₂.kernel
  load₁ : s₁.kernel.createUserProcess smallImage (some oneByte) = some (t₁, k₁)
  ne₁ : t₁ ≠ 0
  load₂ : s₂.kernel.createUserProcess smallImage (some oneByte) = some (t₂, k₂)
  ne₂ : t₂ ≠ 0
  clean₁ : Clean k₁.machine
  clean₂ : Clean k₂.machine
  sees₁ : k₁.userByte t₁ USER_STACK_BOTTOM = some 0
  sees₂ : k₂.userByte t₂ USER_STACK_BOTTOM = some 1

/-- Right after the start, the stack of a program is in frame 514. -/
theorem load_withFrame {k : Kernel} {w : ℕ → UInt32}
    (hboot : (blankKernel.withFrame 514 w).boot smallImage Pmm.MULTIBOOT_BOOTLOADER_MAGIC smallMap =
      some (k.withFrame 514 w)) : ∃ t k',
    (k.withFrame 514 w).createUserProcess smallImage (some oneByte) = some (t, k') ∧ t ≠ 0 ∧
      Clean k'.machine ∧ k'.userByte t USER_STACK_BOTTOM = some (Bytes.leByte (w 0) 0) := by
  obtain ⟨kb, he, hcalm⟩ := @Kernel.boot_of_open smallImage (blankKernel.withFrame 514 w) 512 16384
    Pmm.MULTIBOOT_BOOTLOADER_MAGIC smallMap (fun _ hp ho hh => open_initVmm hp ho hh) (by omega)
  obtain rfl : k.withFrame 514 w = kb := Option.some.inj (hboot.symm.trans he)
  obtain ⟨hinv, hctx, hframed⟩ := (Reached.boot hboot).settled
  obtain ⟨l, hc⟩ := hinv.list
  obtain ⟨ρ, hf⟩ := hframed ⟨hcalm.machine.outOfMemory, hcalm.machine.highDirectory⟩
  have hsize : alignedSize oneByte.size = 4 := by decide
  obtain ⟨⟨t, k'⟩, hload, ht, hclean, hstack⟩ := Kernel.createUserProcess_of_calm hcalm hf hctx hc
    oneByte (by decide) (by decide) (by omega) (by omega) (by omega)
  obtain ⟨-, hpages, hseen⟩ := Kernel.userByte_createUserProcess hf hctx hc hload ht hclean
  have hidx : pdIdx USER_STACK_BOTTOM = 767 := by decide
  have hfirst : USER_STACK_BOTTOM + UInt32.ofNat 0 = USER_STACK_BOTTOM := by decide
  have hbyte := @Kernel.seen_stack smallImage (k.withFrame 514 w) oneByte hpages 0 (by omega)
  refine ⟨t, k', hload, ht, hclean, (hseen _ (by omega) (by omega)).trans ?_⟩
  rw [hfirst, hstack] at hbyte
  refine hbyte.trans ?_
  unfold Kernel.frameBytes
  have hframe : (k.withFrame 514 w).machine.frames 514 = w :=
    (Machine.frames_setFrame ..).trans (if_pos rfl)
  rw [hframe]

theorem exists_twoLoads : ∃ s₁ s₂ t₁ t₂ k₁ k₂, TwoLoads s₁ s₂ t₁ t₂ k₁ k₂ := by
  have hopen : ∀ m : Machine, m.pages = Pmm.initPmm smallImage.toKernelImage
      Pmm.MULTIBOOT_BOOTLOADER_MAGIC smallMap → m.outOfMemory = false → m.highDirectory = false →
      Open smallImage (initVmm smallImage m) 512 16384 :=
    fun _ hp ho hh => open_initVmm hp ho hh
  have hboot : ∀ w, ∃ k, blankKernel.boot smallImage Pmm.MULTIBOOT_BOOTLOADER_MAGIC smallMap =
      some k ∧ (blankKernel.withFrame 514 w).boot smallImage Pmm.MULTIBOOT_BOOTLOADER_MAGIC smallMap
        = some (k.withFrame 514 w) :=
    fun w => Kernel.boot_withFrame hopen (by omega) (by omega)
  obtain ⟨k, hk, hcalm⟩ := blankKernel_boot
  obtain ⟨_, hk₁, hboot₁⟩ := hboot fun _ => 0
  obtain ⟨_, hk₂, hboot₂⟩ := hboot fun _ => 1
  cases hk.symm.trans hk₁
  cases hk.symm.trans hk₂
  obtain ⟨t₁, k₁, hload₁, ht₁, hclean₁, hsees₁⟩ := load_withFrame hboot₁
  obtain ⟨t₂, k₂, hload₂, ht₂, hclean₂, hsees₂⟩ := load_withFrame hboot₂
  have hfree : Pmm.Free k.machine.pages 514 := (hcalm.machine.free.free 514).2 (by omega)
  exact ⟨_, _, t₁, t₂, k₁, k₂, .boot hboot₁, .boot hboot₂,
    Kernel.equalButFree_withFrame hfree _ _, hload₁, ht₁, hload₂, ht₂, hclean₁, hclean₂,
    hsees₁.trans (by decide), hsees₂.trans (by decide)⟩

/-- Two programs that see the same exactly if the same was left. -/
theorem reached_newProcess_iff_oneByte : ∃ s₁ s₂ t₁ t₂ k₁ k₂, TwoLoads s₁ s₂ t₁ t₂ k₁ k₂ ∧
    ((∀ addr, 0 < pdIdx addr → pdIdx addr < 768 → k₁.userByte t₁ addr = k₂.userByte t₂ addr) ↔
      Kernel.SameLeftover smallImage s₁.kernel s₂.kernel oneByte) := by
  obtain ⟨s₁, s₂, t₁, t₂, k₁, k₂, h⟩ := exists_twoLoads
  exact ⟨s₁, s₂, t₁, t₂, k₁, k₂, h, reached_newProcess_iff h.reached₁ h.reached₂ h.load₁ h.ne₁
    h.load₂ h.ne₂ h.clean₁ h.clean₂⟩

/-- A new program can read what was left in the frame of its stack. -/
theorem newProcess_sees_leftover : ¬ ∀ (s₁ s₂ : System) (file : Kernel.Program) (t₁ t₂ : ℕ)
    (k₁ k₂ : Kernel), Reached smallImage s₁ → Reached smallImage s₂ →
    Kernel.EqualButFree s₁.kernel s₂.kernel →
    s₁.kernel.createUserProcess smallImage (some file) = some (t₁, k₁) → t₁ ≠ 0 →
    s₂.kernel.createUserProcess smallImage (some file) = some (t₂, k₂) → t₂ ≠ 0 →
    ∀ addr, 0 < pdIdx addr → pdIdx addr < 768 → k₁.userByte t₁ addr = k₂.userByte t₂ addr := by
  intro hall
  obtain ⟨s₁, s₂, t₁, t₂, k₁, k₂, h⟩ := exists_twoLoads
  have hidx : pdIdx USER_STACK_BOTTOM = 767 := by decide
  have hsame := hall s₁ s₂ oneByte t₁ t₂ k₁ k₂ h.reached₁ h.reached₂ h.equal h.load₁ h.ne₁ h.load₂
    h.ne₂ USER_STACK_BOTTOM (by omega) (by omega)
  rw [h.sees₁, h.sees₂] at hsame
  exact absurd hsame (by decide)

end NosmeriOs.Tasks
