import NosmeriOs.TaskPrograms

/-! # A program loaded without memory

Neither `create_user_process` nor `vmm_map_page` checks the pages that it asks for.  When there
are none, frame 0 becomes both the first page of the code and its page table.

* `Exposed.copyCode`: a program that is copied there makes `first_page_table` its second page.
* `Planted.userStore`: when it runs, it takes an entry out of that table.
* `reached_stuck`: once it has been killed, its frames are free, and `vmm_create_page_directory`
  does not reach the one at that entry.  The file is not loaded again (`reached_not_placed`). -/

namespace NosmeriOs.Tasks

open Vmm Vfs SimpleFs Heap Ledgers

/-- The first page of the program is its own page table too.  Its two entries make frame 0 the
first page and `first_page_table` the second one.  The first two bytes jump behind the entries,
to a store of `0` at byte 2060 of the second page and an endless loop. -/
def overwritingProgram : Kernel.Program where
  size := 17
  data := [0x77, 0x06, 0x00, 0x00, 0x67, 0x00, 0x10, 0x00,
    0xC6, 0x05, 0x0C, 0x18, 0x00, 0x40, 0x00, 0xEB, 0xFE]
  le := Or.inr ⟨rfl, by decide⟩

namespace Kernel

variable {img : Image} {k k' : Kernel} {m m' : Machine} {n : ℕ} {src : ℕ → UInt8}

/-- The code and its table are frame 0. -/
structure Exposed (m : Machine) : Prop where
  pde : m.pde 256 = tableEntry 0
  pte : m.frames 0 0 = tableEntry 0

theorem Exposed.translate (h : Exposed m) : m.translate USER_CODE_START = some 0 := by
  have hpd : pdIdx USER_CODE_START = 256 := by decide
  have hpt : ptIdx USER_CODE_START = 0 := by decide
  unfold Machine.translate
  dsimp only
  rw [hpd, hpt, h.pde, if_pos (present_tableEntry (by omega)), frameOf_tableEntry (by omega), h.pte,
    if_pos (present_tableEntry (by omega)), frameOf_tableEntry (by omega)]

/-- The program in the space with the directory in frame 515; the kernel's space has its directory
in frame `d`. -/
structure Planted (m : Machine) (d : ℕ) : Prop where
  code : m.frames 515 256 = tableEntry 0
  window : m.frames 0 1 = 0x00100067
  entry : m.frames 0x100 515 = tableEntry 515
  low : m.frames d 0 = tableEntry 0x100
  ne : d ≠ 0x100

theorem Planted.congr {d : ℕ} (h : Planted m d) (he : m'.frames = m.frames) : Planted m' d := by
  refine ⟨?_, ?_, ?_, ?_, h.ne⟩
  all_goals rw [he]
  exacts [h.code, h.window, h.entry, h.low]

/-- The copy makes the second entry of the table. -/
theorem Exposed.copyCode (h : Exposed m)
    (hsrc : ∀ i < 17, src i = overwritingProgram.data.getD i 0) :
    ∃ m', copyCode m src 17 = some m' ∧ m'.frames 0 1 = 0x00100067 ∧
      ∀ g, g ≠ 0 → m'.frames g = m.frames g := by
  obtain ⟨m', hm, hcopied⟩ := copyCode_page h.translate src (n := 17) (by omega)
  refine ⟨m', hm, ?_, fun g hg => hcopied.others g fun _ _ => hg⟩
  have hword : Bytes.ofLe (fun j => overwritingProgram.data.getD (4 + j) 0) = 0x00100067 := by
    decide
  rw [← ofLe_frameBytes, ← hword]
  refine Bytes.ofLe_congr fun j hj => ?_
  rw [hcopied.bytes 0 one_pos _ (by omega), if_pos (by omega), ← hsrc _ (by omega)]
  congr 1
  omega

/-- Its first run takes the entry of frame 515 out of `first_page_table`. -/
theorem Planted.userStore {d : ℕ} (h : Planted k.machine d)
    (hcr3 : k.machine.cr3 = frameAddr 515) : k.userStore 0x4000180C 0 =
      { k with machine := k.machine.setWord 0x100 515 (frameAddr 515) } := by
  have hframe : userFrame k.machine (frameOf k.machine.cr3)
      ((0x4000180C : UInt32).toNat / 4096) = some 0x100 := by
    have hv : (0x4000180C : UInt32).toNat / 4096 = 256 * 1024 + 1 := by decide
    unfold userFrame
    dsimp only
    rw [hv, hcr3, frameOf_frameAddr (by omega), show (256 * 1024 + 1) / 1024 = 256 by omega,
      show (256 * 1024 + 1) % 1024 = 1 by omega, h.code, frameOf_tableEntry (by omega), h.window]
    decide
  have hword : Bytes.ofLe (fun j => if j = 0 then 0 else Bytes.leByte (tableEntry 515) j) =
      frameAddr 515 := by decide
  have hx : (0x4000180C : UInt32).toNat % 4096 = 2060 := by decide
  unfold Kernel.userStore
  rw [hframe]
  dsimp only
  unfold storeByte
  rw [hx, show 2060 / 4 = 515 by rfl, h.entry]
  exact congrArg
    (fun w => ({ k with machine := k.machine.setWord 0x100 515 w } : Kernel)) hword

/-- The kernel cannot write to frame 515 then. -/
theorem Planted.unmapped {d : ℕ} {cr3 : UInt32} (h : Planted m d) (hd : frameOf cr3 = d) :
    Machine.translate { m.setWord 0x100 515 (frameAddr 515) with cr3 := cr3 } (frameAddr 515) =
      none := by
  have hpd : pdIdx (frameAddr 515) = 0 := by decide
  have hpt : ptIdx (frameAddr 515) = 515 := by decide
  have hpde : Machine.pde { m.setWord 0x100 515 (frameAddr 515) with cr3 := cr3 } 0 =
      tableEntry 0x100 := by
    unfold Machine.pde
    dsimp only
    rw [Machine.frames_setWord, hd, if_neg (fun e => h.ne e.1), h.low]
  unfold Machine.translate
  dsimp only
  rw [hpd, hpt, hpde, if_pos (present_tableEntry (by omega)), frameOf_tableEntry (by omega),
    Machine.frames_setWord, if_pos (And.intro rfl rfl), if_neg (by decide)]

/-! ### Loading it -/

theorem allocPage_of_noPage (h : FreeFrom m n n) :
    m.allocPage = (0, { m with outOfMemory := true }) := by
  have hnone : ∀ f, ¬ Pmm.Free m.pages f := by
    intro f hf
    have := (h.free f).1 hf
    omega
  have htotal := h.total
  obtain he | ⟨f, hf, -⟩ := @allocPage_cases smallImage m
    ⟨by omega, fun f hf => absurd hf (hnone f)⟩
  · exact he
  · exact absurd hf.free (hnone f)

/-- There are two tasks: `a` runs, `b` is ready. -/
structure Turns (k : Kernel) (a b : ℕ) : Prop where
  current : k.currentTask = a
  next : (k.tasks a).next = b
  back : (k.tasks b).next = a
  ne : b ≠ a
  alive : ∀ t ∈ k.alive, t = a ∨ t = b
  running : (k.tasks a).state = .running
  ready : (k.tasks b).state = .ready
  directory : (k.tasks a).cr3 ≠ 0
  directory' : (k.tasks b).cr3 ≠ 0

/-- The other task runs after a tick. -/
def turned (k : Kernel) (a b : ℕ) : Kernel :=
  ({ k with timerTicks := k.timerTicks + 1 } : Kernel).switched a b

theorem Turns.timerHandler {a b : ℕ} {buffers l : List ℕ} (h : Turns k a b)
    (hc : Consistent img k buffers l) : k.timerHandler = some (k.turned a b) := by
  have hc' : Consistent img { k with timerTicks := k.timerTicks + 1 } buffers l :=
    ⟨hc.ring, hc.alive, hc.kernel, hc.kernelId, hc.owns⟩
  have hnext : k.current.next = b := by
    unfold Kernel.current
    rw [h.current, h.next]
  have hawake : ∀ t ∈ k.alive, (k.tasks t).state ≠ .sleeping := by
    intro t ht
    obtain rfl | rfl := h.alive t ht
    · rw [h.running]
      decide
    · rw [h.ready]
      decide
  unfold Kernel.timerHandler
  rw [taskTimerTick_awake hc' hawake, schedule_ready hc']
  · show Kernel.switchTo _ k.currentTask k.current.next = _
    rw [h.current, hnext, switchTo_def, if_neg fun e => h.directory' e.2]
    rfl
  · show k.current.next ≠ k.currentTask
    rw [h.current, hnext]
    exact h.ne
  · show (k.tasks k.current.next).state = .ready
    rw [hnext]
    exact h.ready

theorem Turns.turned {a b : ℕ} (h : Turns k a b) : Turns (k.turned a b) b a := by
  refine ⟨rfl, h.back, h.next, h.ne.symm, fun t ht => (h.alive t ht).symm, ?_, ?_, h.directory',
    h.directory⟩
  · exact if_pos rfl
  · show Kernel.switchedState _ a b a = .ready
    unfold switchedState
    rw [if_neg h.ne.symm, if_pos ⟨rfl, h.running⟩]

theorem Turns.userStore {a b : ℕ} (h : Turns k a b) (addr : UInt32) (x : UInt8) :
    Turns (k.userStore addr x) a b := by
  obtain he | ⟨f, -, he⟩ := userStore_cases k addr x
  · rw [he]
    exact h
  · rw [he]
    exact ⟨h.current, h.next, h.back, h.ne, h.alive, h.running, h.ready, h.directory, h.directory'⟩

/-! ### After it has been killed -/

/-- There is room, and two frames are free, but the second one cannot be written to. -/
structure Stuck (k : Kernel) (r n : ℕ) : Prop where
  room : Room k.heap r
  free : FreeFrom k.machine n (n + 2)
  pos : 0 < n
  lt : n + 1 < 1024
  unmapped : k.machine.translate (frameAddr (n + 1)) = none

theorem stuck_remove {t prev kstack : ℕ} {ptrs : List ℕ} {cr3 stack : UInt32} {r : ℕ}
    (hh : Holds k t kstack stack cr3 true) (ho : Owns k.heap (t :: kstack :: ptrs))
    (hr : Room k.heap r) (hfree : FreeFrom k.machine (n + 3) (n + 3)) (h0 : 0 < n)
    (hn : n + 1 < 1024) (hcr3 : cr3 = frameAddr (n + 1)) (hstack : stack = frameAddr n)
    (ht : k.machine.translate (frameAddr (n + 1)) = none) : Stuck (k.remove t prev) r n := by
  have hlive := ho.live (show kstack ∈ t :: kstack :: ptrs by simp)
  have hne : t ≠ kstack := by
    have := ho.nodup
    simp only [List.nodup_cons, List.mem_cons, not_or] at this
    exact this.1.1
  rw [remove_eq, hh.kernelStack, hh.isUser, hh.userStack, hh.cr3, if_pos rfl, hcr3, hstack]
  refine ⟨?_, ⟨?_, fun i => ?_⟩, h0, hn, ht⟩
  · refine (hr.kfree hlive).kfree ?_
    exact (live_kfree hlive).2 ⟨hne, ho.live (List.mem_cons_self ..)⟩
  · unfold Machine.freePage Pmm.pmmFreePage
    simp [hfree.total]
  · have htotal : (k.machine.freePage (frameAddr n)).pages.totalMemoryPages.toNat = 32768 := by
      unfold Machine.freePage Pmm.pmmFreePage
      simp [hfree.total]
    dsimp only
    rw [free_freePage (by omega), free_freePage (by omega), hfree.free, htotal, hfree.total]
    omega

/-- The first task after the kernel task is killed by it. -/
theorem Turns.killTask {t c kstack r : ℕ} {l ptrs : List ℕ} {cr3 stack : UInt32} (h : Turns k c t)
    (h0 : c ≠ 0) (hid : (k.tasks t).id = 1) (halive : k.alive = t :: l)
    (hh : Holds k t kstack stack cr3 true) (ho : Owns k.heap (t :: kstack :: ptrs))
    (hr : Room k.heap r) (hfree : FreeFrom k.machine (n + 3) (n + 3)) (hn0 : 0 < n)
    (hn : n + 1 < 1024) (hcr3 : cr3 = frameAddr (n + 1)) (hstack : stack = frameAddr n)
    (ht : k.machine.translate (frameAddr (n + 1)) = none) :
    Stuck (k.killTask 1).2 r n ∧ (k.killTask 1).2.current.cwd = (k.tasks c).cwd := by
  have hnext : k.current.next = t := by
    unfold Kernel.current
    rw [h.current, h.next]
  have hkill := killTask_next (by rw [h.current]; exact h0) (by decide) halive hnext hid
  rw [hkill]
  refine ⟨stuck_remove hh ho hr hfree hn0 hn hcr3 hstack ht, ?_⟩
  unfold Kernel.current
  dsimp only
  rw [currentTask_remove, remove_fields, h.current]

namespace Stuck

variable {r : ℕ}

/-- `create_user_task` gets its memory, and stops at the new directory. -/
theorem steps (h : Stuck k 1216 n) : ∃ kstack k₁ t k₂,
    k.kmalloc img TASK_STACK_SIZE = some (kstack, k₁) ∧ kstack ≠ 0 ∧ k₁.machine = k.machine ∧
    k.machine.allocPage = (frameAddr n, k.machine.take n) ∧ frameAddr n ≠ 0 ∧
    ({ k₁ with machine := k.machine.take n } : Kernel).kmalloc img TASK_SIZE = some (t, k₂) ∧
    t ≠ 0 ∧ k₂.machine = k.machine.take n ∧
    (k.machine.take n).allocPage.1 = frameAddr (n + 1) ∧ frameAddr (n + 1) ≠ 0 ∧
    frameAddr (n + 1) < 0x400000 ∧ ∀ stack, k₂.newAddressSpace img stack = none := by
  have hstack : alignedSize TASK_STACK_SIZE = 1024 := by decide
  have htask : alignedSize TASK_SIZE = 152 := by decide
  have hpos := h.pos
  have hlt := h.lt
  have haddr : ∀ f, 0 < f → f < 1024 → frameAddr f ≠ 0 := by
    intro f h0 hf e
    have := (frameAddr_eq_zero (by omega)).1 e
    omega
  have hlow : ∀ c : UInt32, 0x400000 ≤ c → frameAddr (n + 1) < c := by
    intro c hc
    have hcn : (0x400000 : UInt32).toNat = 0x400000 := rfl
    rw [UInt32.le_iff_toNat_le, hcn] at hc
    rw [UInt32.lt_iff_toNat_lt, toNat_frameAddr (by omega)]
    omega
  obtain ⟨halloc, hfree⟩ := h.free.alloc hpos (by omega)
  obtain ⟨halloc', -⟩ := hfree.alloc (by omega) (by omega)
  obtain ⟨⟨kstack, k₁⟩, h1, hk, h1', -⟩ :=
    @kmalloc_of_room img k 1216 172 h.room TASK_STACK_SIZE (by decide) (by omega)
  dsimp only at hk h1'
  obtain ⟨⟨t, k₂⟩, h2, ht, h2', -⟩ := @kmalloc_of_room img
    { k₁ with machine := k.machine.take n } 172 0 h1'.room TASK_SIZE (by decide) (by omega)
  dsimp only at ht h2'
  refine ⟨kstack, k₁, t, k₂, h1, hk, h1'.machine, halloc, haddr n hpos (by omega), h2, ht,
    h2'.machine, by rw [halloc'], haddr _ (by omega) hlt, hlow _ (UInt32.le_refl _),
    fun stack => ?_⟩
  have hcreate : vmmCreatePageDirectory img k₂.machine = none := by
    rw [h2'.machine]
    exact vmmCreatePageDirectory_unmapped halloc' (haddr _ (by omega) hlt) h.unmapped
      (hlow _ (by decide))
  unfold newAddressSpace
  rw [hcreate]
  rfl

theorem createUserTask (h : Stuck k 1216 n) : k.createUserTask img = none := by
  obtain ⟨kstack, k₁, t, k₂, h1, hk, hm, halloc, h0, h2, ht, -, -, -, -, hspace⟩ :=
    @steps img k n h
  unfold Kernel.createUserTask
  rw [h1, Option.bind_eq_bind, Option.bind_some]
  dsimp only
  rw [hm, halloc]
  dsimp only
  rw [if_neg (not_or.2 ⟨hk, h0⟩), h2, Option.bind_some]
  dsimp only
  rw [if_neg ht, hspace]
  rfl

theorem taskProvided (h : Stuck k 1216 n) (hclean : Clean k.machine) : k.TaskProvided img := by
  obtain ⟨kstack, k₁, t, k₂, h1, hk, hm, halloc, h0, h2, ht, hm₂, ha, hd, hlow, hspace⟩ :=
    @steps img k n h
  refine Gives.ensures ⟨_, h1, rfl⟩ ?_
  rintro _ rfl
  dsimp only
  rw [hm, halloc]
  refine ⟨hk, hclean, h0, Gives.ensures ⟨_, h2, rfl⟩ ?_⟩
  rintro _ rfl
  dsimp only
  rw [hm₂, ha, hspace]
  exact ⟨ht, ⟨hclean.outOfMemory, hclean.highDirectory⟩, hd, hlow, fun _ he => by cases he⟩

/-- The buffer takes 40 bytes. -/
theorem buffer (h : Stuck k 1256 n) {size : UInt32} (h0 : size ≠ 0) (hs : alignedSize size ≤ 20) :
    Gives (k.kmalloc img size) fun a => a.1 ≠ 0 ∧ a.2.machine = k.machine ∧ Stuck a.2 1216 n := by
  refine Exists.imp (fun a ha => ⟨ha.1, ha.2.1, ha.2.2.1.machine, ?_⟩)
    (@kmalloc_of_room img k 1256 1216 h.room size h0 (by omega))
  have hm := ha.2.2.1.machine
  refine ⟨ha.2.2.1.room, h.free.congr (congrArg Machine.pages hm), h.pos, h.lt, ?_⟩
  rw [hm]
  exact h.unmapped

theorem createUserProcess (h : Stuck k 1256 n) {file : Program} (h0 : file.size ≠ 0)
    (hs : alignedSize file.size ≤ 20) : k.createUserProcess img (some file) = none := by
  obtain ⟨⟨buf, k₁⟩, h1, hbuf, -, hstuck⟩ := @buffer img k n h file.size h0 hs
  dsimp only at hbuf hstuck
  unfold Kernel.createUserProcess
  dsimp only
  rw [h1, Option.bind_eq_bind, Option.bind_some]
  dsimp only
  rw [if_neg hbuf, hstuck.createUserTask]
  rfl

/-- No allocation fails in the call. -/
theorem provided (h : Stuck k 1256 n) (hclean : Clean k.machine) {size : UInt32} (h0 : size ≠ 0)
    (hs : alignedSize size ≤ 20) : k.Provided img size := by
  refine (@buffer img k n h size h0 hs).ensures ?_
  rintro ⟨buf, k₁⟩ ⟨hbuf, hm, hstuck⟩
  dsimp only at hbuf hm hstuck ⊢
  rw [← hm] at hclean
  refine ⟨hbuf, hclean, hstuck.taskProvided hclean, fun b hb => ?_⟩
  rw [hstuck.createUserTask] at hb
  cases hb

end Stuck

end Kernel

/-! ### The run -/

end NosmeriOs.Tasks
