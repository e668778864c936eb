import NosmeriOs.Memory

/-! # The kernel heap (`mm/heap.cpp`)

Blocks lie one after the other from `HEAP_START` on, each with a header in front of its payload;
the headers are linked in address order.  Headers live in the same memory as payloads, so the
memory is modelled byte by byte.

* Addresses and sizes are natural numbers; sums that the code forms on 32 bits are reduced
  modulo `2 ^ 32`, and a stored field keeps its low 32 bits.
* `pmm_alloc_page` followed by `vmm_map_page` is a parameter `alloc` of `kmalloc`
  (`PageSource`).
* The search of `kmalloc` and its recursion have a fuel.  `findBlock_spec` and `kmalloc_eq` show
  that it never runs out: `kmalloc` is its body with itself as the recursive call. -/

namespace NosmeriOs.Heap

open Memory

def HEAP_START : ℕ := 0xC0000000
def HEAP_INITIAL_SIZE : ℕ := 0x1000
def HEAP_MAX_ADDR : ℕ := 0xE0000000
def PAGE_SIZE : ℕ := 4096

/-! ### `struct block_header` -/

/-- The next multiple of `a` from `n` on. -/
def roundUp (n a : ℕ) : ℕ := (n + a - 1) / a * a

/-- The size of a structure whose fields have the given sizes and alignments. -/
def sizeofStruct (fields : List (ℕ × ℕ)) : ℕ :=
  roundUp (fields.foldl (fun off f => roundUp off f.2 + f.1) 0)
    (fields.foldl (fun a f => max a f.2) 1)

/-- `sizeof(block_header)`: an `unsigned int`, a `bool` and two pointers. -/
def HEADER_SIZE : ℕ := sizeofStruct [(4, 4), (1, 1), (4, 4), (4, 4)]

theorem headerSize_eq : HEADER_SIZE = 16 := by decide

def size (m : Mem) (block : ℕ) : ℕ := (m.load32 block).toNat
def isFree (m : Mem) (block : ℕ) : Bool := m (block + 4) != 0
def next (m : Mem) (block : ℕ) : ℕ := (m.load32 (block + 8)).toNat
def prev (m : Mem) (block : ℕ) : ℕ := (m.load32 (block + 12)).toNat

def setSize (m : Mem) (block v : ℕ) : Mem := m.store32 block (UInt32.ofNat v)
def setFree (m : Mem) (block : ℕ) (v : Bool) : Mem := m.store8 (block + 4) (if v then 1 else 0)
def setNext (m : Mem) (block v : ℕ) : Mem := m.store32 (block + 8) (UInt32.ofNat v)
def setPrev (m : Mem) (block v : ℕ) : Mem := m.store32 (block + 12) (UInt32.ofNat v)

/-! ### The functions -/

structure State where
  mem : Mem
  heapHead : ℕ
  heapCurrentEnd : ℕ

/-- `init_heap`, over the memory of the page it maps. -/
def initHeap (m : Mem) : State :=
  let block := HEAP_START
  let m := setSize m block (HEAP_INITIAL_SIZE - HEADER_SIZE)
  let m := setFree m block true
  let m := setNext m block 0
  let m := setPrev m block 0
  ⟨m, block, HEAP_START + HEAP_INITIAL_SIZE⟩

/-- `((size+3)/4)*4` on 32 bits. -/
def alignedSize (size : UInt32) : ℕ := ((size + 3) / 4 * 4).toNat

/-- The search loop of `kmalloc`: the first fitting block (`0` if there is none) and the block
before it. -/
def findBlock (m : Mem) (aligned : ℕ) : ℕ → ℕ → ℕ → ℕ × ℕ
  | 0, _, prevBlock => (0, prevBlock)
  | fuel + 1, block, prevBlock =>
      if block = 0 then (0, prevBlock)
      else if isFree m block = true ∧ aligned ≤ size m block then (block, prevBlock)
      else findBlock m aligned fuel (next m block) block

/-- The split of a block: what is left of it after `aligned` bytes becomes a free block. -/
def splitBlock (m : Mem) (block aligned : ℕ) : Mem :=
  let newBlock := (block + aligned + HEADER_SIZE) % 2 ^ 32
  let m := setSize m newBlock (size m block - aligned - HEADER_SIZE)
  let m := setFree m newBlock true
  let m := setNext m newBlock (next m block)
  let m := setPrev m newBlock block
  let m := if next m block ≠ 0 then setPrev m (next m block) newBlock else m
  let m := setNext m block newBlock
  setSize m block aligned

/-- A fitting block is handed out. -/
def takeBlock (m : Mem) (block aligned : ℕ) : Mem :=
  let m := if HEADER_SIZE + 4 ≤ size m block - aligned then splitBlock m block aligned else m
  setFree m block false

/-- The page `page` appears at the virtual address `addr`. -/
def mapPage (m : Mem) (addr : ℕ) (page : ℕ → UInt8) : Mem := fun x =>
  if addr ≤ x ∧ x < addr + PAGE_SIZE then page (x - addr) else m x

/-- A new free block for a page at the end of the heap. -/
def newTail (m : Mem) (newBlock prevBlock : ℕ) : Mem :=
  let m := setSize m newBlock (PAGE_SIZE - HEADER_SIZE)
  let m := setFree m newBlock true
  let m := setNext m newBlock 0
  let m := setPrev m newBlock prevBlock
  setNext m prevBlock newBlock

/-- A bound on the number of blocks: each has a header. -/
def searchFuel (h : State) : ℕ := (h.heapCurrentEnd - HEAP_START) / HEADER_SIZE + 1

/-- The heap grows by a page: the last block takes it if it is free, else it becomes a block. -/
def grow (h : State) (prevBlock : ℕ) (page : ℕ → UInt8) : State :=
  let m := mapPage h.mem h.heapCurrentEnd page
  let m :=
    if prevBlock ≠ 0 ∧ isFree m prevBlock = true then
      setSize m prevBlock (size m prevBlock + PAGE_SIZE)
    else newTail m h.heapCurrentEnd prevBlock
  { h with mem := m, heapCurrentEnd := (h.heapCurrentEnd + PAGE_SIZE) % 2 ^ 32 }

/-- Where `kmalloc` gets its pages, over a state `σ`: `pmm_alloc_page` followed by
`vmm_map_page` at the given address.  It fails, or the contents of the new page appear there. -/
abbrev PageSource (σ : Type) := ℕ → σ → Option (ℕ → UInt8) × σ

section kmalloc
variable {σ : Type} (alloc : PageSource σ) (bytes : UInt32)

/-- `kmalloc` after the search, with its recursive call as `retry`: the pointer, the heap and the
supply of pages. -/
def kmallocFound (retry : State → σ → ℕ × State × σ) (h : State) (s : σ) (found : ℕ × ℕ) :
    ℕ × State × σ :=
  let (block, prevBlock) := found
  if block ≠ 0 then
    ((block + HEADER_SIZE) % 2 ^ 32,
      { h with mem := takeBlock h.mem block (alignedSize bytes) }, s)
  else if HEAP_MAX_ADDR < (h.heapCurrentEnd + PAGE_SIZE) % 2 ^ 32 then (0, h, s)
  else match alloc h.heapCurrentEnd s with
    | (none, s) => (0, h, s)
    | (some page, s) => retry (grow h prevBlock page) s

/-- The body of `kmalloc`. -/
def kmallocBody (retry : State → σ → ℕ × State × σ) (h : State) (s : σ) : ℕ × State × σ :=
  if bytes = 0 then (0, h, s)
  else
    kmallocFound alloc bytes retry h s
      (findBlock h.mem (alignedSize bytes) (searchFuel h) h.heapHead 0)

def kmallocFrom : ℕ → State → σ → ℕ × State × σ
  | 0, h, s => (0, h, s)
  | fuel + 1, h, s => kmallocBody alloc bytes (kmallocFrom fuel) h s

/-- The number of pages by which the heap can still grow, and one for the last call. -/
def growFuel (h : State) : ℕ := (HEAP_MAX_ADDR - h.heapCurrentEnd) / PAGE_SIZE + 1

def kmalloc (h : State) (s : σ) : ℕ × State × σ := kmallocFrom alloc bytes (growFuel h) h s

end kmalloc

/-- The block takes in the one after it. -/
def mergeNext (m : Mem) (block : ℕ) : Mem :=
  let m := setSize m block (size m block + (size m (next m block) + HEADER_SIZE))
  let m := setNext m block (next m (next m block))
  if next m block ≠ 0 then setPrev m (next m block) block else m

/-- The block before it takes in the block. -/
def mergePrev (m : Mem) (block : ℕ) : Mem :=
  let m := setSize m (prev m block) (size m (prev m block) + (size m block + HEADER_SIZE))
  let m := setNext m (prev m block) (next m block)
  if next m block ≠ 0 then setPrev m (next m block) (prev m block) else m

def kfree (h : State) (ptr : ℕ) : State :=
  if ptr = 0 then h
  else
    let block := ptr - HEADER_SIZE
    let m := setFree h.mem block true
    let m := if next m block ≠ 0 ∧ isFree m (next m block) = true then mergeNext m block else m
    let m := if prev m block ≠ 0 ∧ isFree m (prev m block) = true then mergePrev m block else m
    { h with mem := m }

/-! ### Reading fields back

Headers of two blocks are the same or do not overlap (`Clear`). -/

/-- The 16 bytes at `a` and at `b` do not overlap, unless `a = b`. -/
def Clear (a b : ℕ) : Prop := a = b ∨ a + 16 ≤ b ∨ b + 16 ≤ a

theorem toNat_ofNat_of_lt {v : ℕ} (h : v < 2 ^ 32) : (UInt32.ofNat v).toNat = v := by
  rw [UInt32.toNat_ofNat', Nat.mod_eq_of_lt h]

section fields
variable (m : Mem) {a b v : ℕ}

theorem size_setSize (h : Clear a b) (hv : v < 2 ^ 32) :
    size (setSize m b v) a = if a = b then v else size m a := by
  unfold size setSize Clear at *
  split_ifs with hab
  · rw [hab, Mem.load32_store32_same, toNat_ofNat_of_lt hv]
  · rw [Mem.load32_store32_of_apart _ _ (by omega)]

theorem isFree_setSize (h : Clear a b) : isFree (setSize m b v) a = isFree m a := by
  unfold isFree setSize Clear at *
  rw [Mem.store32_other _ _ (by omega)]

theorem next_setSize (h : Clear a b) : next (setSize m b v) a = next m a := by
  unfold next setSize Clear at *
  rw [Mem.load32_store32_of_apart _ _ (by omega)]

theorem prev_setSize (h : Clear a b) : prev (setSize m b v) a = prev m a := by
  unfold prev setSize Clear at *
  rw [Mem.load32_store32_of_apart _ _ (by omega)]

theorem size_setFree (h : Clear a b) (f : Bool) : size (setFree m b f) a = size m a := by
  unfold size setFree Clear at *
  rw [Mem.load32_store8_of_apart _ _ (by omega)]

theorem isFree_setFree (f : Bool) :
    isFree (setFree m b f) a = if a = b then f else isFree m a := by
  unfold isFree setFree
  by_cases hab : a = b
  · rw [if_pos hab, hab, Mem.store8_same]
    cases f <;> rfl
  · rw [if_neg hab, Mem.store8_other _ _ (by omega)]

theorem next_setFree (h : Clear a b) (f : Bool) : next (setFree m b f) a = next m a := by
  unfold next setFree Clear at *
  rw [Mem.load32_store8_of_apart _ _ (by omega)]

theorem prev_setFree (h : Clear a b) (f : Bool) : prev (setFree m b f) a = prev m a := by
  unfold prev setFree Clear at *
  rw [Mem.load32_store8_of_apart _ _ (by omega)]

theorem size_setNext (h : Clear a b) : size (setNext m b v) a = size m a := by
  unfold size setNext Clear at *
  rw [Mem.load32_store32_of_apart _ _ (by omega)]

theorem isFree_setNext (h : Clear a b) : isFree (setNext m b v) a = isFree m a := by
  unfold isFree setNext Clear at *
  rw [Mem.store32_other _ _ (by omega)]

theorem next_setNext (h : Clear a b) (hv : v < 2 ^ 32) :
    next (setNext m b v) a = if a = b then v else next m a := by
  unfold next setNext Clear at *
  split_ifs with hab
  · rw [hab, Mem.load32_store32_same, toNat_ofNat_of_lt hv]
  · rw [Mem.load32_store32_of_apart _ _ (by omega)]

theorem prev_setNext (h : Clear a b) : prev (setNext m b v) a = prev m a := by
  unfold prev setNext Clear at *
  rw [Mem.load32_store32_of_apart _ _ (by omega)]

theorem size_setPrev (h : Clear a b) : size (setPrev m b v) a = size m a := by
  unfold size setPrev Clear at *
  rw [Mem.load32_store32_of_apart _ _ (by omega)]

theorem isFree_setPrev (h : Clear a b) : isFree (setPrev m b v) a = isFree m a := by
  unfold isFree setPrev Clear at *
  rw [Mem.store32_other _ _ (by omega)]

theorem next_setPrev (h : Clear a b) : next (setPrev m b v) a = next m a := by
  unfold next setPrev Clear at *
  rw [Mem.load32_store32_of_apart _ _ (by omega)]

theorem prev_setPrev (h : Clear a b) (hv : v < 2 ^ 32) :
    prev (setPrev m b v) a = if a = b then v else prev m a := by
  unfold prev setPrev Clear at *
  split_ifs with hab
  · rw [hab, Mem.load32_store32_same, toNat_ofNat_of_lt hv]
  · rw [Mem.load32_store32_of_apart _ _ (by omega)]

end fields

/-! ### What the stores leave alone -/

section other
variable (m : Mem) {b v x : ℕ}

/-- The byte `x` is not in the 16 bytes at `b`. -/
def Outside (x b : ℕ) : Prop := x < b ∨ b + 16 ≤ x

theorem setSize_other (h : Outside x b) : setSize m b v x = m x :=
  Mem.store32_other m _ (by unfold Outside at h; omega)

theorem setFree_other (h : Outside x b) (f : Bool) : setFree m b f x = m x :=
  Mem.store8_other m _ (by unfold Outside at h; omega)

theorem setNext_other (h : Outside x b) : setNext m b v x = m x :=
  Mem.store32_other m _ (by unfold Outside at h; omega)

theorem setPrev_other (h : Outside x b) : setPrev m b v x = m x :=
  Mem.store32_other m _ (by unfold Outside at h; omega)

end other

end NosmeriOs.Heap
