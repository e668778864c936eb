import NosmeriOs.Heap
import NosmeriOs.Links

/-! # The block list of the heap

The heap is described by the list of its blocks, which memory has to agree with.

* `Layout bs e`: the blocks tile the heap up to `e`, with sizes in multiples of four.
* `Alternates bs`: no two adjacent blocks are free.
* `Holds m bs`: the headers in memory are those of the blocks, linked in order.

Each change of the code (taking a block, splitting it, growing the last one, adding one, joining
two) is followed on the list by a `Layout` lemma and in memory by a `Holds` lemma. -/

namespace NosmeriOs.Heap

open Memory

structure Block where
  addr : ℕ
  size : ℕ
  free : Bool
deriving DecidableEq

/-! ### Tilings -/

/-- The blocks follow each other from `a` to `e` without a gap. -/
def Tiles : ℕ → List Block → ℕ → Prop
  | a, [], e => a = e
  | a, b :: bs, e => b.addr = a ∧ Tiles (a + 16 + b.size) bs e

theorem tiles_append {a e : ℕ} {xs ys : List Block} :
    Tiles a (xs ++ ys) e ↔ ∃ c, Tiles a xs c ∧ Tiles c ys e := by
  induction xs generalizing a with
  | nil => simp [Tiles]
  | cons b xs ih =>
      simp only [List.cons_append, Tiles, ih]
      constructor
      · rintro ⟨h1, c, h2, h3⟩
        exact ⟨c, ⟨h1, h2⟩, h3⟩
      · rintro ⟨c, ⟨h1, h2⟩, h3⟩
        exact ⟨h1, c, h2, h3⟩

theorem Tiles.le {a e : ℕ} {bs : List Block} (h : Tiles a bs e) : a + 16 * bs.length ≤ e := by
  induction bs generalizing a with
  | nil => exact le_of_eq h
  | cons b bs ih =>
      have := ih h.2
      simp only [List.length_cons]
      omega

theorem Tiles.bounds {a e : ℕ} {bs : List Block} (h : Tiles a bs e) {b : Block} (hb : b ∈ bs) :
    a ≤ b.addr ∧ b.addr + 16 + b.size ≤ e := by
  induction bs generalizing a with
  | nil => cases hb
  | cons c bs ih =>
      obtain ⟨h1, h2⟩ := h
      rcases List.mem_cons.mp hb with rfl | hb
      · have := h2.le
        omega
      · have := ih h2 hb
        omega

/-- Where the blocks before and after a block lie. -/
theorem Tiles.around {a e : ℕ} {xs ys : List Block} {b : Block} (h : Tiles a (xs ++ b :: ys) e) :
    (∀ x ∈ xs, x.addr + 16 + x.size ≤ b.addr) ∧
      ∀ y ∈ ys, b.addr + 16 + b.size ≤ y.addr := by
  obtain ⟨c, h1, h2, h3⟩ := tiles_append.mp h
  refine ⟨fun x hx => ?_, fun y hy => ?_⟩
  · have := h1.bounds hx
    omega
  · have := h3.bounds hy
    omega

/-- Two blocks are the same or their extents are apart. -/
theorem Tiles.apart {a e : ℕ} {bs : List Block} (h : Tiles a bs e) {b c : Block} (hb : b ∈ bs)
    (hc : c ∈ bs) : b = c ∨ b.addr + 16 + b.size ≤ c.addr ∨ c.addr + 16 + c.size ≤ b.addr := by
  obtain ⟨xs, ys, rfl⟩ := List.append_of_mem hb
  obtain ⟨h1, h2⟩ := h.around
  rcases List.mem_append.mp hc with hc | hc
  · exact Or.inr (Or.inr (h1 c hc))
  · rcases List.mem_cons.mp hc with rfl | hc
    · exact Or.inl rfl
    · exact Or.inr (Or.inl (h2 c hc))

theorem Tiles.clear {a e : ℕ} {bs : List Block} (h : Tiles a bs e) {b c : Block} (hb : b ∈ bs)
    (hc : c ∈ bs) : Clear b.addr c.addr := by
  unfold Clear
  rcases h.apart hb hc with rfl | h | h <;> omega

/-- Blocks whose sizes are multiples of four have addresses that are. -/
theorem Tiles.addr_mod {a e : ℕ} {bs : List Block} (h : Tiles a bs e) (ha : a % 4 = 0)
    (hm : ∀ b ∈ bs, b.size % 4 = 0) {b : Block} (hb : b ∈ bs) : b.addr % 4 = 0 := by
  induction bs generalizing a with
  | nil => cases hb
  | cons c bs ih =>
      have hc := hm c (List.mem_cons_self ..)
      rcases List.mem_cons.mp hb with rfl | hb
      · rw [h.1]
        exact ha
      · exact ih h.2 (by omega) (fun d hd => hm d (List.mem_cons_of_mem _ hd)) hb

/-! ### Layouts -/

structure Layout (bs : List Block) (e : ℕ) : Prop where
  tiles : Tiles HEAP_START bs e
  nonempty : bs ≠ []
  mult : ∀ b ∈ bs, b.size % 4 = 0
  last : ∀ b ∈ bs.getLast?, 4 ≤ b.size
  aligned : e % PAGE_SIZE = 0
  le : e ≤ HEAP_MAX_ADDR

theorem Layout.addr_pos {bs : List Block} {e : ℕ} (h : Layout bs e) {b : Block} (hb : b ∈ bs) :
    0xC0000000 ≤ b.addr ∧ b.addr + 16 + b.size ≤ e ∧ e ≤ 0xE0000000 :=
  ⟨(h.tiles.bounds hb).1, (h.tiles.bounds hb).2, h.le⟩

/-- The last element of a list with `b` in it is `b` or the last element after it. -/
theorem forall_getLast?_append_cons {α : Type} {P : α → Prop} {xs ys : List α} {b : α} :
    (∀ d ∈ (xs ++ b :: ys).getLast?, P d) ↔ (ys = [] → P b) ∧ ∀ d ∈ ys.getLast?, P d := by
  rw [List.getLast?_append_of_ne_nil _ (by simp)]
  cases ys with
  | nil => simp
  | cons y ys => simp [List.getLast?_cons_cons]

theorem forall_getLast?_cons {α : Type} {P : α → Prop} {ys : List α} {b : α} :
    (∀ d ∈ (b :: ys).getLast?, P d) ↔ (ys = [] → P b) ∧ ∀ d ∈ ys.getLast?, P d := by
  rw [← List.nil_append (b :: ys), forall_getLast?_append_cons]

section layout
variable {xs ys : List Block} {b c : Block} {e : ℕ}

/-- A payload, even an empty one, starts before the end of the heap. -/
theorem Layout.payload_lt {bs : List Block} (h : Layout bs e) (hb : b ∈ bs) : b.addr + 16 < e := by
  obtain ⟨xs, ys, rfl⟩ := List.append_of_mem hb
  have hbound := (h.tiles.bounds hb).2
  cases ys with
  | nil =>
      have := (forall_getLast?_append_cons.mp h.last).1 rfl
      omega
  | cons y ys =>
      have h1 := h.tiles.around.2 y (by simp)
      have h2 := (h.tiles.bounds (b := y) (by simp)).2
      omega

/-- Changing whether a block is free. -/
theorem Layout.setFree (h : Layout (xs ++ b :: ys) e) (f : Bool) :
    Layout (xs ++ { b with free := f } :: ys) e := by
  obtain ⟨a, h1, h2, h3⟩ := tiles_append.mp h.tiles
  refine ⟨tiles_append.mpr ⟨a, h1, h2, h3⟩, by simp, ?_, ?_, h.aligned, h.le⟩
  · intro d hd
    rcases List.mem_append.mp hd with hd | hd
    · exact h.mult d (List.mem_append_left _ hd)
    · rcases List.mem_cons.mp hd with rfl | hd
      · exact h.mult b (by simp)
      · exact h.mult d (by simp [hd])
  · have hl := h.last
    rw [forall_getLast?_append_cons] at hl ⊢
    exact hl

/-- Cutting `n` bytes off a block. -/
theorem Layout.split (h : Layout (xs ++ b :: ys) e) {n : ℕ} (hn : n + 20 ≤ b.size)
    (hm : n % 4 = 0) (f g : Bool) :
    Layout (xs ++ ⟨b.addr, n, f⟩ :: ⟨b.addr + n + 16, b.size - n - 16, g⟩ :: ys) e := by
  obtain ⟨a, h1, h2, h3⟩ := tiles_append.mp h.tiles
  have hb := h.mult b (by simp)
  refine ⟨tiles_append.mpr ⟨a, h1, h2, ?_, ?_⟩, by simp, ?_, ?_, h.aligned, h.le⟩
  · show b.addr + n + 16 = a + 16 + n
    omega
  · rw [show a + 16 + n + 16 + (b.size - n - 16) = a + 16 + b.size by omega]
    exact h3
  · intro d hd
    rcases List.mem_append.mp hd with hd | hd
    · exact h.mult d (List.mem_append_left _ hd)
    · rcases List.mem_cons.mp hd with rfl | hd
      · exact hm
      · rcases List.mem_cons.mp hd with rfl | hd
        · show (b.size - n - 16) % 4 = 0
          omega
        · exact h.mult d (by simp [hd])
  · have hl := forall_getLast?_append_cons.mp h.last
    refine forall_getLast?_append_cons.mpr ⟨by simp, ?_⟩
    refine forall_getLast?_cons.mpr ⟨fun _ => ?_, hl.2⟩
    show 4 ≤ b.size - n - 16
    omega

/-- Joining a block with the one after it. -/
theorem Layout.join (h : Layout (xs ++ b :: c :: ys) e) (f : Bool) :
    Layout (xs ++ ⟨b.addr, b.size + (c.size + 16), f⟩ :: ys) e := by
  obtain ⟨a, h1, h2, h3, h4⟩ := tiles_append.mp h.tiles
  have hb := h.mult b (by simp)
  have hc := h.mult c (by simp)
  refine ⟨tiles_append.mpr ⟨a, h1, h2, ?_⟩, by simp, ?_, ?_, h.aligned, h.le⟩
  · show Tiles (a + 16 + (b.size + (c.size + 16))) ys e
    rw [show a + 16 + (b.size + (c.size + 16)) = a + 16 + b.size + 16 + c.size by omega]
    exact h4
  · intro d hd
    rcases List.mem_append.mp hd with hd | hd
    · exact h.mult d (List.mem_append_left _ hd)
    · rcases List.mem_cons.mp hd with rfl | hd
      · show (b.size + (c.size + 16)) % 4 = 0
        omega
      · exact h.mult d (by simp [hd])
  · have hl := forall_getLast?_append_cons.mp h.last
    have hl' := forall_getLast?_cons.mp hl.2
    refine forall_getLast?_append_cons.mpr ⟨fun _ => ?_, hl'.2⟩
    show 4 ≤ b.size + (c.size + 16)
    omega

/-- The last block grows by a page. -/
theorem Layout.extend (h : Layout (xs ++ [b]) e) (he : e + PAGE_SIZE ≤ HEAP_MAX_ADDR) :
    Layout (xs ++ [{ b with size := b.size + PAGE_SIZE }]) (e + PAGE_SIZE) := by
  obtain ⟨a, h1, h2, h3⟩ := tiles_append.mp h.tiles
  have hb := h.mult b (by simp)
  have hal := h.aligned
  simp only [PAGE_SIZE] at he hal ⊢
  refine ⟨tiles_append.mpr ⟨a, h1, h2, ?_⟩, by simp, ?_, ?_, ?_, he⟩
  · show a + 16 + (b.size + 4096) = e + 4096
    have : a + 16 + b.size = e := h3
    omega
  · intro d hd
    rcases List.mem_append.mp hd with hd | hd
    · exact h.mult d (List.mem_append_left _ hd)
    · rw [List.mem_singleton] at hd
      subst hd
      show (b.size + 4096) % 4 = 0
      omega
  · refine forall_getLast?_append_cons.mpr ⟨fun _ => ?_, by simp⟩
    show 4 ≤ b.size + 4096
    omega
  · simp only [PAGE_SIZE]
    omega

/-- A new block of one page at the end. -/
theorem Layout.push {bs : List Block} (h : Layout bs e) (he : e + PAGE_SIZE ≤ HEAP_MAX_ADDR)
    (f : Bool) : Layout (bs ++ [⟨e, PAGE_SIZE - 16, f⟩]) (e + PAGE_SIZE) := by
  have hal := h.aligned
  simp only [PAGE_SIZE] at he hal ⊢
  refine ⟨tiles_append.mpr ⟨e, h.tiles, rfl, ?_⟩, by simp, ?_, ?_, ?_, he⟩
  · show e + 16 + (4096 - 16) = e + 4096
    omega
  · intro d hd
    rcases List.mem_append.mp hd with hd | hd
    · exact h.mult d hd
    · rw [List.mem_singleton] at hd
      subst hd
      show (4096 - 16) % 4 = 0
      decide
  · refine forall_getLast?_append_cons.mpr ⟨fun _ => ?_, by simp⟩
    show 4 ≤ 4096 - 16
    decide
  · simp only [PAGE_SIZE]
    omega

end layout

/-- The blocks `bs` of a heap that ends at `e` after it has grown by `k` pages: the last block
takes them if it is free, else they become a block. -/
def extendBlocks (bs : List Block) (e k : ℕ) : List Block :=
  if k = 0 then bs
  else match bs.getLast? with
    | some b =>
        if b.free then bs.dropLast ++ [{ b with size := b.size + PAGE_SIZE * k }]
        else bs ++ [⟨e, PAGE_SIZE * k - 16, true⟩]
    | none => [⟨e, PAGE_SIZE * k - 16, true⟩]

@[simp] theorem extendBlocks_zero (bs : List Block) (e : ℕ) : extendBlocks bs e 0 = bs := if_pos rfl

section extendBlocks
variable {xs : List Block} {b : Block} {e k : ℕ}

theorem extendBlocks_of_free (hb : b.free = true) (hk : k ≠ 0) :
    extendBlocks (xs ++ [b]) e k = xs ++ [{ b with size := b.size + PAGE_SIZE * k }] := by
  simp [extendBlocks, hk, hb]

theorem extendBlocks_of_used (hb : b.free = false) (hk : k ≠ 0) :
    extendBlocks (xs ++ [b]) e k = (xs ++ [b]) ++ [⟨e, PAGE_SIZE * k - 16, true⟩] := by
  simp [extendBlocks, hk, hb]

/-- One page, and then `k` more. -/
theorem extendBlocks_succ {bs : List Block} (hne : bs ≠ []) (e k : ℕ) :
    extendBlocks (extendBlocks bs e 1) (e + PAGE_SIZE) k = extendBlocks bs e (k + 1) := by
  obtain ⟨xs, b, rfl⟩ : ∃ xs b, bs = xs ++ [b] :=
    ⟨bs.dropLast, bs.getLast hne, (List.dropLast_append_getLast hne).symm⟩
  by_cases hk : k = 0
  · rw [hk, extendBlocks_zero]
  · cases hb : b.free with
    | true =>
        rw [extendBlocks_of_free hb one_ne_zero, extendBlocks_of_free (by exact hb) hk,
          extendBlocks_of_free hb (Nat.succ_ne_zero k)]
        simp only [List.append_cancel_left_eq, List.cons.injEq, Block.mk.injEq, and_true, true_and,
          PAGE_SIZE]
        omega
    | false =>
        rw [extendBlocks_of_used hb one_ne_zero, extendBlocks_of_free rfl hk,
          extendBlocks_of_used hb (Nat.succ_ne_zero k)]
        simp only [List.append_cancel_left_eq, List.cons.injEq, Block.mk.injEq, and_true, true_and,
          PAGE_SIZE]
        omega

end extendBlocks

/-! ### Free blocks are not adjacent -/

/-- No two adjacent blocks are free. -/
def Alternates (bs : List Block) : Prop :=
  bs.IsChain fun a b => ¬ (a.free = true ∧ b.free = true)

theorem alternates_append_cons {xs ys : List Block} {b : Block} :
    Alternates (xs ++ b :: ys) ↔ Alternates xs ∧ Alternates ys ∧
      (∀ x ∈ xs.getLast?, ¬ (x.free = true ∧ b.free = true)) ∧
      ∀ y ∈ ys.head?, ¬ (b.free = true ∧ y.free = true) := by
  unfold Alternates
  rw [List.isChain_append, List.isChain_cons]
  simp only [List.head?_cons, Option.mem_def, Option.some.injEq, forall_eq']
  tauto

theorem alternates_cons {ys : List Block} {b : Block} :
    Alternates (b :: ys) ↔ Alternates ys ∧ ∀ y ∈ ys.head?, ¬ (b.free = true ∧ y.free = true) := by
  unfold Alternates
  rw [List.isChain_cons]
  exact and_comm

/-! ### Headers in memory -/

/-- The headers in memory are those of the blocks, linked in order. -/
structure Holds (m : Mem) (bs : List Block) : Prop where
  size : ∀ b ∈ bs, size m b.addr = b.size
  free : ∀ b ∈ bs, isFree m b.addr = b.free
  links : Links.Seg (next m) (prev m) 0 (bs.map Block.addr) 0

theorem next_lt (m : Mem) (b : ℕ) : next m b < 2 ^ 32 := UInt32.toNat_lt _

/-- The links of a block. -/
theorem Holds.neighbours {m : Mem} {xs ys : List Block} {b : Block}
    (h : Holds m (xs ++ b :: ys)) :
    next m b.addr = (ys.map Block.addr).headD 0 ∧
      prev m b.addr = (xs.map Block.addr).getLastD 0 := by
  have hl := h.links
  rw [List.map_append, List.map_cons] at hl
  exact hl.links

/-- The list is unchanged where memory agrees on all header fields. -/
theorem Holds.congr {m m' : Mem} {bs : List Block} (h : Holds m bs)
    (hs : ∀ b ∈ bs, Heap.size m' b.addr = Heap.size m b.addr)
    (hf : ∀ b ∈ bs, isFree m' b.addr = isFree m b.addr)
    (hn : ∀ b ∈ bs, next m' b.addr = next m b.addr)
    (hp : ∀ b ∈ bs, prev m' b.addr = prev m b.addr) : Holds m' bs := by
  refine ⟨fun b hb => (hs b hb).trans (h.size b hb), fun b hb => (hf b hb).trans (h.free b hb), ?_⟩
  refine h.links.congr fun a ha => ?_
  obtain ⟨b, hb, rfl⟩ := List.mem_map.mp ha
  exact ⟨hn b hb, hp b hb⟩

section memory
variable {m : Mem} {xs ys : List Block} {b c : Block} {e : ℕ}

theorem Holds.setFree (h : Holds m (xs ++ b :: ys)) (hl : Layout (xs ++ b :: ys) e) (f : Bool) :
    Holds (setFree m b.addr f) (xs ++ { b with free := f } :: ys) := by
  have hclear : ∀ d ∈ xs ++ b :: ys, Clear d.addr b.addr := fun d hd =>
    hl.tiles.clear hd (by simp)
  obtain ⟨hx, hy⟩ := hl.tiles.around
  have hmem : ∀ d ∈ xs ++ { b with free := f } :: ys,
      d ∈ xs ++ b :: ys ∧ d.addr ≠ b.addr ∨ d = { b with free := f } := by
    intro d hd
    rcases List.mem_append.mp hd with hd | hd
    · have := hx d hd
      exact Or.inl ⟨List.mem_append_left _ hd, by omega⟩
    · rcases List.mem_cons.mp hd with rfl | hd
      · exact Or.inr rfl
      · have := hy d hd
        exact Or.inl ⟨by simp [hd], by omega⟩
  refine ⟨fun d hd => ?_, fun d hd => ?_, ?_⟩
  · rcases hmem d hd with ⟨hd', _⟩ | rfl
    · rw [size_setFree _ (hclear d hd'), h.size d hd']
    · exact (size_setFree _ (hclear b (by simp)) _).trans (h.size b (by simp))
  · rw [isFree_setFree]
    rcases hmem d hd with ⟨hd', hne⟩ | rfl
    · rw [if_neg hne, h.free d hd']
    · rw [if_pos rfl]
  · have hlinks := h.links
    simp only [List.map_append, List.map_cons] at hlinks ⊢
    refine hlinks.congr fun a ha => ?_
    have ha' : a ∈ (xs ++ b :: ys).map Block.addr := by
      rw [List.map_append, List.map_cons]
      exact ha
    obtain ⟨d, hd, rfl⟩ := List.mem_map.mp ha'
    exact ⟨next_setFree _ (hclear d hd) _, prev_setFree _ (hclear d hd) _⟩

/-- The block `c` that follows `w` is joined to it: `w` takes its size and its successor, whose
back link moves to `w`. -/
def absorb (m : Mem) (w c : ℕ) : Mem :=
  let m₁ := setNext (setSize m w (size m w + (size m c + 16))) w (next m c)
  if next m c ≠ 0 then setPrev m₁ (next m c) w else m₁

theorem mergeNext_eq {w : ℕ} (h : Clear (next m w) w) : mergeNext m w = absorb m w (next m w) := by
  have hsame : next (setSize m w (size m w + (size m (next m w) + 16))) w = next m w :=
    next_setSize _ (Or.inl rfl)
  unfold mergeNext absorb
  simp only [headerSize_eq, hsame]
  rw [next_setNext _ (Or.inl rfl) (next_lt _ _), if_pos rfl, next_setSize _ h]

theorem mergePrev_eq {c : ℕ} (h : Clear c (prev m c)) (hne : c ≠ prev m c) :
    mergePrev m c = absorb m (prev m c) c := by
  have hprev : prev (setSize m (prev m c) (size m (prev m c) + (size m c + 16))) c = prev m c :=
    prev_setSize _ h
  have hnext : next (setSize m (prev m c) (size m (prev m c) + (size m c + 16))) c = next m c :=
    next_setSize _ h
  unfold mergePrev absorb
  simp only [headerSize_eq, hprev, hnext]
  rw [next_setNext _ h (next_lt _ _), if_neg hne, hnext, prev_setNext _ h, hprev]

theorem fields_absorb {w c a : ℕ} (haw : Clear a w)
    (han : next m c ≠ 0 → Clear a (next m c)) (hw : w < 2 ^ 32)
    (hs : size m w + (size m c + 16) < 2 ^ 32) :
    size (absorb m w c) a = (if a = w then size m w + (size m c + 16) else size m a) ∧
    isFree (absorb m w c) a = isFree m a ∧
    next (absorb m w c) a = (if a = w then next m c else next m a) ∧
    prev (absorb m w c) a = if next m c ≠ 0 ∧ a = next m c then w else prev m a := by
  unfold absorb
  by_cases hn : next m c = 0
  · simp only [hn, ne_eq, not_true_eq_false, if_false, false_and]
    refine ⟨?_, ?_, ?_, ?_⟩
    · rw [size_setNext _ haw, size_setSize _ haw hs]
    · rw [isFree_setNext _ haw, isFree_setSize _ haw]
    · rw [next_setNext _ haw (by omega), next_setSize _ haw]
    · rw [prev_setNext _ haw, prev_setSize _ haw]
  · have han' := han hn
    simp only [ne_eq, hn, not_false_eq_true, if_true, true_and]
    refine ⟨?_, ?_, ?_, ?_⟩
    · rw [size_setPrev _ han', size_setNext _ haw, size_setSize _ haw hs]
    · rw [isFree_setPrev _ han', isFree_setNext _ haw, isFree_setSize _ haw]
    · rw [next_setPrev _ han', next_setNext _ haw (next_lt _ _), next_setSize _ haw]
    · rw [prev_setPrev _ han' hw, prev_setNext _ haw, prev_setSize _ haw]

/-- Joining two blocks in memory joins them in the list. -/
theorem Holds.join (h : Holds m (xs ++ b :: c :: ys)) (hl : Layout (xs ++ b :: c :: ys) e) :
    Holds (absorb m b.addr c.addr) (xs ++ ⟨b.addr, b.size + (c.size + 16), b.free⟩ :: ys) := by
  have hb := hl.addr_pos (b := b) (by simp)
  have hc := hl.addr_pos (b := c) (by simp)
  obtain ⟨hx, hy⟩ := hl.tiles.around
  have hbc := hy c (by simp)
  have hyc : ∀ y ∈ ys, c.addr + 16 + c.size ≤ y.addr := by
    have := (show Tiles HEAP_START ((xs ++ [b]) ++ c :: ys) e by simpa using hl.tiles).around.2
    exact this
  have hnext : next m c.addr = (ys.map Block.addr).headD 0 := by
    have h' : Holds m ((xs ++ [b]) ++ c :: ys) := by simpa using h
    exact h'.neighbours.1
  have hsb := h.size b (by simp)
  have hsc := h.size c (by simp)
  -- the successor of `c` is the first block of `ys`, or there is none
  have hn : next m c.addr ≠ 0 → ∃ y t, ys = y :: t ∧ next m c.addr = y.addr := by
    intro hne
    cases ys with
    | nil => exact absurd hnext hne
    | cons y t => exact ⟨y, t, rfl, hnext⟩
  have hfields : ∀ d ∈ xs ++ b :: c :: ys, _ := fun d (hd : d ∈ xs ++ b :: c :: ys) =>
    fields_absorb (m := m) (w := b.addr) (c := c.addr) (a := d.addr)
      (hl.tiles.clear hd (by simp))
      (fun hne => by
        obtain ⟨y, t, rfl, he⟩ := hn hne
        rw [he]
        exact hl.tiles.clear hd (by simp))
      (by omega) (by rw [hsb, hsc]; omega)
  have hb0 : b ∈ xs ++ b :: c :: ys := by simp
  have hx0 : ∀ d ∈ xs, d ∈ xs ++ b :: c :: ys := fun d hd => List.mem_append_left _ hd
  have hy0 : ∀ d ∈ ys, d ∈ xs ++ b :: c :: ys := fun d hd => by simp [hd]
  have hnot : ∀ d : Block, d.addr < c.addr → ¬ (next m c.addr ≠ 0 ∧ d.addr = next m c.addr) := by
    rintro d hd ⟨hne, he⟩
    obtain ⟨y, t, rfl, hy'⟩ := hn hne
    have := hyc y (by simp)
    omega
  refine ⟨fun d hd => ?_, fun d hd => ?_, ?_⟩
  · rcases List.mem_append.mp hd with hd | hd
    · have := hx d hd
      rw [(hfields d (hx0 d hd)).1, if_neg (by omega), h.size d (hx0 d hd)]
    · rcases List.mem_cons.mp hd with rfl | hd
      · rw [(hfields b hb0).1, if_pos rfl, hsb, hsc]
      · have := hyc d hd
        rw [(hfields d (hy0 d hd)).1, if_neg (by omega), h.size d (hy0 d hd)]
  · rcases List.mem_append.mp hd with hd | hd
    · rw [(hfields d (hx0 d hd)).2.1, h.free d (hx0 d hd)]
    · rcases List.mem_cons.mp hd with rfl | hd
      · exact (hfields b hb0).2.1.trans (h.free b hb0)
      · rw [(hfields d (hy0 d hd)).2.1, h.free d (hy0 d hd)]
  · have hlinks := h.links
    simp only [List.map_append, List.map_cons] at hlinks ⊢
    refine hlinks.remove ?_ ?_ ?_ ?_
    · intro a ha
      obtain ⟨d, hd, rfl⟩ := List.mem_map.mp ha
      have := hx d hd
      obtain ⟨_, _, h3, h4⟩ := hfields d (hx0 d hd)
      rw [h3, h4, if_neg (by omega), if_neg (hnot d (by omega))]
      exact ⟨rfl, rfl⟩
    · obtain ⟨_, _, h3, h4⟩ := hfields b hb0
      rw [h3, h4, if_pos rfl, if_neg (hnot b (by omega))]
      exact ⟨rfl, rfl⟩
    · intro a ha
      obtain ⟨d, hd, rfl⟩ := List.mem_map.mp ha
      have := hyc d hd
      rw [(hfields d (hy0 d hd)).2.2.1, if_neg (by omega)]
    · intro a t hat
      cases ys with
      | nil => cases hat
      | cons y zs =>
          rw [List.map_cons, List.cons.injEq] at hat
          obtain ⟨rfl, rfl⟩ := hat
          have hy' := hl.addr_pos (b := y) (by simp)
          have he : next m c.addr = y.addr := hnext
          refine ⟨?_, fun a ha => ?_⟩
          · rw [(hfields y (by simp)).2.2.2, if_pos ⟨by omega, he.symm⟩]
          · obtain ⟨d, hd, rfl⟩ := List.mem_map.mp ha
            have := (show Tiles HEAP_START ((xs ++ [b, c]) ++ y :: zs) e by
              simpa using hl.tiles).around.2 d hd
            rw [(hfields d (by simp [hd])).2.2.2, if_neg (by omega)]

/-- The stores of a split, with the addresses they go to. -/
theorem splitBlock_eq {w n : ℕ} (hw : w + n + 16 < 2 ^ 32) : splitBlock m w n =
    let c := w + n + 16
    let m₁ := setPrev (setNext (setFree (setSize m c (size m w - n - 16)) c true) c (next m w)) c w
    let m₂ := if next m w ≠ 0 then setPrev m₁ (next m w) c else m₁
    setSize (setNext m₂ w c) w n := by
  have hclear : Clear w (w + n + 16) := Or.inr (Or.inl (by omega))
  have hnext : ∀ v u k, v < 2 ^ 32 → next (setPrev (setNext (setFree (setSize m (w + n + 16) k)
      (w + n + 16) true) (w + n + 16) v) (w + n + 16) u) w = next m w := fun v u k hv => by
    rw [next_setPrev _ hclear, next_setNext _ hclear hv, if_neg (by omega), next_setFree _ hclear,
      next_setSize _ hclear]
  unfold splitBlock
  simp only [headerSize_eq, Nat.mod_eq_of_lt hw]
  rw [next_setFree _ hclear, next_setSize _ hclear, hnext _ _ _ (next_lt _ _)]

theorem fields_split {w n a : ℕ} (hw : w + n + 16 < 2 ^ 32) (haw : Clear a w)
    (hac : Clear a (w + n + 16)) (han : next m w ≠ 0 → Clear a (next m w)) :
    size (splitBlock m w n) a = (if a = w then n
      else if a = w + n + 16 then size m w - n - 16 else size m a) ∧
    isFree (splitBlock m w n) a = (if a = w + n + 16 then true else isFree m a) ∧
    next (splitBlock m w n) a = (if a = w then w + n + 16
      else if a = w + n + 16 then next m w else next m a) ∧
    prev (splitBlock m w n) a = if next m w ≠ 0 ∧ a = next m w then w + n + 16
      else if a = w + n + 16 then w else prev m a := by
  have hn := next_lt m w
  have hs : size m w - n - 16 < 2 ^ 32 := by
    have : size m w < 2 ^ 32 := UInt32.toNat_lt _
    omega
  rw [splitBlock_eq hw]
  simp only
  by_cases h0 : next m w = 0
  · simp only [h0, ne_eq, not_true_eq_false, if_false, false_and]
    refine ⟨?_, ?_, ?_, ?_⟩
    · rw [size_setSize _ haw (by omega), size_setNext _ haw, size_setPrev _ hac,
        size_setNext _ hac, size_setFree _ hac, size_setSize _ hac hs]
    · rw [isFree_setSize _ haw, isFree_setNext _ haw, isFree_setPrev _ hac, isFree_setNext _ hac,
        isFree_setFree, isFree_setSize _ hac]
    · rw [next_setSize _ haw, next_setNext _ haw hw, next_setPrev _ hac,
        next_setNext _ hac (by omega), next_setFree _ hac, next_setSize _ hac]
    · rw [prev_setSize _ haw, prev_setNext _ haw, prev_setPrev _ hac (by omega),
        prev_setNext _ hac, prev_setFree _ hac, prev_setSize _ hac]
  · have han' := han h0
    simp only [ne_eq, h0, not_false_eq_true, if_true, true_and]
    refine ⟨?_, ?_, ?_, ?_⟩
    · rw [size_setSize _ haw (by omega), size_setNext _ haw, size_setPrev _ han',
        size_setPrev _ hac, size_setNext _ hac, size_setFree _ hac, size_setSize _ hac hs]
    · rw [isFree_setSize _ haw, isFree_setNext _ haw, isFree_setPrev _ han',
        isFree_setPrev _ hac, isFree_setNext _ hac, isFree_setFree, isFree_setSize _ hac]
    · rw [next_setSize _ haw, next_setNext _ haw hw, next_setPrev _ han', next_setPrev _ hac,
        next_setNext _ hac hn, next_setFree _ hac, next_setSize _ hac]
    · rw [prev_setSize _ haw, prev_setNext _ haw, prev_setPrev _ han' hw,
        prev_setPrev _ hac (by omega), prev_setNext _ hac, prev_setFree _ hac,
        prev_setSize _ hac]

/-- Splitting a block in memory splits it in the list. -/
theorem Holds.split (h : Holds m (xs ++ b :: ys)) (hl : Layout (xs ++ b :: ys) e) {n : ℕ}
    (hn : n + 20 ≤ b.size) :
    Holds (splitBlock m b.addr n)
      (xs ++ ⟨b.addr, n, b.free⟩ :: ⟨b.addr + n + 16, b.size - n - 16, true⟩ :: ys) := by
  have hb := hl.addr_pos (b := b) (by simp)
  obtain ⟨hx, hy⟩ := hl.tiles.around
  have hnext := h.neighbours.1
  have hsb := h.size b (by simp)
  have hnx : next m b.addr ≠ 0 → ∃ y t, ys = y :: t ∧ next m b.addr = y.addr := by
    intro hne
    cases ys with
    | nil => exact absurd hnext hne
    | cons y t => exact ⟨y, t, rfl, hnext⟩
  have hw : b.addr + n + 16 < 2 ^ 32 := by omega
  have hfields : ∀ d ∈ xs ++ b :: ys, _ := fun d (hd : d ∈ xs ++ b :: ys) =>
    fields_split (m := m) (w := b.addr) (n := n) (a := d.addr) hw (hl.tiles.clear hd (by simp))
      (by
        unfold Clear
        rcases hl.tiles.apart hd (show b ∈ xs ++ b :: ys by simp) with rfl | h | h <;> omega)
      (fun hne => by
        obtain ⟨y, t, rfl, he⟩ := hnx hne
        rw [he]
        exact hl.tiles.clear hd (by simp))
  have hnew := fields_split (m := m) (w := b.addr) (n := n) (a := b.addr + n + 16) hw
    (Or.inr (Or.inr (by omega))) (Or.inl rfl) (fun hne => by
      obtain ⟨y, t, rfl, he⟩ := hnx hne
      have := hy y (by simp)
      rw [he]
      exact Or.inr (Or.inl (by omega)))
  have hb0 : b ∈ xs ++ b :: ys := by simp
  have hx0 : ∀ d ∈ xs, d ∈ xs ++ b :: ys := fun d hd => List.mem_append_left _ hd
  have hy0 : ∀ d ∈ ys, d ∈ xs ++ b :: ys := fun d hd => by simp [hd]
  have hnot : ∀ a, a ≤ b.addr + n + 16 → ¬ (next m b.addr ≠ 0 ∧ a = next m b.addr) := by
    rintro a ha ⟨hne, he⟩
    obtain ⟨y, t, rfl, hy'⟩ := hnx hne
    have := hy y (by simp)
    omega
  refine ⟨fun d hd => ?_, fun d hd => ?_, ?_⟩
  · rcases List.mem_append.mp hd with hd | hd
    · have := hx d hd
      rw [(hfields d (hx0 d hd)).1, if_neg (by omega), if_neg (by omega), h.size d (hx0 d hd)]
    · rcases List.mem_cons.mp hd with rfl | hd
      · rw [(hfields b hb0).1, if_pos rfl]
      · rcases List.mem_cons.mp hd with rfl | hd
        · rw [hnew.1, if_neg (by omega), if_pos rfl, hsb]
        · have := hy d hd
          rw [(hfields d (hy0 d hd)).1, if_neg (by omega), if_neg (by omega), h.size d (hy0 d hd)]
  · rcases List.mem_append.mp hd with hd | hd
    · have := hx d hd
      rw [(hfields d (hx0 d hd)).2.1, if_neg (by omega), h.free d (hx0 d hd)]
    · rcases List.mem_cons.mp hd with rfl | hd
      · rw [(hfields b hb0).2.1, if_neg (by omega), h.free b hb0]
      · rcases List.mem_cons.mp hd with rfl | hd
        · rw [hnew.2.1, if_pos rfl]
        · have := hy d hd
          rw [(hfields d (hy0 d hd)).2.1, if_neg (by omega), h.free d (hy0 d hd)]
  · have hlinks := h.links
    simp only [List.map_append, List.map_cons] at hlinks ⊢
    refine hlinks.insert ?_ ?_ ?_ ?_ ?_
    · intro a ha
      obtain ⟨d, hd, rfl⟩ := List.mem_map.mp ha
      have := hx d hd
      obtain ⟨_, _, h3, h4⟩ := hfields d (hx0 d hd)
      rw [h3, h4, if_neg (by omega), if_neg (by omega), if_neg (hnot _ (by omega)),
        if_neg (by omega)]
      exact ⟨rfl, rfl⟩
    · obtain ⟨_, _, h3, h4⟩ := hfields b hb0
      rw [h3, h4, if_pos rfl, if_neg (hnot _ (by omega)), if_neg (by omega)]
      exact ⟨rfl, rfl⟩
    · obtain ⟨_, _, h3, h4⟩ := hnew
      rw [h3, h4, if_neg (by omega), if_pos rfl, if_neg (hnot _ (by omega)), if_pos rfl]
      exact ⟨rfl, rfl⟩
    · intro a ha
      obtain ⟨d, hd, rfl⟩ := List.mem_map.mp ha
      have := hy d hd
      rw [(hfields d (hy0 d hd)).2.2.1, if_neg (by omega), if_neg (by omega)]
    · intro a t hat
      cases ys with
      | nil => cases hat
      | cons y zs =>
          rw [List.map_cons, List.cons.injEq] at hat
          obtain ⟨rfl, rfl⟩ := hat
          have hy' := hl.addr_pos (b := y) (by simp)
          have he : next m b.addr = y.addr := hnext
          refine ⟨?_, fun a ha => ?_⟩
          · rw [(hfields y (by simp)).2.2.2, if_pos ⟨by omega, he.symm⟩]
          · obtain ⟨d, hd, rfl⟩ := List.mem_map.mp ha
            have h1 := (show Tiles HEAP_START ((xs ++ [b]) ++ y :: zs) e by
              simpa using hl.tiles).around.2 d hd
            have h2 := hy d (by simp [hd])
            rw [(hfields d (by simp [hd])).2.2.2, if_neg (by omega), if_neg (by omega)]

/-- The list is unchanged where memory agrees on the bytes of all headers. -/
theorem Holds.of_agree {m' : Mem} {bs : List Block} (h : Holds m bs)
    (hm : ∀ b ∈ bs, ∀ x, b.addr ≤ x → x < b.addr + 16 → m' x = m x) : Holds m' bs := by
  have hload : ∀ b ∈ bs, ∀ k, k + 4 ≤ 16 → m'.load32 (b.addr + k) = m.load32 (b.addr + k) :=
    fun b hb k hk => Mem.load32_congr fun x _ hx => hm b hb x (by omega) (by omega)
  refine h.congr (fun b hb => ?_) (fun b hb => ?_) (fun b hb => ?_) fun b hb => ?_
  · exact congrArg UInt32.toNat (hload b hb 0 (by omega))
  · unfold isFree
    rw [hm b hb _ (by omega) (by omega)]
  · exact congrArg UInt32.toNat (hload b hb 8 (by omega))
  · exact congrArg UInt32.toNat (hload b hb 12 (by omega))

/-- A page that appears at the end of the heap changes no header. -/
theorem Holds.mapPage {bs : List Block} (h : Holds m bs) (hl : Layout bs e) (page : ℕ → UInt8) :
    Holds (Heap.mapPage m e page) bs := by
  refine h.of_agree fun b hb x _ hx => ?_
  have := hl.addr_pos hb
  unfold Heap.mapPage
  rw [if_neg (by omega)]

/-- A write outside the headers changes no header. -/
theorem Holds.store8 {bs : List Block} (h : Holds m bs) {x : ℕ} (v : UInt8)
    (hx : ∀ b ∈ bs, Outside x b.addr) : Holds (m.store8 x v) bs := by
  refine h.of_agree fun b hb y h1 h2 => Mem.store8_other m v ?_
  have := hx b hb
  unfold Outside at this
  omega

/-- The last block grows in memory. -/
theorem Holds.extend (h : Holds m (xs ++ [b])) (hl : Layout (xs ++ [b]) e)
    (he : e + PAGE_SIZE ≤ HEAP_MAX_ADDR) :
    Holds (setSize m b.addr (Heap.size m b.addr + PAGE_SIZE))
      (xs ++ [{ b with size := b.size + PAGE_SIZE }]) := by
  have hb := hl.addr_pos (b := b) (by simp)
  obtain ⟨hx, _⟩ := hl.tiles.around
  have hsb := h.size b (by simp)
  have hclear : ∀ d ∈ xs ++ [b], Clear d.addr b.addr := fun d hd => hl.tiles.clear hd (by simp)
  have hlt : Heap.size m b.addr + PAGE_SIZE < 2 ^ 32 := by
    rw [hsb]
    simp only [PAGE_SIZE, HEAP_MAX_ADDR] at he ⊢
    omega
  refine ⟨fun d hd => ?_, fun d hd => ?_, ?_⟩
  · rcases List.mem_append.mp hd with hd | hd
    · have := hx d hd
      rw [size_setSize _ (hclear d (by simp [hd])) hlt, if_neg (by omega), h.size d (by simp [hd])]
    · rw [List.mem_singleton] at hd
      subst hd
      show Heap.size _ b.addr = _
      rw [size_setSize _ (hclear b (by simp)) hlt, if_pos rfl, hsb]
  · rcases List.mem_append.mp hd with hd | hd
    · rw [isFree_setSize _ (hclear d (by simp [hd])), h.free d (by simp [hd])]
    · rw [List.mem_singleton] at hd
      subst hd
      exact (isFree_setSize _ (hclear b (by simp))).trans (h.free b (by simp))
  · have hlinks := h.links
    simp only [List.map_append, List.map_cons, List.map_nil] at hlinks ⊢
    refine hlinks.congr fun a ha => ?_
    have ha' : a ∈ (xs ++ [b]).map Block.addr := by
      rw [List.map_append]
      exact ha
    obtain ⟨d, hd, rfl⟩ := List.mem_map.mp ha'
    exact ⟨next_setSize _ (hclear d hd), prev_setSize _ (hclear d hd)⟩

/-- A new last block in memory. -/
theorem Holds.push (h : Holds m (xs ++ [b])) (hl : Layout (xs ++ [b]) e)
    (he : e + PAGE_SIZE ≤ HEAP_MAX_ADDR) :
    Holds (newTail m e b.addr) ((xs ++ [b]) ++ [⟨e, PAGE_SIZE - 16, true⟩]) := by
  have hb := hl.addr_pos (b := b) (by simp)
  obtain ⟨hx, _⟩ := hl.tiles.around
  simp only [PAGE_SIZE, HEAP_MAX_ADDR] at he
  have hcb : ∀ d ∈ xs ++ [b], Clear d.addr b.addr := fun d hd => hl.tiles.clear hd (by simp)
  have hce : ∀ d ∈ xs ++ [b], Clear d.addr e ∧ d.addr ≠ e := fun d hd => by
    have := hl.addr_pos hd
    exact ⟨Or.inr (Or.inl (by omega)), by omega⟩
  have heb : Clear e b.addr ∧ e ≠ b.addr := ⟨Or.inr (Or.inr (by omega)), by omega⟩
  have hsize : ∀ a, Clear a b.addr → Clear a e →
      Heap.size (newTail m e b.addr) a = if a = e then 4096 - 16 else Heap.size m a := by
    intro a h1 h2
    unfold newTail
    simp only [headerSize_eq, PAGE_SIZE]
    rw [size_setNext _ h1, size_setPrev _ h2, size_setNext _ h2, size_setFree _ h2,
      size_setSize _ h2 (by omega)]
  have hfree : ∀ a, Clear a b.addr → Clear a e →
      isFree (newTail m e b.addr) a = if a = e then true else isFree m a := by
    intro a h1 h2
    unfold newTail
    simp only
    rw [isFree_setNext _ h1, isFree_setPrev _ h2, isFree_setNext _ h2, isFree_setFree,
      isFree_setSize _ h2]
  have hnext : ∀ a, Clear a b.addr → Clear a e →
      next (newTail m e b.addr) a = if a = b.addr then e else if a = e then 0 else next m a := by
    intro a h1 h2
    unfold newTail
    simp only
    rw [next_setNext _ h1 (by omega), next_setPrev _ h2, next_setNext _ h2 (by omega),
      next_setFree _ h2, next_setSize _ h2]
  have hprev : ∀ a, Clear a b.addr → Clear a e →
      prev (newTail m e b.addr) a = if a = e then b.addr else prev m a := by
    intro a h1 h2
    unfold newTail
    simp only
    rw [prev_setNext _ h1, prev_setPrev _ h2 (by omega), prev_setNext _ h2, prev_setFree _ h2,
      prev_setSize _ h2]
  refine ⟨fun d hd => ?_, fun d hd => ?_, ?_⟩
  · rcases List.mem_append.mp hd with hd | hd
    · rw [hsize _ (hcb d hd) (hce d hd).1, if_neg (hce d hd).2, h.size d hd]
    · rw [List.mem_singleton] at hd
      subst hd
      rw [hsize _ heb.1 (Or.inl rfl), if_pos rfl]
      rfl
  · rcases List.mem_append.mp hd with hd | hd
    · rw [hfree _ (hcb d hd) (hce d hd).1, if_neg (hce d hd).2, h.free d hd]
    · rw [List.mem_singleton] at hd
      subst hd
      rw [hfree _ heb.1 (Or.inl rfl), if_pos rfl]
  · have hlinks := h.links
    simp only [List.map_append, List.map_cons, List.map_nil, List.append_assoc,
      List.singleton_append] at hlinks ⊢
    refine hlinks.insert ?_ ?_ ?_ (by simp) (by simp)
    · intro a ha
      obtain ⟨d, hd, rfl⟩ := List.mem_map.mp ha
      have hd' : d ∈ xs ++ [b] := by simp [hd]
      have := hx d hd
      rw [hnext _ (hcb d hd') (hce d hd').1, hprev _ (hcb d hd') (hce d hd').1,
        if_neg (by omega), if_neg (hce d hd').2, if_neg (hce d hd').2]
      exact ⟨rfl, rfl⟩
    · have hb' : b ∈ xs ++ [b] := by simp
      rw [hnext _ (hcb b hb') (hce b hb').1, hprev _ (hcb b hb') (hce b hb').1, if_pos rfl,
        if_neg (hce b hb').2]
      exact ⟨rfl, rfl⟩
    · have hlast : next m b.addr = 0 := h.neighbours.1
      rw [hnext _ heb.1 (Or.inl rfl), hprev _ heb.1 (Or.inl rfl), if_neg heb.2, if_pos rfl,
        if_pos rfl, hlast]
      exact ⟨rfl, rfl⟩

end memory

end NosmeriOs.Heap
