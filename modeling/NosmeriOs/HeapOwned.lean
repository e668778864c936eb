import NosmeriOs.HeapRun

/-! # Blocks held by the kernel

The tasks and buffers of the kernel are heap blocks in use.  `Owns h ptrs` says so of a list of
pointers, without naming the blocks: it is what the callers of `kmalloc` and `kfree` rely on.

* `Owns.kmalloc` and `Owns.kfree`: a new pointer is added, a freed one is taken out.
* `Live`: the pointers of all blocks in use, whoever holds them; `live_kmalloc` and `live_kfree`.
* `kmalloc_grown` and `kmalloc_pager`: what `kmalloc` does to the end of the heap and to the supply
  of pages, as invariant rules.
* `Fits.kmalloc_eq` and `Room.kmalloc_any`: when it succeeds without a new page.
* `Room.kfree`: freeing a block leaves room.
* `HasBytes`: what a block holds; only its holder writes to it. -/

namespace NosmeriOs.Heap

/-- The pointers are distinct, and each is that of a block in use. -/
def Owns (h : State) (ptrs : List ℕ) : Prop :=
  ∃ bs, Ok h bs ∧ ptrs.Nodup ∧ ∀ p ∈ ptrs, ∃ b, Used bs b ∧ p = b.addr + 16

namespace Owns

variable {h : State} {ptrs qs : List ℕ} {p : ℕ}

theorem nodup (ho : Owns h ptrs) : ptrs.Nodup := by
  obtain ⟨_, _, hn, _⟩ := ho
  exact hn

theorem of_subset (ho : Owns h ptrs) (hn : qs.Nodup) (hs : qs ⊆ ptrs) : Owns h qs := by
  obtain ⟨bs, hok, _, hused⟩ := ho
  exact ⟨bs, hok, hn, fun p hp => hused p (hs hp)⟩

theorem left (ho : Owns h (ptrs ++ qs)) : Owns h ptrs :=
  ho.of_subset (ho.nodup.sublist (List.sublist_append_left ..)) (List.subset_append_left ..)

theorem perm (ho : Owns h ptrs) (hp : ptrs.Perm qs) : Owns h qs :=
  ho.of_subset (hp.nodup_iff.1 ho.nodup) hp.symm.subset

/-- Blocks lie in the heap. -/
theorem ge (ho : Owns h ptrs) (hp : p ∈ ptrs) : HEAP_START + 16 ≤ p := by
  obtain ⟨bs, hok, _, hused⟩ := ho
  obtain ⟨b, hb, rfl⟩ := hused p hp
  have := hok.layout.addr_pos hb.1
  simp only [HEAP_START]
  omega

theorem kfree (ho : Owns h (p :: ptrs)) : Owns (Heap.kfree h p) ptrs := by
  obtain ⟨bs, hok, hn, hused⟩ := ho
  obtain ⟨b, hb, rfl⟩ := hused p (List.mem_cons_self ..)
  obtain ⟨hp, hn⟩ := List.nodup_cons.1 hn
  obtain ⟨bs', hok', hused', _⟩ := kfree_spec hok hb
  refine ⟨bs', hok', hn, fun q hq => ?_⟩
  obtain ⟨c, hc, rfl⟩ := hused q (List.mem_cons_of_mem _ hq)
  exact ⟨c, (hused' c).2 ⟨fun e => hp (e ▸ hq), hc⟩, rfl⟩

end Owns

section kmalloc
variable {σ : Type} {h : State} {ptrs : List ℕ} {p : ℕ}

/-- `kmalloc` returns null and keeps the blocks, or adds one, which then is as large as it was
asked to be. -/
theorem Owns.kmalloc (ho : Owns h ptrs) (alloc : PageSource σ) (bytes : UInt32) (s : σ) :
    (Heap.kmalloc alloc bytes h s).1 = 0 ∧ Owns (Heap.kmalloc alloc bytes h s).2.1 ptrs ∨
    (Heap.kmalloc alloc bytes h s).1 ≠ 0 ∧ alignedSize bytes ≤ HEAP_MAX_ADDR - HEAP_START ∧
      Owns (Heap.kmalloc alloc bytes h s).2.1 ((Heap.kmalloc alloc bytes h s).1 :: ptrs) := by
  obtain ⟨bs, hok, hn, hused⟩ := ho
  obtain ⟨bs', hok', hres, _⟩ := kmalloc_spec alloc bytes s hok
  obtain ⟨h0, hiff⟩ | ⟨c, hp, hsize, hfresh, hiff⟩ := hres
  · refine Or.inl ⟨h0, bs', hok', hn, fun p hp => ?_⟩
    obtain ⟨b, hb, rfl⟩ := hused p hp
    exact ⟨b, (hiff b).2 hb, rfl⟩
  · have hc := hok'.layout.addr_pos ((hiff c).2 (Or.inl rfl)).1
    refine Or.inr ⟨by omega, by simp only [HEAP_MAX_ADDR, HEAP_START]; omega, bs', hok', ?_, ?_⟩
    · refine List.nodup_cons.2 ⟨fun hmem => ?_, hn⟩
      obtain ⟨b, hb, he⟩ := hused _ hmem
      exact hfresh b hb (by omega)
    · intro p hmem
      obtain rfl | hmem := List.mem_cons.1 hmem
      · exact ⟨c, (hiff c).2 (Or.inl rfl), hp⟩
      · obtain ⟨b, hb, rfl⟩ := hused p hmem
        exact ⟨b, (hiff b).2 (Or.inr hb), rfl⟩

/-! ### What blocks hold -/

/-- The block at `p` is in use, and the bytes `c` are in it. -/
def HasBytes (h : State) (p n : ℕ) (c : ℕ → UInt8) : Prop :=
  ∃ bs b, Ok h bs ∧ Used bs b ∧ p = b.addr + 16 ∧ n ≤ b.size ∧ ∀ i < n, h.mem (p + i) = c i

/-- Nobody writes to a block in use but its holder. -/
theorem HasBytes.kmalloc {n : ℕ} {c : ℕ → UInt8} (hb : HasBytes h p n c) (alloc : PageSource σ)
    (bytes : UInt32) (s : σ) : HasBytes (Heap.kmalloc alloc bytes h s).2.1 p n c := by
  obtain ⟨bs, b, hok, hused, rfl, hn, hbytes⟩ := hb
  obtain ⟨bs', hm⟩ := kmalloc_spec alloc bytes s hok
  have hkept : Used bs' b := by
    obtain ⟨-, hiff⟩ | ⟨_, -, -, -, hiff⟩ := hm.result
    · exact (hiff b).2 hused
    · exact (hiff b).2 (Or.inr hused)
  refine ⟨bs', b, hm.ok, hkept, rfl, hn, fun i hi => ?_⟩
  rw [hm.payload _ ⟨b, hused, by omega, by omega⟩, hbytes i hi]

/-- A new block has the bytes that were in its place. -/
theorem Owns.hasBytes (ho : Owns h ptrs) (alloc : PageSource σ) {bytes : UInt32} (s : σ)
    (hsize : bytes.toNat ≤ alignedSize bytes) (h0 : (Heap.kmalloc alloc bytes h s).1 ≠ 0) :
    HasBytes (Heap.kmalloc alloc bytes h s).2.1 (Heap.kmalloc alloc bytes h s).1 bytes.toNat
      fun i => (Heap.kmalloc alloc bytes h s).2.1.mem ((Heap.kmalloc alloc bytes h s).1 + i) := by
  obtain ⟨bs, hok, -⟩ := ho
  obtain ⟨bs', hm⟩ := kmalloc_spec alloc bytes s hok
  obtain ⟨he, -⟩ | ⟨c, hp, hc, -, hiff⟩ := hm.result
  · exact absurd he h0
  · exact ⟨bs', c, hm.ok, (hiff c).2 (Or.inl rfl), hp, hsize.trans hc, fun _ _ => rfl⟩

/-! ### The blocks in use -/

theorem Tiles.unique {m : Memory.Mem} {a e : ℕ} {bs cs : List Block} (hb : Tiles a bs e)
    (hc : Tiles a cs e) (hm : ∀ b ∈ bs, size m b.addr = b.size ∧ isFree m b.addr = b.free)
    (hm' : ∀ c ∈ cs, size m c.addr = c.size ∧ isFree m c.addr = c.free) : bs = cs := by
  induction bs generalizing a cs with
  | nil =>
      cases cs with
      | nil => rfl
      | cons c cs =>
          have h1 := hb
          have h2 := hc.le
          simp only [Tiles, List.length_cons] at h1 h2
          omega
  | cons b bs ih =>
      cases cs with
      | nil =>
          have h1 := hc
          have h2 := hb.le
          simp only [Tiles, List.length_cons] at h1 h2
          omega
      | cons c cs =>
          obtain ⟨rfl, hb⟩ := hb
          obtain ⟨he, hc⟩ := hc
          obtain ⟨h1, h2⟩ := hm b (List.mem_cons_self ..)
          obtain ⟨h3, h4⟩ := hm' c (List.mem_cons_self ..)
          rw [he] at h3 h4
          have hbc : b = c := by
            cases b
            cases c
            simp_all
          subst hbc
          rw [ih hb hc (fun d hd => hm d (List.mem_cons_of_mem b hd))
            fun d hd => hm' d (List.mem_cons_of_mem b hd)]

/-- The memory tells the blocks. -/
theorem Ok.unique {bs cs : List Block} (hb : Ok h bs) (hc : Ok h cs) : bs = cs := by
  apply Tiles.unique hb.layout.tiles hc.layout.tiles
  · exact fun b hmem => ⟨hb.holds.size b hmem, hb.holds.free b hmem⟩
  · exact fun c hmem => ⟨hc.holds.size c hmem, hc.holds.free c hmem⟩

/-- `p` is the pointer of a block in use. -/
def Live (h : State) (p : ℕ) : Prop := ∃ bs b, Ok h bs ∧ Used bs b ∧ p = b.addr + 16

theorem Ok.live_iff {bs : List Block} (hok : Ok h bs) :
    Live h p ↔ ∃ b, Used bs b ∧ p = b.addr + 16 := by
  constructor
  · rintro ⟨cs, b, hcs, hb, rfl⟩
    rw [hok.unique hcs]
    exact ⟨b, hb, rfl⟩
  · rintro ⟨b, hb, rfl⟩
    exact ⟨bs, b, hok, hb, rfl⟩

theorem Owns.live (ho : Owns h ptrs) (hp : p ∈ ptrs) : Live h p := by
  obtain ⟨bs, hok, _, hused⟩ := ho
  exact hok.live_iff.2 (hused p hp)

theorem live_kfree (hp : Live h p) {q : ℕ} : Live (Heap.kfree h p) q ↔ q ≠ p ∧ Live h q := by
  obtain ⟨bs, b, hok, hb, rfl⟩ := hp
  obtain ⟨bs', hok', hused', _⟩ := kfree_spec hok hb
  rw [hok'.live_iff, hok.live_iff]
  constructor
  · rintro ⟨c, hc, rfl⟩
    obtain ⟨hne, hc⟩ := (hused' c).1 hc
    refine ⟨fun he => hne ?_, c, hc, rfl⟩
    exact hok.layout.eq_of_addr hc.1 hb.1 (by omega)
  · rintro ⟨hne, c, hc, rfl⟩
    exact ⟨c, (hused' c).2 ⟨fun e => hne (e ▸ rfl), hc⟩, rfl⟩

/-- `kmalloc` adds the pointer that it returns to the ones in use, and nothing else. -/
theorem live_kmalloc (ho : Owns h ptrs) (alloc : PageSource σ) (bytes : UInt32) (s : σ) {q : ℕ} :
    (Live (Heap.kmalloc alloc bytes h s).2.1 q ↔
      q = (Heap.kmalloc alloc bytes h s).1 ∧ (Heap.kmalloc alloc bytes h s).1 ≠ 0 ∨ Live h q) ∧
    ¬ Live h (Heap.kmalloc alloc bytes h s).1 := by
  obtain ⟨bs, hok, _⟩ := ho
  obtain ⟨bs', hok', hres, _⟩ := kmalloc_spec alloc bytes s hok
  rw [hok'.live_iff, hok.live_iff, hok.live_iff]
  obtain ⟨h0, hiff⟩ | ⟨c, hp, _, hfresh, hiff⟩ := hres
  · rw [h0]
    refine ⟨?_, by simp⟩
    simp [hiff]
  · rw [hp]
    constructor
    · simp only [hiff]
      constructor
      · rintro ⟨b, rfl | hb, rfl⟩
        · exact Or.inl ⟨rfl, by omega⟩
        · exact Or.inr ⟨b, hb, rfl⟩
      · rintro (⟨rfl, _⟩ | ⟨b, hb, rfl⟩)
        · exact ⟨c, Or.inl rfl, rfl⟩
        · exact ⟨b, Or.inr hb, rfl⟩
    · rintro ⟨b, hb, he⟩
      exact hfresh b hb (by omega)

/-- What every page preserves that is added at the end of the heap, and every refusal of one,
`kmalloc` preserves. -/
theorem kmalloc_grown {P : ℕ → σ → Prop} {alloc : PageSource σ}
    (hsome : ∀ e s page, HEAP_START ≤ e → e % PAGE_SIZE = 0 → e + PAGE_SIZE ≤ HEAP_MAX_ADDR →
      P e s → (alloc e s).1 = some page → P (e + PAGE_SIZE) (alloc e s).2)
    (hnone : ∀ e s, HEAP_START ≤ e → e + PAGE_SIZE ≤ HEAP_MAX_ADDR → P e s →
      (alloc e s).1 = none → P e (alloc e s).2)
    (ho : Owns h ptrs) (bytes : UInt32) {s : σ} (hs : P h.heapCurrentEnd s) :
    P (Heap.kmalloc alloc bytes h s).2.1.heapCurrentEnd (Heap.kmalloc alloc bytes h s).2.2 := by
  obtain ⟨bs, hok, -⟩ := ho
  unfold Heap.kmalloc
  generalize growFuel h = fuel
  induction fuel generalizing h s bs with
  | zero => exact hs
  | succ fuel ih =>
      have hend : HEAP_START ≤ h.heapCurrentEnd := by
        have := hok.layout.tiles.le
        omega
      unfold kmallocFrom
      obtain ⟨s', hs', hr⟩ | ⟨_, _, _, _, _, hr⟩ | ⟨page, ⟨_, hpage⟩, hmax, hr⟩ :=
        kmallocBody_cases alloc bytes s hok
      · rw [hr]
        obtain ⟨_, rfl⟩ | ⟨_, ⟨_, rfl⟩ | ⟨hmax, he⟩⟩ := hs'
        · exact hs
        · exact hs
        · have hstep := hnone _ _ hend hmax hs (congrArg Prod.fst he)
          rw [he] at hstep
          exact hstep
      · rw [hr]
        exact hs
      · rw [hr]
        obtain ⟨bs', hok', hend', _⟩ := grow_spec hok hmax page
        refine ih ?_ bs' hok'
        rw [hend']
        exact hsome _ _ page hend hok.layout.aligned hmax hs hpage

/-- What every supply of a page for an address of the heap preserves, `kmalloc` preserves. -/
theorem kmalloc_pager {P : σ → Prop} {alloc : PageSource σ}
    (halloc : ∀ addr s, HEAP_START ≤ addr → addr < HEAP_MAX_ADDR → P s → P (alloc addr s).2)
    (ho : Owns h ptrs) (bytes : UInt32) {s : σ} (hs : P s) :
    P (Heap.kmalloc alloc bytes h s).2.2 := by
  have hstep : ∀ e s, HEAP_START ≤ e → e + PAGE_SIZE ≤ HEAP_MAX_ADDR → P s →
      P (alloc e s).2 := by
    intro e s h1 h2 hs
    refine halloc e s h1 ?_ hs
    simp only [PAGE_SIZE] at h2
    omega
  exact kmalloc_grown (P := fun _ s => P s) (fun e s _ h1 _ h2 hs _ => hstep e s h1 h2 hs)
    (fun e s h1 h2 hs _ => hstep e s h1 h2 hs) ho bytes hs

/-- Some free block has at least `n` bytes. -/
def Room (h : State) (n : ℕ) : Prop := ∃ bs d, Ok h bs ∧ d ∈ bs ∧ d.free = true ∧ n ≤ d.size

theorem FirstFit.unique {n : ℕ} {xs ys xs' ys' : List Block} {b b' : Block} (h : FirstFit n xs b)
    (h' : FirstFit n xs' b') (he : xs ++ b :: ys = xs' ++ b' :: ys') : b = b' := by
  obtain ⟨zs, rfl, hz⟩ | ⟨zs, rfl, hz⟩ := List.append_eq_append_iff.1 he
  · cases zs with
    | nil => exact (List.cons.inj hz).1
    | cons c zs =>
        obtain ⟨rfl, -⟩ := List.cons.inj hz
        exact absurd h.fits (h'.first b (by simp))
  · cases zs with
    | nil => exact (List.cons.inj hz).1.symm
    | cons c zs =>
        obtain ⟨rfl, -⟩ := List.cons.inj hz
        exact absurd h'.fits (h.first b' (by simp))

/-- As long as a block fits, the first such block is taken, whatever the supply of pages is. -/
theorem Fits.kmalloc_eq {bs : List Block} (hok : Ok h bs)
    (alloc : PageSource σ) {bytes : UInt32} (h0 : bytes ≠ 0) {d : Block} (hd : d ∈ bs)
    (hfit : Fits (alignedSize bytes) d) : ∃ xs b ys, bs = xs ++ b :: ys ∧
      FirstFit (alignedSize bytes) xs b ∧ ∀ s, Heap.kmalloc alloc bytes h s =
        (b.addr + 16, { h with mem := takeBlock h.mem b.addr (alignedSize bytes) }, s) := by
  have hcases : ∀ {τ : Type} (alloc : PageSource τ) (s : τ), ∃ xs b ys, bs = xs ++ b :: ys ∧
      FirstFit (alignedSize bytes) xs b ∧ Heap.kmalloc alloc bytes h s =
        (b.addr + 16, { h with mem := takeBlock h.mem b.addr (alignedSize bytes) }, s) := by
    intro τ alloc s
    rw [Heap.kmalloc_eq hok]
    obtain ⟨_, ⟨h0', _⟩ | ⟨hnone, _⟩, _⟩ | ⟨xs, b, ys, hbs, hfirst, he⟩ | ⟨_, ⟨hnone, _⟩, _⟩ :=
      kmallocBody_cases alloc bytes s hok
    · exact absurd h0' h0
    · exact absurd hfit (hnone d hd)
    · exact ⟨xs, b, ys, hbs, hfirst, he _⟩
    · exact absurd hfit (hnone d hd)
  obtain ⟨xs, b, ys, rfl, hfirst, -⟩ := hcases (fun _ s => (none, s)) ()
  refine ⟨xs, b, ys, rfl, hfirst, fun s => ?_⟩
  obtain ⟨xs', b', ys', hbs, hfirst', he⟩ := hcases alloc s
  rw [he, hfirst.unique hfirst' hbs]

/-- As long as there is room, `kmalloc` succeeds and asks for no page. -/
theorem Room.kmalloc_any {n : ℕ} (hr : Room h n) (alloc : PageSource σ)
    {bytes : UInt32} (h0 : bytes ≠ 0) (hn : alignedSize bytes + 20 ≤ n) :
    ∃ p h', (∀ s, Heap.kmalloc alloc bytes h s = (p, h', s)) ∧ p ≠ 0 ∧
      Room h' (n - (alignedSize bytes + 16)) := by
  obtain ⟨bs, d, hok, hd, hfree, hsize⟩ := hr
  obtain ⟨xs, b, ys, rfl, hfit, he⟩ := Fits.kmalloc_eq hok alloc h0 hd ⟨hfree, by omega⟩
  obtain ⟨bs', c, hok', haddr, _, _, _, hroom⟩ :=
    takeBlock_spec hok hfit.fits (alignedSize_mod bytes)
  obtain ⟨d', hd', hfree', hsize'⟩ := hroom d hd hfree (by omega)
  exact ⟨_, _, he, by omega, bs', d', hok', hd', hfree', by omega⟩

theorem Room.kmalloc {n : ℕ} (hr : Room h n) (alloc : PageSource σ) {bytes : UInt32} (s : σ)
    (h0 : bytes ≠ 0) (hn : alignedSize bytes + 20 ≤ n) :
    ∃ p h', Heap.kmalloc alloc bytes h s = (p, h', s) ∧ p ≠ 0 ∧
      Room h' (n - (alignedSize bytes + 16)) := by
  obtain ⟨p, h', he, hp, hr'⟩ := hr.kmalloc_any alloc h0 hn
  exact ⟨p, h', he s, hp, hr'⟩

end kmalloc

theorem Fits.kmalloc_ne_zero {σ : Type} {h : State} {bs : List Block} (hok : Ok h bs)
    (alloc : PageSource σ) {bytes : UInt32} (s : σ) (h0 : bytes ≠ 0) {d : Block} (hd : d ∈ bs)
    (hfit : Fits (alignedSize bytes) d) : (Heap.kmalloc alloc bytes h s).1 ≠ 0 := by
  obtain ⟨xs, b, ys, -, -, he⟩ := hfit.kmalloc_eq hok alloc h0 hd
  rw [he s]
  omega

/-- When `kmalloc` of less than a page fails: no free block is large enough, and the heap cannot
take another page.  It has then asked for a page at most once. -/
theorem kmalloc_eq_zero_iff {σ : Type} {h : State} {bs : List Block} (hok : Ok h bs)
    (alloc : PageSource σ) {bytes : UInt32} (s : σ) (h0 : bytes ≠ 0)
    (hn : alignedSize bytes ≤ PAGE_SIZE - 16) :
    ((Heap.kmalloc alloc bytes h s).1 = 0 ↔ (∀ b ∈ bs, ¬ Fits (alignedSize bytes) b) ∧
      (HEAP_MAX_ADDR < h.heapCurrentEnd + PAGE_SIZE ∨ (alloc h.heapCurrentEnd s).1 = none)) ∧
    ((Heap.kmalloc alloc bytes h s).1 = 0 → h.heapCurrentEnd + PAGE_SIZE ≤ HEAP_MAX_ADDR →
      alloc h.heapCurrentEnd s = (none, (Heap.kmalloc alloc bytes h s).2.2)) := by
  rw [kmalloc_eq hok]
  obtain ⟨s', ⟨h0', _⟩ | ⟨hnone, hpage⟩, he⟩ | ⟨xs, b, ys, rfl, hfit, he⟩ |
    ⟨page, ⟨_, hpage⟩, hmax, he⟩ := kmallocBody_cases alloc bytes s hok
  · exact absurd h0' h0
  · rw [he]
    refine ⟨⟨fun _ => ⟨hnone, ?_⟩, fun _ => rfl⟩, fun _ hle => ?_⟩
    · exact hpage.imp And.left fun hp => congrArg Prod.fst hp.2
    · exact (hpage.resolve_left fun hp => by omega).2
  · rw [he]
    refine ⟨⟨fun hz => ?_, fun hfull => absurd hfit.fits (hfull.1 b (by simp))⟩, fun hz => ?_⟩
    · omega
    · omega
  · -- the new page has room, so that the second attempt succeeds
    obtain ⟨bs', hok', _, _, _, d, hd, hfree, hsize⟩ := grow_spec hok hmax page
    have hne := Fits.kmalloc_ne_zero hok' alloc (alloc h.heapCurrentEnd s).2 h0 hd
      ⟨hfree, by omega⟩
    rw [he]
    refine ⟨⟨fun hz => absurd hz hne, ?_⟩, fun hz => absurd hz hne⟩
    rintro ⟨_, hlt | hnone⟩
    · omega
    · rw [hpage] at hnone
      cases hnone

theorem room_initHeap (m : Memory.Mem) : Room (initHeap m) 4080 :=
  ⟨_, _, initHeap_ok m, List.mem_singleton_self _, rfl, le_refl _⟩

/-! ### Room after `kfree` -/

/-- Where no block is in use, one block lies over all of it. -/
theorem Ok.room {h h' : State} {bs bs' : List Block} (hok : Ok h bs) (hok' : Ok h' bs')
    (hend : h'.heapCurrentEnd = h.heapCurrentEnd) (hsub : ∀ c, Used bs' c → Used bs c) {d : Block}
    (hd : d ∈ bs) (hfree : ¬ Used bs' d) : Room h' d.size := by
  have hbounds := hok.layout.tiles.bounds hd
  have hout : ∀ c, Used bs' c → c.addr + 16 + c.size ≤ d.addr ∨ d.addr + 16 + d.size ≤ c.addr := by
    intro c hc
    obtain rfl | h1 | h2 := hok.layout.tiles.apart (hsub c hc).1 hd
    · exact absurd hc hfree
    · exact Or.inl h1
    · exact Or.inr h2
  obtain ⟨c, hc, h1, h2⟩ := hok'.layout.tiles.cover hbounds.1 (by omega)
  have hcfree : c.free = true := by
    by_contra hu
    have := hout c ⟨hc, by simpa using hu⟩
    omega
  refine ⟨bs', c, hok', hc, hcfree, ?_⟩
  by_contra hlt
  -- the block after `c` would start within `d`, and be free as well
  obtain ⟨xs, ys, rfl⟩ := List.append_of_mem hc
  obtain ⟨_, -, rfl, htiles⟩ := tiles_append.mp hok'.layout.tiles
  obtain ⟨-, -, -, halt⟩ := alternates_append_cons.mp hok'.alternates
  cases ys with
  | nil =>
      simp only [Tiles] at htiles
      omega
  | cons y ys =>
      obtain ⟨hy, -⟩ := htiles
      refine halt y (by simp) ⟨hcfree, ?_⟩
      by_contra hu
      have := hout y ⟨by simp, by simpa using hu⟩
      omega

theorem heapCurrentEnd_kfree (h : State) (p : ℕ) :
    (kfree h p).heapCurrentEnd = h.heapCurrentEnd := by
  unfold kfree
  split_ifs <;> rfl

theorem Room.kfree {h : State} {n p : ℕ} (hr : Room h n) (hp : Live h p) :
    Room (Heap.kfree h p) n := by
  obtain ⟨bs, d, hok, hd, hfree, hsize⟩ := hr
  obtain ⟨b, hb, rfl⟩ := hok.live_iff.1 hp
  obtain ⟨bs', hok', hused, -⟩ := kfree_spec hok hb
  have hnot : ¬ Used bs' d := by
    intro hu
    rw [hu.2] at hfree
    cases hfree
  obtain ⟨cs, c, h1, h2, h3, h4⟩ :=
    hok.room hok' (heapCurrentEnd_kfree _ _) (fun c hc => ((hused c).1 hc).2) hd hnot
  exact ⟨cs, c, h1, h2, h3, hsize.trans h4⟩

theorem owns_initHeap (m : Memory.Mem) : Owns (initHeap m) [] :=
  ⟨_, initHeap_ok m, List.nodup_nil, fun _ hp => absurd hp (List.not_mem_nil)⟩

end NosmeriOs.Heap
