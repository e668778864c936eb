import NosmeriOs.HeapOwned

/-! # The block list is canonical

Free neighbours are always joined, so that the blocks in use and the end of the heap leave no
choice for the rest of the list (`Tiles.canonical`).

* `blockList`: the list as a walk along `next` reads it from memory.
* `run_used`: over a run, the blocks in use are those of the live allocations.
* `run_blockList`: after any run the list is determined by the end of the heap and the extents of
  the live allocations; hence the order in which blocks are freed does not matter. -/

namespace NosmeriOs.Heap

open Memory

/-! ### The list in memory -/

/-- A header, with the address it is at. -/
structure Header where
  addr : ℕ
  size : ℕ
  free : Bool
  next : ℕ
  prev : ℕ
deriving DecidableEq

/-- The headers on the way along `next`. -/
def walk (m : Mem) : ℕ → ℕ → List Header
  | 0, _ => []
  | fuel + 1, block =>
      if block = 0 then []
      else ⟨block, size m block, isFree m block, next m block, prev m block⟩ ::
        walk m fuel (next m block)

/-- The block list of the heap: addresses, sizes, free flags and links. -/
def blockList (h : State) : List Header := walk h.mem (searchFuel h) h.heapHead

/-- The headers of blocks that come after one at `p`. -/
def headers (p : ℕ) : List Block → List Header
  | [] => []
  | b :: bs => ⟨b.addr, b.size, b.free, (bs.map Block.addr).headD 0, p⟩ :: headers b.addr bs

theorem walk_eq {m : Mem} {fuel : ℕ} {xs ys : List Block} (h : Holds m (xs ++ ys))
    (hpos : ∀ b ∈ ys, b.addr ≠ 0) (hfuel : ys.length < fuel) :
    walk m fuel ((ys.map Block.addr).headD 0) = headers ((xs.map Block.addr).getLastD 0) ys := by
  induction ys generalizing xs fuel with
  | nil =>
      obtain ⟨k, rfl⟩ : ∃ k, fuel = k + 1 := ⟨fuel - 1, by simp at hfuel; omega⟩
      simp [walk, headers]
  | cons b ys ih =>
      obtain ⟨k, rfl⟩ : ∃ k, fuel = k + 1 := ⟨fuel - 1, by simp at hfuel; omega⟩
      have hb := hpos b (List.mem_cons_self ..)
      obtain ⟨hn, hp⟩ := h.neighbours
      have h' : Holds m ((xs ++ [b]) ++ ys) := by simpa using h
      have hk : ys.length < k := by simpa using hfuel
      have hrest := ih h' (fun c hc => hpos c (List.mem_cons_of_mem _ hc)) hk
      rw [show ((xs ++ [b]).map Block.addr).getLastD 0 = b.addr by simp] at hrest
      simp only [List.map_cons, List.headD_cons, walk, hb, if_false, headers]
      rw [h.size b (by simp), h.free b (by simp), hn, hp, hrest]

theorem Ok.blockList {h : State} {bs : List Block} (hok : Ok h bs) :
    blockList h = headers 0 bs := by
  obtain ⟨hhead, hl, -, hh⟩ := hok
  have hpos : ∀ b ∈ bs, b.addr ≠ 0 := by
    intro b hb
    have := hl.addr_pos hb
    omega
  have hfuel : bs.length < searchFuel h := by
    have := hl.tiles.le
    unfold searchFuel
    rw [headerSize_eq]
    omega
  have hstart : h.heapHead = (bs.map Block.addr).headD 0 := by
    cases bs with
    | nil => exact absurd rfl hl.nonempty
    | cons b bs => exact hhead.trans hl.tiles.1.symm
  unfold Heap.blockList
  rw [hstart]
  exact walk_eq (show Holds h.mem ([] ++ bs) from hh) hpos hfuel

/-! ### Free neighbours are joined -/

/-- The blocks in use after the first are those that lie elsewhere. -/
theorem Tiles.used_tail {a e : ℕ} {b : Block} {bs : List Block} (h : Tiles a (b :: bs) e)
    (d : Block) : Used bs d ↔ Used (b :: bs) d ∧ d.addr ≠ a := by
  obtain ⟨rfl, htail⟩ := h
  rw [used_cons]
  constructor
  · intro hd
    have := htail.bounds hd.1
    exact ⟨Or.inr hd, by omega⟩
  · rintro ⟨⟨rfl, _⟩ | hd, hne⟩
    · exact absurd rfl hne
    · exact hd

/-- A block in use at the front of one list is at the front of the other. -/
theorem Tiles.head_of_used {a e : ℕ} {b c : Block} {bs cs : List Block}
    (hb : Tiles a (b :: bs) e) (hc : Tiles a (c :: cs) e) (hu : Used (c :: cs) b) : b = c := by
  obtain ⟨rfl, -⟩ := hb
  rcases List.mem_cons.1 hu.1 with h | h
  · exact h
  · have := hc.2.bounds h
    omega

/-- A free block reaches to the next block in use, or to the end. -/
theorem Tiles.head_of_free {a e : ℕ} {b c : Block} {bs cs : List Block}
    (hb : Tiles a (b :: bs) e) (hc : Tiles a (c :: cs) e) (hab : Alternates (b :: bs))
    (hac : Alternates (c :: cs)) (hu : ∀ d, Used (b :: bs) d ↔ Used (c :: cs) d)
    (hbf : b.free = true) (hcf : c.free = true) : a + 16 + c.size ≤ a + 16 + b.size := by
  obtain ⟨_, hbt⟩ := hb
  cases bs with
  | nil =>
      have h1 : a + 16 + b.size = e := hbt
      have h2 := hc.2.le
      omega
  | cons d bs =>
      have hdf : d.free = false := by
        have := (alternates_cons.1 hab).2 d rfl
        simpa [hbf] using this
      have hd : Used (c :: cs) d := (hu d).1 ⟨by simp, hdf⟩
      have haddr : d.addr = a + 16 + b.size := hbt.1
      rcases used_cons.1 hd with ⟨rfl, h⟩ | hd
      · simp [hcf] at h
      · have := hc.2.bounds hd.1
        omega

/-- The blocks in use and the two ends leave one tiling without free neighbours. -/
theorem Tiles.canonical {a e : ℕ} {bs cs : List Block} (hb : Tiles a bs e) (hc : Tiles a cs e)
    (hab : Alternates bs) (hac : Alternates cs) (hu : ∀ d, Used bs d ↔ Used cs d) : bs = cs := by
  induction bs generalizing a cs with
  | nil =>
      cases cs with
      | nil => rfl
      | cons c cs =>
          have h1 : a = e := hb
          have h2 := hc.2.le
          omega
  | cons b bs ih =>
      cases cs with
      | nil =>
          have h1 : a = e := hc
          have h2 := hb.2.le
          omega
      | cons c cs =>
          have hbc : b = c := by
            by_cases hbf : b.free = true
            · by_cases hcf : c.free = true
              · have h1 := hb.head_of_free hc hab hac hu hbf hcf
                have h2 := hc.head_of_free hb hac hab (fun d => (hu d).symm) hcf hbf
                have h3 := hb.1.trans hc.1.symm
                have h4 : b.size = c.size := by omega
                cases b
                cases c
                simp_all
              · refine (hc.head_of_used hb ((hu c).2 ⟨by simp, ?_⟩)).symm
                simpa using hcf
            · refine hb.head_of_used hc ((hu b).1 ⟨by simp, ?_⟩)
              simpa using hbf
          subst hbc
          have htail : ∀ d, Used bs d ↔ Used cs d := by
            intro d
            rw [hb.used_tail, hc.used_tail, hu]
          rw [ih hb.2 hc.2 (alternates_cons.1 hab).1 (alternates_cons.1 hac).1 htail]

section canonical
variable {h h' : State} {bs bs' : List Block}

theorem Ok.canonical (hok : Ok h bs) (hok' : Ok h' bs')
    (hend : h.heapCurrentEnd = h'.heapCurrentEnd) (hu : ∀ d, Used bs d ↔ Used bs' d) :
    Heap.blockList h = Heap.blockList h' := by
  have htiles := hok'.layout.tiles
  rw [← hend] at htiles
  rw [hok.blockList, hok'.blockList,
    hok.layout.tiles.canonical htiles hok.alternates hok'.alternates hu]

/-- A heap without a block in use is one free block. -/
theorem Ok.blockList_of_unused (hok : Ok h bs) (hu : ∀ d, ¬ Used bs d) :
    Heap.blockList h = [⟨HEAP_START, h.heapCurrentEnd - HEAP_START - 16, true, 0, 0⟩] := by
  have hl := hok.layout
  have hle : HEAP_START + 16 ≤ h.heapCurrentEnd := by
    obtain ⟨b, t, rfl⟩ := List.exists_cons_of_ne_nil hl.nonempty
    have := hl.tiles.le
    simp only [List.length_cons] at this
    omega
  have hbs : bs = [⟨HEAP_START, h.heapCurrentEnd - HEAP_START - 16, true⟩] := by
    refine hl.tiles.canonical ⟨rfl, ?_⟩ hok.alternates (by simp [Alternates]) fun d => ?_
    · show HEAP_START + 16 + (h.heapCurrentEnd - HEAP_START - 16) = h.heapCurrentEnd
      omega
    · simp [hu, used_cons]
      simp [Used]
  rw [hok.blockList, hbs]
  rfl

end canonical

theorem heapCurrentEnd_foldl_kfree (h : State) (ptrs : List ℕ) :
    (ptrs.foldl kfree h).heapCurrentEnd = h.heapCurrentEnd := by
  induction ptrs generalizing h with
  | nil => rfl
  | cons p ptrs ih => rw [List.foldl_cons, ih, heapCurrentEnd_kfree]

/-- Freeing several blocks takes these out of use. -/
theorem foldl_kfree_spec {h : State} {bs : List Block} (hok : Ok h bs) {ptrs : List ℕ}
    (hn : ptrs.Nodup) (hp : ∀ p ∈ ptrs, ∃ b, Used bs b ∧ p = b.addr + 16) :
    ∃ bs', Ok (ptrs.foldl kfree h) bs' ∧
      ∀ d, Used bs' d ↔ d.addr + 16 ∉ ptrs ∧ Used bs d := by
  induction ptrs generalizing h bs with
  | nil => exact ⟨bs, hok, by simp⟩
  | cons p ptrs ih =>
      obtain ⟨hnot, hnodup⟩ := List.nodup_cons.1 hn
      obtain ⟨b, hb, rfl⟩ := hp p (List.mem_cons_self ..)
      obtain ⟨bs₁, hok₁, hu₁, -⟩ := kfree_spec hok hb
      have hp₁ : ∀ q ∈ ptrs, ∃ c, Used bs₁ c ∧ q = c.addr + 16 := by
        intro q hq
        obtain ⟨c, hc, rfl⟩ := hp q (List.mem_cons_of_mem _ hq)
        refine ⟨c, (hu₁ c).2 ⟨?_, hc⟩, rfl⟩
        rintro rfl
        exact hnot hq
      obtain ⟨bs', hok', hu'⟩ := ih hok₁ hnodup hp₁
      refine ⟨bs', hok', fun d => ?_⟩
      have hne : Used bs d → (d ≠ b ↔ d.addr ≠ b.addr) := by
        intro hd
        refine not_congr ⟨fun he => he ▸ rfl, fun he => ?_⟩
        exact hok.layout.eq_of_addr hd.1 hb.1 he
      rw [hu', hu₁]
      simp only [List.mem_cons, Nat.add_right_cancel_iff, not_or]
      constructor
      · rintro ⟨h1, h2, h3⟩
        exact ⟨⟨(hne h3).1 h2, h1⟩, h3⟩
      · rintro ⟨⟨h1, h2⟩, h3⟩
        exact ⟨h2, (hne h3).2 h1, h3⟩

/-! ### Runs -/

namespace RunState

variable {σ : Type} {alloc : PageSource σ} {st : RunState σ} {bs : List Block}

theorem Inv.owns (h : st.Inv bs) : Owns st.heap (st.live.map Alloc.ptr) := by
  refine ⟨bs, h.ok, h.nodup, fun p hp => ?_⟩
  obtain ⟨a, ha, rfl⟩ := List.mem_map.1 hp
  exact h.block a ha

/-- The pointers of blocks in use after a step, if they were those of the live allocations. -/
theorem Inv.live_step (h : st.Inv bs) (alloc : PageSource σ) (c : Call)
    (hl : ∀ p, Live st.heap p → p ∈ st.live.map Alloc.ptr) (p : ℕ)
    (hp : Live (st.step alloc c).heap p) : p ∈ (st.step alloc c).live.map Alloc.ptr := by
  cases c with
  | kmalloc bytes =>
      obtain ⟨hiff, -⟩ := live_kmalloc (q := p) h.owns alloc bytes st.pager
      rcases hiff.1 hp with ⟨rfl, hne⟩ | hp
      · simp [RunState.step, hne]
      · have := hl p hp
        simp only [RunState.step]
        split_ifs
        · exact this
        · exact List.mem_cons_of_mem _ this
  | kfree k =>
      simp only [RunState.step] at hp ⊢
      cases hk : st.live[k]? with
      | none =>
          rw [hk] at hp
          exact hl p hp
      | some f =>
          rw [hk] at hp
          have hf : Live st.heap f.ptr :=
            h.owns.live (List.mem_map_of_mem (List.mem_of_getElem? hk))
          obtain ⟨hne, hp⟩ := (live_kfree hf).1 hp
          obtain ⟨a, ha, rfl⟩ := List.mem_map.1 (hl p hp)
          refine List.mem_map_of_mem (List.mem_eraseIdx_iff_getElem?.2 ?_)
          obtain ⟨i, hi⟩ := List.mem_iff_getElem?.1 ha
          refine ⟨i, ?_, hi⟩
          rintro rfl
          rw [hk] at hi
          cases hi
          exact hne rfl
  | write k j v =>
      simp only [RunState.step] at hp ⊢
      cases hk : st.live[k]? with
      | none =>
          rw [hk] at hp
          exact hl p hp
      | some o =>
          rw [hk] at hp
          simp only at hp ⊢
          by_cases hj : j < payloadSize st.heap o.ptr
          · rw [if_pos hj] at hp ⊢
            -- the write changes no header
            have hw := h.write hk hj v
            have hlive := hl p (h.ok.live_iff.2 (hw.ok.live_iff.1 hp))
            obtain ⟨a, ha, rfl⟩ := List.mem_map.1 hlive
            obtain ⟨i, hi⟩ := List.mem_iff_getElem?.1 ha
            have hlt := (List.getElem?_eq_some_iff.1 hi).1
            by_cases hik : k = i
            · subst hik
              rw [hk] at hi
              cases hi
              exact List.mem_map.2 ⟨_, List.mem_set hlt _, rfl⟩
            · refine List.mem_map_of_mem (List.mem_iff_getElem?.2 ⟨i, ?_⟩)
              rw [List.getElem?_set, if_neg hik, hi]
          · rw [if_neg hj] at hp ⊢
            exact hl p hp

/-- Over a run, the blocks in use are those of the live allocations. -/
theorem run_used (alloc : PageSource σ) (m : Mem) (s : σ) (calls : List Call) :
    ∃ bs, (run alloc (start m s) calls).Inv bs ∧
      ∀ b, Used bs b → ∃ a ∈ (run alloc (start m s) calls).live, a.ptr = b.addr + 16 := by
  have hlive : ∀ p, Live (run alloc (start m s) calls).heap p →
      p ∈ (run alloc (start m s) calls).live.map Alloc.ptr := by
    induction calls using List.reverseRecOn with
    | nil =>
        intro p hp
        obtain ⟨b, hb, -⟩ := (initHeap_ok m).live_iff.1 hp
        simp [Used] at hb
        simp [hb.1] at hb
    | append_singleton calls c ih =>
        obtain ⟨bs, h⟩ := run_inv alloc m s calls
        have hstep := h.live_step alloc c ih
        unfold run at hstep ⊢
        rw [List.foldl_append]
        exact hstep
  obtain ⟨bs, h⟩ := run_inv alloc m s calls
  refine ⟨bs, h, fun b hb => ?_⟩
  obtain ⟨a, ha, he⟩ := List.mem_map.1 (hlive _ (h.ok.live_iff.2 ⟨b, hb, rfl⟩))
  exact ⟨a, ha, he⟩

/-- The live allocations with their extents. -/
def extents (st : RunState σ) : Set (ℕ × ℕ) :=
  {x | ∃ a ∈ st.live, x = (a.ptr, payloadSize st.heap a.ptr)}

theorem Inv.mem_extents (h : st.Inv bs)
    (hu : ∀ b, Used bs b → ∃ a ∈ st.live, a.ptr = b.addr + 16) (d : Block) :
    Used bs d ↔ d.free = false ∧ (d.addr + 16, d.size) ∈ st.extents := by
  constructor
  · intro hd
    obtain ⟨a, ha, he⟩ := hu d hd
    exact ⟨hd.2, a, ha, by rw [he, h.ok.payloadSize hd]⟩
  · rintro ⟨hf, a, ha, he⟩
    obtain ⟨b, hb, hptr⟩ := h.block a ha
    rw [hptr, h.ok.payloadSize hb, Prod.mk.injEq] at he
    have hbf := hb.2
    have hdb : d = b := by
      cases b
      cases d
      simp_all
    rwa [hdb]

/-- **The block list is canonical**: after any run it is a function of the end of the heap and
the extents of the live allocations.  So live blocks may be freed in any order, `kfree` undoes a
`kmalloc` that did not grow the heap, and without live blocks the list is one free block. -/
theorem run_blockList {τ : Type} (alloc : PageSource σ) (alloc' : PageSource τ) (m m' : Mem)
    (s : σ) (s' : τ) (calls calls' : List Call) :
    let st := run alloc (start m s) calls
    let st' := run alloc' (start m' s') calls'
    (st.heap.heapCurrentEnd = st'.heap.heapCurrentEnd → st.extents = st'.extents →
      blockList st.heap = blockList st'.heap) ∧
    (∀ ptrs qs : List ℕ, ptrs.Nodup → ptrs ⊆ st.live.map Alloc.ptr → ptrs.Perm qs →
      blockList (ptrs.foldl Heap.kfree st.heap) = blockList (qs.foldl Heap.kfree st.heap)) ∧
    (∀ bytes p h t, Heap.kmalloc alloc bytes st.heap st.pager = (p, h, t) →
      h.heapCurrentEnd = st.heap.heapCurrentEnd →
      blockList (Heap.kfree h p) = blockList st.heap) ∧
    ∀ ptrs : List ℕ, ptrs.Perm (st.live.map Alloc.ptr) →
      blockList (ptrs.foldl Heap.kfree st.heap) =
        [⟨HEAP_START, st.heap.heapCurrentEnd - HEAP_START - 16, true, 0, 0⟩] := by
  intro st st'
  obtain ⟨bs, h, hu⟩ := run_used alloc m s calls
  obtain ⟨bs', h', hu'⟩ := run_used alloc' m' s' calls'
  have hblock : ∀ ptrs ⊆ st.live.map Alloc.ptr, ∀ p ∈ ptrs, ∃ b, Used bs b ∧ p = b.addr + 16 := by
    intro ptrs hs p hp
    obtain ⟨a, ha, rfl⟩ := List.mem_map.1 (hs hp)
    exact h.block a ha
  refine ⟨fun hend hext => ?_, fun ptrs qs hn hs hperm => ?_, fun bytes p h₁ t hr hend => ?_,
    fun ptrs hperm => ?_⟩
  · refine h.ok.canonical h'.ok hend fun d => ?_
    rw [h.mem_extents hu, h'.mem_extents hu']
    exact and_congr_right fun _ => by rw [hext]
  · obtain ⟨cs, hcs, hc⟩ := foldl_kfree_spec h.ok hn (hblock ptrs hs)
    obtain ⟨ds, hds, hd⟩ := foldl_kfree_spec h.ok (hperm.nodup_iff.1 hn)
      (hblock qs fun q hq => hs (hperm.mem_iff.2 hq))
    refine hcs.canonical hds ?_ fun d => ?_
    · rw [heapCurrentEnd_foldl_kfree, heapCurrentEnd_foldl_kfree]
    · rw [hc, hd, hperm.mem_iff]
  · obtain ⟨cs, hok, hres, -⟩ := kmalloc_spec alloc bytes st.pager h.ok
    rw [hr] at hok hres
    rcases hres with ⟨rfl, hiff⟩ | ⟨c, rfl, -, hfresh, hiff⟩
    · exact hok.canonical h.ok hend hiff
    · have hc : Used cs c := (hiff c).2 (Or.inl rfl)
      obtain ⟨ds, hds, hd, -⟩ := kfree_spec hok hc
      refine hds.canonical h.ok ((heapCurrentEnd_kfree ..).trans hend) fun d => ?_
      rw [hd, hiff]
      constructor
      · rintro ⟨hne, rfl | hused⟩
        · exact absurd rfl hne
        · exact hused
      · intro hused
        refine ⟨?_, Or.inr hused⟩
        rintro rfl
        exact hfresh d hused rfl
  · have hn : ptrs.Nodup := hperm.nodup_iff.2 h.nodup
    obtain ⟨cs, hcs, hc⟩ := foldl_kfree_spec h.ok hn
      (hblock ptrs fun p hp => hperm.mem_iff.1 hp)
    rw [hcs.blockList_of_unused, heapCurrentEnd_foldl_kfree]
    intro d hd
    obtain ⟨hnot, hd⟩ := (hc d).1 hd
    obtain ⟨a, ha, he⟩ := hu d hd
    exact hnot (hperm.mem_iff.2 (he ▸ List.mem_map_of_mem ha))

end RunState

end NosmeriOs.Heap
