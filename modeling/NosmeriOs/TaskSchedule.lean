import NosmeriOs.TaskRing

/-! # What `schedule` picks and what it reaps

The search of `schedule` takes dead tasks out of the list that it walks along, through `kill_task`,
which looks for them by their ids from the current task on.

* `WellFormed k l`: the tasks after the current one are `l`, in a ring, and the ids are distinct.
* `chosen` and `reaped`: the first ready task in the order of the ring, and the dead ones before
  it.
* `Reaps`: the kernel without some of its tasks; `reaps_killTask` for one, `scheduleLoop_eq` for
  the whole search.
* `schedule_scheduled`: what `schedule` does. -/

namespace NosmeriOs.Tasks

open Vmm Vfs Heap Rings

namespace Kernel

structure WellFormed (k : Kernel) (l : List ℕ) : Prop where
  current : k.currentTask ≠ 0
  ring : Ring k.nextOf k.currentTask l
  alive : k.alive.Perm (k.currentTask :: l)
  ids : (k.alive.map fun t => (k.tasks t).id).Nodup

def isReady (k : Kernel) (t : ℕ) : Bool := (k.tasks t).state = .ready

/-- A dead task that `kill_task` accepts. -/
def isReapable (k : Kernel) (t : ℕ) : Bool := (k.tasks t).state = .dead ∧ (k.tasks t).id ≠ 0

/-- The first ready task of the ring after the current one, which comes last. -/
def chosen (k : Kernel) (l : List ℕ) : Option ℕ := (l ++ [k.currentTask]).find? k.isReady

/-- The dead tasks of the ring that stand before the chosen one. -/
def reaped (k : Kernel) (l : List ℕ) : List ℕ :=
  (l.takeWhile fun t => !k.isReady t).filter k.isReapable

/-- The two blocks of a task are freed. -/
def freeBlocks (k : Kernel) (heap : State) (t : ℕ) : State :=
  Heap.kfree (Heap.kfree heap (k.tasks t).kernelStackBottom) t

/-- The pages of a user task are freed. -/
def freePages (k : Kernel) (m : Machine) (t : ℕ) : Machine :=
  if (k.tasks t).isUser then (m.freePage (k.tasks t).userStackBottom).freePage (k.tasks t).cr3
  else m

/-- `kill_task` for each of the tasks. -/
def reapAll (k : Kernel) (ts : List ℕ) : Kernel :=
  ts.foldl (fun k t => (k.killTask (k.tasks t).id).2) k

/-- `k'` is `k` without the tasks `ts` of its ring `l`: they and what they hold are freed, and the
others keep their order and all but their links. -/
structure Reaps (k k' : Kernel) (l ts : List ℕ) : Prop where
  wellFormed : WellFormed k' (l.filter (· ∉ ts))
  current : k'.currentTask = k.currentTask
  heap : k'.heap = ts.foldl k.freeBlocks k.heap
  machine : k'.machine = ts.foldl k.freePages k.machine
  tasks : ∀ t, k'.tasks t = { k.tasks t with next := (k'.tasks t).next }

variable {img : Image} {k k' k₁ : Kernel} {l ts : List ℕ} {t : ℕ}

theorem WellFormed.nodup (h : WellFormed k l) : k.alive.Nodup :=
  h.alive.nodup_iff.2 h.ring.nodup

theorem Consistent.wellFormed {buffers : List ℕ} (h : Consistent img k buffers l)
    (hids : (k.alive.map fun t => (k.tasks t).id).Nodup) : WellFormed k l :=
  ⟨h.current_ne_zero, h.ring, h.alive, hids⟩

/-! ### One task -/

/-- `kill_task` finds the task with the id: no other has it. -/
theorem killTask_of_mem {xs ys : List ℕ} (h : WellFormed k (xs ++ t :: ys))
    (hid : (k.tasks t).id ≠ 0) :
    (k.killTask (k.tasks t).id).2 = k.remove t (xs.getLastD k.currentTask) := by
  have hmem : ∀ x ∈ xs ++ t :: ys, x ∈ k.alive := fun x hx =>
    h.alive.mem_iff.2 (List.mem_cons_of_mem _ hx)
  obtain ⟨y, rest, hsplit⟩ := List.exists_cons_of_ne_nil (l := xs ++ t :: ys) (by simp)
  have hring : Ring k.nextOf k.currentTask ([] ++ y :: rest) := by
    rw [List.nil_append, ← hsplit]
    exact h.ring
  have hnext : k.current.next = y := hring.next_eq
  have hfuel : rest.length < k.alive.length := by
    rw [h.alive.length_eq, hsplit, List.length_cons, List.length_cons]
    omega
  rw [killTask, if_neg h.current, if_neg hid, hnext]
  obtain ⟨us, u, vs, hus, -, hu, hkill⟩ | ⟨hall, -⟩ :=
    killLoop_of_ring (k.tasks t).id hring hfuel
  · rw [← hsplit] at hus
    have hut : u = t :=
      List.inj_on_of_nodup_map h.ids (hmem u (by simp [hus])) (hmem t (by simp)) hu
    subst hut
    -- the ring passes the task once
    have honce := List.nodup_middle.1 (List.nodup_cons.1 h.ring.nodup).2
    rw [List.nodup_cons, List.mem_append, not_or] at honce
    obtain ⟨rfl, -, -⟩ := (List.append_cons_inj_of_notMem honce.1.1 honce.1.2).1 hus
    exact congrArg Prod.snd hkill
  · rw [← hsplit] at hall
    exact absurd rfl (hall t (by simp))

theorem filter_notMem_singleton {xs ys : List ℕ} (hn : (xs ++ t :: ys).Nodup) :
    (xs ++ t :: ys).filter (· ∉ [t]) = xs ++ ys := by
  have hout := List.nodup_middle.1 hn
  rw [List.nodup_cons, List.mem_append, not_or] at hout
  have hself : ∀ zs : List ℕ, t ∉ zs → zs.filter (· ∉ [t]) = zs := by
    intro zs hz
    apply List.filter_eq_self.2
    intro x hx
    have hne : x ≠ t := fun e => hz (e ▸ hx)
    simpa using hne
  rw [List.filter_append, List.filter_cons_of_neg (by simp), hself xs hout.1.1, hself ys hout.1.2]

theorem reaps_remove {xs ys : List ℕ} (h : WellFormed k (xs ++ t :: ys)) :
    Reaps k (k.remove t (xs.getLastD k.currentTask)) (xs ++ t :: ys) [t] := by
  have hring := ring_remove h.ring
  have hfields := remove_fields k t (xs.getLastD k.currentTask)
  refine ⟨⟨?_, ?_, ?_, ?_⟩, currentTask_remove .., ?_, ?_, fun x => ?_⟩
  · rw [currentTask_remove]
    exact h.current
  · rw [filter_notMem_singleton (List.nodup_cons.1 h.ring.nodup).2, currentTask_remove]
    exact hring
  · rw [filter_notMem_singleton (List.nodup_cons.1 h.ring.nodup).2, currentTask_remove, remove_eq]
    exact erase_perm h.alive
  · have hids : (fun x => ((k.remove t (xs.getLastD k.currentTask)).tasks x).id) =
        fun x => (k.tasks x).id := by
      funext x
      rw [hfields x]
    rw [hids, remove_eq]
    exact h.ids.sublist (List.erase_sublist.map _)
  · rw [remove_eq]
    rfl
  · rw [remove_eq]
    rfl
  · rw [hfields x]

theorem Reaps.refl (h : WellFormed k l) : Reaps k k l [] := by
  have hl : l.filter (· ∉ ([] : List ℕ)) = l := by simp
  exact ⟨by rwa [hl], rfl, rfl, rfl, fun _ => rfl⟩

/-! ### The search -/

section links
variable (h : ∀ t, k'.tasks t = { k.tasks t with next := (k'.tasks t).next })
include h

theorem isReady_congr : k'.isReady = k.isReady := by
  funext t
  unfold isReady
  rw [h t]

theorem reaped_congr (l : List ℕ) : k'.reaped l = k.reaped l := by
  have hreap : k'.isReapable = k.isReapable := by
    funext t
    unfold isReapable
    rw [h t]
  unfold reaped
  rw [hreap, isReady_congr h]

theorem freeBlocks_congr : k'.freeBlocks = k.freeBlocks := by
  funext heap t
  unfold freeBlocks
  rw [h t]

theorem freePages_congr : k'.freePages = k.freePages := by
  funext m t
  unfold freePages
  rw [h t]

end links

theorem Reaps.cons (h : Reaps k k₁ l [t]) (h' : Reaps k₁ k' (l.filter (· ∉ [t])) ts) :
    Reaps k k' l (t :: ts) := by
  have hl : (l.filter (· ∉ [t])).filter (· ∉ ts) = l.filter (· ∉ t :: ts) := by
    rw [List.filter_filter]
    apply List.filter_congr
    intro x _
    simp [Bool.and_comm]
  refine ⟨hl ▸ h'.wellFormed, h'.current.trans h.current, ?_, ?_, fun x => ?_⟩
  · rw [h'.heap, h.heap, freeBlocks_congr h.tasks]
    rfl
  · rw [h'.machine, h.machine, freePages_congr h.tasks]
    rfl
  · rw [h'.tasks x, h.tasks x]

/-- The search of `schedule` over the tasks `ys` that are ahead of it, with `vs` behind: it ends
at the first ready task or at the current one, and its fuel is enough. -/
theorem scheduleLoop_eq {vs ys : List ℕ} {fuel : ℕ} (h : WellFormed k (vs ++ ys))
    (hf : ys.length < fuel) :
    scheduleLoop k.currentTask fuel k (ys.headD k.currentTask) =
        ((ys.find? k.isReady).getD k.currentTask, k.reapAll (k.reaped ys)) ∧
      Reaps k (k.reapAll (k.reaped ys)) (vs ++ ys) (k.reaped ys) := by
  induction ys generalizing k vs fuel with
  | nil =>
      obtain ⟨fuel, rfl⟩ := Nat.exists_eq_add_of_lt hf
      refine ⟨?_, .refl h⟩
      rw [List.headD_nil, scheduleLoop, if_neg fun hc => hc.2 rfl]
      rfl
  | cons y ys ih =>
      obtain ⟨fuel, rfl⟩ := Nat.exists_eq_add_of_lt hf
      have hnext : (k.tasks y).next = ys.headD k.currentTask := h.ring.next_mem
      have hy : y ≠ k.currentTask := by
        rintro rfl
        exact (List.nodup_cons.1 h.ring.nodup).1 (by simp)
      have hf' : ys.length < (y :: ys).length + fuel := by
        rw [List.length_cons]
        omega
      have hstay : WellFormed k ((vs ++ [y]) ++ ys) := by
        rwa [List.append_assoc, List.singleton_append]
      have hall : vs ++ y :: ys = (vs ++ [y]) ++ ys := by simp
      rw [List.headD_cons, scheduleLoop]
      by_cases hr : (k.tasks y).state = .ready
      · have hready : k.isReady y = true := decide_eq_true hr
        have hnone : k.reaped (y :: ys) = [] := by simp [reaped, hready]
        rw [if_neg fun hc => hc.1 hr, hnone, List.find?_cons_of_pos hready]
        exact ⟨rfl, .refl h⟩
      have hready : ¬ k.isReady y = true := by simpa [isReady] using hr
      rw [if_pos ⟨hr, hy⟩, hnext, List.find?_cons_of_neg hready]
      by_cases hd : k.isReapable y = true
      · -- the task is killed, and the search goes on behind it
        obtain ⟨hdead, hid⟩ := of_decide_eq_true hd
        have hcons : k.reaped (y :: ys) = y :: k.reaped ys := by simp [reaped, hready, hd]
        have hkill := killTask_of_mem h hid
        have hone := reaps_remove h
        rw [← hkill] at hone
        have hwf := hone.wellFormed
        rw [filter_notMem_singleton (List.nodup_cons.1 h.ring.nodup).2] at hwf
        obtain ⟨hloop, hreaps⟩ := ih hwf hf'
        rw [hone.current, isReady_congr hone.tasks, reaped_congr hone.tasks] at hloop
        rw [reaped_congr hone.tasks,
          ← filter_notMem_singleton (List.nodup_cons.1 h.ring.nodup).2] at hreaps
        rw [if_pos hdead, hcons]
        exact ⟨hloop, hone.cons hreaps⟩
      · have hskip : k.reaped (y :: ys) = k.reaped ys := by simp [reaped, hready, hd]
        rw [hskip, hall]
        obtain ⟨hloop, hreaps⟩ := ih hstay hf'
        refine ⟨?_, hreaps⟩
        by_cases hdead : (k.tasks y).state = .dead
        · -- `kill_task` does nothing for the pid 0
          have hid : (k.tasks y).id = 0 := by
            by_contra hid
            exact hd (decide_eq_true ⟨hdead, hid⟩)
          have hkill : (k.killTask (k.tasks y).id).2 = k := by
            rw [hid, killTask, if_neg h.current, if_pos rfl]
          rw [if_pos hdead, hkill]
          exact hloop
        · rw [if_neg hdead]
          exact hloop

/-! ### The call -/

/-- What `schedule` has done to the ring `l` after the current task. -/
structure Scheduled (k k' : Kernel) (l : List ℕ) : Prop where
  current : k'.currentTask = (k.chosen l).getD k.currentTask
  ring : Ring k'.nextOf k.currentTask (l.filter (· ∉ k.reaped l))
  alive : k'.alive.Perm (k.currentTask :: l.filter (· ∉ k.reaped l))
  heap : k'.heap = (k.reaped l).foldl k.freeBlocks k.heap
  pages : k'.machine.pages = ((k.reaped l).foldl k.freePages k.machine).pages
  tasks : ∀ t, k'.tasks t = { k.tasks t with
    next := (k'.tasks t).next
    state :=
      if k.chosen l = some t then .running
      else if k.chosen l ≠ none ∧ t = k.currentTask ∧ (k.tasks t).state = .running then .ready
      else (k.tasks t).state }

theorem chosen_eq (k : Kernel) (l : List ℕ) : k.chosen l =
    if k.isReady ((l.find? k.isReady).getD k.currentTask) then
      some ((l.find? k.isReady).getD k.currentTask)
    else none := by
  unfold chosen
  rw [List.find?_append]
  cases hf : l.find? k.isReady with
  | none => simp [List.find?_singleton]
  | some t =>
      have ht := List.find?_some hf
      simp [ht]

/-- `schedule` after its search: it switches to the chosen task, if there is one. -/
theorem schedule_eq_switchTo (h : WellFormed k l) (hl : l ≠ []) :
    k.schedule = match k.chosen l with
      | none => some (k.reapAll (k.reaped l))
      | some t => (k.reapAll (k.reaped l)).switchTo k.currentTask t := by
  obtain ⟨y, ys, rfl⟩ := List.exists_cons_of_ne_nil hl
  have hnext : k.current.next = (y :: ys).headD k.currentTask := h.ring.next_eq
  have hy : y ≠ k.currentTask := by
    rintro rfl
    exact (List.nodup_cons.1 h.ring.nodup).1 (by simp)
  have hf : (y :: ys).length < k.alive.length := by
    rw [h.alive.length_eq]
    exact Nat.lt_succ_self _
  obtain ⟨hloop, hreaps⟩ := @scheduleLoop_eq k [] _ _ h hf
  have hready := congrFun (isReady_congr hreaps.tasks)
    (((y :: ys).find? k.isReady).getD k.currentTask)
  unfold schedule
  rw [if_neg (not_or.2 ⟨h.current, by rw [hnext]; exact hy⟩), hnext]
  dsimp only
  rw [hloop, chosen_eq]
  dsimp only
  by_cases hr : k.isReady (((y :: ys).find? k.isReady).getD k.currentTask) = true
  · rw [hr] at hready
    rw [if_pos hr, if_neg (not_not.2 (of_decide_eq_true hready))]
  · rw [if_neg hr, if_pos]
    intro hstate
    apply hr
    rw [← hready]
    exact decide_eq_true hstate

/-- **`schedule` picks the first ready task in ring order and reaps the dead ones before it**:
its search ends for every fuel that covers the ring, and with a directory to switch to the call
returns. -/
theorem schedule_scheduled (h : WellFormed k l) (hl : l ≠ []) :
    (∀ fuel, l.length < fuel → scheduleLoop k.currentTask fuel k k.current.next =
      ((l.find? k.isReady).getD k.currentTask, k.reapAll (k.reaped l))) ∧
    ((∀ t ∈ k.chosen l, (k.tasks t).cr3 ≠ 0) → ∃ k', k.schedule = some k') ∧
    ∀ k', k.schedule = some k' → Scheduled k k' l := by
  have hstart : k.current.next = l.headD k.currentTask := h.ring.next_eq
  have hloop : ∀ fuel, l.length < fuel → scheduleLoop k.currentTask fuel k k.current.next =
      ((l.find? k.isReady).getD k.currentTask, k.reapAll (k.reaped l)) ∧
      Reaps k (k.reapAll (k.reaped l)) l (k.reaped l) := by
    intro fuel hf
    rw [hstart]
    exact @scheduleLoop_eq k [] _ _ h hf
  obtain ⟨-, hreaps⟩ := hloop _ (Nat.lt_succ_self l.length)
  have heq := schedule_eq_switchTo h hl
  refine ⟨fun fuel hf => (hloop fuel hf).1, fun hdir => ?_, fun k' hk => ?_⟩
  · cases hc : k.chosen l with
    | none =>
        rw [hc] at heq
        exact ⟨_, heq⟩
    | some t =>
        rw [hc] at heq hdir
        dsimp only at heq
        rw [switchTo_def, if_neg] at heq
        · exact ⟨_, heq⟩
        · rintro ⟨-, h0⟩
          rw [hreaps.tasks t] at h0
          exact hdir t rfl h0
  · have hring := hreaps.wellFormed.ring
    have halive := hreaps.wellFormed.alive
    rw [hreaps.current] at hring halive
    cases hc : k.chosen l with
    | none =>
        rw [hc] at heq
        rw [heq] at hk
        cases hk
        refine ⟨?_, hring, halive, hreaps.heap, by rw [hreaps.machine], fun t => ?_⟩
        · rw [hc]
          exact hreaps.current
        · simp only [hc, reduceCtorEq, if_false, ne_eq, not_true_eq_false, false_and]
          exact hreaps.tasks t
    | some t =>
        rw [hc] at heq
        rw [heq] at hk
        rw [switchTo_eq hk]
        refine ⟨by rw [hc]; rfl, hring.congr fun _ _ => rfl, halive, hreaps.heap,
          by rw [← hreaps.machine]; rfl, fun x => ?_⟩
        have hstate : ∀ y, ((k.reapAll (k.reaped l)).tasks y).state = (k.tasks y).state := by
          intro y
          rw [hreaps.tasks y]
        have hswitch : (k.reapAll (k.reaped l)).switchedState k.currentTask t x =
            if k.chosen l = some x then .running
            else if k.chosen l ≠ none ∧ x = k.currentTask ∧ (k.tasks x).state = .running then .ready
            else (k.tasks x).state := by
          unfold switchedState
          rw [hc, hstate, hstate]
          by_cases hxt : x = t
          · simp [hxt]
          · have htx : ¬ t = x := fun e => hxt e.symm
            by_cases hxc : x = k.currentTask
            · subst hxc
              simp [hxt, htx]
            · simp [hxt, htx, hxc]
        rw [← hswitch]
        change { (k.reapAll (k.reaped l)).tasks x with
          state := (k.reapAll (k.reaped l)).switchedState k.currentTask t x } = _
        rw [hreaps.tasks x]
        rfl

end Kernel

/-- The tasks of a run are such a ring, as long as pids do not run over. -/
theorem System.Inv.wellFormed {img : Image} {s : System} (h : s.Inv img)
    (hn : s.created < 2 ^ 32) : ∃ l, s.kernel.WellFormed l := by
  obtain ⟨⟨l, hc⟩, hpids⟩ := h
  exact ⟨l, hc.wellFormed (hpids.nodup hn)⟩

theorem Kernel.WellFormed.setState {k : Kernel} {l : List ℕ} (h : k.WellFormed l) (t : ℕ)
    (st : TaskState) : (k.setState t st).WellFormed l := by
  have hids : ((k.setState t st).alive.map fun x => ((k.setState t st).tasks x).id) =
      k.alive.map fun x => (k.tasks x).id :=
    List.map_congr_left fun x _ => by rw [Kernel.tasks_setState]
  refine ⟨h.current, h.ring.congr fun x _ => ?_, h.alive, hids ▸ h.ids⟩
  unfold Kernel.nextOf
  rw [Kernel.tasks_setState]

/-- Of two user tasks on a small machine, the first one in the ring is dead. -/
theorem schedule_scheduled_twoUsers : ∃ k l d w k', k.WellFormed l ∧ l = [d, w] ∧
    k.reaped l = [d] ∧ k.chosen l = some w ∧
    (∀ fuel, l.length < fuel → Kernel.scheduleLoop k.currentTask fuel k k.current.next =
      (w, k.reapAll [d])) ∧
    k.schedule = some k' ∧ Kernel.Scheduled k k' l := by
  obtain ⟨k, s, t, u, h⟩ := exists_twoUsers
  obtain ⟨_, _, _, _, _, _, hbooted⟩ := Kernel.boot_cases h.boot
  have hinv : s.Inv smallImage :=
    System.run_induction (fun _ _ _ hinv hs => hinv.step hs) hbooted.inv h.run
  obtain ⟨l, hwf⟩ := hinv.wellFormed (by rw [h.created]; decide)
  obtain ⟨_, hc⟩ := hinv.list
  obtain ⟨d, w, rfl⟩ : ∃ d w, l = [d, w] := by
    have hlen := hwf.alive.length_eq
    rw [h.alive] at hlen
    exact List.length_eq_two.1 (Nat.succ.inj hlen).symm
  have hnodup := hwf.ring.nodup
  rw [h.current] at hnodup
  simp only [List.nodup_cons, List.mem_cons, List.not_mem_nil, or_false, not_or] at hnodup
  obtain ⟨⟨hkd, hkw⟩, hdw, -⟩ := hnodup
  have hd : d ∈ s.kernel.alive := hwf.alive.symm.subset (by simp)
  have hw : w ∈ s.kernel.alive := hwf.alive.symm.subset (by simp)
  have hid : (s.kernel.tasks d).id ≠ 0 := fun h0 =>
    Ne.symm hkd (List.inj_on_of_nodup_map hwf.ids hd hc.kernel (h0.trans hc.kernelId.symm))
  have hdead : ((s.kernel.setState d .dead).tasks d).state = .dead := by
    rw [Kernel.tasks_setState, if_pos rfl]
  have hready : ((s.kernel.setState d .dead).tasks w).state = .ready := by
    rw [Kernel.tasks_setState, if_neg (Ne.symm hdw)]
    exact h.ready w hw (Ne.symm hkw)
  have hfind : [d, w].find? (s.kernel.setState d .dead).isReady = some w := by
    simp [Kernel.isReady, hdead, hready]
  have hchosen : (s.kernel.setState d .dead).chosen [d, w] = some w := by
    simp [Kernel.chosen, Kernel.isReady, hdead, hready]
  have hreaped : (s.kernel.setState d .dead).reaped [d, w] = [d] := by
    have hid' : ((s.kernel.setState d .dead).tasks d).id ≠ 0 := by
      rw [Kernel.tasks_setState]
      exact hid
    simp [Kernel.reaped, Kernel.isReady, Kernel.isReapable, hdead, hready, hid']
  obtain ⟨hloop, hreturns, hscheduled⟩ :=
    Kernel.schedule_scheduled (hwf.setState d .dead) (List.cons_ne_nil _ _)
  obtain ⟨k', hk'⟩ := hreturns fun x hx => by
    obtain rfl := Option.some.inj (hchosen.symm.trans hx)
    rw [Kernel.tasks_setState]
    exact h.directory w hw
  rw [hfind, hreaped] at hloop
  exact ⟨_, _, d, w, k', hwf.setState d .dead, rfl, hreaped, hchosen, hloop, hk', hscheduled k' hk'⟩

end NosmeriOs.Tasks
