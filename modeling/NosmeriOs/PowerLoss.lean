import NosmeriOs.AtaVfs
import NosmeriOs.VfsCursor

/-! # Power loss

The kernel with its drive.  It boots and makes calls; the power may fail at any access to a port,
and the kernel boots from what is on the medium.

* `VfsState.Powered`: the same sector by sector; a power loss cuts the call off between two writes.
* `run_refines`: on a drive that does not lose a flush, every run of the machine is such a run, and
  `vfs_read` reads what it reads there.
* `run_survives`: so whenever the power fails, the disk has a directory tree and no shared blocks.
* `calls_on_every_drive`: while the power does not fail, it does not matter what the drive loses.
  A `Request` is a call or a `vfs_read`.
* `write_durable_iff`: which drives do not lose a flush. -/

namespace NosmeriOs.Ata

open Bytes PortIo
open SimpleFs (Sector Disk Io Superblock FsInv needsFormat)
open Vfs (VfsNode VfsCall VfsState BlockOwnership DirectoryTree)

/-! ### The machine -/

structure Machine where
  drive : Drive
  sb : Superblock
  nodes : List VfsNode

namespace Machine

/-- The accesses of a call. -/
def ports (k : Machine) (c : VfsCall) : Prog (List VfsNode) := (DiskProg.call k.sb k.nodes c).ports

end Machine

/-- The power comes back, with `m` on the medium; it may fail again before the kernel has
started. -/
inductive Boots : Disk → Machine → Prop
  | done {m : Disk} {d d' : Drive} {n : ℕ} {sb : Superblock} {vfsRoot : VfsNode}
      (hd : d.Settled m) (h : exec n (DiskProg.vfsInit.ports, d) = (.ret (sb, vfsRoot), d')) :
      Boots m ⟨d', sb, [vfsRoot]⟩
  | again {m m' : Disk} {d : Drive} {n : ℕ} {k : Machine} (hd : d.Settled m)
      (h : (exec n (DiskProg.vfsInit.ports, d)).2.CrashImage m') (hb : Boots m' k) : Boots m k

inductive Machine.Step (k : Machine) : Machine → Prop
  /-- A call returns. -/
  | call (c : VfsCall) {n : ℕ} {nodes : List VfsNode} {d : Drive}
      (h : exec n (k.ports c, k.drive) = (.ret nodes, d)) : Step k ⟨d, k.sb, nodes⟩
  /-- `vfs_read` returns; it has not run past the blocks of the inode. -/
  | read {file : VfsNode} (hfile : file ∈ k.nodes) (size : UInt32) {n : ℕ} {r : ℤ × List UInt8}
      {d : Drive} (h : exec n ((DiskProg.vfsRead file size).ports, k.drive) = (.ret (some r), d)) :
      Step k ⟨d, k.sb, k.nodes⟩
  /-- The power fails in a call, or after it. -/
  | powerLoss (c : VfsCall) {n : ℕ} {m : Disk} {k' : Machine}
      (h : (exec n (k.ports c, k.drive)).2.CrashImage m) (hb : Boots m k') : Step k k'
  /-- The power fails in `vfs_read`, or after it. -/
  | powerLossRead {file : VfsNode} (hfile : file ∈ k.nodes) (size : UInt32) {n : ℕ} {m : Disk}
      {k' : Machine} (hin : (exec n ((DiskProg.vfsRead file size).ports, k.drive)).1 ≠ .ret none)
      (h : (exec n ((DiskProg.vfsRead file size).ports, k.drive)).2.CrashImage m)
      (hb : Boots m k') : Step k k'

/-- The state after a call, or after a power loss and a boot. -/
inductive VfsState.Powered (s : VfsState) : VfsState → Prop
  | call (c : VfsCall) : Powered s (s.call c)
  | powerLoss (c : VfsCall) (i : ℕ) :
      Powered s (VfsState.init (VfsState.cutIo s.io (s.call c).io i).disk)

/-! ### Boots -/

theorem vfsInit_of_inv {m : Disk} (h : FsInv m) : (Vfs.vfsInit ⟨m, []⟩).1 = ⟨m, []⟩ := by
  unfold Vfs.vfsInit
  rw [show SimpleFs.simplefsInit ⟨m, []⟩ = _ from Vfs.simplefsInit_of_inv h]

theorem ok_init {m : Disk} (h : FsInv m) : (VfsState.init m).Ok := by
  have hi : SimpleFs.simplefsInit ⟨m, []⟩ = (⟨m, []⟩, SimpleFs.formatSuperblock) :=
    Vfs.simplefsInit_of_inv h
  unfold VfsState.init Vfs.vfsInit
  rw [hi]
  refine ⟨h, rfl, fun n hn => ?_, fun w hw => absurd hw List.not_mem_nil⟩
  rw [List.mem_singleton] at hn
  subst hn
  refine ⟨fun _ => h.tree.root, fun hf => absurd hf ?_⟩
  show ¬ (Vfs.VFS_DIRECTORY &&& Vfs.VFS_DIRECTORY != 0) = false
  decide

/-- What the machine has when the state is `s`. -/
structure Machine.Has (k : Machine) (s : VfsState) : Prop where
  ok : s.Ok
  drive : k.drive.Settled s.io.disk
  sb : k.sb = s.sb
  nodes : k.nodes = s.nodes

variable {m : Disk} {k : Machine} {s : VfsState}

theorem has_vfsInit {d d' : Drive} {n : ℕ} {sb : Superblock} {vfsRoot : VfsNode}
    (hok : (VfsState.init m).Ok) (hd : d.Settled m)
    (h : exec n (DiskProg.vfsInit.ports, d) = (.ret (sb, vfsRoot), d')) :
    Machine.Has ⟨d', sb, [vfsRoot]⟩ (VfsState.init m) := by
  obtain ⟨ha, hd'⟩ := (DiskProg.vfsInit.does_ports_cut ⟨m, []⟩
    DiskProg.inRange_vfsInit hd).returned h
  rw [DiskProg.run_vfsInit] at ha hd'
  cases ha
  exact ⟨hok, hd', rfl, rfl⟩

/-- Nothing is written. -/
theorem disk_of_cut {io : Io} (h : Cut io io m) : m = io.disk := by
  obtain ⟨ws, vs, h1, h2⟩ := h
  have hlog := congrArg Io.log h1
  rw [SimpleFs.Io.log_replay, SimpleFs.Io.log_replay, List.append_assoc] at hlog
  have hws : ws = [] := (List.append_eq_nil_iff.1 (List.self_eq_append_right.1 hlog)).1
  rw [h2, hws]
  rfl

theorem Boots.has (h : Boots m k) (hm : FsInv m) : k.Has (VfsState.init m) := by
  induction h with
  | done hd h => exact has_vfsInit (ok_init hm) hd h
  | @again m m' d n k hd h hb ih =>
      have hcut := (DiskProg.vfsInit.does_ports_cut ⟨m, []⟩
        DiskProg.inRange_vfsInit hd).always n m' h
      -- nothing is written when a disk is mounted
      rw [DiskProg.run_vfsInit, vfsInit_of_inv hm] at hcut
      have hmm : m' = m := disk_of_cut hcut
      rw [← hmm]
      exact ih (hmm ▸ hm)

/-! ### Steps -/

theorem cutIo_of_cut {io io' : Io} (h : Cut io io' m) :
    ∃ i, m = (VfsState.cutIo io io' i).disk := by
  obtain ⟨ws, vs, rfl, rfl⟩ := h
  refine ⟨ws.length, ?_⟩
  unfold VfsState.cutIo
  rw [SimpleFs.Io.log_replay, SimpleFs.Io.log_replay, List.append_assoc, List.drop_left,
    List.take_left]

theorem does_call (h : k.Has s) (c : VfsCall) :
    Does (fun d => ∀ m, d.CrashImage m → ∃ i, m = (VfsState.cutIo s.io (s.call c).io i).disk)
      (fun nodes d => Machine.Has ⟨d, k.sb, nodes⟩ (s.call c)) (k.ports c) k.drive := by
  have hd := (DiskProg.call s.sb s.nodes c).does_ports_cut s.io (DiskProg.inRange_call h.ok c)
    h.drive
  rw [DiskProg.run_call] at hd
  unfold Machine.ports
  rw [h.sb, h.nodes]
  refine hd.mono (fun d h' m hm => cutIo_of_cut (h' m hm)) fun nodes d h' => ?_
  exact ⟨(h.ok.call c).1, h'.2, (DiskProg.call_sb s c).symm, h'.1⟩

theorem does_read (h : k.Has s) {file : VfsNode} (hfile : file ∈ k.nodes) (size : UInt32) :
    Does (fun d => ∀ m, d.CrashImage m → m = s.io.disk)
      (fun r d => r = Vfs.vfsRead s.io file size ∧ Machine.Has ⟨d, k.sb, k.nodes⟩ s)
      (DiskProg.vfsRead file size).ports k.drive := by
  rw [h.nodes] at hfile
  have hd := (DiskProg.vfsRead file size).does_ports_cut s.io
    (DiskProg.inRange_vfsRead h.ok.inv (h.ok.nodes file hfile) size) h.drive
  rw [DiskProg.run_vfsRead] at hd
  refine hd.mono (fun d h' m hm => disk_of_cut (h' m hm)) fun r d h' => ?_
  exact ⟨h'.1, h.ok, h'.2, h.sb, h.nodes⟩

theorem inv_cutIo (h : s.Ok) (c : VfsCall) (i : ℕ) :
    FsInv (VfsState.cutIo s.io (s.call c).io i).disk :=
  (Vfs.SafeRun.cutIo (h.call c).2 i).inv h.inv

theorem Machine.Step.simulated {k' : Machine} (hs : k.Step k') (h : k.Has s) :
    ∃ s', Relation.ReflTransGen VfsState.Powered s s' ∧ k'.Has s' := by
  cases hs with
  | call c hrun => exact ⟨_, .single (.call c), (does_call h c).returned hrun⟩
  | read hfile size hrun => exact ⟨s, .refl, ((does_read h hfile size).returned hrun).2⟩
  | powerLoss c hcrash hb =>
      obtain ⟨i, rfl⟩ := (does_call h c).always _ _ hcrash
      exact ⟨_, .single (.powerLoss c i), hb.has (inv_cutIo h.ok c i)⟩
  | powerLossRead hfile size _ hcrash hb =>
      -- as if a call had been cut off before its first write
      obtain rfl := (does_read h hfile size).always _ _ hcrash
      exact ⟨_, .single (.powerLoss (.lookup 0 Vfs.slash) 0), hb.has h.ok.inv⟩

theorem run_simulated {k' : Machine} (hr : Relation.ReflTransGen Machine.Step k k')
    (h : k.Has s) : ∃ s', Relation.ReflTransGen VfsState.Powered s s' ∧ k'.Has s' := by
  induction hr with
  | refl => exact ⟨s, .refl, h⟩
  | tail _ hs ih =>
      obtain ⟨s', hr', h'⟩ := ih
      obtain ⟨s'', hs', h''⟩ := hs.simulated h'
      exact ⟨s'', hr'.trans hs', h''⟩

/-- **Runs with power losses.**  On a drive that does not lose a flush, a machine that has formatted
its disk always has the nodes and the disk of a run of `VfsState`.  Every call returns what it
returns there, and a power loss finds the disk with the first of the call's writes.  So does every
`vfs_read` that does not run past the blocks of the inode, and it leaves the disk alone. -/
theorem run_refines {disk : Disk} {d d' : Drive} {n : ℕ} {sb : Superblock} {vfsRoot : VfsNode}
    (hd : d.Settled disk) (hf : needsFormat disk = true)
    (hboot : exec n (DiskProg.vfsInit.ports, d) = (.ret (sb, vfsRoot), d'))
    (hr : Relation.ReflTransGen Machine.Step ⟨d', sb, [vfsRoot]⟩ k) :
    ∃ s, Relation.ReflTransGen VfsState.Powered (VfsState.init disk) s ∧ k.nodes = s.nodes ∧
      k.drive.disk = s.io.disk ∧
      (∀ c, (∃ n d', exec n (k.ports c, k.drive) = (.ret (s.call c).nodes, d') ∧
          d'.disk = (s.call c).io.disk) ∧
        ∀ n m, (exec n (k.ports c, k.drive)).2.CrashImage m →
          ∃ i, m = (VfsState.cutIo s.io (s.call c).io i).disk) ∧
      ∀ file ∈ k.nodes, ∀ size r, Vfs.vfsRead s.io file size = some r →
        (∃ n d', exec n ((DiskProg.vfsRead file size).ports, k.drive) = (.ret (some r), d') ∧
          d'.disk = s.io.disk) ∧
        ∀ n m, (exec n ((DiskProg.vfsRead file size).ports, k.drive)).2.CrashImage m →
          m = s.io.disk := by
  obtain ⟨s, hs, h⟩ := run_simulated hr (has_vfsInit (Vfs.VfsState.Ok.init hf) hd hboot)
  refine ⟨s, hs, h.nodes, h.drive.disk, fun c => ⟨?_, fun n m => (does_call h c).always n m⟩,
    fun file hfile size r hread =>
      ⟨?_, fun n m => (does_read h hfile size).always n m⟩⟩
  · obtain ⟨n, nodes, e, he, h'⟩ := (does_call h c).ends
    rw [← h'.nodes]
    exact ⟨n, e, he, h'.drive.disk⟩
  · obtain ⟨n, r', e, he, hr', h'⟩ := (does_read h hfile size).ends
    rw [hr', hread] at he
    exact ⟨n, e, he, h'.drive.disk⟩

theorem blockOwnership (h : FsInv m) : BlockOwnership ⟨m, []⟩ := by
  refine ⟨?_, ?_, fun w hw => absurd hw List.not_mem_nil⟩
  · intro i hi i' hi' j hj j' hj' hu hu' hne he
    exact h.blocks.unique i hi hu j hj hne i' hi' hu' j' hj' he
  · intro i hi j hj hu hne
    exact h.blocks.range i hi hu j hj hne

/-- A drive with a blank disk that takes its time, and one that does not take in the last word
before it is to flush its cache. -/
def blankDrive (store : ℕ) : Drive where
  media := Vfs.blankDisk
  cache := []
  writeThrough := false
  sectorCount := 0
  lbaLow := 0
  lbaMid := 0
  lbaHigh := 0
  device := 0
  job := .idle
  busy := 0
  request := 0
  store := 0
  timing := fun _ => ⟨3, 2, store⟩
  commands := 0

theorem blankDrive_settled : (blankDrive 0).Settled Vfs.blankDisk :=
  ⟨⟨rfl, rfl⟩, Or.inr fun _ => rfl, rfl, rfl⟩

/-- A boot from the blank disk, and a call. -/
theorem blankDrive_run (c : VfsCall) : ∃ n sb vfsRoot d',
    exec n (DiskProg.vfsInit.ports, blankDrive 0) = (.ret (sb, vfsRoot), d') ∧
      ∃ k, Machine.Step ⟨d', sb, [vfsRoot]⟩ k := by
  have hf : needsFormat Vfs.blankDisk = true := by decide
  obtain ⟨n, ⟨sb, vfsRoot⟩, d', hboot, -⟩ := (DiskProg.vfsInit.does_ports_cut
    ⟨Vfs.blankDisk, []⟩ DiskProg.inRange_vfsInit blankDrive_settled).ends
  have h := has_vfsInit (Vfs.VfsState.Ok.init hf) blankDrive_settled hboot
  obtain ⟨i, nodes, e, hi, -⟩ := (does_call h c).ends
  exact ⟨n, sb, vfsRoot, d', hboot, _, .call c hi⟩

theorem run_refines_mkdir : ∃ n sb vfsRoot d',
    exec n (DiskProg.vfsInit.ports, blankDrive 0) = (.ret (sb, vfsRoot), d') ∧
      ∃ k, Machine.Step ⟨d', sb, [vfsRoot]⟩ k ∧
        ∃ s, Relation.ReflTransGen VfsState.Powered (VfsState.init Vfs.blankDisk) s ∧
          k.nodes = s.nodes ∧ k.drive.disk = s.io.disk := by
  obtain ⟨n, sb, vfsRoot, d', hboot, k, hk⟩ := blankDrive_run (.mkdir 0 ⟨[97], by decide⟩)
  obtain ⟨s, hs, hnodes, hdisk, -⟩ :=
    run_refines blankDrive_settled (by decide) hboot (Relation.ReflTransGen.single hk)
  exact ⟨n, sb, vfsRoot, d', hboot, k, hk, s, hs, hnodes, hdisk⟩

/-- **Whenever the power fails**, no block has two owners and the directories form a tree. -/
theorem run_survives {disk : Disk} {d d' : Drive} {n : ℕ} {sb : Superblock} {vfsRoot : VfsNode}
    (hd : d.Settled disk) (hf : needsFormat disk = true)
    (hboot : exec n (DiskProg.vfsInit.ports, d) = (.ret (sb, vfsRoot), d'))
    (hr : Relation.ReflTransGen Machine.Step ⟨d', sb, [vfsRoot]⟩ k) (c : VfsCall) {i : ℕ}
    (hm : (exec i (k.ports c, k.drive)).2.CrashImage m) :
    BlockOwnership ⟨m, []⟩ ∧ DirectoryTree ⟨m, []⟩ := by
  obtain ⟨s, -, h⟩ := run_simulated hr (has_vfsInit (Vfs.VfsState.Ok.init hf) hd hboot)
  obtain ⟨j, rfl⟩ := (does_call h c).always i m hm
  have hinv := inv_cutIo h.ok c j
  exact ⟨blockOwnership hinv, Vfs.directoryTree_of_treeInv hinv.tree⟩

theorem run_survives_mkdir : ∃ n sb vfsRoot d',
    exec n (DiskProg.vfsInit.ports, blankDrive 0) = (.ret (sb, vfsRoot), d') ∧
      ∃ k, Machine.Step ⟨d', sb, [vfsRoot]⟩ k ∧ ∀ i m,
        (exec i (k.ports (.mkdir 1 ⟨[98], by decide⟩), k.drive)).2.CrashImage m →
          DirectoryTree ⟨m, []⟩ := by
  obtain ⟨n, sb, vfsRoot, d', hboot, k, hk⟩ := blankDrive_run (.mkdir 0 ⟨[97], by decide⟩)
  refine ⟨n, sb, vfsRoot, d', hboot, k, hk, fun i m hm => ?_⟩
  exact (run_survives blankDrive_settled (by decide) hboot (Relation.ReflTransGen.single hk) _ hm).2

/-! ### Drives that lose flushes -/

/-- A call that may change the file system, or a `vfs_read` of the node with a number. -/
inductive Request where
  | call (c : VfsCall)
  | read (file : ℕ) (size : UInt32)

/-- The nodes after a request, and what has been read; `none` where a read has run past the blocks
of the inode. -/
def DiskProg.request (sb : Superblock) (r : List VfsNode × List (Option (ℤ × List UInt8))) :
    Request → DiskProg (List VfsNode × List (Option (ℤ × List UInt8)))
  | .call c => do
      let nodes ← DiskProg.call sb r.1 c
      return (nodes, r.2)
  | .read file size => match r.1[file]? with
    | some n => do
        let bytes ← DiskProg.vfsRead n size
        return (r.1, r.2 ++ [bytes])
    | none => return r

/-- The same sector by sector. -/
def VfsState.serve (r : VfsState × List (Option (ℤ × List UInt8))) :
    Request → VfsState × List (Option (ℤ × List UInt8))
  | .call c => (r.1.call c, r.2)
  | .read file size => match r.1.nodes[file]? with
    | some n => (r.1, r.2 ++ [Vfs.vfsRead r.1.io n size])
    | none => r

/-- The kernel starts and serves some requests. -/
def session (qs : List Request) : DiskProg (List VfsNode × List (Option (ℤ × List UInt8))) := do
  let r ← DiskProg.vfsInit
  qs.foldlM (DiskProg.request r.1) ([r.2], [])

variable {bytes : List (Option (ℤ × List UInt8))}

theorem run_request (q : Request) : (DiskProg.request s.sb (s.nodes, bytes) q).run s.io =
    (((VfsState.serve (s, bytes) q).1.nodes, (VfsState.serve (s, bytes) q).2),
      (VfsState.serve (s, bytes) q).1.io) := by
  cases q with
  | call c =>
      unfold DiskProg.request VfsState.serve
      rw [DiskProg.run_bind, DiskProg.run_call]
      rfl
  | read file size =>
      unfold DiskProg.request VfsState.serve
      cases hn : s.nodes[file]? with
      | none => simp only [hn, DiskProg.run_pure]
      | some n => simp only [hn, DiskProg.run_bind, DiskProg.run_vfsRead, DiskProg.run_pure]

theorem serve_cases (q : Request) : (VfsState.serve (s, bytes) q).1 = s ∨
    ∃ c, (VfsState.serve (s, bytes) q).1 = s.call c := by
  unfold VfsState.serve
  cases q with
  | call c => exact Or.inr ⟨c, by dsimp only⟩
  | read file size =>
      refine Or.inl ?_
      cases hn : s.nodes[file]? <;> simp only [hn]

theorem serve_sb (q : Request) : (VfsState.serve (s, bytes) q).1.sb = s.sb := by
  obtain he | ⟨c, he⟩ := @serve_cases s bytes q
  · rw [he]
  · rw [he, DiskProg.call_sb]

theorem ok_serve (h : s.Ok) (q : Request) : (VfsState.serve (s, bytes) q).1.Ok := by
  obtain he | ⟨c, he⟩ := @serve_cases s bytes q
  · rwa [he]
  · rw [he]
    exact (h.call c).1

theorem inRange_request (h : s.Ok) (q : Request) :
    (DiskProg.request s.sb (s.nodes, bytes) q).InRange s.io := by
  cases q with
  | call c =>
      unfold DiskProg.request
      rw [DiskProg.inRange_bind]
      exact ⟨DiskProg.inRange_call h c, trivial⟩
  | read file size =>
      unfold DiskProg.request
      dsimp only
      split
      · next n hn =>
          rw [DiskProg.inRange_bind]
          exact ⟨DiskProg.inRange_vfsRead h.inv (h.node hn) size, trivial⟩
      · trivial

theorem run_requests (s : VfsState) (bytes : List (Option (ℤ × List UInt8)))
    (qs : List Request) : (qs.foldlM (DiskProg.request s.sb) (s.nodes, bytes)).run s.io =
      (((qs.foldl VfsState.serve (s, bytes)).1.nodes, (qs.foldl VfsState.serve (s, bytes)).2),
        (qs.foldl VfsState.serve (s, bytes)).1.io) := by
  induction qs generalizing s bytes with
  | nil => rfl
  | cons q qs ih =>
      rw [List.foldlM_cons, DiskProg.run_bind, run_request, ← @serve_sb s bytes q]
      exact ih _ _

theorem inRange_requests (h : s.Ok) (bytes : List (Option (ℤ × List UInt8)))
    (qs : List Request) :
    (qs.foldlM (DiskProg.request s.sb) (s.nodes, bytes)).InRange s.io := by
  induction qs generalizing s bytes with
  | nil => trivial
  | cons q qs ih =>
      rw [List.foldlM_cons, DiskProg.inRange_bind, run_request, ← @serve_sb s bytes q]
      refine ⟨?_, ih (ok_serve h q) _⟩
      rw [serve_sb]
      exact inRange_request h q

/-- **While the power does not fail**, the drive may take its time and may lose any flush. -/
theorem calls_on_every_drive {d : Drive} (hq : d.Quiet) (hf : needsFormat d.disk = true)
    (qs : List Request) : ∃ n s bytes d',
    qs.foldl VfsState.serve (VfsState.init d.disk, []) = (s, bytes) ∧
    exec n ((session qs).ports, d) = (.ret (s.nodes, bytes), d') ∧ d'.disk = s.io.disk := by
  have hrun : (session qs).run ⟨d.disk, []⟩ =
      (((qs.foldl VfsState.serve (VfsState.init d.disk, [])).1.nodes,
        (qs.foldl VfsState.serve (VfsState.init d.disk, [])).2),
          (qs.foldl VfsState.serve (VfsState.init d.disk, [])).1.io) := by
    rw [session, DiskProg.run_bind, DiskProg.run_vfsInit]
    exact run_requests (VfsState.init d.disk) [] qs
  have hrange : (session qs).InRange ⟨d.disk, []⟩ := by
    rw [session, DiskProg.inRange_bind, DiskProg.run_vfsInit]
    exact ⟨DiskProg.inRange_vfsInit, inRange_requests (Vfs.VfsState.Ok.init hf) [] qs⟩
  obtain ⟨n, r, d', he, rfl, -, hdisk⟩ :=
    ((session qs).does_ports ⟨d.disk, []⟩ hrange hq rfl).ends
  rw [hrun] at he hdisk
  exact ⟨n, _, _, d', rfl, he, hdisk⟩

/-- A file is created, written and read. -/
def firstRequests : List Request :=
  [.call (.create 0 (Vfs.fileName 0)), .call (.write 1 UInt8.ofNat 2), .read 1 2]

/-- A file that has just been written is read back. -/
theorem vfsRead_written (hok : s.Ok) (hfirst : Vfs.FirstFile s.io.disk)
    (hn : s.nodes[1]? = some (Vfs.nodeOf (Vfs.fileName 0) 1 0 (SimpleFs.inodeAt s.io.disk 1)))
    (buf : ℕ → UInt8) {size : UInt32} (hsize : size.toNat ≤ 30 * 512) :
    ∃ n, (s.call (.write 1 buf size)).nodes[1]? = some n ∧
      Vfs.vfsRead (s.call (.write 1 buf size)).io n size =
        some ((size.toNat : ℤ), SimpleFs.contentOf buf size) := by
  have hholds := (Vfs.FirstFile.write hok hfirst hn buf hsize).2
  have hok' := (hok.call (.write 1 buf size)).1
  have hnode : ∃ n, (s.call (.write 1 buf size)).nodes[1]? = some n ∧ n.isDirectory = false ∧
      n.inodeIdx = 1 := by
    have hlt := (List.getElem?_eq_some_iff.1 hn).1
    have hf := Vfs.isDirectory_firstNode hfirst
    simp only [VfsState.call, hn]
    refine ⟨_, List.getElem?_set_self hlt, ?_⟩
    unfold Vfs.vfsWrite
    rw [if_neg (by simp [hf])]
    dsimp only
    split_ifs <;> exact ⟨hf, rfl⟩
  obtain ⟨n, hn', hf, hidx⟩ := hnode
  obtain ⟨hl, hfile⟩ := (hok'.node hn').handle hok'.inv hf
  rw [hidx] at hl hfile
  refine ⟨n, hn', ?_⟩
  unfold Vfs.vfsRead
  rw [if_neg (by simp [hf]), SimpleFs.simplefsRead_file hl hfile hholds,
    SimpleFs.length_contentOf, min_self, List.take_of_length_le (SimpleFs.length_contentOf ..).le]

theorem serve_written (hok : s.Ok) (hfirst : Vfs.FirstFile s.io.disk)
    (hn : s.nodes[1]? = some (Vfs.nodeOf (Vfs.fileName 0) 1 0 (SimpleFs.inodeAt s.io.disk 1))) :
    (VfsState.serve (VfsState.serve (s, []) (.call (.write 1 UInt8.ofNat 2))) (.read 1 2)).2 =
      [some (2, [0, 1])] := by
  have hsize : (2 : UInt32).toNat ≤ 30 * 512 := by decide
  obtain ⟨n, hn', hread⟩ := vfsRead_written hok hfirst hn UInt8.ofNat hsize
  simp only [VfsState.serve, hn', hread, List.nil_append]
  rfl

theorem serve_firstRequests : (firstRequests.foldl VfsState.serve
    (VfsState.init Vfs.blankDisk, [])).2 = [some (2, [0, 1])] := by
  have hf : needsFormat Vfs.blankDisk = true := by decide
  obtain ⟨hfirst, hn⟩ := Vfs.first_file hf
  have hok := ((Vfs.VfsState.Ok.init hf).call (.create 0 (Vfs.fileName 0))).1
  rw [firstRequests, List.foldl_cons, List.foldl_cons, List.foldl_cons, List.foldl_nil]
  exact serve_written hok hfirst hn

theorem calls_on_every_drive_blank : ∃ n nodes d',
    exec n ((session firstRequests).ports, blankDrive 5) =
      (.ret (nodes, [some (2, [0, 1])]), d') := by
  have hq : (blankDrive 5).Quiet := ⟨rfl, rfl⟩
  obtain ⟨n, s, bytes, d', hs, h, -⟩ := calls_on_every_drive hq (by decide) firstRequests
  have hbytes : bytes = [some (2, [0, 1])] := by
    rw [← serve_firstRequests]
    exact (congrArg Prod.snd hs).symm
  rw [hbytes] at h
  exact ⟨n, _, d', h⟩

/-- **When a write is durable.**  The driver has the drive flush its cache without waiting for it
to take in the last word; a drive that is still busy with it does not hear. -/
theorem write_durable_iff {d d' : Drive} (hq : d.Quiet) {lba : UInt32} (hlba : lba.toNat < 2 ^ 28)
    {buffer : Sector} (hnew : d.media lba.toNat ≠ buffer) {n : ℕ} {r : ℤ}
    (h : exec n (ataWriteSector lba buffer, d) = (.ret r, d')) :
    (∀ m, d'.CrashImage m → m lba.toNat = buffer) ↔
      d.writeThrough = true ∨ (d.timing d.commands).store = 0 := by
  obtain ⟨-, hw⟩ := (does_ataWriteSector (I := fun _ => True) hq hlba buffer (fun _ _ => trivial)
    (fun _ _ => trivial) fun _ _ => trivial).returned h
  constructor
  · intro hall
    by_contra hno
    have hmedia : d'.media = d.media := by rw [hw.media, if_neg hno]
    refine hnew ?_
    rw [← hmedia]
    exact hall d'.media fun lba => Or.inl rfl
  · intro hyes m hm
    have hper : d'.persistent = (Function.update d.disk lba.toNat buffer, []) := by
      rw [Drive.persistent_quiet hw.quiet.job, hw.media, hw.cache, if_pos hyes, if_pos hyes]
    rw [Drive.crashImage_nil hper hm, Function.update_self]

/-- A sector with one byte. -/
def oneByte : Sector := Buf.zero.blit 0 1 fun _ => 7

theorem oneByte_ne : Vfs.blankDisk 40 ≠ oneByte := by
  intro h
  have h0 := congrArg (fun s : Sector => s.get 0) h
  exact absurd h0 (by decide)

theorem write_durable_iff_slow : ∃ n r d', exec n (ataWriteSector 40 oneByte, blankDrive 5) =
    (.ret r, d') ∧ ¬ ∀ m, d'.CrashImage m → m 40 = oneByte := by
  have hq : (blankDrive 5).Quiet := ⟨rfl, rfl⟩
  have hlba : (40 : UInt32).toNat < 2 ^ 28 := by decide
  obtain ⟨n, r, d', h, -⟩ := (does_ataWriteSector (I := fun _ => True) hq hlba oneByte
    (fun _ _ => trivial) (fun _ _ => trivial) fun _ _ => trivial).ends
  refine ⟨n, r, d', h, fun hall => ?_⟩
  have hyes := (write_durable_iff hq hlba oneByte_ne h).1 hall
  exact absurd hyes (by decide)

end NosmeriOs.Ata
