import NosmeriOs.AtaDriver

/-! # Code above the disk driver

* `DiskProg`: code that reads and writes sectors.  `run` is what it does when a sector is read and
  written at once, `ports` the accesses to the ports when it calls the driver.
* `DiskProg.does_ports`: the two agree on every drive.
* `DiskProg.does_ports_cut`: on a drive that does not lose a flush, a power loss leaves a disk on
  which the first writes have been done, and none of the others. -/

namespace NosmeriOs.Ata

open Bytes PortIo
open SimpleFs (Sector Disk Io Purpose SectorWrite)

inductive DiskProg (α : Type) where
  | ret (a : α)
  | read (lba : UInt32) (k : Sector → DiskProg α)
  | write (purpose : Purpose) (lba : UInt32) (buffer : Sector) (k : DiskProg α)

namespace DiskProg

variable {α β σ : Type}

protected def bind : DiskProg α → (α → DiskProg β) → DiskProg β
  | ret a, f => f a
  | read lba k, f => read lba fun s => (k s).bind f
  | write purpose lba buffer k, f => write purpose lba buffer (k.bind f)

instance : Monad DiskProg where
  pure := ret
  bind := DiskProg.bind

def run : DiskProg α → Io → α × Io
  | ret a, io => (a, io)
  | read lba k, io => (k (SimpleFs.ataReadSector io lba.toNat)).run io
  | write purpose lba buffer k, io =>
      k.run (SimpleFs.ataWriteSector io purpose lba.toNat buffer)

/-- The buffer that is read into is on the stack; what is in it does not matter. -/
def ports : DiskProg α → Prog α
  | ret a => .ret a
  | read lba k => (ataReadSector lba Buf.zero).bind fun r => (k r.2).ports
  | write _ lba buffer k => (ataWriteSector lba buffer).bind fun _ => k.ports

/-- Every sector has a number of 28 bits. -/
def InRange : DiskProg α → Io → Prop
  | ret _, _ => True
  | read lba k, io => lba.toNat < 2 ^ 28 ∧ (k (SimpleFs.ataReadSector io lba.toNat)).InRange io
  | write purpose lba buffer k, io => lba.toNat < 2 ^ 28 ∧
      k.InRange (SimpleFs.ataWriteSector io purpose lba.toNat buffer)

@[simp] theorem run_pure (a : α) (io : Io) : (pure a : DiskProg α).run io = (a, io) := rfl

@[simp] theorem run_bind (p : DiskProg α) (f : α → DiskProg β) (io : Io) :
    (p >>= f).run io = (f (p.run io).1).run (p.run io).2 := by
  show (p.bind f).run io = _
  induction p generalizing io with
  | ret a => rfl
  | read lba k ih => exact ih _ io
  | write purpose lba buffer k ih => exact ih _

@[simp] theorem run_ite (c : Prop) [Decidable c] (p q : DiskProg α) (io : Io) :
    (if c then p else q).run io = if c then p.run io else q.run io :=
  apply_ite (fun p : DiskProg α => p.run io) c p q

theorem inRange_bind (p : DiskProg α) (f : α → DiskProg β) (io : Io) :
    (p >>= f).InRange io ↔ p.InRange io ∧ (f (p.run io).1).InRange (p.run io).2 := by
  show (p.bind f).InRange io ↔ _
  induction p generalizing io with
  | ret a => exact ⟨fun h => ⟨trivial, h⟩, fun h => h.2⟩
  | read lba k ih => exact (and_congr_right fun _ => ih _ io).trans and_assoc.symm
  | write purpose lba buffer k ih => exact (and_congr_right fun _ => ih _).trans and_assoc.symm

end DiskProg

variable {α : Type} {d : Drive} {io : Io}

/-- What is written is in the log. -/
theorem DiskProg.log_run (p : DiskProg α) (io : Io) : ∃ ws : List SectorWrite,
    (p.run io).2 = io.replay ws := by
  induction p generalizing io with
  | ret a => exact ⟨[], rfl⟩
  | read lba k ih => exact ih _ io
  | write purpose lba buffer k ih =>
      obtain ⟨ws, h⟩ := ih (SimpleFs.ataWriteSector io purpose lba.toNat buffer)
      exact ⟨⟨purpose, lba.toNat, buffer⟩ :: ws, h⟩

/-- Whatever the drive, and whatever it does with its cache. -/
theorem DiskProg.does_ports (p : DiskProg α) (io : Io) (hr : p.InRange io) (hq : d.Quiet)
    (hd : d.disk = io.disk) : Does (fun _ => True)
      (fun a d' => a = (p.run io).1 ∧ d'.Quiet ∧ d'.disk = (p.run io).2.disk) p.ports d := by
  induction p generalizing io d with
  | ret a => exact .ret trivial ⟨rfl, hq, hd⟩
  | read lba k ih =>
      obtain ⟨hlba, hr⟩ := hr
      refine (does_ataReadSector hq hlba Buf.zero fun _ _ => trivial).bind ?_
      rintro _ d' - ⟨rfl, hq', hs⟩
      rw [hd]
      exact ih _ io hr hq' (hs.disk.trans hd)
  | write purpose lba buffer k ih =>
      obtain ⟨hlba, hr⟩ := hr
      refine (does_ataWriteSector hq hlba buffer (fun _ _ => trivial) (fun _ _ => trivial)
        fun _ _ => trivial).bind ?_
      rintro _ d' - ⟨-, hw⟩
      refine ih _ hr hw.quiet ?_
      rw [hw.disk, hd]
      rfl

/-- The drive has taken in the last word when it is to flush its cache, or has none. -/
def Drive.Certain (d : Drive) : Prop := d.writeThrough = true ∨ ∀ n, (d.timing n).store = 0

/-- The medium has the disk `m`, and nothing is under way. -/
structure Drive.Settled (d : Drive) (m : Disk) : Prop where
  quiet : d.Quiet
  certain : d.Certain
  cache : d.cache = []
  media : d.media = m

theorem Drive.Settled.disk {m : Disk} (h : d.Settled m) : d.disk = m := by
  unfold Drive.disk
  rw [h.cache, h.media]
  rfl

theorem Drive.crashImage_nil {m m' : Disk} (h : d.persistent = (m, [])) (hc : d.CrashImage m') :
    m' = m := by
  have hmedia : d.media = m := congrArg Prod.fst h
  have hpending : d.pending = [] := congrArg Prod.snd h
  funext lba
  obtain hm | hm := hc lba
  · rw [hm, hmedia]
  · rw [hpending] at hm
    exact absurd hm List.not_mem_nil

theorem Drive.crashImage_one {m m' : Disk} {lba : ℕ} {buffer : Sector}
    (h : d.persistent = (m, [(lba, buffer)])) (hc : d.CrashImage m') :
    m' = m ∨ m' = Function.update m lba buffer := by
  have hmedia : d.media = m := congrArg Prod.fst h
  have hpending : d.pending = [(lba, buffer)] := congrArg Prod.snd h
  have hother : ∀ x, x ≠ lba → m' x = m x := by
    intro x hx
    obtain hm | hm := hc x
    · rw [hm, hmedia]
    · rw [hpending, List.mem_singleton] at hm
      exact absurd (congrArg Prod.fst hm) hx
  obtain hm | hm := hc lba
  · refine Or.inl (funext fun x => ?_)
    by_cases hx : x = lba
    · rw [hx, hm, hmedia]
    · exact hother x hx
  · rw [hpending, List.mem_singleton] at hm
    refine Or.inr (funext fun x => ?_)
    by_cases hx : x = lba
    · rw [hx, Function.update_self]
      exact congrArg Prod.snd hm
    · rw [Function.update_of_ne hx]
      exact hother x hx

/-- Disks on which the first of the writes have been done. -/
def Cut (io io' : Io) (m : Disk) : Prop :=
  ∃ ws vs : List SectorWrite, io' = (io.replay ws).replay vs ∧ m = (io.replay ws).disk

theorem Cut.write {io' : Io} {purpose : Purpose} {lba : ℕ} {buffer : Sector} {m : Disk}
    (h : Cut (SimpleFs.ataWriteSector io purpose lba buffer) io' m) : Cut io io' m := by
  obtain ⟨ws, vs, h1, h2⟩ := h
  exact ⟨⟨purpose, lba, buffer⟩ :: ws, vs, h1, h2⟩

theorem DiskProg.does_ports_cut (p : DiskProg α) (io : Io) (hr : p.InRange io)
    (hd : d.Settled io.disk) :
    Does (fun d' => ∀ m, d'.CrashImage m → Cut io (p.run io).2 m)
      (fun a d' => a = (p.run io).1 ∧ d'.Settled (p.run io).2.disk) p.ports d := by
  induction p generalizing io d with
  | ret a =>
      refine .ret (fun m hm => ⟨[], [], rfl, ?_⟩) ⟨rfl, hd⟩
      refine Drive.crashImage_nil ?_ hm
      rw [Drive.persistent_quiet hd.quiet.job, hd.media, hd.cache]
      rfl
  | read lba k ih =>
      obtain ⟨hlba, hr⟩ := hr
      obtain ⟨ws, hws⟩ := (k (SimpleFs.ataReadSector io lba.toNat)).log_run io
      have hper : d.persistent = (io.disk, []) := by
        rw [Drive.persistent_quiet hd.quiet.job, hd.media, hd.cache]
      refine ((does_ataReadSector hd.quiet hlba Buf.zero fun d' h m hm => ?_).bind ?_)
      · exact ⟨[], ws, hws, Drive.crashImage_nil (h.trans hper) hm⟩
      · rintro _ d' - ⟨rfl, hq', hs⟩
        rw [hd.disk]
        refine ih _ io hr ⟨hq', ?_, hs.cache.trans hd.cache, hs.media.trans hd.media⟩
        have hc := hd.certain
        unfold Drive.Certain at hc ⊢
        rw [hs.writeThrough, hs.timing]
        exact hc
  | write purpose lba buffer k ih =>
      obtain ⟨hlba, hr⟩ := hr
      obtain ⟨ws, hws⟩ := k.log_run (SimpleFs.ataWriteSector io purpose lba.toNat buffer)
      have hold : Cut io (k.run (SimpleFs.ataWriteSector io purpose lba.toNat buffer)).2 io.disk :=
        ⟨[], ⟨purpose, lba.toNat, buffer⟩ :: ws, hws, rfl⟩
      have hnew : Cut io (k.run (SimpleFs.ataWriteSector io purpose lba.toNat buffer)).2
          (Function.update io.disk lba.toNat buffer) :=
        ⟨[⟨purpose, lba.toNat, buffer⟩], ws, hws, rfl⟩
      have hper : d.persistent = (io.disk, []) := by
        rw [Drive.persistent_quiet hd.quiet.job, hd.media, hd.cache]
      refine (does_ataWriteSector hd.quiet hlba buffer ?_ ?_ ?_).bind ?_
      · intro d' h m hm
        rw [Drive.crashImage_nil (h.trans hper) hm]
        exact hold
      · intro d' h m hm
        rw [hd.media, hd.cache] at h
        obtain rfl | rfl := Drive.crashImage_one h hm
        · exact hold
        · exact hnew
      · intro d' h m hm
        rw [hd.disk] at h
        rw [Drive.crashImage_nil h hm]
        exact hnew
      · rintro _ d' - ⟨-, hw⟩
        have hyes : d.writeThrough = true ∨ (d.timing d.commands).store = 0 :=
          hd.certain.imp_right fun h => h d.commands
        refine (ih _ hr ⟨hw.quiet, ?_, ?_, ?_⟩).mono (fun d'' h m hm => (h m hm).write)
          fun _ _ h => h
        · have hc := hd.certain
          unfold Drive.Certain at hc ⊢
          rw [hw.writeThrough, hw.timing]
          exact hc
        · rw [hw.cache, if_pos hyes]
        · rw [hw.media, if_pos hyes, hd.disk]
          rfl

end NosmeriOs.Ata
