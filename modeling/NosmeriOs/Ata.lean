import NosmeriOs.PortIo
import NosmeriOs.VfsRun

/-! # The disk driver (`drivers/ata.cpp`)

* `Drive`: the drive behind the ports, with a cache in front of its medium.  It takes any number of
  reads of the status register to get ready, to ask for data and to take in the last word; while it
  is busy it does not hear commands.
* `ataReadSector` and `ataWriteSector`: the driver, access by access. -/

namespace NosmeriOs.Ata

open Bytes PortIo
open SimpleFs (Sector Disk Io Purpose)

/-! ### The drive -/

/-- `((unsigned short*)buffer)[i]` -/
def getWord (buffer : Sector) (i : ℕ) : UInt16 :=
  UInt16.ofNat ((buffer.get (2 * i)).toNat + 256 * (buffer.get (2 * i + 1)).toNat)

/-- `((unsigned short*)buffer)[i] = word` -/
def setWord (buffer : Sector) (i : ℕ) (word : UInt16) : Sector :=
  buffer.blit (2 * i) 2 fun k => UInt8.ofNat (word.toNat / 256 ^ k)

/-- How many reads of the status register find the drive busy after a command, how many more find
no request for data, and how many find it busy after the last word. -/
structure Timing where
  busy : ℕ
  request : ℕ
  store : ℕ

inductive Job where
  | idle
  /-- The sector is read, and `i` words of it have been. -/
  | read (lba i : ℕ)
  /-- The sector is written, and `i` words of `buffer` have come. -/
  | write (lba i : ℕ) (buffer : Sector)
  /-- All of them have come. -/
  | store (lba : ℕ) (buffer : Sector)
  | flush

/-- The first drive of the primary channel, in LBA mode and with one sector for each command. -/
structure Drive where
  media : Disk
  /-- Sectors that are not on the medium yet, oldest first. -/
  cache : List (ℕ × Sector)
  writeThrough : Bool
  sectorCount : UInt8
  lbaLow : UInt8
  lbaMid : UInt8
  lbaHigh : UInt8
  device : UInt8
  job : Job
  busy : ℕ
  request : ℕ
  store : ℕ
  /-- What the commands to come will take. -/
  timing : ℕ → Timing
  commands : ℕ

namespace Drive

/-- What reads return. -/
def disk (d : Drive) : Disk := d.cache.foldl (fun m w => Function.update m w.1 w.2) d.media

def address (d : Drive) : ℕ :=
  d.lbaLow.toNat + 256 * d.lbaMid.toNat + 65536 * d.lbaHigh.toNat +
    16777216 * (d.device &&& 0x0F).toNat

/-- The first drive is selected, in LBA mode. -/
def selected (d : Drive) : Bool := d.device &&& 0x50 = 0x40

def setBusy (d : Drive) (n : ℕ) : Drive := { d with busy := n }

def setRequest (d : Drive) (n : ℕ) : Drive := { d with request := n }

def setJob (d : Drive) (job : Job) : Drive := { d with job := job }

/-- The sector is in the cache. -/
def cached (d : Drive) (lba : ℕ) (buffer : Sector) : Drive :=
  { d with cache := d.cache ++ [(lba, buffer)], job := .idle }

/-- The medium has all that the cache had. -/
def synced (d : Drive) : Drive := { d with media := d.disk, cache := [], job := .idle }

/-- What is due once the drive is no longer busy. -/
def settle (d : Drive) : Drive :=
  if d.busy ≠ 0 then d
  else match d.job with
    | .store lba buffer =>
        if d.writeThrough then (d.cached lba buffer).synced else d.cached lba buffer
    | .flush => d.synced
    | _ => d

/-- Data is to be read or written. -/
def transfers (d : Drive) : Bool :=
  match d.job with
  | .read _ _ | .write _ _ _ => true
  | _ => false

/-- The status register: BSY, or DRDY with DRQ or without. -/
def status (d : Drive) : UInt8 × Drive :=
  if d.selected = false then (0, d)
  else if d.busy ≠ 0 then (0x80, (d.setBusy (d.busy - 1)).settle)
  else if d.transfers = false then (0x40, d)
  else if d.request ≠ 0 then (0x40, d.setRequest (d.request - 1))
  else (0x48, d)

def isIdle (d : Drive) : Bool :=
  match d.job with
  | .idle => d.busy = 0
  | _ => false

/-- The drive has begun with a command. -/
def accept (d : Drive) : Drive :=
  let t := d.timing d.commands
  { d with commands := d.commands + 1, busy := t.busy, request := t.request, store := t.store }

/-- The command register.  A drive that is busy or waits for data ignores it. -/
def command (d : Drive) (val : UInt8) : Drive :=
  if d.selected = false ∨ d.isIdle = false ∨ d.sectorCount ≠ 1 then d
  else if val = 0x20 then d.accept.setJob (.read d.address 0)
  else if val = 0x30 then d.accept.setJob (.write d.address 0 Buf.zero)
  else if val = 0xE7 then (d.accept.setJob .flush).settle
  else d

/-- The data register, read. -/
def dataIn (d : Drive) : UInt16 × Drive :=
  match d.job with
  | .read lba i =>
      if d.busy = 0 ∧ d.request = 0 then
        (getWord (d.disk lba) i, d.setJob (if i + 1 = 256 then .idle else .read lba (i + 1)))
      else (0, d)
  | _ => (0, d)

/-- The data register, written. -/
def dataOut (d : Drive) (word : UInt16) : Drive :=
  match d.job with
  | .write lba i buffer =>
      if d.busy = 0 ∧ d.request = 0 then
        if i + 1 = 256 then
          ((d.setJob (.store lba (setWord buffer i word))).setBusy d.store).settle
        else d.setJob (.write lba (i + 1) (setWord buffer i word))
      else d
  | _ => d

/-- The other registers, which a busy drive does not take either. -/
def register (d : Drive) (port : UInt16) (val : UInt8) : Drive :=
  if d.busy ≠ 0 then d
  else if port = 0x1F2 then { d with sectorCount := val }
  else if port = 0x1F3 then { d with lbaLow := val }
  else if port = 0x1F4 then { d with lbaMid := val }
  else if port = 0x1F5 then { d with lbaHigh := val }
  else if port = 0x1F6 then { d with device := val }
  else d

/-- Written by a command, or about to be. -/
def pending (d : Drive) : List (ℕ × Sector) :=
  match d.job with
  | .store lba buffer => d.cache ++ [(lba, buffer)]
  | _ => d.cache

/-- What the medium may hold when the power fails: any of the sectors that are not on it yet may
have got there. -/
def CrashImage (d : Drive) (m : Disk) : Prop :=
  ∀ lba, m lba = d.media lba ∨ (lba, m lba) ∈ d.pending

end Drive

instance : Device Drive where
  inb port d := if port = 0x1F7 then d.status else (0xFF, d)
  inw port d := if port = 0x1F0 then d.dataIn else (0xFFFF, d)
  outb port val d := if port = 0x1F7 then d.command val else d.register port val
  outw port val d := if port = 0x1F0 then d.dataOut val else d

/-! ### The driver -/

def ataWaitReady : Prog Unit := pollWhile 0x1F7 fun s => s &&& 0x80 ≠ 0

def ataReadSector (lba : UInt32) (buffer : Sector) : Prog (ℤ × Sector) := do
  ataWaitReady
  outb 0x1F2 1
  outb 0x1F3 lba.toUInt8
  outb 0x1F4 (lba >>> 8).toUInt8
  outb 0x1F5 (lba >>> 16).toUInt8
  outb 0x1F6 (lba >>> 24 ||| 0xE0).toUInt8
  outb 0x1F7 0x20
  ataWaitReady
  pollWhile 0x1F7 fun s => ¬ s &&& 0x08 ≠ 0
  let buffer ← (List.range 256).foldlM (fun buffer i => do
    let word ← inw 0x1F0
    return setWord buffer i word) buffer
  return (0, buffer)

def ataWriteSector (lba : UInt32) (buffer : Sector) : Prog ℤ := do
  ataWaitReady
  outb 0x1F2 1
  outb 0x1F3 lba.toUInt8
  outb 0x1F4 (lba >>> 8).toUInt8
  outb 0x1F5 (lba >>> 16).toUInt8
  outb 0x1F6 (lba >>> 24 ||| 0xE0).toUInt8
  outb 0x1F7 0x30
  ataWaitReady
  pollWhile 0x1F7 fun s => ¬ s &&& 0x08 ≠ 0
  (List.range 256).foldlM (fun _ i => outw 0x1F0 (getWord buffer i)) ()
  -- the sectors that the drive has cached are to be on the medium
  outb 0x1F7 0xE7
  ataWaitReady
  return 0

/-! ### The registers -/

namespace Drive

variable {d d' : Drive}

/-- The drive once the driver has put an address into its registers. -/
def addressed (d : Drive) (lba : UInt32) : Drive :=
  { d with
    sectorCount := 1
    lbaLow := lba.toUInt8
    lbaMid := (lba >>> 8).toUInt8
    lbaHigh := (lba >>> 16).toUInt8
    device := (lba >>> 24 ||| 0xE0).toUInt8 }

theorem device_toNat {lba : UInt32} (h : lba.toNat < 2 ^ 28) :
    ((lba >>> 24 ||| 0xE0).toUInt8 &&& 0x50 = 0x40) ∧
      ((lba >>> 24 ||| 0xE0).toUInt8 &&& 0x0F).toNat = lba.toNat / 2 ^ 24 := by
  have hx : (lba >>> 24).toNat = lba.toNat / 2 ^ 24 := by
    rw [UInt32.toNat_shiftRight, Nat.shiftRight_eq_div_pow]
    rfl
  have hlt : lba.toNat / 2 ^ 24 < 16 := by omega
  have hall : ∀ x : Fin 16, ((UInt32.ofNat x.val ||| 0xE0).toUInt8 &&& 0x50 = 0x40) ∧
      ((UInt32.ofNat x.val ||| 0xE0).toUInt8 &&& 0x0F).toNat = x.val := by decide
  have h := hall ⟨lba.toNat / 2 ^ 24, hlt⟩
  dsimp only at h
  rw [← hx, UInt32.ofNat_toNat, hx] at h
  exact h

theorem addressed_selected {lba : UInt32} (h : lba.toNat < 2 ^ 28) :
    (d.addressed lba).selected = true := by
  unfold selected addressed
  exact decide_eq_true (device_toNat h).1

theorem addressed_address {lba : UInt32} (h : lba.toNat < 2 ^ 28) :
    (d.addressed lba).address = lba.toNat := by
  unfold address addressed
  dsimp only
  rw [(device_toNat h).2]
  simp only [UInt32.toNat_toUInt8, UInt32.toNat_shiftRight, Nat.shiftRight_eq_div_pow]
  simp only [show (8 : UInt32).toNat % 32 = 8 from rfl, show (16 : UInt32).toNat % 32 = 16 from rfl]
  omega

end Drive

end NosmeriOs.Ata
