import NosmeriOs.Ata

/-! # What the disk driver does

* `does_ataReadSector`: a read returns the sector, and the drive is as before.
* `does_ataWriteSector`: a write returns, and reads see the sector from then on.  `Written` says
  whether it is on the medium too.

Either holds for every drive, with a condition `I` on what the medium may have while the driver is
at work. -/

namespace NosmeriOs.Ata

open Bytes PortIo
open SimpleFs (Sector Disk Io Purpose)

/-! ### Polling -/

namespace Drive

variable {d d' : Drive} {n : ℕ}

/-- No command is under way. -/
structure Quiet (d : Drive) : Prop where
  job : d.job = .idle
  busy : d.busy = 0

theorem Quiet.isIdle (h : d.Quiet) : d.isIdle = true := by
  unfold Drive.isIdle
  rw [h.job, h.busy]
  rfl

theorem settle_of_busy (h : d.busy ≠ 0) : d.settle = d := by
  unfold settle
  rw [if_pos h]

theorem settle_transfers (h : d.transfers = true) : d.settle = d := by
  unfold transfers at h
  unfold settle
  cases hj : d.job with
  | read | write => exact ite_self d
  | idle | store | flush =>
      rw [hj] at h
      cases h

theorem settle_store {lba : ℕ} {buffer : Sector} (h : d.busy = 0) (hj : d.job = .store lba buffer) :
    d.settle = if d.writeThrough then (d.cached lba buffer).synced else d.cached lba buffer := by
  unfold settle
  rw [if_neg (not_not.2 h), hj]

theorem settle_flush (h : d.busy = 0) (hj : d.job = .flush) : d.settle = d.synced := by
  unfold settle
  rw [if_neg (not_not.2 h), hj]

theorem settle_busy (d : Drive) : d.settle.busy = d.busy := by
  unfold settle
  split_ifs
  · rfl
  · cases d.job <;> rfl
  · cases d.job <;> rfl

theorem settle_device (d : Drive) : d.settle.device = d.device := by
  unfold settle
  split_ifs
  · rfl
  · cases d.job <;> rfl
  · cases d.job <;> rfl

theorem settle_selected (d : Drive) : d.settle.selected = d.selected := by
  unfold selected
  rw [settle_device]

@[simp] theorem setBusy_busy (d : Drive) (n : ℕ) : (d.setBusy n).busy = n := rfl

@[simp] theorem setBusy_selected (d : Drive) (n : ℕ) : (d.setBusy n).selected = d.selected := rfl

@[simp] theorem setBusy_setBusy (d : Drive) (n m : ℕ) : (d.setBusy n).setBusy m = d.setBusy m := rfl

@[simp] theorem setRequest_request (d : Drive) (n : ℕ) : (d.setRequest n).request = n := rfl

@[simp] theorem setRequest_setRequest (d : Drive) (n m : ℕ) :
    (d.setRequest n).setRequest m = d.setRequest m := rfl

theorem setBusy_self (h : d.busy = n) : d.setBusy n = d := by
  rw [← h]
  rfl

theorem setRequest_self (h : d.request = n) : d.setRequest n = d := by
  rw [← h]
  rfl

theorem status_busy (hs : d.selected = true) (h : d.busy ≠ 0) :
    d.status = (0x80, (d.setBusy (d.busy - 1)).settle) := by
  unfold status
  rw [if_neg (by simp [hs]), if_pos h]

/-- A drive that is not busy says so. -/
theorem status_free (hs : d.selected = true) (h : d.busy = 0) : d.status.1 &&& 0x80 = 0 := by
  unfold status
  rw [if_neg (by simp [hs]), if_neg (by omega)]
  split_ifs
  · exact (by decide : (0x40 : UInt8) &&& 0x80 = 0)
  · exact (by decide : (0x40 : UInt8) &&& 0x80 = 0)
  · exact (by decide : (0x48 : UInt8) &&& 0x80 = 0)

theorem status_quiet (hs : d.selected = true) (h : d.Quiet) : d.status = (0x40, d) := by
  unfold status transfers
  rw [if_neg (by simp [hs]), if_neg (not_not.2 h.busy), h.job, if_pos rfl]

/-- A sector is on its way. -/
structure Transfers (d : Drive) : Prop where
  selected : d.selected = true
  busy : d.busy = 0
  transfers : d.transfers = true

theorem Transfers.status (h : d.Transfers) :
    d.status = if d.request ≠ 0 then (0x40, d.setRequest (d.request - 1)) else (0x48, d) := by
  unfold Drive.status
  rw [if_neg (by simp [h.selected]), if_neg (not_not.2 h.busy), if_neg (by simp [h.transfers])]

theorem Transfers.setRequest (h : d.Transfers) (n : ℕ) : (d.setRequest n).Transfers :=
  ⟨h.selected, h.busy, h.transfers⟩

end Drive

variable {α : Type} {I : Drive → Prop} {Q : α → Drive → Prop} {k : Prog α} {d : Drive}

/-- The drive is no longer busy, and what is due has been done. -/
theorem does_waitReady (hs : d.selected = true) (hsettle : d.busy = 0 → d.settle = d)
    (hbusy : ∀ n, n ≠ 0 → n ≤ d.busy → I (d.setBusy n)) (hfree : I (d.setBusy 0).settle)
    (hk : Does I Q k (d.setBusy 0).settle.status.2) :
    Does I Q (.poll 0x1F7 (fun s => s &&& 0x80 ≠ 0) k) d := by
  obtain ⟨e, he⟩ : ∃ e, e = (d.setBusy 0).settle := ⟨_, rfl⟩
  rw [← he] at hfree hk
  have hes : e.selected = true := by
    rw [he, Drive.settle_selected]
    exact hs
  have heb : e.busy = 0 := by
    rw [he, Drive.settle_busy]
    rfl
  refine Does.poll (P := fun n d' => (n ≠ 0 ∧ n ≤ d.busy ∧ d' = d.setBusy n) ∨ n = 0 ∧ d' = e)
    ?_ ?_ ?_ (n := d.busy) ?_
  · rintro n _ (⟨hn, hle, rfl⟩ | ⟨rfl, rfl⟩)
    · exact hbusy n hn hle
    · exact hfree
  · rintro n d' (⟨hn, hle, rfl⟩ | ⟨rfl, rfl⟩) hagain
    · refine ⟨n - 1, by omega, ?_⟩
      have hstatus : (Device.inb 0x1F7 (d.setBusy n)).2 = (d.setBusy (n - 1)).settle :=
        congrArg Prod.snd (Drive.status_busy (d := d.setBusy n) hs hn)
      rw [hstatus]
      obtain h0 | h0 := Nat.eq_zero_or_pos (n - 1)
      · exact Or.inr ⟨h0, by rw [h0, he]⟩
      · exact Or.inl ⟨h0.ne', by omega, Drive.settle_of_busy h0.ne'⟩
    · have h : d'.status.1 &&& 0x80 ≠ 0 := of_decide_eq_true hagain
      exact absurd (Drive.status_free hes heb) h
  · rintro n d' (⟨hn, hle, rfl⟩ | ⟨rfl, rfl⟩) hagain
    · have h : ¬ (d.setBusy n).status.1 &&& 0x80 ≠ 0 := of_decide_eq_false hagain
      rw [Drive.status_busy (d := d.setBusy n) hs hn] at h
      exact absurd (by decide : (0x80 : UInt8) &&& 0x80 ≠ 0) h
    · exact hk
  · obtain hb | hb := Nat.eq_zero_or_pos d.busy
    · refine Or.inr ⟨hb, ?_⟩
      rw [he, Drive.setBusy_self hb, hsettle hb]
    · exact Or.inl ⟨hb.ne', le_rfl, (Drive.setBusy_self rfl).symm⟩

theorem does_waitRequest (h : d.Transfers) (hi : ∀ n, n ≤ d.request → I (d.setRequest n))
    (hk : Does I Q k (d.setRequest 0)) :
    Does I Q (.poll 0x1F7 (fun s => ¬ s &&& 0x08 ≠ 0) k) d := by
  have hstatus : ∀ n, (d.setRequest n).status =
      if n ≠ 0 then (0x40, d.setRequest (n - 1)) else (0x48, d.setRequest n) :=
    fun n => (h.setRequest n).status
  refine Does.poll (P := fun n d' => n ≤ d.request ∧ d' = d.setRequest n) ?_ ?_ ?_
    (n := d.request) ⟨le_rfl, (Drive.setRequest_self rfl).symm⟩
  · rintro n _ ⟨hle, rfl⟩
    exact hi n hle
  · rintro n _ ⟨hle, rfl⟩ hagain
    have h : ¬ (d.setRequest n).status.1 &&& 0x08 ≠ 0 := of_decide_eq_true hagain
    rw [hstatus] at h
    obtain rfl | hn := Nat.eq_zero_or_pos n
    · exact absurd (by decide : (0x48 : UInt8) &&& 0x08 ≠ 0) h
    · refine ⟨n - 1, by omega, by omega, ?_⟩
      have hs := congrArg Prod.snd (hstatus n)
      rw [if_pos hn.ne'] at hs
      exact hs
  · rintro n _ ⟨hle, rfl⟩ hagain
    have h := not_not.1 (of_decide_eq_false hagain)
    have h : (d.setRequest n).status.1 &&& 0x08 ≠ 0 := h
    obtain rfl | hn := Nat.eq_zero_or_pos n
    · have hs := congrArg Prod.snd (hstatus 0)
      rw [if_neg (not_not.2 rfl)] at hs
      show Does I Q k (d.setRequest 0).status.2
      rw [hs]
      exact hk
    · rw [hstatus, if_pos hn.ne'] at h
      exact absurd (by decide : (0x40 : UInt8) &&& 0x08 = 0) h

/-! ### What is on the medium -/

namespace Drive

/-- What the power can leave of the drive. -/
def persistent (d : Drive) : Disk × List (ℕ × Sector) := (d.media, d.pending)

theorem persistent_quiet (h : d.job = .idle) : d.persistent = (d.media, d.cache) := by
  unfold persistent pending
  rw [h]

theorem register_persistent (d : Drive) (port : UInt16) (val : UInt8) :
    (d.register port val).persistent = d.persistent := by
  unfold register
  split_ifs <;> rfl

theorem disk_cached (d : Drive) (lba : ℕ) (buffer : Sector) :
    (d.cached lba buffer).disk = Function.update d.disk lba buffer :=
  List.foldl_append

/-- The drive has put something else into its registers. -/
structure Same (d d' : Drive) : Prop where
  media : d'.media = d.media
  cache : d'.cache = d.cache
  writeThrough : d'.writeThrough = d.writeThrough
  timing : d'.timing = d.timing

theorem Same.disk {d' : Drive} (h : Same d d') : d'.disk = d.disk := by
  unfold Drive.disk
  rw [h.media, h.cache]

end Drive

/-- The address is put into the registers. -/
theorem does_address {lba : UInt32} (hb : d.busy = 0)
    (hi : ∀ d' : Drive, d'.persistent = d.persistent → I d')
    (hk : Does I Q k (d.addressed lba)) :
    Does I Q (.outb 0x1F2 1 (.outb 0x1F3 lba.toUInt8 (.outb 0x1F4 (lba >>> 8).toUInt8
      (.outb 0x1F5 (lba >>> 16).toUInt8
        (.outb 0x1F6 (lba >>> 24 ||| 0xE0).toUInt8 k))))) d := by
  have hp : ∀ (d : Drive) (port : UInt16) (val : UInt8), port ≠ 0x1F7 →
      (Device.outb port val d).persistent = d.persistent := by
    intro d port val hne
    show (if port = 0x1F7 then d.command val else d.register port val).persistent = _
    rw [if_neg hne, Drive.register_persistent]
  have hall : Device.outb 0x1F6 (lba >>> 24 ||| 0xE0).toUInt8
      (Device.outb 0x1F5 (lba >>> 16).toUInt8 (Device.outb 0x1F4 (lba >>> 8).toUInt8
        (Device.outb 0x1F3 lba.toUInt8 (Device.outb 0x1F2 1 d)))) = d.addressed lba := by
    simp [Device.outb, Drive.register, hb, Drive.addressed]
  have h2 := hp d 0x1F2 1 (by decide)
  have h3 := (hp _ 0x1F3 lba.toUInt8 (by decide)).trans h2
  have h4 := (hp _ 0x1F4 (lba >>> 8).toUInt8 (by decide)).trans h3
  have h5 := (hp _ 0x1F5 (lba >>> 16).toUInt8 (by decide)).trans h4
  refine .outb (hi _ rfl) (.outb (hi _ h2) (.outb (hi _ h3) (.outb (hi _ h4) (.outb (hi _ h5) ?_))))
  rw [hall]
  exact hk

/-- A quiet drive is ready at once. -/
theorem does_waitReady_quiet (h : d.Quiet) (hi : I d) (hk : Does I Q k d) :
    Does I Q (.poll 0x1F7 (fun s => s &&& 0x80 ≠ 0) k) d := by
  have hs : d.status.1 &&& 0x80 = 0 ∧ d.status.2 = d := by
    cases hsel : d.selected with
    | true =>
        rw [Drive.status_quiet hsel h]
        exact ⟨(by decide : (0x40 : UInt8) &&& 0x80 = 0), rfl⟩
    | false =>
        unfold Drive.status
        rw [if_pos hsel]
        exact ⟨(by decide : (0 : UInt8) &&& 0x80 = 0), rfl⟩
  refine .pollDone hi (decide_eq_false (not_not.2 hs.1)) ?_
  show Does I Q k d.status.2
  rw [hs.2]
  exact hk

/-- The drive asks for data or has some after a command, and the driver waits for it. -/
theorem does_transfer (hs : d.selected = true) (ht : d.transfers = true)
    (hi : ∀ d' : Drive, d'.persistent = d.persistent → I d')
    (hk : Does I Q k ((d.setBusy 0).setRequest 0)) :
    Does I Q (.poll 0x1F7 (fun s => s &&& 0x80 ≠ 0)
      (.poll 0x1F7 (fun s => ¬ s &&& 0x08 ≠ 0) k)) d := by
  have hsettle : ∀ n, (d.setBusy n).settle = d.setBusy n :=
    fun n => Drive.settle_transfers (d := d.setBusy n) ht
  have htr : (d.setBusy 0).Transfers := ⟨hs, rfl, ht⟩
  have hready : (d.setBusy 0).status.2 = (d.setBusy 0).setRequest (d.request - 1) := by
    rw [htr.status]
    split_ifs with h0
    · rfl
    · have h0 : d.request = 0 := not_not.1 h0
      exact (Drive.setRequest_self (by rw [h0]; exact h0)).symm
  refine does_waitReady hs (fun hb => ?_) (fun n _ _ => hi _ rfl) (hi _ ?_) ?_
  · have h := hsettle 0
    rw [Drive.setBusy_self hb] at h
    exact h
  · rw [hsettle 0]
    rfl
  · rw [hsettle 0, hready]
    exact does_waitRequest (htr.setRequest _) (fun n _ => hi _ rfl) hk

/-! ### The data register -/

theorem get_setWord (buffer : Sector) {i : ℕ} (hi : i < 256) (s : Sector) (k : ℕ) :
    (setWord buffer i (getWord s i)).get k =
      if k / 2 = i then s.get k else buffer.get k := by
  unfold setWord
  split_ifs with hk
  · obtain ⟨r, hr, rfl⟩ : ∃ r < 2, k = 2 * i + r := ⟨k % 2, by omega, by omega⟩
    rw [Buf.get_blit_in _ _ _ _ hr (by omega)]
    unfold getWord
    have h0 := (s.get (2 * i)).toNat_lt
    have h1 := (s.get (2 * i + 1)).toNat_lt
    apply UInt8.toNat_inj.1
    rw [UInt8.toNat_ofNat', UInt16.toNat_ofNat', Nat.mod_eq_of_lt (a := _ + _) (by omega)]
    obtain rfl | rfl : r = 0 ∨ r = 1 := by omega
    · simp only [Nat.add_zero, Nat.pow_zero, Nat.div_one]
      omega
    · rw [Nat.pow_one]
      omega
  · exact Buf.get_blit_out _ _ (by omega)

/-- The words that are read are those of the sector. -/
theorem does_dataIn {lba : ℕ} (hb : d.busy = 0) (hr : d.request = 0) (hj : d.job = .read lba 0)
    {I : Drive → Prop} (hi : ∀ d' : Drive, d'.persistent = d.persistent → I d') (buffer : Sector) :
    Does I (fun b d' => b = d.disk lba ∧ d' = d.setJob .idle)
      ((List.range 256).foldlM (fun buffer i => do
        let word ← inw 0x1F0
        return setWord buffer i word) buffer) d := by
  have hper : ∀ i,
      (d.setJob (if i = 256 then .idle else .read lba i)).persistent = d.persistent := by
    intro i
    unfold Drive.persistent Drive.pending
    rw [hj]
    dsimp only [Drive.setJob]
    split_ifs <;> rfl
  have hloop : Does I (fun b d' => (∀ k < 512, b.get k = (d.disk lba).get k) ∧
      d' = d.setJob .idle) ((List.range 256).foldlM (fun buffer i => do
        let word ← inw 0x1F0
        return setWord buffer i word) buffer) d := by
    refine (Does.foldlM (P := fun i b d' => (∀ k < 2 * i, b.get k = (d.disk lba).get k) ∧
      d' = d.setJob (if i = 256 then .idle else .read lba i)) ?_ ?_ ?_).mono (fun _ h => h) ?_
    · rintro i b _ ⟨-, rfl⟩
      exact hi _ (hper i)
    · rintro i hlt b _ ⟨hb', rfl⟩
      have hlt : i < 256 := by
        rw [List.length_range] at hlt
        exact hlt
      have hjob : d.setJob (if i = 256 then .idle else .read lba i) = d.setJob (.read lba i) := by
        rw [if_neg hlt.ne]
      have hin : (d.setJob (.read lba i)).dataIn = (getWord (d.disk lba) i,
          d.setJob (if i + 1 = 256 then .idle else .read lba (i + 1))) :=
        if_pos ⟨hb, hr⟩
      have hper' := hper i
      rw [hjob] at hper' ⊢
      rw [List.getElem_range]
      refine Does.inw (hi _ hper') ?_
      show Does I _ (.ret (setWord b i (d.setJob (.read lba i)).dataIn.1))
        (d.setJob (.read lba i)).dataIn.2
      rw [hin]
      refine .ret (hi _ (hper (i + 1))) ⟨fun k hk => ?_, rfl⟩
      rw [get_setWord b hlt]
      split_ifs with hki
      · rfl
      · exact hb' k (by omega)
    · refine ⟨fun k hk => absurd hk (Nat.not_lt_zero k), ?_⟩
      rw [if_neg (by decide), ← hj]
      rfl
    · rintro b d' ⟨h, hd⟩
      rw [List.length_range] at h hd
      exact ⟨h, hd⟩
  exact hloop.mono (fun _ h => h) fun b d' h => ⟨Buf.ext h.1, h.2⟩

/-- The sector is stored once all its words have come. -/
theorem does_dataOut {lba : ℕ} (hb : d.busy = 0) (hr : d.request = 0) {b₀ : Sector}
    (hj : d.job = .write lba 0 b₀) {buffer : Sector}
    (hi : ∀ d' : Drive, d'.persistent = d.persistent → I d')
    (hend : I ((d.setJob (.store lba buffer)).setBusy d.store).settle) :
    Does I (fun _ d' => d' = ((d.setJob (.store lba buffer)).setBusy d.store).settle)
      ((List.range 256).foldlM (fun _ i => outw 0x1F0 (getWord buffer i)) ()) d := by
  have hper : ∀ i b, (d.setJob (.write lba i b)).persistent = d.persistent := by
    intro i b
    unfold Drive.persistent Drive.pending
    rw [hj]
    rfl
  refine (Does.foldlM (P := fun i _ d' =>
    (i = 256 → d' = ((d.setJob (.store lba buffer)).setBusy d.store).settle) ∧ (i ≠ 256 →
      ∃ b : Sector, (∀ k < 2 * i, b.get k = buffer.get k) ∧ d' = d.setJob (.write lba i b)))
    ?_ ?_ ?_).mono (fun _ h => h) fun _ d' h => h.1 List.length_range
  · rintro i _ d' ⟨hdone, hmore⟩
    by_cases hn : i = 256
    · rw [hdone hn]
      exact hend
    · obtain ⟨b, -, rfl⟩ := hmore hn
      exact hi _ (hper i b)
  · rintro i hlt _ d' ⟨-, hmore⟩
    have hlt : i < 256 := by
      rw [List.length_range] at hlt
      exact hlt
    obtain ⟨b, hbk, rfl⟩ := hmore hlt.ne
    have hout : Device.outw 0x1F0 (getWord buffer i) (d.setJob (.write lba i b)) =
        if i + 1 = 256 then
          ((d.setJob (.store lba (setWord b i (getWord buffer i)))).setBusy d.store).settle
        else d.setJob (.write lba (i + 1) (setWord b i (getWord buffer i))) :=
      if_pos (And.intro hb hr)
    have hget : ∀ k < 2 * (i + 1), (setWord b i (getWord buffer i)).get k = buffer.get k := by
      intro k hk
      rw [get_setWord b hlt]
      split_ifs with hki
      · rfl
      · exact hbk k (by omega)
    rw [List.getElem_range]
    refine Does.outw (hi _ (hper i b)) ?_
    rw [hout]
    split_ifs with hn
    · have hfull : setWord b i (getWord buffer i) = buffer :=
        Buf.ext fun k hk => hget k (by omega)
      rw [hfull]
      exact .ret hend ⟨fun _ => rfl, fun h => absurd hn h⟩
    · exact .ret (hi _ (hper _ _)) ⟨fun h => absurd h hn, fun _ => ⟨_, hget, rfl⟩⟩
  · refine ⟨fun h => absurd h (by decide), fun _ => ⟨b₀, fun k hk => ?_, ?_⟩⟩
    · exact absurd hk (Nat.not_lt_zero k)
    · rw [← hj]
      rfl

/-! ### The two functions -/

theorem accepts (hq : d.Quiet) {lba : UInt32} (hlba : lba.toNat < 2 ^ 28) (val : UInt8) :
    (d.addressed lba).command val =
      if val = 0x20 then (d.addressed lba).accept.setJob (.read lba.toNat 0)
      else if val = 0x30 then (d.addressed lba).accept.setJob (.write lba.toNat 0 Buf.zero)
      else if val = 0xE7 then ((d.addressed lba).accept.setJob .flush).settle
      else d.addressed lba := by
  have hq' : (d.addressed lba).Quiet := ⟨hq.job, hq.busy⟩
  unfold Drive.command
  rw [if_neg, Drive.addressed_address hlba]
  rw [Drive.addressed_selected hlba, hq'.isIdle]
  simp [Drive.addressed]

/-- **A read returns the sector.**  What is on the medium, or about to be, stays. -/
theorem does_ataReadSector (hq : d.Quiet) {lba : UInt32} (hlba : lba.toNat < 2 ^ 28)
    (buffer : Sector) (hi : ∀ d' : Drive, d'.persistent = d.persistent → I d') :
    Does I (fun r d' => r = (0, d.disk lba.toNat) ∧ d'.Quiet ∧ d.Same d')
      (ataReadSector lba buffer) d := by
  have hcommand : Device.outb 0x1F7 0x20 (d.addressed lba) =
      (d.addressed lba).accept.setJob (.read lba.toNat 0) := accepts hq hlba 0x20
  have hper : ((d.addressed lba).accept.setJob (.read lba.toNat 0)).persistent = d.persistent := by
    rw [Drive.persistent_quiet hq.job]
    rfl
  refine does_waitReady_quiet hq (hi d rfl) (does_address hq.busy hi (.outb (hi _ rfl) ?_))
  rw [hcommand]
  have hsel : ((d.addressed lba).accept.setJob (.read lba.toNat 0)).selected = true :=
    Drive.addressed_selected (d := d) hlba
  refine does_transfer hsel rfl (fun d' h => hi d' (h.trans hper)) ?_
  obtain ⟨e, he⟩ : ∃ e, e = (((d.addressed lba).accept.setJob (.read lba.toNat 0)).setBusy
    0).setRequest 0 := ⟨_, rfl⟩
  rw [← he]
  have hdata := @does_dataIn e lba.toNat (by rw [he]; rfl) (by rw [he]; rfl) (by rw [he]; rfl) I
    (fun d' h => hi d' (h.trans (by rw [he]; exact hper))) buffer
  refine hdata.bind ?_
  rintro b _ hi' ⟨rfl, rfl⟩
  rw [he] at hi' ⊢
  exact .ret hi' ⟨rfl, ⟨rfl, rfl⟩, rfl, rfl, rfl, rfl⟩

/-- The sector has been written, and is on the medium if it is certain to be. -/
structure Written (d d' : Drive) (lba : ℕ) (buffer : Sector) : Prop where
  quiet : d'.Quiet
  writeThrough : d'.writeThrough = d.writeThrough
  timing : d'.timing = d.timing
  disk : d'.disk = Function.update d.disk lba buffer
  cache : d'.cache = if d.writeThrough = true ∨ (d.timing d.commands).store = 0 then []
    else d.cache ++ [(lba, buffer)]
  media : d'.media = if d.writeThrough = true ∨ (d.timing d.commands).store = 0 then
      Function.update d.disk lba buffer
    else d.media

/-- The drive has not taken in the last word yet when the driver has it flush its cache, and does
not notice. -/
theorem does_flush_busy {lba : ℕ} {buffer : Sector} (hj : d.job = .store lba buffer)
    (hs : d.selected = true) (hb : d.busy ≠ 0)
    (hi₁ : ∀ d' : Drive, d'.persistent = (d.media, d.cache ++ [(lba, buffer)]) → I d')
    (hi₂ : ∀ d' : Drive, d'.persistent = (Function.update d.disk lba buffer, []) → I d')
    (hk : ∀ d' : Drive, d' = (if d.writeThrough then ((d.setBusy 0).cached lba buffer).synced
      else (d.setBusy 0).cached lba buffer) → Does I Q k d') :
    Does I Q (.outb 0x1F7 0xE7 (.poll 0x1F7 (fun s => s &&& 0x80 ≠ 0) k)) d := by
  have hper : ∀ n, (d.setBusy n).persistent = (d.media, d.cache ++ [(lba, buffer)]) := by
    intro n
    unfold Drive.persistent Drive.pending
    rw [show (d.setBusy n).job = _ from hj]
    rfl
  have hcommand : Device.outb 0x1F7 0xE7 d = d := by
    show d.command 0xE7 = d
    unfold Drive.command
    rw [if_pos]
    unfold Drive.isIdle
    rw [hj]
    exact Or.inr (Or.inl rfl)
  have hsettle : (d.setBusy 0).settle = if d.writeThrough then
      ((d.setBusy 0).cached lba buffer).synced else (d.setBusy 0).cached lba buffer :=
    Drive.settle_store (d := d.setBusy 0) rfl hj
  have hquiet : (d.setBusy 0).settle.Quiet := by
    refine ⟨?_, ?_⟩
    · rw [hsettle]
      split_ifs <;> rfl
    · rw [Drive.settle_busy]
      rfl
  have hsel : (d.setBusy 0).settle.selected = true := by
    rw [Drive.settle_selected]
    exact hs
  refine .outb ?_ ?_
  · have h := hper d.busy
    rw [Drive.setBusy_self rfl] at h
    exact hi₁ d h
  rw [hcommand]
  refine does_waitReady hs (fun h => absurd h hb) (fun n _ _ => hi₁ _ (hper n)) ?_ ?_
  · rw [hsettle]
    split_ifs
    · refine hi₂ _ ?_
      rw [Drive.persistent_quiet rfl]
      exact Prod.ext (Drive.disk_cached (d.setBusy 0) lba buffer) rfl
    · exact hi₁ _ rfl
  · rw [Drive.status_quiet hsel hquiet, hsettle]
    exact hk _ rfl

/-- A quiet drive flushes its cache. -/
theorem does_flush (hq : d.Quiet) (hs : d.selected = true) (hcount : d.sectorCount = 1)
    (hi₁ : ∀ d' : Drive, d'.persistent = d.persistent → I d')
    (hi₂ : ∀ d' : Drive, d'.persistent = (d.disk, []) → I d')
    (hk : ∀ d' : Drive, d'.Quiet → d'.media = d.disk → d'.cache = [] →
      d'.writeThrough = d.writeThrough → d'.timing = d.timing → Does I Q k d') :
    Does I Q (.outb 0x1F7 0xE7 (.poll 0x1F7 (fun s => s &&& 0x80 ≠ 0) k)) d := by
  obtain ⟨f, hf⟩ : ∃ f, f = d.accept.setJob .flush := ⟨_, rfl⟩
  have hcommand : Device.outb 0x1F7 0xE7 d = f.settle := by
    show d.command 0xE7 = _
    unfold Drive.command
    rw [if_neg (by simp [hs, hq.isIdle, hcount]), hf]
    rfl
  have hfs : f.selected = true := by
    rw [hf]
    exact hs
  have hper : ∀ n, (f.setBusy n).persistent = d.persistent := by
    intro n
    rw [Drive.persistent_quiet hq.job, hf]
    rfl
  have hsynced : ∀ n, (f.setBusy n).synced.persistent = (d.disk, []) := by
    intro n
    rw [hf]
    rfl
  have hend : Does I Q k (f.setBusy 0).synced := by
    refine hk _ ⟨rfl, rfl⟩ ?_ rfl ?_ ?_ <;> rw [hf] <;> rfl
  refine .outb (hi₁ d rfl) ?_
  rw [hcommand]
  obtain hb | hb := Nat.eq_zero_or_pos f.busy
  · have hself : f.setBusy 0 = f := Drive.setBusy_self hb
    rw [Drive.settle_flush hb (by rw [hf]; rfl), ← hself]
    exact does_waitReady_quiet ⟨rfl, rfl⟩ (hi₂ _ (hsynced 0)) hend
  · have hsettle : (f.setBusy 0).settle = (f.setBusy 0).synced :=
      Drive.settle_flush rfl (by rw [hf]; rfl)
    rw [Drive.settle_of_busy hb.ne']
    refine does_waitReady hfs (fun h => absurd h hb.ne') (fun n _ _ => hi₁ _ (hper n)) ?_ ?_
    · rw [hsettle]
      exact hi₂ _ (hsynced 0)
    · rw [hsettle, Drive.status_quiet (d := (f.setBusy 0).synced) hfs ⟨rfl, rfl⟩]
      exact hend

/-- All words of a sector have come, and nothing else is new. -/
structure Sent (d w : Drive) (lba : ℕ) (buffer : Sector) : Prop where
  job : w.job = .store lba buffer
  busy : w.busy = (d.timing d.commands).store
  selected : w.selected = true
  sectorCount : w.sectorCount = 1
  same : d.Same w

theorem Sent.persistent {w : Drive} {lba : ℕ} {buffer : Sector} (h : Sent d w lba buffer) :
    w.persistent = (d.media, d.cache ++ [(lba, buffer)]) := by
  unfold Drive.persistent Drive.pending
  rw [h.job, h.same.media, h.same.cache]

theorem Sent.disk {w : Drive} {lba : ℕ} {buffer : Sector} (h : Sent d w lba buffer) (n : ℕ) :
    ((w.setBusy n).cached lba buffer).disk = Function.update d.disk lba buffer := by
  rw [Drive.disk_cached, ← h.same.disk]
  rfl

/-- `ata_write_sector` up to the last word. -/
theorem does_sendSector (hq : d.Quiet) {lba : UInt32} (hlba : lba.toNat < 2 ^ 28)
    (buffer : Sector) (hi : ∀ d' : Drive, d'.persistent = d.persistent → I d')
    (hk : ∀ w, Sent d w lba.toNat buffer → I w.settle ∧ Does I Q k w.settle) :
    Does I Q (.poll 0x1F7 (fun s => s &&& 0x80 ≠ 0) (.outb 0x1F2 1 (.outb 0x1F3 lba.toUInt8
      (.outb 0x1F4 (lba >>> 8).toUInt8 (.outb 0x1F5 (lba >>> 16).toUInt8
        (.outb 0x1F6 (lba >>> 24 ||| 0xE0).toUInt8 (.outb 0x1F7 0x30
          (.poll 0x1F7 (fun s => s &&& 0x80 ≠ 0) (.poll 0x1F7 (fun s => ¬ s &&& 0x08 ≠ 0)
            (((List.range 256).foldlM (fun _ i => outw 0x1F0 (getWord buffer i)) ()).bind
              fun _ => k)))))))))) d := by
  obtain ⟨e, he⟩ : ∃ e, e = (d.addressed lba).accept.setJob (.write lba.toNat 0 Buf.zero) :=
    ⟨_, rfl⟩
  have hcommand : Device.outb 0x1F7 0x30 (d.addressed lba) = e := by
    rw [he]
    exact accepts hq hlba 0x30
  have hper : e.persistent = d.persistent := by
    rw [Drive.persistent_quiet hq.job, he]
    rfl
  have hsel : e.selected = true := by
    rw [he]
    exact Drive.addressed_selected (d := d) hlba
  refine does_waitReady_quiet hq (hi d rfl) (does_address hq.busy hi (.outb (hi _ rfl) ?_))
  rw [hcommand]
  refine does_transfer hsel (by rw [he]; rfl) (fun d' h => hi d' (h.trans hper)) ?_
  obtain ⟨g, hg⟩ : ∃ g, g = (e.setBusy 0).setRequest 0 := ⟨_, rfl⟩
  rw [← hg]
  have hsent : Sent d ((g.setJob (.store lba.toNat buffer)).setBusy g.store) lba.toNat buffer := by
    refine ⟨rfl, ?_, ?_, ?_, ?_, ?_, ?_, ?_⟩
    · rw [hg, he]
      rfl
    · rw [hg]
      exact hsel
    all_goals
      rw [hg, he]
      rfl
  have hgper : g.persistent = d.persistent := by
    rw [hg]
    exact hper
  obtain ⟨hend, hk⟩ := hk _ hsent
  have hjob : g.job = .write lba.toNat 0 Buf.zero := by
    rw [hg, he]
    rfl
  refine (does_dataOut ?_ ?_ hjob (fun d' h => hi d' (h.trans hgper)) hend).bind ?_
  · rw [hg]
    rfl
  · rw [hg]
    rfl
  · rintro _ _ - rfl
    exact hk

/-- **A write returns, and reads see the sector.**  It is on the medium unless the drive was
still busy with the last word when it was to flush its cache, and keeps what it stores in the
cache. -/
theorem does_ataWriteSector (hq : d.Quiet) {lba : UInt32} (hlba : lba.toNat < 2 ^ 28)
    (buffer : Sector) (hi₁ : ∀ d' : Drive, d'.persistent = d.persistent → I d')
    (hi₂ : ∀ d' : Drive, d'.persistent = (d.media, d.cache ++ [(lba.toNat, buffer)]) → I d')
    (hi₃ : ∀ d' : Drive, d'.persistent = (Function.update d.disk lba.toNat buffer, []) → I d') :
    Does I (fun r d' => r = 0 ∧ Written d d' lba.toNat buffer) (ataWriteSector lba buffer) d := by
  refine does_sendSector hq hlba buffer hi₁ fun w hw => ?_
  by_cases hb : w.busy = 0
  · have hst : (d.timing d.commands).store = 0 := hw.busy.symm.trans hb
    have hdisk := hw.disk 0
    rw [Drive.setBusy_self hb] at hdisk
    have hflush : ∀ v : Drive, v.Quiet → v.selected = true → v.sectorCount = 1 →
        v.disk = Function.update d.disk lba.toNat buffer → v.writeThrough = d.writeThrough →
        v.timing = d.timing → (∀ d' : Drive, d'.persistent = v.persistent → I d') →
        Does I (fun (r : ℤ) d' => r = 0 ∧ Written d d' lba.toNat buffer) (.outb 0x1F7 0xE7
          (.poll 0x1F7 (fun s => s &&& 0x80 ≠ 0) (.ret 0))) v := by
      intro v hv hs hcount hvd hwt ht hi
      refine does_flush hv hs hcount hi (fun d' h => hi₃ d' (h.trans (by rw [hvd])))
        fun d' hq' hm hc hwt' ht' => ?_
      rw [hvd] at hm
      refine .ret (hi₃ d' ?_) ⟨rfl, hq', hwt'.trans hwt, ht'.trans ht, ?_, ?_, ?_⟩
      · rw [Drive.persistent_quiet hq'.job, hm, hc]
      · unfold Drive.disk at hm ⊢
        rw [hm, hc]
        rfl
      · rw [if_pos (Or.inr hst), hc]
      · rw [if_pos (Or.inr hst), hm]
    rw [Drive.settle_store hb hw.job]
    split_ifs
    · have hi : ∀ d' : Drive, d'.persistent = (w.cached lba.toNat buffer).synced.persistent →
          I d' := fun d' h => hi₃ d' (h.trans (Prod.ext hdisk rfl))
      exact ⟨hi _ rfl, hflush (w.cached lba.toNat buffer).synced ⟨rfl, hb⟩ hw.selected
        hw.sectorCount hdisk hw.same.writeThrough hw.same.timing hi⟩
    · have hi : ∀ d' : Drive, d'.persistent = (w.cached lba.toNat buffer).persistent → I d' := by
        intro d' h
        rw [Drive.persistent_quiet (d := w.cached lba.toNat buffer) rfl] at h
        refine hi₂ d' (h.trans (Prod.ext hw.same.media ?_))
        exact congrArg (· ++ [(lba.toNat, buffer)]) hw.same.cache
      exact ⟨hi _ rfl, hflush (w.cached lba.toNat buffer) ⟨rfl, hb⟩ hw.selected hw.sectorCount
        hdisk hw.same.writeThrough hw.same.timing hi⟩
  · -- the drive does not hear that it is to flush its cache
    have hst : (d.timing d.commands).store ≠ 0 := fun h => hb (hw.busy.trans h)
    rw [Drive.settle_of_busy hb]
    refine ⟨hi₂ w hw.persistent, does_flush_busy hw.job hw.selected hb ?_ ?_ ?_⟩
    · intro d' h
      rw [hw.same.media, hw.same.cache] at h
      exact hi₂ d' h
    · intro d' h
      rw [hw.same.disk] at h
      exact hi₃ d' h
    · rintro d' rfl
      have hdisk := hw.disk 0
      rw [hw.same.writeThrough]
      split_ifs with hwt
      · refine .ret (hi₃ _ (Prod.ext hdisk rfl)) ⟨rfl, ⟨rfl, rfl⟩, hw.same.writeThrough,
          hw.same.timing, hdisk, ?_, ?_⟩
        · rw [if_pos (Or.inl hwt)]
          rfl
        · rw [if_pos (Or.inl hwt)]
          exact hdisk
      · have hnot : ¬ (d.writeThrough = true ∨ (d.timing d.commands).store = 0) :=
          not_or.2 ⟨hwt, hst⟩
        have hcache : w.cache ++ [(lba.toNat, buffer)] = d.cache ++ [(lba.toNat, buffer)] := by
          rw [hw.same.cache]
        refine .ret (hi₂ _ (Prod.ext hw.same.media hcache)) ⟨rfl, ⟨rfl, rfl⟩,
          hw.same.writeThrough, hw.same.timing, hdisk, ?_, ?_⟩
        · rw [if_neg hnot]
          exact hcache
        · rw [if_neg hnot]
          exact hw.same.media

end NosmeriOs.Ata
