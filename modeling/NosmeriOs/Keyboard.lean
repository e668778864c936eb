import NosmeriOs.RingBuffer

/-! # Keyboard input (`drivers/keyboard.cpp`, `fs/file.cpp`)

The keyboard interrupt fills a ring of 128 characters, `stdin_read` empties it, without a lock.

* `Keyboard`: the ring, with `enqueueKey` and `handleKeyboardInput` of the interrupt.
* `Reader` and `Reader.step`: where `stdin_read` stands. A step is one access of the ring together
  with the work on local variables up to the next access: an interrupt sees and changes the ring
  only.
* `run_fifo`: whatever the interleaving, the reader gets what was accepted, in order. -/

namespace NosmeriOs.Input

def BUFFER_SIZE : UInt32 := 128

def keys (l : List Char) : List UInt8 := l.map fun c => c.toNat.toUInt8

/-- The characters of scancode set 1 on a US keyboard. -/
def kbdUs : List UInt8 :=
  [0, 27] ++ keys ['1', '2', '3', '4', '5', '6', '7', '8', '9', '0', '-', '=', '\x08', '\t'] ++
    keys ['q', 'w', 'e', 'r', 't', 'y', 'u', 'i', 'o', 'p', '[', ']', '\n'] ++
    [0] ++                                                                      -- control
    keys ['a', 's', 'd', 'f', 'g', 'h', 'j', 'k', 'l', ';', '\x27', '\x60'] ++
    [0] ++                                                                      -- left shift
    keys ['\\', 'z', 'x', 'c', 'v', 'b', 'n', 'm', ',', '.', '/'] ++
    [0] ++ keys ['*'] ++                                                        -- right shift
    [0] ++ keys [' '] ++                                                        -- alt
    List.replicate 16 0 ++                                    -- caps lock, F1 to page up
    keys ['-'] ++ [0, 0, 0] ++ keys ['+'] ++ List.replicate 49 0

theorem length_kbdUs : kbdUs.length = 128 := by simp [kbdUs, keys]

/-- `kbd_us[scancode]`. -/
def keyChar (scancode : UInt8) : UInt8 := kbdUs.getD scancode.toNat 0

/-- Only the 128 scancodes of a key press are in the table. -/
theorem keyChar_eq_zero {scancode : UInt8} (h : ¬ scancode < 128) : keyChar scancode = 0 := by
  have hlen : kbdUs.length ≤ scancode.toNat := by
    rw [length_kbdUs]
    exact not_lt.1 fun hlt => h (UInt8.lt_iff_toNat_lt.2 hlt)
  unfold keyChar
  rw [List.getD_eq_getElem?_getD, List.getElem?_eq_none hlen, Option.getD_none]

example : [57, 74, 78].map keyChar = [32, 45, 43] := by rfl

structure Keyboard where
  keyboardBuffer : ℕ → UInt8
  keyboardHead : UInt32
  keyboardTail : UInt32

/-- The slot behind slot `i`, on the 32 bits of the indices. -/
def nextIndex (i : UInt32) : UInt32 := (i + 1) % BUFFER_SIZE

def isFull (k : Keyboard) : Bool := nextIndex k.keyboardHead == k.keyboardTail

def enqueueKey (k : Keyboard) (c : UInt8) : Keyboard :=
  if isFull k then k
  else
    { k with
      keyboardBuffer := Function.update k.keyboardBuffer k.keyboardHead.toNat c
      keyboardHead := nextIndex k.keyboardHead }

def handleKeyboardInput (k : Keyboard) (scancode : UInt8) : Keyboard :=
  if scancode &&& 0x80 ≠ 0 then k
  else if scancode < 128 then
    let c := keyChar scancode
    if c ≠ 0 then enqueueKey k c else k
  else k

def bufferHasChar (k : Keyboard) : Bool := k.keyboardHead != k.keyboardTail

/-- The character that a scancode stands for; none for a release and for a key without one. -/
def typed (scancode : UInt8) : Option UInt8 :=
  if scancode &&& 0x80 = 0 ∧ keyChar scancode ≠ 0 then some (keyChar scancode) else none

/-! ### The reader -/

/-- The local variables of a `stdin_read`; `cbuf` is what it has stored. -/
structure Call where
  count : UInt32
  bytesRead : UInt32
  cbuf : List UInt8

/-- A `stdin_read` that has returned, with the ring as it was then. -/
structure Returned extends Call where
  value : Int32
  ring : Keyboard

inductive Reader where
  | idle
  | loop (f : Call)                       -- before `buffer_has_char()`
  | dequeue (f : Call)                    -- before the test of `dequeue_key`
  | readSlot (f : Call)                   -- before `char c = keyboard_buffer[keyboard_tail]`
  | updateTail (f : Call) (c : UInt8)     -- before `keyboard_tail = (keyboard_tail + 1) % 128`

def Call.return (f : Call) (k : Keyboard) : Returned :=
  { f with value := f.bytesRead.toInt32, ring := k }

/-- From `char c = dequeue_key()` on: back to the loop, or out of it. -/
def Call.store (f : Call) (k : Keyboard) (c : UInt8) : Reader × Option Returned :=
  if c = 0 then (.idle, some (f.return k))
  else (.loop { f with bytesRead := f.bytesRead + 1, cbuf := f.cbuf ++ [c] }, none)

def Reader.step (k : Keyboard) : Reader → Keyboard × Reader × Option Returned
  | .idle => (k, .idle, none)
  | .loop f =>
      if f.bytesRead < f.count ∧ bufferHasChar k then (k, .dequeue f, none)
      else (k, .idle, some (f.return k))
  | .dequeue f =>
      if k.keyboardTail == k.keyboardHead then (k, f.store k 0)
      else (k, .readSlot f, none)
  | .readSlot f => (k, .updateTail f (k.keyboardBuffer k.keyboardTail.toNat), none)
  | .updateTail f c =>
      let k' := { k with keyboardTail := nextIndex k.keyboardTail }
      (k', f.store k' c)

/-- The keyboard, its reader, the calls that have returned and, as history, the characters that
the ring has accepted. -/
structure System where
  keyboard : Keyboard
  reader : Reader
  returned : List Returned
  accepted : List UInt8

inductive Event where
  | interrupt (scancode : UInt8)
  | call (count : UInt32)
  | step

/-- The ring takes this character now. -/
def accepts (k : Keyboard) (scancode : UInt8) : List UInt8 :=
  if isFull k then [] else (typed scancode).toList

/-- One event. The reader calls again only when its last call has returned. -/
def System.next (s : System) : Event → System
  | .interrupt scancode =>
      { s with
        keyboard := handleKeyboardInput s.keyboard scancode
        accepted := s.accepted ++ accepts s.keyboard scancode }
  | .call count =>
      match s.reader with
      | .idle => { s with reader := .loop ⟨count, 0, []⟩ }
      | _ => s
  | .step =>
      let r := s.reader.step s.keyboard
      { s with keyboard := r.1, reader := r.2.1, returned := s.returned ++ r.2.2.toList }

/-- The state at boot: the static variables are zero. -/
def boot : System := ⟨⟨fun _ => 0, 0, 0⟩, .idle, [], []⟩

def run (events : List Event) : System := events.foldl System.next boot

def Reader.cbuf : Reader → List UInt8
  | .idle => []
  | .loop f | .dequeue f | .readSlot f | .updateTail f _ => f.cbuf

/-- All bytes stored for the callers, those of the present call included. -/
def System.delivered (s : System) : List UInt8 :=
  (s.returned.map fun r => r.cbuf).flatten ++ s.reader.cbuf

def Keyboard.toBuffer (k : Keyboard) : RingBuffers.Buffer UInt8 :=
  ⟨k.keyboardBuffer, k.keyboardHead.toNat, k.keyboardTail.toNat⟩

/-- The characters in the ring. -/
def Keyboard.pending (k : Keyboard) : List UInt8 := RingBuffers.pending 128 k.toBuffer

/-! ### The ring -/

theorem toNat_nextIndex (i : UInt32) : (nextIndex i).toNat = RingBuffers.next 128 i.toNat := by
  unfold nextIndex BUFFER_SIZE RingBuffers.next
  rw [UInt32.toNat_mod, UInt32.toNat_add]
  change (i.toNat + 1) % 2 ^ 32 % 128 = (i.toNat + 1) % 128
  omega

abbrev Keyboard.Ok (k : Keyboard) : Prop := RingBuffers.Ok 128 k.toBuffer

theorem toBuffer_enqueueKey {k : Keyboard} {c : UInt8} (hroom : ¬ isFull k) :
    (enqueueKey k c).toBuffer = RingBuffers.put 128 k.toBuffer c := by
  unfold enqueueKey
  rw [if_neg hroom]
  unfold RingBuffers.put Keyboard.toBuffer
  simp only [toNat_nextIndex]

section ok
variable {k : Keyboard} (h : k.Ok)
include h

theorem isFull_iff : isFull k = true ↔ k.pending.length = 127 := by
  have hfull := RingBuffers.full_iff h
  unfold isFull Keyboard.pending
  rw [beq_iff_eq, ← UInt32.toNat_inj, toNat_nextIndex, RingBuffers.length_pending]
  change RingBuffers.next 128 k.toBuffer.head = k.toBuffer.tail ↔ _
  rw [hfull]
  omega

theorem bufferHasChar_iff : bufferHasChar k = true ↔ k.pending ≠ [] := by
  unfold bufferHasChar Keyboard.pending
  rw [bne_iff_ne, not_iff_not, RingBuffers.pending_eq_nil_iff h]
  exact UInt32.toNat_inj.symm

/-- What an interrupt does to the ring: the character is taken, or there is no room for it. -/
theorem handleKeyboardInput_spec (scancode : UInt8) :
    (handleKeyboardInput k scancode).Ok ∧
      (handleKeyboardInput k scancode).pending = k.pending ++ accepts k scancode := by
  have hkey : handleKeyboardInput k scancode =
      match typed scancode with
      | none => k
      | some c => enqueueKey k c := by
    unfold handleKeyboardInput typed
    by_cases hbit : scancode &&& 0x80 = 0
    · by_cases hlt : scancode < 128
      · by_cases hc : keyChar scancode = 0 <;> simp [hbit, hlt, hc]
      · simp [hbit, hlt, keyChar_eq_zero hlt]
    · simp [hbit]
  rw [hkey]
  unfold accepts
  cases typed scancode with
  | none => simp [h]
  | some c =>
      by_cases hfull : isFull k = true
      · have hsame : enqueueKey k c = k := by simp [enqueueKey, hfull]
        simp [hsame, hfull, h]
      · have hroom : RingBuffers.next 128 k.toBuffer.head ≠ k.toBuffer.tail := by
          rw [Ne, RingBuffers.full_iff h]
          intro hlen
          apply hfull
          rw [isFull_iff h]
          unfold Keyboard.pending
          rw [RingBuffers.length_pending]
          omega
        have hput := toBuffer_enqueueKey (c := c) hfull
        simp only [Keyboard.Ok, Keyboard.pending, hput, if_neg hfull]
        exact ⟨h.put c, RingBuffers.pending_put h hroom c⟩

/-- The tail moves on: the first character is given up. -/
theorem updateTail_spec (hne : k.pending ≠ []) :
    ({ k with keyboardTail := nextIndex k.keyboardTail } : Keyboard).Ok ∧
      k.pending = k.keyboardBuffer k.keyboardTail.toNat ::
        ({ k with keyboardTail := nextIndex k.keyboardTail } : Keyboard).pending := by
  have hdrop : ({ k with keyboardTail := nextIndex k.keyboardTail } : Keyboard).toBuffer =
      RingBuffers.drop 128 k.toBuffer := by
    unfold RingBuffers.drop Keyboard.toBuffer
    simp only [toNat_nextIndex]
  have hidx : k.toBuffer.head ≠ k.toBuffer.tail :=
    fun heq => hne ((RingBuffers.pending_eq_nil_iff h).2 heq)
  simp only [Keyboard.Ok, Keyboard.pending, hdrop]
  exact ⟨h.drop, RingBuffers.pending_drop h hidx⟩

end ok

/-! ### The reader's invariant -/

/-- `bytes_read` counts the bytes in `cbuf`. -/
def Call.Counts (f : Call) : Prop := f.bytesRead.toNat = f.cbuf.length

/-- Where the reader stands, against the characters in the ring: behind the loop's test there is
room for one more and a character for it, behind the slot's reading it is that character. -/
def Reader.Ok (pending : List UInt8) : Reader → Prop
  | .idle => True
  | .loop f => f.Counts ∧ f.cbuf.length ≤ f.count.toNat
  | .dequeue f | .readSlot f => f.Counts ∧ f.cbuf.length < f.count.toNat ∧ pending ≠ []
  | .updateTail f c => f.Counts ∧ f.cbuf.length < f.count.toNat ∧ pending.head? = some c

/-- At most `count` bytes, and fewer only if there were no more. -/
structure Returned.Ok (r : Returned) : Prop where
  value : r.value = r.cbuf.length.toUInt32.toInt32
  le : r.cbuf.length ≤ r.count.toNat
  empty : r.cbuf.length < r.count.toNat → r.ring.pending = []

/-- An interrupt does not disturb the reader. -/
theorem Reader.Ok.append {r : Reader} {l : List UInt8} (h : r.Ok l) (l' : List UInt8) :
    r.Ok (l ++ l') := by
  cases r with
  | idle => trivial
  | loop f => exact h
  | dequeue f | readSlot f => exact ⟨h.1, h.2.1, by simp [h.2.2]⟩
  | updateTail f c => exact ⟨h.1, h.2.1, by simp [List.head?_append, h.2.2]⟩

theorem Call.Counts.return {f : Call} (h : f.Counts) (k : Keyboard) :
    (f.return k).value = f.cbuf.length.toUInt32.toInt32 := by
  unfold Call.return
  rw [← h]
  simp

/-- A character that is not zero is stored, and the loop goes on. -/
theorem Call.Counts.store {f : Call} (h : f.Counts) (hlt : f.cbuf.length < f.count.toNat)
    (k : Keyboard) {c : UInt8} (hc : c ≠ 0) :
    ∃ g : Call, f.store k c = (.loop g, none) ∧ g.cbuf = f.cbuf ++ [c] ∧ g.Counts ∧
      g.cbuf.length ≤ g.count.toNat := by
  refine ⟨{ f with bytesRead := f.bytesRead + 1, cbuf := f.cbuf ++ [c] }, if_neg hc, rfl, ?_, ?_⟩
  · have hcount := f.count.toNat_lt
    have hone : (1 : UInt32).toNat = 1 := rfl
    unfold Call.Counts at *
    simp only [List.length_append, List.length_singleton]
    rw [UInt32.toNat_add, hone, h, Nat.mod_eq_of_lt (by omega)]
  · simp only [List.length_append, List.length_singleton]
    omega

/-- What one step of the reader does, where its place and the ring fit together. -/
structure Reader.Stepped (k : Keyboard) (r : Reader) (k' : Keyboard) (r' : Reader)
    (out : Option Returned) : Prop where
  ring : k'.Ok
  reader : r'.Ok k'.pending
  returned : ∀ f ∈ out, f.Ok
  bytes : r.cbuf ++ k.pending = (out.toList.map fun f => f.cbuf).flatten ++ r'.cbuf ++ k'.pending

theorem Reader.step_spec {k : Keyboard} {r : Reader} (hk : k.Ok) (hzero : 0 ∉ k.pending)
    (hr : r.Ok k.pending) :
    Reader.Stepped k r (r.step k).1 (r.step k).2.1 (r.step k).2.2 := by
  cases r with
  | idle => exact ⟨hk, trivial, by simp [Reader.step], by simp [Reader.step, Reader.cbuf]⟩
  | loop f =>
      obtain ⟨hcounts, hle⟩ := hr
      have hlt : f.bytesRead < f.count ↔ f.cbuf.length < f.count.toNat := by
        rw [UInt32.lt_iff_toNat_lt, hcounts]
      have hchar := bufferHasChar_iff hk
      by_cases hgo : f.bytesRead < f.count ∧ bufferHasChar k
      · simp only [Reader.step, if_pos hgo]
        exact ⟨hk, ⟨hcounts, hlt.1 hgo.1, hchar.1 hgo.2⟩, by simp, by simp [Reader.cbuf]⟩
      · simp only [Reader.step, if_neg hgo]
        refine ⟨hk, trivial, ?_, by simp [Reader.cbuf, Call.return]⟩
        rintro _ ⟨⟩
        refine ⟨hcounts.return k, hle, fun hless => ?_⟩
        -- there was room, so that the test found the ring empty
        by_contra hne
        exact hgo ⟨hlt.2 hless, hchar.2 hne⟩
  | dequeue f =>
      have hne : ¬ (k.keyboardTail == k.keyboardHead) = true := by
        have hchar := (bufferHasChar_iff hk).2 hr.2.2
        unfold bufferHasChar at hchar
        rw [bne_iff_ne] at hchar
        rw [beq_iff_eq]
        exact fun heq => hchar heq.symm
      simp only [Reader.step, if_neg hne]
      exact ⟨hk, hr, by simp, by simp [Reader.cbuf]⟩
  | readSlot f =>
      obtain ⟨hcounts, hlt, hne⟩ := hr
      have hhead := (updateTail_spec hk hne).2
      refine ⟨hk, ⟨hcounts, hlt, ?_⟩, by simp [Reader.step], by simp [Reader.step, Reader.cbuf]⟩
      change k.pending.head? = _
      rw [hhead, List.head?_cons]
  | updateTail f c =>
      obtain ⟨hcounts, hlt, hhead⟩ := hr
      have hne : k.pending ≠ [] := by
        intro hnil
        simp [hnil] at hhead
      obtain ⟨hring, hcons⟩ := updateTail_spec hk hne
      rw [hcons, List.head?_cons, Option.some_inj] at hhead
      have hc : c ≠ 0 := by
        rintro rfl
        apply hzero
        rw [hcons, hhead]
        exact List.mem_cons_self
      obtain ⟨g, hstore, hcbuf, hg⟩ := hcounts.store hlt
        { k with keyboardTail := nextIndex k.keyboardTail } hc
      simp only [Reader.step, hstore]
      refine ⟨hring, hg, by simp, ?_⟩
      rw [hcons, hhead]
      simp [Reader.cbuf, hcbuf]

/-! ### Runs -/

structure System.Ok (s : System) : Prop where
  ring : s.keyboard.Ok
  nonzero : 0 ∉ s.accepted
  reader : s.reader.Ok s.keyboard.pending
  returned : ∀ f ∈ s.returned, f.Ok
  fifo : s.delivered ++ s.keyboard.pending = s.accepted

theorem ok_boot : boot.Ok where
  ring := ⟨by decide, by decide⟩
  nonzero := by simp [boot]
  reader := trivial
  returned := by simp [boot]
  fifo := by rfl

theorem zero_not_mem_accepts (k : Keyboard) (scancode : UInt8) : 0 ∉ accepts k scancode := by
  unfold accepts typed
  split_ifs with hfull hkey
  · simp
  · simpa using hkey.2.symm
  · simp

theorem ok_next {s : System} (h : s.Ok) (e : Event) : (s.next e).Ok := by
  cases e with
  | interrupt scancode =>
      obtain ⟨hring, hpending⟩ := handleKeyboardInput_spec h.ring scancode
      refine ⟨hring, ?_, ?_, h.returned, ?_⟩
      · change 0 ∉ s.accepted ++ _
        simp [h.nonzero, zero_not_mem_accepts]
      · change s.reader.Ok (handleKeyboardInput s.keyboard scancode).pending
        rw [hpending]
        exact h.reader.append _
      · change s.delivered ++ (handleKeyboardInput s.keyboard scancode).pending = s.accepted ++ _
        rw [hpending, ← List.append_assoc, h.fifo]
  | call count =>
      unfold System.next
      cases hreader : s.reader with
      | idle =>
          have hfifo := h.fifo
          rw [System.delivered, hreader] at hfifo
          refine ⟨h.ring, h.nonzero, ⟨rfl, by simp⟩, h.returned, hfifo⟩
      | loop f | dequeue f | readSlot f | updateTail f c => exact h
  | step =>
      have hzero : 0 ∉ s.keyboard.pending := by
        intro hmem
        apply h.nonzero
        rw [← h.fifo]
        exact List.mem_append_right _ hmem
      have hstep := Reader.step_spec h.ring hzero h.reader
      refine ⟨hstep.ring, h.nonzero, hstep.reader, ?_, ?_⟩
      · intro f hf
        rcases List.mem_append.1 hf with hf | hf
        · exact h.returned f hf
        · exact hstep.returned f (Option.mem_toList.1 hf)
      · have hfifo := h.fifo
        unfold System.delivered at *
        rw [List.append_assoc, hstep.bytes] at hfifo
        simpa [System.next] using hfifo

theorem ok_run (events : List Event) : (run events).Ok := by
  have hall : ∀ (l : List Event) (s : System), s.Ok → (l.foldl System.next s).Ok := by
    intro l
    induction l with
    | nil => exact fun s hs => hs
    | cons e l ih => exact fun s hs => ih _ (ok_next hs e)
  exact hall events boot ok_boot

/-- Whatever the order of interrupts, calls and steps of the reader: the bytes delivered and then
the characters in the ring are the accepted ones in their order of arrival, a character is turned
away only where 127 are in the ring, and a call gets at most `count` bytes, fewer only if it
found the ring empty. -/
theorem run_fifo (events : List Event) :
    (run events).delivered ++ (run events).keyboard.pending = (run events).accepted ∧
      (∀ scancode c, typed scancode = some c →
        (run (events ++ [.interrupt scancode])).accepted = (run events).accepted ++ [c] ∨
          (run (events ++ [.interrupt scancode])).accepted = (run events).accepted ∧
            (run events).keyboard.pending.length = 127) ∧
      ∀ f ∈ (run events).returned, f.value = f.cbuf.length.toUInt32.toInt32 ∧
        f.cbuf.length ≤ f.count.toNat ∧
        (f.cbuf.length < f.count.toNat → f.ring.pending = []) := by
  have hok := ok_run events
  refine ⟨hok.fifo, ?_, fun f hf => ?_⟩
  · intro scancode c htyped
    have haccepted : (run (events ++ [.interrupt scancode])).accepted =
        (run events).accepted ++ accepts (run events).keyboard scancode := by
      simp [run, System.next]
    rw [haccepted]
    unfold accepts
    by_cases hfull : isFull (run events).keyboard
    · right
      rw [if_pos hfull, List.append_nil]
      exact ⟨rfl, (isFull_iff hok.ring).1 hfull⟩
    · left
      rw [if_neg hfull, htyped, Option.toList_some]
  · have hf := hok.returned f hf
    exact ⟨hf.value, hf.le, hf.empty⟩

end NosmeriOs.Input
