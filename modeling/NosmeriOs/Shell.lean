import NosmeriOs.Atoi
import NosmeriOs.TaskRing

/-! # The shell (`shell/shell.cpp`, `task_dump`)

* `shellHandleKey`: the line that is typed.
* `executeCommand`: which handler is called, and with what.  `cmdKill` and `cmdPs` are modelled.
* `taskDump`: what `ps` prints.
* `unsigned_readsBack`: numbers are read back as they were printed, and so a PID is. -/

namespace NosmeriOs.Shell

open Bytes Text Tasks Numerals

def ascii (s : String) : List UInt8 := s.toList.map fun c => c.toNat.toUInt8

inductive Output where
  | sysWrite (fd : ℤ) (buf : List UInt8)
  | printString (str : List UInt8)
deriving DecidableEq

def shellPrint (str : List UInt8) : Output := .sysWrite 1 str
def shellPrintChar (c : UInt8) : Output := .sysWrite 1 [c]
def shellError (str : List UInt8) : Output := .sysWrite 2 str

/-! ### Commands -/

/-- The handlers `cmd_help`, `cmd_clear`, … -/
inductive Command where
  | help | clear | sysinfo | meminfo | alloc | test | fault | heap | ps | kill
  | touch | mkdir | cd | ls | pwd | write | cat | exec
deriving DecidableEq

/-- The dispatch table, without the descriptions. -/
def commands : List (List UInt8 × Command) :=
  [(ascii "help", .help), (ascii "clear", .clear), (ascii "sysinfo", .sysinfo),
    (ascii "meminfo", .meminfo), (ascii "alloc", .alloc), (ascii "test", .test),
    (ascii "fault", .fault), (ascii "heap", .heap), (ascii "ps", .ps), (ascii "kill", .kill),
    (ascii "touch", .touch), (ascii "mkdir", .mkdir), (ascii "cd", .cd), (ascii "ls", .ls),
    (ascii "pwd", .pwd), (ascii "write", .write), (ascii "cat", .cat), (ascii "exec", .exec)]

/-- `while (*arg == ' ') arg++`. -/
def skipSpaces (arg : CStr) : CStr :=
  ⟨arg.bytes.dropWhile (· = 32), fun h => arg.noNul ((List.dropWhile_sublist _).subset h)⟩

/-- `cmd_name`, in its 32 bytes. -/
def cmdName (cmd : CStr) : CStr :=
  ⟨(cmd.bytes.takeWhile (· ≠ 32)).take 31, fun h =>
    cmd.noNul ((List.takeWhile_sublist _).subset (List.mem_of_mem_take h))⟩

/-- The string from an index on. -/
def tailFrom (cmd : CStr) (i : ℕ) : CStr :=
  ⟨cmd.bytes.drop i, fun h => cmd.noNul (List.mem_of_mem_drop h)⟩

@[simp] theorem bytes_skipSpaces (arg : CStr) :
    (skipSpaces arg).bytes = arg.bytes.dropWhile (· = 32) := rfl

@[simp] theorem bytes_cmdName (cmd : CStr) :
    (cmdName cmd).bytes = (cmd.bytes.takeWhile (· ≠ 32)).take 31 := rfl

@[simp] theorem bytes_tailFrom (cmd : CStr) (i : ℕ) : (tailFrom cmd i).bytes = cmd.bytes.drop i :=
  rfl

/-- What `execute_command` does next. -/
inductive Dispatch where
  | nothing
  | handler (command : Command) (arg : CStr)
  | unknown (output : List Output)
deriving DecidableEq

def executeCommand (cmd : CStr) : Dispatch :=
  let cmd := skipSpaces cmd
  if cmd.bytes = [] then .nothing
  else
    let name := cmdName cmd
    let arg := skipSpaces (tailFrom cmd name.strlen)
    match commands.find? (·.1 = name.bytes) with
    | some (_, command) => .handler command arg
    | none => .unknown [shellError (ascii "Unknown command: "), shellError name.bytes,
        shellPrint (ascii "\nType 'help' for available commands.\n")]

/-- What `cmd_kill` prints for what `kill_task` returns. -/
def killMessage (result : ℤ) : List UInt8 :=
  if result ≠ -1 then ascii "Task killed successfully.\n"
  else ascii "Failed to kill task (invalid PID or kernel task).\n"

def cmdKill (arg : CStr) (k : Kernel) : List Output × Kernel :=
  let arg := skipSpaces arg
  if arg.bytes = [] then ([shellPrint (ascii "Usage: kill <pid>\n")], k)
  else
    let pid := atoi arg
    let (result, k) := k.killTask pid.toUInt32
    ([shellPrint (killMessage result)], k)

/-! ### `task_dump` -/

def stateName : TaskState → List UInt8
  | .running => ascii "RUNNING   "
  | .ready => ascii "READY     "
  | .sleeping => ascii "SLEEPING  "
  | .dead => ascii "DEAD      "

/-- The line for a task; `esp` is its saved stack pointer, and `buf` the 32 bytes that `itoa`
writes to. -/
def taskRow (buf : Str) (esp : UInt32) (t : Task) : Option (List UInt8 × Str) := do
  let buf ← itoaUnsigned t.id buf 10
  let id := CStr.ofMem 32 buf
  let mode := if t.isUser then ascii "USER    " else ascii "KERNEL  "
  let buf ← itoaUnsigned esp buf 16
  let stack := CStr.ofMem 32 buf
  let buf ← itoaUnsigned (UInt32.ofNat t.kernelStackBottom) buf 16
  let bottom := CStr.ofMem 32 buf
  some (ascii " " ++ id.bytes ++ ascii "     " ++ mode ++ stateName t.state ++ ascii "0x" ++
    stack.bytes ++ ascii "  " ++ ascii "0x" ++ bottom.bytes ++ ascii "\n", buf)

/-- The loop of `task_dump`; `none` if it does not end. -/
def dumpLoop (esp : ℕ → UInt32) (k : Kernel) : ℕ → ℕ → Str → Option (List UInt8)
  | 0, _, _ => none
  | fuel + 1, t, buf => do
      let (row, buf) ← taskRow buf (esp t) (k.tasks t)
      let t := (k.tasks t).next
      if t ≠ k.currentTask then
        let rows ← dumpLoop esp k fuel t buf
        some (row ++ rows)
      else some row

def taskDump (esp : ℕ → UInt32) (k : Kernel) (buf : Str) : Option (List UInt8) :=
  if k.currentTask = 0 then some []
  else do
    let rows ← dumpLoop esp k k.alive.length k.currentTask buf
    some (ascii "PID   MODE    STATE     ESP         STACK_ADDR\n" ++
      ascii "----------------------------------------------------\n" ++ rows)

def cmdPs (esp : ℕ → UInt32) (k : Kernel) (buf : Str) : Option (List Output) := do
  let str ← taskDump esp k buf
  some [.printString str]

/-! ### The line -/

structure Line where
  inputBuffer : ℕ → UInt8
  inputBufferLen : ℕ

/-- A key: what it prints, and the command that it completes. -/
def shellHandleKey (s : Line) (c : UInt8) : Line × List Output × Option CStr :=
  if c = 10 then
    let inputBuffer := Function.update s.inputBuffer s.inputBufferLen 0
    (⟨inputBuffer, 0⟩, [shellPrintChar 10], some (CStr.ofMem 256 inputBuffer))
  else if c = 8 then
    if 0 < s.inputBufferLen then
      ({ s with inputBufferLen := s.inputBufferLen - 1 }, [shellPrintChar 8], none)
    else (s, [], none)
  else if s.inputBufferLen < 255 then
    (⟨Function.update s.inputBuffer s.inputBufferLen c, s.inputBufferLen + 1⟩, [shellPrintChar c],
      none)
  else (s, [], none)

/-- The line after some keys, and the commands completed. -/
def typeKeys (s : Line) : List UInt8 → Line × List CStr
  | [] => (s, [])
  | c :: cs =>
      let (s, _, cmd) := shellHandleKey s c
      let (s, cmds) := typeKeys s cs
      (s, cmd.toList ++ cmds)

/-! ### Typing -/

/-- What a key other than Enter makes of the text of the line. -/
def edit (l : List UInt8) (c : UInt8) : List UInt8 :=
  if c = 8 then l.dropLast
  else if l.length < 255 then l ++ [c]
  else l

/-- The text of the line. -/
structure Line.Has (s : Line) (l : List UInt8) : Prop where
  len : s.inputBufferLen = l.length
  le : l.length ≤ 255
  chars : ∀ i < l.length, s.inputBuffer i = l.getD i 0

variable {s : Line} {l cs : List UInt8} {c : UInt8}

theorem Line.has_nil (h : s.inputBufferLen = 0) : s.Has [] :=
  ⟨h, by decide, fun i hi => absurd hi (Nat.not_lt_zero i)⟩

theorem Line.Has.edit (h : s.Has l) (hc : c ≠ 10) :
    (shellHandleKey s c).1.Has (edit l c) ∧ (shellHandleKey s c).2.2 = none := by
  have hlen := h.len
  have hle := h.le
  unfold shellHandleKey Shell.edit
  rw [if_neg hc]
  by_cases h8 : c = 8
  · rw [if_pos h8, if_pos h8]
    split_ifs with h0
    · refine ⟨⟨?_, ?_, fun i hi => ?_⟩, rfl⟩
      · rw [List.length_dropLast, ← hlen]
      · rw [List.length_dropLast]
        omega
      · rw [List.length_dropLast] at hi
        rw [List.dropLast_eq_take, List.getD_eq_getElem?_getD, List.getElem?_take_of_lt hi,
          ← List.getD_eq_getElem?_getD]
        exact h.chars i (by omega)
    · have hl : l = [] := List.length_eq_zero_iff.1 (by omega)
      rw [hl] at h ⊢
      exact ⟨h, rfl⟩
  · rw [if_neg h8, if_neg h8, hlen]
    split_ifs with hlt
    · refine ⟨⟨?_, ?_, fun i hi => ?_⟩, rfl⟩
      · rw [List.length_append, List.length_singleton]
      · rw [List.length_append, List.length_singleton]
        omega
      · rw [List.length_append, List.length_singleton] at hi
        dsimp only
        obtain hi' | rfl := Nat.lt_succ_iff_lt_or_eq.1 hi
        · rw [Function.update_of_ne (by omega), List.getD_append _ _ _ _ hi']
          exact h.chars i hi'
        · rw [Function.update_self, List.getD_append_right _ _ _ _ le_rfl, Nat.sub_self]
          rfl
    · exact ⟨h, rfl⟩

theorem typeKeys_cons (s : Line) (c : UInt8) (cs : List UInt8) : typeKeys s (c :: cs) =
    ((typeKeys (shellHandleKey s c).1 cs).1,
      (shellHandleKey s c).2.2.toList ++ (typeKeys (shellHandleKey s c).1 cs).2) := rfl

/-- A line is edited as its text is. -/
theorem Line.Has.typeKeys (h : s.Has l) (hcs : 10 ∉ cs) :
    (typeKeys s cs).1.Has (cs.foldl Shell.edit l) ∧ (typeKeys s cs).2 = [] := by
  induction cs generalizing s l with
  | nil => exact ⟨h, rfl⟩
  | cons c cs ih =>
      rw [List.mem_cons, not_or] at hcs
      obtain ⟨hedit, hnone⟩ := h.edit (Ne.symm hcs.1)
      obtain ⟨hhas, hcmds⟩ := ih hedit hcs.2
      refine ⟨hhas, ?_⟩
      rw [typeKeys_cons, hnone, hcmds]
      rfl

/-- Enter hands the text over and starts an empty line. -/
theorem Line.Has.enter (h : s.Has l) (h0 : 0 ∉ l) :
    (shellHandleKey s 10).1.Has [] ∧ (shellHandleKey s 10).2.2 = some ⟨l, h0⟩ := by
  refine ⟨Line.has_nil rfl, ?_⟩
  have hholds : CStr.Holds (Function.update s.inputBuffer s.inputBufferLen 0) ⟨l, h0⟩ := by
    intro i hi
    obtain hi | rfl := Nat.lt_or_eq_of_le hi
    · rw [Function.update_of_ne (by rw [h.len]; exact hi.ne)]
      exact h.chars i hi
    · rw [CStr.byteAt_strlen, h.len]
      exact Function.update_self ..
  have hlt : (⟨l, h0⟩ : CStr).strlen < 256 := Nat.lt_succ_of_le h.le
  exact congrArg some (CStr.ofMem_of_holds hholds hlt)

theorem typeKeys_append (s : Line) (cs ds : List UInt8) :
    typeKeys s (cs ++ ds) =
      ((typeKeys (typeKeys s cs).1 ds).1, (typeKeys s cs).2 ++ (typeKeys (typeKeys s cs).1 ds).2) := by
  induction cs generalizing s with
  | nil => rfl
  | cons c cs ih => rw [List.cons_append, typeKeys_cons, ih, typeKeys_cons, List.append_assoc]

theorem typeKeys_line (h : s.inputBufferLen = 0) (hcs : 10 ∉ cs) (h0 : 0 ∉ cs.foldl edit []) :
    (typeKeys s (cs ++ [10])).2 = [⟨cs.foldl edit [], h0⟩] := by
  obtain ⟨hhas, hnone⟩ := (Line.has_nil h).typeKeys hcs
  rw [typeKeys_append, hnone, typeKeys_cons, (hhas.enter h0).2]
  rfl

/-- Without a backspace and within the buffer. -/
theorem foldl_edit (h8 : 8 ∉ cs) (h : l.length + cs.length ≤ 255) : cs.foldl edit l = l ++ cs := by
  induction cs generalizing l with
  | nil => rw [List.foldl_nil, List.append_nil]
  | cons c cs ih =>
      rw [List.mem_cons, not_or] at h8
      rw [List.length_cons] at h
      have hedit : edit l c = l ++ [c] := by
        unfold edit
        rw [if_neg (Ne.symm h8.1), if_pos (by omega)]
      rw [List.foldl_cons, hedit, ih h8.2 (by rw [List.length_append, List.length_singleton]; omega),
        List.append_assoc, List.singleton_append]

/-! ### `kill` -/

theorem skipSpaces_of_isDecimal {text : CStr} (h : IsDecimal text.bytes) :
    skipSpaces text = text := by
  apply CStr.ext
  rw [bytes_skipSpaces]
  cases hb : text.bytes with
  | nil => rfl
  | cons c l =>
      have hc := h c (hb ▸ List.mem_cons_self)
      have hne : c ≠ 32 := fun e => absurd (e ▸ hc.1) (by decide)
      rw [List.dropWhile_cons_of_neg (by simpa using hne)]

theorem executeCommand_kill {cmd text : CStr} (h : IsDecimal text.bytes)
    (hcmd : cmd.bytes = ascii "kill " ++ text.bytes) :
    executeCommand cmd = .handler .kill text := by
  have hskip : skipSpaces cmd = cmd := by
    apply CStr.ext
    rw [bytes_skipSpaces, hcmd]
    rfl
  have hname : (cmdName cmd).bytes = ascii "kill" := by
    rw [bytes_cmdName, hcmd]
    rfl
  have harg : skipSpaces (tailFrom cmd (cmdName cmd).strlen) = text := by
    rw [CStr.strlen, hname, ← skipSpaces_of_isDecimal h]
    apply CStr.ext
    rw [bytes_skipSpaces, bytes_skipSpaces, bytes_tailFrom, hcmd]
    rfl
  have hne : cmd.bytes ≠ [] := by
    rw [hcmd]
    exact List.append_ne_nil_of_left_ne_nil (by decide) _
  have hfind : commands.find? (·.1 = ascii "kill") = some (ascii "kill", .kill) := by rfl
  unfold executeCommand
  rw [hskip, if_neg hne]
  dsimp only
  rw [hname, hfind, harg]

theorem cmdKill_of_isDecimal {text : CStr} (hne : text.bytes ≠ []) (h : IsDecimal text.bytes)
    (k : Kernel) : cmdKill text k =
      ([shellPrint (killMessage (k.killTask (atoi text).toUInt32).1)],
        (k.killTask (atoi text).toUInt32).2) := by
  unfold cmdKill
  rw [skipSpaces_of_isDecimal h, if_neg hne]

/-! ### `ps` -/

/-- The line of a task as text. -/
def rowText (esp : UInt32) (t : Task) : List UInt8 :=
  ascii " " ++ numeral 10 charOf t.id.toNat ++ ascii "     " ++
    ((if t.isUser then ascii "USER    " else ascii "KERNEL  ") ++ stateName t.state ++
      ascii "0x" ++ numeral 16 charOf esp.toNat ++ ascii "  " ++
      ascii "0x" ++ numeral 16 charOf (UInt32.ofNat t.kernelStackBottom).toNat ++ ascii "\n")

/-- A number fits into the 32 bytes, except in base 2. -/
theorem exists_itoaUnsigned (num : UInt32) (buf : Str) {base : ℕ} (hlo : 3 ≤ base)
    (hhi : base ≤ 36) : ∃ out, itoaUnsigned num buf (Int32.ofNat base) = some out ∧
      (CStr.ofMem 32 out).bytes = numeral base charOf num.toNat := by
  obtain ⟨out, hout, hwrites⟩ := itoaUnsigned_writes (show 2 ≤ base by omega) hhi num buf
  have hpow : 2 ^ 32 ≤ base ^ 31 := le_trans (by decide) (Nat.pow_le_pow_left hlo 31)
  have hlen : (numeral base charOf num.toNat).length ≤ 31 :=
    length_numeral_le (by omega) (by decide) (num.toNat_lt.trans_le hpow)
  have hmem := CStr.ofMem_of_holds hwrites.holds (Nat.lt_succ_of_le hlen)
  exact ⟨out, hout, congrArg CStr.bytes hmem⟩

theorem taskRow_eq (buf : Str) (esp : UInt32) (t : Task) :
    ∃ buf', taskRow buf esp t = some (rowText esp t, buf') := by
  obtain ⟨buf₁, h₁, hid⟩ := exists_itoaUnsigned t.id buf (show 3 ≤ 10 by decide) (by decide)
  obtain ⟨buf₂, h₂, hesp⟩ := exists_itoaUnsigned esp buf₁ (show 3 ≤ 16 by decide) (by decide)
  obtain ⟨buf₃, h₃, hbottom⟩ := exists_itoaUnsigned (UInt32.ofNat t.kernelStackBottom) buf₂
    (show 3 ≤ 16 by decide) (by decide)
  refine ⟨buf₃, ?_⟩
  unfold taskRow rowText
  rw [show (10 : Int32) = Int32.ofNat 10 from rfl, show (16 : Int32) = Int32.ofNat 16 from rfl, h₁]
  dsimp only [Option.bind_eq_bind, Option.bind_some]
  rw [h₂]
  dsimp only [Option.bind_some]
  rw [h₃]
  dsimp only [Option.bind_some]
  rw [hid, hesp, hbottom]
  simp only [List.append_assoc]

section dump
variable {img : Vmm.Image} {k : Kernel} {buffers l : List ℕ} (esp : ℕ → UInt32)

/-- The lines of some tasks. -/
def rowsText (k : Kernel) (ts : List ℕ) : List UInt8 :=
  ts.flatMap fun t => rowText (esp t) (k.tasks t)

theorem dumpLoop_of_path {fuel t : ℕ} (hp : Rings.Path k.nextOf t l k.currentTask)
    (hcur : k.currentTask ∉ l) (hfuel : l.length < fuel) (buf : Str) :
    dumpLoop esp k fuel t buf = some (rowsText esp k (t :: l)) := by
  obtain ⟨fuel, rfl⟩ : ∃ n, fuel = n + 1 := ⟨fuel - 1, by omega⟩
  induction l generalizing t fuel buf with
  | nil =>
      obtain ⟨buf', hrow⟩ := taskRow_eq buf (esp t) (k.tasks t)
      have hnext : (k.tasks t).next = k.currentTask := hp
      unfold dumpLoop
      rw [hrow]
      dsimp only [Option.bind_eq_bind, Option.bind_some]
      rw [if_neg (not_not_intro hnext)]
      exact congrArg some (List.append_nil _).symm
  | cons x l ih =>
      rw [List.mem_cons, not_or] at hcur
      obtain ⟨buf', hrow⟩ := taskRow_eq buf (esp t) (k.tasks t)
      obtain ⟨hnext, hp⟩ : (k.tasks t).next = x ∧ _ := hp
      obtain ⟨fuel, rfl⟩ : ∃ n, fuel = n + 1 := ⟨fuel - 1, by rw [List.length_cons] at hfuel; omega⟩
      unfold dumpLoop
      rw [hrow]
      dsimp only [Option.bind_eq_bind, Option.bind_some]
      rw [hnext, if_pos (Ne.symm hcur.1), ih hp hcur.2 buf' fuel (Nat.lt_of_succ_lt_succ hfuel)]
      rfl

/-- `ps` prints one line for each task alive, in the order of the list. -/
theorem taskDump_eq (h : Kernel.Consistent img k buffers l) (buf : Str) :
    taskDump esp k buf = some (ascii "PID   MODE    STATE     ESP         STACK_ADDR\n" ++
      ascii "----------------------------------------------------\n" ++
      rowsText esp k (k.currentTask :: l)) := by
  have hlen : l.length < k.alive.length := by
    rw [h.alive.length_eq, List.length_cons]
    omega
  have hrows := dumpLoop_of_path esp h.ring.path (List.nodup_cons.1 h.ring.nodup).1 hlen buf
  unfold taskDump
  rw [if_neg h.current_ne_zero, hrows]
  rfl

end dump

/-! ### Reading numbers back -/

/-- The text, typed after `kill`, names the task with the PID. -/
def NamesTask (text : CStr) (pid : UInt32) : Prop :=
  ∀ s : Line, s.inputBufferLen = 0 → ∃ cmd,
    (typeKeys s (ascii "kill " ++ text.bytes ++ [10])).2 = [cmd] ∧
    executeCommand cmd = .handler .kill text ∧
    ∀ k : Kernel, cmdKill text k =
      ([shellPrint (killMessage (k.killTask pid).1)], (k.killTask pid).2)

/-- The text of a PID. -/
def pidStr (pid : UInt32) : CStr := numeralStr two_le_ten ten_le_max pid.toNat

theorem atoi_pidStr (pid : UInt32) : (atoi (pidStr pid)).toUInt32 = pid := by
  unfold pidStr
  rw [atoi_numeralStr, Int32.toUInt32_ofNat', UInt32.ofNat_toNat]

/-- A decimal text that fits into the line is handed to `cmd_kill`. -/
theorem typeKeys_kill {text : CStr} (h : IsDecimal text.bytes) (hlen : text.strlen ≤ 250)
    {s : Line} (hs : s.inputBufferLen = 0) : ∃ cmd,
      (typeKeys s (ascii "kill " ++ text.bytes ++ [10])).2 = [cmd] ∧
      executeCommand cmd = .handler .kill text := by
  have hnot : ∀ c : UInt8, c ∉ ascii "kill " → ¬ (48 ≤ c ∧ c ≤ 57) →
      c ∉ ascii "kill " ++ text.bytes := fun c hc hd hmem =>
    (List.mem_append.1 hmem).elim hc fun ht => hd (h c ht)
  have hfits : (ascii "kill " ++ text.bytes).length ≤ 255 := by
    rw [List.length_append]
    exact Nat.add_le_add (show (ascii "kill ").length ≤ 5 by decide) hlen
  have hedit : (ascii "kill " ++ text.bytes).foldl edit [] = ascii "kill " ++ text.bytes :=
    foldl_edit (hnot 8 (by decide) (by decide)) (by rwa [List.length_nil, Nat.zero_add])
  have h0 : 0 ∉ (ascii "kill " ++ text.bytes).foldl edit [] := by
    rw [hedit]
    exact hnot 0 (by decide) (by decide)
  exact ⟨_, typeKeys_line hs (hnot 10 (by decide) (by decide)) h0, executeCommand_kill h hedit⟩

theorem namesTask_pidStr (pid : UInt32) : NamesTask (pidStr pid) pid := by
  intro s hs
  have hdecimal : IsDecimal (pidStr pid).bytes := isDecimal_numeral _
  have hlen : (pidStr pid).strlen ≤ 32 :=
    length_numeral_le (by decide) (by decide)
      (pid.toNat_lt.trans_le (show 2 ^ 32 ≤ 10 ^ 32 by decide))
  obtain ⟨cmd, htyped, hcmd⟩ := typeKeys_kill hdecimal (by omega) hs
  refine ⟨cmd, htyped, hcmd, fun k => ?_⟩
  rw [cmdKill_of_isDecimal (numeral_ne_nil _) hdecimal, atoi_pidStr]

/-- **Unsigned numbers are read back** as they were printed, and a PID that `ps` prints names its
task. -/
theorem unsigned_readsBack (num : UInt32) (str : Str) :
    (∀ base, 2 ≤ base → base ≤ 36 → ∃ out s, itoaUnsigned num str (Int32.ofNat base) = some out ∧
      Writes str out s ∧ Canonical base num.toNat s) ∧
    (∃ out s, itoaUnsigned num str 10 = some out ∧ Writes str out s ∧
      (atoi s).toUInt32 = num) ∧
    ∀ (esp : UInt32) (t : Task), t.id = num → ∃ text row buf,
      taskRow str esp t =
        some (ascii " " ++ text.bytes ++ ascii "     " ++ row, buf) ∧ NamesTask text num := by
  refine ⟨fun base hlo hhi => ?_, ?_, ?_⟩
  · obtain ⟨out, hout, hwrites⟩ := itoaUnsigned_writes hlo hhi num str
    exact ⟨out, _, hout, hwrites, canonical_numeralStr hlo hhi num.toNat⟩
  · obtain ⟨out, hout, hwrites⟩ := itoaUnsigned_writes (show 2 ≤ 10 by decide) (by decide) num str
    exact ⟨out, _, hout, hwrites, atoi_pidStr num⟩
  · rintro esp t rfl
    obtain ⟨buf, hrow⟩ := taskRow_eq str esp t
    exact ⟨pidStr t.id, _, buf, hrow, namesTask_pidStr t.id⟩

/-- The last PID of all, in base 36. -/
theorem unsigned_readsBack_max : ∃ out s,
    itoaUnsigned 0xFFFFFFFF (fun _ => 0) (Int32.ofNat 36) = some out ∧
      Writes (fun _ => 0) out s ∧ Canonical 36 (UInt32.toNat 0xFFFFFFFF) s :=
  (unsigned_readsBack 0xFFFFFFFF fun _ => 0).1 36 (by decide) (by decide)

end NosmeriOs.Shell
