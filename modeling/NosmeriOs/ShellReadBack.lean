import NosmeriOs.ShellRefine

/-! # What was written is printed (`shell/shell.cpp`)

`cat` prints what `write` put into a file, however much is typed in between, until a line writes to
that file again.

* `Talk.Key.kept`: what a key keeps of a file, on the tree.
* `State.Spares`: the keys complete no line that writes to a file.
* `run_readsBack`: the round trip, from every state of the shell. -/

namespace NosmeriOs.Shell

open Bytes SimpleFs Vfs DirTree

/-- `write path text`. -/
def writeLine (path text : CStr) : CStr :=
  ⟨ascii "write " ++ path.bytes ++ 32 :: text.bytes, by
    have hw : (0 : UInt8) ∉ ascii "write " := by decide
    simp only [List.mem_append, List.mem_cons, not_or]
    exact ⟨⟨hw, path.noNul⟩, by decide, text.noNul⟩⟩

/-- `cat path`. -/
def catLine (path : CStr) : CStr :=
  ⟨ascii "cat " ++ path.bytes, by
    have hc : (0 : UInt8) ∉ ascii "cat " := by decide
    simp only [List.mem_append, not_or]
    exact ⟨hc, path.noNul⟩⟩

/-- The key completes a line that writes to the inode. -/
def State.WritesTo (s : State) (c : UInt8) (inodeIdx : UInt32) : Prop :=
  ∃ cmd arg n, (shellHandleKey s.line c).2.2 = some cmd ∧
    executeCommand cmd = .handler .write arg ∧
    s.files.resolve (pathWord (skipSpaces arg)) = some (some n) ∧ n.inodeIdx = inodeIdx

def State.Spares (inodeIdx : UInt32) : State → List (Env × UInt8) → Prop
  | _, [] => True
  | s, (env, c) :: keys => ¬ s.WritesTo c inodeIdx ∧
      ∀ out s', s.handleKey env c = some (out, s') → s'.Spares inodeIdx keys

/-- A path from the root that `write` takes as one word. -/
structure IsWord (path : CStr) : Prop where
  absolute : path.bytes.head? = some 47
  noSpace : 32 ∉ path.bytes

/-- A text that `write` takes as a whole. -/
structure IsText (text : CStr) : Prop where
  ne_nil : text.bytes ≠ []
  head : text.bytes.head? ≠ some 32

/-- A write to the file under the path prints nothing, and `cat` prints the text until a line writes
to that file. -/
def ReadsBack (s : State) (path text : CStr) : Prop :=
  ∀ env n, s.files.resolve path = some (some n) → n.isDirectory = false →
    ∃ s₁, s.execute env (writeLine path text) = some ([], s₁) ∧
      ∀ keys out s₂, s₁.run keys = some (out, s₂) → s₁.Spares n.inodeIdx keys →
        ∀ env' buf, env'.block = some buf → s₂.execute env' (catLine path) =
          some ([shellPrint text.bytes, shellPrintChar 10], s₂)

/-! ### On the tree -/

/-- A line that writes to the file `k`. -/
def Talk.WritesTo (w : Talk) (c : UInt8) (k : ℕ) : Prop :=
  c = 10 ∧ ∃ arg, executeCommand (commandOf w.text) = .handler .write arg ∧
    w.desk.find (pathOf (pathWord (skipSpaces arg))) = some k

/-- The file `k` with its content, behind a path from the root. -/
structure HasFile (a : FsDesk) (p : Path CStr) (k : ℕ) (content : List UInt8) : Prop where
  find : a.find p = some k
  file : a.tree.IsFile k content

theorem Handles.cases {a a' : FsDesk} {m : Meaning} {out : List Output} (h : Handles a m out a') :
    (m = .prints out ∧ a' = a) ∨ ∃ cmd ans, m = .does cmd ∧ out = shown cmd ans ∧
      Does dot dotdot (limits 256) a cmd ans a' := by
  cases h with
  | prints => exact Or.inl ⟨rfl, rfl⟩
  | does h => exact Or.inr ⟨_, _, rfl, rfl, h⟩

theorem meaningOf_eq_does {usage : List UInt8} {f : CStr → Cmd CStr UInt8} {arg : CStr}
    {cmd : Cmd CStr UInt8} (h : meaningOf usage f arg = .does cmd) : cmd = f (skipSpaces arg) := by
  unfold meaningOf at h
  split_ifs at h
  cases h
  rfl

/-- Only the handler of `write` writes. -/
theorem meaning_eq_write {env : Env} {arg : CStr} {command : Command} {p : Path CStr}
    {content : List UInt8} (h : meaning env arg command = .does (.write p content)) :
    command = .write ∧ p = pathOf (pathWord (skipSpaces arg)) := by
  unfold meaning at h
  cases command with
  | touch => cases meaningOf_eq_does h
  | mkdir => cases meaningOf_eq_does h
  | cd => cases meaningOf_eq_does h
  | cat => cases meaningOf_eq_does h
  | write =>
      dsimp only at h
      split_ifs at h
      cases h
      exact ⟨rfl, rfl⟩
  | _ => cases h

theorem HasFile.handles {a a' : FsDesk} {p : Path CStr} {k : ℕ} {content : List UInt8}
    {env : Env} {arg : CStr} {command : Command} {out : List Output} (h : HasFile a p k content)
    (hp : p.absolute = true) (ha : a.Ok) (hh : Handles a (meaning env arg command) out a')
    (hw : command = .write → a.find (pathOf (pathWord (skipSpaces arg))) ≠ some k) :
    a'.Ok ∧ HasFile a' p k content := by
  rcases hh.cases with ⟨-, rfl⟩ | ⟨cmd, ans, hm, -, hd⟩
  · exact ⟨ha, h⟩
  · refine ⟨hd.ok ha, hd.find_kept ha hp h.find, hd.file_kept h.file ?_⟩
    rintro q c rfl
    obtain ⟨hcmd, rfl⟩ := meaning_eq_write hm
    exact hw hcmd

/-- A key that completes no line that writes to a file keeps the file. -/
theorem Talk.Key.kept {env : Env} {w w' : Talk} {c : UInt8} {out : List Output}
    {p : Path CStr} {k : ℕ} {content : List UInt8} (hkey : w.Key env c out w')
    (h : HasFile w.desk p k content) (hp : p.absolute = true) (ha : w.desk.Ok)
    (hw : ¬ w.WritesTo c k) : HasFile w'.desk p k content := by
  cases hkey with
  | halted => exact h
  | edit => exact h
  | enter _ hx _ =>
      cases hx with
      | nothing => exact h
      | unknown => exact h
      | handler hcmd hh =>
          refine (h.handles hp ha hh ?_).2
          rintro rfl hf
          exact hw ⟨rfl, _, hcmd, hf⟩

/-! ### Runs -/

theorem State.Stands.writesTo {s : State} {w : Talk} (h : s.Stands w) {c : UInt8}
    {inodeIdx : UInt32} (hw : w.WritesTo c inodeIdx.toNat) : s.WritesTo c inodeIdx := by
  obtain ⟨rfl, arg, hcmd, hf⟩ := hw
  rcases h.files.find_cases (strlen_pathWord (skipSpaces arg)) with
    ⟨-, hnone⟩ | ⟨n, k, hr, hk, hn, -⟩
  · rw [hnone] at hf
    cases hf
  · rw [hk] at hf
    cases hf
    refine ⟨_, arg, n, ?_, hcmd, hr, UInt32.toNat.inj hn.idx⟩
    rw [h.line.command]

theorem State.Stands.run_kept {keys : List (Env × UInt8)} {p : Path CStr} {content : List UInt8}
    {inodeIdx : UInt32} (hp : p.absolute = true) : ∀ {s s' : State} {w : Talk} {out : List Output},
    s.Stands w → HasFile w.desk p inodeIdx.toNat content → s.run keys = some (out, s') →
    s.Spares inodeIdx keys → ∃ w', s'.Stands w' ∧ HasFile w'.desk p inodeIdx.toNat content := by
  induction keys with
  | nil =>
      intro s s' w out h hfile hrun _
      cases hrun
      exact ⟨w, h, hfile⟩
  | cons e keys ih =>
      intro s s' w out h hfile hrun hspares
      obtain ⟨env, c⟩ := e
      obtain ⟨hw, hrest⟩ := hspares
      obtain ⟨out₁, s₁, w₁, hkey, htalk, h₁⟩ := h.key env c
      have hfile₁ := htalk.kept hfile hp h.files.ok fun hwrites => hw (h.writesTo hwrites)
      rw [State.run, hkey, Option.bind_some] at hrun
      obtain ⟨⟨outs, s₂⟩, hrun₂, he⟩ := Option.map_eq_some_iff.1 hrun
      obtain ⟨-, rfl⟩ := Prod.mk.inj he
      exact ih h₁ hfile₁ hrun₂ (hrest _ _ hkey)

/-! ### The lines -/

/-- What comes after `write`. -/
def writeArg (path text : CStr) : CStr :=
  ⟨path.bytes ++ 32 :: text.bytes, by
    simp only [List.mem_append, List.mem_cons, not_or]
    exact ⟨path.noNul, by decide, text.noNul⟩⟩

theorem skipSpaces_of_head {arg : CStr} (h : arg.bytes.head? ≠ some 32) : skipSpaces arg = arg := by
  apply CStr.ext
  rw [bytes_skipSpaces]
  cases hb : arg.bytes with
  | nil => rfl
  | cons c l =>
      have hc : c ≠ 32 := by
        rintro rfl
        exact h (by rw [hb]; rfl)
      rw [List.dropWhile_cons_of_neg (by simpa using hc)]

theorem takeWhile_word {word rest : List UInt8} (h : 32 ∉ word) :
    (word ++ 32 :: rest).takeWhile (· ≠ 32) = word := by
  rw [List.takeWhile_append_of_pos, List.takeWhile_cons_of_neg (by simp), List.append_nil]
  intro b hb
  have hne : b ≠ 32 := fun e => h (by rwa [e] at hb)
  simpa using hne

/-- A line that starts with the name of a command. -/
theorem executeCommand_name {name : List UInt8} {command : Command} {cmd arg : CStr}
    (hne : name ≠ []) (hspace : 32 ∉ name) (hlen : name.length ≤ 31)
    (hfind : commands.find? (·.1 = name) = some (name, command))
    (hcmd : cmd.bytes = name ++ 32 :: arg.bytes) (harg : arg.bytes.head? ≠ some 32) :
    executeCommand cmd = .handler command arg := by
  have hskip : skipSpaces cmd = cmd := by
    apply skipSpaces_of_head
    rw [hcmd]
    cases name with
    | nil => exact absurd rfl hne
    | cons c l =>
        intro he
        exact hspace (by rw [← Option.some.inj he]; exact List.mem_cons_self)
  have hname : (cmdName cmd).bytes = name := by
    rw [bytes_cmdName, hcmd, takeWhile_word hspace, List.take_of_length_le hlen]
  have htail : skipSpaces (tailFrom cmd (cmdName cmd).strlen) = arg := by
    rw [← skipSpaces_of_head harg]
    apply CStr.ext
    rw [bytes_skipSpaces, bytes_tailFrom, CStr.strlen, hname, hcmd, List.drop_left,
      List.dropWhile_cons_of_pos (by simp), bytes_skipSpaces]
  have hbytes : cmd.bytes ≠ [] := by
    rw [hcmd]
    exact List.append_ne_nil_of_left_ne_nil hne _
  unfold executeCommand
  rw [hskip, if_neg hbytes]
  dsimp only
  rw [hname, hfind, htail]

section lines

variable {path text : CStr}

theorem IsWord.head_ne (h : IsWord path) : path.bytes.head? ≠ some 32 := by
  rw [h.absolute]
  decide

theorem IsWord.ne_nil (h : IsWord path) : path.bytes ≠ [] := by
  intro hnil
  have habs := h.absolute
  rw [hnil] at habs
  cases habs

theorem IsWord.head_writeArg (h : IsWord path) (text : CStr) :
    (writeArg path text).bytes.head? ≠ some 32 := by
  show (path.bytes ++ _).head? ≠ _
  rw [List.head?_append_of_ne_nil _ h.ne_nil]
  exact h.head_ne

theorem IsWord.executeCommand_write (h : IsWord path) (text : CStr) :
    executeCommand (writeLine path text) = .handler .write (writeArg path text) := by
  apply @executeCommand_name (ascii "write") _ _ _ (by decide) (by decide) (by decide) (by rfl)
  · show ascii "write " ++ path.bytes ++ 32 :: text.bytes = _
    rw [List.append_assoc]
    rfl
  · exact h.head_writeArg text

theorem IsWord.executeCommand_cat (h : IsWord path) :
    executeCommand (catLine path) = .handler .cat path :=
  executeCommand_name (show ascii "cat" ≠ [] by decide) (by decide) (by decide) (by rfl) rfl
    h.head_ne

theorem IsWord.pathWord_writeArg (h : IsWord path) (hlen : path.strlen ≤ 255) (text : CStr) :
    pathWord (writeArg path text) = path := by
  apply CStr.ext
  show ((path.bytes ++ 32 :: text.bytes).takeWhile (· ≠ 32)).take 255 = _
  rw [takeWhile_word h.noSpace, List.take_of_length_le hlen]

theorem IsWord.writeText_writeArg (h : IsWord path) (hlen : path.strlen ≤ 255)
    (htext : IsText text) : writeText (writeArg path text) = text := by
  unfold writeText
  rw [skipSpaces_of_head (h.head_writeArg text), h.pathWord_writeArg hlen]
  refine Eq.trans ?_ (skipSpaces_of_head htext.head)
  apply CStr.ext
  rw [bytes_skipSpaces, bytes_tailFrom]
  show ((path.bytes ++ 32 :: text.bytes).drop path.bytes.length).dropWhile _ = _
  rw [List.drop_left, List.dropWhile_cons_of_pos (by simp), bytes_skipSpaces]

theorem IsWord.meaning_write (h : IsWord path) (hlen : path.strlen ≤ 255) (htext : IsText text)
    (env : Env) : meaning env (writeArg path text) .write =
      .does (.write (pathOf path) text.bytes) := by
  unfold meaning
  dsimp only
  rw [h.writeText_writeArg hlen htext, skipSpaces_of_head (h.head_writeArg text),
    h.pathWord_writeArg hlen, if_neg (not_or.2 ⟨h.ne_nil, htext.ne_nil⟩)]

/-! ### The round trip -/

theorem Handles.write {a a' : FsDesk} {p : Path CStr} {content : List UInt8} {k : ℕ}
    {c : List UInt8} {printed : List Output}
    (h : Handles a (.does (.write p content)) printed a') (ha : a.Ok) (hp : p.absolute = true)
    (hfile : HasFile a p k c) : printed = [] ∧ HasFile a' p k content := by
  rcases h.cases with ⟨hm, -⟩ | ⟨cmd, ans, hm, rfl, hd⟩
  · cases hm
  cases hm
  have hfind := hd.find_kept ha hp hfile.find
  cases hd with
  | write hf hk =>
      have he := hfile.find.symm.trans hf
      cases he
      exact ⟨rfl, hfind, Function.update_self ..⟩
  | writeDir hf hk =>
      have he := hfile.find.symm.trans hf
      cases he
      exact absurd hk hfile.file.not_dir
  | writeNone hf =>
      have he := hfile.find.symm.trans hf
      cases he

/-- `cat` prints the file. -/
theorem State.Stands.execute_cat {s : State} {w : Talk} (h : s.Stands w) (hpath : IsWord path)
    (hlen : path.strlen ≤ 255) {k : ℕ} {content : List UInt8}
    (hfile : HasFile w.desk (pathOf path) k content) {env : Env} {buf : ℕ → UInt8}
    (hblock : env.block = some buf) : s.execute env (catLine path) =
      some ([shellPrint (content.takeWhile (· ≠ 0)), shellPrintChar 10], s) := by
  have hcat : s.files.cmdCat env.block path =
      some [shellPrint (content.takeWhile (· ≠ 0)), shellPrintChar 10] := by
    rcases h.files.find_cases hlen with ⟨-, hnone⟩ | ⟨n, m, hr, hm, hn, -⟩
    · rw [hfile.find] at hnone
      cases hnone
    · rw [hfile.find] at hm
      cases hm
      have hdir : ¬ n.isDirectory = true := fun hd =>
        hfile.file.not_dir ((h.files.isDirectory hn).1 hd)
      unfold Files.cmdCat
      dsimp only
      rw [skipSpaces_of_head hpath.head_ne, if_neg hpath.ne_nil, hr, Option.bind_some]
      dsimp only
      rw [if_neg hdir, hblock, h.files.printFile_eq hn (by simpa using hdir) hfile.file buf]
  unfold State.execute
  rw [hpath.executeCommand_cat]
  dsimp only [Files.handler]
  rw [hcat]
  simp

end lines

/-- **What was written is printed.**  From every state that the shell gets to, a write to a file
succeeds, and `cat` prints the text until a line writes to that file. -/
theorem run_readsBack (d : Disk) (hd : needsFormat d = true) (inputBuffer : ℕ → UInt8)
    (keys : List (Env × UInt8)) (out : List Output) (s : State)
    (hrun : (State.init d inputBuffer).run keys = some (out, s)) (path text : CStr)
    (hpath : IsWord path) (htext : IsText text) (hlen : (writeLine path text).strlen ≤ 255) :
    ReadsBack s path text := by
  obtain ⟨out', s', w, hrun', -, h⟩ := (State.Stands.init hd inputBuffer).run keys
  rw [hrun] at hrun'
  obtain ⟨-, rfl⟩ := Prod.mk.inj (Option.some.inj hrun')
  have habs : (pathOf path).absolute = true := by
    unfold pathOf
    rw [hpath.absolute]
    rfl
  have hbytes : (writeLine path text).strlen = 6 + (writeArg path text).strlen := by
    show (ascii "write " ++ path.bytes ++ 32 :: text.bytes).length = _
    rw [List.append_assoc, List.length_append]
    rfl
  have harg : (writeArg path text).strlen = path.strlen + (text.strlen + 1) := List.length_append
  intro env n hn hf
  rcases h.files.find_cases (show path.strlen ≤ 255 by omega) with
    ⟨hr, -⟩ | ⟨m, k, hr, hfind, hnode, -⟩
  · rw [hn] at hr
    cases hr
  rw [hn] at hr
  cases hr
  obtain ⟨c, hc⟩ := hnode.file h.files.rep hf
  obtain ⟨printed, files, a', hcall, hh, hfiles⟩ :=
    h.files.cmdWrite env (show (writeArg path text).strlen ≤ 255 by omega)
  rw [hpath.meaning_write (by omega) htext] at hh
  obtain ⟨rfl, hfile⟩ := hh.write h.files.ok habs ⟨hfind, hc⟩
  have hexec : s.execute env (writeLine path text) = some ([], { s with
      files := files }) := by
    unfold State.execute
    rw [hpath.executeCommand_write]
    dsimp only [Files.handler]
    rw [hcall]
    simp
  refine ⟨_, hexec, ?_⟩
  intro keys' out' s₂ hrun₂ hspares env' buf hblock
  rw [← hnode.idx] at hfile
  have hstands : State.Stands { s with
      files := files } ⟨w.text, a', w.halted⟩ := ⟨h.line, hfiles, h.halted⟩
  obtain ⟨w', h', hfile'⟩ := hstands.run_kept habs hfile hrun₂ hspares
  rw [h'.execute_cat hpath (by omega) hfile' hblock, List.takeWhile_eq_self_iff.2]
  intro b hb
  have hb0 : b ≠ 0 := fun e => text.noNul (by rwa [e] at hb)
  simpa using hb0

/-- After the file `f` has been made on a blank disk. -/
theorem run_readsBack_blank : ∃ out s,
    (State.init blankDisk fun _ => 0).run ((ascii "touch f\n").map (quietEnv, ·)) =
      some (out, s) ∧ ReadsBack s ⟨ascii "/f", by decide⟩ ⟨ascii "hi", by decide⟩ := by
  have hblank : needsFormat blankDisk = true := by decide
  obtain ⟨out, s, -, hrun, -⟩ := (State.Stands.init hblank fun _ => 0).run
    ((ascii "touch f\n").map (quietEnv, ·))
  exact ⟨out, s, hrun, run_readsBack blankDisk (by decide) _ _ out s hrun _ _
    ⟨by decide, by decide⟩ ⟨by decide, by decide⟩ (by decide)⟩

end NosmeriOs.Shell
