import NosmeriOs.DirTree
import Mathlib.Data.List.Basic

/-! # Commands on a directory tree

A user of a directory tree has a working directory, names nodes by paths and gives commands, which
are answered.

* `Desk`: the tree, the working directory, and how many identifiers are left for new nodes.
  Nothing gives one back.
* `Does a cmd ans a'`: the command `cmd` on the desk `a` may be answered with `ans` and leaves `a'`.
  Only the identifier of a new node and the order of a listing are open.
* `Does.step`: a command is at most one step of the tree.  `Does.ok`, `Does.find_kept` and
  `Does.file_kept` say what it keeps. -/

namespace DirTree

variable {Id Name Byte : Type}

/-! ### Paths -/

/-- Names from the root or from the working directory on. -/
structure Path (Name : Type) where
  absolute : Bool
  names : List Name

namespace Tree

/-- The node that the names lead to. -/
def walk (t : Tree Id Name Byte) (i : Id) (names : List Name) : Option Id :=
  names.foldlM t.lookup i

def IsDir (t : Tree Id Name Byte) (i : Id) : Prop := ∃ entries, t i = some (.dir entries)

def IsFile (t : Tree Id Name Byte) (i : Id) (content : List Byte) : Prop :=
  t i = some (.file content)

/-- The list has every name of directory `i` once, with whether it is one of a directory. -/
structure Lists (t : Tree Id Name Byte) (i : Id) (es : List (Name × Bool)) : Prop where
  nodup : (es.map Prod.fst).Nodup
  mem : ∀ s b, (s, b) ∈ es ↔ ∃ k, t.lookup i s = some k ∧ (b = true ↔ t.IsDir k)

/-- Directory `i` has `n` names or more. -/
def Full (t : Tree Id Name Byte) (i : Id) (n : ℕ) : Prop :=
  ∃ names : List Name, names.Nodup ∧ names.length = n ∧ ∀ s ∈ names, t.lookup i s ≠ none

theorem walk_cons (t : Tree Id Name Byte) (i : Id) (s : Name) (names : List Name) :
    t.walk i (s :: names) = (t.lookup i s).bind fun k => t.walk k names := rfl

theorem walk_append (t : Tree Id Name Byte) (i : Id) (names names' : List Name) :
    t.walk i (names ++ names') = (t.walk i names).bind fun k => t.walk k names' :=
  List.foldlM_append

theorem IsFile.not_dir {t : Tree Id Name Byte} {i : Id} {c : List Byte} (h : t.IsFile i c) :
    ¬ t.IsDir i := by
  rintro ⟨entries, he⟩
  rw [show t i = some (.file c) from h] at he
  cases he

/-- A walk in a well-formed tree stays in it. -/
theorem walk_mem {t : Tree Id Name Byte} (hw : Wf t) {names : List Name} : ∀ {i k : Id},
    t i ≠ none → t.walk i names = some k → t k ≠ none := by
  induction names with
  | nil =>
      intro i k hi hk
      cases hk
      exact hi
  | cons s names ih =>
      intro i k _ hk
      rw [walk_cons] at hk
      obtain ⟨j, hj, hk⟩ := Option.bind_eq_some_iff.1 hk
      exact ih (hw.closed i s j hj) hk

end Tree

/-! ### Desks -/

structure Desk (Id Name Byte : Type) where
  tree : Tree Id Name Byte
  root : Id
  cwd : Id
  spare : ℕ

/-- The node behind a path. -/
def Desk.find (a : Desk Id Name Byte) (p : Path Name) : Option Id :=
  a.tree.walk (if p.absolute then a.root else a.cwd) p.names

/-- What new names must be like, how many names a directory has room for, and which paths can be
shown. -/
structure Limits (Name : Type) where
  good : Name → Prop
  slots : ℕ
  shown : List Name → Prop

/-- `room` tells whether there is memory for the content. -/
inductive Cmd (Name Byte : Type) where
  | create (s : Name)
  | mkdir (s : Name)
  | cd (p : Path Name)
  | list (p : Path Name)
  | pwd
  | write (p : Path Name) (content : List Byte)
  | read (p : Path Name) (room : Bool)

inductive Answer (Name Byte : Type) where
  | done
  | failed
  | notFound
  | listing (es : List (Name × Bool))
  | path (names : List Name)
  | content (c : List Byte)

section does

variable [DecidableEq Id] [DecidableEq Name]

/-- A new node in the working directory.  One that finds no room there has taken an identifier. -/
inductive Creates (lim : Limits Name) (a : Desk Id Name Byte) (s : Name)
    (node : Id → Node Id Name Byte) : Answer Name Byte → Desk Id Name Byte → Prop
  | refused (h : ¬ (lim.good s ∧ a.tree.lookup a.cwd s = none)) :
      Creates lim a s node .failed a
  | noSpare (h : lim.good s ∧ a.tree.lookup a.cwd s = none) (hn : a.spare = 0) :
      Creates lim a s node .failed a
  | noSlot {n : ℕ} (h : lim.good s ∧ a.tree.lookup a.cwd s = none) (hn : a.spare = n + 1)
      (hfull : a.tree.Full a.cwd lim.slots) : Creates lim a s node .failed { a with spare := n }
  | done {n : ℕ} {k : Id} (h : lim.good s ∧ a.tree.lookup a.cwd s = none) (hn : a.spare = n + 1)
      (hroom : ¬ a.tree.Full a.cwd lim.slots) (hk : a.tree k = none) :
      Creates lim a s node .done { a with tree := a.tree.add a.cwd s k (node k), spare := n }

section

variable (dot dotdot : Name) (lim : Limits Name)

/-- What may be answered to a command. -/
inductive Does (a : Desk Id Name Byte) :
    Cmd Name Byte → Answer Name Byte → Desk Id Name Byte → Prop
  | create {s : Name} {ans : Answer Name Byte} {a' : Desk Id Name Byte}
      (h : Creates lim a s (fun _ => .file []) ans a') : Does a (.create s) ans a'
  | mkdir {s : Name} {ans : Answer Name Byte} {a' : Desk Id Name Byte}
      (h : Creates lim a s (fun k => .dir (newEntries dot dotdot k a.cwd)) ans a') :
      Does a (.mkdir s) ans a'
  | cd {p : Path Name} {k : Id} (h : a.find p = some k) (hk : a.tree.IsDir k) :
      Does a (.cd p) .done { a with cwd := k }
  | cdFail {p : Path Name} (h : ∀ k, a.find p = some k → ¬ a.tree.IsDir k) :
      Does a (.cd p) .notFound a
  | list {p : Path Name} {k : Id} {es : List (Name × Bool)} (h : a.find p = some k)
      (hk : a.tree.IsDir k) (hes : a.tree.Lists k es) : Does a (.list p) (.listing es) a
  | listFail {p : Path Name} (h : ∀ k, a.find p = some k → ¬ a.tree.IsDir k) :
      Does a (.list p) .notFound a
  | pwd {names : List Name} (h : a.tree.walk a.root names = some a.cwd) (hd : dot ∉ names)
      (hdd : dotdot ∉ names) (hs : lim.shown names) : Does a .pwd (.path names) a
  | pwdFail {names : List Name} (h : a.tree.walk a.root names = some a.cwd) (hd : dot ∉ names)
      (hdd : dotdot ∉ names) (hs : ¬ lim.shown names) : Does a .pwd .failed a
  | write {p : Path Name} {k : Id} {old content : List Byte} (h : a.find p = some k)
      (hk : a.tree.IsFile k old) :
      Does a (.write p content) .done { a with tree := a.tree.write k content }
  | writeDir {p : Path Name} {k : Id} {content : List Byte} (h : a.find p = some k)
      (hk : a.tree.IsDir k) : Does a (.write p content) .failed a
  | writeNone {p : Path Name} {content : List Byte} (h : a.find p = none) :
      Does a (.write p content) .notFound a
  | read {p : Path Name} {k : Id} {c : List Byte} (h : a.find p = some k)
      (hk : a.tree.IsFile k c) : Does a (.read p true) (.content c) a
  | readNoRoom {p : Path Name} {k : Id} {c : List Byte} (h : a.find p = some k)
      (hk : a.tree.IsFile k c) : Does a (.read p false) .failed a
  | readFail {p : Path Name} {room : Bool} (h : ∀ k c, a.find p = some k → ¬ a.tree.IsFile k c) :
      Does a (.read p room) .notFound a

end

/-! ### What a command keeps -/

section steps

variable {dot dotdot : Name} {lim : Limits Name} {t t' : Tree Id Name Byte}
  {op : Op Id Name Byte} {ok : Bool}

/-- No step takes a name away. -/
theorem Step.lookup_kept (hs : Step dot dotdot t op ok t') {q m : Id} {u : Name}
    (h : t.lookup q u = some m) : t'.lookup q u = some m := by
  have hq : t q ≠ none := by
    intro hnone
    rw [Tree.lookup, hnone] at h
    cases h
  rcases hs.cases with rfl | ⟨p, s, k, n, e, _, hp, hes, hk, _, rfl⟩ |
    ⟨p, s, k, old, c, _, _, hk, rfl⟩
  · exact h
  · have hqk : q ≠ k := by
      rintro rfl
      exact hq hk
    rw [Tree.lookup_add_of_ne hp hqk, if_neg]
    · exact h
    · rintro ⟨rfl, rfl⟩
      rw [Tree.lookup_dir hp, hes] at h
      cases h
  · rw [lookup_write hk]
    exact h

theorem Step.isDir (hs : Step dot dotdot t op ok t') {i : Id} (hi : t.IsDir i) : t'.IsDir i := by
  obtain ⟨entries, he⟩ := hi
  rcases hs.cases with rfl | ⟨p, s, k, n, e, _, _, _, hk, _, rfl⟩ |
    ⟨p, s, k, old, c, _, _, hk, rfl⟩
  · exact ⟨entries, he⟩
  · have hik : i ≠ k := by
      rintro rfl
      rw [he] at hk
      cases hk
    refine ⟨if i = p then Function.update entries s (some k) else entries, ?_⟩
    rw [Tree.add_of_ne hik, Tree.link, he]
  · have hik : i ≠ k := by
      rintro rfl
      rw [he] at hk
      cases hk
    refine ⟨entries, ?_⟩
    rw [Tree.write, Function.update_of_ne hik, he]

omit [DecidableEq Id] [DecidableEq Name] in
/-- A walk that goes anywhere ends with a name. -/
theorem walk_last {names : List Name} : ∀ {i k : Id}, t.walk i names = some k →
    k = i ∨ ∃ p s, t.lookup p s = some k := by
  induction names with
  | nil =>
      intro i k hk
      cases hk
      exact Or.inl rfl
  | cons s names ih =>
      intro i k hk
      rw [Tree.walk_cons] at hk
      obtain ⟨j, hj, hk⟩ := Option.bind_eq_some_iff.1 hk
      rcases ih hk with rfl | hlast
      · exact Or.inr ⟨i, s, hj⟩
      · exact Or.inr hlast

theorem Step.walk_kept (hs : Step dot dotdot t op ok t') {names : List Name} : ∀ {i k : Id},
    t.walk i names = some k → t'.walk i names = some k := by
  induction names with
  | nil => exact fun h => h
  | cons s names ih =>
      intro i k hk
      rw [Tree.walk_cons] at hk ⊢
      obtain ⟨j, hj, hk⟩ := Option.bind_eq_some_iff.1 hk
      rw [hs.lookup_kept hj, Option.bind_some]
      exact ih hk

end steps

/-- The tree is well formed, and the root and the working directory are directories. -/
structure Desk.Ok (a : Desk Id Name Byte) : Prop where
  wf : Wf a.tree
  root : a.tree.IsDir a.root
  cwd : a.tree.IsDir a.cwd

section kept

variable {dot dotdot : Name} {lim : Limits Name} {a a' : Desk Id Name Byte}
  {cmd : Cmd Name Byte} {ans : Answer Name Byte}

omit [DecidableEq Id] [DecidableEq Name] in
theorem Desk.Ok.start (h : a.Ok) (p : Path Name) :
    a.tree.IsDir (if p.absolute then a.root else a.cwd) := by
  split
  · exact h.root
  · exact h.cwd

omit [DecidableEq Id] [DecidableEq Name] in
/-- A file behind a path has a name in some directory. -/
theorem Desk.Ok.named (h : a.Ok) {p : Path Name} {k : Id} {c : List Byte}
    (hp : a.find p = some k) (hk : a.tree.IsFile k c) : ∃ q s, a.tree.lookup q s = some k := by
  rcases walk_last hp with rfl | hlast
  · exact absurd (h.start p) hk.not_dir
  · exact hlast

theorem Creates.step {s : Name} {node : Id → Node Id Name Byte} {m : Op Id Name Byte}
    (hmk : ∀ k entries, a.tree a.cwd = some (.dir entries) → entries s = none → a.tree k = none →
      Step dot dotdot a.tree m true (a.tree.add a.cwd s k (node k)))
    (hcwd : a.tree.IsDir a.cwd) (h : Creates lim a s node ans a') :
    a'.root = a.root ∧ a'.cwd = a.cwd ∧
      (a'.tree = a.tree ∨ Step dot dotdot a.tree m true a'.tree) := by
  cases h with
  | refused => exact ⟨rfl, rfl, Or.inl rfl⟩
  | noSpare => exact ⟨rfl, rfl, Or.inl rfl⟩
  | noSlot => exact ⟨rfl, rfl, Or.inl rfl⟩
  | done h hn hroom hk =>
      obtain ⟨entries, he⟩ := hcwd
      refine ⟨rfl, rfl, Or.inr (hmk _ entries he ?_ hk)⟩
      rw [← Tree.lookup_dir he]
      exact h.2

/-- A command moves to another directory, or it is at most one step of the tree. -/
theorem Does.step (h : a.Ok) (hd : Does dot dotdot lim a cmd ans a') : a'.root = a.root ∧
    ((a'.tree = a.tree ∧ a.tree.IsDir a'.cwd) ∨
      a'.cwd = a.cwd ∧ ∃ op, Step dot dotdot a.tree op true a'.tree) := by
  have hsame : ∀ {op : Op Id Name Byte}, a'.root = a.root ∧ a'.cwd = a.cwd ∧
      (a'.tree = a.tree ∨ Step dot dotdot a.tree op true a'.tree) → a'.root = a.root ∧
      ((a'.tree = a.tree ∧ a.tree.IsDir a'.cwd) ∨
        a'.cwd = a.cwd ∧ ∃ op, Step dot dotdot a.tree op true a'.tree) := by
    rintro op ⟨hr, hc, ht | ht⟩
    · exact ⟨hr, Or.inl ⟨ht, by rw [hc]; exact h.cwd⟩⟩
    · exact ⟨hr, Or.inr ⟨hc, op, ht⟩⟩
  cases hd with
  | create hc =>
      apply hsame (hc.step (m := .create a.cwd _) (fun k entries => .create) h.cwd)
  | mkdir hc =>
      apply hsame (hc.step (m := .mkdir a.cwd _) (fun k entries => .mkdir) h.cwd)
  | cd _ hk => exact ⟨rfl, Or.inl ⟨rfl, hk⟩⟩
  | write hp hk =>
      obtain ⟨q, s, hl⟩ := h.named hp hk
      exact ⟨rfl, Or.inr ⟨rfl, _, .write hl hk⟩⟩
  | _ => exact ⟨rfl, Or.inl ⟨rfl, h.cwd⟩⟩

theorem Does.ok (h : a.Ok) (hd : Does dot dotdot lim a cmd ans a') : a'.Ok := by
  obtain ⟨hr, ⟨ht, hc⟩ | ⟨hc, op, hs⟩⟩ := hd.step h
  · refine ⟨?_, ?_, ?_⟩
    · rw [ht]
      exact h.wf
    · rw [ht, hr]
      exact h.root
    · rw [ht]
      exact hc
  · refine ⟨hs.wf h.wf, ?_, ?_⟩
    · rw [hr]
      exact hs.isDir h.root
    · rw [hc]
      exact hs.isDir h.cwd

/-- A path from the root leads where it led. -/
theorem Does.find_kept (h : a.Ok) (hd : Does dot dotdot lim a cmd ans a') {p : Path Name}
    (hp : p.absolute = true) {k : Id} (hk : a.find p = some k) : a'.find p = some k := by
  rw [Desk.find, if_pos hp] at hk ⊢
  obtain ⟨hr, ⟨ht, -⟩ | ⟨-, op, hs⟩⟩ := hd.step h
  · rw [hr, ht]
    exact hk
  · rw [hr]
    exact hs.walk_kept hk

theorem Creates.file_kept {s : Name} {node : Id → Node Id Name Byte}
    (h : Creates lim a s node ans a') {k : Id} {c : List Byte} (hk : a.tree.IsFile k c) :
    a'.tree.IsFile k c := by
  cases h with
  | refused => exact hk
  | noSpare => exact hk
  | noSlot => exact hk
  | @done n m _ _ _ hm =>
      have hkm : k ≠ m := by
        rintro rfl
        rw [Tree.IsFile, hm] at hk
        cases hk
      show a.tree.add a.cwd s m (node m) k = _
      rw [Tree.add_of_ne hkm, Tree.link_eq_file]
      exact hk

/-- Only a command that writes to a file changes its content. -/
theorem Does.file_kept (hd : Does dot dotdot lim a cmd ans a') {k : Id} {c : List Byte}
    (hk : a.tree.IsFile k c) (hw : ∀ p content, cmd = .write p content → a.find p ≠ some k) :
    a'.tree.IsFile k c := by
  cases hd with
  | create hc => exact hc.file_kept hk
  | mkdir hc => exact hc.file_kept hk
  | @write p m old content hp hm =>
      have hkm : k ≠ m := by
        rintro rfl
        exact hw p content rfl hp
      show a.tree.write m content k = _
      rw [Tree.write, Function.update_of_ne hkm]
      exact hk
  | _ => exact hk

end kept

end does

end DirTree
