import Mathlib.Logic.Function.Basic
import Mathlib.Tactic.SplitIfs

/-! # Directory trees

A tree of files and directories over arbitrary identifiers, names and bytes: a file has a
content, a directory gives identifiers to names.  Three operations change a tree: a new file,
a new directory, a new content for a file.  Each may also fail, and then changes nothing.

* `Wf`: every name leads to a node, and a file has one name.  Every step keeps it (`Step.wf`).
* `Step.lookup_other` and `Step.read_other`: a step changes what is found under its own name
  only. -/

namespace DirTree

inductive Node (Id Name Byte : Type) where
  | file (content : List Byte)
  | dir (entries : Name → Option Id)

/-- The nodes by identifier. -/
abbrev Tree (Id Name Byte : Type) := Id → Option (Node Id Name Byte)

inductive Op (Id Name Byte : Type) where
  | create (p : Id) (s : Name)
  | mkdir (p : Id) (s : Name)
  | write (p : Id) (s : Name) (content : List Byte)

/-- The directory and the name an operation acts on. -/
def Op.target {Id Name Byte : Type} : Op Id Name Byte → Id × Name
  | .create p s => (p, s)
  | .mkdir p s => (p, s)
  | .write p s _ => (p, s)

variable {Id Name Byte : Type}

namespace Tree

/-- The identifier a directory gives to a name. -/
def lookup (t : Tree Id Name Byte) (p : Id) (s : Name) : Option Id :=
  match t p with
  | some (.dir entries) => entries s
  | _ => none

theorem lookup_dir {t : Tree Id Name Byte} {p : Id} {entries : Name → Option Id}
    (h : t p = some (.dir entries)) (s : Name) : t.lookup p s = entries s := by
  unfold lookup
  rw [h]

/-- The content of the file with a name. -/
def read (t : Tree Id Name Byte) (p : Id) (s : Name) : Option (List Byte) :=
  match (t.lookup p s).bind t with
  | some (.file content) => some content
  | _ => none

variable [DecidableEq Id] [DecidableEq Name]

/-- Give the name `s` in directory `p` to the identifier `k`. -/
def link (t : Tree Id Name Byte) (p : Id) (s : Name) (k : Id) : Tree Id Name Byte := fun i =>
  match t i with
  | some (.dir entries) => some (.dir (if i = p then Function.update entries s (some k) else entries))
  | x => x

/-- Add the node `n` under the identifier `k` and name it. -/
def add (t : Tree Id Name Byte) (p : Id) (s : Name) (k : Id) (n : Node Id Name Byte) :
    Tree Id Name Byte := Function.update (t.link p s k) k (some n)

/-- Replace the content of file `k`. -/
def write (t : Tree Id Name Byte) (k : Id) (content : List Byte) : Tree Id Name Byte :=
  Function.update t k (some (.file content))

end Tree

variable [DecidableEq Id] [DecidableEq Name]

/-- The entries of a new directory `k` in `p`. -/
def newEntries (dot dotdot : Name) (k p : Id) : Name → Option Id := fun s =>
  if s = dot then some k else if s = dotdot then some p else none

/-- The tree with only a root directory, which is its own parent. -/
def rootTree (dot dotdot : Name) (root : Id) : Tree Id Name Byte :=
  Function.update (fun _ => none) root (some (.dir (newEntries dot dotdot root root)))

/-- What an operation does; the flag tells whether it succeeded. -/
inductive Step (dot dotdot : Name) (t : Tree Id Name Byte) :
    Op Id Name Byte → Bool → Tree Id Name Byte → Prop
  | create {p k : Id} {s : Name} {entries : Name → Option Id} (hp : t p = some (.dir entries))
      (hs : entries s = none) (hk : t k = none) :
      Step dot dotdot t (.create p s) true (t.add p s k (.file []))
  | mkdir {p k : Id} {s : Name} {entries : Name → Option Id} (hp : t p = some (.dir entries))
      (hs : entries s = none) (hk : t k = none) :
      Step dot dotdot t (.mkdir p s) true (t.add p s k (.dir (newEntries dot dotdot k p)))
  | write {p k : Id} {s : Name} {old content : List Byte} (hl : t.lookup p s = some k)
      (hk : t k = some (.file old)) :
      Step dot dotdot t (.write p s content) true (t.write k content)
  | fail (op : Op Id Name Byte) : Step dot dotdot t op false t

/-- The operations of a run, with their outcomes. -/
inductive Run (dot dotdot : Name) :
    Tree Id Name Byte → List (Op Id Name Byte × Bool) → Tree Id Name Byte → Prop
  | nil (t : Tree Id Name Byte) : Run dot dotdot t [] t
  | cons {t t' t'' : Tree Id Name Byte} {op : Op Id Name Byte} {ok : Bool}
      {ops : List (Op Id Name Byte × Bool)} :
      Step dot dotdot t op ok t' → Run dot dotdot t' ops t'' →
      Run dot dotdot t ((op, ok) :: ops) t''

/-- Every name leads to a node, and a file has at most one name. -/
structure Wf (t : Tree Id Name Byte) : Prop where
  closed : ∀ p s k, t.lookup p s = some k → t k ≠ none
  oneName : ∀ p s p' s' k c, t k = some (.file c) → t.lookup p s = some k →
    t.lookup p' s' = some k → p = p' ∧ s = s'

/-! ### Adding a node -/

namespace Tree

theorem link_eq_none {t : Tree Id Name Byte} {p k i : Id} {s : Name} :
    t.link p s k i = none ↔ t i = none := by
  unfold link
  rcases t i with _ | ⟨_ | _⟩ <;> simp

theorem link_eq_file {t : Tree Id Name Byte} {p k i : Id} {s : Name} {c : List Byte} :
    t.link p s k i = some (.file c) ↔ t i = some (.file c) := by
  unfold link
  rcases t i with _ | ⟨_ | _⟩ <;> simp

theorem lookup_link {t : Tree Id Name Byte} {p k q : Id} {s u : Name}
    {entries : Name → Option Id} (hp : t p = some (.dir entries)) :
    (t.link p s k).lookup q u = if q = p ∧ u = s then some k else t.lookup q u := by
  by_cases hq : q = p
  · subst hq
    unfold lookup link
    rw [hp]
    by_cases hu : u = s
    · simp [hu]
    · simp [hu]
  · unfold lookup link
    rcases t q with _ | ⟨_ | _⟩ <;> simp [hq]

theorem add_self (t : Tree Id Name Byte) (p : Id) (s : Name) (k : Id) (n : Node Id Name Byte) :
    t.add p s k n k = some n := Function.update_self ..

theorem add_of_ne {t : Tree Id Name Byte} {p k i : Id} {s : Name} {n : Node Id Name Byte}
    (h : i ≠ k) : t.add p s k n i = t.link p s k i := Function.update_of_ne h ..

/-- What is found after adding a node: the new name, and all that was found before. -/
theorem lookup_add_of_ne {t : Tree Id Name Byte} {p k q : Id} {s u : Name}
    {n : Node Id Name Byte} {entries : Name → Option Id} (hp : t p = some (.dir entries))
    (hq : q ≠ k) :
    (t.add p s k n).lookup q u = if q = p ∧ u = s then some k else t.lookup q u := by
  rw [← lookup_link hp]
  unfold lookup
  rw [add_of_ne hq]

end Tree

/-- The node a step of creation adds: empty, or a directory of itself and its parent. -/
def IsNew (dot dotdot : Name) (k p : Id) (n : Node Id Name Byte) : Prop :=
  n = .file [] ∨ n = .dir (newEntries dot dotdot k p)

omit [DecidableEq Id] in
theorem newEntries_mem {dot dotdot s : Name} {k p m : Id}
    (h : newEntries dot dotdot k p s = some m) : m = k ∨ m = p := by
  unfold newEntries at h
  split_ifs at h
  · exact Or.inl (Option.some.inj h).symm
  · exact Or.inr (Option.some.inj h).symm

section added
variable {dot dotdot s : Name} {t : Tree Id Name Byte} {p k : Id} {n : Node Id Name Byte}
  {entries : Name → Option Id}

/-- What a name leads to after adding a node. -/
theorem lookup_add (hp : t p = some (.dir entries)) (hn : IsNew dot dotdot k p n) {q m : Id}
    {u : Name} (h : (t.add p s k n).lookup q u = some m) :
    (q ≠ k ∧ t.lookup q u = some m ∧ ¬ (q = p ∧ u = s)) ∨ (q = p ∧ u = s ∧ m = k) ∨
      (q = k ∧ (m = k ∨ m = p) ∧ n = .dir (newEntries dot dotdot k p)) := by
  by_cases hq : q = k
  · right; right
    subst hq
    rcases hn with rfl | rfl
    · simp [Tree.lookup, Tree.add_self] at h
    · rw [Tree.lookup_dir (Tree.add_self ..)] at h
      exact ⟨rfl, newEntries_mem h, rfl⟩
  · rw [Tree.lookup_add_of_ne hp hq] at h
    split_ifs at h with hc
    · right; left
      exact ⟨hc.1, hc.2, (Option.some.inj h).symm⟩
    · left
      exact ⟨hq, h, hc⟩

theorem Wf.add (h : Wf t) (hp : t p = some (.dir entries)) (hk : t k = none)
    (hn : IsNew dot dotdot k p n) : Wf (t.add p s k n) := by
  have hpk : p ≠ k := by
    rintro rfl
    rw [hp] at hk
    cases hk
  have hsome : ∀ m, t m ≠ none → t.add p s k n m ≠ none := by
    intro m hm
    by_cases hmk : m = k
    · rw [hmk, Tree.add_self]
      simp
    · rw [Tree.add_of_ne hmk, ne_eq, Tree.link_eq_none]
      exact hm
  constructor
  · intro q u m hl
    rcases lookup_add hp hn hl with ⟨_, hl', _⟩ | ⟨_, _, rfl⟩ | ⟨_, rfl | rfl, _⟩
    · exact hsome m (h.closed q u m hl')
    · rw [Tree.add_self]
      simp
    · rw [Tree.add_self]
      simp
    · exact hsome m (by rw [hp]; simp)
  · intro q u q' u' m c hm hl hl'
    -- a file found in the new directory would be the directory itself or its parent
    have hnot : ∀ {m : Id}, (m = k ∨ m = p) → n = .dir (newEntries dot dotdot k p) →
        t.add p s k n m ≠ some (.file c) := by
      rintro m (rfl | rfl) rfl
      · rw [Tree.add_self]
        simp
      · rw [Tree.add_of_ne hpk, ne_eq, Tree.link_eq_file, hp]
        simp
    have hold : ∀ {q : Id} {u : Name}, t.lookup q u = some m → m ≠ k := by
      rintro q u h1 rfl
      exact h.closed q u m h1 hk
    rcases lookup_add hp hn hl with ⟨_, h1, _⟩ | ⟨hq, hu, hmk⟩ | ⟨_, hmk, hdir⟩
    · rcases lookup_add hp hn hl' with ⟨_, h2, _⟩ | ⟨_, _, rfl⟩ | ⟨_, hmk, hdir⟩
      · rw [Tree.add_of_ne (hold h1), Tree.link_eq_file] at hm
        exact h.oneName q u q' u' m c hm h1 h2
      · exact absurd rfl (hold h1)
      · exact absurd hm (hnot hmk hdir)
    · rcases lookup_add hp hn hl' with ⟨_, h2, _⟩ | ⟨hq', hu', _⟩ | ⟨_, hmk', hdir⟩
      · exact absurd hmk (hold h2)
      · exact ⟨hq.trans hq'.symm, hu.trans hu'.symm⟩
      · exact absurd hm (hnot hmk' hdir)
    · exact absurd hm (hnot hmk hdir)

end added

/-! ### Steps -/

omit [DecidableEq Name] in
theorem lookup_write {t : Tree Id Name Byte} {k : Id} {old content : List Byte}
    (hk : t k = some (.file old)) (q : Id) (u : Name) :
    (t.write k content).lookup q u = t.lookup q u := by
  unfold Tree.lookup Tree.write
  by_cases hq : q = k
  · subst hq
    rw [Function.update_self, hk]
  · rw [Function.update_of_ne hq]

omit [DecidableEq Name] in
theorem Wf.write {t : Tree Id Name Byte} (h : Wf t) {k : Id} {old : List Byte}
    (hk : t k = some (.file old)) (content : List Byte) : Wf (t.write k content) := by
  constructor
  · intro p s m hl
    rw [lookup_write hk] at hl
    unfold Tree.write
    by_cases hm : m = k
    · rw [hm, Function.update_self]
      simp
    · rw [Function.update_of_ne hm]
      exact h.closed p s m hl
  · intro p s p' s' m c hm hl hl'
    rw [lookup_write hk] at hl hl'
    by_cases hmk : m = k
    · subst hmk
      exact h.oneName p s p' s' m old hk hl hl'
    · unfold Tree.write at hm
      rw [Function.update_of_ne hmk] at hm
      exact h.oneName p s p' s' m c hm hl hl'

section steps
variable {dot dotdot : Name} {t t' : Tree Id Name Byte} {op : Op Id Name Byte} {ok : Bool}

/-- What a step can do: nothing, add a node where there was none, or replace a content. -/
theorem Step.cases (h : Step dot dotdot t op ok t') :
    t' = t ∨
    (∃ p s k n entries, op.target = (p, s) ∧ t p = some (.dir entries) ∧ entries s = none ∧
      t k = none ∧ IsNew dot dotdot k p n ∧ t' = t.add p s k n) ∨
    (∃ p s k old content, op.target = (p, s) ∧ t.lookup p s = some k ∧
      t k = some (.file old) ∧ t' = t.write k content) := by
  cases h with
  | create hp hs hk =>
      exact Or.inr (Or.inl ⟨_, _, _, _, _, rfl, hp, hs, hk, Or.inl rfl, rfl⟩)
  | mkdir hp hs hk =>
      exact Or.inr (Or.inl ⟨_, _, _, _, _, rfl, hp, hs, hk, Or.inr rfl, rfl⟩)
  | write hl hk => exact Or.inr (Or.inr ⟨_, _, _, _, _, rfl, hl, hk, rfl⟩)
  | fail => exact Or.inl rfl

theorem Step.wf (h : Wf t) (hs : Step dot dotdot t op ok t') : Wf t' := by
  rcases hs.cases with rfl | ⟨p, s, k, n, e, _, hp, _, hk, hn, rfl⟩ | ⟨p, s, k, old, c, _, _, hk, rfl⟩
  · exact h
  · exact h.add hp hk hn
  · exact h.write hk c

/-- No step removes a node. -/
theorem Step.mono (hs : Step dot dotdot t op ok t') {i : Id} (hi : t i ≠ none) : t' i ≠ none := by
  rcases hs.cases with rfl | ⟨p, s, k, n, e, _, _, _, hk, _, rfl⟩ | ⟨p, s, k, old, c, _, _, _, rfl⟩
  · exact hi
  · have hik : i ≠ k := by
      rintro rfl
      exact hi hk
    rw [Tree.add_of_ne hik, ne_eq, Tree.link_eq_none]
    exact hi
  · unfold Tree.write
    by_cases hik : i = k
    · rw [hik, Function.update_self]
      simp
    · rw [Function.update_of_ne hik]
      exact hi

/-- A step changes what is found under its own name only. -/
theorem Step.lookup_other (hs : Step dot dotdot t op ok t') {q : Id} {u : Name}
    (hq : t q ≠ none) (hne : (q, u) ≠ op.target) : t'.lookup q u = t.lookup q u := by
  rcases hs.cases with rfl | ⟨p, s, k, n, e, ht, hp, _, hk, _, rfl⟩ |
    ⟨p, s, k, old, c, _, _, hk, rfl⟩
  · rfl
  · have hqk : q ≠ k := by
      rintro rfl
      exact hq hk
    rw [Tree.lookup_add_of_ne hp hqk, if_neg]
    rintro ⟨rfl, rfl⟩
    exact hne ht.symm
  · exact lookup_write hk q u

/-- A step changes the content found under its own name only. -/
theorem Step.read_other (h : Wf t) (hs : Step dot dotdot t op ok t') {q : Id} {u : Name}
    (hq : t q ≠ none) (hne : (q, u) ≠ op.target) : t'.read q u = t.read q u := by
  unfold Tree.read
  rw [hs.lookup_other hq hne]
  cases hl : t.lookup q u with
  | none => rfl
  | some m =>
      have hm := h.closed q u m hl
      simp only [Option.bind_some]
      rcases hs.cases with rfl | ⟨p, s, k, n, e, _, _, _, hk, _, rfl⟩ |
        ⟨p, s, k, old, c, ht, hlk, hk, rfl⟩
      · rfl
      · have hmk : m ≠ k := by
          rintro rfl
          exact hm hk
        rw [Tree.add_of_ne hmk]
        unfold Tree.link
        rcases t m with _ | ⟨_ | _⟩ <;> rfl
      · -- the file written has no other name
        have hmk : m ≠ k := by
          rintro rfl
          obtain ⟨rfl, rfl⟩ := h.oneName q u p s m old hk hl hlk
          exact hne ht.symm
        unfold Tree.write
        rw [Function.update_of_ne hmk]

omit [DecidableEq Name] in
theorem read_write {p k : Id} {s : Name} {old content : List Byte} (hl : t.lookup p s = some k)
    (hk : t k = some (.file old)) : (t.write k content).read p s = some content := by
  unfold Tree.read
  rw [lookup_write hk, hl, Option.bind_some]
  unfold Tree.write
  rw [Function.update_self]

theorem wf_rootTree (root : Id) : Wf (rootTree dot dotdot root : Tree Id Name Byte) := by
  have hlook : ∀ p s k, (rootTree dot dotdot root : Tree Id Name Byte).lookup p s = some k →
      k = root := by
    intro p s k hl
    unfold Tree.lookup rootTree at hl
    by_cases hp : p = root
    · subst hp
      rw [Function.update_self] at hl
      rcases newEntries_mem hl with rfl | rfl <;> rfl
    · rw [Function.update_of_ne hp] at hl
      cases hl
  constructor
  · intro p s k hl
    rw [hlook p s k hl, rootTree, Function.update_self]
    simp
  · intro p s p' s' k c hk hl _
    rw [hlook p s k hl, rootTree, Function.update_self] at hk
    cases hk

end steps

end DirTree
