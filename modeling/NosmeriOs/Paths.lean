import Mathlib.Data.List.Induction
import Mathlib.Tactic.SplitIfs

/-! # Paths in a labelled forest, and their text

* `Trail edge root names k`: the edges with these labels lead from `root` to `k`.  When every
  node but the root is entered by one edge only, the labels are determined by the node
  (`Trail.unique`).
* `tokens sep p`: the non-empty parts of the text `p` between separators.  `join sep names`
  writes a separator before each name; `tokens` reads the names back when they are non-empty
  and free of separators (`tokens_join`), and gives nothing but such names
  (`of_mem_tokens`). -/

namespace Paths

/-! ### Trails -/

section trails

variable {Node Label : Type}

inductive Trail (edge : Node → Label → Node → Prop) (root : Node) : List Label → Node → Prop
  | nil : Trail edge root [] root
  | snoc {names : List Label} {i : Node} {a : Label} {k : Node} : Trail edge root names i →
      edge i a k → Trail edge root (names ++ [a]) k

/-- Every node is entered by at most one edge, the root by none. -/
structure Forest (edge : Node → Label → Node → Prop) (root : Node) : Prop where
  into : ∀ {i a i' a' k}, edge i a k → edge i' a' k → i = i' ∧ a = a'
  root : ∀ i a, ¬ edge i a root

variable {edge edge' : Node → Label → Node → Prop} {root i k : Node} {names names' : List Label}
  {a : Label}

theorem Trail.mono (h : ∀ i a k, edge i a k → edge' i a k) (ht : Trail edge root names k) :
    Trail edge' root names k := by
  induction ht with
  | nil => exact .nil
  | snoc _ he ih => exact ih.snoc (h _ _ _ he)

theorem Trail.eq_root (h : Trail edge root [] k) : k = root := by
  generalize hn : ([] : List Label) = names at h
  cases h with
  | nil => rfl
  | snoc _ _ => simp at hn

/-- A trail to a node entered by an edge ends with that edge. -/
theorem Trail.of_edge (hf : Forest edge root) (ht : Trail edge root names k) (he : edge i a k) :
    ∃ front, names = front ++ [a] ∧ Trail edge root front i := by
  cases ht with
  | nil => exact absurd he (hf.root i a)
  | snoc ht he' =>
      obtain ⟨rfl, rfl⟩ := hf.into he he'
      exact ⟨_, rfl, ht⟩

/-- In a forest the labels on the way to a node are determined by the node. -/
theorem Trail.unique (hf : Forest edge root) (h : Trail edge root names k)
    (h' : Trail edge root names' k) : names = names' := by
  induction h generalizing names' with
  | nil =>
      cases h' with
      | nil => rfl
      | snoc _ he => exact absurd he (hf.root _ _)
  | snoc _ he ih =>
      obtain ⟨front, rfl, ht⟩ := h'.of_edge hf he
      rw [ih ht]

end trails

/-! ### Their text -/

section text

variable {β : Type} {sep : β}

/-- A separator, then the name, for every name. -/
def join (sep : β) (names : List (List β)) : List β := names.flatMap (sep :: ·)

@[simp] theorem join_nil : join sep [] = [] := rfl

theorem join_append (names names' : List (List β)) :
    join sep (names ++ names') = join sep names ++ join sep names' := List.flatMap_append

theorem join_singleton (s : List β) : join sep [s] = sep :: s := by simp [join]

variable [DecidableEq β]

def tokens (sep : β) (p : List β) : List (List β) := (p.splitOn sep).filter (· ≠ [])

@[simp] theorem tokens_nil : tokens sep ([] : List β) = [] := by simp [tokens]

theorem tokens_append_cons (p q : List β) :
    tokens sep (p ++ sep :: q) = tokens sep p ++ tokens sep q := by
  simp [tokens, List.splitOn_append_cons_self]

@[simp] theorem tokens_cons_self (p : List β) : tokens sep (sep :: p) = tokens sep p := by
  have h := @tokens_append_cons _ sep _ [] p
  simpa using h

theorem tokens_eq_singleton {p : List β} (h : sep ∉ p) (hne : p ≠ []) : tokens sep p = [p] := by
  simp [tokens, List.splitOn_eq_singleton h, hne]

/-- The parts of a text have its letters, but for the separator. -/
theorem mem_of_mem_splitOn {p : List β} : ∀ t ∈ p.splitOn sep, ∀ b ∈ t, b ∈ p ∧ b ≠ sep := by
  induction p with
  | nil => simp
  | cons c p ih =>
      intro t ht b hb
      have hrest : ∀ t ∈ p.splitOn sep, ∀ b ∈ t, b ∈ c :: p ∧ b ≠ sep := fun t ht b hb =>
        ⟨List.mem_cons_of_mem _ (ih t ht b hb).1, (ih t ht b hb).2⟩
      rw [List.splitOn_cons_eq_if_modifyHead] at ht
      split_ifs at ht with hc
      · rcases List.mem_cons.1 ht with rfl | ht
        · simp at hb
        · exact hrest t ht b hb
      · obtain ⟨t₀, ts, he⟩ := List.exists_cons_of_ne_nil (List.splitOn_ne_nil sep p)
        rw [he] at hrest
        rw [he, List.modifyHead_cons] at ht
        rcases List.mem_cons.1 ht with rfl | ht
        · rcases List.mem_cons.1 hb with rfl | hb
          · exact ⟨List.mem_cons_self, fun e => hc (by simp [e])⟩
          · exact hrest t₀ List.mem_cons_self b hb
        · exact hrest t (List.mem_cons_of_mem _ ht) b hb

theorem of_mem_tokens {p t : List β} (h : t ∈ tokens sep p) : sep ∉ t ∧ t ≠ [] := by
  obtain ⟨ht, hne⟩ := List.mem_filter.1 h
  exact ⟨fun hmem => (mem_of_mem_splitOn t ht sep hmem).2 rfl, by simpa using hne⟩

theorem subset_of_mem_tokens {p t : List β} (h : t ∈ tokens sep p) : t ⊆ p := fun b hb =>
  (mem_of_mem_splitOn t (List.mem_filter.1 h).1 b hb).1

theorem length_of_mem_splitOn {p : List β} : ∀ t ∈ p.splitOn sep, t.length ≤ p.length := by
  induction p with
  | nil => simp
  | cons c p ih =>
      intro t ht
      have hrest : ∀ t ∈ p.splitOn sep, t.length ≤ (c :: p).length := fun t ht =>
        Nat.le_succ_of_le (ih t ht)
      rw [List.splitOn_cons_eq_if_modifyHead] at ht
      split_ifs at ht with hc
      · rcases List.mem_cons.1 ht with rfl | ht
        · exact Nat.zero_le _
        · exact hrest t ht
      · obtain ⟨t₀, ts, he⟩ := List.exists_cons_of_ne_nil (List.splitOn_ne_nil sep p)
        rw [he] at ih hrest
        rw [he, List.modifyHead_cons] at ht
        rcases List.mem_cons.1 ht with rfl | ht
        · exact Nat.succ_le_succ (ih t₀ List.mem_cons_self)
        · exact hrest t (List.mem_cons_of_mem _ ht)

theorem length_of_mem_tokens {p t : List β} (h : t ∈ tokens sep p) : t.length ≤ p.length :=
  length_of_mem_splitOn t (List.mem_filter.1 h).1

/-- The first token of a text that starts without a separator is at least that long. -/
theorem tokens_of_prefix {p : List β} (h : sep ∉ p) (hne : p ≠ []) (q : List β) :
    ∃ t ts, tokens sep (p ++ q) = t :: ts ∧ p.length ≤ t.length := by
  induction q generalizing p with
  | nil => exact ⟨p, [], by simp [tokens_eq_singleton h hne], Nat.le_refl _⟩
  | cons c q ih =>
      by_cases hc : c = sep
      · subst hc
        refine ⟨p, tokens c q, ?_, Nat.le_refl _⟩
        rw [tokens_append_cons, tokens_eq_singleton h hne, List.singleton_append]
      · obtain ⟨t, ts, ht, hle⟩ := ih (p := p ++ [c]) (by simp [h, Ne.symm hc]) (by simp)
        rw [List.append_assoc, List.singleton_append] at ht
        rw [List.length_append] at hle
        exact ⟨t, ts, ht, by omega⟩

/-- The text that joins names is read back as these names. -/
theorem tokens_join {names : List (List β)} (h : ∀ s ∈ names, sep ∉ s ∧ s ≠ []) :
    tokens sep (join sep names) = names := by
  induction names using List.reverseRecOn with
  | nil => simp
  | append_singleton names s ih =>
      obtain ⟨hs, hne⟩ := h s (by simp)
      rw [join_append, join_singleton, tokens_append_cons, tokens_eq_singleton hs hne,
        ih fun t ht => h t (List.mem_append_left _ ht)]

end text

end Paths
