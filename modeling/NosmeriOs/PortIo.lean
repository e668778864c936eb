import Mathlib.Logic.Function.Basic
import Mathlib.Data.Nat.Basic

/-! # Programs that talk to devices through I/O ports

A driver is a program over four port instructions and one loop, `while (again(inb(port)));`.  The
device answers, and may change at every access; a run is a sequence of single accesses, so that
one can say what holds of the device between any two of them.

* `Prog`: the programs, a monad.  `step` is one access and `exec` a number of them.
* `Does I Q p d`: from the device `d` the program `p` ends, with a value and a device that meet
  `Q`, and the device meets `I` before and after each access on the way.
* `Does.always`, `Does.ends`: what that says of `exec`.  `Does.bind`, `Does.mono`, `Does.poll` and
  `Does.foldlM` are the rules to prove it by.
* `Under E Q p d`: the program ends in `Q` although the device changes by `E` between the accesses,
  as it does where interrupt requests come in. -/

namespace PortIo

/-- A device behind I/O ports. -/
class Device (D : Type) where
  inb : UInt16 → D → UInt8 × D
  inw : UInt16 → D → UInt16 × D
  outb : UInt16 → UInt8 → D → D
  outw : UInt16 → UInt16 → D → D

inductive Prog (α : Type) where
  | ret (a : α)
  | inb (port : UInt16) (k : UInt8 → Prog α)
  | inw (port : UInt16) (k : UInt16 → Prog α)
  | outb (port : UInt16) (val : UInt8) (k : Prog α)
  | outw (port : UInt16) (val : UInt16) (k : Prog α)
  /-- `while (again(inb(port)));` -/
  | poll (port : UInt16) (again : UInt8 → Bool) (k : Prog α)

variable {α β σ D : Type}

namespace Prog

protected def bind : Prog α → (α → Prog β) → Prog β
  | ret a, f => f a
  | inb port k, f => inb port fun v => (k v).bind f
  | inw port k, f => inw port fun v => (k v).bind f
  | outb port val k, f => outb port val (k.bind f)
  | outw port val k, f => outw port val (k.bind f)
  | poll port again k, f => poll port again (k.bind f)

instance : Monad Prog where
  pure := ret
  bind := Prog.bind

end Prog

/-- `inb(port)` -/
def inb (port : UInt16) : Prog UInt8 := .inb port .ret

/-- `inw(port)` -/
def inw (port : UInt16) : Prog UInt16 := .inw port .ret

/-- `outb(port, val)` -/
def outb (port : UInt16) (val : UInt8) : Prog Unit := .outb port val (.ret ())

/-- `outw(port, val)` -/
def outw (port : UInt16) (val : UInt16) : Prog Unit := .outw port val (.ret ())

def pollWhile (port : UInt16) (again : UInt8 → Bool) : Prog Unit := .poll port again (.ret ())

/-- A number of writes. -/
def outbs (l : List (UInt16 × UInt8)) (k : Prog α) : Prog α :=
  l.foldr (fun w k => .outb w.1 w.2 k) k

section semantics
variable [Device D]

/-- One access. -/
def step : Prog α × D → Prog α × D
  | (.ret a, d) => (.ret a, d)
  | (.inb port k, d) => (k (Device.inb port d).1, (Device.inb port d).2)
  | (.inw port k, d) => (k (Device.inw port d).1, (Device.inw port d).2)
  | (.outb port val k, d) => (k, Device.outb port val d)
  | (.outw port val k, d) => (k, Device.outw port val d)
  | (.poll port again k, d) =>
      (if again (Device.inb port d).1 then .poll port again k else k, (Device.inb port d).2)

theorem step_poll (port : UInt16) (again : UInt8 → Bool) (k : Prog α) (d : D) :
    step (.poll port again k, d) =
      (if again (Device.inb port d).1 = true then .poll port again k else k,
        (Device.inb port d).2) := rfl

def exec : ℕ → Prog α × D → Prog α × D
  | 0, c => c
  | n + 1, c => exec n (step c)

/-- The program ends in `Q`, and `I` holds all the time. -/
inductive Does (I : D → Prop) (Q : α → D → Prop) : Prog α → D → Prop
  | ret {a : α} {d : D} : I d → Q a d → Does I Q (.ret a) d
  | inb {port : UInt16} {k : UInt8 → Prog α} {d : D} : I d →
      Does I Q (k (Device.inb port d).1) (Device.inb port d).2 → Does I Q (.inb port k) d
  | inw {port : UInt16} {k : UInt16 → Prog α} {d : D} : I d →
      Does I Q (k (Device.inw port d).1) (Device.inw port d).2 → Does I Q (.inw port k) d
  | outb {port : UInt16} {val : UInt8} {k : Prog α} {d : D} : I d →
      Does I Q k (Device.outb port val d) → Does I Q (.outb port val k) d
  | outw {port val : UInt16} {k : Prog α} {d : D} : I d →
      Does I Q k (Device.outw port val d) → Does I Q (.outw port val k) d
  | pollAgain {port : UInt16} {again : UInt8 → Bool} {k : Prog α} {d : D} : I d →
      again (Device.inb port d).1 = true → Does I Q (.poll port again k) (Device.inb port d).2 →
      Does I Q (.poll port again k) d
  | pollDone {port : UInt16} {again : UInt8 → Bool} {k : Prog α} {d : D} : I d →
      again (Device.inb port d).1 = false → Does I Q k (Device.inb port d).2 →
      Does I Q (.poll port again k) d

namespace Does

variable {I I' : D → Prop} {Q Q' : α → D → Prop} {p : Prog α} {d : D}

theorem start (h : Does I Q p d) : I d := by
  cases h with
  | ret h | inb h | inw h | outb h | outw h | pollAgain h | pollDone h => exact h

/-- One access further it is still so. -/
theorem step (h : Does I Q p d) : Does I Q (PortIo.step (p, d)).1 (PortIo.step (p, d)).2 := by
  cases h with
  | ret hi hq => exact .ret hi hq
  | inb _ h => exact h
  | inw _ h => exact h
  | outb _ h => exact h
  | outw _ h => exact h
  | pollAgain _ hc h =>
      rw [step_poll, if_pos hc]
      exact h
  | pollDone _ hc h =>
      rw [step_poll, if_neg (by rw [hc]; exact Bool.false_ne_true)]
      exact h

theorem exec (h : Does I Q p d) (n : ℕ) :
    Does I Q (PortIo.exec n (p, d)).1 (PortIo.exec n (p, d)).2 := by
  induction n generalizing p d with
  | zero => exact h
  | succ n ih => exact ih h.step

theorem always (h : Does I Q p d) (n : ℕ) : I (PortIo.exec n (p, d)).2 := (h.exec n).start

theorem ends (h : Does I Q p d) : ∃ n a d', PortIo.exec n (p, d) = (.ret a, d') ∧ Q a d' := by
  induction h with
  | ret _ hq => exact ⟨0, _, _, rfl, hq⟩
  | inb _ _ ih | inw _ _ ih | outb _ _ ih | outw _ _ ih =>
      obtain ⟨n, a, d', he, hq⟩ := ih
      exact ⟨n + 1, a, d', he, hq⟩
  | @pollAgain port again k d _ hc _ ih =>
      obtain ⟨n, a, d', he, hq⟩ := ih
      refine ⟨n + 1, a, d', ?_, hq⟩
      rw [PortIo.exec, step_poll, if_pos hc]
      exact he
  | @pollDone port again k d _ hc _ ih =>
      obtain ⟨n, a, d', he, hq⟩ := ih
      refine ⟨n + 1, a, d', ?_, hq⟩
      rw [PortIo.exec, step_poll, if_neg (by rw [hc]; exact Bool.false_ne_true)]
      exact he

theorem returned (h : Does I Q p d) {n : ℕ} {a : α} {d' : D}
    (he : PortIo.exec n (p, d) = (.ret a, d')) : Q a d' := by
  have h' := h.exec n
  rw [he] at h'
  cases h' with
  | ret _ hq => exact hq

/-! ### Rules -/

theorem mono (h : Does I Q p d) (hi : ∀ d, I d → I' d) (hq : ∀ a d, Q a d → Q' a d) :
    Does I' Q' p d := by
  induction h with
  | ret h h' => exact .ret (hi _ h) (hq _ _ h')
  | inb h _ ih => exact .inb (hi _ h) ih
  | inw h _ ih => exact .inw (hi _ h) ih
  | outb h _ ih => exact .outb (hi _ h) ih
  | outw h _ ih => exact .outw (hi _ h) ih
  | pollAgain h hc _ ih => exact .pollAgain (hi _ h) hc ih
  | pollDone h hc _ ih => exact .pollDone (hi _ h) hc ih

theorem bind {R : β → D → Prop} {f : α → Prog β} (h : Does I Q p d)
    (hf : ∀ a d, I d → Q a d → Does I R (f a) d) : Does I R (p.bind f) d := by
  induction h with
  | ret h h' => exact hf _ _ h h'
  | inb h _ ih => exact .inb h ih
  | inw h _ ih => exact .inw h ih
  | outb h _ ih => exact .outb h ih
  | outw h _ ih => exact .outw h ih
  | pollAgain h hc _ ih => exact .pollAgain h hc ih
  | pollDone h hc _ ih => exact .pollDone h hc ih

/-- A polling loop, with `P n` while at most `n` more reads are in vain. -/
theorem poll {port : UInt16} {again : UInt8 → Bool} {k : Prog α} {P : ℕ → D → Prop}
    (hi : ∀ n d, P n d → I d)
    (hagain : ∀ n d, P n d → again (Device.inb port d).1 = true →
      ∃ m < n, P m (Device.inb port d).2)
    (hdone : ∀ n d, P n d → again (Device.inb port d).1 = false →
      Does I Q k (Device.inb port d).2) {n : ℕ} (h : P n d) :
    Does I Q (.poll port again k) d := by
  induction n using Nat.strong_induction_on generalizing d with
  | _ n ih =>
    cases hc : again (Device.inb port d).1 with
    | true =>
        obtain ⟨m, hm, h'⟩ := hagain n d h hc
        exact .pollAgain (hi n d h) hc (ih m hm h')
    | false => exact .pollDone (hi n d h) hc (hdone n d h hc)

/-- A loop over a list, with `P i s` before its `i`-th round. -/
theorem foldlM {l : List β} {f : σ → β → Prog σ} {P : ℕ → σ → D → Prop}
    (hi : ∀ i s d, P i s d → I d)
    (hf : ∀ i (h : i < l.length) s d, P i s d → Does I (P (i + 1)) (f s (l[i])) d) {s : σ} {d : D}
    (h : P 0 s d) : Does I (P l.length) (l.foldlM f s) d := by
  induction l generalizing s d P with
  | nil => exact .ret (hi _ _ _ h) h
  | cons b l ih =>
      rw [List.foldlM_cons]
      refine (hf 0 (Nat.succ_pos _) s d h).bind fun s' d' _ h' => ?_
      refine ih (P := fun i => P (i + 1)) (fun i => hi (i + 1)) (fun i hl => ?_) h'
      exact hf (i + 1) (Nat.succ_lt_succ hl)

end Does

/-! ### Interference

Between two accesses the device may change by itself, or another device may change it. -/

/-- The program ends in `Q`, whatever `E` does to the device before an access and at the end. -/
inductive Under (E : D → D → Prop) (Q : α → D → Prop) : Prog α → D → Prop
  | ret {a : α} {d : D} : (∀ d', E d d' → Q a d') → Under E Q (.ret a) d
  | inb {port : UInt16} {k : UInt8 → Prog α} {d : D} :
      (∀ d', E d d' → Under E Q (k (Device.inb port d').1) (Device.inb port d').2) →
      Under E Q (.inb port k) d
  | inw {port : UInt16} {k : UInt16 → Prog α} {d : D} :
      (∀ d', E d d' → Under E Q (k (Device.inw port d').1) (Device.inw port d').2) →
      Under E Q (.inw port k) d
  | outb {port : UInt16} {val : UInt8} {k : Prog α} {d : D} :
      (∀ d', E d d' → Under E Q k (Device.outb port val d')) → Under E Q (.outb port val k) d
  | outw {port val : UInt16} {k : Prog α} {d : D} :
      (∀ d', E d d' → Under E Q k (Device.outw port val d')) → Under E Q (.outw port val k) d
  | poll {port : UInt16} {again : UInt8 → Bool} {k : Prog α} {d : D} :
      (∀ d', E d d' → Under E Q (if again (Device.inb port d').1 then .poll port again k else k)
        (Device.inb port d').2) →
      Under E Q (.poll port again k) d

namespace Under

variable {E : D → D → Prop} {Q : α → D → Prop} {p : Prog α} {d d' : D}

/-- The device changes. -/
theorem env (htrans : ∀ {a b c}, E a b → E b c → E a c) (h : Under E Q p d) (he : E d d') :
    Under E Q p d' := by
  cases h with
  | ret h => exact .ret fun d'' h' => h d'' (htrans he h')
  | inb h => exact .inb fun d'' h' => h d'' (htrans he h')
  | inw h => exact .inw fun d'' h' => h d'' (htrans he h')
  | outb h => exact .outb fun d'' h' => h d'' (htrans he h')
  | outw h => exact .outw fun d'' h' => h d'' (htrans he h')
  | poll h => exact .poll fun d'' h' => h d'' (htrans he h')

/-- The program goes on. -/
theorem step (hrefl : ∀ d, E d d) (h : Under E Q p d) :
    Under E Q (PortIo.step (p, d)).1 (PortIo.step (p, d)).2 := by
  cases h with
  | ret h => exact .ret h
  | inb h | inw h | outb h | outw h | poll h => exact h d (hrefl d)

theorem done {a : α} (hrefl : ∀ d, E d d) (h : Under E Q (.ret a) d) : Q a d := by
  cases h with
  | ret h => exact h d (hrefl d)

/-- It ends, and it needs no help from the device for that. -/
theorem ends (hrefl : ∀ d, E d d) (h : Under E Q p d) :
    ∃ n a d', PortIo.exec n (p, d) = (.ret a, d') ∧ Q a d' := by
  induction h with
  | ret h => exact ⟨0, _, _, rfl, h _ (hrefl _)⟩
  | inb _ ih | inw _ ih | outb _ ih | outw _ ih | poll _ ih =>
      obtain ⟨n, a, d', he, hq⟩ := ih _ (hrefl _)
      exact ⟨n + 1, a, d', he, hq⟩

/-- Writes one after the other, with `P s` where those before have made `s`. -/
theorem outbs {P : σ → D → Prop} {f : σ → UInt16 × UInt8 → σ} {l : List (UInt16 × UInt8)} {s : σ}
    {k : Prog α} (hstable : ∀ {s d d'}, E d d' → P s d → P s d')
    (hf : ∀ w ∈ l, ∀ {s d}, P s d → P (f s w) (Device.outb w.1 w.2 d))
    (hk : ∀ {d}, P (l.foldl f s) d → Under E Q k d) (h : P s d) :
    Under E Q (PortIo.outbs l k) d := by
  induction l generalizing s d with
  | nil => exact hk h
  | cons w l ih =>
      refine .outb fun d' he => ih (fun w' hw' => hf w' (List.mem_cons_of_mem w hw')) hk ?_
      exact hf w List.mem_cons_self (hstable he h)

end Under

end semantics

end PortIo
