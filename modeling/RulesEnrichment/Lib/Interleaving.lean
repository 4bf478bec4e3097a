import RulesEnrichment.Lib.Machine
import Mathlib.Logic.Function.Basic
import Mathlib.Logic.Function.Iterate
import Mathlib.Data.List.Perm.Basic

/-! # Components that take turns

    Components with a state of their own share one state. A schedule says
    whose turn it is; the component then takes one atomic step, which may
    change its own state and the shared one. A run of the machine over a
    list of turns is one interleaving, and every interleaving is such a
    run.

    * `locals_advance_self`, `locals_advance_of_ne`: the step of a
      component is its own affair, apart from the shared state.
    * `run_invariant`: what every step keeps, every interleaving keeps.
    * `run_replicate`: a component that has all turns runs alone.
    * `perm_update_append`: two components that write one list. -/

namespace Interleaving

open StepMachine

universe u v w

/-- What is shared, and the state of each component. -/
structure Config (ι : Type u) (σ : Type v) (κ : Type w) where
  shared : σ
  locals : ι → κ

variable {ι : Type u} {σ : Type v} {κ : Type w} (step : ι → κ → σ → κ × σ)

/-! ## One component alone -/

/-- `n` steps of component `i` with nobody else in between. -/
def alone (i : ι) (n : Nat) (p : κ × σ) : κ × σ :=
  (fun p => step i p.1 p.2)^[n] p

variable {step}

@[simp] theorem alone_zero (i : ι) (p : κ × σ) : alone step i 0 p = p := rfl

theorem alone_succ (i : ι) (n : Nat) (p : κ × σ) :
    alone step i (n + 1) p = alone step i n (step i p.1 p.2) := rfl

theorem alone_add (i : ι) (m n : Nat) (p : κ × σ) :
    alone step i (m + n) p = alone step i n (alone step i m p) := by
  unfold alone
  rw [Nat.add_comm, Function.iterate_add_apply]

/-! ## All components -/

variable [DecidableEq ι]

variable (step) in
/-- Component `i` takes its next step. -/
def advance (s : Config ι σ κ) (i : ι) : Config ι σ κ where
  shared := (step i (s.locals i) s.shared).2
  locals := Function.update s.locals i (step i (s.locals i) s.shared).1

variable (step) in
/-- All components start in their `idle` state; any turn is admitted. -/
def machine (idle : κ) : Machine (Config ι σ κ) ι where
  init s := ∀ i, s.locals i = idle
  guard _ _ := True
  step := advance step

@[simp] theorem shared_advance (s : Config ι σ κ) (i : ι) :
    (advance step s i).shared = (step i (s.locals i) s.shared).2 := rfl

@[simp] theorem locals_advance_self (s : Config ι σ κ) (i : ι) :
    (advance step s i).locals i = (step i (s.locals i) s.shared).1 :=
  Function.update_self ..

/-- A step leaves the states of the other components alone. -/
theorem locals_advance_of_ne (s : Config ι σ κ) {i j : ι} (h : j ≠ i) :
    (advance step s i).locals j = s.locals j :=
  Function.update_of_ne h ..

variable {idle : κ}

/-- **Interleaving rule**: what the next step of every component keeps
    holds throughout every interleaving. -/
theorem run_invariant {I : Config ι σ κ → Prop} (hstep : ∀ s i, I s → I (advance step s i))
    {s : Config ι σ κ} (hs : I s) (is : List ι) : I ((machine step idle).run s is) :=
  (machine step idle).run_induction (fun s i h _ => hstep s i h) hs fun _ _ => trivial

/-- A component that has `n` turns in a row does what it does alone. -/
theorem run_replicate (s : Config ι σ κ) (i : ι) (n : Nat) :
    ((machine step idle).run s (List.replicate n i)).locals i =
        (alone step i n (s.locals i, s.shared)).1 ∧
      ((machine step idle).run s (List.replicate n i)).shared =
        (alone step i n (s.locals i, s.shared)).2 := by
  induction n generalizing s with
  | zero => exact ⟨rfl, rfl⟩
  | succ n ih =>
    have hrest := ih (advance step s i)
    rw [locals_advance_self, shared_advance] at hrest
    exact hrest

/-! ## What two components have done -/

/-- What one of two components adds to its list, the merged list gets as
    well. -/
theorem perm_update_append {α : Type u} {done : Bool → List α} {merged : List α}
    (h : merged.Perm (done false ++ done true)) (i : Bool) (new : List α) :
    (merged ++ new).Perm (Function.update done i (done i ++ new) false ++
      Function.update done i (done i ++ new) true) := by
  have hall : (merged ++ new).Perm (done false ++ (done true ++ new)) := by
    rw [← List.append_assoc]
    exact h.append_right new
  cases i with
  | false =>
    rw [Function.update_self, Function.update_of_ne (by decide), List.append_assoc]
    exact hall.trans (List.perm_append_comm.append_left _)
  | true =>
    rw [Function.update_self, Function.update_of_ne (by decide)]
    exact hall

end Interleaving
