import RulesEnrichment.Lib.WorkerPool
import Mathlib.Algebra.BigOperators.Group.Finset.Basic
import Mathlib.Algebra.GroupWithZero.Nat

/-! # What goes through the workers

    Workers take something in, hold it for a while and give it out again.
    What is taken in comes out, is held, or goes down with a worker that is
    killed.

    * `Tally.Balances`: what is to be shown of one step of a worker.
    * `Tally.Balances.run`: the account of a whole run. -/

namespace WorkerPool

open StepMachine

universe u v w x y

/-- What is counted. -/
structure Tally (σ : Type u) (κ : Type w) where
  /-- What a worker holds. -/
  held : κ → Nat
  /-- What has come out. -/
  out : σ → Nat
  /-- What the next step of a worker takes in. -/
  taken : κ → σ → Nat

variable {ι : Type x} {σ : Type u} {τ : Type v} {κ : Type w} {β : Type y}

namespace Tally

variable (T : Tally σ κ)

def heldBy (p : Pool ι σ κ) (i : ι) : Nat := (p.locals i).elim 0 T.held

/-- What all workers hold. -/
def total [Fintype ι] (p : Pool ι σ κ) : Nat := ∑ i, T.heldBy p i

def takenWith (p : Pool ι σ κ) : Input ι τ → Nat
  | .start _ _ => 0
  | .turn i => (p.locals i).elim 0 fun k => T.taken k p.shared
  | .kill _ => 0

def lostWith (p : Pool ι σ κ) : Input ι τ → Nat
  | .start _ _ => 0
  | .turn _ => 0
  | .kill i => T.heldBy p i

/-- No worker makes something from nothing, or lets it fall. -/
structure Balances (J : Job σ τ κ) (C : Contract σ κ β) : Prop where
  start : ∀ s t, T.held (J.start t s).1 = 0 ∧ T.out (J.start t s).2 = T.out s
  step : ∀ {s k}, C.knows k s →
    T.out (J.step k s).2 + T.held (J.step k s).1 = T.out s + T.held k + T.taken k s
  done : ∀ {s k}, C.knows k s → J.Done k → T.held k = 0

variable {T} [DecidableEq ι] [Fintype ι] {J : Job σ τ κ} {C : Contract σ κ β} {p : Pool ι σ κ}

/-- One worker moves, and the others hold what they held. -/
theorem total_put (i : ι) (k : Option κ) (s : σ) :
    T.total (p.put i k s) + T.heldBy p i = T.total p + k.elim 0 T.held := by
  have hself : T.heldBy (p.put i k s) i = k.elim 0 T.held := by
    unfold heldBy
    rw [Pool.locals_put_self]
  have hothers : ∑ j ∈ Finset.univ.erase i, T.heldBy (p.put i k s) j =
      ∑ j ∈ Finset.univ.erase i, T.heldBy p j := by
    refine Finset.sum_congr rfl fun j hj => ?_
    unfold heldBy
    rw [Pool.locals_put_of_ne (Finset.ne_of_mem_erase hj)]
  have hnew := Finset.add_sum_erase Finset.univ (T.heldBy (p.put i k s)) (Finset.mem_univ i)
  have hold := Finset.add_sum_erase Finset.univ (T.heldBy p) (Finset.mem_univ i)
  unfold total
  omega

namespace Balances

/-- One step of the pool. -/
theorem advance (h : T.Balances J C) (hp : C.Holds p) {i : Input ι τ} (hi : J.Admits p i) :
    T.out (J.advance p i).shared + T.total (J.advance p i) + T.lostWith p i =
      T.out p.shared + T.total p + T.takenWith p i := by
  cases i with
  | start i t =>
    obtain ⟨hheld, hout⟩ := h.start p.shared t
    have hnone : T.heldBy p i = 0 := by
      unfold heldBy
      cases hk : p.locals i with
      | none => rfl
      | some k => exact h.done (hp.knows i k hk) (hi.1 k hk)
    have hput := total_put (T := T) (p := p) i (some (J.start t p.shared).1) (J.start t p.shared).2
    have hsome : (some (J.start t p.shared).1).elim 0 T.held = 0 := hheld
    show T.out (J.start t p.shared).2 + T.total (p.put i (some (J.start t p.shared).1) _) + 0 =
      T.out p.shared + T.total p + 0
    omega
  | turn i =>
    cases hk : p.locals i with
    | none => simp only [Job.advance, lostWith, takenWith, hk, Option.elim_none]
    | some k =>
      have hstep := h.step (hp.knows i k hk)
      have hput := total_put (T := T) (p := p) i (some (J.step k p.shared).1) (J.step k p.shared).2
      have hheld : T.heldBy p i = T.held k := by simp only [heldBy, hk, Option.elim_some]
      have hsome : (some (J.step k p.shared).1).elim 0 T.held = T.held (J.step k p.shared).1 := rfl
      have htaken : T.takenWith p (.turn i : Input ι τ) = T.taken k p.shared := by
        simp only [takenWith, hk, Option.elim_some]
      have hlost : T.lostWith p (.turn i : Input ι τ) = 0 := rfl
      rw [advance_turn hk, Pool.shared_put]
      omega
  | kill i =>
    have hput := total_put (T := T) (p := p) i none p.shared
    have hnone : (none : Option κ).elim 0 T.held = 0 := rfl
    show T.out p.shared + T.total (p.put i none p.shared) + T.heldBy p i =
      T.out p.shared + T.total p + 0
    omega

variable {init : σ → Prop}

/-- **The account of a run**: what was taken in has come out, is held by a
    worker that lives, or was held by one that was killed. -/
theorem run (h : T.Balances J C) (hkeeps : Keeps J C) (hp : C.Holds p) {is : List (Input ι τ)}
    (hl : (J.machine ι init).Legal p is) :
    T.out ((J.machine ι init).run p is).shared + T.total ((J.machine ι init).run p is) +
        (((J.machine ι init).visits p is).map fun v => T.lostWith v.1 v.2).sum =
      T.out p.shared + T.total p +
        (((J.machine ι init).visits p is).map fun v => T.takenWith v.1 v.2).sum := by
  induction is generalizing p with
  | nil => rfl
  | cons i is ih =>
    obtain ⟨hi, hl'⟩ := ((J.machine ι init).legal_cons p i is).mp hl
    have hstep := h.advance hp hi
    have hrest := ih (hkeeps.advance hp hi) hl'
    have hadvance : (J.machine ι init).step p i = J.advance p i := rfl
    rw [Machine.run_cons, Machine.visits_cons, List.map_cons, List.map_cons, List.sum_cons,
      List.sum_cons, hadvance]
    dsimp only
    omega

end Balances

end Tally

end WorkerPool
