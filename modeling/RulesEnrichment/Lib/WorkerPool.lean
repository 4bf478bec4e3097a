import RulesEnrichment.Lib.Machine
import Mathlib.Data.Set.Lattice
import Mathlib.Order.CompletePartialOrder
import Mathlib.Logic.Function.Basic
import Mathlib.Logic.Function.Iterate

/-! # Workers that may be killed

    Any number of workers share one state. A worker takes up a task and
    then works at it step by step; between two of its steps the others take
    theirs. It can be killed at any time: what it had in its own memory is
    gone, what it has done to the shared state stays.

    * `Contract`: what holds between the steps, what a worker relies on
      while the others work, which resources are its own, and what it may
      do to the shared state with these.
    * `Keeps.reachable` is the rely-guarantee rule: one step at a time, and
      every worker for itself.
    * `run_turns`: a worker that has all turns works alone. -/

namespace WorkerPool

open StepMachine

universe u v w x y

/-- What the workers do: tasks `τ`, and where a worker stands, `κ`. -/
structure Job (σ : Type u) (τ : Type v) (κ : Type w) where
  /-- Taking up a task; it may already do something. -/
  start : τ → σ → κ × σ
  step : κ → σ → κ × σ
  /-- What the environment promises of a task. -/
  promise : σ → τ → Prop
  /-- Nothing is left to do. -/
  Done : κ → Prop

/-- What is shared, and where each worker stands that has a task. -/
structure Pool (ι : Type x) (σ : Type u) (κ : Type w) where
  shared : σ
  locals : ι → Option κ

inductive Input (ι : Type x) (τ : Type v) where
  | start (i : ι) (t : τ)
  | turn (i : ι)
  | kill (i : ι)

variable {ι : Type x} {σ : Type u} {τ : Type v} {κ : Type w} {β : Type y} [DecidableEq ι]

/-- Turns and kills are admitted in every state. -/
def Input.isFree : Input ι τ → Bool
  | .start _ _ => false
  | .turn _ => true
  | .kill _ => true

/-- Worker `i` stands at `k` now, and has left `s` behind. -/
def Pool.put (p : Pool ι σ κ) (i : ι) (k : Option κ) (s : σ) : Pool ι σ κ where
  shared := s
  locals := Function.update p.locals i k

namespace Job

variable (J : Job σ τ κ)

def advance (p : Pool ι σ κ) : Input ι τ → Pool ι σ κ
  | .start i t => p.put i (some (J.start t p.shared).1) (J.start t p.shared).2
  | .turn i =>
    match p.locals i with
    | none => p
    | some k => p.put i (some (J.step k p.shared).1) (J.step k p.shared).2
  | .kill i => p.put i none p.shared

/-- A worker takes up a task when it has none, or is done with it. -/
def Admits (p : Pool ι σ κ) : Input ι τ → Prop
  | .start i t => (∀ k, p.locals i = some k → J.Done k) ∧ J.promise p.shared t
  | .turn _ => True
  | .kill _ => True

/-- The workers start without tasks; any turn and any kill is admitted. -/
def machine (ι : Type x) [DecidableEq ι] (init : σ → Prop) : Machine (Pool ι σ κ) (Input ι τ) where
  init p := init p.shared ∧ ∀ i, p.locals i = none
  guard := J.Admits
  step := J.advance

/-- The same work, with tasks of one kind only. -/
def only (T : τ → Prop) : Job σ τ κ :=
  { J with promise := fun s t => J.promise s t ∧ T t }

end Job

namespace Pool

variable {p : Pool ι σ κ} {s : σ}

@[simp] theorem shared_put (i : ι) (k : Option κ) : (p.put i k s).shared = s := rfl

@[simp] theorem locals_put_self (i : ι) (k : Option κ) : (p.put i k s).locals i = k :=
  Function.update_self ..

theorem locals_put_of_ne {i j : ι} (h : j ≠ i) (k : Option κ) :
    (p.put i k s).locals j = p.locals j :=
  Function.update_of_ne h ..

/-- A worker with a task is the one that has moved, or stands where it
    stood. -/
theorem locals_put_eq_some {i j : ι} {k : Option κ} {l : κ} (h : (p.put i k s).locals j = some l) :
    j = i ∧ k = some l ∨ j ≠ i ∧ p.locals j = some l := by
  by_cases hj : j = i
  · subst hj
    rw [locals_put_self] at h
    exact Or.inl ⟨rfl, h⟩
  · rw [locals_put_of_ne hj] at h
    exact Or.inr ⟨hj, h⟩

end Pool

variable {J : Job σ τ κ} {init : σ → Prop}

/-- A worker takes up a task, and after that there are turns and kills. -/
theorem legal_start {p : Pool ι σ κ} {i : ι} {t : τ} (hfree : ∀ k, p.locals i = some k → J.Done k)
    (ht : J.promise p.shared t) {is : List (Input ι τ)} (his : is.all Input.isFree = true) :
    (J.machine ι init).Legal p (.start i t :: is) := by
  rw [Machine.legal_cons]
  refine ⟨⟨hfree, ht⟩, (J.machine ι init).legal_of_forall ?_ _⟩
  intro input hinput q
  have hisFree := List.all_eq_true.mp his input hinput
  cases input with
  | start j t' => cases hisFree
  | turn j => trivial
  | kill j => trivial

/-! ## One worker alone -/

theorem advance_turn {p : Pool ι σ κ} {i : ι} {k : κ} (h : p.locals i = some k) :
    J.advance p (.turn i) = p.put i (some (J.step k p.shared).1) (J.step k p.shared).2 := by
  simp only [Job.advance, h]

/-- A worker that has `n` turns in a row takes `n` steps. -/
theorem run_turns {p : Pool ι σ κ} {i : ι} {k : κ} (h : p.locals i = some k) (n : Nat) :
    (J.machine ι init).run p (List.replicate n (.turn i)) =
      p.put i (some ((fun q : κ × σ => J.step q.1 q.2)^[n] (k, p.shared)).1)
        ((fun q : κ × σ => J.step q.1 q.2)^[n] (k, p.shared)).2 := by
  induction n generalizing p k with
  | zero =>
    show p = p.put i (some k) p.shared
    unfold Pool.put
    rw [← h, Function.update_eq_self]
  | succ n ih =>
    rw [List.replicate_succ, Machine.run_cons]
    show (J.machine ι init).run (J.advance p (.turn i)) _ = _
    rw [advance_turn h, ih (Pool.locals_put_self i _), Pool.shared_put,
      Function.iterate_succ_apply]
    unfold Pool.put
    rw [Function.update_idem]

/-! ## Rely and guarantee -/

/-- What is agreed on about the shared state. -/
structure Contract (σ : Type u) (κ : Type w) (β : Type y) where
  /-- What holds between any two steps. -/
  valid : σ → Prop
  /-- What a worker relies on while the others work. -/
  knows : κ → σ → Prop
  /-- The resources that are a worker's own. -/
  owns : κ → Set β
  /-- What one may do with these resources. -/
  change : Set β → σ → σ → Prop

/-- The contract with workers of one kind only. -/
def Contract.only (C : Contract σ κ β) (L : κ → Prop) : Contract σ κ β :=
  { C with knows := fun k s => C.knows k s ∧ L k }

/-- The workers keep to the contract. -/
structure Keeps (J : Job σ τ κ) (C : Contract σ κ β) : Prop where
  start : ∀ {s t}, C.valid s → J.promise s t →
    C.change (C.owns (J.start t s).1) s (J.start t s).2 ∧ C.knows (J.start t s).1 (J.start t s).2
  step : ∀ {s k}, C.valid s → C.knows k s →
    C.change (C.owns k) s (J.step k s).2 ∧ C.knows (J.step k s).1 (J.step k s).2
  valid : ∀ {own s s'}, C.valid s → C.change own s s' → C.valid s'
  /-- A task comes with resources that are nobody's yet. -/
  fresh : ∀ {s t k}, C.valid s → J.promise s t → C.knows k s →
    Disjoint (C.owns (J.start t s).1) (C.owns k)
  owns_step : ∀ k s, C.owns (J.step k s).1 ⊆ C.owns k
  /-- What others do with their resources leaves a worker what it knows. -/
  stable : ∀ {own k s s'}, C.change own s s' → Disjoint own (C.owns k) → C.knows k s →
    C.knows k s'

/-- The contract in a state of the pool. -/
structure Contract.Holds (C : Contract σ κ β) (p : Pool ι σ κ) : Prop where
  valid : C.valid p.shared
  knows : ∀ i k, p.locals i = some k → C.knows k p.shared
  apart : ∀ i j k l, i ≠ j → p.locals i = some k → p.locals j = some l →
    Disjoint (C.owns k) (C.owns l)

variable {C : Contract σ κ β} {p : Pool ι σ κ}

omit [DecidableEq ι] in
/-- Before a worker has a task. -/
theorem Contract.Holds.idle (hvalid : C.valid p.shared) (hnone : ∀ i, p.locals i = none) :
    C.Holds p := by
  have habsurd : ∀ {i k}, p.locals i ≠ some k := by
    intro i k hk
    rw [hnone i] at hk
    cases hk
  exact ⟨hvalid, fun i k hk => absurd hk habsurd, fun i _ k _ _ hk => absurd hk habsurd⟩

omit [DecidableEq ι] in
/-- With fewer workers it still holds. -/
theorem Contract.Holds.fewer (hp : C.Holds p) {q : Pool ι σ κ} (hshared : q.shared = p.shared)
    (hlocals : ∀ j l, q.locals j = some l → p.locals j = some l) : C.Holds q := by
  refine ⟨hshared ▸ hp.valid, ?_, ?_⟩
  · intro j l hl
    rw [hshared]
    exact hp.knows j l (hlocals j l hl)
  · intro j j' l l' hne hl hl'
    exact hp.apart j j' l l' hne (hlocals j l hl) (hlocals j' l' hl')

namespace Keeps

/-- A worker changes the shared state with resources that are no other's,
    and has kept to the contract. -/
theorem put (h : Keeps J C) (hp : C.Holds p) {i : ι} {own : Set β} {k : κ} {s : σ}
    (hchange : C.change own p.shared s) (hknows : C.knows k s) (howns : C.owns k ⊆ own)
    (hapart : ∀ j l, j ≠ i → p.locals j = some l → Disjoint own (C.owns l)) :
    C.Holds (p.put i (some k) s) := by
  refine ⟨h.valid hp.valid hchange, ?_, ?_⟩
  · intro j l hl
    rcases Pool.locals_put_eq_some hl with ⟨_, hl⟩ | ⟨hj, hl⟩
    · rwa [← Option.some.inj hl]
    · exact h.stable hchange (hapart j l hj hl) (hp.knows j l hl)
  · intro j j' l l' hne hl hl'
    rcases Pool.locals_put_eq_some hl with ⟨rfl, hk⟩ | ⟨hj, hold⟩
    · rcases Pool.locals_put_eq_some hl' with ⟨rfl, _⟩ | ⟨hj', hold'⟩
      · exact absurd rfl hne
      · rw [← Option.some.inj hk]
        exact (hapart j' l' hj' hold').mono_left howns
    · rcases Pool.locals_put_eq_some hl' with ⟨rfl, hk⟩ | ⟨_, hold'⟩
      · rw [← Option.some.inj hk]
        exact ((hapart j l hj hold).mono_left howns).symm
      · exact hp.apart j j' l l' hne hold hold'

/-- One step of the pool. -/
theorem advance (h : Keeps J C) (hp : C.Holds p) {i : Input ι τ} (hi : J.Admits p i) :
    C.Holds (J.advance p i) := by
  cases i with
  | start i t =>
    obtain ⟨hchange, hknows⟩ := h.start hp.valid hi.2
    exact h.put hp hchange hknows subset_rfl
      fun j l _ hl => h.fresh hp.valid hi.2 (hp.knows j l hl)
  | turn i =>
    cases hk : p.locals i with
    | none => simpa only [Job.advance, hk] using hp
    | some k =>
      obtain ⟨hchange, hknows⟩ := h.step hp.valid (hp.knows i k hk)
      rw [advance_turn hk]
      exact h.put hp hchange hknows (h.owns_step k _)
        fun j l hj hl => hp.apart i j k l hj.symm hk hl
  | kill i =>
    refine hp.fewer rfl fun j l hl => ?_
    rcases Pool.locals_put_eq_some hl with ⟨_, hl⟩ | ⟨_, hl⟩
    · cases hl
    · exact hl

/-- What a step of the pool does to the shared state. -/
theorem change_advance (h : Keeps J C) (hp : C.Holds p) {i : Input ι τ} (hi : J.Admits p i) :
    (J.advance p i).shared = p.shared ∨ ∃ own, C.change own p.shared (J.advance p i).shared := by
  cases i with
  | start i t => exact Or.inr ⟨_, (h.start hp.valid hi.2).1⟩
  | turn i =>
    cases hk : p.locals i with
    | none => exact Or.inl (by simp only [Job.advance, hk])
    | some k =>
      rw [advance_turn hk]
      exact Or.inr ⟨_, (h.step hp.valid (hp.knows i k hk)).1⟩
  | kill i => exact Or.inl rfl

/-- **Rely-guarantee rule**: workers that keep to the contract do so
    together, in every interleaving and whoever is killed. -/
theorem reachable (h : Keeps J C) (hinit : ∀ s, init s → C.valid s)
    (hp : (J.machine ι init).Reachable p) : C.Holds p := by
  refine Machine.reachable_induction _ (I := fun p => C.Holds p) ?_
    (fun _ _ hp hi => h.advance hp hi) hp
  intro p hp
  exact .idle (hinit _ hp.1) hp.2

/-- Workers that take up tasks of one kind only, and stay with that kind. -/
theorem only (h : Keeps J C) {T : τ → Prop} {L : κ → Prop}
    (hstart : ∀ s t, T t → L (J.start t s).1) (hstep : ∀ k s, L k → L (J.step k s).1) :
    Keeps (J.only T) (C.only L) where
  start hv ht := ⟨(h.start hv ht.1).1, (h.start hv ht.1).2, hstart _ _ ht.2⟩
  step hv hk := ⟨(h.step hv hk.1).1, (h.step hv hk.1).2, hstep _ _ hk.2⟩
  valid := h.valid
  fresh hv ht hk := h.fresh hv ht.1 hk.1
  owns_step := h.owns_step
  stable hchange hapart hk := ⟨h.stable hchange hapart hk.1, hk.2⟩

end Keeps

end WorkerPool
