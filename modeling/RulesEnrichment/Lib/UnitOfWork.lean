import Mathlib.Data.List.Basic

/-! # Units of work

    A session reads a snapshot and collects writes; `commit` flushes the
    writes one after another and then commits. A write may be refused
    (`apply` is partial) and the commit itself may fault. Either way the
    database stays as it was: a unit of work is all or nothing.

    * `commit_error`: a commit that raises changes nothing.
    * `commit_ok_iff`: a commit that returns has applied every write. -/

namespace UnitOfWork

universe u v w

/-- A database session: the committed data it reads and the writes it
    will flush, oldest first. -/
structure Session (D : Type u) (W : Type v) where
  snapshot : D
  writes : List W

variable {D : Type u} {W : Type v} {E : Type w}

/-- A new session on the committed data. -/
def Session.enter (d : D) : Session D W := ⟨d, []⟩

/-- Queue a write for the flush. -/
def Session.add (s : Session D W) (x : W) : Session D W := { s with writes := s.writes ++ [x] }

@[simp] theorem Session.snapshot_enter (d : D) : (Session.enter d : Session D W).snapshot = d := rfl

@[simp] theorem Session.writes_enter (d : D) : (Session.enter d : Session D W).writes = [] := rfl

@[simp] theorem Session.snapshot_add (s : Session D W) (x : W) :
    (s.add x).snapshot = s.snapshot := rfl

@[simp] theorem Session.writes_add (s : Session D W) (x : W) :
    (s.add x).writes = s.writes ++ [x] := rfl

variable (apply : W → D → Except E D)

/-- Flush the writes in turn; the first refusal ends it. -/
def applyAll : List W → D → Except E D
  | [], d => .ok d
  | x :: xs, d =>
    match apply x d with
    | .error e => .error e
    | .ok d' => applyAll xs d'

/-- Flush the writes to `d` and commit; `fault` is the error of the
    commit itself, if it has one. -/
def commit (fault : Option E) (writes : List W) (d : D) : Except E Unit × D :=
  match applyAll apply writes d with
  | .error e => (.error e, d)
  | .ok d' =>
    -- a fault after the flush still rolls everything back
    match fault with
    | some e => (.error e, d)
    | none => (.ok (), d')

@[simp] theorem applyAll_nil (d : D) : applyAll apply [] d = .ok d := rfl

theorem applyAll_cons_ok {x : W} {d d' : D} (h : apply x d = .ok d') (xs : List W) :
    applyAll apply (x :: xs) d = applyAll apply xs d' := by
  simp [applyAll, h]

/-- A commit that raises leaves the database as it was. -/
theorem commit_error {fault : Option E} {ws : List W} {d : D} {e : E}
    (h : (commit apply fault ws d).1 = .error e) : (commit apply fault ws d).2 = d := by
  unfold commit at h ⊢
  split
  · rfl
  · next d' hd =>
    simp only [hd] at h
    cases fault with
    | some e' => rfl
    | none => cases h

/-- A commit returns exactly when nothing was refused and it does not fault. -/
theorem commit_ok_iff {fault : Option E} {ws : List W} {d d' : D} :
    commit apply fault ws d = (.ok (), d') ↔ applyAll apply ws d = .ok d' ∧ fault = none := by
  unfold commit
  cases applyAll apply ws d with
  | error e => simp
  | ok d₁ => cases fault <;> simp

/-- The two ways a commit can end. -/
theorem commit_cases (fault : Option E) (ws : List W) (d : D) :
    (∃ e, commit apply fault ws d = (.error e, d)) ∨
    (∃ d', commit apply fault ws d = (.ok (), d') ∧ applyAll apply ws d = .ok d' ∧
      fault = none) := by
  cases h : (commit apply fault ws d).1 with
  | error e => exact Or.inl ⟨e, Prod.ext h (commit_error apply h)⟩
  | ok u =>
    have hc : commit apply fault ws d = (.ok (), (commit apply fault ws d).2) := Prod.ext h rfl
    exact Or.inr ⟨_, hc, (commit_ok_iff apply).mp hc⟩

end UnitOfWork
