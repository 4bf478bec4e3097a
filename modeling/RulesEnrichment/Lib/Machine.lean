import Mathlib.Data.List.Basic

/-! # Machines driven by their environment

    A machine takes one input at a time. Whatever the environment may
    choose (which request comes next, whether a write is refused, what a
    remote system answers) is part of the input, so `step` is a function
    and a run is a list of inputs.

    * `visits`: the states a run passes through, each with the input that
      is consumed there.
    * `Legal`: every input of the run meets the machine's `guard`, which
      states what the environment promises.
    * `Reachable`, with the invariant rule `reachable_induction`.
    * `history_induction`: the invariant rule for what a state has to do
      with the steps that led to it.
    * `forall_visits_iff` and `always_iff`: the rules for the exact
      condition under which a property of single steps, or of states,
      holds throughout a run. -/

namespace StepMachine

universe u v

/-- A machine with states `σ` and inputs `ι`. -/
structure Machine (σ : Type u) (ι : Type v) where
  /-- Where a run may start. -/
  init : σ → Prop
  /-- What the environment promises of an input in a state. -/
  guard : σ → ι → Prop
  step : σ → ι → σ

namespace Machine

variable {σ : Type u} {ι : Type v} (M : Machine σ ι)

/-! ## Runs -/

/-- The state after consuming the inputs in turn. -/
def run : σ → List ι → σ
  | s, [] => s
  | s, i :: is => run (M.step s i) is

/-- The states a run passes through, each with the input consumed there. -/
def visits : σ → List ι → List (σ × ι)
  | _, [] => []
  | s, i :: is => (s, i) :: visits (M.step s i) is

/-- Every input meets the guard in the state it is consumed in. -/
def Legal (s : σ) (is : List ι) : Prop :=
  ∀ p ∈ M.visits s is, M.guard p.1 p.2

@[simp] theorem run_nil (s : σ) : M.run s [] = s := rfl

@[simp] theorem run_cons (s : σ) (i : ι) (is : List ι) :
    M.run s (i :: is) = M.run (M.step s i) is := rfl

@[simp] theorem visits_nil (s : σ) : M.visits s [] = [] := rfl

@[simp] theorem visits_cons (s : σ) (i : ι) (is : List ι) :
    M.visits s (i :: is) = (s, i) :: M.visits (M.step s i) is := rfl

theorem run_append (s : σ) (is js : List ι) :
    M.run s (is ++ js) = M.run (M.run s is) js := by
  induction is generalizing s with
  | nil => rfl
  | cons i is ih => exact ih (M.step s i)

theorem visits_append (s : σ) (is js : List ι) :
    M.visits s (is ++ js) = M.visits s is ++ M.visits (M.run s is) js := by
  induction is generalizing s with
  | nil => rfl
  | cons i is ih =>
    show (s, i) :: M.visits (M.step s i) (is ++ js) = _
    rw [ih]
    rfl

theorem legal_append (s : σ) (is js : List ι) :
    M.Legal s (is ++ js) ↔ M.Legal s is ∧ M.Legal (M.run s is) js := by
  unfold Legal
  rw [visits_append]
  exact List.forall_mem_append

theorem legal_cons (s : σ) (i : ι) (is : List ι) :
    M.Legal s (i :: is) ↔ M.guard s i ∧ M.Legal (M.step s i) is := by
  simp [Legal]

/-- Inputs that are admitted in every state. -/
theorem legal_of_forall {is : List ι} (h : ∀ i ∈ is, ∀ s, M.guard s i) (s : σ) : M.Legal s is := by
  induction is generalizing s with
  | nil => exact fun _ hp => absurd hp List.not_mem_nil
  | cons i is ih =>
    have hrest := ih fun j hj => h j (List.mem_cons_of_mem _ hj)
    exact (M.legal_cons s i is).mpr ⟨h i List.mem_cons_self s, hrest (M.step s i)⟩

theorem length_visits (s : σ) (is : List ι) : (M.visits s is).length = is.length := by
  induction is generalizing s with
  | nil => rfl
  | cons i is ih => exact congrArg (· + 1) (ih (M.step s i))

/-! ## Reachable states -/

/-- Reached from an initial state by a legal run. -/
def Reachable (s : σ) : Prop :=
  ∃ s₀ is, M.init s₀ ∧ M.Legal s₀ is ∧ M.run s₀ is = s

/-- What every legal step preserves, a legal run preserves. -/
theorem run_induction {I : σ → Prop}
    (hstep : ∀ s i, I s → M.guard s i → I (M.step s i))
    {s : σ} {is : List ι} (hs : I s) (hl : M.Legal s is) : I (M.run s is) := by
  -- on the inputs; the state they start from changes with each
  induction is generalizing s with
  | nil => exact hs
  | cons i is ih =>
    obtain ⟨hg, hl'⟩ := (M.legal_cons s i is).mp hl
    exact ih (hstep s i hs hg) hl'

/-- **Invariant rule**: what holds initially and is preserved by every
    legal step holds in every reachable state. -/
theorem reachable_induction {I : σ → Prop} (hinit : ∀ s, M.init s → I s)
    (hstep : ∀ s i, I s → M.guard s i → I (M.step s i))
    {s : σ} (hs : M.Reachable s) : I s := by
  obtain ⟨s₀, is, h₀, hl, rfl⟩ := hs
  -- the run that reached `s`, from its start on
  exact M.run_induction hstep (hinit s₀ h₀) hl

/-- Along a legal run an invariant holds wherever the run passes through. -/
theorem visits_of_invariant {I : σ → Prop}
    (hstep : ∀ s i, I s → M.guard s i → I (M.step s i))
    {s : σ} {is : List ι} (hs : I s) (hl : M.Legal s is) :
    ∀ p ∈ M.visits s is, I p.1 := by
  induction is generalizing s with
  | nil => simp
  | cons i is ih =>
    obtain ⟨hg, hl'⟩ := (M.legal_cons s i is).mp hl
    intro p hp
    rcases List.mem_cons.mp hp with rfl | hp
    · exact hs
    · exact ih (hstep s i hs hg) hl' p hp

/-- **History rule**: what relates a state to the steps before it, and is
    kept when a legal step joins them, relates the end of a legal run to
    its history. -/
theorem history_induction {I : List (σ × ι) → σ → Prop}
    (hstep : ∀ hist s i, I hist s → M.guard s i → I (hist ++ [(s, i)]) (M.step s i))
    {hist : List (σ × ι)} {s : σ} {is : List ι} (hs : I hist s) (hl : M.Legal s is) :
    I (hist ++ M.visits s is) (M.run s is) := by
  -- on the inputs; each moves from the run to the history
  induction is generalizing hist s with
  | nil =>
    rw [visits_nil, List.append_nil]
    exact hs
  | cons i is ih =>
    obtain ⟨hg, hl'⟩ := (M.legal_cons s i is).mp hl
    have hrest := ih (hstep hist s i hs hg) hl'
    rwa [List.append_assoc] at hrest

/-! ## Exact conditions -/

/-- **Exact-condition rule** for a property of single steps: what comes to
    the same in every step the guard admits comes to the same along every
    legal run. -/
theorem forall_visits_iff {P Q : σ → ι → Prop} (hexact : ∀ s i, M.guard s i → (P s i ↔ Q s i))
    {s : σ} {is : List ι} (hl : M.Legal s is) :
    (∀ p ∈ M.visits s is, P p.1 p.2) ↔ ∀ p ∈ M.visits s is, Q p.1 p.2 := by
  constructor
  · intro h p hp
    exact (hexact p.1 p.2 (hl p hp)).mp (h p hp)
  · intro h p hp
    exact (hexact p.1 p.2 (hl p hp)).mpr (h p hp)

/-- **Exact-condition rule** for a state property. `Inv` is kept by every
    legal step. Where `P` holds before a step, it holds after it exactly
    when the step meets `Q`. Then a run that starts in `P` keeps `P`
    throughout exactly when all its steps meet `Q`. -/
theorem always_iff (Inv : σ → Prop) {P : σ → Prop} {Q : σ → ι → Prop}
    (hinv : ∀ s i, Inv s → M.guard s i → Inv (M.step s i))
    (hexact : ∀ s i, Inv s → P s → M.guard s i → (P (M.step s i) ↔ Q s i))
    {s : σ} {is : List ι} (hs : Inv s) (hP : P s) (hl : M.Legal s is) :
    (∀ p ∈ M.visits s is, P (M.step p.1 p.2)) ↔ ∀ p ∈ M.visits s is, Q p.1 p.2 := by
  -- `hexact` needs `P` before the step, so both directions carry `P` along the run
  induction is generalizing s with
  | nil => simp
  | cons i is ih =>
    obtain ⟨hg, hl'⟩ := (M.legal_cons s i is).mp hl
    have hhead := hexact s i hs hP hg
    simp only [visits_cons, List.mem_cons, forall_eq_or_imp]
    constructor
    · intro h
      obtain ⟨hP', hrest⟩ := h
      exact ⟨hhead.mp hP', (ih (hinv s i hs hg) hP' hl').mp hrest⟩
    · intro h
      -- `Q` of the first step restores `P`, and the rest starts from there
      obtain ⟨hQ, hrest⟩ := h
      have hP' := hhead.mpr hQ
      exact ⟨hP', (ih (hinv s i hs hg) hP' hl').mpr hrest⟩

/-- **Exact-condition rule** for a state property that is never regained:
    it then suffices to look at the end of the run. -/
theorem run_iff (Inv : σ → Prop) {P : σ → Prop} {Q : σ → ι → Prop}
    (hinv : ∀ s i, Inv s → M.guard s i → Inv (M.step s i))
    (hexact : ∀ s i, Inv s → P s → M.guard s i → (P (M.step s i) ↔ Q s i))
    (hlost : ∀ s i, Inv s → M.guard s i → P (M.step s i) → P s)
    {s : σ} {is : List ι} (hs : Inv s) (hP : P s) (hl : M.Legal s is) :
    P (M.run s is) ↔ ∀ p ∈ M.visits s is, Q p.1 p.2 := by
  -- what holds at the end held after every step before
  have hback : ∀ s is, Inv s → M.Legal s is → P (M.run s is) → P s := by
    intro s is
    induction is generalizing s with
    | nil => exact fun _ _ h => h
    | cons i is ih =>
      intro hs hl h
      obtain ⟨hg, hl'⟩ := (M.legal_cons s i is).mp hl
      exact hlost s i hs hg (ih _ (hinv s i hs hg) hl' h)
  induction is generalizing s with
  | nil => simpa using hP
  | cons i is ih =>
    obtain ⟨hg, hl'⟩ := (M.legal_cons s i is).mp hl
    have hhead := hexact s i hs hP hg
    simp only [run_cons, visits_cons, List.mem_cons, forall_eq_or_imp]
    constructor
    · intro h
      have hP' := hback _ is (hinv s i hs hg) hl' h
      exact ⟨hhead.mp hP', (ih (hinv s i hs hg) hP' hl').mp h⟩
    · intro h
      obtain ⟨hQ, hrest⟩ := h
      exact (ih (hinv s i hs hg) (hhead.mpr hQ) hl').mpr hrest

end Machine

end StepMachine
