import RulesEnrichment.Lib.WorkerPool

/-! # Duties of workers that may be killed

    A worker that has done one thing may owe another: to store what it has
    sent, say. Others cannot do it for it. So when it is killed, or a step
    of its own gives the duty up, the duty is lost.

    * `Duty.Fits`: what is to be shown of the steps of a worker.
    * `Duty.Fits.fate`: along a whole run, a duty that has arisen is discharged,
      owed by a worker that lives, or lost, and only one of these. -/

namespace WorkerPool

open StepMachine

universe u v w x y

/-- A duty. A resource stands for it: only who owns this can discharge it. -/
structure Duty (σ : Type u) (κ : Type w) (β : Type y) where
  resource : β
  arisen : σ → Prop
  discharged : σ → Prop
  owes : κ → Prop
  /-- The next step gives the duty up. -/
  refused : κ → σ → Prop
  /-- The resource has been given out. -/
  spent : σ → Prop

/-- What can become of a duty. -/
inductive Fate where
  | discharged
  | owed
  | lost

variable {ι : Type x} {σ : Type u} {τ : Type v} {κ : Type w} {β : Type y}

namespace Duty

variable (D : Duty σ κ β)

/-- The duty is lost with this input. -/
def LostWith (p : Pool ι σ κ) : Input ι τ → Prop
  | .start _ _ => False
  | .turn i => ∃ k, p.locals i = some k ∧ D.refused k p.shared
  | .kill i => ∃ k, p.locals i = some k ∧ D.owes k

/-- What has become of it, after the visits `hist`. -/
def HasFate (hist : List (Pool ι σ κ × Input ι τ)) (p : Pool ι σ κ) : Fate → Prop
  | .discharged => D.discharged p.shared
  | .owed => ∃ i k, p.locals i = some k ∧ D.owes k
  | .lost => ∃ v ∈ hist, D.LostWith v.1 v.2

/-- The steps of a worker and the duty. -/
structure Fits (J : Job σ τ κ) (C : Contract σ κ β) : Prop where
  start : ∀ {s t}, D.arisen (J.start t s).2 → D.arisen s
  /-- Who makes the duty arise owes it. -/
  arises : ∀ {s k}, C.knows k s → D.arisen (J.step k s).2 → D.arisen s ∨ D.owes (J.step k s).1
  step : ∀ {s k}, C.knows k s → D.owes k →
    D.owes (J.step k s).1 ∨ D.discharged (J.step k s).2 ∨ D.refused k s
  refused : ∀ {s k}, C.knows k s → D.refused k s →
    D.owes k ∧ D.resource ∉ C.owns (J.step k s).1 ∧ ¬ D.discharged (J.step k s).2
  not_done : ∀ {k}, D.owes k → ¬ J.Done k
  owned : ∀ {k}, D.owes k → D.resource ∈ C.owns k
  open_of_owes : ∀ {s k}, C.knows k s → D.owes k → ¬ D.discharged s
  stays : ∀ {own s s'}, C.change own s s' → D.discharged s → D.discharged s'
  alone : ∀ {own s s'}, C.change own s s' → D.resource ∉ own → D.discharged s' → D.discharged s
  /-- The resource is not given out again. -/
  fresh : ∀ {s t}, J.promise s t → D.spent s → D.resource ∉ C.owns (J.start t s).1
  spent : ∀ {s k}, C.knows k s → D.resource ∈ C.owns k → D.spent s
  spent_stays : ∀ {own s s'}, C.change own s s' → D.spent s → D.spent s'

/-- A lost duty stays undone, and its resource is nobody's any more. -/
structure Dead (C : Contract σ κ β) (p : Pool ι σ κ) : Prop where
  undone : ¬ D.discharged p.shared
  spent : D.spent p.shared
  unowned : ∀ i k, p.locals i = some k → D.resource ∉ C.owns k

/-- What holds along a run. -/
structure Accounted (C : Contract σ κ β) (hist : List (Pool ι σ κ × Input ι τ))
    (p : Pool ι σ κ) : Prop where
  holds : C.Holds p
  some : D.arisen p.shared → ∃ f, D.HasFate hist p f
  dead : D.HasFate hist p .lost → D.Dead C p

variable {D} {J : Job σ τ κ} {C : Contract σ κ β} {p : Pool ι σ κ}
  {hist : List (Pool ι σ κ × Input ι τ)}

/-- One fate at a time. -/
theorem Fits.unique (h : D.Fits J C) (hp : D.Accounted C hist p) {f g : Fate}
    (hf : D.HasFate hist p f) (hg : D.HasFate hist p g) : f = g := by
  have howed : D.HasFate hist p .owed → ¬ D.HasFate hist p .discharged := by
    intro ⟨i, k, hk, howes⟩
    exact h.open_of_owes (hp.holds.knows i k hk) howes
  have hlost : D.HasFate hist p .lost → ¬ D.HasFate hist p .discharged ∧ ¬ D.HasFate hist p .owed := by
    intro hlost
    have hdead := hp.dead hlost
    refine ⟨hdead.undone, ?_⟩
    intro ⟨i, k, hk, howes⟩
    exact hdead.unowned i k hk (h.owned howes)
  cases f <;> cases g
  case discharged.discharged => rfl
  case owed.owed => rfl
  case lost.lost => rfl
  case discharged.owed => exact absurd hf (howed hg)
  case discharged.lost => exact absurd hf (hlost hg).1
  case owed.discharged => exact absurd hg (howed hf)
  case owed.lost => exact absurd hf (hlost hg).2
  case lost.discharged => exact absurd hg (hlost hf).1
  case lost.owed => exact absurd hg (hlost hf).2

variable [DecidableEq ι]

/-! ## Lost duties -/

/-- Others do not take up what is lost. -/
theorem Dead.put (h : D.Fits J C) (hp : D.Dead C p) {i : ι} {own : Set β} {k : κ} {s : σ}
    (hchange : C.change own p.shared s) (hown : D.resource ∉ own) (howns : C.owns k ⊆ own) :
    D.Dead C (p.put i (some k) s) := by
  refine ⟨fun hs => hp.undone (h.alone hchange hown hs), h.spent_stays hchange hp.spent, ?_⟩
  intro j l hl
  rcases Pool.locals_put_eq_some hl with ⟨_, hl⟩ | ⟨_, hl⟩
  · rw [← Option.some.inj hl]
    exact fun hin => hown (howns hin)
  · exact hp.unowned j l hl

theorem Dead.advance (h : D.Fits J C) (hkeeps : Keeps J C) (hholds : C.Holds p) (hp : D.Dead C p)
    {i : Input ι τ} (hi : J.Admits p i) : D.Dead C (J.advance p i) := by
  cases i with
  | start i t =>
    exact hp.put h (hkeeps.start hholds.valid hi.2).1 (h.fresh hi.2 hp.spent) subset_rfl
  | turn i =>
    cases hk : p.locals i with
    | none => simpa only [Job.advance, hk] using hp
    | some k =>
      rw [advance_turn hk]
      exact hp.put h (hkeeps.step hholds.valid (hholds.knows i k hk)).1 (hp.unowned i k hk)
        (hkeeps.owns_step k _)
  | kill i =>
    refine ⟨hp.undone, hp.spent, ?_⟩
    intro j l hl
    rcases Pool.locals_put_eq_some hl with ⟨_, hl⟩ | ⟨_, hl⟩
    · cases hl
    · exact hp.unowned j l hl

/-- A worker that loses the duty is the only one that had it. -/
theorem LostWith.dead (h : D.Fits J C) (hkeeps : Keeps J C) (hholds : C.Holds p) {i : Input ι τ}
    (hlost : D.LostWith p i) : D.Dead C (J.advance p i) := by
  have hothers : ∀ {i k}, p.locals i = some k → D.owes k →
      ∀ {j l}, j ≠ i → p.locals j = some l → D.resource ∉ C.owns l := by
    intro i k hk howes j l hj hl
    exact Set.disjoint_left.mp (hholds.apart i j k l hj.symm hk hl) (h.owned howes)
  cases i with
  | start i t => exact hlost.elim
  | turn i =>
    obtain ⟨k, hk, hrefused⟩ := hlost
    have hknows := hholds.knows i k hk
    obtain ⟨howes, hfree, hundone⟩ := h.refused hknows hrefused
    rw [advance_turn hk]
    refine ⟨hundone, ?_, ?_⟩
    · exact h.spent_stays (hkeeps.step hholds.valid hknows).1 (h.spent hknows (h.owned howes))
    · intro j l hl
      rcases Pool.locals_put_eq_some hl with ⟨_, hl⟩ | ⟨hj, hl⟩
      · rwa [← Option.some.inj hl]
      · exact hothers hk howes hj hl
  | kill i =>
    obtain ⟨k, hk, howes⟩ := hlost
    have hknows := hholds.knows i k hk
    refine ⟨h.open_of_owes hknows howes, h.spent hknows (h.owned howes), ?_⟩
    intro j l hl
    rcases Pool.locals_put_eq_some hl with ⟨_, hl⟩ | ⟨hj, hl⟩
    · cases hl
    · exact hothers hk howes hj hl

/-! ## Duties on the way -/

/-- What a worker owes it goes on owing, discharges or loses. -/
theorem owed_advance (h : D.Fits J C) (hholds : C.Holds p) {i : Input ι τ} (hi : J.Admits p i)
    (howed : D.HasFate hist p .owed) :
    ∃ f, D.HasFate (hist ++ [(p, i)]) (J.advance p i) f := by
  obtain ⟨j, l, hl, howes⟩ := howed
  have hlost : D.LostWith p i → ∃ f, D.HasFate (hist ++ [(p, i)]) (J.advance p i) f :=
    fun hlost => ⟨.lost, _, List.mem_append_right _ (List.mem_singleton.mpr rfl), hlost⟩
  -- unless the worker that owes moves, it stands where it stood
  have hother : ∀ (i' : ι) (k : Option κ) (s : σ), j ≠ i' →
      ∃ f, D.HasFate (hist ++ [(p, i)]) (p.put i' k s) f := by
    intro i' k s hj
    exact ⟨.owed, j, l, (Pool.locals_put_of_ne hj k).trans hl, howes⟩
  cases i with
  | start i t =>
    by_cases hj : j = i
    · subst hj
      exact absurd (hi.1 l hl) (h.not_done howes)
    · exact hother i _ _ hj
  | kill i =>
    by_cases hj : j = i
    · subst hj
      exact hlost ⟨l, hl, howes⟩
    · exact hother i _ _ hj
  | turn i =>
    by_cases hj : j = i
    · subst hj
      rcases h.step (hholds.knows j l hl) howes with howes | hdone | hrefused
      · rw [advance_turn hl]
        exact ⟨.owed, j, _, Pool.locals_put_self j _, howes⟩
      · rw [advance_turn hl]
        exact ⟨.discharged, hdone⟩
      · exact hlost ⟨l, hl, hrefused⟩
    · cases hk : p.locals i with
      | none =>
        have hsame : J.advance p (.turn i) = p := by simp only [Job.advance, hk]
        rw [hsame]
        exact ⟨.owed, j, l, hl, howes⟩
      | some k =>
        rw [advance_turn hk]
        exact hother i _ _ hj

/-- A duty arises with the worker that owes it. -/
theorem arisen_advance (hist : List (Pool ι σ κ × Input ι τ)) (h : D.Fits J C) (hholds : C.Holds p)
    {i : Input ι τ} (harisen : D.arisen (J.advance p i).shared) :
    D.arisen p.shared ∨ D.HasFate (hist ++ [(p, i)]) (J.advance p i) .owed := by
  cases i with
  | start i t => exact Or.inl (h.start harisen)
  | kill i => exact Or.inl harisen
  | turn i =>
    cases hk : p.locals i with
    | none =>
      simp only [Job.advance, hk] at harisen
      exact Or.inl harisen
    | some k =>
      rw [advance_turn hk] at harisen ⊢
      rcases h.arises (hholds.knows i k hk) harisen with harisen | howes
      · exact Or.inl harisen
      · exact Or.inr ⟨i, _, Pool.locals_put_self i _, howes⟩

/-! ## Runs -/

theorem Accounted.advance (h : D.Fits J C) (hkeeps : Keeps J C) (hp : D.Accounted C hist p)
    {i : Input ι τ} (hi : J.Admits p i) :
    D.Accounted C (hist ++ [(p, i)]) (J.advance p i) := by
  refine ⟨hkeeps.advance hp.holds hi, ?_, ?_⟩
  · intro harisen
    rcases arisen_advance hist h hp.holds harisen with harisen | howed
    · obtain ⟨f, hf⟩ := hp.some harisen
      cases f with
      | discharged =>
        refine ⟨.discharged, ?_⟩
        rcases hkeeps.change_advance hp.holds hi with hsame | ⟨own, hchange⟩
        · show D.discharged (J.advance p i).shared
          rw [hsame]
          exact hf
        · exact h.stays hchange hf
      | owed => exact owed_advance h hp.holds hi hf
      | lost =>
        obtain ⟨v, hv, hlost⟩ := hf
        exact ⟨.lost, v, List.mem_append_left _ hv, hlost⟩
    · exact ⟨.owed, howed⟩
  · rintro ⟨v, hv, hlost⟩
    rcases List.mem_append.mp hv with hv | hv
    · exact (hp.dead ⟨v, hv, hlost⟩).advance h hkeeps hp.holds hi
    · obtain rfl := List.mem_singleton.mp hv
      exact LostWith.dead h hkeeps hp.holds hlost

variable {init : σ → Prop}

/-- **What becomes of a duty**: along a run of the pool, if it has arisen,
    then it is discharged, or a worker that lives owes it, or it is lost. -/
theorem Fits.fate (h : D.Fits J C) (hkeeps : Keeps J C)
    (hinit : ∀ s, init s → C.valid s ∧ ¬ D.arisen s) {is : List (Input ι τ)}
    (hp : (J.machine ι init).init p) (hl : (J.machine ι init).Legal p is)
    (harisen : D.arisen ((J.machine ι init).run p is).shared) :
    ∃! f, D.HasFate ((J.machine ι init).visits p is) ((J.machine ι init).run p is) f := by
  have hstart : D.Accounted C ([] : List (Pool ι σ κ × Input ι τ)) p := by
    refine ⟨.idle (hinit _ hp.1).1 hp.2, fun harisen => absurd harisen (hinit _ hp.1).2, ?_⟩
    rintro ⟨v, hv, _⟩
    cases hv
  have hend := (J.machine ι init).history_induction (I := fun hist p => D.Accounted C hist p)
    (fun hist q i hq hi => hq.advance h hkeeps hi) hstart hl
  rw [List.nil_append] at hend
  obtain ⟨f, hf⟩ := hend.some harisen
  exact ⟨f, hf, fun g hg => h.unique hend hg hf⟩

end Duty

end WorkerPool
