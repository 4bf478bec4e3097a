import Mathlib.Data.List.Forall2

/-! # Computations that may fail

    `Except` as a sequence of steps, and a list comprehension over such
    computations, which fails as a whole where one of its items fails. -/

namespace Fallible

variable {ε α β : Type}

theorem ok_bind (a : α) (f : α → Except ε β) : (Except.ok a >>= f) = f a := rfl

theorem bind_eq_ok {x : Except ε α} {f : α → Except ε β} {b : β} :
    (x >>= f) = .ok b ↔ ∃ a, x = .ok a ∧ f a = .ok b := by
  cases x with
  | error e => simp [bind, Except.bind]
  | ok a => simp [bind, Except.bind]

theorem isOk_iff {x : Except ε α} : x.isOk = true ↔ ∃ a, x = .ok a := by
  cases x with
  | error e => simp [Except.isOk, Except.toBool]
  | ok a => simp [Except.isOk, Except.toBool]

theorem pure_isOk {a : α} : (pure a : Except ε α).isOk = true := rfl

/-- Two steps go well if the first does, and the second with what the
    first gave. -/
theorem bind_isOk {x : Except ε α} {f : α → Except ε β} :
    (x >>= f).isOk = true ↔ ∃ a, x = .ok a ∧ (f a).isOk = true := by
  simp only [isOk_iff, bind_eq_ok]
  constructor
  · rintro ⟨b, a, hx, hf⟩
    exact ⟨a, hx, b, hf⟩
  · rintro ⟨a, hx, b, hf⟩
    exact ⟨b, a, hx, hf⟩

/-- `[f(x) for x in l]` gives a list: every item has been computed. -/
theorem mapM_eq_ok {f : α → Except ε β} {l : List α} {ys : List β} :
    l.mapM f = .ok ys ↔ List.Forall₂ (fun a b => f a = .ok b) l ys := by
  induction l generalizing ys with
  | nil => simp [pure, Except.pure, eq_comm]
  | cons a l ih =>
    simp only [List.mapM_cons, bind_eq_ok, ih, List.forall₂_cons_left_iff]
    constructor
    · rintro ⟨b, hb, bs, hbs, hys⟩
      cases hys
      exact ⟨b, bs, hb, hbs, rfl⟩
    · rintro ⟨b, bs, hb, hbs, rfl⟩
      exact ⟨b, hb, bs, hbs, rfl⟩

/-- What is in the list has been computed from an item. -/
theorem mem_of_mapM_eq_ok {f : α → Except ε β} {l : List α} {ys : List β} (h : l.mapM f = .ok ys)
    {y : β} (hy : y ∈ ys) : ∃ a ∈ l, f a = .ok y := by
  have hall := mapM_eq_ok.mp h
  clear h
  induction hall with
  | nil => cases hy
  | @cons a b l ys hab _ ih =>
    rcases List.mem_cons.mp hy with rfl | hy
    · exact ⟨a, List.mem_cons_self, hab⟩
    · obtain ⟨a', ha', hfa⟩ := ih hy
      exact ⟨a', List.mem_cons_of_mem _ ha', hfa⟩

theorem mapM_isOk {f : α → Except ε β} {l : List α} :
    (l.mapM f).isOk = true ↔ ∀ a ∈ l, (f a).isOk = true := by
  induction l with
  | nil => simp [pure, Except.pure, Except.isOk, Except.toBool]
  | cons a l ih =>
    rw [List.mapM_cons, bind_isOk, List.forall_mem_cons, ← ih, isOk_iff]
    constructor
    · rintro ⟨b, hb, hrest⟩
      obtain ⟨bs, hbs, -⟩ := bind_isOk.mp hrest
      exact ⟨⟨b, hb⟩, isOk_iff.mpr ⟨bs, hbs⟩⟩
    · rintro ⟨⟨b, hb⟩, hrest⟩
      obtain ⟨bs, hbs⟩ := isOk_iff.mp hrest
      exact ⟨b, hb, bind_isOk.mpr ⟨bs, hbs, rfl⟩⟩

/-- **One item that fails** is enough, wherever in the list it is. -/
theorem mapM_error {f : α → Except ε β} {l : List α} {a : α} (ha : a ∈ l)
    (hfail : (f a).isOk = false) : ∃ e, l.mapM f = .error e := by
  cases h : l.mapM f with
  | error e => exact ⟨e, rfl⟩
  | ok ys =>
    have hall := mapM_isOk.mp (isOk_iff.mpr ⟨ys, h⟩) a ha
    rw [hfail] at hall
    cases hall

end Fallible
