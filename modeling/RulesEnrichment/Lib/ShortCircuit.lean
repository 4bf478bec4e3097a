import Mathlib.Data.List.Basic

/-! # Formulas that are evaluated from left to right

    A formula of atoms under `all` and `any`, evaluated as far as needed,
    where asking an atom may raise. An evaluation that returns has asked
    enough: its result is the truth value of the formula under every
    assignment that agrees with the atoms that return (`value_of_eval`). So
    formulas that mean the same come to the same, wherever both return. -/

namespace ShortCircuit

universe u v

inductive Formula (α : Type u) where
  | atom (a : α)
  | all (fs : List (Formula α))
  | any (fs : List (Formula α))

namespace Formula

variable {α : Type u} {ε : Type v}

/-! ## Truth -/

mutual

/-- The truth value under an assignment. -/
def value (v : α → Bool) : Formula α → Bool
  | .atom a => v a
  | .all fs => valueAll v fs
  | .any fs => valueAny v fs

def valueAll (v : α → Bool) : List (Formula α) → Bool
  | [] => true
  | f :: fs => value v f && valueAll v fs

def valueAny (v : α → Bool) : List (Formula α) → Bool
  | [] => false
  | f :: fs => value v f || valueAny v fs

end

mutual

def atoms : Formula α → List α
  | .atom a => [a]
  | .all fs => atomsOf fs
  | .any fs => atomsOf fs

def atomsOf : List (Formula α) → List α
  | [] => []
  | f :: fs => atoms f ++ atomsOf fs

end

/-- The formulas mean the same. -/
def Equivalent (f g : Formula α) : Prop := ∀ v, value v f = value v g

/-! ## Evaluation -/

mutual

/-- An `all` stops at the first part that is false, an `any` at the first
    that is true; an error of an atom ends the evaluation. -/
def eval (ask : α → Except ε Bool) : Formula α → Except ε Bool
  | .atom a => ask a
  | .all fs => evalAll ask fs
  | .any fs => evalAny ask fs

def evalAll (ask : α → Except ε Bool) : List (Formula α) → Except ε Bool
  | [] => .ok true
  | f :: fs =>
    match eval ask f with
    | .error e => .error e
    | .ok false => .ok false
    | .ok true => evalAll ask fs

def evalAny (ask : α → Except ε Bool) : List (Formula α) → Except ε Bool
  | [] => .ok false
  | f :: fs =>
    match eval ask f with
    | .error e => .error e
    | .ok true => .ok true
    | .ok false => evalAny ask fs

end

/-- The assignment has the values of the atoms that return. -/
def Agrees (ask : α → Except ε Bool) (v : α → Bool) : Prop := ∀ a b, ask a = .ok b → v a = b

section

variable {ask : α → Except ε Bool} {v : α → Bool}

mutual

/-- **Soundness**: on the formula; the parts that were skipped do not matter. -/
theorem value_of_eval (h : Agrees ask v) : ∀ (f : Formula α) {b : Bool}, eval ask f = .ok b →
    value v f = b
  | .atom a, b, hb => h a b hb
  | .all fs, _, hb => valueAll_of_eval h fs hb
  | .any fs, _, hb => valueAny_of_eval h fs hb

theorem valueAll_of_eval (h : Agrees ask v) : ∀ (fs : List (Formula α)) {b : Bool},
    evalAll ask fs = .ok b → valueAll v fs = b
  | [], b, hb => Except.ok.inj hb
  | f :: fs, b, hb => by
    unfold evalAll at hb
    unfold valueAll
    rcases hf : eval ask f with e | c
    · rw [hf] at hb
      cases hb
    · rw [hf] at hb
      rw [value_of_eval h f hf]
      cases c with
      | false => exact Except.ok.inj hb
      | true => exact valueAll_of_eval h fs hb

theorem valueAny_of_eval (h : Agrees ask v) : ∀ (fs : List (Formula α)) {b : Bool},
    evalAny ask fs = .ok b → valueAny v fs = b
  | [], b, hb => Except.ok.inj hb
  | f :: fs, b, hb => by
    unfold evalAny at hb
    unfold valueAny
    rcases hf : eval ask f with e | c
    · rw [hf] at hb
      cases hb
    · rw [hf] at hb
      rw [value_of_eval h f hf]
      cases c with
      | false => exact valueAny_of_eval h fs hb
      | true => exact Except.ok.inj hb

end

mutual

/-- **Totality**: on the formula; only an atom can raise. -/
theorem eval_ok : ∀ f : Formula α, (∀ a ∈ atoms f, ∃ b, ask a = .ok b) → ∃ b, eval ask f = .ok b
  | .atom a, h => h a (List.mem_singleton.mpr rfl)
  | .all fs, h => evalAll_ok fs h
  | .any fs, h => evalAny_ok fs h

theorem evalAll_ok : ∀ fs : List (Formula α), (∀ a ∈ atomsOf fs, ∃ b, ask a = .ok b) →
    ∃ b, evalAll ask fs = .ok b
  | [], _ => ⟨true, rfl⟩
  | f :: fs, h => by
    unfold evalAll
    obtain ⟨b, hb⟩ := eval_ok f fun a ha => h a (List.mem_append_left _ ha)
    rw [hb]
    cases b with
    | false => exact ⟨false, rfl⟩
    | true => exact evalAll_ok fs fun a ha => h a (List.mem_append_right _ ha)

theorem evalAny_ok : ∀ fs : List (Formula α), (∀ a ∈ atomsOf fs, ∃ b, ask a = .ok b) →
    ∃ b, evalAny ask fs = .ok b
  | [], _ => ⟨false, rfl⟩
  | f :: fs, h => by
    unfold evalAny
    obtain ⟨b, hb⟩ := eval_ok f fun a ha => h a (List.mem_append_left _ ha)
    rw [hb]
    cases b with
    | false => exact evalAny_ok fs fun a ha => h a (List.mem_append_right _ ha)
    | true => exact ⟨true, rfl⟩

end

/-- An assignment that agrees with the atoms. -/
def assignment (ask : α → Except ε Bool) (a : α) : Bool :=
  match ask a with
  | .ok b => b
  | .error _ => true

theorem agrees_assignment : Agrees ask (assignment ask) := by
  intro a b hb
  unfold assignment
  rw [hb]

/-- Formulas that mean the same come to the same, if both return. -/
theorem Equivalent.eval_eq {f g : Formula α} (h : Equivalent f g) {b c : Bool}
    (hf : eval ask f = .ok b) (hg : eval ask g = .ok c) : b = c := by
  have hv : Agrees ask (assignment ask) := agrees_assignment
  rw [← value_of_eval hv f hf, ← value_of_eval hv g hg]
  exact h _

end

end Formula

end ShortCircuit
