import RulesEnrichment.Lib.JsonText
import Mathlib.Data.List.Forall2

/-! # A JSON text has one reading

    Two JSON values without floats that have one text are the same value
    up to the order of keys (`same_of_dumps_eq`). Every part of a text
    shows where it ends: a literal by its closing quote, an array and an
    object by their brackets, a number by the delimiter that follows it.
    So equal texts fall into equal parts, whatever comes after them
    (`Readable`). -/

namespace Python

namespace PyVal

/-! ## String literals -/

def hexValue (c : Char) : Nat := if c.isDigit then c.toNat - 48 else c.toNat - 87

theorem hexValue_digitChar : ∀ n < 16, hexValue (Nat.digitChar n) = n := by decide

/-- The character that a backslash and a letter stand for. -/
def unescape (c : Char) : Nat :=
  if c = 'n' then 10
  else if c = 'r' then 13
  else if c = 't' then 9
  else if c = 'f' then 12
  else if c = 'b' then 8
  else c.toNat

/-- The four digits behind `\u`. -/
def readHex : List Char → Option (Nat × List Char)
  | a :: b :: c :: d :: cs =>
    some (((hexValue a * 16 + hexValue b) * 16 + hexValue c) * 16 + hexValue d, cs)
  | _ => none

/-- What comes after a backslash. -/
def readEscape : List Char → Option (Nat × List Char)
  | [] => none
  | e :: cs => if e = 'u' then readHex cs else some (unescape e, cs)

/-- The first code unit of the inside of a literal, and what comes after
    it; there is none at the closing quote. -/
def readUnit : List Char → Option (Nat × List Char)
  | [] => none
  | c :: cs =>
    if c = '"' then none
    else if c = '\\' then readEscape cs
    else some (c.toNat, cs)

/-- The first character, which may be written as a surrogate pair. -/
def readChar (cs : List Char) : Option (Nat × List Char) :=
  match readUnit cs with
  | none => none
  | some (hi, cs) =>
    if 55296 ≤ hi ∧ hi < 56320 then
      match readUnit cs with
      | none => none
      | some (lo, cs) => some (65536 + (hi - 55296) * 1024 + (lo - 56320), cs)
    else some (hi, cs)

theorem readUnit_hex4 {n : Nat} (hn : n < 65536) (r : List Char) :
    readUnit (("\\u" ++ hex4 n).toList ++ r) = some (n, r) := by
  have hdigit : ∀ m, hexValue (Nat.digitChar (m % 16)) = m % 16 :=
    fun m => hexValue_digitChar _ (Nat.mod_lt _ (by decide))
  have htext : ("\\u" ++ hex4 n).toList ++ r = '\\' :: 'u' :: Nat.digitChar (n / 4096 % 16) ::
      Nat.digitChar (n / 256 % 16) :: Nat.digitChar (n / 16 % 16) :: Nat.digitChar (n % 16) :: r := by
    simp [hex4, String.toList_append]
  rw [htext]
  show some (((hexValue _ * 16 + hexValue _) * 16 + hexValue _) * 16 + hexValue _, r) = _
  rw [hdigit, hdigit, hdigit, hdigit]
  congr 2
  omega

theorem readUnit_of_plain {c : Char} (hquote : c ≠ '"') (hback : c ≠ '\\') (r : List Char) :
    readUnit (c :: r) = some (c.toNat, r) := by
  rw [readUnit, if_neg hquote, if_neg hback]

theorem readChar_of_unit {cs r : List Char} {n : Nat} (h : readUnit cs = some (n, r))
    (hn : ¬ (55296 ≤ n ∧ n < 56320)) : readChar cs = some (n, r) := by
  unfold readChar
  rw [h]
  exact if_neg hn

theorem readChar_of_pair {cs cs' r : List Char} {hi lo : Nat} (h : readUnit cs = some (hi, cs'))
    (hhi : 55296 ≤ hi ∧ hi < 56320) (h' : readUnit cs' = some (lo, r)) :
    readChar cs = some (65536 + (hi - 55296) * 1024 + (lo - 56320), r) := by
  unfold readChar
  rw [h]
  show (if 55296 ≤ hi ∧ hi < 56320 then _ else _) = _
  rw [if_pos hhi, h']

/-- No character is a surrogate. -/
theorem toNat_valid (c : Char) : c.toNat < 55296 ∨ (57343 < c.toNat ∧ c.toNat < 1114112) := c.valid

/-- What is written for a character is read as the character. -/
theorem readChar_escapeChar (c : Char) (r : List Char) :
    readChar ((escapeChar c).toList ++ r) = some (c.toNat, r) := by
  have hvalid := toNat_valid c
  unfold escapeChar
  split_ifs with h34 h92 h10 h13 h9 h12 h8 hplain hbmp
  · rw [h34]; rfl
  · rw [h92]; rfl
  · rw [h10]; rfl
  · rw [h13]; rfl
  · rw [h9]; rfl
  · rw [h12]; rfl
  · rw [h8]; rfl
  · have hquote : c ≠ '"' := fun h => h34 (by rw [h]; rfl)
    have hback : c ≠ '\\' := fun h => h92 (by rw [h]; rfl)
    rw [String.toList_singleton]
    exact readChar_of_unit (readUnit_of_plain hquote hback r) (by omega)
  · exact readChar_of_unit (readUnit_hex4 hbmp r) (by omega)
  · -- beyond the basic plane: two code units
    generalize hhi : 55296 + (c.toNat - 65536) / 1024 = hi
    generalize hlo : 56320 + (c.toNat - 65536) % 1024 = lo
    have htext : ("\\u" ++ hex4 hi ++ "\\u" ++ hex4 lo).toList ++ r =
        ("\\u" ++ hex4 hi).toList ++ (("\\u" ++ hex4 lo).toList ++ r) := by
      simp only [String.toList_append, List.append_assoc]
    have hvalue : 65536 + (hi - 55296) * 1024 + (lo - 56320) = c.toNat := by omega
    rw [htext, ← hvalue]
    exact readChar_of_pair (readUnit_hex4 (by omega) _) (by omega) (readUnit_hex4 (by omega) r)

/-- The closing quote is no character of the string. -/
theorem readChar_quote (r : List Char) : readChar ('"' :: r) = none := rfl

theorem escapes_cancel {cs cs' r r' : List Char}
    (h : cs.flatMap (fun c => (escapeChar c).toList) ++ '"' :: r =
      cs'.flatMap (fun c => (escapeChar c).toList) ++ '"' :: r') : cs = cs' ∧ r = r' := by
  induction cs generalizing cs' with
  | nil =>
    cases cs' with
    | nil => exact ⟨rfl, (List.cons.inj h).2⟩
    | cons c' cs' =>
      rw [List.flatMap_nil, List.nil_append, List.flatMap_cons, List.append_assoc] at h
      have hread := congrArg readChar h
      rw [readChar_quote, readChar_escapeChar] at hread
      cases hread
  | cons c cs ih =>
    rw [List.flatMap_cons, List.append_assoc] at h
    have hread := congrArg readChar h
    rw [readChar_escapeChar] at hread
    cases cs' with
    | nil =>
      rw [List.flatMap_nil, List.nil_append, readChar_quote] at hread
      cases hread
    | cons c' cs' =>
      rw [List.flatMap_cons, List.append_assoc, readChar_escapeChar, Option.some.injEq,
        Prod.mk.injEq, Char.toNat_inj] at hread
      obtain ⟨rfl, hrest⟩ := hread
      obtain ⟨rfl, hr⟩ := ih hrest
      exact ⟨rfl, hr⟩

/-- **A literal** at the start of a text is determined by the text. -/
theorem quote_append_cancel {s s' : String} {r r' : List Char}
    (h : (quote s).toList ++ r = (quote s').toList ++ r') : s = s' ∧ r = r' := by
  have htext : ∀ t : String, (quote t).toList =
      '"' :: t.toList.flatMap (fun c => (escapeChar c).toList) ++ ['"'] := by
    intro t
    unfold quote
    rw [String.toList_append, String.toList_append, String.toList_join, List.flatMap_map]
    rfl
  rw [htext, htext, List.append_assoc, List.append_assoc] at h
  obtain ⟨hs, hr⟩ := escapes_cancel (List.cons.inj h).2
  exact ⟨String.toList_inj.mp hs, hr⟩

/-! ## Numbers -/

/-- A delimiter comes next, or nothing. -/
def Ends (r : List Char) : Prop := ∀ c, r.head? = some c → c = ',' ∨ c = ']' ∨ c = '\x7d'

/-- A run of characters of one kind ends where another kind begins. -/
theorem run_cancel {α : Type} {p : α → Bool} {x x' r r' : List α} (hx : ∀ a ∈ x, p a = true)
    (hx' : ∀ a ∈ x', p a = true) (hr : ∀ a, r.head? = some a → p a = false)
    (hr' : ∀ a, r'.head? = some a → p a = false) (h : x ++ r = x' ++ r') : x = x' ∧ r = r' := by
  have htake : ∀ l t : List α, (∀ a ∈ l, p a = true) → (∀ a, t.head? = some a → p a = false) →
      (l ++ t).takeWhile p = l := by
    intro l t hl ht
    rw [List.takeWhile_append_of_pos hl]
    cases t with
    | nil => simp
    | cons a t => simp [ht a rfl]
  have heq := congrArg (List.takeWhile p) h
  rw [htake x r hx hr, htake x' r' hx' hr'] at heq
  subst heq
  exact ⟨rfl, List.append_cancel_left h⟩

def isNumberChar (c : Char) : Bool := c = '-' || c.isDigit

theorem isNumberChar_of_ends {r : List Char} (hr : Ends r) (c : Char) (hc : r.head? = some c) :
    isNumberChar c = false := by
  rcases hr c hc with rfl | rfl | rfl <;> rfl

/-- A sign, if there is one, and the digits. -/
theorem toList_toString_int (i : Int) : (toString i).toList =
    (if i < 0 then ['-'] else []) ++ Nat.toDigits 10 i.natAbs := by
  rw [Int.toString_eq_repr, Int.repr_eq_if]
  by_cases h : 0 ≤ i
  · rw [if_pos h, if_neg (by omega), Nat.toList_repr]
    congr 1
    omega
  · rw [if_neg h, if_pos (by omega), String.toList_append, Nat.toList_repr]
    congr 2
    omega

theorem isDigit_of_mem_toDigits {n : Nat} {c : Char} (hc : c ∈ Nat.toDigits 10 n) :
    c.isDigit = true :=
  Nat.isDigit_of_mem_toDigits (by decide) (by decide) hc

theorem isNumberChar_of_mem {i : Int} {c : Char} (hc : c ∈ (toString i).toList) :
    isNumberChar c = true := by
  rw [toList_toString_int, List.mem_append] at hc
  unfold isNumberChar
  rcases hc with hc | hc
  · split at hc
    · rw [List.mem_singleton.mp hc]
      rfl
    · cases hc
  · rw [isDigit_of_mem_toDigits hc, Bool.or_true]

theorem toString_int_inj {i j : Int} (h : (toString i).toList = (toString j).toList) : i = j := by
  have hsign : ∀ n : Nat, (Nat.toDigits 10 n).head? ≠ some '-' := by
    intro n hn
    have hdigit := isDigit_of_mem_toDigits (List.mem_of_mem_head? hn)
    cases hdigit
  have hvalue : ∀ m n : Nat, Nat.toDigits 10 m = Nat.toDigits 10 n → m = n := by
    intro m n hmn
    rw [← Nat.ofDigitChars_ten_toDigits (n := m), hmn, Nat.ofDigitChars_ten_toDigits]
  rw [toList_toString_int, toList_toString_int] at h
  by_cases hi : i < 0 <;> by_cases hj : j < 0
  · rw [if_pos hi, if_pos hj] at h
    have habs := hvalue _ _ (List.append_cancel_left h)
    omega
  · rw [if_pos hi, if_neg hj] at h
    exact absurd (congrArg List.head? h).symm (hsign _)
  · rw [if_neg hi, if_pos hj] at h
    exact absurd (congrArg List.head? h) (hsign _)
  · rw [if_neg hi, if_neg hj] at h
    have habs := hvalue _ _ h
    omega

theorem int_append_cancel {i j : Int} {r s : List Char} (hr : Ends r) (hs : Ends s)
    (h : (toString i).toList ++ r = (toString j).toList ++ s) : i = j ∧ r = s := by
  obtain ⟨hij, hrs⟩ := run_cancel (fun _ => isNumberChar_of_mem) (fun _ => isNumberChar_of_mem)
    (isNumberChar_of_ends hr) (isNumberChar_of_ends hs) h
  exact ⟨toString_int_inj hij, hrs⟩

/-! ## Items between brackets -/

/-- What follows the first item. -/
def restText (ts : List String) : List Char := ts.flatMap fun t => ',' :: t.toList

theorem toList_joinWith (t : String) (ts : List String) :
    (joinWith "," (t :: ts)).toList = t.toList ++ restText ts := by
  induction ts generalizing t with
  | nil => simp [joinWith, restText]
  | cons u ts ih =>
    rw [joinWith, String.toList_append, String.toList_append, ih]
    simp [restText]

theorem comma_joinWith (t : String) (ts : List String) (r : List Char) :
    ',' :: ((joinWith "," (t :: ts)).toList ++ r) = restText (t :: ts) ++ r := by
  rw [toList_joinWith]
  simp [restText]

theorem ends_restText {close : Char} (hclose : close = ']' ∨ close = '\x7d') (ts : List String)
    (r : List Char) : Ends (restText ts ++ close :: r) := by
  intro c hc
  cases ts with
  | nil =>
    cases hc
    exact Or.inr hclose
  | cons t ts =>
    cases hc
    exact Or.inl rfl

section

variable {α β : Type} {f : α → String} {g : β → String} {R : α → β → Prop} {as : List α}
  {bs : List β} {close : Char} {r s : List Char}

theorem restText_cancel
    (hitem : ∀ a ∈ as, ∀ b ∈ bs, ∀ r s, Ends r → Ends s →
      (f a).toList ++ r = (g b).toList ++ s → R a b ∧ r = s)
    (hclose : close = ']' ∨ close = '\x7d')
    (h : restText (as.map f) ++ close :: r = restText (bs.map g) ++ close :: s) :
    List.Forall₂ R as bs ∧ r = s := by
  have hcomma : close ≠ ',' := by
    rcases hclose with rfl | rfl <;> decide
  -- on the items; a comma goes on with the next one, the bracket ends both
  induction as generalizing bs with
  | nil =>
    cases bs with
    | nil => exact ⟨List.Forall₂.nil, (List.cons.inj h).2⟩
    | cons b bs => exact absurd (List.cons.inj h).1 hcomma
  | cons a as ih =>
    cases bs with
    | nil => exact absurd (List.cons.inj h).1.symm hcomma
    | cons b bs =>
      have hcons : ∀ (t : String) (ts : List String) (r : List Char),
          restText (t :: ts) ++ close :: r = ',' :: (t.toList ++ (restText ts ++ close :: r)) := by
        intro t ts r
        simp [restText]
      rw [List.map_cons, List.map_cons, hcons, hcons] at h
      obtain ⟨hab, hrest⟩ := hitem a List.mem_cons_self b List.mem_cons_self _ _
        (ends_restText hclose _ _) (ends_restText hclose _ _) (List.cons.inj h).2
      obtain ⟨hall, hrs⟩ := ih
        (fun a ha b hb => hitem a (List.mem_cons_of_mem _ ha) b (List.mem_cons_of_mem _ hb)) hrest
      exact ⟨List.Forall₂.cons hab hall, hrs⟩

/-- **Items** are told apart if each can be, and none starts with the
    closing bracket. -/
theorem items_cancel
    (hitem : ∀ a ∈ as, ∀ b ∈ bs, ∀ r s, Ends r → Ends s →
      (f a).toList ++ r = (g b).toList ++ s → R a b ∧ r = s)
    (hopen : ∀ a ∈ as, ∃ c cs, (f a).toList = c :: cs ∧ c ≠ close)
    (hopen' : ∀ b ∈ bs, ∃ c cs, (g b).toList = c :: cs ∧ c ≠ close)
    (hclose : close = ']' ∨ close = '\x7d')
    (h : (joinWith "," (as.map f)).toList ++ close :: r =
      (joinWith "," (bs.map g)).toList ++ close :: s) : List.Forall₂ R as bs ∧ r = s := by
  cases as with
  | nil =>
    cases bs with
    | nil => exact ⟨List.Forall₂.nil, (List.cons.inj h).2⟩
    | cons b bs =>
      obtain ⟨c, cs, htext, hc⟩ := hopen' b List.mem_cons_self
      rw [List.map_cons, toList_joinWith, htext] at h
      exact absurd (List.cons.inj h).1.symm hc
  | cons a as =>
    cases bs with
    | nil =>
      obtain ⟨c, cs, htext, hc⟩ := hopen a List.mem_cons_self
      rw [List.map_cons, toList_joinWith, htext] at h
      exact absurd (List.cons.inj h).1 hc
    | cons b bs =>
      -- with a comma in front the first items are like the others
      have hcomma := congrArg (List.cons ',') h
      rw [List.map_cons, List.map_cons, comma_joinWith, comma_joinWith, ← List.map_cons,
        ← List.map_cons] at hcomma
      exact restText_cancel hitem hclose hcomma

end

/-! ## Values without floats -/

mutual

/-- No float occurs in the value. -/
def floatless : PyVal → Bool
  | .float _ => false
  | .list xs => floatlessList xs
  | .dict es => floatlessFields es
  | _ => true

def floatlessList : List PyVal → Bool
  | [] => true
  | x :: xs => floatless x && floatlessList xs

def floatlessFields : List (String × PyVal) → Bool
  | [] => true
  | (_, v) :: es => floatless v && floatlessFields es

end

theorem wfList_iff {xs : List PyVal} : wfList xs = true ↔ ∀ x ∈ xs, wf x = true := by
  induction xs with
  | nil => simp [wfList]
  | cons x xs ih => simp [wfList, ih]

theorem wfFields_iff {es : List (String × PyVal)} :
    wfFields es = true ↔ ∀ p ∈ es, wf p.2 = true := by
  induction es with
  | nil => simp [wfFields]
  | cons e es ih => simp [wfFields, ih]

theorem floatlessList_iff {xs : List PyVal} :
    floatlessList xs = true ↔ ∀ x ∈ xs, floatless x = true := by
  induction xs with
  | nil => simp [floatlessList]
  | cons x xs ih => simp [floatlessList, ih]

theorem floatlessFields_iff {es : List (String × PyVal)} :
    floatlessFields es = true ↔ ∀ p ∈ es, floatless p.2 = true := by
  induction es with
  | nil => simp [floatlessFields]
  | cons e es ih => simp [floatlessFields, ih]

/-- The text of a JSON value. -/
def text (v : PyVal) : String :=
  match dumps v with
  | .ok t => t
  | .error _ => ""

def entryText (p : String × PyVal) : String := quote p.1 ++ ":" ++ text p.2

theorem dumps_eq_text {v : PyVal} (h : wf v = true) : dumps v = .ok (text v) := by
  obtain ⟨t, ht⟩ := dumps_ok_of_wf v h
  unfold text
  rw [ht]

theorem dumpsList_eq_text {xs : List PyVal} (h : wfList xs = true) :
    dumpsList xs = .ok (xs.map text) := by
  induction xs with
  | nil => rfl
  | cons x xs ih =>
    simp only [wfList, Bool.and_eq_true] at h
    rw [dumpsList, dumps_eq_text h.1, ih h.2]
    rfl

theorem dumpsFields_eq_text {es : List (String × PyVal)} (h : wfFields es = true) :
    dumpsFields es = .ok (es.map fun p => (p.1, text p.2)) := by
  induction es with
  | nil => rfl
  | cons e es ih =>
    obtain ⟨k, v⟩ := e
    simp only [wfFields, Bool.and_eq_true] at h
    rw [dumpsFields, dumps_eq_text h.1, ih h.2]
    rfl

theorem text_list {xs : List PyVal} (h : wfList xs = true) :
    text (.list xs) = "[" ++ joinWith "," (xs.map text) ++ "]" := by
  unfold text
  rw [dumps, dumpsList_eq_text h]
  rfl

/-- The entries of a dictionary stand in the order of their keys. -/
theorem text_dict {es : List (String × PyVal)} (h : wfFields es = true) :
    text (.dict es) =
      "\x7b" ++ joinWith "," ((StableSort.sortBy Prod.fst es).map entryText) ++ "\x7d" := by
  unfold text
  rw [dumps, dumpsFields_eq_text h]
  show objectText _ = _
  unfold objectText
  rw [StableSort.sortBy_map, List.map_map]
  rfl

/-! ## Equal texts -/

/-- The first character of the text, with a zero for every number. -/
def initial : PyVal → Char
  | .null => 'n'
  | .bool true => 't'
  | .bool false => 'f'
  | .int _ => '0'
  | .float _ => '.'
  | .str _ => '"'
  | .list _ => '['
  | .dict _ => '\x7b'
  | .foreign _ _ => '?'

theorem initial_ne_close (v : PyVal) : initial v ≠ ']' ∧ initial v ≠ '\x7d' := by
  rcases v with _ | (_ | _) | _ | _ | _ | _ | _ | _ <;> simp [initial]

theorem text_head {v : PyVal} (h : wf v = true) (hf : floatless v = true) :
    ∃ c cs, (text v).toList = c :: cs ∧ (if isNumberChar c then '0' else c) = initial v := by
  rcases v with _ | (_ | _) | i | _ | t | xs | es | _
  · exact ⟨_, _, rfl, rfl⟩
  · exact ⟨_, _, rfl, rfl⟩
  · exact ⟨_, _, rfl, rfl⟩
  · show ∃ c cs, (toString i).toList = c :: cs ∧ _
    cases htext : (toString i).toList with
    | nil =>
      rw [toList_toString_int] at htext
      exact absurd (List.append_eq_nil_iff.mp htext).2 Nat.toDigits_ne_nil
    | cons c cs =>
      have hc : isNumberChar c = true := isNumberChar_of_mem (htext ▸ List.mem_cons_self)
      exact ⟨c, cs, rfl, if_pos hc⟩
  · cases hf
  · show ∃ c cs, (quote t).toList = c :: cs ∧ _
    unfold quote
    rw [String.toList_append, String.toList_append]
    exact ⟨_, _, rfl, rfl⟩
  · rw [text_list h, String.toList_append, String.toList_append]
    exact ⟨_, _, rfl, rfl⟩
  · simp only [wf, Bool.and_eq_true] at h
    rw [text_dict h.2, String.toList_append, String.toList_append]
    exact ⟨_, _, rfl, rfl⟩
  · cases h

/-- No text starts with a closing bracket. -/
theorem text_ne_close {v : PyVal} (h : wf v = true) (hf : floatless v = true) {close : Char}
    (hclose : close = ']' ∨ close = '\x7d') : ∃ c cs, (text v).toList = c :: cs ∧ c ≠ close := by
  obtain ⟨c, cs, htext, hinitial⟩ := text_head h hf
  refine ⟨c, cs, htext, ?_⟩
  rintro rfl
  have hnot := initial_ne_close v
  rw [← hinitial] at hnot
  rcases hclose with rfl | rfl
  · exact hnot.1 rfl
  · exact hnot.2 rfl

/-- Values with equal texts are of one kind. -/
theorem initial_eq {v w : PyVal} (hv : wf v = true) (hfv : floatless v = true) (hw : wf w = true)
    (hfw : floatless w = true) {r s : List Char}
    (h : (text v).toList ++ r = (text w).toList ++ s) : initial v = initial w := by
  obtain ⟨c, cs, htext, hc⟩ := text_head hv hfv
  obtain ⟨d, ds, htext', hd⟩ := text_head hw hfw
  rw [htext, htext'] at h
  rw [← hc, ← hd, (List.cons.inj h).1]

/-- The text of the value tells the value, whatever comes after it. -/
def Readable (v : PyVal) : Prop :=
  ∀ w, wf w = true → floatless w = true → ∀ r s, Ends r → Ends s →
    (text v).toList ++ r = (text w).toList ++ s → same v w = true ∧ r = s

theorem sameList_of_forall₂ {xs ys : List PyVal}
    (h : List.Forall₂ (fun x y => same x y = true) xs ys) : sameList xs ys = true := by
  induction h with
  | nil => rfl
  | cons hxy _ ih => simp [sameList, hxy, ih]

theorem exists_of_forall₂ {α β : Type} {R : α → β → Prop} {as : List α} {bs : List β}
    (h : List.Forall₂ R as bs) {a : α} (ha : a ∈ as) : ∃ b ∈ bs, R a b := by
  induction h with
  | nil => exact absurd ha List.not_mem_nil
  | cons hab _ ih =>
    rcases List.mem_cons.mp ha with rfl | ha
    · exact ⟨_, List.mem_cons_self, hab⟩
    · obtain ⟨b, hb, hR⟩ := ih ha
      exact ⟨b, List.mem_cons_of_mem _ hb, hR⟩

theorem same_dict_of_forall₂ {es fs : List (String × PyVal)} (hfs : (fs.map Prod.fst).Nodup)
    (h : List.Forall₂ (fun p q => p.1 = q.1 ∧ same p.2 q.2 = true)
      (StableSort.sortBy Prod.fst es) (StableSort.sortBy Prod.fst fs)) :
    same (.dict es) (.dict fs) = true := by
  have hlen := h.length_eq
  rw [StableSort.length_sortBy, StableSort.length_sortBy] at hlen
  have hentry : ∀ p ∈ es, ∃ v', fs.lookup p.1 = some v' ∧ same p.2 v' = true := by
    intro p hp
    obtain ⟨q, hq, hkey, hsame⟩ := exists_of_forall₂ h ((StableSort.mem_sortBy Prod.fst).mpr hp)
    rw [hkey]
    exact ⟨q.2, lookup_of_mem hfs ((StableSort.mem_sortBy Prod.fst).mp hq), hsame⟩
  simp only [same, Bool.and_eq_true, beq_iff_eq, sameFields_iff]
  exact ⟨hlen, hentry⟩

theorem Readable.entry {p q : String × PyVal} (h : Readable p.2) (hw : wf q.2 = true)
    (hf : floatless q.2 = true) {r s : List Char} (hr : Ends r) (hs : Ends s)
    (htext : (entryText p).toList ++ r = (entryText q).toList ++ s) :
    (p.1 = q.1 ∧ same p.2 q.2 = true) ∧ r = s := by
  have hsplit : ∀ (e : String × PyVal) (t : List Char),
      (entryText e).toList ++ t = (quote e.1).toList ++ ':' :: ((text e.2).toList ++ t) := by
    intro e t
    simp [entryText, String.toList_append]
  rw [hsplit, hsplit] at htext
  obtain ⟨hkey, hrest⟩ := quote_append_cancel htext
  obtain ⟨hsame, hrs⟩ := h q.2 hw hf r s hr hs (List.cons.inj hrest).2
  exact ⟨⟨hkey, hsame⟩, hrs⟩

theorem readable_list {xs : List PyVal} (hwf : wfList xs = true) (hf : floatlessList xs = true)
    (hread : ∀ x ∈ xs, Readable x) : Readable (.list xs) := by
  intro w hw hfw r s _ _ h
  have hkind := initial_eq (v := .list xs) hwf hf hw hfw h
  cases w with
  | list ys =>
    rw [text_list hwf, text_list hw] at h
    simp only [String.toList_append, List.append_assoc] at h
    have hinner := List.append_cancel_left h
    obtain ⟨hall, hrs⟩ := items_cancel
      (fun x hx y hy r s hr hs hxy => hread x hx y (wfList_iff.mp hw y hy)
        (floatlessList_iff.mp hfw y hy) r s hr hs hxy)
      (fun x hx => text_ne_close (wfList_iff.mp hwf x hx) (floatlessList_iff.mp hf x hx) (Or.inl rfl))
      (fun y hy => text_ne_close (wfList_iff.mp hw y hy) (floatlessList_iff.mp hfw y hy) (Or.inl rfl))
      (Or.inl rfl) hinner
    exact ⟨sameList_of_forall₂ hall, hrs⟩
  | bool b => cases b <;> cases hkind
  | _ => cases hkind

theorem readable_dict {es : List (String × PyVal)} (hwf : wf (.dict es) = true)
    (hf : floatlessFields es = true) (hread : ∀ p ∈ es, Readable p.2) : Readable (.dict es) := by
  intro w hw hfw r s _ _ h
  have hkind := initial_eq (v := .dict es) hwf hf hw hfw h
  cases w with
  | dict fs =>
    simp only [wf, Bool.and_eq_true, decide_eq_true_eq] at hwf hw
    rw [text_dict hwf.2, text_dict hw.2] at h
    simp only [String.toList_append, List.append_assoc] at h
    have hinner := List.append_cancel_left h
    have hquote : ∀ p : String × PyVal, ∃ c cs, (entryText p).toList = c :: cs ∧ c ≠ '\x7d' := by
      intro p
      unfold entryText quote
      simp only [String.toList_append, List.append_assoc]
      exact ⟨_, _, rfl, by decide⟩
    obtain ⟨hall, hrs⟩ := items_cancel
      (fun p hp q hq r s hr hs hpq =>
        (hread p ((StableSort.mem_sortBy _).mp hp)).entry
          (wfFields_iff.mp hw.2 q ((StableSort.mem_sortBy _).mp hq))
          (floatlessFields_iff.mp hfw q ((StableSort.mem_sortBy _).mp hq)) hr hs hpq)
      (fun p _ => hquote p) (fun q _ => hquote q) (Or.inr rfl) hinner
    exact ⟨same_dict_of_forall₂ hw.1 hall, hrs⟩
  | bool b => cases b <;> cases hkind
  | _ => cases hkind

mutual

/-- **Reading**: on the value; every part of the text is read in turn. -/
theorem readable : ∀ v, wf v = true → floatless v = true → Readable v
  | .null, hv, hf => by
    intro w hw hfw r s _ _ h
    have hkind := initial_eq hv hf hw hfw h
    cases w with
    | null => exact ⟨rfl, List.append_cancel_left h⟩
    | bool b => cases b <;> cases hkind
    | _ => cases hkind
  | .bool a, hv, hf => by
    intro w hw hfw r s _ _ h
    have hkind := initial_eq hv hf hw hfw h
    cases w with
    | bool b =>
      have hab : a = b := by cases a <;> cases b <;> first | rfl | cases hkind
      subst hab
      exact ⟨beq_self_eq_true a, List.append_cancel_left h⟩
    | _ => cases a <;> cases hkind
  | .int i, hv, hf => by
    intro w hw hfw r s hr hs h
    have hkind := initial_eq hv hf hw hfw h
    cases w with
    | int j =>
      obtain ⟨rfl, hrs⟩ := int_append_cancel hr hs h
      exact ⟨beq_self_eq_true i, hrs⟩
    | bool b => cases b <;> cases hkind
    | _ => cases hkind
  | .str t, hv, hf => by
    intro w hw hfw r s _ _ h
    have hkind := initial_eq hv hf hw hfw h
    cases w with
    | str u =>
      obtain ⟨rfl, hrs⟩ := quote_append_cancel h
      exact ⟨beq_self_eq_true t, hrs⟩
    | bool b => cases b <;> cases hkind
    | _ => cases hkind
  | .list xs, hv, hf => readable_list hv hf (readable_items xs hv hf)
  | .dict es, hv, hf => by
    have hfields := hv
    simp only [wf, Bool.and_eq_true] at hfields
    exact readable_dict hv hf (readable_entries es hfields.2 hf)

theorem readable_items : ∀ xs, wfList xs = true → floatlessList xs = true → ∀ x ∈ xs, Readable x
  | [], _, _ => fun _ hx => absurd hx List.not_mem_nil
  | y :: xs, hv, hf => by
    simp only [wfList, floatlessList, Bool.and_eq_true] at hv hf
    exact List.forall_mem_cons.mpr ⟨readable y hv.1 hf.1, readable_items xs hv.2 hf.2⟩

theorem readable_entries : ∀ es, wfFields es = true → floatlessFields es = true →
    ∀ p ∈ es, Readable p.2
  | [], _, _ => fun _ hp => absurd hp List.not_mem_nil
  | (k, v) :: es, hv, hf => by
    simp only [wfFields, floatlessFields, Bool.and_eq_true] at hv hf
    exact List.forall_mem_cons.mpr ⟨readable v hv.1 hf.1, readable_entries es hv.2 hf.2⟩

end

/-- **One reading**: values without floats that have one text are the same
    JSON value. -/
theorem same_of_dumps_eq {v w : PyVal} (hv : wf v = true) (hfv : floatless v = true)
    (hw : wf w = true) (hfw : floatless w = true) (h : dumps v = dumps w) : same v w = true := by
  rw [dumps_eq_text hv, dumps_eq_text hw, Except.ok.injEq] at h
  have hnone : Ends [] := fun c hc => by cases hc
  exact (readable v hv hfv w hw hfw [] [] hnone hnone (by rw [h])).1

end PyVal

end Python
