import Mathlib.Order.Basic
import Mathlib.Order.Lattice

/-! # Exceptions and timestamps

    * `PyErr`: a raised exception, its class and its message. The classes
      are those of `shared/errors/errors.py` and the ones of Python, `re`
      and SQLAlchemy that reach the daemon's code.
    * `DateTime`: `datetime.datetime`, aware (with a UTC offset) or naive.
      It is compared by the instant it denotes, a naive one being read as
      UTC, which is what every comparison of the code does after its
      `_as_utc`. -/

namespace RulesEnrichment

/-! ## Exceptions -/

inductive ErrorClass where
  | TypeError
  | AttributeError
  | OverflowError
  /-- `re.error` -/
  | PatternError
  | InvalidRuleDefinitionError
  | EnrichmentSubmissionError
  | ExternalApiTimeoutError
  | ExternalApiUnavailableError
  /-- `sqlalchemy.exc.StatementError`: a parameter could not be encoded. -/
  | StatementError
  /-- `sqlalchemy.exc.IntegrityError`: a primary key is taken. -/
  | IntegrityError
  /-- Any other error of the database. -/
  | OperationalError
  /-- Any other exception class, by name. -/
  | other (name : String)
  deriving DecidableEq, Repr

structure PyErr where
  cls : ErrorClass
  /-- `str(exc)`, without the statement that an error of the database shows. -/
  msg : String
  deriving DecidableEq, Repr

/-! ## Calendar arithmetic -/

def isLeap (y : Nat) : Bool := y % 4 = 0 ∧ (y % 100 ≠ 0 ∨ y % 400 = 0)

def daysInMonth (y m : Nat) : Nat :=
  if m = 2 then (if isLeap y then 29 else 28)
  else if m = 4 ∨ m = 6 ∨ m = 9 ∨ m = 11 then 30
  else 31

def daysBeforeYear (y : Nat) : Nat :=
  (y - 1) * 365 + (y - 1) / 4 - (y - 1) / 100 + (y - 1) / 400

def daysBeforeMonth (y : Nat) : Nat → Nat
  | 0 => 0
  | 1 => 0
  | m + 2 => daysBeforeMonth y (m + 1) + daysInMonth y (m + 1)

/-- Microseconds in a day. -/
def dayMicros : Nat := 86400000000

/-! ## Timestamps -/

/-- What `datetime` checks of its fields; a UTC offset lies strictly
    within a day. -/
def validDateTime (year month day hour minute second microsecond : Nat)
    (utcoffset : Option Int) : Bool :=
  1 ≤ year ∧ year ≤ 9999 ∧ 1 ≤ month ∧ month ≤ 12 ∧ 1 ≤ day ∧ day ≤ daysInMonth year month ∧
    hour < 24 ∧ minute < 60 ∧ second < 60 ∧ microsecond < 1000000 ∧
    (utcoffset.getD 0).natAbs < dayMicros

structure DateTime where
  year : Nat
  month : Nat
  day : Nat
  hour : Nat := 0
  minute : Nat := 0
  second : Nat := 0
  microsecond : Nat := 0
  /-- The UTC offset in microseconds; `none` for a naive timestamp. -/
  utcoffset : Option Int := some 0
  valid : validDateTime year month day hour minute second microsecond utcoffset = true := by decide
  deriving DecidableEq

namespace DateTime

/-- `toordinal()`: 1 January of the year 1 is day 1. -/
def toordinal (d : DateTime) : Nat :=
  daysBeforeYear d.year + daysBeforeMonth d.year d.month + d.day

/-- Microseconds shown by the wall clock since the start of day 0. -/
def wallMicros (d : DateTime) : Int :=
  (((d.toordinal * 24 + d.hour) * 60 + d.minute) * 60 + d.second) * 1000000 + d.microsecond

/-- The instant denoted, in microseconds; a naive timestamp is read as UTC. -/
def instant (d : DateTime) : Int := d.wallMicros - d.utcoffset.getD 0

instance : Preorder DateTime where
  le a b := a.instant ≤ b.instant
  lt a b := a.instant < b.instant
  le_refl a := Int.le_refl a.instant
  le_trans _ _ _ := Int.le_trans
  lt_iff_le_not_ge _ _ := Int.lt_iff_le_and_not_ge

theorem le_def (a b : DateTime) : a ≤ b ↔ a.instant ≤ b.instant := Iff.rfl

theorem lt_def (a b : DateTime) : a < b ↔ a.instant < b.instant := Iff.rfl

instance (a b : DateTime) : Decidable (a ≤ b) :=
  decidable_of_iff (a.instant ≤ b.instant) (le_def a b).symm

instance (a b : DateTime) : Decidable (a < b) :=
  decidable_of_iff (a.instant < b.instant) (lt_def a b).symm

theorem le_total (a b : DateTime) : a ≤ b ∨ b ≤ a := by
  rw [le_def, le_def]
  omega

/-- Python's `max(a, b)`: the first argument, unless the second is greater. -/
def pyMax (a b : DateTime) : DateTime := if a < b then b else a

theorem pyMax_le_iff (a b c : DateTime) : pyMax a b ≤ c ↔ a ≤ c ∧ b ≤ c := by
  unfold pyMax
  split
  · next h =>
    rw [lt_def] at h
    simp only [le_def]
    omega
  · next h =>
    rw [lt_def] at h
    simp only [le_def]
    omega

/-- `value.replace(tzinfo=timezone.utc)` where there is no time zone yet
    (`EnrichmentFacade._as_utc`). -/
def asUtc (d : DateTime) : DateTime :=
  match h : d.utcoffset with
  | some _ => d
  -- the fields stay, and a naive timestamp has been read as UTC all along
  | none => { d with
      utcoffset := some 0
      valid := by
        have hv := d.valid
        rw [h] at hv
        exact hv }

@[simp] theorem instant_asUtc (d : DateTime) : d.asUtc.instant = d.instant := by
  unfold asUtc
  split
  · rfl
  · next h => simp [instant, wallMicros, toordinal, h]

theorem asUtc_le_iff (a b : DateTime) : a.asUtc ≤ b ↔ a ≤ b := by
  rw [le_def, le_def, instant_asUtc]

/-- `_as_utc` of `enrichment_rule.py`, as an instant. `astimezone` raises
    where the UTC date falls outside the years 1 to 9999. -/
def asUtcInstant (d : DateTime) : Except PyErr Int :=
  match d.utcoffset with
  | none => .ok d.instant
  | some _ =>
    -- days 1 to 3652059 are the years 1 to 9999
    if (dayMicros : Int) ≤ d.instant ∧ d.instant < (3652060 * dayMicros : Nat) then .ok d.instant
    else .error ⟨.OverflowError, "date value out of range"⟩

/-! ## ISO text -/

/-- Decimal digits, padded with zeros to `width`. -/
def zfill (width n : Nat) : String :=
  let ds := Nat.toDigits 10 n
  String.ofList (List.replicate (width - ds.length) '0' ++ ds)

def offsetText (us : Int) : String :=
  let a := us.natAbs
  (if us < 0 then "-" else "+") ++ zfill 2 (a / 3600000000) ++ ":" ++
    zfill 2 (a / 60000000 % 60) ++
    (if a % 60000000 = 0 then ""
     else ":" ++ zfill 2 (a / 1000000 % 60) ++
      (if a % 1000000 = 0 then "" else "." ++ zfill 6 (a % 1000000)))

/-- `isoformat(sep)` -/
def format (sep : String) (d : DateTime) : String :=
  zfill 4 d.year ++ "-" ++ zfill 2 d.month ++ "-" ++ zfill 2 d.day ++ sep ++
    zfill 2 d.hour ++ ":" ++ zfill 2 d.minute ++ ":" ++ zfill 2 d.second ++
    (if d.microsecond = 0 then "" else "." ++ zfill 6 d.microsecond) ++
    (match d.utcoffset with
      | none => ""
      | some us => offsetText us)

def isoformat (d : DateTime) : String := d.format "T"

end DateTime

end RulesEnrichment
