import RulesEnrichment.Decoding
import RulesEnrichment.HashContent
import RulesEnrichment.RoundTrip

/-! # The hash and the text of a timestamp

    An ISO text denotes an instant, whatever offset it has. But
    `_parse_datetime` keeps the offset and `isoformat` writes it, so two
    texts of one instant give one hash if and only if they have the same
    UTC offset (`rewritten_hash_iff`). -/

namespace RulesEnrichment

open Python Fallible IsoFormat ManhattanSimulatorHttpClient

/-! ## A date is determined by its ordinal -/

section blocks

variable {start size : Nat → Nat}

/-- Blocks that follow one another. -/
theorem block_le (hnext : ∀ i, 1 ≤ i → start (i + 1) = start i + size i) {i j : Nat}
    (hi : 1 ≤ i) (hlt : i < j) : start i + size i ≤ start j := by
  induction j with
  | zero => omega
  | succ k ih =>
    rw [hnext k (by omega)]
    by_cases hlast : i = k
    · rw [hlast]
    · have hbefore := ih (by omega)
      omega

/-- A position lies in one of them. -/
theorem block_unique (hnext : ∀ i, 1 ≤ i → start (i + 1) = start i + size i) {i j a b : Nat}
    (hi : 1 ≤ i) (hj : 1 ≤ j) (ha : 1 ≤ a ∧ a ≤ size i) (hb : 1 ≤ b ∧ b ≤ size j)
    (hsame : start i + a = start j + b) : i = j ∧ a = b := by
  have hij : i = j := by
    rcases Nat.lt_trichotomy i j with hlt | heq | hgt
    · have hblock := block_le hnext hi hlt
      omega
    · exact heq
    · have hblock := block_le hnext hj hgt
      omega
  subst hij
  exact ⟨rfl, by omega⟩

end blocks

theorem daysBeforeMonth_succ (y m : Nat) (hm : 1 ≤ m) :
    daysBeforeMonth y (m + 1) = daysBeforeMonth y m + daysInMonth y m := by
  obtain ⟨m', rfl⟩ : ∃ m', m = m' + 1 := ⟨m - 1, by omega⟩
  rfl

def daysInYear (y : Nat) : Nat := if isLeap y then 366 else 365

theorem daysBeforeMonth_thirteen (y : Nat) : daysBeforeMonth y 13 = daysInYear y := by
  unfold daysInYear
  simp only [daysBeforeMonth, daysInMonth]
  cases isLeap y <;> rfl

theorem daysBeforeYear_succ (y : Nat) (hy : 1 ≤ y) :
    daysBeforeYear (y + 1) = daysBeforeYear y + daysInYear y := by
  obtain ⟨z, rfl⟩ : ∃ z, y = z + 1 := ⟨y - 1, by omega⟩
  have hle : z / 100 ≤ z / 4 := Nat.div_le_div_left (by decide) (by decide)
  unfold daysBeforeYear daysInYear isLeap
  simp only [Nat.add_sub_cancel, Nat.succ_div, Nat.dvd_iff_mod_eq_zero, decide_eq_true_eq]
  -- 400 is a multiple of 100, and 100 one of 4
  have h100 : (z + 1) % 100 = 0 → (z + 1) % 4 = 0 := by omega
  have h400 : (z + 1) % 400 = 0 → (z + 1) % 100 = 0 := by omega
  split_ifs <;> omega

namespace DateTime

/-- The day's place in its year. -/
theorem dayOfYear_le (d : DateTime) : 1 ≤ daysBeforeMonth d.year d.month + d.day ∧
    daysBeforeMonth d.year d.month + d.day ≤ daysInYear d.year := by
  have hvalid := d.valid
  simp only [validDateTime, decide_eq_true_eq] at hvalid
  obtain ⟨_, _, hm, hm', hd, hd', _⟩ := hvalid
  have hyear := block_le (daysBeforeMonth_succ d.year) hm (Nat.lt_succ_of_le hm')
  rw [daysBeforeMonth_thirteen] at hyear
  omega

theorem date_eq_of_toordinal {d d' : DateTime} (h : d.toordinal = d'.toordinal) :
    d.year = d'.year ∧ d.month = d'.month ∧ d.day = d'.day := by
  have hvalid := d.valid
  have hvalid' := d'.valid
  simp only [validDateTime, decide_eq_true_eq] at hvalid hvalid'
  obtain ⟨hy, _, hm, _, hd, hd', _⟩ := hvalid
  obtain ⟨hy₁, _, hm₁, _, hd₁, hd₁', _⟩ := hvalid'
  unfold toordinal at h
  rw [Nat.add_assoc, Nat.add_assoc] at h
  obtain ⟨hyear, hrest⟩ := block_unique daysBeforeYear_succ hy hy₁ d.dayOfYear_le d'.dayOfYear_le h
  rw [← hyear] at hrest hd₁'
  obtain ⟨hmonth, hday⟩ := block_unique (daysBeforeMonth_succ d.year) hm hm₁ ⟨hd, hd'⟩
    ⟨hd₁, hd₁'⟩ hrest
  exact ⟨hyear, hmonth, hday⟩

/-- **One offset** and one instant make one timestamp. -/
theorem eq_of_instant {d d' : DateTime} (hinstant : d.instant = d'.instant)
    (hoffset : d.utcoffset = d'.utcoffset) : d = d' := by
  have hvalid := d.valid
  have hvalid' := d'.valid
  simp only [validDateTime, decide_eq_true_eq] at hvalid hvalid'
  obtain ⟨_, _, _, _, _, _, hh, hm, hs, hus, _⟩ := hvalid
  obtain ⟨_, _, _, _, _, _, hh', hm', hs', hus', _⟩ := hvalid'
  unfold instant wallMicros at hinstant
  rw [hoffset] at hinstant
  have hday : d.toordinal = d'.toordinal := by omega
  have hhour : d.hour = d'.hour := by omega
  have hminute : d.minute = d'.minute := by omega
  have hsecond : d.second = d'.second := by omega
  have hmicro : d.microsecond = d'.microsecond := by omega
  obtain ⟨hyear, hmonth, hdom⟩ := date_eq_of_toordinal hday
  cases d
  cases d'
  simp_all

theorem isoformat_injective : Function.Injective DateTime.isoformat := by
  intro d d' h
  have hread := fromisoformat_format id d (show "T".toList = ['T'] from rfl)
  have hread' := fromisoformat_format id d' (show "T".toList = ['T'] from rfl)
  change fromisoformat id d.isoformat = .ok d at hread
  change fromisoformat id d'.isoformat = .ok d' at hread'
  rw [h, hread'] at hread
  exact (Except.ok.inj hread).symm

end DateTime

/-! ## What a text denotes -/

/-- A timestamp as it is written. Without a UTC offset it is in UTC. -/
structure WrittenTime where
  date : Nat × Nat × Nat
  time : Clock
  offset : Int
  deriving DecidableEq

namespace WrittenTime

/-- In microseconds, as `DateTime.instant`. -/
def instant (t : WrittenTime) : Int :=
  (((((daysBeforeYear t.date.1 + daysBeforeMonth t.date.1 t.date.2.1 + t.date.2.2) * 24 +
    t.time.hour) * 60 + t.time.minute) * 60 + t.time.second) * 1000000 + t.time.microsecond : Nat) -
      t.offset

end WrittenTime

/-- What an ISO text says, where `Z` stands for `+00:00`. -/
def writtenTime (text : String) : Option WrittenTime :=
  match parse (text.toList.flatMap fun c => if c = 'Z' then "+00:00".toList else [c]) with
  | none => none
  | some ((year, month, day), time, offset) =>
    if validDateTime year month day time.hour time.minute time.second time.microsecond offset then
      some ⟨(year, month, day), time, offset.getD 0⟩
    else none

theorem parseDatetime_writtenTime (rt : Runtime) {text : String} {t : WrittenTime}
    (ht : writtenTime text = some t) :
    ∃ d, parseDatetime rt text = .ok d ∧ d.instant = t.instant ∧ d.utcoffset = some t.offset := by
  unfold writtenTime at ht
  split at ht
  · cases ht
  · next year month day time offset hparse =>
    split_ifs at ht with hvalid
    cases ht
    let d : DateTime := ⟨year, month, day, time.hour, time.minute, time.second, time.microsecond,
      offset, hvalid⟩
    have hread : parseDatetime rt text = .ok d.asUtc := by
      unfold parseDatetime DateTime.fromisoformat
      simp only [String.toList_ofList, hparse, dif_pos hvalid]
      rfl
    refine ⟨d.asUtc, hread, ?_, ?_⟩
    · rw [DateTime.instant_asUtc]
      rfl
    · cases offset <;> rfl

/-! ## One order under two texts -/

section rewritten

variable {rt : Runtime} {data : OrderDocument} {text text' : String} {d d' : DateTime}

/-- The texts differ in `updated_at` only, so what is decoded does. -/
theorem toOrder_rewritten {o : ExternalOrder} (hd : parseDatetime rt text = .ok d)
    (hd' : parseDatetime rt text' = .ok d')
    (ho : toOrder rt { data with updatedAt := some text } = .ok o) :
    o.updatedAt = d ∧
      toOrder rt { data with updatedAt := some text' } = .ok { o with updatedAt := d' } := by
  unfold toOrder at ho ⊢
  simp only [bind_eq_ok, member_eq_ok] at ho ⊢
  obtain ⟨orderId, hid, clientCode, hclient, facilityCode, hfacility, orderType, htype, priority,
    hpriority, status, hstatus, source, hsource, destination, hdestination, weight, hweight,
    volume, hvolume, lines, hlines, createdAt, hcreated, updatedAt, ⟨value, hvalue, hparse⟩, ho⟩ := ho
  cases hvalue
  rw [hd] at hparse
  cases hparse
  cases ho
  exact ⟨rfl, orderId, hid, clientCode, hclient, facilityCode, hfacility, orderType, htype,
    priority, hpriority, status, hstatus, source, hsource, destination, hdestination, weight,
    hweight, volume, hvolume, lines, hlines, createdAt, hcreated, d', ⟨text', rfl, hd'⟩, rfl⟩

end rewritten

/-- Both documents are decoded, and the orders with their fields have one
    hash. -/
def HashedAlike (rt : Runtime) (data : OrderDocument) (text text' : String)
    (fields fields' : JsonObject) : Prop :=
  ∃ o o', toOrder rt { data with updatedAt := some text } = .ok o ∧
    toOrder rt { data with updatedAt := some text' } = .ok o' ∧
    computeHash rt o fields = computeHash rt o' fields'

/-- **Two texts of one instant** give one hash if and only if they have the
    same UTC offset. -/
theorem hashedAlike_iff_sameOffset {rt : Runtime} (hinj : Function.Injective rt.sha256)
    {data : OrderDocument} {text text' : String} {t t' : WrittenTime}
    (ht : writtenTime text = some t) (ht' : writtenTime text' = some t')
    (hinstant : t.instant = t'.instant)
    (hdata : (toOrder rt { data with updatedAt := some text }).isOk = true)
    {fields fields' : JsonObject} (hfields : fields.same fields' = true) :
    HashedAlike rt data text text' fields fields' ↔ t.offset = t'.offset := by
  obtain ⟨d, hd, hdinstant, hdoffset⟩ := parseDatetime_writtenTime rt ht
  obtain ⟨d', hd', hdinstant', hdoffset'⟩ := parseDatetime_writtenTime rt ht'
  obtain ⟨o, ho⟩ := isOk_iff.mp hdata
  obtain ⟨hupdated, ho'⟩ := toOrder_rewritten hd hd' ho
  have hid : o.orderId = ({ o with updatedAt := d' } : ExternalOrder).orderId := rfl
  constructor
  · rintro ⟨o₁, o₂, ho₁, ho₂, hhash⟩
    rw [ho] at ho₁
    rw [ho'] at ho₂
    cases ho₁
    cases ho₂
    obtain ⟨hash, hcomputed⟩ := computeHash_ok rt o fields
    rw [hcomputed] at hhash
    obtain ⟨htext, -⟩ := computeHash_inj hinj hid hcomputed hhash.symm
    have hsame : d = d' := hupdated ▸ DateTime.isoformat_injective htext
    rw [hsame, hdoffset'] at hdoffset
    exact (Option.some.inj hdoffset).symm
  · intro hoffset
    have hsame : d = d' := DateTime.eq_of_instant (by rw [hdinstant, hdinstant', hinstant])
      (by rw [hdoffset, hdoffset', hoffset])
    refine ⟨o, _, ho, ho', computeHash_eq_of_same rt hid ?_ hfields⟩
    rw [hupdated, hsame]

namespace Sample

/-- Ten o'clock UTC, as it is written there and in Italy. -/
def tenZulu : String := "2026-03-01T10:00:00Z"

def tenInMilan : String := "2026-03-01T11:00:00+01:00"

def lane : JsonObject := ⟨[("destination_lane", .str "ES01")], by decide⟩

def hashedAt (updatedAt : String) : String :=
  "\x7b\"enriched_fields\":\x7b\"destination_lane\":\"ES01\"\x7d,\"order_id\":\"O-1\"," ++
    "\"order_updated_at\":\"" ++ updatedAt ++ "\"\x7d"

def zuluDigest : String := "c6953821080e1e49140c4d4cb648fafe6e2d0b6d1116e5c9694ab7e7edd41e89"

def milanDigest : String := "f4a106abf321397000c3aa863ee01cb2c28e79e97282c6fb1b8f1b9b27bc19a9"

def zonedRuntime : Runtime :=
  hashing [(hashedAt "2026-03-01T10:00:00+00:00", zuluDigest),
    (hashedAt "2026-03-01T11:00:00+01:00", milanDigest)]

end Sample

theorem same_offset_hashed_alike :
    HashedAlike Sample.zonedRuntime Sample.document "2026-03-01T10:00:00" Sample.tenZulu Sample.lane
      Sample.lane := by
  have hbare : writtenTime "2026-03-01T10:00:00" = some ⟨(2026, 3, 1), ⟨10, 0, 0, 0⟩, 0⟩ := by
    decide +kernel
  have hzulu : writtenTime Sample.tenZulu = some ⟨(2026, 3, 1), ⟨10, 0, 0, 0⟩, 0⟩ := by
    decide +kernel
  exact (hashedAlike_iff_sameOffset (Sample.hashing_injective (by decide) (by decide)) hbare hzulu
    rfl (by decide +kernel) (by decide)).mpr rfl

/-- The external API writes one instant with another offset, and the order
    has another hash. -/
theorem rewritten_order_hashed_anew :
    (writtenTime Sample.tenZulu).map WrittenTime.instant =
      (writtenTime Sample.tenInMilan).map WrittenTime.instant ∧
    (writtenTime Sample.tenZulu).isSome = true ∧
    (toOrder Sample.zonedRuntime { Sample.document with updatedAt := some Sample.tenZulu }).bind
      (computeHash Sample.zonedRuntime · Sample.lane) = .ok Sample.zuluDigest ∧
    (toOrder Sample.zonedRuntime { Sample.document with updatedAt := some Sample.tenInMilan }).bind
      (computeHash Sample.zonedRuntime · Sample.lane) = .ok Sample.milanDigest ∧
    ¬ HashedAlike Sample.zonedRuntime Sample.document Sample.tenZulu Sample.tenInMilan Sample.lane
      Sample.lane := by
  have hzulu : (toOrder Sample.zonedRuntime { Sample.document with
      updatedAt := some Sample.tenZulu }).bind (computeHash Sample.zonedRuntime · Sample.lane) =
        .ok Sample.zuluDigest := by decide +kernel
  have hmilan : (toOrder Sample.zonedRuntime { Sample.document with
      updatedAt := some Sample.tenInMilan }).bind (computeHash Sample.zonedRuntime · Sample.lane) =
        .ok Sample.milanDigest := by decide +kernel
  refine ⟨by decide +kernel, by decide +kernel, hzulu, hmilan, ?_⟩
  rintro ⟨o, o', ho, ho', hhash⟩
  rw [ho] at hzulu
  rw [ho'] at hmilan
  change computeHash Sample.zonedRuntime o Sample.lane = _ at hzulu
  change computeHash Sample.zonedRuntime o' Sample.lane = _ at hmilan
  rw [hhash, hmilan] at hzulu
  exact absurd (Except.ok.inj hzulu) (by decide)

end RulesEnrichment
