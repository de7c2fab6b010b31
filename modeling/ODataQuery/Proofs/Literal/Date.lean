import ODataQuery.Literal
import ODataQuery.Proofs.Calendar.Utc

namespace ODataQuery.DataType

variable {type : DataType} {s : String} {d : Timestamp}

/-- The literal of a date that is given as text. -/
theorem literal_of_parse (htype : type.isDate) (h : Timestamp.parse? s = some d) :
    type.literal (.string s) = .ok d.utcText := by
  have htimestamp : type.timestamp (.string s) = .ok d := by
    rw [timestamp, h]
  unfold literal
  rw [if_pos htype]
  dsimp only
  rw [htimestamp]
  rfl

/-- The texts that are their own literals are those in the one form. -/
theorem date_literal_eq_self_iff (htype : type.isDate) (hs : Timestamp.parse? s = some d)
    (hyear : 0 ≤ d.utcYear ∧ d.utcYear ≤ 9999) :
    type.literal (.string s) = .ok s ↔ Timestamp.HasUtcShape s := by
  rw [literal_of_parse htype hs, Except.ok.injEq]
  constructor
  · intro h
    rw [← h]
    exact Timestamp.hasUtcShape_utcText hyear
  · exact Timestamp.utcText_of_hasUtcShape hs

/-- **Date literals are canonical.** Every text of a date whose year in UTC has four digits has
a literal, which is of the one shape with milliseconds and `Z`. The literal spells the instant
to the millisecond, and as a text it is its own literal. Two texts have the same literal exactly
if their instants are the same to the millisecond, and never if these are a millisecond or more
apart. -/
theorem date_literal_canonical (htype : type.isDate) (hs : Timestamp.parse? s = some d)
    (hyear : 0 ≤ d.utcYear ∧ d.utcYear ≤ 9999) :
    ∃ t, type.literal (.string s) = .ok t ∧ Timestamp.HasUtcShape t ∧
      Timestamp.parse? t = some ⟨d.instant.toMillisecond, 0, by decide⟩ ∧
      type.literal (.string t) = .ok t ∧
      ∀ s' d', Timestamp.parse? s' = some d' → 0 ≤ d'.utcYear ∧ d'.utcYear ≤ 9999 →
        (type.literal (.string s') = .ok t ↔
          d.instant.toMillisecond = d'.instant.toMillisecond) ∧
        (d.instant.Apart d'.instant → type.literal (.string s') ≠ .ok t) := by
  have hread := Timestamp.parse?_utcText hyear
  refine ⟨d.utcText, literal_of_parse htype hs, Timestamp.hasUtcShape_utcText hyear, hread, ?_, ?_⟩
  · rw [literal_of_parse htype hread, Except.ok.injEq]
    exact Timestamp.utcText_eq_of_toMillisecond d.instant.toMillisecond_toMillisecond
  · intro s' d' hs' hyear'
    have hsame : type.literal (.string s') = .ok d.utcText ↔
        d.instant.toMillisecond = d'.instant.toMillisecond := by
      rw [literal_of_parse htype hs', Except.ok.injEq, eq_comm, Timestamp.utcText_eq_iff hyear hyear']
    exact ⟨hsame, fun hapart heq => hapart.toMillisecond_ne (hsame.mp heq)⟩

/-- A second 60 that is written east of UTC and one a hundred nanoseconds later that is written
west of it. The second behind them is another one. -/
theorem date_literal_leapSecond :
    literal .dateTime (.string "2017-01-01T05:29:60.9990000+05:30") =
        .ok "2016-12-31T23:59:60.999Z" ∧
      literal .dateTime (.string "2016-12-31t19:59:60.9990001\u221204:00") =
        .ok "2016-12-31T23:59:60.999Z" ∧
      literal .dateTime (.string "2017-01-01 00:00:00.999Z") ≠ .ok "2016-12-31T23:59:60.999Z" := by
  have heast : Timestamp.parse? "2017-01-01T05:29:60.9990000+05:30" =
      some ⟨⟨1060754399, 60, 999000000⟩, 330, by decide⟩ := by decide
  have hwest : Timestamp.parse? "2016-12-31t19:59:60.9990001\u221204:00" =
      some ⟨⟨1060754399, 60, 999000100⟩, -240, by decide⟩ := by decide
  have hbehind : Timestamp.parse? "2017-01-01 00:00:00.999Z" =
      some ⟨⟨1060754400, 0, 999000000⟩, 0, by decide⟩ := by decide
  obtain ⟨t, ht, -, -, -, hother⟩ :=
    date_literal_canonical (show DataType.dateTime.isDate from rfl) heast (by decide)
  have htext : literal .dateTime (.string "2017-01-01T05:29:60.9990000+05:30") =
      .ok "2016-12-31T23:59:60.999Z" := rfl
  obtain rfl : "2016-12-31T23:59:60.999Z" = t := Except.ok.inj (htext.symm.trans ht)
  exact ⟨htext, (hother _ _ hwest (by decide)).1.mpr rfl,
    (hother _ _ hbehind (by decide)).2 (.inr fun hleap => absurd (hleap.mp rfl) (by decide))⟩

end ODataQuery.DataType
