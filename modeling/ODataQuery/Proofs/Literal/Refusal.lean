import ODataQuery.Literal
import ODataQuery.Proofs.Outcome

namespace ODataQuery.DataType

/-- An error that reports a value as invalid for the type. -/
def Invalidates (type : DataType) (e : QueryError) : Prop := ∃ text, e = type.invalid text

variable {type : DataType}

theorem invalid_fails {α : Type} {text : String} :
    FailsOnly type.Invalidates (.error (type.invalid text) : Except QueryError α) :=
  .error ⟨text, rfl⟩

theorem timestamp_fails (v : Value) : FailsOnly type.Invalidates (type.timestamp v) := by
  cases v with
  | timestamp d => exact .ok d
  | string s =>
    rw [timestamp]
    split
    · exact .ok _
    · exact invalid_fails
  | null | bool | int | float | list => exact invalid_fails

theorem integer_fails (v : Value) : FailsOnly type.Invalidates (type.integer v) := by
  cases v with
  | int n => exact .ok _
  | float x =>
    rw [integer]
    split
    · exact .ok _
    · exact invalid_fails
  | string s =>
    rw [integer]
    split
    · exact .ok _
    · exact invalid_fails
  | null | bool | list | timestamp => exact invalid_fails

theorem bounded_fails (low high : Int) (v : Value) :
    FailsOnly type.Invalidates (type.bounded low high v) := by
  apply (integer_fails v).bind
  intro n _
  split
  · exact .ok _
  · exact invalid_fails

theorem finite_fails (x : Binary64) : FailsOnly type.Invalidates (type.finite x) := by
  unfold finite
  split
  · exact .ok _
  · exact invalid_fails

theorem number_fails (v : Value) : FailsOnly type.Invalidates (type.number v) := by
  cases v with
  | int n => exact .ok _
  | float x => exact finite_fails x
  | string s =>
    rw [number]
    split
    · exact finite_fails _
    · exact invalid_fails
  | null | bool | list | timestamp => exact invalid_fails

theorem wrapped_fails (label : String) (v : Value) :
    FailsOnly type.Invalidates (type.wrapped label v) := by
  cases v with
  | string s => exact .ok _
  | null | bool | int | float | list | timestamp => exact invalid_fails

theorem scalarForm_fails (type : DataType) (v : Value) :
    FailsOnly type.Invalidates (type.scalarForm v) := by
  cases type with
  | int16 | int32 | int64 | byte => exact bounded_fails _ _ v
  | decimal | double | single => exact number_fails v
  | dateTime | dateTimeOffset => exact (timestamp_fails v).map _
  | time | binary => exact wrapped_fails _ v
  | undefined => exact .ok _
  | string =>
    cases v with
    | string | int | float => exact .ok _
    | null | bool | list | timestamp => exact invalid_fails
  | boolean =>
    cases v with
    | bool b => exact .ok _
    | string s =>
      rw [scalarForm]
      split
      · exact .ok _
      · exact invalid_fails
    | null | int | float | list | timestamp => exact invalid_fails
  | guid =>
    cases v with
    | string s =>
      rw [scalarForm]
      split
      · exact .ok _
      · exact invalid_fails
    | null | bool | int | float | list | timestamp => exact invalid_fails

theorem longForm_fails (type : DataType) (v : Value) :
    FailsOnly type.Invalidates (type.longForm v) := by
  unfold longForm
  split
  · exact .ok _
  · exact invalid_fails
  · exact scalarForm_fails type v

theorem literal_fails (type : DataType) (v : Value) :
    FailsOnly type.Invalidates (type.literal v) := by
  unfold literal
  split
  · split
    · exact .ok _
    · exact (timestamp_fails v).map _
  · exact longForm_fails type v

end ODataQuery.DataType
