/-!
# Values

`Value` is what settings, palettes and theme files hold before anything has been checked: a JSON
or TOML value, or a number that a computation has produced. Whole numbers, floating-point numbers
and the complex numbers that negative bases give are kept apart, because messages show the
difference.
-/

namespace Dichromat

/-- The kinds of calendar values of a settings file; none of them is a number. -/
inductive Moment
  | date | time | dateTime
  deriving DecidableEq, Repr

/-- A value of any kind. -/
inductive Value
  | null
  | bool (b : Bool)
  | int (n : Int)
  | float (x : Float)
  | complex (re im : Float)
  | text (s : String)
  | list (items : List Value)
  | table (entries : List (String × Value))
  | moment (kind : Moment)

namespace Value

instance : Inhabited Value := ⟨.null⟩

/-- The value under a key; keys of a table are distinct. -/
def field? (key : String) : List (String × Value) → Option Value
  | [] => none
  | (k, v) :: rest => if k = key then some v else field? key rest

end Value

end Dichromat
