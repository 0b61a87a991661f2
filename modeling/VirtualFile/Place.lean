import VirtualFile.Value.Inspect
/-!
# Places in a text

A place is a point, a range, or something that has one: a dictionary or an object with a `position`,
or a dictionary with the fields of a range or a point. Two readers take places apart.

* `Store.resolve`: the range that a place denotes, if any.
* `Store.describe`: the place as text, `L:C` for a point and `L:C-L:C`
  for a range, empty for nothing.
-/

namespace VirtualFile

/-- A single place; missing fields are null. -/
structure Point where
  line : Value := .null
  column : Value := .null
  offset : Value := .null
  deriving DecidableEq, Repr, Inhabited

def Point.toValue (p : Point) : Value := .point p.line p.column p.offset

/-- The point whose fields a dictionary lists. -/
def Point.ofEntries (es : Entries) : Point :=
  ⟨(Store.entryNamed? "line" es).getD .null, (Store.entryNamed? "column" es).getD .null,
   (Store.entryNamed? "offset" es).getD .null⟩

/-- A range of a text. -/
structure Position where
  start : Value := Point.toValue {}
  stop : Value := Point.toValue {}
  deriving DecidableEq, Repr, Inhabited

def Position.toValue (p : Position) : Value := .position p.start p.stop

/-- The end of a range: a point, the point whose fields a dictionary
lists, or a point without fields. -/
def Store.endOf (s : Store) (v : Value) : Value :=
  match v with
  | .point _ _ _ => v
  | v => ((s.dict? v).map Point.ofEntries |>.getD {}).toValue

/-- The range whose ends a dictionary lists. -/
def Position.ofEntries (s : Store) (es : Entries) : Position :=
  ⟨s.endOf ((Store.entryNamed? "start" es).getD .null),
    s.endOf ((Store.entryNamed? "end" es).getD .null)⟩

/-- Whether one of two keys is present. -/
def eitherKey (a b : String) (es : Entries) : Bool :=
  (Store.entryNamed? a es).isSome || (Store.entryNamed? b es).isSome

/-! ### Texts of places -/

/-- A line or column as it is shown: positive numbers as they are, all else as 1. -/
def ordinal : Value → Text
  | .int n => if 0 < n then Text.ofInt n else ['1']
  | .bool true => "True".toList
  | _ => ['1']

/-- `L:C`. -/
def Point.label (p : Point) : Text := ordinal p.line ++ ':' :: ordinal p.column

/-- The text of a point or range. A range whose ends are neither has none. -/
def Store.label (s : Store) : Value → Except Fault Text
  | .point l c o => .ok (Point.label ⟨l, c, o⟩)
  | .position a b => do
    let first ← s.label a
    return first ++ '-' :: (← s.label b)
  | v => .error (if s.hasAttribute v "stringify" then .mistyped else .noAttribute)

/-- `L:C-L:C`. -/
def Position.label (s : Store) (p : Position) : Except Fault Text := s.label p.toValue

/-! ### Readers -/

/-- The range of a place that holds others at most `depth` levels deep. -/
def Store.resolveTo (s : Store) : Nat → Value → Except Fault (Option Position)
  | 0, _ => .error .tooDeep
  | depth + 1, v =>
    match v with
    | .null => .ok none
    | .position a b => .ok (some ⟨a, b⟩)
    | .point l c o => .ok (some { start := .point l c o })
    | v =>
      match s.dict? v with
      | some es =>
        match Store.entryNamed? "position" es with
        | some w => s.resolveTo depth w
        | none =>
          if eitherKey "start" "end" es then .ok (some (Position.ofEntries s es))
          else if eitherKey "line" "column" es then
            .ok (some { start := (Point.ofEntries es).toValue })
          else .ok none
      | none =>
        match s.attribute? v "position" with
        | some w => s.resolveTo depth w
        | none => .ok none

/-- The text of a place that holds others at most `depth` levels deep. -/
def Store.describeTo (s : Store) : Nat → Value → Except Fault Text
  | 0, _ => .error .tooDeep
  | depth + 1, v =>
    match v with
    | .null => .ok []
    | .point _ _ _ | .position _ _ => s.label v
    | v =>
      match s.dict? v with
      | some es =>
        match Store.entryNamed? "position" es with
        | some w => s.describeTo depth w
        | none =>
          if eitherKey "start" "end" es then (Position.ofEntries s es).label s
          else if eitherKey "line" "column" es then .ok (Point.ofEntries es).label
          else .ok []
      | none =>
        match s.attribute? v "position" with
        | some w => s.describeTo depth w
        | none => .ok []

/-- How deep a place can nest that does not contain itself: each level below the first is a cell. -/
def Store.depth (s : Store) : Nat := s.cells.size + 1

/-- The range that a place denotes. -/
def Store.resolve (s : Store) (v : Value) : Except Fault (Option Position) := s.resolveTo s.depth v

/-- The text of a place. -/
def Store.describe (s : Store) (v : Value) : Except Fault Text := s.describeTo s.depth v

end VirtualFile
