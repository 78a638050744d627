/-
Paths, and the parts of names.

A path is the list of the pieces between its slashes. Nothing is simplified: an empty
piece and `.` stay where they are, and `..` has a meaning only where the path is
followed. `split` and `join` undo each other, so a name without a slash is a path of
one piece.
-/

set_option autoImplicit false

namespace PatternAudit.Files

/-- A path: where it starts, and the pieces between its slashes. -/
structure Path where
  absolute : Bool
  pieces : List String
  deriving DecidableEq, Inhabited

namespace Path

/-! ## Pieces -/

/-- The pieces between the slashes. -/
def split : List Char → List (List Char)
  | [] => [[]]
  | c :: cs =>
    match split cs with
    | [] => [[c]]
    | piece :: rest => if c = '/' then [] :: piece :: rest else (c :: piece) :: rest

theorem split_of_no_slash {cs : List Char} (h : '/' ∉ cs) : split cs = [cs] := by
  induction cs with
  | nil => rfl
  | cons c cs ih =>
    simp only [List.mem_cons, not_or] at h
    simp [split, ih h.2, Ne.symm h.1]

/-- The path of a text. -/
def ofText (s : String) : Path :=
  match split s.toList with
  | [] :: rest => if rest.isEmpty then ⟨false, []⟩ else ⟨true, rest.map String.ofList⟩
  | pieces => ⟨false, pieces.map String.ofList⟩

/-- A path below another one; an absolute path is where it is. -/
def append (p q : Path) : Path := if q.absolute then q else ⟨p.absolute, p.pieces ++ q.pieces⟩

/-- The text of a name below the path of a text. -/
def joinText (path name : String) : String :=
  if path.isEmpty || path.endsWith "/" then path ++ name else path ++ "/" ++ name

/-! ## The directory of a path -/

/-- Whether a piece changes nothing where the path is followed. -/
def isIdle (piece : List Char) : Bool := piece.isEmpty || piece == ['.']

/-- The pieces without idle ones at the end; the first piece stays. The pieces come,
and go, last first. -/
def trimIdle : List (List Char) → List (List Char)
  | [] => []
  | [first] => [first]
  | piece :: rest => if isIdle piece then trimIdle rest else piece :: rest

/-- The text of pieces. -/
def textOf (pieces : List (List Char)) : String :=
  String.ofList (List.intercalate ['/'] pieces)

/-- The text of the path without its last name, or `none` for a path that is the root
or empty. -/
def parent? (s : String) : Option String :=
  match trimIdle (split s.toList).reverse with
  | [] => none
  | [[]] => none
  | [_] => some ""
  | _ :: rest =>
    match trimIdle rest with
    | [[]] => some "/"
    | pieces => some (textOf pieces.reverse)

/-! ## Names -/

/-- What follows the last dot of a name that does not start with that dot. -/
def extension? (name : String) : Option String :=
  match name.toList.reverse.span (· ≠ '.') with
  | (_, []) => none
  | (_, [_]) => none
  | (last, _) => if name = ".." then none else some (String.ofList last.reverse)

end Path

end PatternAudit.Files
