/-
Locations, read back.

A walk writes a location piece by piece, one segment for each step down. `locate`
writes the location of a whole list of keys, and `segments` cuts a location at its
slashes and undoes the escapes. `segments_locate` says that the keys come back, so no
key can be taken for two, and no two keys for one, whatever characters they hold.

Keys that the walk knows by name, methods and indices are written as they are. They
hold nothing to escape, so `below` and `belowKey` agree on them (`locate_below`).
-/
import Mathlib.Data.List.Induction
import PatternAudit.Walk.Slot

set_option autoImplicit false

namespace PatternAudit.Pointer

/-! ## Escapes -/

theorem unescapeChars_escapeChars (cs : List Char) : unescapeChars (escapeChars cs) = cs := by
  fun_induction escapeChars cs with
  | case1 => rfl
  | case2 cs ih => rw [unescapeChars, ih]
  | case3 cs ih => rw [unescapeChars, ih]
  | case4 c cs htilde hslash ih =>
    -- the character starts no escape, because it is no tilde
    rw [unescapeChars, ih]
    · intro rest hc
      exact absurd hc htilde
    · intro rest hc
      exact absurd hc htilde

theorem slash_not_mem_escapeChars (cs : List Char) : '/' ∉ escapeChars cs := by
  fun_induction escapeChars cs with
  | case1 => exact List.not_mem_nil
  | case2 cs ih => simpa using ih
  | case3 cs ih => simpa using ih
  | case4 c cs htilde hslash ih =>
    intro hmem
    rcases List.mem_cons.1 hmem with hc | hrest
    · exact hslash hc.symm
    · exact ih hrest

/-- A key without tildes and slashes is written as it is. -/
theorem escape_of_plain {key : String} (h : ∀ c ∈ key.toList, c ≠ '~' ∧ c ≠ '/') :
    escape key = key := by
  have hchars : ∀ cs : List Char, (∀ c ∈ cs, c ≠ '~' ∧ c ≠ '/') → escapeChars cs = cs := by
    intro cs
    fun_induction escapeChars cs with
    | case1 => exact fun _ => rfl
    | case2 cs ih => exact fun hcs => absurd rfl (hcs '~' (List.mem_cons_self ..)).1
    | case3 cs ih => exact fun hcs => absurd rfl (hcs '/' (List.mem_cons_self ..)).2
    | case4 c cs _ _ ih =>
      intro hcs
      rw [ih fun c' hc' => hcs c' (List.mem_cons_of_mem _ hc')]
  rw [escape, hchars _ h, String.ofList_toList]

/-- An index is written in decimal digits. -/
theorem escape_toString (i : Nat) : escape (toString i) = toString i := by
  refine escape_of_plain fun c hc => ?_
  rw [Nat.toString_eq_repr, Nat.toList_repr] at hc
  have hdigit := Nat.isDigit_of_mem_toDigits (by decide) (by decide) hc
  constructor
  · rintro rfl
    exact absurd hdigit (by decide)
  · rintro rfl
    exact absurd hdigit (by decide)

/-! ## Segments -/

theorem splitSlash_ne_nil (cs : List Char) : splitSlash cs ≠ [] := by
  cases cs with
  | nil => simp [splitSlash]
  | cons c cs =>
    rw [splitSlash]
    split
    · simp
    · split <;> simp

theorem splitSlash_of_no_slash {cs : List Char} (h : '/' ∉ cs) : splitSlash cs = [cs] := by
  induction cs with
  | nil => rfl
  | cons c cs ih =>
    rw [List.mem_cons, not_or] at h
    rw [splitSlash, if_neg (Ne.symm h.1), ih h.2]

/-- Two texts with a slash between them are cut each on its own. -/
theorem splitSlash_append_slash (a b : List Char) :
    splitSlash (a ++ '/' :: b) = splitSlash a ++ splitSlash b := by
  induction a with
  | nil => simp [splitSlash]
  | cons c a ih =>
    rw [List.cons_append, splitSlash, splitSlash]
    by_cases hc : c = '/'
    · rw [if_pos hc, if_pos hc, ih]
      rfl
    · rw [if_neg hc, if_neg hc, ih]
      cases ha : splitSlash a with
      | nil => exact absurd ha (splitSlash_ne_nil a)
      | cons seg rest => rfl

/-- The keys of a location: its pieces between slashes, with the escapes undone. -/
def segments (location : String) : List String :=
  (splitSlash location.toList).map fun seg => unescape (String.ofList seg)

end PatternAudit.Pointer

namespace PatternAudit.Walk

/-! ## Locations -/

/-- The location that a list of keys leads to, from the root. -/
def locate (segs : List String) : String := segs.foldl belowKey "#"

theorem locate_append (segs : List String) (key : String) :
    locate (segs ++ [key]) = belowKey (locate segs) key := by
  rw [locate, List.foldl_append]
  rfl

/-- A segment that needs no escapes is the key itself. -/
theorem locate_below {key : String} (h : Pointer.escape key = key) (segs : List String) :
    below (locate segs) key = locate (segs ++ [key]) := by
  rw [locate_append, belowKey, h]

/-- One more step down is one more segment. -/
theorem segments_belowKey (location key : String) :
    Pointer.segments (belowKey location key) = Pointer.segments location ++ [key] := by
  have hsplit : Pointer.splitSlash (belowKey location key).toList
      = Pointer.splitSlash location.toList ++ [Pointer.escapeChars key.toList] := by
    rw [← Pointer.splitSlash_of_no_slash (Pointer.slash_not_mem_escapeChars key.toList),
      ← Pointer.splitSlash_append_slash]
    simp [belowKey, below, Pointer.escape]
  rw [Pointer.segments, hsplit, List.map_append]
  simp [Pointer.segments, Pointer.unescape, Pointer.unescapeChars_escapeChars]

/-- **A location can be read back.** Its first segment is the root's. -/
theorem segments_locate (segs : List String) : Pointer.segments (locate segs) = "#" :: segs := by
  induction segs using List.reverseRecOn with
  | nil => decide +kernel
  | append_singleton segs key ih =>
    rw [locate_append, segments_belowKey, ih]
    rfl

end PatternAudit.Walk
