/-
Findings, grouped by the place and the pattern that they are about.

Groups stand in the order in which their keys were first seen, findings in the
order in which they were made. A group can be opened before it has a finding, so
that a pattern counts even when no check has anything to say about it.

A `Grouper` finds the group of a key by a hash index. That the index leads to the
groups, each under its own key, and to nothing else is part of it (`Indexes`).
-/
import PatternAudit.Finding
import Std.Data.HashMap

set_option autoImplicit false

namespace PatternAudit

/-! ## Groups -/

/-- The findings on one pattern at one place. -/
structure Group where
  location : String
  pattern : String
  findings : List Finding
  deriving DecidableEq, Inhabited

/-- What a finding is grouped by: the place and the pattern that it is about. -/
def Finding.key (f : Finding) : String × String := (f.location, f.pattern)

namespace Group

/-- Whether one of the findings is an error. -/
def hasError (g : Group) : Bool := g.findings.any fun f => f.severity = .error

/-- Whether one of the findings is a warning. -/
def hasWarning (g : Group) : Bool := g.findings.any fun f => f.severity = .warning

/-- Whether there is neither an error nor a warning. -/
def isClean (g : Group) : Bool := !g.hasError && !g.hasWarning

/-- The first line that one of the findings knows; 0 if none does. -/
def line (g : Group) : Nat :=
  ((g.findings.map (·.line)).filter (0 < ·)).foldl (fun n m => if n = 0 then m else min n m) 0

/-- What the findings of a group are about. -/
def key (g : Group) : String × String := (g.location, g.pattern)

/-- The group of a key, before it has a finding. -/
def opened (location pattern : String) : Group := ⟨location, pattern, []⟩

/-- The group with one more finding. -/
def add (g : Group) (f : Finding) : Group := { g with findings := g.findings ++ [f] }

@[simp] theorem key_opened (location pattern : String) :
    (opened location pattern).key = (location, pattern) := rfl

@[simp] theorem key_add (g : Group) (f : Finding) : (g.add f).key = g.key := rfl

end Group

/-! ## Groupers -/

/-- Whether an index leads to groups, each under its key, and to nothing else. -/
def Indexes (index : Std.HashMap (String × String) Nat) (groups : Array Group) : Prop :=
  ∀ key i, index[key]? = some i ↔ groups[i]?.map Group.key = some key

namespace Indexes

variable {index : Std.HashMap (String × String) Nat} {groups : Array Group}

theorem empty : Indexes ∅ #[] := by
  intro key i
  simp

/-- A group under a new key comes last, and the index learns its position. -/
theorem push (h : Indexes index groups) {location pattern : String}
    (hnew : index[(location, pattern)]? = none) :
    Indexes (index.insert (location, pattern) groups.size)
      (groups.push (.opened location pattern)) := by
  intro key i
  rw [Std.HashMap.getElem?_insert, Array.getElem?_push]
  by_cases hkey : (location, pattern) = key
  · subst hkey
    by_cases hi : i = groups.size
    · simp [hi]
    · -- no older group has the key
      have hold : groups[i]?.map Group.key ≠ some (location, pattern) := by
        intro hold
        rw [← h, hnew] at hold
        cases hold
      simp [hi, hold, Ne.symm hi]
  · rw [if_neg (by simpa using hkey)]
    by_cases hi : i = groups.size
    · -- the index knows no position past the older groups
      have hpast : index[key]? ≠ some groups.size := by
        rw [ne_eq, h]
        simp
      simp [hi, hpast, hkey]
    · rw [if_neg hi, h]

/-- A group may change, as long as it keeps its key. -/
theorem modify (h : Indexes index groups) (i : Nat) {f : Group → Group}
    (hf : ∀ g, (f g).key = g.key) : Indexes index (groups.modify i f) := by
  intro key j
  rw [h, Array.getElem?_modify]
  split
  · rw [Option.map_map]
    simp only [Function.comp_def, hf]
  · rfl

end Indexes

/-- Groups in the making, with an index of their keys. -/
structure Grouper where
  index : Std.HashMap (String × String) Nat
  groups : Array Group
  indexed : Indexes index groups

namespace Grouper

/-- No groups. -/
def new : Grouper := ⟨∅, #[], .empty⟩

/-- Sees to it that a key has a group, and tells where it stands. -/
def openKey (g : Grouper) (location pattern : String) : Grouper × Nat :=
  match h : g.index[(location, pattern)]? with
  | some i => (g, i)
  | none =>
    ({ index := g.index.insert (location, pattern) g.groups.size
       groups := g.groups.push (.opened location pattern)
       indexed := g.indexed.push h }, g.groups.size)

/-- Adds a finding to the group of its key. -/
def push (g : Grouper) (f : Finding) : Grouper :=
  let (g, i) := g.openKey f.location f.pattern
  { g with
    groups := g.groups.modify i (·.add f)
    indexed := g.indexed.modify i fun _ => rfl }

/-- The groups, in the order in which their keys were first seen. -/
def finish (g : Grouper) : List Group := g.groups.toList

end Grouper

/-- Groups findings. -/
def Groups.ofFindings (fs : List Finding) : List Group := (fs.foldl Grouper.push .new).finish

end PatternAudit
