/-
The keys of a mapping that was read.

A reader refuses a mapping that has one key twice, so in all that it reads the members of
each mapping have keys that are not the same (`noKeyTwice_of_ofText`). The members are read
one after the other, each against those before it; that carries the proof through a mapping.
The number of levels that may still be opened carries it through the document.

Mappings may stand anywhere in a value. What is said of all of them is said by `Throughout`,
which goes down a value as the value is made; keys are not gone into.
-/
import PatternAudit.Error
import PatternAudit.Yaml.Value

set_option autoImplicit false

namespace PatternAudit.Yaml.Value

/-! ## Parts of a value -/

/-- Values by what they are made of; what a key is made of does not count. -/
@[elab_as_elim]
theorem parts_induction {P : Value → Prop} (null : P null) (bool : ∀ b, P (bool b))
    (num : ∀ n, P (num n)) (str : ∀ s, P (str s))
    (seq : ∀ items, (∀ v ∈ items, P v) → P (seq items))
    (map : ∀ members, (∀ m ∈ members, P m.2) → P (map members))
    (tagged : ∀ tag v, P v → P (tagged tag v)) (v : Value) : P v :=
  Value.rec (motive_1 := P) (motive_2 := fun items => ∀ v ∈ items, P v)
    (motive_3 := fun members => ∀ m ∈ members, P m.2) (motive_4 := fun m => P m.2)
    null bool num str seq map tagged nofun
    (fun _ _ hv hrest => List.forall_mem_cons.2 ⟨hv, hrest⟩) nofun
    (fun _ _ hm hrest => List.forall_mem_cons.2 ⟨hm, hrest⟩) (fun _ _ _ hv => hv) v

/-- `Within u v`: the value `u` is `v` or stands somewhere in it. Keys do not count. -/
inductive Within : Value → Value → Prop
  | here (v : Value) : Within v v
  | item {u v : Value} {items : List Value} : v ∈ items → Within u v → Within u (seq items)
  | member {u : Value} {m : Value × Value} {members : List (Value × Value)} :
      m ∈ members → Within u m.2 → Within u (map members)
  | tagged {u v : Value} {tag : String} : Within u v → Within u (tagged tag v)

/-- Whether something holds of all mappings in a value. -/
def Throughout (P : List (Value × Value) → Prop) (v : Value) : Prop :=
  ∀ members, Within (map members) v → P members

/-- Whether a value is made of no others. -/
def isScalar : Value → Bool
  | null | bool _ | num _ | str _ => true
  | _ => false

section Throughout

variable {P Q : List (Value × Value) → Prop}

theorem Throughout.imp {v : Value} (h : v.Throughout P) (himp : ∀ members, P members → Q members) :
    v.Throughout Q :=
  fun members hwithin => himp members (h members hwithin)

theorem throughout_of_isScalar {v : Value} (h : v.isScalar = true) : v.Throughout P := by
  intro members hwithin
  cases hwithin with
  | here => cases h
  | item => cases h
  | member => cases h
  | tagged => cases h

theorem throughout_seq {items : List Value} :
    (seq items).Throughout P ↔ ∀ v ∈ items, v.Throughout P := by
  constructor
  · exact fun h v hv members hwithin => h members (.item hv hwithin)
  · intro h members hwithin
    cases hwithin with
    | item hv hwithin => exact h _ hv members hwithin

theorem throughout_map {members : List (Value × Value)} :
    (map members).Throughout P ↔ P members ∧ ∀ m ∈ members, m.2.Throughout P := by
  constructor
  · exact fun h => ⟨h members (.here _), fun m hm inner hwithin => h inner (.member hm hwithin)⟩
  · rintro ⟨hhere, hbelow⟩ inner hwithin
    cases hwithin with
    | here => exact hhere
    | member hm hwithin => exact hbelow _ hm inner hwithin

theorem throughout_tagged {tag : String} {v : Value} :
    (tagged tag v).Throughout P ↔ v.Throughout P := by
  constructor
  · exact fun h members hwithin => h members (.tagged hwithin)
  · intro h members hwithin
    cases hwithin with
    | tagged hwithin => exact h members hwithin

theorem throughout_withTag {tag : Option String} {v : Value} (h : v.Throughout P) :
    (withTag tag v).Throughout P := by
  unfold withTag
  split
  · exact throughout_tagged.2 h
  · exact h

end Throughout

/-! ## Reading -/

/-- Whether no member has the key of one before it. -/
def NoKeyTwice (members : List (Value × Value)) : Prop :=
  members.Pairwise fun m later => same later.1 m.1 = false

/-- Whether no mapping has a key twice in all that is read from nodes. -/
def RefusesTwice (read : Path → Node → Reading Value) : Prop :=
  ∀ path n left v left', (read path n).run left = .ok (v, left') → v.Throughout NoKeyTwice

theorem isScalar_of_ofPlain {text : String} {v : Value} (h : ofPlain text = .ok v) :
    v.isScalar = true := by
  unfold ofPlain at h
  split at h <;> cases h <;> rfl

theorem isScalar_of_ofKind {tag text : String} {v : Value} (h : ofKind tag text = .ok v) :
    v.isScalar = true := by
  unfold ofKind at h
  dsimp only at h
  repeat' split at h
  all_goals cases h
  all_goals rfl

theorem isScalar_of_ofScalar {text : String} {style : Style} {tag : Option String} {v : Value}
    (h : ofScalar text style tag = .ok v) : v.isScalar = true := by
  unfold ofScalar at h
  repeat' split at h
  all_goals first | exact isScalar_of_ofPlain h | exact isScalar_of_ofKind h | (cases h; rfl)

theorem place_eq_ok {α : Type} {path : Path} {mark : Mark} {x : Except Mismatch α} {a : α}
    {left left' : Nat} (h : (place path mark x).run left = .ok (a, left')) : x = .ok a := by
  cases x with
  | ok b =>
    cases h
    rfl
  | error m => cases h

section Collections

variable {read : Path → Node → Reading Value} (hread : RefusesTwice read)
include hread

theorem noKeyTwice_readItems {path : Path} {nodes : List Node} {i left left' : Nat}
    {items : List Value} (h : (readItems read path i nodes).run left = .ok (items, left')) :
    ∀ v ∈ items, v.Throughout NoKeyTwice := by
  induction nodes generalizing i left items left' with
  | nil =>
    cases h
    exact nofun
  | cons n rest ih =>
    rw [readItems, StateT.run_bind] at h
    obtain ⟨⟨v, left₁⟩, hv, h⟩ := bind_eq_ok_iff.1 h
    rw [StateT.run_bind] at h
    obtain ⟨⟨vs, left₂⟩, hvs, h⟩ := bind_eq_ok_iff.1 h
    cases h
    exact List.forall_mem_cons.2 ⟨hread _ _ _ _ _ hv, ih hvs⟩

/-- The members read so far come backwards, so theirs are the later keys first. -/
theorem noKeyTwice_readMembers {path : Path} {mark : Mark} {nodes : List (Node × Node)}
    {done members : List (Value × Value)} {left left' : Nat}
    (hdone : NoKeyTwice done.reverse) (hbelow : ∀ m ∈ done, m.2.Throughout NoKeyTwice)
    (h : (readMembers read path mark done nodes).run left = .ok (members, left')) :
    NoKeyTwice members ∧ ∀ m ∈ members, m.2.Throughout NoKeyTwice := by
  induction nodes generalizing done left with
  | nil =>
    cases h
    exact ⟨hdone, fun m hm => hbelow m (List.mem_reverse.1 hm)⟩
  | cons node rest ih =>
    obtain ⟨k, v⟩ := node
    rw [readMembers, StateT.run_bind] at h
    obtain ⟨⟨key, left₁⟩, -, h⟩ := bind_eq_ok_iff.1 h
    dsimp only at h
    split at h
    · cases h
    · rename_i hnew
      rw [StateT.run_bind] at h
      obtain ⟨⟨value, left₂⟩, hvalue, h⟩ := bind_eq_ok_iff.1 h
      have hfresh : ∀ m ∈ done, same key m.1 = false := by
        simpa [List.any_eq_true] using hnew
      refine ih ?_ (List.forall_mem_cons.2 ⟨hread _ _ _ _ _ hvalue, hbelow⟩) h
      rw [NoKeyTwice, List.reverse_cons, List.pairwise_append]
      refine ⟨hdone, List.pairwise_singleton _ _, fun m hm last hlast => ?_⟩
      rw [List.mem_singleton.1 hlast]
      exact hfresh m (List.mem_reverse.1 hm)

end Collections

theorem refusesTwice_readHere (d : Document) {inside : Option (Path → Node → Reading Value)}
    (hinside : ∀ read ∈ inside, RefusesTwice read) : RefusesTwice (readHere d inside) := by
  intro path n left v left' h
  unfold readHere at h
  split at h
  · -- a scalar
    rw [StateT.run_bind] at h
    obtain ⟨⟨u, left₁⟩, hu, h⟩ := bind_eq_ok_iff.1 h
    cases h
    exact throughout_withTag (throughout_of_isScalar (isScalar_of_ofScalar (place_eq_ok hu)))
  · -- a sequence
    split at h
    · cases h
    · rw [StateT.run_bind] at h
      obtain ⟨⟨items, left₁⟩, hitems, h⟩ := bind_eq_ok_iff.1 h
      cases h
      exact throughout_withTag
        (throughout_seq.2 (noKeyTwice_readItems (hinside _ rfl) hitems))
  · -- a mapping
    split at h
    · cases h
    · rw [StateT.run_bind] at h
      obtain ⟨⟨members, left₁⟩, hmembers, h⟩ := bind_eq_ok_iff.1 h
      cases h
      have hnone : NoKeyTwice ([] : List (Value × Value)).reverse := .nil
      exact throughout_withTag (throughout_map.2
        (noKeyTwice_readMembers (hinside _ rfl) hnone (List.forall_mem_nil _) hmembers))
  · cases h
    exact throughout_of_isScalar rfl
  · cases h

theorem refusesTwice_read (d : Document) (depth : Nat) : RefusesTwice (read d depth) := by
  induction depth with
  | zero =>
    intro path n left v left' h
    rw [read, StateT.run_bind] at h
    obtain ⟨⟨n', left₁⟩, -, h⟩ := bind_eq_ok_iff.1 h
    refine refusesTwice_readHere d (fun read hread => ?_) _ _ _ _ _ h
    cases hread
  | succ depth ih =>
    intro path n left v left' h
    rw [read, StateT.run_bind] at h
    obtain ⟨⟨n', left₁⟩, -, h⟩ := bind_eq_ok_iff.1 h
    refine refusesTwice_readHere d (fun read hread => ?_) _ _ _ _ _ h
    cases hread
    exact ih

/-- What is read from a text has no mapping with a key twice. -/
theorem noKeyTwice_of_ofText {text : String} {v : Value} (h : ofText text = .ok v) :
    v.Throughout NoKeyTwice := by
  unfold ofText Document.run at h
  obtain ⟨⟨u, left⟩, hu, h⟩ := bind_eq_ok_iff.1 h
  dsimp only at h
  have hsame : u = v := by
    repeat' split at h
    all_goals cases h
    rfl
  exact hsame ▸ refusesTwice_read _ _ _ _ _ _ _ hu

end PatternAudit.Yaml.Value
