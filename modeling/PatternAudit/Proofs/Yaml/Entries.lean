/-
What becomes of a mapping's entries.

A key of any kind becomes text, and the entries are entered under these texts one after the
other. `Holds counted` says what a tree holds of a value: items one by one and integers as they
are, and of each mapping the entries that count. Where entries are written alike the last of
them counts, in the place of the first (`remaining`), and what stood under the others is
nowhere in the tree (`holds_remaining_toJson`). So a tree holds all of a value exactly if no
mapping in it has two entries that are written alike (`holds_all_toJson_iff`).

A reader refuses a key that comes twice, but as a value and not as a text: `200` and `"200"`
are two keys. So two keys that are written alike are never both strings, and never both among
null, booleans and integers (`writtenAlike_only_across`).
-/
import Mathlib.Data.List.Nodup
import Std.Data.String.ToInt
import PatternAudit.Json.Distinct
import PatternAudit.Proofs.Yaml.Keys

set_option autoImplicit false

namespace PatternAudit

/-! ## Entering many members -/

namespace Json

variable {α : Type}

theorem lookup_append (key : String) (es fs : List (String × α)) :
    lookup key (es ++ fs) = (lookup key es).or (lookup key fs) := by
  induction es with
  | nil => rfl
  | cons e es ih =>
    obtain ⟨k, v⟩ := e
    by_cases hk : k = key
    · simp [lookup, hk]
    · simp [lookup, hk, ih]

/-- To look something up, an entered member might as well stand in front. -/
theorem lookup_insert (key other : String) (value : α) (es : List (String × α)) :
    lookup other (insert key value es) = lookup other ((key, value) :: es) := by
  by_cases hother : other = key
  · rw [hother, lookup_insert_self, lookup, if_pos rfl]
  · rw [lookup_insert_of_ne hother, lookup, if_neg (Ne.symm hother)]

theorem keys_insert (key : String) (value : α) (es : List (String × α)) :
    (insert key value es).map Prod.fst
      = if key ∈ es.map Prod.fst then es.map Prod.fst else es.map Prod.fst ++ [key] := by
  induction es with
  | nil => rfl
  | cons e es ih =>
    obtain ⟨k, v⟩ := e
    by_cases hk : k = key
    · simp [insert, hk]
    · rw [insert, if_neg hk, List.map_cons, ih]
      by_cases hmem : key ∈ es.map Prod.fst
      · simp [hmem]
      · simp [hmem, Ne.symm hk]

/-- Enters members one after the other. -/
def enterAll (done es : List (String × α)) : List (String × α) :=
  es.foldl (fun done e => insert e.1 e.2 done) done

/-- The last of the members that were entered under a key is the one that counts. -/
theorem lookup_enterAll (key : String) (done es : List (String × α)) :
    lookup key (enterAll done es) = lookup key (es.reverse ++ done) := by
  induction es generalizing done with
  | nil => rfl
  | cons e es ih =>
    calc lookup key (enterAll (insert e.1 e.2 done) es)
        = lookup key (es.reverse ++ insert e.1 e.2 done) := ih _
      _ = lookup key (es.reverse ++ e :: done) := by
        rw [lookup_append, lookup_insert, ← lookup_append]
      _ = lookup key ((e :: es).reverse ++ done) := by rw [List.reverse_cons, List.append_assoc,
        List.singleton_append]

theorem eraseDups_of_nodup {keys : List String} (h : keys.Nodup) : keys.eraseDups = keys := by
  induction keys with
  | nil => rfl
  | cons key keys ih =>
    obtain ⟨hfirst, hrest⟩ := List.nodup_cons.1 h
    have hother : keys.filter (fun k => !k == key) = keys :=
      List.filter_eq_self.2 fun k hk => by
        simpa using ne_of_mem_of_not_mem hk hfirst
    rw [List.eraseDups_cons, hother, ih hrest]

/-- A key that was there before adds nothing. -/
theorem eraseDups_append_cons_of_mem {key : String} {keys : List String} (h : key ∈ keys)
    (more : List String) : (keys ++ key :: more).eraseDups = (keys ++ more).eraseDups := by
  have hdrop : (key :: more).removeAll keys = more.removeAll keys := by simp [List.removeAll, h]
  rw [List.eraseDups_append, List.eraseDups_append, hdrop]

/-- Each key stands where it was entered first. -/
theorem keys_enterAll {done : List (String × α)} (h : (done.map Prod.fst).Nodup)
    (es : List (String × α)) :
    (enterAll done es).map Prod.fst = (done.map Prod.fst ++ es.map Prod.fst).eraseDups := by
  induction es generalizing done with
  | nil => simp [enterAll, eraseDups_of_nodup h]
  | cons e es ih =>
    have hkeys := ih (nodup_keys_insert h e.1 e.2)
    rw [keys_insert] at hkeys
    rw [enterAll, List.foldl_cons, ← enterAll, hkeys, List.map_cons]
    split
    · rename_i hmem
      exact (eraseDups_append_cons_of_mem hmem _).symm
    · rw [List.append_assoc, List.singleton_append]

/-- Where no key comes twice, members are told by their keys and what is found there. -/
theorem filterMap_lookup_keys {es : List (String × α)} (h : (es.map Prod.fst).Nodup) :
    (es.map Prod.fst).filterMap (fun key => (lookup key es).map fun value => (key, value)) = es := by
  rw [List.filterMap_map]
  calc es.filterMap ((fun key => (lookup key es).map fun value => (key, value)) ∘ Prod.fst)
      = es.filterMap some := List.filterMap_congr fun e he => by
        rw [Function.comp_apply, (lookup_eq_some_iff h).2 he, Option.map_some]
    _ = es := List.filterMap_some

end Json

namespace Yaml.Value

/-! ## The members of a tree -/

/-- The texts that a mapping's entries are entered under. -/
def texts (members : List (Value × Value)) : List String := members.map fun m => keyText m.1

/-- The trees of a mapping's entries, each under the text of its key. -/
def named (members : List (Value × Value)) : List (String × Json) :=
  members.map fun m => (keyText m.1, m.2.toJson)

theorem keys_named (members : List (Value × Value)) :
    (named members).map Prod.fst = texts members := by
  simp [named, texts]

theorem itemsToJson_eq (items : List Value) : itemsToJson items = items.map toJson := by
  induction items with
  | nil => rfl
  | cons v items ih => rw [itemsToJson, ih, List.map_cons]

theorem membersToJson_eq (members : List (Value × Value)) (done : List (String × Json)) :
    membersToJson done members = Json.enterAll done (named members) := by
  induction members generalizing done with
  | nil => rfl
  | cons m members ih => exact ih _

theorem keyText_of_find? {text : String} {members : List (Value × Value)} {m : Value × Value}
    (h : (members.find? fun n => keyText n.1 == text) = some m) : keyText m.1 = text := by
  have hfound : (keyText m.1 == text) = true :=
    List.find?_some (p := fun n : Value × Value => keyText n.1 == text) h
  exact beq_iff_eq.1 hfound

theorem lookup_named (key : String) (members : List (Value × Value)) :
    Json.lookup key (named members)
      = (members.find? fun m => keyText m.1 == key).map fun m => m.2.toJson := by
  induction members with
  | nil => rfl
  | cons m members ih =>
    rw [named, List.map_cons, ← named, Json.lookup, ih, List.find?_cons]
    by_cases hkey : keyText m.1 = key
    · simp [hkey]
    · rw [if_neg hkey, beq_false_of_ne hkey]

/-! ## Entries that count -/

/-- The entries of a mapping that remain: of those that are written alike the last one, in
the place of the first. -/
def remaining (members : List (Value × Value)) : List (Value × Value) :=
  (texts members).eraseDups.filterMap fun text => members.reverse.find? fun m => keyText m.1 == text

theorem mem_of_mem_remaining {members : List (Value × Value)} {m : Value × Value}
    (h : m ∈ remaining members) : m ∈ members := by
  obtain ⟨text, -, hfind⟩ := List.mem_filterMap.1 h
  exact List.mem_reverse.1 (List.mem_of_find?_eq_some hfind)

/-- Where no two are written alike, all remain. -/
theorem remaining_of_nodup {members : List (Value × Value)} (h : (texts members).Nodup) :
    remaining members = members := by
  have hfind : ∀ m ∈ members,
      members.reverse.find? (fun n => keyText n.1 == keyText m.1) = some m := by
    intro m hm
    have hsome : (members.reverse.find? fun n => keyText n.1 == keyText m.1).isSome = true :=
      List.find?_isSome.2 ⟨m, List.mem_reverse.2 hm, by simp⟩
    obtain ⟨n, hn⟩ := Option.isSome_iff_exists.1 hsome
    have hmem : n ∈ members := List.mem_reverse.1 (List.mem_of_find?_eq_some hn)
    rw [hn, List.inj_on_of_nodup_map h hmem hm (keyText_of_find? hn)]
  rw [remaining, Json.eraseDups_of_nodup h, texts, List.filterMap_map]
  exact (List.filterMap_congr hfind).trans List.filterMap_some

theorem named_remaining (members : List (Value × Value)) :
    named (remaining members) = (texts members).eraseDups.filterMap fun text =>
      (Json.lookup text (named members).reverse).map fun tree => (text, tree) := by
  rw [named, remaining, List.map_filterMap]
  refine List.filterMap_congr fun text _ => ?_
  rw [named, ← List.map_reverse, ← named, lookup_named, Option.map_map]
  refine Option.map_congr fun m hm => ?_
  rw [Function.comp_apply, keyText_of_find? hm]

/-- The tree of a mapping has the entries that remain. -/
theorem toJson_map (members : List (Value × Value)) :
    (map members).toJson = .obj (named (remaining members)) := by
  have hdistinct := keysDistinct_toJson (map members)
  rw [toJson, membersToJson_eq] at hdistinct ⊢
  have hnodup := (Json.keysDistinct_obj.1 hdistinct).1
  have hnone : (([] : List (String × Json)).map Prod.fst).Nodup := .nil
  have hkeys : (Json.enterAll [] (named members)).map Prod.fst = (texts members).eraseDups := by
    rw [Json.keys_enterAll hnone, keys_named, List.map_nil, List.nil_append]
  rw [named_remaining, ← Json.filterMap_lookup_keys hnodup, hkeys]
  simp only [Json.lookup_enterAll, List.append_nil]

/-! ## What a tree holds -/

/-- `Holds counted v tree`: the tree holds what the value holds, in its order, where of a
mapping's entries only some count. Tags are dropped, and a number that is not finite has no
place in a tree. -/
inductive Holds (counted : List (Value × Value) → List (Value × Value)) : Value → Json → Prop
  | null : Holds counted null .null
  | bool (b : Bool) : Holds counted (bool b) (.bool b)
  | int (n : Int) : Holds counted (num (.int n)) (.num (.int n))
  | float (x : Float) (h : x.isFinite = true) : Holds counted (num (.float x)) (.num (.float x))
  | notFinite (x : Float) (h : x.isFinite = false) : Holds counted (num (.float x)) .null
  | str (s : String) : Holds counted (str s) (.str s)
  | seq {items : List Value} {trees : List Json} (hlength : trees.length = items.length)
      (hitems : ∀ (i : Nat) v tree, items[i]? = some v → trees[i]? = some tree →
        Holds counted v tree) :
      Holds counted (seq items) (.arr trees)
  | map {members : List (Value × Value)} {entries : List (String × Json)}
      (hlength : entries.length = (counted members).length)
      (hkeys : ∀ (i : Nat) k v key tree, (counted members)[i]? = some (k, v) →
        entries[i]? = some (key, tree) → key = keyText k)
      (hvalues : ∀ (i : Nat) k v key tree, (counted members)[i]? = some (k, v) →
        entries[i]? = some (key, tree) → Holds counted v tree) :
      Holds counted (map members) (.obj entries)
  | tagged {tag : String} {v : Value} {tree : Json} (h : Holds counted v tree) :
      Holds counted (tagged tag v) tree

section Holds

variable {counted : List (Value × Value) → List (Value × Value)}

theorem holds_num (n : Number) : Holds counted (num n) (num n).toJson := by
  rw [toJson]
  cases n with
  | int n => exact .int n
  | float x =>
    rw [numberTree]
    split
    · rename_i h
      exact .float x h
    · rename_i h
      exact .notFinite x (Bool.eq_false_iff.2 h)

theorem holds_seq_iff (items : List Value) :
    Holds counted (seq items) (seq items).toJson ↔ ∀ v ∈ items, Holds counted v v.toJson := by
  rw [toJson, itemsToJson_eq]
  constructor
  · intro h v hv
    obtain ⟨i, hi⟩ := List.mem_iff_getElem?.1 hv
    cases h with
    | seq _ hitems => exact hitems i v v.toJson hi (by rw [List.getElem?_map, hi]; rfl)
  · intro h
    refine .seq (List.length_map _) fun i v tree hv htree => ?_
    rw [List.getElem?_map, hv] at htree
    cases htree
    exact h v (List.mem_of_getElem? hv)

theorem holds_tagged_iff {tag : String} {v : Value} {tree : Json} :
    Holds counted (tagged tag v) tree ↔ Holds counted v tree :=
  ⟨fun h => by cases h with | tagged h => exact h, .tagged⟩

/-- A tree has an entry for each that counts, under the text of its key. -/
theorem keys_of_holds {members : List (Value × Value)} {entries : List (String × Json)}
    (h : Holds counted (map members) (.obj entries)) :
    entries.map Prod.fst = texts (counted members) := by
  cases h with
  | map hlength hkeys =>
    refine List.ext_getElem (by simp [texts, hlength]) fun i hi hi' => ?_
    simp only [texts, List.getElem_map, List.length_map] at hi hi' ⊢
    exact hkeys i _ _ _ _ (List.getElem?_eq_getElem hi') (List.getElem?_eq_getElem hi)

theorem holds_named_iff {members : List (Value × Value)} :
    Holds counted (map members) (.obj (named (counted members))) ↔
      ∀ m ∈ counted members, Holds counted m.2 m.2.toJson := by
  constructor
  · intro h m hm
    obtain ⟨i, hi⟩ := List.mem_iff_getElem?.1 hm
    cases h with
    | map _ _ hvalues => exact hvalues i m.1 m.2 (keyText m.1) _ hi (by simp [named, hi])
  · intro h
    have hentry : ∀ (i : Nat) k v key tree, (counted members)[i]? = some (k, v) →
        (named (counted members))[i]? = some (key, tree) → key = keyText k ∧ tree = v.toJson := by
      intro i k v key tree hm he
      rw [named, List.getElem?_map, hm] at he
      cases he
      exact ⟨rfl, rfl⟩
    refine .map (by simp [named]) (fun i k v key tree hm he => (hentry i k v key tree hm he).1) ?_
    intro i k v key tree hm he
    obtain ⟨-, rfl⟩ := hentry i k v key tree hm he
    exact h _ (List.mem_of_getElem? hm)

end Holds

/-- The tree of a value holds all of it but the entries that do not remain. -/
theorem holds_remaining_toJson (v : Value) : Holds remaining v v.toJson := by
  induction v using parts_induction with
  | null => exact .null
  | bool b => exact .bool b
  | num n => exact holds_num n
  | str s => exact .str s
  | seq items ih => exact (holds_seq_iff items).2 ih
  | map members ih =>
    rw [toJson_map]
    exact holds_named_iff.2 fun m hm => ih m (mem_of_mem_remaining hm)
  | tagged tag v ih =>
    rw [toJson]
    exact .tagged ih

/-- Whether no two entries of one mapping are written alike. -/
def KeysApart (v : Value) : Prop := v.Throughout fun members => (texts members).Nodup

theorem holds_all_map_iff (members : List (Value × Value)) :
    Holds id (map members) (map members).toJson ↔
      (texts members).Nodup ∧ ∀ m ∈ members, Holds id m.2 m.2.toJson := by
  constructor
  · intro h
    -- the keys of a tree are different, and here they are the texts of all entries
    have hdistinct := keysDistinct_toJson (map members)
    rw [toJson_map] at h hdistinct
    have hnodup : (texts members).Nodup := keys_of_holds h ▸ (Json.keysDistinct_obj.1 hdistinct).1
    rw [remaining_of_nodup hnodup] at h
    exact ⟨hnodup, holds_named_iff.1 h⟩
  · rintro ⟨hnodup, hvalues⟩
    rw [toJson_map, remaining_of_nodup hnodup]
    exact holds_named_iff.2 hvalues

/-- The tree of a value holds all of it exactly if no two entries of one mapping are written
alike. -/
theorem holds_all_toJson_iff (v : Value) : Holds id v v.toJson ↔ KeysApart v := by
  induction v using parts_induction with
  | null => exact iff_of_true .null (throughout_of_isScalar rfl)
  | bool b => exact iff_of_true (.bool b) (throughout_of_isScalar rfl)
  | num n => exact iff_of_true (holds_num n) (throughout_of_isScalar rfl)
  | str s => exact iff_of_true (.str s) (throughout_of_isScalar rfl)
  | seq items ih =>
    rw [holds_seq_iff, KeysApart, throughout_seq]
    exact forall₂_congr ih
  | map members ih =>
    rw [holds_all_map_iff, KeysApart, throughout_map]
    exact and_congr_right' (forall₂_congr ih)
  | tagged tag v ih => rw [toJson, holds_tagged_iff, ih, KeysApart, KeysApart, throughout_tagged]

/-! ## Keys that are written alike -/

/-- Whether a key is read from a word of its own: null, a boolean or an integer. -/
def isWord : Value → Bool
  | null | bool _ | num (.int _) => true
  | _ => false

/-- Whether a key is a string. -/
def isText : Value → Bool
  | str _ => true
  | _ => false

/-- Two keys of one sort: both strings, or both words. -/
def OneSort (a b : Value) : Prop :=
  (a.isText = true ∧ b.isText = true) ∨ (a.isWord = true ∧ b.isWord = true)

theorem cases_of_isText {a : Value} (h : a.isText = true) : ∃ s, a = str s := by
  cases a with
  | str s => exact ⟨s, rfl⟩
  | _ => cases h

theorem cases_of_isWord {a : Value} (h : a.isWord = true) :
    a = null ∨ (∃ b, a = bool b) ∨ ∃ n, a = num (.int n) := by
  cases a with
  | null => exact .inl rfl
  | bool b => exact .inr (.inl ⟨b, rfl⟩)
  | num n =>
    cases n with
    | int n => exact .inr (.inr ⟨n, rfl⟩)
    | float => cases h
  | _ => cases h

/-- The characters that an integer is written in. -/
theorem of_mem_toString_int {n : Int} {c : Char} (h : c ∈ (toString n).toList) :
    c.isDigit = true ∨ c = '_' ∨ c = '-' := by
  have hnat : ∀ {t : String}, t.isNat = true → c ∈ t.toList → c.isDigit = true ∨ c = '_' :=
    fun ht => (String.isNat_iff.1 ht).2.1 c
  rw [Int.toString_eq_repr] at h
  rcases String.isInt_iff.1 (@Int.isInt_repr n) with hdigits | ⟨t, hsign, hdigits⟩
  · exact (hnat hdigits h).imp_right .inl
  · rw [hsign, String.toList_append, List.mem_append] at h
    rcases h with h | h
    · exact .inr (.inr (List.mem_singleton.1 h))
    · exact (hnat hdigits h).imp_right .inl

theorem toString_int_ne {n : Int} {s : String} {c : Char} (hmem : c ∈ s.toList)
    (hc : ¬(c.isDigit = true ∨ c = '_' ∨ c = '-')) : toString n ≠ s := by
  rintro rfl
  exact hc (of_mem_toString_int hmem)

/-- A word is told by its text. -/
theorem eq_of_keyText_eq_word {a b : Value} (ha : a.isWord = true) (hb : b.isWord = true)
    (h : keyText a = keyText b) : a = b := by
  have hnull (n : Int) : toString n ≠ keyText null :=
    toString_int_ne (c := 'n') (by decide) (by decide)
  have hbool (n : Int) (c : Bool) : toString n ≠ keyText (bool c) := by
    cases c
    · exact toString_int_ne (c := 'e') (by decide) (by decide)
    · exact toString_int_ne (c := 'e') (by decide) (by decide)
  obtain rfl | ⟨c, rfl⟩ | ⟨n, rfl⟩ := cases_of_isWord ha
  · obtain rfl | ⟨d, rfl⟩ | ⟨m, rfl⟩ := cases_of_isWord hb
    · rfl
    · cases d <;> exact absurd h (by decide)
    · exact absurd h.symm (hnull m)
  · obtain rfl | ⟨d, rfl⟩ | ⟨m, rfl⟩ := cases_of_isWord hb
    · cases c <;> exact absurd h (by decide)
    · cases c <;> cases d <;> first | rfl | exact absurd h (by decide)
    · exact absurd h.symm (hbool m c)
  · obtain rfl | ⟨d, rfl⟩ | ⟨m, rfl⟩ := cases_of_isWord hb
    · exact absurd h (hnull n)
    · exact absurd h (hbool n d)
    · rw [Int.repr_injective h]

/-- Among keys of one sort the text tells which key it is. -/
theorem eq_of_keyText_eq {a b : Value} (hsort : OneSort a b) (h : keyText a = keyText b) :
    a = b := by
  rcases hsort with ⟨ha, hb⟩ | ⟨ha, hb⟩
  · obtain ⟨s, rfl⟩ := cases_of_isText ha
    obtain ⟨t, rfl⟩ := cases_of_isText hb
    exact congrArg str h
  · exact eq_of_keyText_eq_word ha hb h

theorem same_self {a : Value} (h : a.isText = true ∨ a.isWord = true) : same a a = true := by
  rcases h with h | h
  · obtain ⟨s, rfl⟩ := cases_of_isText h
    exact beq_self_eq_true s
  · obtain rfl | ⟨b, rfl⟩ | ⟨n, rfl⟩ := cases_of_isWord h
    · rfl
    · exact beq_self_eq_true b
    · exact beq_self_eq_true n

/-- Keys that differ are written alike only across sorts. -/
theorem writtenAlike_only_across {members : List (Value × Value)} (h : NoKeyTwice members) :
    members.Pairwise fun m n => keyText m.1 = keyText n.1 → ¬OneSort m.1 n.1 := by
  refine List.Pairwise.imp ?_ h
  intro m n hdiffer htext hsort
  have hsame : m.1 = n.1 := eq_of_keyText_eq hsort htext
  have hself : same m.1 m.1 = true := same_self (hsort.imp And.left And.left)
  rw [← hsame, hself] at hdiffer
  cases hdiffer

/-! ## Documents -/

/-- **Nothing is lost in loading but entries that are written alike.** Sequences keep their
items in order, integers their values, and mappings one member for each text that a key has:
in the place of the first such entry, with the value of the last. All is kept exactly if no two
entries of one mapping are written alike, and two that are do not both have strings for keys,
nor both words. -/
theorem loaded_whole_iff {text : String} {v : Value} (h : ofText text = .ok v) :
    Holds remaining v v.toJson ∧ (Holds id v v.toJson ↔ KeysApart v) ∧
      v.Throughout fun members =>
        members.Pairwise fun m n => keyText m.1 = keyText n.1 → ¬OneSort m.1 n.1 :=
  ⟨holds_remaining_toJson v, holds_all_toJson_iff v,
    (noKeyTwice_of_ofText h).imp fun _ => writtenAlike_only_across⟩

/-- Keys of three sorts, none written like another: a list, a tagged number and nothing. -/
theorem statuses_loaded_whole :
    ∃ v, ofText "200: [ok, 1]\ntrue: !big 7\n\"404\": ~\n" = .ok v ∧
      v.toJson = .obj [("200", .arr [.str "ok", .num (.int 1)]), ("true", .num (.int 7)),
        ("404", .null)] ∧
      Holds id v v.toJson := by
  have hread : ofText "200: [ok, 1]\ntrue: !big 7\n\"404\": ~\n"
      = .ok (map [(num (.int 200), seq [str "ok", num (.int 1)]),
        (bool true, tagged "big" (num (.int 7))), (str "404", null)]) := rfl
  refine ⟨_, hread, rfl, (loaded_whole_iff hread).2.1.2 ?_⟩
  have hscalar : ∀ u : Value, u.isScalar = true → KeysApart u := fun _ => throughout_of_isScalar
  refine throughout_map.2 ⟨by decide, ?_⟩
  simp only [List.mem_cons, List.not_mem_nil, or_false, forall_eq_or_imp, forall_eq, throughout_seq,
    throughout_tagged]
  exact ⟨⟨hscalar (str "ok") rfl, hscalar (num (.int 1)) rfl⟩, hscalar (num (.int 7)) rfl,
    hscalar null rfl⟩

/-- A number and a string that are written alike: the first entry is lost. -/
theorem quotedStatus_replaces_number :
    ∃ v, ofText "200: a\n\"200\": b\n" = .ok v ∧ v.toJson = .obj [("200", .str "b")] ∧
      ¬Holds id v v.toJson := by
  refine ⟨map [(num (.int 200), str "a"), (str "200", str "b")], rfl, rfl, fun h => ?_⟩
  have hnodup : (texts [(num (.int 200), str "a"), (str "200", str "b")]).Nodup :=
    ((holds_all_map_iff _).1 h).1
  exact absurd hnodup (by decide)

end Yaml.Value

end PatternAudit
