/-
Locations as references.

A location is written in the syntax of references, and where a description has no references of
its own, it can be used as one: it names the node that the walk was at (`Trail.resolveRef?`).
Two codes have to undo each other for that. What a key is escaped to when a location is written
is cut at the same slashes and read as the same key when a reference is followed
(`Child.child?`), and an index is written in the digits that `index?` reads.

Percent signs are the exception. References may carry percent escapes and locations write none,
so a key such as `%41` would be taken for another one (`percentKey_location_resolves_not`). A
location without such a key is a reference as it stands; every location is one once its own
percent signs are escaped (`percentEncode`).
-/
import PatternAudit.Proofs.Json.RoundTrip
import PatternAudit.Proofs.Pointer.Percent
import PatternAudit.Proofs.Text.Utf8
import PatternAudit.Proofs.Walk.Located
import PatternAudit.Proofs.Walk.Locations
import PatternAudit.Proofs.Walk.Replaced

set_option autoImplicit false

namespace PatternAudit

namespace Pointer

/-! ## Percent escapes -/

/-- Whether some percent sign starts an escape. -/
def escaped : List UInt8 → Bool
  | b :: x :: y :: rest => b == 37 && (hexPair? x y).isSome || escaped (x :: y :: rest)
  | _ => false

/-- Whether some percent sign of a text is followed by what is read as two hexadecimal digits. -/
def hasEscape (s : String) : Bool := escaped (Text.bytes s)

/-- Writes a text so that undoing percent escapes gives it back. -/
def percentEncode (s : String) : String :=
  String.ofList (s.toList.flatMap fun c => if c = '%' then ['%', '2', '5'] else [c])

/-- Where no percent sign starts an escape, there is nothing to undo. -/
theorem decodePercent_of_not_escaped {bs : List UInt8} (h : escaped bs = false) :
    decodePercent bs = bs := by
  fun_induction decodePercent bs with
  | case1 x y rest v hpair => simp [escaped, hpair] at h
  | case2 x y rest hpair ih =>
    rw [escaped, Bool.or_eq_false_iff] at h
    rw [ih h.2]
  | case3 b x y rest hb ih =>
    rw [escaped, Bool.or_eq_false_iff] at h
    rw [ih h.2]
  | case4 bs => rfl

theorem escaped_of_escaped_tail {b : UInt8} {bs : List UInt8} (h : escaped bs = true) :
    escaped (b :: bs) = true := by
  match bs with
  | [] => cases h
  | [_] => cases h
  | x :: y :: rest => rw [escaped, h, Bool.or_true]

theorem decodePercent_cons_of_ne {b : UInt8} (h : b ≠ 37) (bs : List UInt8) :
    decodePercent (b :: bs) = b :: decodePercent bs := by
  match bs with
  | [] => rfl
  | [_] => rfl
  | x :: y :: rest => rw [decodePercent, if_neg h]

theorem decodePercent_append {as : List UInt8} (h : ∀ b ∈ as, b ≠ 37) (bs : List UInt8) :
    decodePercent (as ++ bs) = as ++ decodePercent bs := by
  induction as with
  | nil => rfl
  | cons a as ih =>
    obtain ⟨ha, has⟩ := List.forall_mem_cons.1 h
    rw [List.cons_append, decodePercent_cons_of_ne ha, ih has, List.cons_append]

/-- No byte of any other character is that of a percent sign. -/
theorem ne_percent_of_mem_encoded {c : Char} (h : c ≠ '%') :
    ∀ b ∈ String.utf8EncodeChar c, b ≠ 37 := by
  have hval : c.val.toNat ≠ 37 := fun heq => h (Char.ext (UInt32.toNat_inj.1 heq))
  have hvalid : c.toNat < 0xD800 ∨ 0xDFFF < c.toNat ∧ c.toNat < 0x110000 := c.valid
  rw [Char.toNat] at hvalid
  have hne : ∀ {n : Nat}, n < 256 → n ≠ 37 → UInt8.ofNat n ≠ 37 := by
    intro n hn hn' heq
    have hsame := congrArg UInt8.toNat heq
    rw [Text.toNat_ofNat_of_lt hn] at hsame
    exact hn' hsame
  unfold String.utf8EncodeChar
  dsimp only
  repeat' split
  all_goals
    intro b hb
    simp only [List.mem_cons, List.not_mem_nil, or_false] at hb
    rcases hb with rfl | rfl | rfl | rfl | rfl <;> exact hne (by omega) (by omega)

theorem decodePercent_encoded (cs : List Char) :
    decodePercent ((cs.flatMap fun c => if c = '%' then ['%', '2', '5'] else [c]).flatMap
      String.utf8EncodeChar) = cs.flatMap String.utf8EncodeChar := by
  induction cs with
  | nil => rfl
  | cons c cs ih =>
    rw [List.flatMap_cons, List.flatMap_append, List.flatMap_cons]
    by_cases hc : c = '%'
    · have hsign : ['%', '2', '5'].flatMap String.utf8EncodeChar = [37, 50, 53] := by decide
      have hpair : hexPair? 50 53 = some 37 := by decide
      rw [if_pos hc, hsign, List.cons_append, List.cons_append, List.cons_append, decodePercent,
        if_pos rfl, hpair, hc]
      dsimp only
      rw [List.nil_append, ih]
      rfl
    · rw [if_neg hc, List.flatMap_singleton, decodePercent_append (ne_percent_of_mem_encoded hc),
        ih]

/-- A text is what its escaped form stands for. -/
theorem percentDecode_percentEncode (s : String) : percentDecode (percentEncode s) = s := by
  rw [percentDecode, percentEncode, Text.bytes_eq, String.toList_ofList, decodePercent_encoded,
    ← Text.bytes_eq, Text.decodeLossy_bytes]

theorem percentDecode_ofList_of_not_escaped {cs : List Char}
    (h : escaped (cs.flatMap String.utf8EncodeChar) = false) :
    percentDecode (String.ofList cs) = String.ofList cs := by
  have hbytes : Text.bytes (String.ofList cs) = cs.flatMap String.utf8EncodeChar := by
    rw [Text.bytes_eq, String.toList_ofList]
  rw [percentDecode, decodePercent_of_not_escaped (hbytes ▸ h), Text.decodeLossy_bytes]

/-! ## Segments of a location -/

theorem splitSlash_joined {first : List Char} (h : '/' ∉ first) (segs : List String) :
    splitSlash (first ++ segs.flatMap fun key => '/' :: escapeChars key.toList)
      = first :: segs.map fun key => escapeChars key.toList := by
  induction segs generalizing first with
  | nil => rw [List.flatMap_nil, List.append_nil, splitSlash_of_no_slash h, List.map_nil]
  | cons key segs ih =>
    rw [List.flatMap_cons, List.cons_append, splitSlash_append_slash, splitSlash_of_no_slash h,
      ih (slash_not_mem_escapeChars _), List.map_cons]
    rfl

/-- The pointer of a location has the escaped keys as its segments. -/
theorem segmentsOf?_joined (segs : List String) :
    segmentsOf? (String.ofList (segs.flatMap fun key => '/' :: escapeChars key.toList))
      = some (segs.map fun key => escapeChars key.toList) := by
  rw [segmentsOf?, String.toList_ofList]
  cases segs with
  | nil => rfl
  | cons key segs =>
    rw [List.flatMap_cons, List.cons_append]
    exact congrArg some (splitSlash_joined (slash_not_mem_escapeChars _) segs)

/-- A local reference has the segments of what its percent escapes stand for. -/
theorem segments?_of_local {reference : String} {cs : List Char}
    (h : reference.toList = '#' :: cs) :
    segments? reference = segmentsOf? (percentDecode (String.ofList cs)) := by
  rw [segments?, h]
  cases cs with
  | nil =>
    rw [percentDecode_ofList_of_not_escaped rfl]
    rfl
  | cons => rfl

theorem follow?_append (node : Json) (as bs : List (List Char)) :
    follow? node (as ++ bs) = (follow? node as).bind (follow? · bs) := by
  induction as generalizing node with
  | nil => rfl
  | cons a as ih =>
    rw [List.cons_append, follow?, follow?, Option.bind_assoc]
    simp only [ih]

/-! ## Indices -/

/-- There is nothing to escape in an index. -/
theorem escapeChars_toString (i : Nat) : escapeChars (toString i).toList = Nat.toDigits 10 i := by
  have hescape := congrArg String.toList (escape_toString i)
  rw [escape, String.toList_ofList] at hescape
  rw [hescape, Nat.toString_eq_repr, Nat.toList_repr]

/-- A decimal number is read as an index, if it fits a word. -/
theorem index?_toDigits {i : Nat} (h : Word.fits 64 i = true) :
    index? (Nat.toDigits 10 i) = some i := by
  rcases Nat.eq_zero_or_pos i with rfl | hpos
  · rfl
  · obtain ⟨c, cs, hcs, hc⟩ := Json.Read.exists_toDigits_eq_cons hpos
    have hdigits : (c :: cs).all (fun c => '0' ≤ c && c ≤ '9') = true := by
      rw [← hcs]
      exact List.all_eq_true.2 fun a ha => Json.Read.isDigit_of_mem_toDigits ha
    have hvalue : (c :: cs).foldl (fun n c => n * 10 + (c.toNat - '0'.toNat)) 0 = i := by
      have hall := Nat.ofDigitChars_toDigits (n := i) (b := 10) (by decide) (by decide)
      rw [← hcs]
      simpa only [Nat.ofDigitChars, Nat.mul_comm] using hall
    rw [hcs, index?]
    · simp only [hdigits, hvalue, h, if_true]
    · exact List.cons_ne_nil c cs
    · exact fun hzero => hc (List.cons.inj hzero).1
    · exact fun _ hzero => hc (List.cons.inj hzero).1

end Pointer

namespace Json

/-! ## Sizes -/

theorem le_sumItems (f : Json → Nat) {u : Json} {vs : List Json} (h : u ∈ vs) :
    f u ≤ sumItems f vs := by
  induction vs with
  | nil => cases h
  | cons v vs ih =>
    rw [sumItems]
    rcases List.mem_cons.1 h with rfl | h
    · exact Nat.le_add_right ..
    · exact Nat.le_trans (ih h) (Nat.le_add_left ..)

theorem sumMembers_eq (f : Json → Nat) (ms : List (String × Json)) :
    sumMembers f ms = sumItems f (ms.map Prod.snd) := by
  induction ms with
  | nil => rfl
  | cons m ms ih => rw [sumMembers, List.map_cons, sumItems, ih]

/-- A part of a tree weighs no more than the tree. -/
theorem Has.weight_le {doc v : Json} (h : doc.Has v) : v.weight ≤ doc.weight := by
  obtain ⟨a, ha⟩ := h
  induction a generalizing doc with
  | nil =>
    cases ha
    exact Nat.le_refl _
  | cons i a ih =>
    obtain ⟨child, hchild, ha⟩ := Option.bind_eq_some_iff.1 ha
    refine Nat.le_trans (ih ha) ?_
    cases doc with
    | arr vs =>
      exact Nat.le_trans (le_sumItems weight (List.mem_of_getElem? hchild)) (additive_weight.arr vs)
    | obj ms =>
      refine Nat.le_trans (le_sumItems weight (List.mem_of_getElem? hchild)) ?_
      rw [children, ← sumMembers_eq]
      exact additive_weight.obj ms
    | _ => cases hchild

theorem length_le_weight (vs : List Json) : vs.length ≤ (arr vs).weight := by
  refine Nat.le_trans ?_ (additive_weight.arr vs)
  induction vs with
  | nil => exact Nat.zero_le _
  | cons v vs ih =>
    have hpos := weight_pos v
    rw [List.length_cons, sumItems]
    omega

end Json

namespace Walk

/-! ## Locations that are references -/

/-- Whether every key of a path item that names a method is spelled like the method. -/
def MethodsLower (doc : Json) : Prop :=
  ∀ segs ms, Descent doc segs .pathItem (.obj ms) → Place.pathItem.Reads (.obj ms) →
    ∀ key ∈ ms.map Prod.fst, ∀ method, methodOf? key = some method → key = method

/-- Where no path item is a reference, one looks for methods at the members of the map. -/
theorem methodsLower_of_members {doc : Json} {items : List (String × Json)}
    (hpaths : doc.get? "paths" = some (.obj items)) (hnone : ∀ m ∈ items, target? m.2 = none)
    (h : ∀ m ∈ items, ∀ ms, m.2 = .obj ms →
      ∀ key ∈ ms.map Prod.fst, methodOf? key = none ∨ methodOf? key = some key) :
    MethodsLower doc := by
  intro segs ms hdescent _ key hkey method hmethod
  obtain ⟨path, hmem⟩ := mem_of_descent_pathItem hpaths hnone hdescent
  rcases h _ hmem ms rfl key hkey with hno | hsame
  · rw [hno] at hmethod
    cases hmethod
  · rw [hsame] at hmethod
    exact Option.some.inj hmethod

/-- A step down is a step of a pointer, along the escaped key. The step to an operation is one
if its key is spelled like the method. -/
theorem Child.child? {p q : Place} {v below : Json} {key : String} (h : Child p v key q below)
    (hkeys : v.keysDistinct = true) (hfits : Word.fits 64 v.weight = true)
    (hmethods : ∀ ms, p = .pathItem → v = .obj ms →
      ∀ key ∈ ms.map Prod.fst, ∀ method, methodOf? key = some method → key = method) :
    Pointer.child? v (Pointer.escapeChars key.toList) = some below := by
  have hmember : ∀ {v below : Json} {key : String}, v.get? key = some below →
      Pointer.child? v (Pointer.escapeChars key.toList) = some below := by
    intro v below key hv
    obtain ⟨ms, rfl⟩ := obj_of_get? hv
    rw [Pointer.child?, Pointer.unescapeChars_escapeChars, String.ofList_toList]
    exact hv
  cases h with
  | member _ hv => exact hmember hv
  | tuple hv => exact hmember hv
  | items hv => exact hmember hv
  | additional hv => exact hmember hv
  | @method ms spelled _ _ hmem hmethod hspelled =>
    have hsame := hmethods ms rfl rfl spelled (List.mem_map.2 ⟨_, hmem, rfl⟩) key
      (methodOf?_eq_some_iff.2 ⟨hmethod, hspelled⟩)
    exact hmember ((Json.lookup_eq_some_iff (Json.keysDistinct_obj.1 hkeys).1).2 (hsame ▸ hmem))
  | entry _ hmem =>
    exact hmember ((Json.lookup_eq_some_iff (Json.keysDistinct_obj.1 hkeys).1).2 hmem)
  | @element _ _ vs i _ _ hi =>
    have hindex : Word.fits 64 i = true := by
      have hlt : i < vs.length := (List.getElem?_eq_some_iff.1 hi).1
      have hle := Json.length_le_weight vs
      rw [Word.fits, decide_eq_true_eq] at hfits ⊢
      omega
    rw [Pointer.child?, Pointer.escapeChars_toString, Pointer.index?_toDigits hindex, Option.bind_some, hi]

section Resolves

variable {w : Walker} {segs : List String} {p : Place} {v : Json} {refs : List String}

/-- Where nothing is a reference, a trail is the way of a pointer. -/
theorem Trail.follow? (hroot : w.root.keysDistinct = true) (hrefs : references w.root = [])
    (hmethods : MethodsLower w.root) (hfits : Word.fits 64 w.root.weight = true)
    (h : Trail w segs p v refs) :
    Pointer.follow? w.root (segs.map fun key => Pointer.escapeChars key.toList) = some v := by
  induction h with
  | root => rfl
  | hop h _ htarget =>
    have hmem := mem_references h.has htarget
    rw [hrefs] at hmem
    cases hmem
  | @child segs p _ v _ _ _ h hreads hchild ih =>
    have hweight : Word.fits 64 v.weight = true := by
      have hle := h.has.weight_le
      rw [Word.fits, decide_eq_true_eq] at hfits ⊢
      omega
    have hstep := hchild.child? (h.keysDistinct hroot) hweight ?_
    · rw [List.map_append, Pointer.follow?_append, ih, Option.bind_some, List.map_singleton,
        Pointer.follow?, hstep, Option.bind_some, Pointer.follow?]
    · rintro ms rfl rfl
      exact hmethods segs ms h.descent hreads

theorem toList_locate (segs : List String) :
    (locate segs).toList = '#' :: segs.flatMap fun key => '/' :: Pointer.escapeChars key.toList := by
  induction segs using List.reverseRecOn with
  | nil => decide
  | append_singleton segs key ih =>
    rw [locate_append, belowKey, below, String.toList_append, String.toList_append, ih,
      Pointer.escape, String.toList_ofList, List.flatMap_append, List.flatMap_singleton]
    simp

/-- Every local reference that stands for a location leads to where the trail ends. -/
theorem Trail.resolveRef? (hroot : w.root.keysDistinct = true) (hrefs : references w.root = [])
    (hmethods : MethodsLower w.root) (hfits : Word.fits 64 w.root.weight = true)
    (h : Trail w segs p v refs) {reference : String} {cs : List Char}
    (hlocal : reference.toList = '#' :: cs)
    (hpointer : '#' :: (Pointer.percentDecode (String.ofList cs)).toList = (locate segs).toList) :
    Pointer.resolveRef? w.root reference = some v := by
  rw [toList_locate, List.cons.injEq] at hpointer
  rw [Pointer.resolveRef?_eq, Pointer.segments?_of_local hlocal,
    ← String.ofList_toList (s := Pointer.percentDecode _), hpointer.2, Pointer.segmentsOf?_joined,
    Option.bind_some, h.follow? hroot hrefs hmethods hfits]

end Resolves

/-- The object that a reference names, if it has a text as its `pattern`. -/
def NamesPattern (doc : Json) (reference pattern : String) : Prop :=
  ∃ v, Pointer.resolveRef? doc reference = some v ∧ v.get? "pattern" = some (.str pattern)

/-- **A location is a reference to the node with the pattern.** Here a description has no
references, and spells its methods like the walk does; the keys of its maps are arbitrary. Where
no percent sign of the location starts an escape, following the location itself ends at the
node; in every case, following the location with its percent signs escaped does. Indices are
read into words of 64 bits, and no description has more nodes than these can tell apart. -/
theorem location_resolves (d : Description) (l : Limits) (hrefs : references d.root = [])
    (hmethods : MethodsLower d.root) (hfits : Word.fits 64 d.root.weight = true)
    {location pattern : String} (h : .pattern location pattern ∈ run ⟨d.root, l⟩) :
    (Pointer.hasEscape location = false → NamesPattern d.root location pattern) ∧
      NamesPattern d.root (Pointer.percentEncode location) pattern := by
  rw [run_eq_visit, visit, visitNodes_items] at h
  obtain ⟨⟨n, t⟩, hread, hitem⟩ := List.mem_flatMap.1 h
  have htask := readings_onTrail ⟨d.root, l⟩ (n, t) hread
  obtain ⟨segs, p, v, refs, rfl, htrail, -, -, hpattern⟩ :=
    (expand_keeps n htask).located location pattern hitem
  -- both references stand for the location that the trail writes
  have hnames := @Trail.resolveRef? _ _ _ _ _ d.distinct hrefs hmethods hfits htrail
  have hlocation := toList_locate segs
  constructor
  · intro hplain
    refine ⟨v, hnames hlocation ?_, hpattern⟩
    rw [Pointer.percentDecode_ofList_of_not_escaped, String.toList_ofList, hlocation]
    rw [Pointer.hasEscape, Text.bytes_eq, hlocation, List.flatMap_cons] at hplain
    exact Bool.eq_false_iff.2 fun hescaped =>
      Bool.eq_false_iff.1 hplain (Pointer.escaped_of_escaped_tail hescaped)
  · let pointer := String.ofList (segs.flatMap fun key => '/' :: Pointer.escapeChars key.toList)
    have hencoded : (Pointer.percentEncode (locate segs)).toList
        = '#' :: (Pointer.percentEncode pointer).toList := by
      rw [Pointer.percentEncode, Pointer.percentEncode, hlocation]
      simp [pointer]
    refine ⟨v, hnames hencoded ?_, hpattern⟩
    rw [String.ofList_toList, Pointer.percentDecode_percentEncode, String.toList_ofList, hlocation]

/-- A description with a percent sign in a key, beside a slash, a tilde and digits. -/
def discountRates : Description where
  name := "rates.yaml"
  root := .obj [
    ("swagger", .str "2.0"),
    ("paths", .obj [("/rates/~100%/7", .obj [("get", .obj [("parameters", .arr [
      .obj [("name", .str "code"), ("pattern", .str "^[A-Z]+$")]])])])])]
  source := ""
  distinct := by decide

theorem discountRates_location_resolves :
    references discountRates.root = [] ∧ MethodsLower discountRates.root ∧
      Word.fits 64 discountRates.root.weight = true ∧
      .pattern "#/paths/~1rates~1~0100%~17/get/parameters/0" "^[A-Z]+$"
        ∈ run ⟨discountRates.root, Limits.default⟩ ∧
      NamesPattern discountRates.root "#/paths/~1rates~1~0100%~17/get/parameters/0" "^[A-Z]+$" ∧
      NamesPattern discountRates.root "#/paths/~1rates~1~0100%25~17/get/parameters/0"
        "^[A-Z]+$" := by
  have hrefs : references discountRates.root = [] := by decide
  have hmethods : MethodsLower discountRates.root := by
    refine methodsLower_of_members rfl (by decide) ?_
    intro m hm ms hms
    rw [List.mem_singleton.1 hm] at hms
    cases hms
    decide +kernel
  have hfits : Word.fits 64 discountRates.root.weight = true := by decide +kernel
  have hfound : patterns ⟨discountRates.root, Limits.default⟩
      = [("#/paths/~1rates~1~0100%~17/get/parameters/0", "^[A-Z]+$")] :=
    patterns_of_test 7 (by decide +kernel)
  have hrun : .pattern "#/paths/~1rates~1~0100%~17/get/parameters/0" "^[A-Z]+$"
      ∈ run ⟨discountRates.root, Limits.default⟩ := by
    rw [← mem_patterns, hfound]
    exact List.mem_singleton_self _
  obtain ⟨hplain, hencoded⟩ := location_resolves discountRates _ hrefs hmethods hfits hrun
  have hencode : Pointer.percentEncode "#/paths/~1rates~1~0100%~17/get/parameters/0"
      = "#/paths/~1rates~1~0100%25~17/get/parameters/0" := by decide +kernel
  rw [hencode] at hencoded
  exact ⟨hrefs, hmethods, hfits, hrun, hplain (by decide +kernel), hencoded⟩

/-- A description with a key that reads like an escaped letter. -/
def percentKey : Description where
  name := "percent.yaml"
  root := .obj [
    ("swagger", .str "2.0"),
    ("definitions", .obj [("%41", .obj [("pattern", .str "^a$")])]),
    ("paths", .obj [])]
  source := ""
  distinct := by decide

/-- Followed as it stands, the location of the key would lead to the letter, and there is none. -/
theorem percentKey_location_resolves_not :
    references percentKey.root = [] ∧ MethodsLower percentKey.root ∧
      .pattern "#/definitions/%41" "^a$" ∈ run ⟨percentKey.root, Limits.default⟩ ∧
      ¬ NamesPattern percentKey.root "#/definitions/%41" "^a$" := by
  have hpaths : percentKey.root.get? "paths" = some (.obj []) := rfl
  have hmethods : MethodsLower percentKey.root :=
    methodsLower_of_members hpaths (List.forall_mem_nil _) (List.forall_mem_nil _)
  have hfound : patterns ⟨percentKey.root, Limits.default⟩ = [("#/definitions/%41", "^a$")] :=
    patterns_of_test 5 (by decide +kernel)
  refine ⟨by decide, hmethods, ?_, ?_⟩
  · rw [← mem_patterns, hfound]
    exact List.mem_singleton_self _
  · rintro ⟨v, hv, -⟩
    have hnone : (Pointer.resolveRef? percentKey.root "#/definitions/%41").isSome = false := by
      decide +kernel
    rw [hv] at hnone
    cases hnone

end Walk

end PatternAudit
