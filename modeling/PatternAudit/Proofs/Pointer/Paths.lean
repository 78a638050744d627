/-
References, written and followed.

The way to a node of a tree is written as a reference: a slash before each step, then an index in
decimal digits or an escaped key. Any characters of an escaped key may be written as percent
escapes of their bytes, and percent signs have to be (`PartlyEscaped`), so one way has many
references. All of them are followed to the node (`resolveRef?_fragment`).

Three codes are undone for that, in the order opposite to the one in which they were put on. The
bytes are those of the escaped keys again, whatever was written as an escape
(`decodePercent_partlyEscaped`), and they are the bytes of a text, so reading them loses nothing.
Cut at its slashes, the text gives back the escaped keys, and these the keys.
-/
import PatternAudit.Proofs.Walk.Fragments

set_option autoImplicit false

namespace PatternAudit.Pointer

/-! ## Paths -/

/-- A step down a tree. An index is a machine word. -/
inductive Step where
  | key (key : String)
  | index (i : UInt64)

/-- The node that a path leads to. -/
inductive Leads : Json → List Step → Json → Prop where
  | here (v : Json) : Leads v [] v
  | key {ms : List (String × Json)} {key : String} {below v : Json} {path : List Step}
      (hmember : Json.lookup key ms = some below) (h : Leads below path v) :
      Leads (.obj ms) (.key key :: path) v
  | index {vs : List Json} {i : UInt64} {below v : Json} {path : List Step}
      (hitem : vs[i.toNat]? = some below) (h : Leads below path v) :
      Leads (.arr vs) (.index i :: path) v

/-- The text that a step is written as, before anything is escaped. -/
def Step.name : Step → String
  | .key k => k
  | .index i => toString i.toNat

/-! ## Fragments -/

/-- Bytes and their percent escapes, with digits in either case. -/
inductive Escapes : List UInt8 → List Char → Prop where
  | nil : Escapes [] []
  | cons {b : UInt8} {bs : List UInt8} {hi lo : Char} {cs : List Char}
      (hhi : Text.hexValue? hi = some (b.toNat / 16)) (hlo : Text.hexValue? lo = some (b.toNat % 16))
      (h : Escapes bs cs) : Escapes (b :: bs) ('%' :: hi :: lo :: cs)

/-- Characters, and the same with some of them written as the escapes of their bytes. Those that
are not written so are no percent signs. -/
inductive PartlyEscaped : List Char → List Char → Prop where
  | nil : PartlyEscaped [] []
  | plain {c : Char} {cs out : List Char} (hc : c ≠ '%') (h : PartlyEscaped cs out) :
      PartlyEscaped (c :: cs) (c :: out)
  | escaped {c : Char} {cs escapes out : List Char}
      (hc : Escapes (String.utf8EncodeChar c) escapes) (h : PartlyEscaped cs out) :
      PartlyEscaped (c :: cs) (escapes ++ out)

/-- A path, and what is written of it behind the `#` of a reference. -/
inductive Fragment : List Step → List Char → Prop where
  | nil : Fragment [] []
  | key {key : String} {path : List Step} {segment out : List Char}
      (hkey : PartlyEscaped (escapeChars key.toList) segment) (h : Fragment path out) :
      Fragment (.key key :: path) ('/' :: segment ++ out)
  | index {i : UInt64} {path : List Step} {out : List Char} (h : Fragment path out) :
      Fragment (.index i :: path) ('/' :: (toString i.toNat).toList ++ out)

/-! ## Undoing the escapes -/

/-- Hexadecimal digits are ASCII characters. -/
theorem toNat_lt_of_hexValue? {c : Char} {n : Nat} (h : Text.hexValue? c = some n) :
    c.toNat < 128 := by
  have hle : ∀ d : Char, d.toNat < 128 → c ≤ d → c.toNat < 128 :=
    fun d hd hcd => Nat.lt_of_le_of_lt (UInt32.le_iff_toNat_le.1 (Char.le_def.1 hcd)) hd
  unfold Text.hexValue? at h
  split at h
  · rename_i hdigit
    rw [Bool.and_eq_true, decide_eq_true_eq, decide_eq_true_eq] at hdigit
    exact hle '9' (by decide) hdigit.2
  · split at h
    · rename_i hlower
      rw [Bool.and_eq_true, decide_eq_true_eq, decide_eq_true_eq] at hlower
      exact hle 'f' (by decide) hlower.2
    · split at h
      · rename_i hupper
        rw [Bool.and_eq_true, decide_eq_true_eq, decide_eq_true_eq] at hupper
        exact hle 'F' (by decide) hupper.2
      · cases h

/-- A hexadecimal digit has one byte, which is the digit. -/
theorem utf8EncodeChar_of_hexValue? {c : Char} {n : Nat} (h : Text.hexValue? c = some n) :
    ∃ b, String.utf8EncodeChar c = [b] ∧ digit? b = some n := by
  have hall : ∀ k < 128, String.utf8EncodeChar (Char.ofNat k) = [UInt8.ofNat k] ∧
      digit? (UInt8.ofNat k) = Text.hexValue? (Char.ofNat k) := by
    decide +kernel
  obtain ⟨hone, hdigit⟩ := hall c.toNat (toNat_lt_of_hexValue? h)
  rw [Char.ofNat_toNat] at hone hdigit
  exact ⟨_, hone, hdigit.trans h⟩

/-- The escapes of bytes are the bytes. -/
theorem decodePercent_escapes {bs : List UInt8} {cs : List Char} (h : Escapes bs cs)
    (rest : List UInt8) :
    decodePercent (cs.flatMap String.utf8EncodeChar ++ rest) = bs ++ decodePercent rest := by
  induction h with
  | nil => rfl
  | @cons b bs hi lo cs hhi hlo _ ih =>
    obtain ⟨x, hx, hm⟩ := utf8EncodeChar_of_hexValue? hhi
    obtain ⟨y, hy, hn⟩ := utf8EncodeChar_of_hexValue? hlo
    have hsign : String.utf8EncodeChar '%' = [37] := by decide
    have hvalue : UInt8.ofNat (b.toNat / 16 * 16 + b.toNat % 16) = b := by
      rw [Nat.div_add_mod', UInt8.ofNat_toNat]
    have hpair : hexPair? x y = some b := by
      rw [hexPair?_eq, signedPair?_of_ne (of_digit?_eq_some hm).2.1]
      exact pair?_eq_some_iff.2 ⟨_, _, hm, hn, hvalue.symm⟩
    simp only [List.flatMap_cons, hsign, hx, hy, List.cons_append, List.nil_append, decodePercent,
      if_true, hpair, ih]

/-- Whichever characters are escaped, the bytes are those of all characters. -/
theorem decodePercent_partlyEscaped {cs out : List Char} (h : PartlyEscaped cs out) :
    decodePercent (out.flatMap String.utf8EncodeChar) = cs.flatMap String.utf8EncodeChar := by
  induction h with
  | nil => rfl
  | plain hc _ ih =>
    rw [List.flatMap_cons, List.flatMap_cons, decodePercent_append (ne_percent_of_mem_encoded hc),
      ih]
  | escaped hc _ ih =>
    rw [List.flatMap_append, decodePercent_escapes hc, ih, List.flatMap_cons]

/-! ## Following -/

theorem PartlyEscaped.refl {cs : List Char} (h : '%' ∉ cs) : PartlyEscaped cs cs := by
  induction cs with
  | nil => exact .nil
  | cons c cs ih =>
    rw [List.mem_cons, not_or] at h
    exact .plain (Ne.symm h.1) (ih h.2)

theorem PartlyEscaped.append {as bs out out' : List Char} (h : PartlyEscaped as out)
    (h' : PartlyEscaped bs out') : PartlyEscaped (as ++ bs) (out ++ out') := by
  induction h with
  | nil => exact h'
  | plain hc _ ih => exact .plain hc ih
  | escaped hc _ ih =>
    rw [List.append_assoc]
    exact .escaped hc ih

/-- An index has no percent signs, and nothing to escape. -/
theorem partlyEscaped_index (i : Nat) :
    PartlyEscaped (escapeChars (toString i).toList) (toString i).toList := by
  rw [escapeChars_toString, Nat.toString_eq_repr, Nat.toList_repr]
  apply PartlyEscaped.refl
  intro hmem
  have hdigit := Nat.isDigit_of_mem_toDigits (by decide) (by decide) hmem
  exact absurd hdigit (by decide)

/-- A fragment is the pointer of its path, with some characters written as escapes. -/
theorem Fragment.partlyEscaped {path : List Step} {cs : List Char} (h : Fragment path cs) :
    PartlyEscaped ((path.map Step.name).flatMap fun name => '/' :: escapeChars name.toList) cs := by
  induction h with
  | nil => exact .nil
  | key hkey _ ih =>
    rw [List.map_cons, List.flatMap_cons]
    exact .plain (by decide) (hkey.append ih)
  | index _ ih =>
    rw [List.map_cons, List.flatMap_cons]
    exact .plain (by decide) ((partlyEscaped_index _).append ih)

/-- A path is followed along the escaped names of its steps. -/
theorem Leads.follow? {root v : Json} {path : List Step} (h : Leads root path v) :
    follow? root ((path.map Step.name).map fun name => escapeChars name.toList) = some v := by
  induction h with
  | here => rfl
  | @key ms key below v path hmember _ ih =>
    have hchild : child? (.obj ms) (escapeChars key.toList) = some below := by
      rw [child?, unescapeChars_escapeChars, String.ofList_toList, hmember]
    rw [List.map_cons, List.map_cons, Pointer.follow?, Step.name, hchild, Option.bind_some, ih]
  | @index vs i below v path hitem _ ih =>
    have hfits : Word.fits 64 i.toNat = true := decide_eq_true i.toNat_lt
    have hchild : child? (.arr vs) (escapeChars (toString i.toNat).toList) = some below := by
      rw [child?, escapeChars_toString, index?_toDigits hfits, Option.bind_some, hitem]
    rw [List.map_cons, List.map_cons, Pointer.follow?, Step.name, hchild, Option.bind_some, ih]

/-- **A written path is followed to its node.** The reference `#` names the root, and whichever
characters of the escaped keys are written as percent escapes, the reference that a path is
written as names the node that the path leads to. -/
theorem resolveRef?_fragment {root v : Json} {path : List Step} {cs : List Char}
    (hpath : Leads root path v) (hwritten : Fragment path cs) :
    resolveRef? root "#" = some root ∧ resolveRef? root (String.ofList ('#' :: cs)) = some v := by
  refine ⟨rfl, ?_⟩
  have hdecoded : percentDecode (String.ofList cs)
      = String.ofList ((path.map Step.name).flatMap fun name => '/' :: escapeChars name.toList) := by
    rw [percentDecode, Text.bytes_eq, String.toList_ofList,
      decodePercent_partlyEscaped hwritten.partlyEscaped, Text.decodeLossy,
      Text.decodeLossyChars_encoded]
  rw [resolveRef?_eq, segments?_of_local (String.toList_ofList ..), hdecoded, segmentsOf?_joined,
    Option.bind_some, hpath.follow?]

/-- A tree with a key of two bytes, a percent sign, a slash and a tilde, and with an empty key. -/
def oddKeys : Json := .obj [("é%/~", .arr [.null, .obj [("", .str "here")]])]

/-- Both bytes of the letter are written as escapes, the percent sign, and one of two tildes. -/
theorem oddKeys_followed :
    Leads oddKeys [.key "é%/~", .index 1, .key ""] (.str "here") ∧
      Fragment [.key "é%/~", .index 1, .key ""] "/%C3%a9%25~1%7E0/1/".toList ∧
      resolveRef? oddKeys "#/%C3%a9%25~1%7E0/1/" = some (.str "here") := by
  have hpath : Leads oddKeys [.key "é%/~", .index 1, .key ""] (.str "here") :=
    .key rfl (.index rfl (.key rfl (.here _)))
  have hletter : Escapes (String.utf8EncodeChar 'é') ['%', 'C', '3', '%', 'a', '9'] :=
    .cons (by decide) (by decide) (.cons (by decide) (by decide) .nil)
  have hpercent : Escapes (String.utf8EncodeChar '%') ['%', '2', '5'] :=
    .cons (by decide) (by decide) .nil
  have htilde : Escapes (String.utf8EncodeChar '~') ['%', '7', 'E'] :=
    .cons (by decide) (by decide) .nil
  have hkey : PartlyEscaped (escapeChars "é%/~".toList) "%C3%a9%25~1%7E0".toList :=
    .escaped hletter (.escaped hpercent
      (.plain (by decide) (.plain (by decide) (.escaped htilde (.plain (by decide) .nil)))))
  have hempty : PartlyEscaped (escapeChars "".toList) "".toList := .nil
  have hwritten : Fragment [.key "é%/~", .index 1, .key ""] "/%C3%a9%25~1%7E0/1/".toList :=
    .key hkey (.index (.key hempty .nil))
  exact ⟨hpath, hwritten, (resolveRef?_fragment hpath hwritten).2⟩

end PatternAudit.Pointer
