/-
Unicode properties by name.

Names are compared without regard to case, blanks, `_`, `-` and a leading `is`. A
name alone may be a property that holds or not, a general category or a script; a
name with a value asks for a value of a property. Which characters have the property
matters only for the size of the automaton: the general categories and the classes
built from them are kept exactly, and every other property counts as one character.
-/
import PatternAudit.Text.Category
import PatternAudit.Dialect.Re2.Node

set_option autoImplicit false

namespace PatternAudit.Re2

open Text (Ranges Category)

/-! ## Names -/

/-- A name as it is compared. Characters outside ASCII are dropped. A name of which
only `c` is left after `is` is the abbreviation of `ISO_Comment`. -/
def normalizedName (s : String) : String :=
  let cs := s.toList
  let lead := ((cs.take 2).map Text.lowerAscii) == ['i', 's']
  let kept := (if lead then cs.drop 2 else cs).filter fun c =>
    c.toNat ≤ 0x7F && c != ' ' && c != '_' && c != '-'
  let kept := kept.map Text.lowerAscii
  if lead && kept == ['c'] then "isc" else String.ofList kept

/-- The words of a table. -/
def wordsOf (table : List String) : List String :=
  table.flatMap fun line => (line.splitOn " ")

/-- Properties that hold of a character or not. -/
def booleanNames : List String := wordsOf [
  "ahex asciihexdigit alpha alphabetic bidic bidicontrol cased ci caseignorable cwcf",
  "changeswhencasefolded cwcm changeswhencasemapped cwl changeswhenlowercased cwt",
  "changeswhentitlecased cwu changeswhenuppercased dash di defaultignorablecodepoint dep",
  "deprecated dia diacritic ebase emojimodifierbase ecomp emojicomponent emod emojimodifier emoji",
  "epres emojipresentation ext extender extpict extendedpictographic grbase graphemebase grext",
  "graphemeextend grlink graphemelink hex hexdigit hyphen idc idcontinue idcompatmathcontinue",
  "idcompatmathstart ids idstart idsb idsbinaryoperator idst idstrinaryoperator idsu",
  "idsunaryoperator ideo ideographic joinc joincontrol loe logicalorderexception lower lowercase",
  "math mcm modifiercombiningmark nchar noncharactercodepoint oalpha otheralphabetic odi",
  "otherdefaultignorablecodepoint ogrext othergraphemeextend oidc otheridcontinue oids",
  "otheridstart olower otherlowercase omath othermath oupper otheruppercase patsyn patternsyntax",
  "patws patternwhitespace pcm prependedconcatenationmark qmark quotationmark radical ri",
  "regionalindicator sd softdotted sterm sentenceterminal term terminalpunctuation uideo",
  "unifiedideograph upper uppercase vs variationselector wspace whitespace space xidc xidcontinue",
  "xids xidstart"]

/-- Properties with other values, none of which can be asked for. -/
def otherNames : List String := wordsOf [
  "age bc bidiclass bidim bidimirrored blk block bmg bidimirroringglyph bpb bidipairedbracket bpt",
  "bidipairedbrackettype ccc canonicalcombiningclass ce compositionexclusion cf casefolding",
  "compex fullcompositionexclusion cwkcf changeswhennfkccasefolded dm decompositionmapping dt",
  "decompositiontype ea eastasianwidth equideo equivalentunifiedideograph fcnfkc fcnfkcclosure",
  "hst hangulsyllabletype incb indicconjunctbreak inpc indicpositionalcategory insc",
  "indicsyllabiccategory isc ocomment jg joininggroup jt joiningtype jsn jamoshortname lb",
  "linebreak lc lowercasemapping na name na1 unicode1name namealias nfcqc nfcquickcheck nfdqc",
  "nfdquickcheck nfkccf nfkccasefold nfkcqc nfkcquickcheck nfkcscf nfkcsimplecasefold nfkdqc",
  "nfkdquickcheck nt numerictype nv numericvalue scf simplecasefolding sfc slc",
  "simplelowercasemapping stc simpletitlecasemapping suc simpleuppercasemapping tc",
  "titlecasemapping uc uppercasemapping urs unicoderadicalstroke cjkrsunicode krsunicode vo",
  "verticalorientation xonfc expandsonnfc xonfd expandsonnfd xonfkc expandsonnfkc xonfkd",
  "expandsonnfkd cjkaccountingnumeric kaccountingnumeric cjkcompatibilityvariant",
  "kcompatibilityvariant cjkiicore kiicore cjkirggsource kirggsource cjkirghsource kirghsource",
  "cjkirgjsource kirgjsource cjkirgkpsource kirgkpsource cjkirgksource kirgksource cjkirgmsource",
  "kirgmsource cjkirgssource kirgssource cjkirgtsource kirgtsource cjkirguksource kirguksource",
  "cjkirgusource kirgusource cjkirgvsource kirgvsource cjkothernumeric kothernumeric",
  "cjkprimarynumeric kprimarynumeric"]

/-- Scripts. -/
def scriptNames : List String := wordsOf [
  "adlm adlam aghb caucasianalbanian ahom arab arabic armi imperialaramaic armn armenian avst",
  "avestan bali balinese bamu bamum bass bassavah batk batak beng bengali bhks bhaiksuki bopo",
  "bopomofo brah brahmi brai braille bugi buginese buhd buhid cakm chakma cans canadianaboriginal",
  "cari carian cham cher cherokee chrs chorasmian copt coptic qaac cpmn cyprominoan cprt cypriot",
  "cyrl cyrillic deva devanagari diak divesakuru dogr dogra dsrt deseret dupl duployan egyp",
  "egyptianhieroglyphs elba elbasan elym elymaic ethi ethiopic geor georgian glag glagolitic gong",
  "gunjalagondi gonm masaramgondi goth gothic gran grantha grek greek gujr gujarati guru gurmukhi",
  "hang hangul hani han hano hanunoo hatr hatran hebr hebrew hira hiragana hluw",
  "anatolianhieroglyphs hmng pahawhhmong hmnp nyiakengpuachuehmong hung oldhungarian ital",
  "olditalic java javanese kali kayahli kana katakana kawi khar kharoshthi khmr khmer khoj khojki",
  "kits khitansmallscript knda kannada kthi kaithi lana taitham laoo lao latn latin lepc lepcha",
  "limb limbu lina lineara linb linearb lisu lyci lycian lydi lydian mahj mahajani maka makasar",
  "mand mandaic mani manichaean marc marchen medf medefaidrin mend mendekikakui merc",
  "meroiticcursive mero meroitichieroglyphs mlym malayalam modi mong mongolian mroo mro mtei",
  "meeteimayek mult multani mymr myanmar nagm nagmundari nand nandinagari narb oldnortharabian",
  "nbat nabataean newa nkoo nko nshu nushu ogam ogham olck olchiki orkh oldturkic orya oriya osge",
  "osage osma osmanya ougr olduyghur palm palmyrene pauc paucinhau perm oldpermic phag phagspa",
  "phli inscriptionalpahlavi phlp psalterpahlavi phnx phoenician plrd miao prti",
  "inscriptionalparthian rjng rejang rohg hanifirohingya runr runic samr samaritan sarb",
  "oldsoutharabian saur saurashtra sgnw signwriting shaw shavian shrd sharada sidd siddham sind",
  "khudawadi sinh sinhala sogd sogdian sogo oldsogdian sora sorasompeng soyo soyombo sund",
  "sundanese sylo sylotinagri syrc syriac tagb tagbanwa takr takri tale taile talu newtailue taml",
  "tamil tang tangut tavt taiviet telu telugu tfng tifinagh tglg tagalog thaa thaana thai tibt",
  "tibetan tirh tirhuta tnsa tangsa toto ugar ugaritic vaii vai vith vithkuqi wara warangciti",
  "wcho wancho xpeo oldpersian xsux cuneiform yezi yezidi yiii yi zanb zanabazarsquare zinh",
  "inherited qaai zyyy common gara garay gukh gurungkhema krai kiratrai onao olonal sunu sunuwar",
  "todr todhri tutg tulutigalari"]

/-- Versions of Unicode, as values of the property `Age`. -/
def ageNames : List String := wordsOf [
  "1.1 v11 10.0 v100 11.0 v110 12.0 v120 12.1 v121 13.0 v130 14.0 v140 15.0 v150 2.0 v20 2.1 v21",
  "3.0 v30 3.1 v31 3.2 v32 4.0 v40 4.1 v41 5.0 v50 5.1 v51 5.2 v52 6.0 v60 6.1 v61 6.2 v62 6.3",
  "v63 7.0 v70 8.0 v80 9.0 v90 15.1 v151 16.0 v160"]

/-- Values of the property `Grapheme_Cluster_Break`. -/
def graphemeBreakNames : List String := wordsOf [
  "cn control cr ex extend l lf lv lvt pp prepend ri regionalindicator sm spacingmark t v zwj"]

/-- Values of the property `Word_Break`. -/
def wordBreakNames : List String := wordsOf [
  "cr dq doublequote ex extendnumlet extend fo format hl hebrewletter ka katakana le aletter lf",
  "mb midnumlet ml midletter mn midnum nl newline nu numeric ri regionalindicator sq singlequote",
  "wsegspace zwj"]

/-- Values of the property `Sentence_Break`. -/
def sentenceBreakNames : List String := wordsOf [
  "at aterm cl close cr ex extend fo format le oletter lf lo lower nu numeric sc scontinue se sep",
  "sp st sterm up upper"]

/-- General categories and their groups. -/
def categoryNames : List (List String × List Category) :=
  [(["c", "other"], [.cc, .cf, .cn, .co]), (["cc", "control", "cntrl"], [.cc]),
    (["cf", "format"], [.cf]), (["cn", "unassigned"], [.cn]), (["co", "privateuse"], [.co]),
    (["l", "letter"], Category.letters), (["lc", "casedletter"], [.lu, .ll, .lt]),
    (["ll", "lowercaseletter"], [.ll]), (["lm", "modifierletter"], [.lm]),
    (["lo", "otherletter"], [.lo]), (["lt", "titlecaseletter"], [.lt]),
    (["lu", "uppercaseletter"], [.lu]), (["m", "mark", "combiningmark"], Category.marks),
    (["mc", "spacingmark"], [.mc]), (["me", "enclosingmark"], [.me]),
    (["mn", "nonspacingmark"], [.mn]), (["n", "number"], Category.numbers),
    (["nd", "decimalnumber", "digit"], [.nd]), (["nl", "letternumber"], [.nl]),
    (["no", "othernumber"], [.no]),
    (["p", "punctuation", "punct"], [.pc, .pd, .ps, .pe, .pi, .pf, .po]),
    (["pc", "connectorpunctuation"], [.pc]), (["pd", "dashpunctuation"], [.pd]),
    (["pe", "closepunctuation"], [.pe]), (["pf", "finalpunctuation"], [.pf]),
    (["pi", "initialpunctuation"], [.pi]), (["po", "otherpunctuation"], [.po]),
    (["ps", "openpunctuation"], [.ps]), (["s", "symbol"], [.sm, .sc, .sk, .so]),
    (["sc", "currencysymbol"], [.sc]), (["sk", "modifiersymbol"], [.sk]),
    (["sm", "mathsymbol"], [.sm]), (["so", "othersymbol"], [.so]),
    (["z", "separator"], [.zs, .zl, .zp]), (["zl", "lineseparator"], [.zl]),
    (["zp", "paragraphseparator"], [.zp]), (["zs", "spaceseparator"], [.zs])]

/-! ## Characters -/

/-- Every character. -/
def anyRanges : Ranges := [(0, Ranges.last)]

/-- White space. -/
def spaceRanges : Ranges :=
  [(0x09, 0x0D), (0x20, 0x20), (0x85, 0x85), (0xA0, 0xA0), (0x1680, 0x1680), (0x2000, 0x200A),
    (0x2028, 0x2029), (0x202F, 0x202F), (0x205F, 0x205F), (0x3000, 0x3000)]

/-- Decimal digits. -/
def digitRanges : Ranges := Category.ranges [.nd]

/-- Letters, marks, decimal digits, connectors and joiners, of which words are made. -/
def wordRanges : Ranges :=
  Ranges.union (Ranges.union Text.alphabetic (Category.ranges (Category.marks ++ [.nd, .pc])))
    [(0x200C, 0x200D)]

/-- What a property counts as whose characters are not kept. -/
def unknownRanges : Ranges := [(0x100, 0x100)]

/-- The characters of a property that holds or not. -/
def booleanRanges (name : String) : Ranges :=
  if name ∈ ["alpha", "alphabetic"] then Text.alphabetic
  else if name ∈ ["wspace", "whitespace", "space"] then spaceRanges
  else if name ∈ ["ids", "idstart", "xids", "xidstart"] then Text.identifierStart
  else if name ∈ ["idc", "idcontinue", "xidc", "xidcontinue"] then Text.identifierContinue
  else unknownRanges

/-- The characters of a general category. Surrogates are none, so their category has
a name and no characters. -/
def categoryRanges? (name : String) : Option (Except Refusal Ranges) :=
  if name = "any" then some (.ok anyRanges)
  else if name = "ascii" then some (.ok [(0, 0x7F)])
  else if name = "assigned" then some (.ok (Ranges.complement (Category.ranges [.cn])))
  else if name ∈ ["cs", "surrogate"] then some (.error .propertyValueNotFound)
  else (categoryNames.find? fun e => name ∈ e.1).map fun e => .ok (Category.ranges e.2)

/-- The names that ask for a category although a property has the same abbreviation. -/
def categoryFirst : List String := ["cf", "sc", "lc"]

/-- The properties of which values can be asked for. -/
def valueNames : List (List String × List String) :=
  [(["sc", "script", "scx", "scriptextensions"], scriptNames), (["age"], ageNames),
    (["gcb", "graphemeclusterbreak"], graphemeBreakNames), (["wb", "wordbreak"], wordBreakNames),
    (["sb", "sentencebreak"], sentenceBreakNames)]

/-- The names of the general category as a property. -/
def categoryProperty : List String := ["gc", "generalcategory", "category"]

/-- Whether a name belongs to some property. -/
def isProperty (name : String) : Bool :=
  name ∈ booleanNames || name ∈ otherNames || name ∈ categoryProperty
    || valueNames.any fun e => name ∈ e.1

/-- The characters that a property escape asks for. -/
def PropertyName.ranges : PropertyName → Except Refusal Ranges
  | .single s =>
    let name := normalizedName s
    if isProperty name && !(name ∈ categoryFirst) then
      if name ∈ booleanNames then .ok (booleanRanges name) else .error .propertyNotFound
    else match categoryRanges? name with
    | some result => result
    | none => if name ∈ scriptNames then .ok unknownRanges else .error .propertyNotFound
  | .withValue s v =>
    let name := normalizedName s
    let value := normalizedName v
    if name ∈ categoryProperty then (categoryRanges? value).getD (.error .propertyValueNotFound)
    else match valueNames.find? fun e => name ∈ e.1 with
    | some (_, values) =>
      if value ∈ values then .ok unknownRanges else .error .propertyValueNotFound
    | none => .error (if isProperty name then .propertyValueNotFound else .propertyNotFound)

end PatternAudit.Re2
