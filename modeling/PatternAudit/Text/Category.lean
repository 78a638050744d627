/-
What kind of character a code point is: the general categories of Unicode, and
the classes of letters that are defined through them.

The categories are kept as one table of runs. A run is the sign of its category
(the capitals and four signs, in the order of `Category.all`) and its length less
one in base 36, which is left out for a run of one. The runs cover every code
point in order, so a table of some 4000 runs takes the place of thirty tables of
ranges.
-/
import PatternAudit.Text.Lower
import PatternAudit.Text.Ranges

set_option autoImplicit false

namespace PatternAudit.Text

/-! ## General categories -/

/-- A general category, under its short name. -/
inductive Category where
  | lu | ll | lt | lm | lo
  | mn | mc | me
  | nd | nl | no
  | pc | pd | ps | pe | pi | pf | po
  | sm | sc | sk | so
  | zs | zl | zp
  | cc | cf | cs | co | cn
  deriving DecidableEq, Inhabited

namespace Category

/-- The categories, in the order of their signs. -/
def all : List Category :=
  [lu, ll, lt, lm, lo, mn, mc, me, nd, nl, no, pc, pd, ps, pe, pi, pf, po, sm, sc, sk, so,
    zs, zl, zp, cc, cf, cs, co, cn]

/-- The signs, in the order of the categories. -/
def signs : List Char := "ABCDEFGHIJKLMNOPQRSTUVWXYZ+-*/".toList

/-- The category of a sign. -/
def ofSign? (c : Char) : Option Category := (signs.zip all).lookup c

/-- The runs of the code points from 0 on. -/
def table : List String := [
  "ZvWR2TR2NORSRMR1I9R1S2R1ApNROULUBpNSOSZwWRT3VRUVEPS+VUVSK1UBR1UKEQK2RAmSA6BnSB7ABABABABABABABA",
  "BABABABABABABABABABABABABABABABABABABABAB1ABABABABABABABAB1ABABABABABABABABABABABABABABABABABA",
  "BABABABABABA1BABAB2A1BABA1BA2B1A3BA1BA2B2A1BA1BABABA1BAB1ABA1BA2BABA1B1EAB2E3ACBACBACBABABABAB",
  "ABABABAB1ABABABABABABABABAB1ACBABA2BABABABABABABABABABABABABABABABABABABABABABABABABABABABABA",
  "B6A1BA1B1ABA3BABABABAB1wE1BpDhU3DbUdD4U6DUDUgF33ABABDUAB/1DB2RA/3U1ARA2/A/A1BAg/A8ByAB1A2B2ABA",
  "BABABABABABABABABABAB4ABSABA1B1A1eB1bABABABABABABABABABABABABABABABABABVF4H1ABABABABABABABABAB",
  "ABABABABABABABABABABABABABABABABABABA1BABABABABABAB1ABABABABABABABABABABABABABABABABABABABABAB",
  "ABABABABABABABABABABABABABABABABABABABABABABABABABABAB/A11/1DR5B14RM/1V1T/F18MFRF1RF1RF/7Eq/3",
  "E3R1/a+5S2R1TR1V1FaR+R2EvDE9FkI9R3E1FE2qREF6+VF5D1F1VF3E1I9E2V1ERd/+EFEtFq/1E2gFaE/dI9EwF8D1V",
  "R2D/1FT1ElF3DF8DF2DF4/1Re/EoF2/1R/Ea/4EnUE6+1/4F8E14DFn+FvGE1hFGFEG2F7G3FG1EF6E9F1R1I9RDEeFG1/",
  "E7/1E1/1El/E6/E/2E3/1FEG2F3/1G1/1G1FE/7G/3E1/E2F1/1I9E1T1K5VTERF/1F1G/E5/3E1/1El/E6/E1/E1/E1/1",
  "F/G2F1/3F1/1F2/2F/6E3/E/6I9F1E2FR/9F1G/E8/E2/El/E6/E1/E4/1FEG2F4/F1G/G1F/1E/eE1F1/1I9RT/6EF5/F",
  "G1/E7/1E1/1El/E6/E1/E4/1FEGFGF3/1G1/1G1F/6F1G/3E1/E2F1/1I9VEK5/9FE/E5/2E2/E3/2E1/E/E1/2E1/2E2",
  "/2Eb/3G1FG1/2G2/G2F/1E/5G/dI9K2V5TV/4FG2FE7/E2/Em/Ef/1FEF2G3/F2/F3/6F1/E2/E1/1E1F1/1I9/6RK6VEF",
  "G1RE7/E2/Em/E9/E4/1FEGFG4/FG1/G1F1/6G1/4E2/E1F1/1I9/E1G/bF1G1E8/E2/E14F1EG2F3/G2/G2FEV/3E2GK6",
  "E2F1/1I9K8VE5/FG1/Eh/2En/E8/E/1E6/2F/3G2F2/F/G7/5I9/1G1R/bE1bFE1F6/3TE5DF7RI9R1/10E1/E/E4/En/E",
  "/E9FE1F8E/1E4/D/F6/I9/1E3/vEV2ReVRV2F1V5I9K9VFVFVFNONOG1E7/Ez/3FdGF4RF1E4Fa/Fz/V7FV5/V1R4V3R1",
  "/10E16G1F3GF5GF1G1F1EI9R5E5G1F1E3F2EG2E1G6E2F3EcFG1F1G5FEGI9G2FV1A11/A/4A/1B16RDB2E94/E3/1E6/E",
  "/E3/1E14/E3/1Ew/E3/1E6/E/E3/1Ee/E1k/E3/1E1u/1F2R8Kj/2EfV9/5A2d/1B5/1MEh7VREgWEpNO/2E22R2J2E7/6",
  "EhF2G/8EiF1GR1/8EhF1/bEc/E2/F1/bE1fF1GF6G7FG1FaR2DR2TEF/1I9/5K9/5R5MR3F2+FI9/5EyDE1g/6E4F1ExFE",
  "/4E1x/9Eu/F2G3F1G2/3G1FG5F2/3V/2R1I9Et/1E4/aE17/3Ep/5I9K/2VxEmF1G1F/1R1E1gGFGF6/FGFG1F7G5F9/1F",
  "I9/5I9/5R6DR5/1FdHFu/1Fb/jF3GE1aFGF4GFG4FG1E7/R1I9R6V9F8V8R2F1GEtGF3G1F1GF2E1I9E17FGF1G2FGF2G1",
  "/7R3EzG7F7G1F1/2R4I9/2E2I9EtD5R1B8AB/4A16/1A2R7/7F2RFcGF6E3FE5FE1GF1E/4B17D1qBcDBxD10F1rABABAB",
  "ABABABABABABABABABABABABABABABABABABABABABABABABABABABABABABABABABABABABABABABABABABABABABABAB",
  "ABABABABABABABABABABABABABABABABABABABABABABABABAB8ABABABABABABABABABABABABABABABABABABABABABA",
  "BABABABABABABABABABABABABABABABABABABABABABABABABABABAB8A7B5/1A5/1B7A7B7A7B5/1A5/1B7/A/A/A/AB7",
  "A7Bd/1B7C7B7C7B7C7B4/B1A3CUBU2B2/B1A3CU2B3/1B1A3/U2B7A4U2/1B2/B1A3CU1/Wa+4M5R1PQNP1QNPR7XY+4W",
  "R8PQR3L1R2SNORaSRLR9W+4/+9KD/1K5S2NODK9S2NO/Dc/2Tx/dFcH3FH2Fb/eV1AV3AV1BA2B1A2BVAV1SA4V5AVAVAV",
  "A3VBA3BE3BV1B1A1S4AB3VSV1BVKfJyABJ3KV1/3S4V4S1V3SV1SV1SV6SVuS1V1SVSVuS7fV7NONOVjS1V6NOV28SVtSo",
  "V13S5V1z/lVa/kK1nV25KlV52SV8SV1hS7V32SV6vNONONONONONONOKtV17S4NOSuNONONONONOSfV73S3mNONONONONO",
  "NONONONONONOS1qNONOSvNOS75V1bSkV1S5V12/1V3tA1bB1bABA2B1ABABABA3BAB1AB5D1A2BABABABABABABABABABA",
  "BABABABABABABABABABABABABABABABABABABABABABABABABABABABABABABABABABABABABABABAB1V5ABABF2AB/4R3",
  "KR1B11/B/4B/1E1j/6DR/dFEm/8E6/E6/E6/E6/E6/E6/E6/E6/FvR1PQPQR2PQRPQR8MR1MRPQR1PQNONONONOR4DR9M1",
  "R3MRNRcV1R2NONONONOM/xVp/V2g/bV5x/pVfWR2VDEJNONONONONOV1NONONONOMNO1VJ8F3G1MD4V1J2DERV1/E2d/1",
  "F1U1D1EME2hRD2E/4E16/E2l/V1K3V9EvV11/8VEfVu/K9VtK7VKeVvK9V12KeV8vE533V1rEg7oDEvq/2V1i/8E13D5R1",
  "E7fDR2EfI9E1/jABABABABABABABABABABABABABABABABABABABABABABABEFH2RF9RDABABABABABABABABABABABABA",
  "BABD1F1E1xJ9F1R5/7UmD8U1ABABABABABABAB2ABABABABABABABABABABABABABABABABABABABABABABABABABABABA",
  "BABABABDB7ABABA1BABABABABDU1ABABEABAB2ABABABABABABABABABABA4BA4BABABABABABABABA3BABA1BABABABAB",
  "ABABABA/jD3ABED1BE6FE2FE3FEmG1F1GV3F/2K5V1TV/5E1fR3/7G1E1dGfF1/7R1I9/5FhE5R2ERE1FI9ErF7R1EmFa",
  "G1/aREs/2F2GE1aFG1F3G1F1G2Rc/DI9/3R1E4FDE8I9E4/E14F5G1F1G1F1/8E2FE7FG/1I9/1R3EfDE5V2EGFGE1dFE",
  "F2E1F1E4F1EFE/nE1DR1EaGF1G1R1ED1GF/9E5/1E5/1E5/8E6/E6/B16UD3B8DU1/3B27EyG1FG1FG1RGF/1I9/5E8mb",
  "/bEm/3E1c/3-1kv*4xrEa5/1E2x/11B6/bB4/4EFE9SEc/E4/E/E1/E1/E2zUgVfEa2ONVfE1rV1E1hV7/vEbTV2FfR6NO",
  "R/5FfRM1L1NONONONONONONONOR1NOR3L2R2/R3MNONONOR2SMS2/RTR1/3E4/E3q/1+/R2TR2NORSRMR1I9R1S2R1ApNR",
  "OULUBpNSOSNORNOR1E9DE18D1Eu/2E5/1E5/1E5/1E2/2T1SUVT1/VS3V1/9+2V1/1Eb/Ep/Ei/E1/Ee/1Ed/xE3e/4R2",
  "/3K18/2V8J1gK3VgK1V2/Vc/2V/1aV18F/3lEs/2E1c/eFKq/3EvK3/8EjJE7J/4E11F4/4Et/REz/3E7RJ4/15A13B13",
  "E25/1I9/5Az/3Bz/3E13/7E1f/aRAa/Ae/A6/A1/Ba/Be/B6/B1/2E1f/bE8m/8El/9E7/nD5/D15/D8/1wE5/1E/E17/",
  "E1/2E/1Em/RK7EmV1K6Eu/7K8/1bEi/E1/4K4ElK5/2REp/4REp/11E1j/3K1E1Kf/1K19EF2/F1/4F3E3/E2/Es/1F2/3",
  "FK8/6R8/6EsK1REsK2/vE7VErF1/3K4R6/8E1h/2R6El/1K7Ei/4K7Eh/6R3/bK6/27E20/1iA1e/cB1e/6K5EzF3/7I9",
  "/5I9E3DEAl/2F4MDBl/7S1/5rKu/E15/F1M/1E1/fE2DE1/7RV7/wF5EsK9E/7ElFaK3R4/lEhF3R3/11EkK6/jEm/8GFG",
  "E1gFeR6/3KjI9FE1F1E/8F2GE18G2F3G1F1R1+R3F/9+/1Eo/6I9/5F2EzF4GF7/I9R3EG1E/7EyFR1E/8F1GE1bG2F8G1",
  "E3R3F3RGFI9ERER2/Kj/aEh/EoG2F2G1FGF1R5FE1F/1pE6/E/E3/Ee/E9R/5E1aFG2F7/4I9/5F1G1/E7/1E1/1El/E6/",
  "E1/E4/F1EG1FG3/1G1/1G2/1E/5G/4E4G1/1F6/2F4/aE9/E/1E/E11/EG2F5/G/1G/G3/G1FGFEFER1/R1/7F1/sE1gG2",
  "F7G1F2GFE3R4I9R1/RFE2/tE1bG2F5GFG3F1GF1E1RE/7I9/4lE1aG2F3/1G3F1GF1RmE3F1/xE1bG2F7G1FGF1R2E/aI9",
  "/5Rc/iE16FGFG1F5GFER/5I9/5Ij/rEq/1FGFG1F3GF4/3I9K1R2VE6/54E17G2F8GF1R/2rAvBvI9K8/bE7/1E/1E7/E1",
  "/EnG5/G1/1F1GFEGEGFR2/8I9/1xE7/1E12G2F3/1F1G3FEREG/qEF9E13F5GEF3R7F/7EF5G1F2E19FcGF1R2ER4/cE20",
  "/6R9/2dFGF2GFG/2fEwR/dI9/5E8/E10GF6/F5GFER4/9I9Ki/2R1Et/1Fl/GF6GF1GF1/20E6/E1/E11F5/2F/F1/F6EF",
  "/7I9/5E5/E1/EvG4/F1/G1FGFE/6I9/5E14DE1/3I9/6tEiF1G1R1/6F1EGEc/ExG1F4/2G1FGFRcI9F/2cE/eKkV7T3Vg",
  "/cREpl/2tJ32/R4/aE5f/217E2oR1/cEtr+fFE5Fe/9E32y/4Eg6/5a0EtFbG2F2I9/1c5Efs/6Eu/I9/3R1E26/I9/5Et",
  "/1F4R/9E1bF6R4V3D3RV/9I9/K6/Ek/4Ei/bzD2E13D1R2I9/5hAvBvKmR3/4Ao/1Bo/17E22/3FEG1i/6F3Dc/1rD1RDF",
  "/aG1D1J2/8E5p1/14Ev/2oE36/6poD3/D6/D1/E82/eE/sE2/1E/dE3/7Eaz/1s3E2y/4Ec/2E8/6E9/1VF1R+3/317V6n",
  "I9V2/2Vc3/5Vm/eVfS/eF19/1Fm/8V37/1nV6t/9V12/1V1nG1F2V2G5+7F7V1F6VtF3V1o/kV1tF2V/3dKj/bKj/bV2e",
  "/8Ko/3qApBpApB6/BhApBpA/A1/1A/1A1/1A3/A7B3/B/B6/BaApBpA1/A3/1A7/A6/BpA1/A3/A4/A/2A6/BpApBpApBp",
  "ApBpApBpApBpApBr/1AoSBoSB5AoSBoSB5AoSBoSB5AoSBoSB5AoSBoSB5AB/1I1dVe7F1iV3F1dV7FVdFV1R4/eF4/Fe",
  "/unB9EBj/5B5/5wF6/Fg/1F6/F1/F4/4D1p/wF/33E18/2F6D6/1I9/3EV/8vEtF/gE17F3I9/4T/cvEqDF3I9/5xEtF1E",
  "I9/3R/5bEu/E2FE1FE6F1E4F/7ED/67E6/E3/E1/Ee/E5g/1K8F6/14AxBxF6D/3I9/3R1/lsK1mVK2TK3/23K18VKe/5d",
  "E3/Eq/E1/E/1E/E9/E3/E/E/5E/3E/E/E/E2/E1/E/1E/E/E/E/E/E1/E/1E3/E6/E3/E3/E/E9/Eg/4E2/E4/Eg/1fS1",
  "/7hV17/3V2r/bVe/1Ve/Ve/V10/9KcV4g/1jVs/cV17/3V8/6V1/dV5/49V6yU4Vk8/2Vg/2Vc/2V61/5Vb/3V/eVb/3",
  "V1j/7V9/5V13/7Vt/1Vb/3V1/dS8/12V9j/7Vd/1Vc/2Va/2V1k/V/3Vf/1Vb/3V9/6V42/V2jI9V/skEwyn/vE3dp/1",
  "E4gd/1E5rk/eEh9/1whEf1/15tE3t6/4E6jt/f5vq+/t+2n/3jF6n/1e6n*1ekd/1*1ekd/1"]

/-- The runs of a table from the code point `start` on. The run that is being read
is held by its category and the length that its digits have given so far. -/
def runsFrom (start : Nat) : Option (Category × Nat) → List Char → List (Category × Nat × Nat)
  | none, [] => []
  | some (k, n), [] => [(k, start, start + n)]
  | open?, c :: rest =>
    match ofSign? c, open? with
    | some k, none => runsFrom start (some (k, 0)) rest
    | some k, some (k0, n) => (k0, start, start + n) :: runsFrom (start + n + 1) (some (k, 0)) rest
    | none, some (k, n) => runsFrom start (some (k, n * 36 + Ranges.digitValue c)) rest
    | none, none => runsFrom start none rest

/-- Every run of the table: its category, its first and its last code point. -/
def runs : List (Category × Nat × Nat) := runsFrom 0 none (table.flatMap String.toList)

/-- The code points of some categories; runs that touch are one range. -/
def ranges (kinds : List Category) : Ranges :=
  Ranges.joined ((runs.filter fun r => r.1 ∈ kinds).map fun r => (r.2.1, r.2.2))

/-- The letters. -/
def letters : List Category := [lu, ll, lt, lm, lo]

/-- The marks. -/
def marks : List Category := [mn, mc, me]

/-- The numbers. -/
def numbers : List Category := [nd, nl, no]

end Category

/-! ## Letters and the signs in names -/

/-- The marks that are letters by the Unicode property `Alphabetic`. -/
def letterMarks : Ranges := Ranges.ofDeltas [
  "n9 0 u c g1 d 2 0 2 1 2 1 2 0 21 a 1d c 2 6 h 0 2u 6 5 3 3 1 5 0 10 0 v f 2v a 2u 1 4 8 2 2",
  "2 3 2z 0 1p b 4 6 7 j 1j 1 3 e 2 1 6 2 b 1 u 2 1n 6 3 1 3 1 b 0 b 1 u 2 1n 4 5 1 3 1 5 0 v 1",
  "4 0 c 2 1n 7 2 2 2 1 m 1 n 2 5 2 1n 6 3 1 3 1 a 1 b 1 v 0 1o 4 4 2 2 2 b 0 15 4 1m 6 2 2 2 2",
  "9 1 c 1 u 2 1n 6 2 2 2 2 9 1 c 1 g 0 d 3 1n 6 2 2 2 2 b 0 b 1 u 2 24 5 2 0 2 7 j 1 1q 0 3 6",
  "j 0 2s 0 3 5 2 1 h 0 4k i a a 2 z 33 b 2 0 3 3 o 3 5 2 2 2 3 6 4 3 e b 2 0 b 3 19x 1 v 1 v 1",
  "v 1 1v i 59 1 z 0 3b b 5 8 67 4 1m 9 3 j 23 1 c 2 1e 4 1d e 1p 2 v 8 3 1 1m a 1f i bh x 358",
  "v nsl 7 z 1 9v 0 9 0 o 4 2h 1 1f f 2 0 1m 0 13 4 t b 1a 3 1d b 12 0 1w d d 0 9 1 1a 2 1f 0 2",
  "2 3 1 6 0 19 4 6 0 6m 7 fn8 0 1nc 4 1af 2 2 1 6 3 lx 3 1u 0 8y 1 26 2 78 2 1i d 1a 1 c 2 1a",
  "8 a 0 1q 2 11 b j 1 1m 2 1d c f 1 2l 8 3 0 7 0 3 0 4e 9 o 3 1n 6 3 1 3 1 b 0 b 1 2d 8 2 0 3",
  "0 2 3 2 1 2w c 2 2 2z h 6m 6 3 6 u 1 2b e 2 0 2z a 2w d 76 c 6w 5 2 1 3 1 4 0 2 0 3z 6 3 5 5",
  "0 t 9 17 4 2 3 j a 1b d 5l 7 5k 7 2 6 2c l 2 d 3f 5 4 0 2 1 2 2 2 0 4 0 1v 4 2 1 2 3 9p 3 a",
  "1 2 0 1d 6 4 2 d0e g 2sh 0 2 1i 8 3 2m 1 f59 0 6zm 6 2 g 3 6 2 1 2 4 2t 0 190 0 3 0 8 1 6 0",
  "gi 0"]

/-- The Unicode property `Alphabetic`: letters, letter numbers, the marks that spell,
and the circled and squared letters. -/
def alphabetic : Ranges :=
  Ranges.union (Category.ranges (Category.nl :: Category.letters))
    (Ranges.union letterMarks
      [(0x24B6, 0x24E9), (0x1F130, 0x1F149), (0x1F150, 0x1F169), (0x1F170, 0x1F189)])

/-- Letters, and numbers of every kind. -/
def alphanumeric : Ranges := Ranges.union alphabetic (Category.ranges Category.numbers)

/-- The Unicode property `ID_Start`: what an identifier may begin with. -/
def identifierStart : Ranges :=
  Ranges.difference
    (Ranges.union (Category.ranges (Category.nl :: Category.letters))
      [(0x1885, 0x1886), (0x2118, 0x2118), (0x212E, 0x212E), (0x309B, 0x309C)])
    [(0x2E2F, 0x2E2F)]

/-- The Unicode property `ID_Continue`: what an identifier may go on with. -/
def identifierContinue : Ranges :=
  Ranges.union identifierStart
    (Ranges.union (Category.ranges [.mn, .mc, .nd, .pc])
      [(0xB7, 0xB7), (0x387, 0x387), (0x1369, 0x1371), (0x19DA, 0x19DA), (0x200C, 0x200D),
        (0x30FB, 0x30FB), (0xFF65, 0xFF65)])

/-- Whether a character is a letter. -/
def isAlphabetic (c : Char) : Bool :=
  isLetterAscii c || (0x7F < c.toNat && alphabetic.contains c.toNat)

/-- Whether a character is a letter or a number. -/
def isAlphanumeric (c : Char) : Bool :=
  isLetterAscii c || isDigit c || (0x7F < c.toNat && alphanumeric.contains c.toNat)

end PatternAudit.Text
