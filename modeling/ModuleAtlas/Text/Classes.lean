/-!
# Classes of characters

Digits and word characters, capital and small letters, and the characters that show when they are
printed: each class as a table of runs of code points.
-/

namespace ModuleAtlas.Text

/-!
## Digits and word characters

The decimal digits and the word characters of Unicode 14: letters, numbers and the low line. A table
lists its runs in increasing order, each by how far its first code point is from the last one of the
run before it, and its last code point from its first.
-/

/-- The first and the last code points of the runs that come after a place. -/
def runsFrom : Nat → List Nat → List (Nat × Nat)
  | place, gap :: more :: rest =>
    (place + gap, place + gap + more) :: runsFrom (place + gap + more) rest
  | _, _ => []

/-- Runs of decimal digits of all scripts. -/
def digitRuns : List (Nat × Nat) := runsFrom 0 [
  48, 9, 1575, 9, 135, 9, 199, 9, 413, 9, 119, 9, 119, 9, 119, 9, 119, 9, 119, 9, 119, 9, 119, 9,
  119, 9, 119, 9, 97, 9, 119, 9, 71, 9, 279, 9, 71, 9, 1863, 9, 39, 9, 301, 9, 129, 9, 167, 9, 7,
  9, 183, 9, 87, 9, 135, 9, 7, 9, 35271, 9, 679, 9, 39, 9, 199, 9, 23, 9, 87, 9, 407, 9, 21271, 9,
  1415, 9, 2183, 9, 813, 9, 129, 9, 61, 9, 145, 9, 279, 9, 343, 9, 119, 9, 375, 9, 103, 9, 103, 9,
  423, 9, 103, 9, 759, 9, 247, 9, 71, 9, 19639, 9, 87, 9, 135, 9, 27765, 49, 2369, 9, 423, 9, 1623,
  9, 4759, 9]

/-- Runs of letters, numbers and the low line beyond the Latin block of seven bits. -/
def wordRuns : List (Nat × Nat) := runsFrom 0 [
  170, 0, 8, 1, 2, 0, 4, 1, 2, 2, 2, 22, 2, 30, 2, 457, 5, 11, 15, 4, 8, 0, 2, 0, 130, 4, 2, 1, 3,
  3, 2, 0, 7, 0, 2, 2, 2, 0, 2, 19, 2, 82, 2, 138, 9, 165, 2, 37, 3, 0, 7, 40, 72, 26, 5, 3, 46,
  42, 22, 9, 5, 1, 2, 98, 2, 0, 16, 1, 8, 14, 3, 0, 17, 0, 2, 29, 30, 88, 12, 0, 15, 42, 10, 1, 5,
  0, 6, 21, 5, 0, 10, 0, 4, 0, 24, 24, 8, 10, 6, 23, 2, 5, 18, 41, 59, 53, 4, 0, 19, 0, 8, 9, 5, 9,
  2, 15, 5, 7, 3, 1, 3, 21, 2, 6, 2, 0, 4, 3, 4, 0, 17, 0, 14, 1, 2, 2, 5, 11, 3, 5, 3, 0, 9, 5, 5,
  1, 3, 21, 2, 6, 2, 1, 2, 1, 2, 1, 32, 3, 2, 0, 8, 9, 3, 2, 17, 8, 2, 2, 2, 21, 2, 6, 2, 1, 2, 4,
  4, 0, 19, 0, 16, 1, 5, 9, 10, 0, 12, 7, 3, 1, 3, 21, 2, 6, 2, 1, 2, 4, 4, 0, 31, 1, 2, 2, 5, 9,
  2, 6, 12, 0, 2, 5, 4, 2, 2, 3, 4, 1, 2, 0, 2, 1, 4, 1, 4, 2, 4, 11, 23, 0, 22, 12, 19, 7, 2, 2,
  2, 22, 2, 15, 4, 0, 27, 2, 3, 0, 3, 1, 5, 9, 9, 6, 2, 0, 5, 7, 2, 2, 2, 22, 2, 9, 2, 4, 4, 0, 32,
  1, 2, 1, 5, 9, 2, 1, 18, 8, 2, 2, 2, 40, 3, 0, 17, 0, 6, 2, 2, 9, 5, 18, 2, 5, 6, 17, 4, 23, 2,
  8, 2, 0, 3, 6, 32, 9, 18, 47, 2, 1, 13, 6, 10, 9, 40, 1, 2, 0, 2, 4, 2, 23, 2, 0, 2, 9, 2, 1, 10,
  0, 3, 4, 2, 0, 10, 9, 3, 3, 33, 0, 32, 19, 13, 7, 2, 35, 28, 4, 116, 42, 21, 10, 7, 5, 5, 3, 4,
  0, 4, 1, 8, 2, 5, 12, 13, 0, 2, 9, 7, 37, 2, 0, 6, 0, 3, 42, 2, 332, 2, 3, 3, 6, 2, 0, 2, 3, 3,
  40, 2, 3, 3, 32, 2, 3, 3, 6, 2, 0, 2, 3, 3, 14, 2, 56, 2, 3, 3, 66, 15, 19, 4, 15, 17, 85, 3, 5,
  4, 619, 3, 16, 2, 25, 6, 74, 4, 10, 8, 17, 14, 18, 15, 17, 15, 12, 2, 2, 16, 51, 36, 0, 5, 0, 4,
  9, 7, 9, 23, 9, 7, 88, 8, 4, 3, 33, 2, 0, 6, 69, 11, 30, 40, 39, 3, 4, 12, 43, 5, 25, 7, 10, 38,
  22, 10, 52, 44, 9, 7, 9, 14, 0, 94, 46, 18, 7, 4, 9, 42, 29, 14, 55, 27, 35, 29, 9, 4, 48, 3, 8,
  8, 42, 3, 2, 42, 3, 2, 5, 2, 1, 4, 0, 6, 191, 65, 277, 3, 5, 3, 37, 3, 5, 3, 7, 2, 0, 2, 0, 2, 0,
  2, 30, 3, 52, 2, 6, 2, 0, 4, 2, 2, 6, 4, 3, 3, 5, 5, 12, 6, 2, 2, 6, 116, 1, 3, 5, 6, 10, 7, 12,
  102, 0, 5, 0, 3, 9, 2, 0, 4, 4, 7, 0, 2, 0, 2, 0, 2, 3, 2, 10, 3, 3, 6, 4, 5, 0, 2, 57, 727, 59,
  79, 21, 631, 29, 1133, 228, 7, 3, 4, 1, 10, 0, 3, 37, 2, 0, 6, 0, 3, 55, 8, 0, 17, 22, 10, 6, 2,
  6, 2, 6, 2, 6, 2, 6, 2, 6, 2, 6, 2, 6, 81, 0, 470, 2, 26, 8, 8, 4, 3, 4, 5, 85, 7, 2, 2, 89, 2,
  3, 6, 42, 2, 93, 4, 3, 11, 31, 49, 15, 33, 9, 31, 7, 2, 14, 33, 9, 40, 14, 321, 6591, 65, 22156,
  68, 45, 3, 268, 4, 27, 21, 46, 17, 30, 3, 79, 40, 8, 3, 102, 3, 63, 6, 1, 2, 0, 2, 4, 25, 15, 2,
  2, 2, 3, 2, 22, 14, 5, 11, 51, 15, 49, 29, 9, 25, 5, 4, 0, 2, 1, 2, 37, 11, 22, 26, 28, 8, 46,
  29, 10, 7, 4, 2, 24, 2, 40, 24, 2, 2, 7, 5, 9, 7, 22, 4, 0, 4, 49, 2, 0, 4, 1, 3, 4, 3, 0, 2, 0,
  25, 2, 3, 10, 8, 2, 13, 5, 3, 5, 3, 5, 10, 6, 2, 6, 2, 42, 2, 13, 7, 114, 14, 9, 7, 11171, 13,
  22, 5, 48, 8453, 365, 3, 105, 39, 6, 13, 4, 6, 0, 2, 9, 2, 12, 2, 4, 2, 0, 2, 1, 2, 1, 2, 107,
  34, 362, 19, 63, 3, 53, 41, 11, 117, 4, 2, 134, 20, 9, 8, 25, 7, 25, 12, 88, 4, 5, 3, 5, 3, 5, 3,
  2, 36, 11, 2, 25, 2, 18, 2, 1, 2, 14, 3, 13, 35, 122, 13, 44, 13, 56, 18, 1, 245, 28, 4, 48, 17,
  26, 5, 35, 10, 29, 6, 37, 11, 29, 3, 35, 5, 7, 2, 4, 43, 157, 3, 9, 7, 35, 5, 35, 5, 39, 9, 51,
  13, 10, 2, 14, 2, 6, 2, 1, 2, 10, 2, 14, 2, 6, 2, 1, 68, 310, 10, 21, 11, 7, 25, 5, 2, 41, 2, 8,
  70, 5, 3, 0, 2, 43, 2, 1, 4, 0, 3, 22, 3, 30, 3, 37, 9, 8, 49, 18, 2, 1, 6, 32, 5, 25, 71, 55, 5,
  19, 3, 46, 16, 3, 2, 2, 2, 28, 11, 8, 24, 30, 2, 31, 33, 7, 2, 27, 7, 4, 17, 53, 11, 21, 3, 26,
  6, 25, 24, 6, 81, 72, 56, 50, 14, 50, 8, 41, 13, 9, 295, 30, 2, 41, 7, 1, 79, 39, 9, 21, 12, 3,
  28, 17, 47, 27, 21, 22, 13, 52, 27, 29, 2, 1, 3, 0, 14, 44, 33, 24, 8, 9, 10, 35, 16, 9, 5, 0, 3,
  0, 9, 34, 4, 0, 13, 47, 15, 3, 12, 10, 2, 0, 5, 19, 12, 17, 2, 24, 85, 6, 2, 0, 2, 3, 2, 14, 2,
  9, 8, 46, 18, 9, 12, 7, 3, 1, 3, 21, 2, 6, 2, 1, 2, 4, 4, 0, 19, 0, 13, 4, 159, 52, 19, 3, 6, 9,
  6, 2, 31, 47, 21, 1, 2, 0, 9, 9, 167, 46, 42, 3, 37, 47, 21, 0, 12, 9, 39, 42, 14, 0, 8, 9, 55,
  26, 22, 11, 5, 6, 186, 43, 117, 82, 13, 7, 3, 0, 3, 7, 2, 1, 2, 23, 16, 0, 2, 0, 15, 9, 71, 7, 3,
  38, 17, 0, 2, 0, 29, 0, 11, 39, 8, 0, 22, 0, 12, 45, 20, 0, 19, 72, 264, 8, 2, 36, 18, 0, 16, 28,
  6, 29, 113, 6, 2, 1, 2, 37, 22, 0, 10, 9, 7, 5, 2, 1, 2, 31, 15, 0, 8, 9, 311, 18, 190, 0, 16,
  20, 44, 921, 103, 110, 18, 195, 2637, 96, 16, 1070, 4050, 582, 8634, 568, 8, 30, 2, 9, 7, 78, 2,
  9, 7, 29, 19, 47, 17, 3, 13, 9, 2, 6, 2, 20, 6, 18, 689, 86, 106, 74, 6, 0, 67, 12, 65, 1, 2, 0,
  29, 6135, 9, 1237, 43, 8, 8936, 3, 2, 6, 2, 1, 2, 290, 46, 2, 18, 3, 9, 395, 2309, 106, 6, 12, 4,
  8, 8, 9, 5703, 19, 109, 24, 136, 84, 2, 70, 2, 1, 3, 0, 3, 1, 3, 3, 2, 11, 2, 0, 2, 6, 2, 64, 2,
  3, 3, 7, 2, 6, 2, 27, 2, 3, 2, 4, 2, 0, 4, 6, 2, 339, 3, 24, 2, 24, 2, 30, 2, 24, 2, 30, 2, 24,
  2, 30, 2, 24, 2, 30, 2, 24, 2, 7, 3, 49, 1793, 30, 482, 44, 11, 6, 3, 9, 5, 0, 322, 29, 19, 43,
  5, 9, 1255, 6, 2, 3, 2, 1, 2, 14, 2, 196, 3, 8, 49, 67, 8, 0, 5, 9, 792, 58, 2, 2, 2, 3, 77, 44,
  2, 14, 195, 3, 2, 26, 2, 1, 2, 0, 3, 0, 2, 9, 2, 3, 2, 0, 2, 0, 7, 0, 5, 0, 2, 0, 2, 0, 2, 2, 2,
  1, 2, 0, 3, 0, 2, 0, 2, 0, 2, 0, 2, 0, 2, 1, 2, 0, 3, 3, 2, 6, 2, 3, 2, 3, 2, 0, 2, 9, 2, 16, 6,
  2, 2, 4, 2, 16, 581, 12, 2788, 9, 1031, 42719, 33, 4152, 8, 221, 3, 5761, 15, 7472, 3104, 541,
  1507, 4938]

/-- A decimal digit of any script. -/
def isDigit (c : Char) : Bool :=
  let n := c.toNat
  if n < 128 then c.isDigit else digitRuns.any fun run => run.1 ≤ n && n ≤ run.2

/-- The value of a decimal digit of any script. -/
def digitValue? (c : Char) : Option Nat :=
  (digitRuns.find? fun run => run.1 ≤ c.toNat && c.toNat ≤ run.2).map fun run =>
    (c.toNat - run.1) % 10

/-- A letter, a number or the low line. -/
def isWord (c : Char) : Bool :=
  let n := c.toNat
  if n < 128 then c.isAlphanum || c == '_' else wordRuns.any fun run => run.1 ≤ n && n ≤ run.2

/-!
## Capital and small letters

The capital letters of Unicode 14 and their small ones. The table lists the runs by their distances,
each with the step between two capital letters and the distance to the small ones.
-/

/-- Runs of capital letters that come after a place. -/
def capitalsFrom : Nat → List (Nat × Nat × Nat × Int) → List (Nat × Nat × Nat × Int)
  | place, (gap, more, step) :: rest =>
    (place + gap, place + gap + more, step) :: capitalsFrom (place + gap + more) rest
  | _, [] => []

/-- Runs of capital letters beyond the first 128 characters. -/
def capitalRuns : List (Nat × Nat × Nat × Int) := capitalsFrom 0 [
  (192, 22, 1, 32), (2, 6, 1, 32), (34, 46, 2, 1), (4, 4, 2, 1), (3, 14, 2, 1), (3, 44, 2, 1),
  (2, 0, 1, -121), (1, 4, 2, 1), (4, 0, 1, 210), (1, 2, 2, 1), (2, 0, 1, 206), (1, 0, 1, 1),
  (2, 1, 1, 205), (1, 0, 1, 1), (3, 0, 1, 79), (1, 0, 1, 202), (1, 0, 1, 203), (1, 0, 1, 1),
  (2, 0, 1, 205), (1, 0, 1, 207), (2, 0, 1, 211), (1, 0, 1, 209), (1, 0, 1, 1), (4, 0, 1, 211),
  (1, 0, 1, 213), (2, 0, 1, 214), (1, 4, 2, 1), (2, 0, 1, 218), (1, 0, 1, 1), (2, 0, 1, 218),
  (3, 0, 1, 1), (2, 0, 1, 218), (1, 0, 1, 1), (2, 1, 1, 217), (1, 2, 2, 1), (2, 0, 1, 219),
  (1, 0, 1, 1), (4, 0, 1, 1), (8, 0, 1, 2), (1, 0, 1, 1), (2, 0, 1, 2), (1, 0, 1, 1), (2, 0, 1, 2),
  (1, 16, 2, 1), (3, 16, 2, 1), (3, 0, 1, 2), (1, 2, 2, 1), (2, 0, 1, -97), (1, 0, 1, -56),
  (1, 38, 2, 1), (2, 0, 1, -130), (2, 16, 2, 1), (8, 0, 1, 10795), (1, 0, 1, 1), (2, 0, 1, -163),
  (1, 0, 1, 10792), (3, 0, 1, 1), (2, 0, 1, -195), (1, 0, 1, 69), (1, 0, 1, 71), (1, 8, 2, 1),
  (290, 2, 2, 1), (4, 0, 1, 1), (9, 0, 1, 116), (7, 0, 1, 38), (2, 2, 1, 37), (2, 0, 1, 64),
  (2, 1, 1, 63), (2, 16, 1, 32), (2, 8, 1, 32), (36, 0, 1, 8), (9, 22, 2, 1), (6, 0, 1, -60),
  (3, 0, 1, 1), (2, 0, 1, -7), (1, 0, 1, 1), (3, 2, 1, -130), (1, 15, 1, 80), (1, 31, 1, 32),
  (49, 32, 2, 1), (10, 52, 2, 1), (2, 0, 1, 15), (1, 12, 2, 1), (3, 94, 2, 1), (3, 37, 1, 48),
  (2890, 37, 1, 7264), (2, 0, 1, 7264), (6, 0, 1, 7264), (723, 79, 1, 38864), (1, 5, 1, 8),
  (2203, 42, 1, -3008), (3, 2, 1, -3008), (321, 148, 2, 1), (10, 0, 1, -7615), (2, 94, 2, 1),
  (10, 7, 1, -8), (9, 5, 1, -8), (11, 7, 1, -8), (9, 7, 1, -8), (9, 5, 1, -8), (12, 6, 2, -8),
  (9, 7, 1, -8), (25, 7, 1, -8), (9, 7, 1, -8), (9, 7, 1, -8), (9, 1, 1, -8), (1, 1, 1, -74),
  (1, 0, 1, -9), (12, 3, 1, -86), (1, 0, 1, -9), (12, 1, 1, -8), (1, 1, 1, -100), (13, 1, 1, -8),
  (1, 1, 1, -112), (1, 0, 1, -7), (12, 1, 1, -128), (1, 1, 1, -126), (1, 0, 1, -9),
  (298, 0, 1, -7517), (4, 0, 1, -8383), (1, 0, 1, -8262), (7, 0, 1, 28), (46, 15, 1, 16),
  (20, 0, 1, 1), (819, 25, 1, 26), (1841, 47, 1, 48), (49, 0, 1, 1), (2, 0, 1, -10743),
  (1, 0, 1, -3814), (1, 0, 1, -10727), (3, 4, 2, 1), (2, 0, 1, -10780), (1, 0, 1, -10749),
  (1, 0, 1, -10783), (1, 0, 1, -10782), (2, 0, 1, 1), (3, 0, 1, 1), (9, 1, 1, -10815),
  (1, 98, 2, 1), (9, 2, 2, 1), (5, 0, 1, 1), (31054, 44, 2, 1), (20, 26, 2, 1), (136, 12, 2, 1),
  (4, 60, 2, 1), (11, 2, 2, 1), (2, 0, 1, -35332), (1, 8, 2, 1), (5, 0, 1, 1), (2, 0, 1, -42280),
  (3, 2, 2, 1), (4, 18, 2, 1), (2, 0, 1, -42308), (1, 0, 1, -42319), (1, 0, 1, -42315),
  (1, 0, 1, -42305), (1, 0, 1, -42308), (2, 0, 1, -42258), (1, 0, 1, -42282), (1, 0, 1, -42261),
  (1, 0, 1, 928), (1, 14, 2, 1), (2, 0, 1, -48), (1, 0, 1, -42307), (1, 0, 1, -35384),
  (1, 2, 2, 1), (7, 0, 1, 1), (6, 2, 2, 1), (29, 0, 1, 1), (22316, 25, 1, 32), (1222, 39, 1, 40),
  (137, 35, 1, 40), (157, 10, 1, 39), (2, 14, 1, 39), (2, 6, 1, 39), (2, 1, 1, 39),
  (1771, 50, 1, 64), (3054, 31, 1, 32), (21889, 31, 1, 32), (31393, 33, 1, 34)]

/-- The small letter of a capital one; other characters are left alone. -/
def smallOf (c : Char) : Char :=
  let code := c.toNat
  if code < 128 then c.toLower
  else
    match capitalRuns.find? fun (first, last, step, _) =>
        first ≤ code && code ≤ last && (code - first) % step = 0 with
    | some (_, _, _, distance) => Char.ofNat ((code : Int) + distance).toNat
    | none => c

/-- The capital letter of a small one; other characters are left alone. -/
def capitalOf (c : Char) : Char :=
  let code : Int := c.toNat
  if code < 128 then c.toUpper
  else
    match capitalRuns.find? fun (first, last, step, distance) =>
        first ≤ code - distance && code - distance ≤ last
          && (code - distance - first) % step = 0 with
    | some (_, _, _, distance) => Char.ofNat (code - distance).toNat
    | none => c

/-- The text with small letters for capital ones. The capital with a dot above keeps its dot. -/
def toSmall (text : List Char) : List Char :=
  text.flatMap fun c => if c == '\u0130' then ['i', '\u0307'] else [smallOf c]

/-!
## Printable characters

The characters that show when a text is printed, by the categories of Unicode 14: all but the
separators other than the plain space, the control and format characters, the private ones and those
not assigned. The table lists the runs of the others, by their distances.
-/

/-- Runs of code points that do not show. -/
def hiddenRuns : List (Nat × Nat) := runsFrom 0 [
  0, 31, 96, 33, 13, 0, 715, 1, 7, 3, 8, 0, 2, 0, 21, 0, 398, 0, 39, 1, 51, 1, 4, 0, 56, 7, 28, 3,
  7, 16, 23, 0, 193, 0, 49, 1, 60, 1, 102, 13, 60, 1, 50, 1, 16, 0, 29, 1, 2, 0, 12, 4, 32, 8, 75,
  0, 162, 0, 9, 1, 3, 1, 23, 0, 8, 0, 2, 2, 5, 1, 10, 1, 3, 1, 5, 7, 2, 3, 3, 0, 6, 1, 26, 1, 4, 0,
  7, 3, 3, 1, 23, 0, 8, 0, 3, 0, 3, 0, 3, 1, 2, 0, 6, 3, 3, 1, 4, 2, 2, 6, 5, 0, 2, 6, 18, 9, 4, 0,
  10, 0, 4, 0, 23, 0, 8, 0, 3, 0, 6, 1, 11, 0, 4, 0, 4, 1, 2, 14, 5, 1, 13, 6, 8, 0, 4, 0, 9, 1, 3,
  1, 23, 0, 8, 0, 3, 0, 6, 1, 10, 1, 3, 1, 4, 6, 4, 3, 3, 0, 6, 1, 19, 9, 3, 0, 7, 2, 4, 0, 5, 2,
  3, 0, 2, 0, 3, 2, 3, 2, 4, 2, 13, 3, 6, 2, 4, 0, 5, 1, 2, 5, 2, 13, 22, 4, 14, 0, 4, 0, 24, 0,
  17, 1, 10, 0, 4, 0, 5, 6, 3, 0, 4, 1, 2, 1, 5, 1, 11, 6, 23, 0, 4, 0, 24, 0, 11, 0, 6, 1, 10, 0,
  4, 0, 5, 6, 3, 5, 3, 0, 5, 1, 11, 0, 3, 12, 14, 0, 4, 0, 52, 0, 4, 0, 7, 3, 17, 1, 27, 0, 4, 0,
  19, 2, 25, 0, 10, 0, 2, 1, 8, 2, 2, 3, 7, 0, 2, 0, 9, 5, 11, 1, 4, 11, 59, 3, 30, 36, 3, 0, 2, 0,
  6, 0, 25, 0, 2, 0, 24, 1, 6, 0, 2, 0, 7, 1, 11, 1, 5, 31, 73, 0, 37, 3, 40, 0, 37, 0, 16, 0, 14,
  36, 199, 0, 2, 4, 2, 1, 378, 0, 5, 1, 8, 0, 2, 0, 5, 1, 42, 0, 5, 1, 34, 0, 5, 1, 8, 0, 2, 0, 5,
  1, 16, 0, 58, 0, 5, 1, 68, 1, 33, 2, 27, 5, 87, 1, 7, 1, 641, 0, 29, 2, 90, 6, 23, 8, 25, 8, 21,
  11, 14, 0, 4, 0, 3, 11, 95, 1, 11, 5, 11, 5, 15, 0, 12, 5, 90, 6, 44, 4, 71, 9, 32, 0, 13, 3, 13,
  3, 2, 2, 43, 1, 6, 10, 45, 3, 27, 5, 12, 2, 63, 1, 66, 0, 30, 1, 12, 5, 11, 5, 15, 1, 32, 48, 78,
  2, 48, 0, 117, 7, 61, 2, 16, 2, 61, 6, 44, 1, 12, 7, 44, 4, 535, 1, 7, 1, 39, 1, 7, 1, 9, 0, 2,
  0, 2, 0, 2, 0, 32, 1, 54, 0, 16, 0, 15, 1, 7, 0, 20, 1, 4, 0, 10, 16, 25, 7, 48, 16, 3, 1, 28, 0,
  14, 2, 34, 14, 34, 14, 141, 3, 664, 24, 12, 20, 1813, 1, 33, 0, 350, 4, 46, 0, 2, 4, 2, 1, 57, 6,
  3, 13, 25, 8, 8, 0, 8, 0, 8, 0, 8, 0, 8, 0, 8, 0, 8, 0, 8, 0, 127, 33, 27, 0, 90, 11, 215, 25,
  13, 4, 64, 0, 87, 1, 104, 4, 44, 0, 95, 0, 85, 11, 48, 0, 29294, 2, 56, 8, 349, 19, 185, 7, 204,
  4, 3, 0, 2, 0, 6, 23, 60, 2, 11, 5, 57, 7, 71, 7, 13, 5, 117, 10, 31, 2, 79, 0, 12, 3, 34, 0, 56,
  8, 15, 1, 11, 1, 104, 23, 29, 9, 7, 1, 7, 1, 7, 8, 8, 0, 8, 0, 61, 3, 127, 1, 11, 5, 11173, 11,
  24, 3, 50, 8451, 367, 1, 107, 37, 8, 11, 6, 4, 27, 0, 6, 0, 2, 0, 3, 0, 3, 0, 126, 15, 446, 1,
  55, 6, 2, 31, 43, 5, 52, 0, 20, 0, 5, 3, 6, 0, 136, 3, 191, 2, 7, 1, 7, 1, 7, 1, 4, 2, 8, 0, 8,
  12, 3, 1, 13, 0, 27, 0, 20, 0, 3, 0, 16, 1, 15, 33, 124, 4, 4, 3, 46, 2, 89, 0, 14, 2, 2, 46, 47,
  129, 30, 2, 50, 14, 29, 3, 37, 8, 31, 4, 44, 4, 31, 0, 38, 3, 15, 41, 159, 1, 11, 5, 37, 3, 37,
  3, 41, 7, 53, 10, 13, 0, 16, 0, 8, 0, 3, 0, 12, 0, 16, 0, 8, 0, 3, 66, 312, 8, 23, 9, 9, 23, 7,
  0, 43, 0, 10, 68, 7, 1, 2, 0, 45, 0, 3, 2, 2, 1, 24, 0, 73, 7, 10, 47, 20, 0, 3, 4, 34, 2, 28, 4,
  2, 63, 57, 3, 21, 1, 51, 0, 3, 4, 9, 0, 4, 0, 30, 1, 4, 3, 11, 6, 10, 6, 65, 31, 40, 3, 13, 8,
  55, 2, 30, 1, 28, 4, 27, 6, 5, 11, 8, 79, 74, 54, 52, 12, 52, 6, 47, 7, 11, 293, 32, 0, 43, 0, 4,
  1, 3, 77, 41, 7, 43, 21, 27, 37, 29, 19, 24, 8, 79, 3, 37, 8, 63, 0, 6, 12, 26, 6, 11, 5, 54, 0,
  19, 7, 40, 8, 97, 0, 21, 10, 19, 0, 45, 64, 8, 0, 2, 0, 5, 0, 16, 0, 12, 5, 60, 4, 11, 5, 5, 0,
  9, 1, 3, 1, 23, 0, 8, 0, 3, 0, 6, 0, 11, 1, 3, 1, 4, 1, 2, 5, 2, 4, 8, 1, 8, 2, 6, 138, 93, 0, 6,
  29, 73, 7, 11, 165, 55, 1, 39, 33, 70, 10, 11, 5, 14, 18, 59, 5, 11, 53, 28, 1, 16, 3, 24, 184,
  61, 99, 84, 11, 9, 1, 2, 1, 9, 0, 3, 0, 31, 0, 3, 1, 13, 8, 11, 69, 9, 1, 47, 1, 12, 26, 73, 7,
  84, 12, 74, 262, 10, 0, 46, 0, 15, 9, 30, 2, 33, 1, 23, 0, 15, 72, 8, 0, 3, 0, 45, 2, 2, 0, 3, 0,
  10, 7, 11, 5, 7, 0, 3, 0, 38, 0, 3, 0, 7, 6, 11, 309, 26, 182, 2, 14, 51, 12, 924, 101, 112, 0,
  6, 10, 197, 2635, 100, 12, 1072, 4048, 584, 8632, 570, 6, 32, 0, 11, 3, 82, 0, 11, 5, 31, 1, 7,
  9, 71, 9, 11, 0, 8, 0, 22, 4, 20, 687, 92, 100, 76, 3, 58, 6, 18, 63, 6, 10, 3, 13, 6137, 7,
  1239, 41, 10, 8934, 5, 0, 8, 0, 3, 0, 292, 44, 4, 16, 5, 7, 397, 2307, 108, 4, 14, 2, 10, 6, 11,
  1, 5, 4703, 47, 1, 24, 8, 117, 59, 247, 9, 40, 1, 75, 7, 113, 20, 71, 153, 21, 11, 88, 8, 26,
  134, 86, 0, 72, 0, 3, 1, 2, 1, 3, 1, 5, 0, 13, 0, 2, 0, 8, 0, 66, 0, 5, 1, 9, 0, 8, 0, 29, 0, 5,
  0, 6, 0, 2, 2, 8, 0, 341, 1, 293, 1, 703, 14, 6, 0, 16, 1103, 32, 224, 8, 0, 18, 1, 8, 0, 3, 0,
  6, 212, 46, 2, 15, 1, 11, 3, 3, 319, 32, 16, 59, 4, 2, 1247, 8, 0, 5, 0, 3, 0, 16, 0, 198, 1, 17,
  40, 77, 3, 11, 3, 3, 784, 69, 75, 62, 193, 5, 0, 28, 0, 3, 0, 2, 1, 2, 0, 11, 0, 5, 0, 2, 0, 2,
  5, 2, 3, 2, 0, 2, 0, 2, 0, 4, 0, 3, 0, 2, 1, 2, 0, 2, 0, 2, 0, 2, 0, 2, 0, 3, 0, 2, 1, 5, 0, 8,
  0, 5, 0, 5, 0, 2, 0, 11, 0, 18, 4, 4, 0, 6, 0, 18, 51, 3, 269, 45, 3, 101, 11, 16, 1, 16, 0, 16,
  0, 38, 9, 175, 55, 30, 12, 45, 3, 10, 6, 3, 13, 7, 153, 985, 4, 17, 2, 14, 2, 117, 11, 90, 6, 13,
  3, 2, 14, 13, 3, 57, 7, 11, 5, 41, 7, 31, 1, 3, 77, 341, 11, 15, 1, 6, 2, 6, 2, 8, 8, 30, 2, 12,
  4, 7, 9, 11, 5, 9, 7, 8, 8, 148, 0, 56, 36, 11, 1029, 42721, 31, 4154, 6, 223, 1, 5763, 13, 7474,
  3102, 543, 1505, 4940, 716212, 241, 196111]

/-- A character that shows when it is printed. -/
def isPrintable (c : Char) : Bool :=
  let n := c.toNat
  if n < 127 then 32 ≤ n else !hiddenRuns.any fun run => run.1 ≤ n && n ≤ run.2

end ModuleAtlas.Text
