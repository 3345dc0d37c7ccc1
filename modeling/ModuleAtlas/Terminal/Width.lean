import ModuleAtlas.Keyed
import ModuleAtlas.Text.Classes

/-!
# Columns in a terminal

The characters that do not take one column, and the columns that texts take.
-/

namespace ModuleAtlas.Terminal

open Text (runsFrom)

/-!
## Tables of widths

The code points beyond the first 128 that do not take one column on a terminal, in runs listed by
their distances.
-/

/-- Runs of code points that take no column: controls, marks, joiners, the later letters of Hangul
syllables, skin tones and code points that are ignored when they are not known. -/
def zeroRuns : List (Nat × Nat) := runsFrom 0 [
  128, 31, 609, 111, 276, 6, 264, 44, 2, 0, 2, 1, 2, 1, 2, 0, 73, 10, 2, 0, 47, 20, 17, 0, 102, 6,
  3, 5, 3, 1, 2, 3, 36, 0, 31, 26, 92, 10, 59, 8, 10, 0, 25, 3, 2, 8, 2, 2, 2, 4, 44, 2, 60, 8, 43,
  23, 2, 32, 55, 2, 2, 17, 2, 6, 11, 1, 30, 2, 57, 0, 2, 6, 3, 1, 3, 2, 10, 0, 11, 1, 27, 0, 3, 2,
  57, 0, 2, 4, 5, 1, 3, 2, 4, 0, 31, 1, 4, 0, 12, 2, 57, 0, 2, 7, 2, 2, 2, 2, 21, 1, 23, 5, 2, 2,
  57, 0, 2, 6, 3, 1, 3, 2, 8, 2, 11, 1, 31, 0, 60, 4, 4, 2, 2, 3, 10, 0, 41, 4, 56, 0, 2, 6, 2, 2,
  2, 3, 8, 1, 12, 1, 30, 2, 57, 0, 2, 6, 2, 2, 2, 3, 8, 1, 12, 1, 16, 0, 13, 3, 56, 1, 2, 6, 2, 2,
  2, 3, 10, 0, 11, 1, 30, 2, 71, 0, 5, 5, 2, 0, 2, 7, 19, 1, 62, 0, 3, 6, 13, 7, 99, 0, 3, 8, 12,
  6, 74, 1, 28, 0, 2, 0, 2, 0, 5, 1, 50, 19, 2, 1, 6, 10, 2, 35, 10, 0, 101, 19, 24, 3, 5, 2, 2, 2,
  3, 6, 4, 3, 14, 11, 2, 0, 11, 3, 195, 159, 350, 2, 947, 3, 29, 2, 30, 1, 31, 1, 65, 31, 10, 0,
  46, 4, 118, 1, 35, 0, 119, 11, 5, 11, 220, 4, 58, 9, 2, 28, 3, 0, 49, 45, 3, 11, 21, 4, 48, 16,
  39, 8, 13, 2, 31, 12, 57, 13, 49, 19, 153, 2, 2, 20, 5, 0, 7, 0, 3, 2, 199, 63, 524, 4, 25, 6,
  50, 15, 97, 32, 3071, 2, 142, 0, 97, 31, 555, 5, 106, 1, 202, 0, 29963, 3, 2, 9, 33, 1, 81, 1,
  273, 0, 4, 0, 5, 0, 24, 4, 5, 0, 84, 1, 51, 17, 27, 17, 14, 0, 39, 7, 26, 12, 45, 3, 48, 13, 37,
  0, 68, 13, 13, 0, 9, 1, 46, 2, 51, 0, 2, 2, 3, 1, 6, 1, 2, 0, 42, 4, 6, 1, 237, 7, 2, 1, 11203,
  79, 8991, 0, 738, 15, 17, 15, 208, 0, 161, 0, 80, 11, 514, 0, 227, 0, 150, 4, 1671, 2, 2, 1, 6,
  3, 41, 2, 5, 0, 166, 1, 574, 3, 66, 4, 318, 1, 78, 5, 71, 10, 50, 3, 123, 2, 54, 14, 42, 0, 3, 1,
  11, 3, 46, 10, 8, 0, 62, 2, 37, 13, 17, 1, 45, 0, 13, 2, 49, 13, 9, 3, 2, 1, 93, 11, 7, 0, 3, 0,
  158, 11, 22, 3, 56, 1, 2, 6, 3, 1, 3, 2, 10, 0, 11, 1, 3, 6, 4, 4, 68, 8, 2, 0, 3, 0, 2, 3, 2, 4,
  2, 0, 15, 1, 83, 17, 24, 0, 82, 19, 236, 6, 3, 8, 28, 1, 83, 16, 107, 12, 102, 14, 257, 14, 246,
  5, 2, 1, 3, 3, 2, 0, 2, 1, 142, 6, 3, 6, 4, 0, 29, 9, 41, 6, 2, 3, 9, 0, 10, 10, 47, 15, 199, 7,
  200, 7, 2, 7, 83, 21, 2, 13, 123, 5, 4, 0, 2, 1, 2, 6, 2, 0, 67, 4, 2, 1, 2, 4, 348, 3, 10, 1, 2,
  0, 49, 6, 4, 4, 24, 0, 5334, 16, 7, 14, 11465, 17, 2497, 4, 60, 6, 1049, 0, 2, 54, 8, 3, 82, 0,
  12, 1, 19628, 1, 2, 3, 4701, 45, 3, 22, 543, 4, 4, 21, 3, 6, 31, 3, 149, 2, 1980, 54, 5, 49, 9,
  0, 15, 0, 23, 4, 2, 14, 1361, 6, 2, 16, 3, 6, 2, 1, 2, 4, 101, 0, 161, 6, 376, 0, 62, 3, 509, 3,
  255, 1, 244, 0, 3, 0, 8, 1, 6, 0, 475, 6, 110, 6, 2737, 4, 789505, 4095]

/-- Runs of code points that take two columns: the wide letters of East Asian scripts, and pictures.
-/
def wideRuns : List (Nat × Nat) := runsFrom 0 [
  4352, 95, 4539, 1, 14, 1, 191, 3, 4, 0, 3, 0, 522, 1, 22, 1, 27, 7, 17, 11, 44, 0, 11, 5, 4, 0,
  14, 0, 9, 1, 18, 1, 6, 1, 9, 0, 6, 0, 22, 0, 8, 1, 2, 0, 5, 0, 3, 0, 8, 0, 5, 1, 29, 0, 36, 0, 2,
  0, 5, 2, 2, 0, 62, 2, 25, 0, 15, 0, 860, 1, 52, 0, 5, 0, 811, 25, 2, 88, 13, 213, 27, 57, 7, 14,
  3, 85, 5, 100, 6, 42, 2, 50, 2, 41, 2, 85, 10, 47, 2, 39, 9, 29244, 4, 54, 1178, 28, 644, 11171,
  8541, 511, 785, 9, 23, 34, 2, 18, 2, 3, 150, 95, 128, 6, 28666, 3, 15, 4, 10, 7381, 42, 31, 98,
  114, 8702, 3, 2, 6, 2, 1, 2, 290, 16, 0, 30, 2, 3, 0, 15, 3, 9, 395, 8197, 86, 10, 22, 7310, 0,
  203, 0, 191, 0, 3, 9, 102, 2, 14, 43, 5, 8, 8, 1, 15, 5, 155, 32, 13, 8, 2, 69, 2, 21, 13, 42, 5,
  4, 13, 16, 4, 0, 4, 2, 6, 62, 2, 0, 2, 186, 3, 62, 14, 3, 2, 23, 19, 0, 27, 1, 14, 0, 87, 84, 49,
  69, 7, 0, 4, 2, 3, 3, 4, 3, 12, 1, 8, 8, 228, 11, 5, 0, 284, 46, 2, 9, 2, 184, 113, 12, 4, 10, 4,
  56, 2, 0, 5, 15, 3, 11, 5, 9, 1288, 65533, 3, 65533]

/-- Runs of code points that take one column, and two as a picture. -/
def pictureRuns : List (Nat × Nat) := runsFrom 0 [
  35, 0, 7, 0, 6, 9, 112, 0, 5, 0, 8078, 0, 13, 0, 217, 0, 23, 0, 91, 5, 16, 1, 382, 0, 167, 0, 30,
  2, 2, 1, 6, 2, 200, 0, 232, 1, 11, 0, 10, 0, 59, 1, 4, 4, 10, 0, 3, 0, 7, 0, 5, 0, 3, 0, 2, 1, 3,
  0, 4, 0, 4, 1, 9, 2, 6, 0, 2, 0, 29, 1, 3, 0, 2, 1, 2, 0, 19, 0, 3, 0, 20, 0, 2, 3, 2, 0, 2, 1,
  4, 0, 7, 0, 9, 1, 23, 0, 7, 0, 2, 0, 2, 0, 22, 0, 7, 1, 3, 0, 3, 2, 9, 0, 6, 1, 3, 1, 2, 0, 3, 0,
  2, 0, 2, 0, 7, 0, 4, 0, 18, 1, 16, 0, 3, 0, 28, 1, 61, 0, 403, 1, 464, 2, 116329, 1, 13, 1, 418,
  0, 3, 8, 10, 0, 71, 0, 25, 1, 2, 2, 3, 1, 44, 3, 6, 11, 20, 0, 2, 0, 2, 0, 72, 0, 2, 0, 188, 0,
  76, 1, 37, 1, 3, 6, 14, 0, 3, 3, 3, 0, 21, 0, 3, 0, 9, 1, 10, 0, 6, 2, 13, 2, 9, 2, 3, 0, 2, 0,
  5, 0, 7, 0, 4, 0, 7, 0, 209, 0, 2, 2, 17, 5, 4, 0, 7, 0, 3, 0]

/-- Whether a code point lies in one of the runs. -/
def isIn (runs : List (Nat × Nat)) (code : Nat) : Bool :=
  runs.any fun run => run.1 ≤ code && code ≤ run.2

/-!
## Widths

The number of columns that a text takes on a terminal: two for the wide characters of East Asian
scripts and for pictures, none for marks and control characters, one for all others. A joiner lets
the character after it stand in the place of the one before it, and a selector makes a picture of
some characters that are none by themselves. A character with all that belongs to it is a cluster; a
text is cut between clusters.
-/

/-- The character that joins two others. -/
def joiner : Char := '\u200d'

/-- The character that asks for a picture. -/
def selector : Char := '\ufe0f'

/-- The number of columns of a character. -/
def charWidth (c : Char) : Nat :=
  let code := c.toNat
  if code < 128 then if 32 ≤ code && code < 127 then 1 else 0
  else if isIn zeroRuns code then 0
  else if isIn wideRuns code then 2
  else 1

/-- The columns that a selector adds to a character. -/
def selectorWidth (c : Option Char) : Nat :=
  if (c.map fun c => isIn pictureRuns c.toNat).getD false then 1 else 0

/-- The number of columns of a text after a character that takes columns. -/
def widthAfter : Option Char → List Char → Nat
  | _, [] => 0
  | before, c :: rest =>
    if c == joiner then
      match rest with
      | [] => 0
      | _ :: rest => widthAfter before rest
    else if c == selector then selectorWidth before + widthAfter none rest
    else if charWidth c = 0 then widthAfter before rest
    else charWidth c + widthAfter (some c) rest

/-- The number of columns of a text. -/
def width (text : List Char) : Nat := widthAfter none text

/-! ### Clusters -/

/-- A character with all that belongs to it, and its columns. -/
structure Cluster where
  text : List Char
  columns : Nat
deriving Repr, DecidableEq

/-- A cluster with characters and columns added. -/
def Cluster.extend (cluster : Cluster) (more : List Char) (columns : Nat) : Cluster :=
  ⟨cluster.text ++ more, cluster.columns + columns⟩

/-- The clusters of a text after a cluster and the last character in it that takes columns. -/
def clustersAfter : Cluster → Option Char → List Char → List Cluster
  | cluster, _, [] => [cluster]
  | cluster, before, c :: rest =>
    if c == joiner then
      match rest with
      | [] => [cluster.extend [c] 0]
      | next :: rest => clustersAfter (cluster.extend [c, next] 0) before rest
    else if c == selector then
      clustersAfter (cluster.extend [c] (selectorWidth before)) none rest
    else if charWidth c = 0 then clustersAfter (cluster.extend [c] 0) before rest
    else cluster :: clustersAfter ⟨[c], charWidth c⟩ (some c) rest

/-- The clusters of a text. A joiner at its start joins nothing. -/
def clusters : List Char → List Cluster
  | [] => []
  | c :: rest =>
    if c == joiner || c == selector || charWidth c = 0 then clustersAfter ⟨[c], 0⟩ none rest
    else clustersAfter ⟨[c], charWidth c⟩ (some c) rest

/-- The clusters that fit into some columns. -/
def fitting : Nat → List Cluster → List Cluster
  | _, [] => []
  | columns, cluster :: rest =>
    if cluster.columns ≤ columns then cluster :: fitting (columns - cluster.columns) rest else []

/-- The start of a text that takes just some columns. A blank stands for half of a character that
does not fit. -/
def cut (columns : Nat) (text : List Char) : List Char :=
  let kept := fitting columns (clusters text)
  let used := total (kept.map Cluster.columns)
  kept.flatMap Cluster.text ++ List.replicate (columns - used) ' '

end ModuleAtlas.Terminal
