/-!
Character classes of the Unicode text segmentation standard, as runs of code points.
-/

namespace SpriteMachine.Text.ClusterTable

def extend : List Nat := [
  768,112,275,7,263,45,1,1,1,2,1,2,1,1,72,11,48,21,16,1,101,7,2,6,2,2,1,4,35,1,30,27,91,
  11,58,9,9,1,24,4,1,9,1,3,1,5,43,3,59,9,42,24,1,32,55,1,1,1,4,8,4,1,3,7,10,2,29,1,58,
  1,1,1,2,4,8,1,9,1,10,2,26,1,2,2,57,1,4,2,4,2,2,3,3,1,30,2,3,1,11,2,57,1,4,5,1,2,4,
  1,20,2,22,6,1,1,58,1,1,2,1,4,8,1,7,3,10,2,30,1,59,1,1,1,12,1,9,1,40,1,3,1,55,1,1,3,
  5,3,1,4,7,2,11,2,29,1,58,1,2,2,1,1,3,3,1,4,7,2,11,2,28,2,57,2,1,1,2,4,8,1,9,1,10,2,
  29,1,72,1,4,1,2,3,1,1,8,1,81,1,2,7,12,8,98,1,2,9,11,7,73,2,27,1,1,1,1,1,55,14,1,5,1,
  2,5,11,1,36,9,1,102,4,1,6,1,2,2,2,25,2,4,3,16,4,13,1,2,2,6,1,15,1,703,3,946,4,28,3,
  29,2,30,2,64,2,1,7,8,1,2,11,9,1,45,3,1,1,117,2,34,1,118,3,4,2,9,1,6,3,219,2,2,1,58,1,
  1,7,1,1,1,1,2,8,6,10,2,1,48,46,2,12,20,4,48,10,4,3,38,9,12,2,32,4,2,6,56,1,1,2,3,1,
  1,5,56,8,2,2,152,3,1,13,1,7,4,1,6,1,3,2,198,64,524,1,195,33,3070,3,141,1,96,32,554,6,
  105,2,30164,4,1,10,32,2,80,2,272,1,3,1,4,1,25,2,5,1,151,2,26,18,13,1,38,8,25,11,1,1,44,
  3,48,1,2,4,2,2,2,1,36,1,67,6,2,2,2,2,12,1,8,1,47,1,51,1,1,3,2,2,5,2,1,1,42,2,8,1,
  238,1,2,1,4,1,20272,1,737,16,16,16,366,2,605,1,226,1,149,5,1670,3,1,2,5,4,40,3,4,1,165,2,
  573,4,65,5,317,2,77,6,70,11,49,4,123,1,54,15,41,1,2,2,10,3,49,4,2,2,7,1,61,3,36,5,1,8,
  62,1,12,2,52,9,1,1,8,4,2,1,95,3,2,4,6,1,2,1,157,1,3,8,21,2,57,2,1,1,1,1,12,1,9,1,14,
  7,3,5,67,1,2,6,1,1,2,1,1,3,4,3,1,1,14,2,85,8,2,3,1,1,23,1,81,1,2,6,1,1,2,1,1,2,1,
  2,235,1,2,4,6,2,1,2,27,2,85,8,2,1,1,2,106,1,1,1,2,8,101,1,1,1,2,4,1,5,259,9,1,2,245,
  1,10,4,4,1,144,4,2,2,4,1,32,10,40,6,2,4,8,1,9,6,2,3,46,13,1,2,198,1,1,3,1,1,201,7,1,
  6,1,1,82,22,2,7,1,2,1,2,122,6,3,1,1,2,1,7,1,1,72,2,3,1,1,1,347,2,11,2,52,5,5,3,23,1,
  5349,1,6,15,11464,12,3,3,2496,5,59,7,1048,1,63,4,81,1,11,2,19627,2,4705,46,2,23,542,5,3,6,
  8,8,2,7,30,4,148,3,1979,55,4,50,8,1,14,1,22,5,1,15,1360,7,1,17,2,7,1,2,1,5,100,1,160,7,
  375,1,61,4,508,4,254,2,243,1,2,1,7,2,5,1,474,7,109,7,792277,96,128,240]

/-- Vowel signs and other marks with a width of their own. -/
def spacingMark : List Nat := [
  2307,1,55,1,2,3,8,4,1,2,50,2,59,2,6,2,2,2,54,1,58,3,66,1,58,3,8,1,1,2,53,2,60,1,6,2,
  2,2,114,1,1,2,3,3,1,3,52,3,61,4,61,2,58,1,2,1,1,2,46,1,14,2,59,2,5,3,1,3,53,2,76,2,
  6,7,19,2,63,1,127,1,138,2,63,1,177,1,9,2,25,2,44,1,1841,1,7,8,1,2,346,4,2,3,4,2,1,6,
  224,2,58,1,1,1,21,6,145,1,57,4,64,1,30,1,4,2,63,1,2,3,1,1,53,8,8,2,171,1,21,1,35627,2,
  2,1,88,2,50,16,142,1,48,1,48,2,4,2,2,2,111,2,2,2,24,1,157,1,2,2,5,1,237,2,1,2,1,2,1,
  1,25619,1,1,1,127,1,45,3,4,2,115,1,24,2,59,1,48,3,9,1,14,1,93,3,3,2,172,3,31,2,59,1,1,
  4,2,2,2,2,21,2,85,2,15,1,1,2,103,3,8,2,3,1,107,2,6,1,1,2,1,1,2,1,238,2,6,4,2,1,113,
  3,8,2,1,1,109,1,1,2,110,1,7,1,261,3,9,1,248,5,1,2,7,1,1,1,142,3,8,4,4,1,84,1,29,2,62,
  1,201,1,3,1,1,1,199,1,14,1,106,1,7,1,2,1,213,5,4,2,1,1,350,2,12,1,48,2,8,2,16874,3,
  3620,55]

/-- Signs that belong to the character after them. -/
def prepend : List Nat := [
  1536,6,215,1,49,1,384,2,80,1,1131,1,66414,1,15,1,244,2,525,1,1389,1,1,1,322,6,700,1,443,1]

def control : List Nat := [
  0,10,1,2,1,18,95,33,13,1,1390,1,4593,1,2044,1,2,2,24,7,49,16,56975,1,240,12,13364,16,34912,
  4,5327,8,798341,32,96,128,240,3600]

/-- Vowels that syllables are made of, those of Hangul and some of Kirat Rai. -/
def vowel : List Nat := [
  4448,72,50696,23,38300,1,3,4]

/-- Pictographs that a joiner can chain. -/
def pictographic : List Nat := [
  169,1,4,1,8077,1,12,1,216,1,22,1,90,6,15,2,367,2,12,1,166,1,25,11,4,3,199,1,231,2,10,1,
  9,1,58,4,1,5,9,1,2,1,2,2,2,1,4,1,2,1,1,2,2,1,3,1,3,2,8,3,5,1,1,1,5,12,11,2,2,1,1,
  2,1,1,18,1,2,2,18,6,1,1,1,2,3,2,5,1,2,2,4,2,11,2,5,2,2,1,5,2,1,1,1,2,20,2,5,6,1,4,
  2,1,4,1,2,1,2,6,1,1,2,1,1,1,1,1,6,1,3,1,6,1,10,2,15,1,2,1,4,1,1,1,4,3,1,1,11,2,48,
  3,9,1,14,1,14,1,372,2,463,3,19,2,51,1,4,1,1242,1,12,1,601,1,1,1,114026,1,39,4,100,12,15,
  2,15,1,14,2,37,10,112,2,12,2,14,1,2,10,19,56,27,15,10,1,20,1,2,9,1,4,9,23,6,188,2,112,
  2,2,1,3,2,83,2,3,1,4,5,254,1,63,11,6,1,24,7,2,2,8,12,1,2,4,2,1,4,2,13,2,2,1,8,2,9,
  1,5,3,12,3,8,3,2,1,1,1,4,1,6,1,3,1,6,86,48,70,5,8,2,17,3,1,1,6,2,13,218,38,12,4,56,
  8,10,6,40,8,30,2,12,4,2,14,9,39,12,47,1,10,1,185,88,8,14,146,256,1022]

def conjunctConsonant : List Nat := [
  2325,37,30,8,24,8,21,20,1,7,1,1,3,4,34,2,1,1,16,2,163,20,1,7,1,2,1,5,63,1,27,20,1,7,1,
  2,1,5,34,2,1,1,17,1,163,20,1,16,30,3,186,38,709,43,20,1,16,6,4,4,3,1,3,2,7,3,4,13,12,
  1,1777,52,620,53,182,2,6,33,17,8,54,30,13,2,11,3,36299,3,3,36,45,5,2,9,10,5,97,16,1,3,6,
  1,3,2,96,11,213,27,24101,1,15,4,1,3,1,29,1741,36,29,1,2,1,568,10,1,1,2,1,1,38,1354,7,2,
  1,2,8,1,2,1,24,208,1,10,40,29,1,11,40,1152,13,1,34]

/-- Signs that link the consonants of a conjunct. -/
def conjunctLinker : List Nat := [
  2381,1,127,1,255,1,127,1,255,1,255,1,747,1,1944,1,653,1,227,1,102,1,36372,1,309,1,24392,1,
  1779,1,668,1,1389,1,264,1,81,1,1192,1]

end SpriteMachine.Text.ClusterTable
