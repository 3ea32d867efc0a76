import ClassMetrics.Text.Unseen

/-!
Characters of domain names. A capital letter stands for the small one, and a letter or digit in
another form, such as a full-width or circled one, for the plain one.

The tables hold the Latin, Greek, Cyrillic and Armenian letters. Forms of other scripts stand for
themselves, and no mark is joined to the letter before it.
-/

namespace ClassMetrics.Endpoint

/-- Characters from one code point to another, one in every `stride`, that stand for the characters
from `target` on. -/
structure CharRun where
  first : Nat
  last : Nat
  stride : Nat
  target : Nat

namespace CharRun

def contains (run : CharRun) (code : Nat) : Bool :=
  run.first ≤ code && code ≤ run.last && (code - run.first) % run.stride == 0

def image (run : CharRun) (code : Nat) : Nat :=
  run.target + (code - run.first)

end CharRun

def mappedRuns : List CharRun :=
  [⟨0x41, 0x5a, 1, 0x61⟩, ⟨0xb2, 0xb3, 1, 0x32⟩, ⟨0xb9, 0xb9, 1, 0x31⟩, ⟨0xc0, 0xd6, 1, 0xe0⟩,
    ⟨0xd8, 0xde, 1, 0xf8⟩, ⟨0x100, 0x12e, 2, 0x101⟩, ⟨0x134, 0x136, 2, 0x135⟩,
    ⟨0x139, 0x13d, 2, 0x13a⟩, ⟨0x141, 0x147, 2, 0x142⟩, ⟨0x14a, 0x176, 2, 0x14b⟩,
    ⟨0x178, 0x178, 1, 0xff⟩, ⟨0x179, 0x17d, 2, 0x17a⟩, ⟨0x17f, 0x17f, 1, 0x73⟩,
    ⟨0x386, 0x386, 1, 0x3ac⟩, ⟨0x388, 0x38a, 1, 0x3ad⟩, ⟨0x38c, 0x38c, 1, 0x3cc⟩,
    ⟨0x38e, 0x38f, 1, 0x3cd⟩, ⟨0x391, 0x3a1, 1, 0x3b1⟩, ⟨0x3a3, 0x3ab, 1, 0x3c3⟩,
    ⟨0x400, 0x40f, 1, 0x450⟩, ⟨0x410, 0x42f, 1, 0x430⟩, ⟨0x460, 0x480, 2, 0x461⟩,
    ⟨0x48a, 0x4be, 2, 0x48b⟩, ⟨0x4c0, 0x4c0, 1, 0x4cf⟩, ⟨0x4c1, 0x4cd, 2, 0x4c2⟩,
    ⟨0x4d0, 0x52e, 2, 0x4d1⟩, ⟨0x531, 0x556, 1, 0x561⟩, ⟨0x1e00, 0x1e94, 2, 0x1e01⟩,
    ⟨0x1e9e, 0x1e9e, 1, 0xdf⟩, ⟨0x1ea0, 0x1efe, 2, 0x1ea1⟩, ⟨0x2070, 0x2070, 1, 0x30⟩,
    ⟨0x2074, 0x2079, 1, 0x34⟩, ⟨0x2080, 0x2089, 1, 0x30⟩, ⟨0x2460, 0x2468, 1, 0x31⟩,
    ⟨0x24b6, 0x24cf, 1, 0x61⟩, ⟨0x24d0, 0x24e9, 1, 0x61⟩, ⟨0x24ea, 0x24ea, 1, 0x30⟩,
    ⟨0x3002, 0x3002, 1, 0x2e⟩, ⟨0xff01, 0xff20, 1, 0x21⟩, ⟨0xff21, 0xff3a, 1, 0x61⟩,
    ⟨0xff3b, 0xff5e, 1, 0x5b⟩, ⟨0xff61, 0xff61, 1, 0x2e⟩]

/-- Characters that stand for several letters. -/
def ligatures : List (Nat × List Char) :=
  [(0x132, ['i', 'j']), (0x133, ['i', 'j']), (0x13f, ['l', '·']), (0x140, ['l', '·']),
    (0x149, ['ʼ', 'n']), (0xfb00, ['f', 'f']), (0xfb01, ['f', 'i']), (0xfb02, ['f', 'l']),
    (0xfb03, ['f', 'f', 'i']), (0xfb04, ['f', 'f', 'l']), (0xfb05, ['s', 't']),
    (0xfb06, ['s', 't'])]

/-- Characters that stand for nothing. -/
def ignoredRanges : List (Nat × Nat) :=
  [(0xad, 0xad), (0x34f, 0x34f), (0x200b, 0x200b), (0x2060, 0x2064), (0xfe00, 0xfe0f),
    (0xfeff, 0xfeff)]

/-- What a character of a domain name is taken for. -/
def mapped (char : Char) : List Char :=
  let code := char.toNat
  if ignoredRanges.any fun range => range.1 ≤ code && code ≤ range.2 then []
  else match ligatures.lookup code, mappedRuns.find? (·.contains code) with
    | some letters, _ => letters
    | none, some run => [Char.ofNat (run.image code)]
    | none, none => [char]

/-- ASCII characters that no domain name may have, beside controls and the space. -/
def forbiddenInDomain : List Char :=
  ['%', '#', '/', ':', '<', '>', '?', '@', '[', '\\', ']', '^', '|']

/-- Whether a domain name may have the character when all of it is mapped. -/
def isDomainChar (char : Char) : Bool :=
  if char.toNat < 0x80 then
    0x20 < char.toNat && char.toNat ≠ 0x7f && !forbiddenInDomain.contains char
  else !Text.isUnseen char

end ClassMetrics.Endpoint
