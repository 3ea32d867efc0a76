import ClassMetrics.Archive.Bits

/-!
Decompression of deflated data: blocks of literal bytes and of copies from what has been written
before, in fixed or in transmitted prefix codes.
-/

namespace ClassMetrics.Archive

/-- The shortest copy of each length symbol, and the number of bits that add to it. -/
def copyLengths : Array (Nat × Nat) :=
  #[(3, 0), (4, 0), (5, 0), (6, 0), (7, 0), (8, 0), (9, 0), (10, 0), (11, 1), (13, 1), (15, 1),
    (17, 1), (19, 2), (23, 2), (27, 2), (31, 2), (35, 3), (43, 3), (51, 3), (59, 3), (67, 4),
    (83, 4), (99, 4), (115, 4), (131, 5), (163, 5), (195, 5), (227, 5), (258, 0)]

/-- The least distance of each distance symbol, and the number of bits that add to it. -/
def copyDistances : Array (Nat × Nat) :=
  #[(1, 0), (2, 0), (3, 0), (4, 0), (5, 1), (7, 1), (9, 2), (13, 2), (17, 3), (25, 3), (33, 4),
    (49, 4), (65, 5), (97, 5), (129, 6), (193, 6), (257, 7), (385, 7), (513, 8), (769, 8),
    (1025, 9), (1537, 9), (2049, 10), (3073, 10), (4097, 11), (6145, 11), (8193, 12), (12289, 12),
    (16385, 13), (24577, 13)]

/-- The symbols of the code for code lengths, in the order in which their own lengths are sent. -/
def lengthOrder : List Nat :=
  [16, 17, 18, 0, 8, 7, 9, 6, 10, 5, 11, 4, 12, 3, 13, 2, 14, 1, 15]

def fixedLiterals : PrefixCode :=
  .ofLengths (List.replicate 144 8 ++ List.replicate 112 9 ++ List.replicate 24 7 ++
    List.replicate 8 8)

def fixedDistances : PrefixCode :=
  .ofLengths (List.replicate 30 5)

/-- A number from a table of bases and added bits. -/
def tabled? (table : Array (Nat × Nat)) (symbol : Nat) (bits : Bits) : Option (Nat × Bits) := do
  let (base, added) ← table[symbol]?
  let (value, rest) ← takeBits? added bits
  return (base + value, rest)

theorem tabled?_length {table : Array (Nat × Nat)} {symbol value : Nat} {bits rest : Bits}
    (h : tabled? table symbol bits = some (value, rest)) : rest.length ≤ bits.length := by
  simp only [tabled?, bind, Option.bind_eq_some_iff, Prod.exists, pure, Option.some.injEq,
    Prod.mk.injEq] at h
  obtain ⟨_, added, _, _, after, hbits, _, rfl⟩ := h
  have := takeBits?_length hbits
  omega

/-- The length and the distance of a copy, from its length symbol on. -/
def copyStart? (distances : PrefixCode) (symbol : Nat) (bits : Bits) :
    Option ((Nat × Nat) × Bits) := do
  let (length, afterLength) ← tabled? copyLengths symbol bits
  let (distanceSymbol, afterSymbol) ← distances.decode? afterLength
  let (distance, rest) ← tabled? copyDistances distanceSymbol afterSymbol
  return ((length, distance), rest)

theorem copyStart?_length {distances : PrefixCode} {symbol : Nat} {copy : Nat × Nat}
    {bits rest : Bits} (h : copyStart? distances symbol bits = some (copy, rest)) :
    rest.length ≤ bits.length := by
  simp only [copyStart?, bind, Option.bind_eq_some_iff, Prod.exists, pure, Option.some.injEq,
    Prod.mk.injEq] at h
  obtain ⟨_, _, hlength, _, _, hsymbol, _, after, hdistance, _, rfl⟩ := h
  have := tabled?_length hlength
  have := PrefixCode.decode?_length hsymbol
  have := tabled?_length hdistance
  omega

/-- Appends bytes that stand the given distance before the end, one after another. -/
def copyBack (written : Array UInt8) (distance : Nat) : Nat → Array UInt8
  | 0 => written
  | count + 1 =>
      copyBack (written.push (written[written.size - distance]?.getD 0)) distance count

/-- The symbol that ends a block. Lesser ones are bytes, greater ones start a copy. -/
def endOfBlock : Nat := 256

/-- One symbol of a block: what has been written after it, and whether it ends the block. -/
def symbolStep? (literals distances : PrefixCode) (written : Array UInt8) (bits : Bits) :
    Option ((Array UInt8 × Bool) × Bits) := do
  let (symbol, rest) ← literals.decode? bits
  if symbol < endOfBlock then
    return ((written.push symbol.toUInt8, false), rest)
  else if symbol = endOfBlock then
    return ((written, true), rest)
  else
    let ((length, distance), after) ← copyStart? distances (symbol - endOfBlock - 1) rest
    if distance ≤ written.size then
      return ((copyBack written distance length, false), after)
    else
      none

theorem symbolStep?_length {literals distances : PrefixCode} {written : Array UInt8}
    {result : Array UInt8 × Bool} {bits rest : Bits}
    (h : symbolStep? literals distances written bits = some (result, rest)) :
    rest.length < bits.length := by
  simp only [symbolStep?, bind, Option.bind_eq_some_iff, Prod.exists] at h
  obtain ⟨symbol, after, hdecode, h⟩ := h
  have hsymbol := PrefixCode.decode?_length hdecode
  split at h
  · simp only [pure, Option.some.injEq, Prod.mk.injEq] at h
    rw [← h.2]
    exact hsymbol
  · split at h
    · simp only [pure, Option.some.injEq, Prod.mk.injEq] at h
      rw [← h.2]
      exact hsymbol
    · simp only [Option.bind_eq_some_iff, Prod.exists] at h
      obtain ⟨length, distance, next, hcopy, h⟩ := h
      have hnext := copyStart?_length hcopy
      split at h
      · simp only [pure, Option.some.injEq, Prod.mk.injEq] at h
        rw [← h.2]
        omega
      · cases h

/-- The literals and copies of a block, up to its end symbol. -/
def compressed? (literals distances : PrefixCode) (written : Array UInt8) (bits : Bits) :
    Option (Array UInt8 × Bits) :=
  match _h : symbolStep? literals distances written bits with
  | none => none
  | some ((written, true), rest) => some (written, rest)
  | some ((written, false), rest) => compressed? literals distances written rest
termination_by bits.length
decreasing_by exact symbolStep?_length _h

theorem compressed?_length {literals distances : PrefixCode} {written result : Array UInt8}
    {bits rest : Bits} (h : compressed? literals distances written bits = some (result, rest)) :
    rest.length ≤ bits.length := by
  fun_induction compressed? literals distances written bits with
  | case1 => cases h
  | case2 written bits written' after hstep =>
      have hshorter := symbolStep?_length hstep
      simp only [Option.some.injEq, Prod.mk.injEq] at h
      rw [← h.2]
      omega
  | case3 written bits written' after hstep ih =>
      have hshorter := symbolStep?_length hstep
      have hrest := ih h
      omega

/-- The code lengths that a symbol stands for, the latest length being given: a length itself, the
latest one again, or zeros. -/
def lengthRun? (code : PrefixCode) (latest? : Option Nat) (bits : Bits) :
    Option (List Nat × Bits) := do
  let (symbol, rest) ← code.decode? bits
  if symbol < 16 then
    return ([symbol], rest)
  else
    let (repeated?, least, width) :=
      if symbol = 16 then (latest?, 3, 2)
      else if symbol = 17 then (some 0, 3, 3)
      else (some 0, 11, 7)
    let repeated ← repeated?
    let (more, after) ← takeBits? width rest
    return (List.replicate (least + more) repeated, after)

theorem lengthRun?_length {code : PrefixCode} {latest? : Option Nat} {run : List Nat}
    {bits rest : Bits} (h : lengthRun? code latest? bits = some (run, rest)) :
    rest.length < bits.length := by
  simp only [lengthRun?, bind, Option.bind_eq_some_iff, Prod.exists] at h
  obtain ⟨symbol, after, hdecode, h⟩ := h
  have hsymbol := PrefixCode.decode?_length hdecode
  split at h
  · simp only [pure, Option.some.injEq, Prod.mk.injEq] at h
    rw [← h.2]
    exact hsymbol
  · simp only [Option.bind_eq_some_iff, Prod.exists, pure, Option.some.injEq, Prod.mk.injEq] at h
    obtain ⟨_, _, _, next, hbits, _, rfl⟩ := h
    have hrun := takeBits?_length hbits
    omega

/-- Code lengths until the given number has been read, the latest one first. -/
def codeLengths? (code : PrefixCode) (needed : Nat) (lengths : List Nat) (bits : Bits) :
    Option (List Nat × Bits) :=
  if needed ≤ lengths.length then some (lengths, bits)
  else match _h : lengthRun? code lengths.head? bits with
    | none => none
    | some (run, rest) => codeLengths? code needed (run ++ lengths) rest
termination_by bits.length
decreasing_by exact lengthRun?_length _h

theorem codeLengths?_length {code : PrefixCode} {needed : Nat} {lengths result : List Nat}
    {bits rest : Bits} (h : codeLengths? code needed lengths bits = some (result, rest)) :
    rest.length ≤ bits.length := by
  fun_induction codeLengths? code needed lengths bits with
  | case1 =>
      simp only [Option.some.injEq, Prod.mk.injEq] at h
      exact h.2 ▸ Nat.le_refl _
  | case2 => cases h
  | case3 lengths bits _ run after hrun ih =>
      have hshorter := lengthRun?_length hrun
      have hrest := ih h
      omega

/-- Numbers of three bits each. -/
def triples? : Nat → Bits → Option (List Nat × Bits)
  | 0, bits => some ([], bits)
  | count + 1, bits => do
      let (first, rest) ← takeBits? 3 bits
      let (others, after) ← triples? count rest
      return (first :: others, after)

theorem triples?_length {count : Nat} {values : List Nat} {bits rest : Bits}
    (h : triples? count bits = some (values, rest)) : rest.length ≤ bits.length := by
  induction count generalizing values bits with
  | zero =>
      simp only [triples?, Option.some.injEq, Prod.mk.injEq] at h
      exact h.2 ▸ Nat.le_refl _
  | succ count ih =>
      simp only [triples?, bind, Option.bind_eq_some_iff, Prod.exists, pure, Option.some.injEq,
        Prod.mk.injEq] at h
      obtain ⟨_, after, hfirst, _, next, hothers, _, rfl⟩ := h
      have hshorter := takeBits?_length hfirst
      have hrest := ih hothers
      omega

/-- The code for code lengths, given the lengths of its own words in the order they are sent. -/
def lengthCode (sent : List Nat) : PrefixCode :=
  let pairs := lengthOrder.zip sent
  .ofLengths ((List.range lengthOrder.length).map fun symbol => (pairs.lookup symbol).getD 0)

/-- The codes that stand in front of a block: for literals and lengths, and for distances. -/
def sentCodes? (bits : Bits) : Option ((PrefixCode × PrefixCode) × Bits) := do
  let (literalsOver, rest) ← takeBits? 5 bits
  let (distancesOver, rest) ← takeBits? 5 rest
  let (sentOver, rest) ← takeBits? 4 rest
  let (sent, rest) ← triples? (sentOver + 4) rest
  let literals := literalsOver + endOfBlock + 1
  let needed := literals + distancesOver + 1
  let (latestFirst, rest) ← codeLengths? (lengthCode sent) needed [] rest
  let lengths := latestFirst.reverse
  if lengths.length = needed then
    return ((.ofLengths (lengths.take literals), .ofLengths (lengths.drop literals)), rest)
  else
    none

theorem sentCodes?_length {codes : PrefixCode × PrefixCode} {bits rest : Bits}
    (h : sentCodes? bits = some (codes, rest)) : rest.length ≤ bits.length := by
  simp only [sentCodes?, bind, Option.bind_eq_some_iff, Prod.exists] at h
  obtain ⟨_, _, hliterals, _, _, hdistances, _, _, hsent, _, _, htriples, _, _, hlengths, h⟩ := h
  have := takeBits?_length hliterals
  have := takeBits?_length hdistances
  have := takeBits?_length hsent
  have := triples?_length htriples
  have := codeLengths?_length hlengths
  split at h
  · simp only [pure, Option.some.injEq, Prod.mk.injEq] at h
    rw [← h.2]
    omega
  · cases h

/-- Plain bytes. -/
def plainBytes? : Nat → Array UInt8 → Bits → Option (Array UInt8 × Bits)
  | 0, written, bits => some (written, bits)
  | count + 1, written, bits => do
      let (byte, rest) ← takeBits? 8 bits
      plainBytes? count (written.push byte.toUInt8) rest

theorem plainBytes?_length {count : Nat} {written result : Array UInt8} {bits rest : Bits}
    (h : plainBytes? count written bits = some (result, rest)) : rest.length ≤ bits.length := by
  induction count generalizing written bits with
  | zero =>
      simp only [plainBytes?, Option.some.injEq, Prod.mk.injEq] at h
      exact h.2 ▸ Nat.le_refl _
  | succ count ih =>
      simp only [plainBytes?, bind, Option.bind_eq_some_iff, Prod.exists] at h
      obtain ⟨_, after, hbyte, h⟩ := h
      have hshorter := takeBits?_length hbyte
      have hrest := ih h
      omega

/-- A block of plain bytes, which starts at the next byte. -/
def stored? (written : Array UInt8) (bits : Bits) : Option (Array UInt8 × Bits) := do
  let (_, rest) ← takeBits? (bits.length % 8) bits
  let (length, rest) ← takeBits? 16 rest
  let (complement, rest) ← takeBits? 16 rest
  if length + complement = 0xffff then
    plainBytes? length written rest
  else
    none

theorem stored?_length {written result : Array UInt8} {bits rest : Bits}
    (h : stored? written bits = some (result, rest)) : rest.length ≤ bits.length := by
  simp only [stored?, bind, Option.bind_eq_some_iff, Prod.exists] at h
  obtain ⟨_, _, hskip, _, _, hlength, _, _, hcomplement, h⟩ := h
  have := takeBits?_length hskip
  have := takeBits?_length hlength
  have := takeBits?_length hcomplement
  split at h
  · have := plainBytes?_length h
    omega
  · cases h

/-- A block, from behind its type on. -/
def block? (type : Nat) (written : Array UInt8) (bits : Bits) : Option (Array UInt8 × Bits) :=
  match type with
  | 0 => stored? written bits
  | 1 => compressed? fixedLiterals fixedDistances written bits
  | 2 => do
      let ((literals, distances), rest) ← sentCodes? bits
      compressed? literals distances written rest
  | _ => none

theorem block?_length {type : Nat} {written result : Array UInt8} {bits rest : Bits}
    (h : block? type written bits = some (result, rest)) : rest.length ≤ bits.length := by
  unfold block? at h
  split at h
  · exact stored?_length h
  · exact compressed?_length h
  · simp only [bind, Option.bind_eq_some_iff, Prod.exists] at h
    obtain ⟨_, _, after, hcodes, h⟩ := h
    have := sentCodes?_length hcodes
    have := compressed?_length h
    omega
  · cases h

/-- Blocks up to the one that is marked as the last. What follows it is not looked at. -/
def blocks? (written : Array UInt8) (bits : Bits) : Option (Array UInt8) :=
  match _h : takeBits? 3 bits with
  | none => none
  | some (header, rest) =>
      match _hblock : block? (header / 2) written rest with
      | none => none
      | some (written, after) => if header % 2 = 1 then some written else blocks? written after
termination_by bits.length
decreasing_by
  have hheader := takeBits?_length _h
  have hblock := block?_length _hblock
  omega

/-- The data that was deflated to the given bytes. -/
def inflate? (bytes : Bytes) : Option Bytes :=
  (blocks? #[] (bitsOf bytes)).map Array.toList

end ClassMetrics.Archive
