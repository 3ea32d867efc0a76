import ClassMetrics.Archive.Crc32
import ClassMetrics.Archive.Inflate
import ClassMetrics.Archive.Reader
import ClassMetrics.Text.Utf8

/-!
Archives in the zip format. The directory stands at the end of the file and says where the entries
are; bytes may stand in front of the archive, in which case all its offsets are shifted. An entry
whose name comes again is one entry, with the place of the first and the content of the last.

Sizes and offsets have four bytes at most, and content is stored or deflated.
-/

namespace ClassMetrics.Archive

/-- Why an archive, or an entry of it, cannot be opened. -/
inductive ArchiveFault where
  | noEndRecord
  | commentLength
  | directoryOffset
  | noDirectory
  | directoryHeader
  | localHeader
  | encrypted
  | compressionMethod (method : Nat)
  deriving DecidableEq, Repr

def ArchiveFault.message : ArchiveFault → String
  | .noEndRecord => "invalid Zip archive: Could not find EOCD"
  | .commentLength => "invalid Zip archive: Invalid EOCD comment length"
  | .directoryOffset => "invalid Zip archive: Invalid CDFH offset in EOCD"
  | .noDirectory => "invalid Zip archive: No CDFH found"
  | .directoryHeader => "invalid Zip archive: Invalid Central Directory header"
  | .localHeader => "invalid Zip archive: Invalid local file header"
  | .encrypted => "unsupported Zip archive: Password required to decrypt file"
  | .compressionMethod method => s!"compression method not supported: {method}"

/-- Why the content of an opened entry cannot be read. -/
inductive ContentFault where
  | checksum
  | corrupt
  deriving DecidableEq, Repr

def ContentFault.message : ContentFault → String
  | .checksum => "Invalid checksum"
  | .corrupt => "corrupt deflate stream"

/-- An entry of the directory. The offset is that of the entry's own header in the file. -/
structure DirectoryEntry where
  name : String
  encrypted : Bool
  method : Nat
  checksum : Nat
  size : Nat
  offset : Nat
  deriving DecidableEq, Repr

/-- The content of an entry as it is kept. -/
structure PackedContent where
  deflated : Bool
  checksum : Nat
  data : Bytes

def endSignature : Bytes := [0x50, 0x4b, 0x05, 0x06]

def directorySignature : Bytes := [0x50, 0x4b, 0x01, 0x02]

def localSignature : Bytes := [0x50, 0x4b, 0x03, 0x04]

/-- Lengths of the records without their parts of varying length. -/
def endLength : Nat := 22
def directoryLength : Nat := 46
def localLength : Nat := 30

/-- The little-endian number of the given width at an offset of a record. -/
def numberAt (record : Bytes) (offset width : Nat) : Nat :=
  Bytes.littleEndian ((record.drop offset).take width)

/-- Upper half of the character set in which names are written that are not marked as UTF-8. -/
def upperCharacters : Array Char :=
  ("ÇüéâäàåçêëèïîìÄÅÉæÆôöòûùÿÖÜ¢£¥₧ƒáíóúñÑªº¿⌐¬½¼¡«»░▒▓│┤╡╢╖╕╣║╗╝╜╛┐└┴┬├─┼╞╟╚╔╩╦╠═╬╧╨╤╥╙╘╒╓╫╪┘┌█▄▌▐▀" ++
    "αßΓπΣσµτΦΘΩδ∞φε∩≡±≥≤⌠⌡÷≈°∙·√ⁿ²■ ").toList.toArray

def nameText (isUtf8 : Bool) (bytes : Bytes) : String :=
  if isUtf8 then Utf8.decodeLossy bytes
  else String.ofList <| bytes.map fun byte =>
    if byte < 0x80 then Char.ofNat byte.toNat
    else upperCharacters[byte.toNat - 0x80]?.getD Utf8.replacement

/-- The offsets from `offset` on at which a signature stands, with what stands there. -/
def occurrences (signature : Bytes) (offset : Nat) : Bytes → List (Nat × Bytes)
  | [] => []
  | byte :: rest =>
      let later := occurrences signature (offset + 1) rest
      if signature.isPrefixOf (byte :: rest) then (offset, byte :: rest) :: later else later

/-- Where the directory is: how many entries it has, where it starts, and by how much the offsets
in it are shifted. -/
structure DirectoryPlace where
  count : Nat
  start : Nat
  shift : Nat

/-- The directory that an end record points to. It starts at the first directory header from the
given offset on. -/
def placeOf (file : Bytes) (offset : Nat) (record : Bytes) : Except ArchiveFault DirectoryPlace :=
  let count := numberAt record 10 2
  let start := numberAt record 16 4
  if record.length < endLength + numberAt record 20 2 then .error .commentLength
  else if count = 0 then
    if start ≤ offset then .ok ⟨0, offset, offset - start⟩ else .error .directoryOffset
  else if offset ≤ start then .error .directoryOffset
  else
    match occurrences directorySignature start ((file.drop start).take (offset - start)) with
    | [] => .error .noDirectory
    | (found, _) :: _ => .ok ⟨count, found, found - start⟩

/-- The first usable directory among the end records given. If there is none, the fault is that of
the record looked at last. -/
def findPlace (file : Bytes) : List (Nat × Bytes) → Except ArchiveFault DirectoryPlace
  | [] => .error .noEndRecord
  | [(offset, record)] => placeOf file offset record
  | (offset, record) :: earlier =>
      match placeOf file offset record with
      | .ok place => .ok place
      | .error _ => findPlace file earlier

/-- Reads directory headers. -/
def readEntries (shift : Nat) : Nat → Bytes → Except ArchiveFault (List DirectoryEntry)
  | 0, _ => .ok []
  | count + 1, bytes => do
      unless directorySignature.isPrefixOf bytes do throw .directoryHeader
      let nameLength := numberAt bytes 28 2
      let extraLength := numberAt bytes 30 2
      let commentLength := numberAt bytes 32 2
      let body := bytes.drop directoryLength
      if body.length < nameLength + extraLength + commentLength then throw .directoryHeader
      let flags := numberAt bytes 8 2
      let entry : DirectoryEntry :=
        { name := nameText (flags.testBit 11) (body.take nameLength)
          encrypted := flags.testBit 0
          method := numberAt bytes 10 2
          checksum := numberAt bytes 16 4
          size := numberAt bytes 20 4
          offset := numberAt bytes 42 4 + shift }
      let others ← readEntries shift count (body.drop (nameLength + extraLength + commentLength))
      return entry :: others

/-- Adds an entry, in the place of one of the same name. -/
def mergeEntry (entries : List DirectoryEntry) (entry : DirectoryEntry) : List DirectoryEntry :=
  if entries.any (·.name == entry.name) then
    entries.map fun other => if other.name = entry.name then entry else other
  else
    entries ++ [entry]

/-- The entries of an archive, in the order of its directory. -/
def entriesOf (file : Bytes) : Except ArchiveFault (List DirectoryEntry) := do
  let candidates := (occurrences endSignature 0 file).filter fun (_, record) =>
    endLength ≤ record.length
  let place ← findPlace file candidates.reverse
  let entries ← readEntries place.shift place.count (file.drop place.start)
  return entries.foldl mergeEntry []

/-- Opens an entry. -/
def openEntry (file : Bytes) (entry : DirectoryEntry) : Except ArchiveFault PackedContent := do
  if entry.encrypted then throw .encrypted
  let record := file.drop entry.offset
  unless localSignature.isPrefixOf record do throw .localHeader
  let start := localLength + numberAt record 26 2 + numberAt record 28 2
  unless entry.method = 0 ∨ entry.method = 8 do throw (.compressionMethod entry.method)
  return ⟨entry.method = 8, entry.checksum, (record.drop start).take entry.size⟩

/-- The content of an opened entry, if its check value is right. -/
def PackedContent.unpack (packed : PackedContent) : Except ContentFault Bytes := do
  let content ←
    if packed.deflated then
      match inflate? packed.data with
      | some content => pure content
      | none => throw .corrupt
    else pure packed.data
  if (crc32 content).toNat = packed.checksum then return content else throw .checksum

/-- The name of a directory ends in a slash of either kind. -/
def isDirectoryName (name : String) : Bool :=
  name.endsWith "/" || name.endsWith "\\"

def openedEntry (file : Bytes) (entry : DirectoryEntry) : Except String ArchiveEntry :=
  match openEntry file entry with
  | .error fault => .error fault.message
  | .ok packed =>
      .ok
        { name := entry.name
          isDirectory := isDirectoryName entry.name
          content := fun _ => packed.unpack.mapError ContentFault.message }

/-- The reader of archives in the zip format. -/
def zipReader : ArchiveReader where
  entries file :=
    match entriesOf file with
    | .error fault => .error fault.message
    | .ok entries => .ok (entries.map (openedEntry file))

end ClassMetrics.Archive
