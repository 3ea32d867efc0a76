import ClassMetrics.Bytes

/-!
Readers of archives. A reader lists the entries of an archive in the order of its directory, opens
each of them and reads the content of those that are asked for; each of these steps may fail for a
reason of its own.
-/

namespace ClassMetrics

/-- An opened entry of an archive. -/
structure ArchiveEntry where
  name : String
  isDirectory : Bool
  content : Unit → Except String Bytes

structure ArchiveReader where
  /-- The entries of the archive in a file, each unless it cannot be opened. -/
  entries : Bytes → Except String (List (Except String ArchiveEntry))

end ClassMetrics
