import ClassMetrics.Archive.Reader
import ClassMetrics.ClassFile.Fault
import ClassMetrics.Files.Tree

/-!
The class files of an input, in the order in which they are taken in. An archive lists its entries
in the order of its directory. A directory lists its files by their paths, each subdirectory at its
own place. What cannot be read stands in the listing as a fault.
-/

namespace ClassMetrics

/-- Why an input cannot be scanned to its end. -/
inductive ScanFault where
  | openInput (path : String) (cause : IoFault)
  | openArchive (path cause : String)
  | readEntry (path name cause : String)
  | readDirectory (path : String) (step : ListingStep) (cause : IoFault)
  | readFile (path : String) (cause : IoFault)
  | decode (label : String) (cause : DecodeFault)

namespace ScanFault

/-- What was being done. -/
def context : ScanFault → String
  | .openInput path _ => "failed to open " ++ path
  | .openArchive path _ => "failed to read " ++ path
  | .readEntry path name _ => "failed to read " ++ path ++ ":" ++ name
  | .readDirectory path .start _ => "failed to read directory " ++ path
  | .readDirectory path .entry _ => "failed to read entry under " ++ path
  | .readFile path _ => "failed to read " ++ path
  | .decode label _ => "failed to decode " ++ label

/-- What stood in the way. -/
def cause : ScanFault → String
  | .openInput _ cause | .readDirectory _ _ cause | .readFile _ cause => cause.message
  | .openArchive _ cause | .readEntry _ _ cause => cause
  | .decode _ cause => cause.message

def message (fault : ScanFault) : String :=
  fault.context ++ ": " ++ fault.cause

end ScanFault

/-- The content of a class file, with the label by which messages refer to it. -/
structure ClassEntry where
  label : String
  data : Bytes

abbrev Listing := List (Except ScanFault ClassEntry)

namespace Listing

def isClassName (name : String) : Bool :=
  name.endsWith ".class"

/-- An entry of an archive. Every entry is opened, but only class files are read. -/
def itemOf? (path : String) :
    Except String ArchiveEntry → Option (Except ScanFault ClassEntry)
  | .error fault => some (.error (.openArchive path fault))
  | .ok entry =>
      if entry.isDirectory || !isClassName entry.name then none
      else match entry.content () with
        | .ok data => some (.ok ⟨path ++ ":" ++ entry.name, data⟩)
        | .error fault => some (.error (.readEntry path entry.name fault))

def ofArchive (reader : ArchiveReader) (path : String) (file : Bytes) : Listing :=
  match reader.entries file with
  | .error fault => [.error (.openArchive path fault)]
  | .ok entries => entries.filterMap (itemOf? path)

/-- Joins the parts that the entries of a directory contribute, in the order of their paths. -/
def joinParts (parts : List (String × Listing)) : Listing :=
  (parts.mergeSort fun part other => decide (part.1 ≤ other.1)).flatMap Prod.snd

mutual

/-- What stands under the given path in a directory. -/
def ofTree (path : String) : Tree → Listing
  | .file content => if isClassName path then [.ok ⟨path, content⟩] else []
  | .unreadable fault => if isClassName path then [.error (.readFile path fault)] else []
  | .unlistable step fault => [.error (.readDirectory path step fault)]
  | .directory entries => joinParts (partsOf path entries)

/-- The paths of the entries of the directory under the given path, and what each contributes. -/
def partsOf (path : String) : List (String × Tree) → List (String × Listing)
  | [] => []
  | (name, tree) :: rest =>
      (joinPath path name, ofTree (joinPath path name) tree) :: partsOf path rest

end

/-- What is found under a path: a directory to be walked, or else an archive. -/
def ofInput (reader : ArchiveReader) (path : String) : Except IoFault Tree → Listing
  | .ok (.directory entries) => ofTree path (.directory entries)
  | .ok (.unlistable step fault) => ofTree path (.unlistable step fault)
  | .ok (.file content) => ofArchive reader path content
  | .ok (.unreadable fault) | .error fault => [.error (.openInput path fault)]

end Listing

end ClassMetrics
