import ClassMetrics.ClassFile.Framed
import ClassMetrics.ClassFile.Grammar
import ClassMetrics.Text.ModifiedUtf8

/-!
Decoding a class file. The grammar is tried first. A file that it refuses for an attribute of an
unknown name is read by its frames instead; any other fault is final.
-/

namespace ClassMetrics.ClassFile

/-- The result of decoding, and the fault for which the grammar was given up. -/
structure Decoding where
  result : Except DecodeFault CompiledClass
  fallback? : Option GrammarFault

/-- Decodes what starts with the magic number, its texts being read by the given rule where the
grammar applies. -/
def decodeBody (decodeText : Bytes → String) (data : Bytes) : Decoding :=
  match Grammar.parse decodeText data with
  | .ok parsed => ⟨Grammar.resolve decodeText parsed, none⟩
  | .error (.unknownAttribute name) => ⟨Framed.decode data, some (.unknownAttribute name)⟩
  | .error fault => ⟨.error (.grammar fault), none⟩

/-- Decodes a class file with the given rule for texts, and says how. -/
def decodeWith (decodeText : Bytes → String) (data : Bytes) : Decoding :=
  match data.split? 4 with
  | none => ⟨.error (.truncated data.length), none⟩
  | some (front, _) =>
      if front.bigEndian = magicNumber then decodeBody decodeText data
      else ⟨.error (.magic front.bigEndian), none⟩

/-- Decodes a class file. -/
def decode (data : Bytes) : Except DecodeFault CompiledClass :=
  (decodeWith ModifiedUtf8.decode data).result

end ClassMetrics.ClassFile
