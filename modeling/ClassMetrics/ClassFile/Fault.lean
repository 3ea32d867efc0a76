import ClassMetrics.ClassFile.Constant
import ClassMetrics.Code.Reader
import ClassMetrics.Text.Quoted

/-!
Why a class file cannot be decoded, and the one wording of each reason.
-/

namespace ClassMetrics

/-- Why bytes do not follow the grammar of class files. -/
inductive GrammarFault where
  | numberPastEnd (position length : Nat)
  | blockPastEnd (stop length : Nat)
  | trailing (length position : Nat)
  | constantTag (tag : Nat)
  | noConstant (index : Nat)
  | notText (constant : ClassFile.Constant)
  | unknownAttribute (name : String)
  | elementTag (tag : Nat)
  | targetType (type : Nat)
  | frameType (type : Nat)
  | verificationTag (tag : Nat)
  deriving DecidableEq, Repr

def GrammarFault.message (fault : GrammarFault) : String :=
  "I/O Error: " ++ match fault with
  | .numberPastEnd position length =>
      s!"overflow : attempt to read from {position} whereas len is {length}"
  | .blockPastEnd stop length => s!"Index out of bounds: {stop} of {length}"
  | .trailing length position =>
      s!"Not all was read : data.len() is {length}, start_from is {position}"
  | .constantTag tag => s!"unmatched tag: {tag}"
  | .noConstant index => s!"element not found at index {index}"
  | .notText constant => "element type is not Uint8 but " ++ constant.text
  | .unknownAttribute name => "unmatched attribute: " ++ name
  | .elementTag tag => s!"Unsupported element tag: {tag}"
  | .targetType type => s!"Invalid target_type: {type}"
  | .frameType type => s!"Unsupported frame_type: {type}"
  | .verificationTag tag => s!"tag {tag} is not valid"

/-- What a constant was needed for. -/
inductive ConstantRole where
  | className
  | text
  deriving DecidableEq, Repr

def ConstantRole.word : ConstantRole → String
  | .className => "class"
  | .text => "utf8"

/-- Why a class file cannot be decoded. -/
inductive DecodeFault where
  | truncated (offset : Nat)
  | magic (found : Nat)
  | constant (index : Nat) (role : ConstantRole)
  | unsupportedConstant (tag : Nat)
  | descriptor (text : String)
  | code (fault : CodeFault)
  | grammar (fault : GrammarFault)
  deriving DecidableEq, Repr

/-- Eight lower-case hexadecimal digits. -/
def hexWord (word : Nat) : String :=
  let digits := Nat.toDigits 16 word
  String.ofList (List.replicate (8 - digits.length) '0' ++ digits)

def CodeFault.message (fault : CodeFault) : String :=
  s!"invalid bytecode at offset {fault.offset}: " ++ fault.reason.message

def DecodeFault.message : DecodeFault → String
  | .truncated offset => s!"class file truncated at byte {offset}"
  | .magic found => "invalid class file magic 0x" ++ hexWord found
  | .constant index role => s!"constant pool entry #{index} is not a valid {role.word} entry"
  | .unsupportedConstant tag => s!"unsupported constant pool tag {tag}"
  | .descriptor text => "invalid method descriptor " ++ Text.quoted text
  | .code fault => fault.message
  | .grammar fault => "malformed class file: " ++ fault.message

end ClassMetrics
