import ClassMetrics.Bytes
import ClassMetrics.Decimal.Text

/-!
The constants of a class file. Names are found through two of them: text, and references to a
class by the index of its name.
-/

namespace ClassMetrics.ClassFile

/-- A slot of the constant pool. Slot 0 and the slot behind a constant of eight bytes hold none. -/
inductive Constant where
  | empty
  | utf8 (bytes : Bytes)
  | integer (value : Int)
  | float (bits : Nat)
  | long (value : Int)
  | double (bits : Nat)
  | classRef (name : Nat)
  | string (index : Nat)
  | fieldRef (owner nameAndType : Nat)
  | methodRef (owner nameAndType : Nat)
  | interfaceMethodRef (owner nameAndType : Nat)
  | nameAndType (name descriptor : Nat)
  | methodHandle (kind reference : Nat)
  | methodType (descriptor : Nat)
  | dynamic (bootstrap nameAndType : Nat)
  | invokeDynamic (bootstrap nameAndType : Nat)
  | module (name : Nat)
  | package (name : Nat)
  deriving DecidableEq, Repr

/-- How a constant's number is written: without an exponent from 0.0001 on, below 10^16. -/
def constantFloat : Decimal.FloatStyle :=
  ⟨-4, 15, false, .up, "NaN", "inf"⟩

/-- A constant's kind and named parts, as faults show it. -/
def shown (kind : String) (parts : List (String × String)) : String :=
  kind ++ " \x7b " ++ ", ".intercalate (parts.map fun (name, value) => name ++ ": " ++ value) ++
    " \x7d"

def Constant.text : Constant → String
  | .empty => "Empty"
  | .utf8 _ => "Utf8"
  | .integer value => shown "Integer" [("value", toString value)]
  | .float bits => shown "Float" [("value", constantFloat.text (Decimal.single.value bits))]
  | .long value => shown "Long" [("value", toString value)]
  | .double bits => shown "Double" [("value", constantFloat.text (Decimal.double.value bits))]
  | .classRef name => shown "Class" [("name_index", toString name)]
  | .string index => shown "String" [("string_index", toString index)]
  | .fieldRef owner member => memberText "Fieldref" owner member
  | .methodRef owner member => memberText "Methodref" owner member
  | .interfaceMethodRef owner member => memberText "InterfaceMethodref" owner member
  | .nameAndType name descriptor =>
      shown "NameAndType" [("name_index", toString name), ("descriptor_index", toString descriptor)]
  | .methodHandle kind reference =>
      shown "MethodHandle"
        [("reference_kind", toString kind), ("reference_index", toString reference)]
  | .methodType descriptor => shown "MethodType" [("descriptor_index", toString descriptor)]
  | .dynamic bootstrap member => dynamicText "Dynamic" bootstrap member
  | .invokeDynamic bootstrap member => dynamicText "InvokeDynamic" bootstrap member
  | .module name => shown "Module" [("name_index", toString name)]
  | .package name => shown "Package" [("name_index", toString name)]
where
  memberText (kind : String) (owner member : Nat) : String :=
    shown kind [("class_index", toString owner), ("name_and_type_index", toString member)]
  dynamicText (kind : String) (bootstrap member : Nat) : String :=
    shown kind
      [("bootstrap_method_attr_index", toString bootstrap),
        ("name_and_type_index", toString member)]

/-- A constant as far as names are concerned. -/
inductive NameConstant where
  | text (value : String)
  | classRef (name : Nat)
  | other
  deriving DecidableEq, Repr

/-- What a constant is to names, its text being read by the given rule. -/
def Constant.naming (decodeText : Bytes → String) : Constant → NameConstant
  | .utf8 bytes => .text (decodeText bytes)
  | .classRef name => .classRef name
  | _ => .other

end ClassMetrics.ClassFile
