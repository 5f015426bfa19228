import CallGuard.Ir.Name
import CallGuard.Ir.Ty

/-!
How types are written. The written form of a type is what reports hold, so it is
fixed to the last blank.

* `Ty.print`: the characters of a type.
* `Ty.text`, `FunctionType.text`: the written form as a string.
-/

namespace CallGuard.Ir

namespace Ty

/-- The address space of a pointer, which is written only where it is not zero. -/
def printSpace (space : UInt32) : List Char :=
  if space = 0 then []
  else " addrspace(".toList ++ Text.decimal space.toNat ++ [')']

mutual

/-- The characters of a type. -/
def print : Ty → List Char
  | .keyword kind => kind.keyword.toList
  | .int bits => 'i' :: Text.decimal bits.toNat
  | .ptr space => "ptr".toList ++ printSpace space
  | .pointer pointee space => pointee.print ++ printSpace space ++ ['*']
  | .array length element =>
    '[' :: (Text.decimal length.toNat ++ " x ".toList ++ element.print ++ [']'])
  | .vector length scalable element =>
    '<' :: ((if scalable then "vscale x ".toList else []) ++ Text.decimal length.toNat ++
      " x ".toList ++ element.print ++ ['>'])
  | .struct packed fields =>
    let body := match fields with
      | [] => ['\x7b', '\x7d']
      | field :: rest => '\x7b' :: ' ' :: (field.print ++ printAfterComma rest ++ [' ', '\x7d'])
    if packed then '<' :: (body ++ ['>']) else body
  | .named name => '%' :: Name.print name.toList
  | .numbered number => '%' :: Text.decimal number.toNat
  | .func ret params variadic =>
    let list := match params with
      | [] => if variadic then "...".toList else []
      | param :: rest =>
        param.print ++ printAfterComma rest ++ (if variadic then ", ...".toList else [])
    ret.print ++ [' ', '('] ++ list ++ [')']
  | .target name types ints =>
    "target(".toList ++ Name.printQuoted name.toList ++ printAfterComma types ++
      ints.flatMap (fun n => [',', ' '] ++ Text.decimal n.toNat) ++ [')']

/-- The characters of types that each follow a comma. -/
def printAfterComma : List Ty → List Char
  | [] => []
  | t :: ts => [',', ' '] ++ t.print ++ printAfterComma ts

end

/-- The written form of a type. -/
def text (t : Ty) : String :=
  String.ofList t.print

end Ty

/-- The written form of a function type. -/
def FunctionType.text (f : FunctionType) : String :=
  f.toTy.text

end CallGuard.Ir
