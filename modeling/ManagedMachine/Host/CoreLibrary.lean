import ManagedMachine.Host.Type

/-!
The core library, which every domain starts with: the object and value types, strings, arrays,
attributes, the exceptions that the engine raises, and the primitives.
-/

set_option autoImplicit false
set_option relaxedAutoImplicit false

namespace ManagedMachine.CoreLibrary

def moduleName : String := "System.Private.CoreLib"

def objectName : String := "System.Object"
def valueTypeName : String := "System.ValueType"
def stringName : String := "System.String"
def arrayName : String := "System.Array"
def attributeName : String := "System.Attribute"
def exceptionName : String := "System.Exception"

/-- Exceptions that the engine raises by itself. -/
inductive Fault where
  | nullReference
  | divideByZero
  | invalidCast
  | indexOutOfRange
  | overflow

def Fault.typeName : Fault → String
  | nullReference => "System.NullReferenceException"
  | divideByZero => "System.DivideByZeroException"
  | invalidCast => "System.InvalidCastException"
  | indexOutOfRange => "System.IndexOutOfRangeException"
  | overflow => "System.OverflowException"

def method (name : String) (flags : MethodFlags) (params : List String) (ret : String)
    (code : HostCall → DomainProgram Value) : HostMethod :=
  ⟨name, params, ret, flags, [], code⟩

/-- A constructor, which only makes an object when it runs for none. -/
def constructor (params : List String) (data : HostCall → Except Error HostData) : HostMethod :=
  method constructorName MethodKind.constructor.flags params Primitive.void.fullName fun call => do
    let d ← data call
    match call.receiver with
    | some _ => pure .null
    | none => call.construct d

def withMethods (name : String) (methods : List HostMethod) : HostType :=
  { HostType.plain .class_ "System" name with methods }

/-- The number of characters of a string receiver; other receivers count as empty. -/
def stringLength (call : HostCall) : DomainProgram Value := do
  let this ← call.this
  let length := (this.string?.map String.length).getD 0
  if length < 0x80000000 then pure (.int32 (Int32.ofNat length)) else throw (.stack .stringTooLong)

def concat (call : HostCall) : DomainProgram Value :=
  pure (.string (String.join (call.args.filterMap Value.string?)))

def stringType : HostType :=
  withMethods "String"
    [method "get_Length" MethodKind.instance_.flags [] Primitive.int32.fullName stringLength,
      method "Concat" MethodKind.static.flags [stringName, stringName] stringName concat]

def exceptionMessage (call : HostCall) : DomainProgram Value := do
  match ← call.this with
  | .object id =>
    let found ← (Host.data id : HostProgram _)
    pure (((found.bind HostData.message?).map Value.string).getD .null)
  | _ => pure .null

def exceptionType (name base : String) : HostType :=
  { withMethods name
      [constructor [] fun _ => .ok (.exception none),
        constructor [stringName] fun call => do
          let message ← call.arg 0
          pure (.exception (some (message.string?.getD ""))),
        method "get_Message" MethodKind.instance_.flags [] stringName exceptionMessage] with
    base := some base
    backing := some .exception
    default := some (.exception none) }

def derivedExceptions : List String :=
  ["NullReferenceException", "DivideByZeroException", "InvalidCastException",
    "IndexOutOfRangeException", "ArgumentException", "OverflowException"]

def primitiveType (p : Primitive) : HostType :=
  { HostType.plain .struct "System" p.name with primitive := some p }

def types : List HostType :=
  [{ withMethods "Object" [constructor [] fun _ => .ok .unit] with base := none },
    withMethods "ValueType" [], withMethods "Array" [], withMethods "Attribute" [], stringType,
    exceptionType "Exception" objectName] ++
  derivedExceptions.map (exceptionType · exceptionName) ++
  Primitive.all.map primitiveType

def library : HostModule := .ofTypes moduleName types

end ManagedMachine.CoreLibrary
