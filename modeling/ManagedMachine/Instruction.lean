import ManagedMachine.Error

/-!
The instruction set. Bodies are lists of decoded instructions; a branch target is the position of an
instruction, and operands that refer to metadata are tokens of the module that owns the body.
-/

set_option autoImplicit false
set_option relaxedAutoImplicit false

namespace ManagedMachine

/-- The operations on two numbers. -/
inductive BinaryOp where
  | add
  | sub
  | mul
  | div
  | rem
  | and
  | or
  | xor
  | shl
  | shr
  deriving DecidableEq

/-- The comparisons that a branch can make. -/
inductive Comparison where
  | eq
  | ne
  | lt
  | le
  | gt
  | ge
  deriving DecidableEq

/-- What a `conv` instruction converts to. -/
inductive Conversion where
  | int32
  | int64
  | single
  | double
  deriving DecidableEq

/-- How an instruction passes control on. -/
inductive Flow where
  | sequential
  | branch
  | conditionalBranch
  | leave
  | call
  | ret
  | throw
  | endFinally
  deriving DecidableEq

/-- The instructions of the machine with their operands. -/
inductive Instruction where
  | nop
  /-- A stop for an attached debugger. -/
  | breakpoint
  | constInt32 (v : Int32)
  | constInt64 (v : Int64)
  | constSingle (v : Float32)
  | constDouble (v : Float)
  | loadNull
  | loadString (token : Token)
  | loadArg (n : UInt16)
  | loadArgAddr (n : UInt16)
  | storeArg (n : UInt16)
  | loadLocal (n : UInt16)
  | loadLocalAddr (n : UInt16)
  | storeLocal (n : UInt16)
  | dup
  | pop
  | binary (op : BinaryOp)
  | neg
  | compareEq
  | compareGt
  | compareLt
  | convert (target : Conversion)
  | branch (target : UInt32)
  | branchTrue (target : UInt32)
  | branchFalse (target : UInt32)
  | branchOn (op : Comparison) (target : UInt32)
  | leave (target : UInt32)
  | endFinally
  | call (token : Token)
  | callVirtual (token : Token)
  | newObject (token : Token)
  | ret
  | loadField (token : Token)
  | loadFieldAddr (token : Token)
  | storeField (token : Token)
  | loadStatic (token : Token)
  | loadStaticAddr (token : Token)
  | storeStatic (token : Token)
  | newArray (token : Token)
  | loadLength
  | loadElement
  | loadElementAddr (token : Token)
  | storeElement
  | loadObject (token : Token)
  | storeObject (token : Token)
  | initObject (token : Token)
  | box (token : Token)
  | unboxAny (token : Token)
  | castClass (token : Token)
  | isInstance (token : Token)
  | throw
  | rethrow
  deriving DecidableEq

def BinaryOp.mnemonic : BinaryOp → String
  | add => "add"
  | sub => "sub"
  | mul => "mul"
  | div => "div"
  | rem => "rem"
  | and => "and"
  | or => "or"
  | xor => "xor"
  | shl => "shl"
  | shr => "shr"

/-- The name of an operation in a diagnostic. -/
def BinaryOp.title (op : BinaryOp) : String := op.mnemonic.capitalize

def Comparison.mnemonic : Comparison → String
  | eq => "beq"
  | ne => "bne"
  | lt => "blt"
  | le => "ble"
  | gt => "bgt"
  | ge => "bge"

def Conversion.mnemonic : Conversion → String
  | int32 => "conv_i4"
  | int64 => "conv_i8"
  | single => "conv_r4"
  | double => "conv_r8"

def Flow.name : Flow → String
  | sequential => "Sequential"
  | branch => "Branch"
  | conditionalBranch => "ConditionalBranch"
  | leave => "Leave"
  | call => "Call"
  | ret => "Return"
  | throw => "Throw"
  | endFinally => "EndFinally"

namespace Instruction

def mnemonic : Instruction → String
  | nop => "nop"
  | breakpoint => "break"
  | constInt32 _ => "ldc_i4"
  | constInt64 _ => "ldc_i8"
  | constSingle _ => "ldc_r4"
  | constDouble _ => "ldc_r8"
  | loadNull => "ld_null"
  | loadString _ => "ld_str"
  | loadArg _ => "ld_arg"
  | loadArgAddr _ => "ld_arg_a"
  | storeArg _ => "st_arg"
  | loadLocal _ => "ld_loc"
  | loadLocalAddr _ => "ld_loc_a"
  | storeLocal _ => "st_loc"
  | dup => "dup"
  | pop => "pop"
  | binary op => op.mnemonic
  | neg => "neg"
  | compareEq => "ceq"
  | compareGt => "cgt"
  | compareLt => "clt"
  | convert target => target.mnemonic
  | branch _ => "br"
  | branchTrue _ => "br_true"
  | branchFalse _ => "br_false"
  | branchOn op _ => op.mnemonic
  | leave _ => "leave"
  | endFinally => "end_finally"
  | call _ => "call"
  | callVirtual _ => "call_virt"
  | newObject _ => "new_obj"
  | ret => "ret"
  | loadField _ => "ld_fld"
  | loadFieldAddr _ => "ld_fld_a"
  | storeField _ => "st_fld"
  | loadStatic _ => "ld_s_fld"
  | loadStaticAddr _ => "ld_s_fld_a"
  | storeStatic _ => "st_s_fld"
  | newArray _ => "new_arr"
  | loadLength => "ld_len"
  | loadElement => "ld_elem"
  | loadElementAddr _ => "ld_elem_a"
  | storeElement => "st_elem"
  | loadObject _ => "ld_obj"
  | storeObject _ => "st_obj"
  | initObject _ => "init_obj"
  | box _ => "box"
  | unboxAny _ => "unbox_any"
  | castClass _ => "cast_class"
  | isInstance _ => "is_inst"
  | throw => "throw"
  | rethrow => "rethrow"

/-- Where control goes after an instruction. -/
def flow : Instruction → Flow
  | branch _ => .branch
  | branchTrue _ | branchFalse _ | branchOn .. => .conditionalBranch
  | leave _ => .leave
  | call _ | callVirtual _ | newObject _ => .call
  | ret => .ret
  | throw | rethrow => .throw
  | endFinally => .endFinally
  | _ => .sequential

/-- The address that an instruction may jump to. -/
def target? : Instruction → Option UInt32
  | branch t | branchTrue t | branchFalse t | branchOn _ t | leave t => some t
  | _ => none

/-- The token that an instruction names. -/
def token? : Instruction → Option Token
  | loadString t | call t | callVirtual t | newObject t => some t
  | loadField t | loadFieldAddr t | storeField t => some t
  | loadStatic t | loadStaticAddr t | storeStatic t => some t
  | newArray t | loadElementAddr t | loadObject t | storeObject t | initObject t => some t
  | box t | unboxAny t | castClass t | isInstance t => some t
  | _ => none

/-- The operand as listings write it. -/
def operand? : Instruction → Option String
  | constInt32 v => some (toString v)
  | constInt64 v => some (toString v)
  | constSingle v => some (Decimal.ofSingle v)
  | constDouble v => some (Decimal.ofDouble v)
  | loadArg n | loadArgAddr n | storeArg n | loadLocal n | loadLocalAddr n | storeLocal n =>
    some (toString n)
  | i => (i.target?.map fun t => addressText t.toNat) <|> i.token?.map Token.text

def text (i : Instruction) : String :=
  match i.operand? with
  | some operand => i.mnemonic ++ " " ++ operand
  | none => i.mnemonic

/-! ### Reading mnemonics -/

/-- The kind of operand that a mnemonic takes, with the instruction it then makes. -/
inductive Form where
  | plain (i : Instruction)
  | int32 (make : Int32 → Instruction)
  | int64 (make : Int64 → Instruction)
  | single (make : Float32 → Instruction)
  | double (make : Float → Instruction)
  | index (make : UInt16 → Instruction)
  | target (make : UInt32 → Instruction)
  | token (make : Token → Instruction)

def binaryOps : List BinaryOp := [.add, .sub, .mul, .div, .rem, .and, .or, .xor, .shl, .shr]

def comparisons : List Comparison := [.eq, .ne, .lt, .le, .gt, .ge]

def conversions : List Conversion := [.int32, .int64, .single, .double]

/-- The instructions without an operand. -/
def plainInstructions : List Instruction :=
  [nop, breakpoint, loadNull, dup, pop, neg, compareEq, compareGt, compareLt, endFinally, ret,
    loadLength, loadElement, storeElement, throw, rethrow] ++
  binaryOps.map binary ++ conversions.map convert

def indexForms : List (UInt16 → Instruction) :=
  [loadArg, loadArgAddr, storeArg, loadLocal, loadLocalAddr, storeLocal]

def targetForms : List (UInt32 → Instruction) :=
  [branch, branchTrue, branchFalse, leave] ++ comparisons.map branchOn

def tokenForms : List (Token → Instruction) :=
  [loadString, call, callVirtual, newObject, loadField, loadFieldAddr, storeField, loadStatic,
    loadStaticAddr, storeStatic, newArray, loadElementAddr, loadObject, storeObject, initObject,
    box, unboxAny, castClass, isInstance]

/-- Every mnemonic with its form. -/
def forms : List (String × Form) :=
  plainInstructions.map (fun i => (i.mnemonic, .plain i)) ++
  [((constInt32 0).mnemonic, .int32 constInt32), ((constInt64 0).mnemonic, .int64 constInt64),
    ((constSingle 0).mnemonic, .single constSingle),
    ((constDouble 0).mnemonic, .double constDouble)] ++
  indexForms.map (fun make => ((make 0).mnemonic, .index make)) ++
  targetForms.map (fun make => ((make 0).mnemonic, .target make)) ++
  tokenForms.map (fun make => ((make ⟨0⟩).mnemonic, .token make))

def form? (mnemonic : String) : Option Form := forms.lookup mnemonic

end Instruction

end ManagedMachine
