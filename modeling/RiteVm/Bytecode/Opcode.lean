import RiteVm.Bytecode.Operands

/-!
Contract: the instruction set of the machine.

Owns:
- the 106 opcodes, each with its byte, its mnemonic and its operand layout;
- which opcodes are relative jumps, and which operand holds the distance.

`ofByte?_toByte` and `toByte_ofByte?` say that opcodes and the bytes below 106
are in bijection.
-/

namespace RiteVm.Bytecode

/-- An operation of the machine. `R[i]` is register `i` of the current frame,
`Pool`, `Syms` and `Reps` are the tables of the current code unit. -/
inductive Opcode where
  /-- `NOP`: does nothing. -/
  | nop
  /-- `MOVE`: R[a] = R[b]. -/
  | move
  /-- `LOADL`: R[a] = Pool[b]. -/
  | loadLiteral
  /-- `LOADI8`: R[a] = b. -/
  | loadByte
  /-- `LOADINEG`: R[a] = -b. -/
  | loadNegByte
  /-- `LOADI__1`: R[a] = -1. -/
  | loadMinusOne
  /-- `LOADI_0`: R[a] = 0. -/
  | loadZero
  /-- `LOADI_1`: R[a] = 1. -/
  | loadOne
  /-- `LOADI_2`: R[a] = 2. -/
  | loadTwo
  /-- `LOADI_3`: R[a] = 3. -/
  | loadThree
  /-- `LOADI_4`: R[a] = 4. -/
  | loadFour
  /-- `LOADI_5`: R[a] = 5. -/
  | loadFive
  /-- `LOADI_6`: R[a] = 6. -/
  | loadSix
  /-- `LOADI_7`: R[a] = 7. -/
  | loadSeven
  /-- `LOADI16`: R[a] = b as a signed 16-bit number. -/
  | loadShort
  /-- `LOADI32`: R[a] = b and c together as a signed 32-bit number. -/
  | loadWord
  /-- `LOADSYM`: R[a] = Syms[b]. -/
  | loadSymbol
  /-- `LOADNIL`: R[a] = nil. -/
  | loadNil
  /-- `LOADSELF`: R[a] = self. -/
  | loadSelf
  /-- `LOADT`: R[a] = true. -/
  | loadTrue
  /-- `LOADF`: R[a] = false. -/
  | loadFalse
  /-- `GETGV`: R[a] = the global Syms[b]. -/
  | getGlobal
  /-- `SETGV`: the global Syms[b] = R[a]. -/
  | setGlobal
  /-- `GETSV`: R[a] = the special variable Syms[b]. -/
  | getSpecial
  /-- `SETSV`: the special variable Syms[b] = R[a]. -/
  | setSpecial
  /-- `GETIV`: R[a] = the instance variable Syms[b] of self. -/
  | getInstanceVar
  /-- `SETIV`: the instance variable Syms[b] of self = R[a]. -/
  | setInstanceVar
  /-- `GETCV`: R[a] = the class variable Syms[b]. -/
  | getClassVar
  /-- `SETCV`: the class variable Syms[b] = R[a]. -/
  | setClassVar
  /-- `GETCONST`: R[a] = the constant Syms[b], looked up lexically. -/
  | getConst
  /-- `SETCONST`: the constant Syms[b] of the target class = R[a]. -/
  | setConst
  /-- `GETMCNST`: R[a] = R[a]::Syms[b]. -/
  | getScopedConst
  /-- `SETMCNST`: R[a+1]::Syms[b] = R[a]. -/
  | setScopedConst
  /-- `GETUPVAR`: R[a] = variable b of the scope c levels up. -/
  | getCaptured
  /-- `SETUPVAR`: variable b of the scope c levels up = R[a]. -/
  | setCaptured
  /-- `GETIDX`: R[a] = R[a][R[a+1]]. -/
  | getIndex
  /-- `SETIDX`: R[a][R[a+1]] = R[a+2]. -/
  | setIndex
  /-- `JMP`: jumps by a. -/
  | jump
  /-- `JMPIF`: jumps by b if R[a] is truthy. -/
  | jumpIf
  /-- `JMPNOT`: jumps by b if R[a] is falsy. -/
  | jumpUnless
  /-- `JMPNIL`: jumps by b if R[a] is nil. -/
  | jumpNil
  /-- `JMPUW`: jumps by a, running the ensure clauses that the jump leaves. -/
  | jumpUnwinding
  /-- `EXCEPT`: R[a] = the pending exception or exit record. -/
  | loadPending
  /-- `RESCUE`: R[b] = whether R[a] is an instance of the class R[b]. -/
  | matchRescue
  /-- `RAISEIF`: raises R[a] if it is an exception, resumes it if it is an exit record. -/
  | resumePending
  /-- `SSEND`: R[a] = self.Syms[b](R[a+1], ...). -/
  | sendSelf
  /-- `SSENDB`: like the previous one with a block after the arguments. -/
  | sendSelfBlock
  /-- `SEND`: R[a] = R[a].Syms[b](R[a+1], ...). -/
  | send
  /-- `SENDB`: like the previous one with a block after the arguments. -/
  | sendBlock
  /-- `CALL`: replaces the current frame by the body of the receiver, a proc. -/
  | call
  /-- `SUPER`: R[a] = super(R[a+1], ...). -/
  | callSuper
  /-- `ARGARY`: R[a] = the arguments of the enclosing method. -/
  | argArray
  /-- `ENTER`: binds the arguments as the 24-bit argument spec says. -/
  | enter
  /-- `KEY_P`: R[a] = whether the keyword Syms[b] was passed. -/
  | keyPresent
  /-- `KEYEND`: raises unless every keyword was taken. -/
  | keyEnd
  /-- `KARG`: R[a] = the keyword Syms[b], taken out of the keyword dictionary. -/
  | keyArg
  /-- `RETURN`: returns R[a]. -/
  | returnValue
  /-- `RETURN_BLK`: returns R[a] from the method around the current block. -/
  | returnFromMethod
  /-- `BREAK`: ends the call that the current block was passed to with R[a]. -/
  | breakOut
  /-- `BLKPUSH`: R[a] = the block of the enclosing method. -/
  | pushBlock
  /-- `ADD`: R[a] = R[a] + R[a+1]. -/
  | add
  /-- `ADDI`: R[a] = R[a] + b. -/
  | addByte
  /-- `SUB`: R[a] = R[a] - R[a+1]. -/
  | sub
  /-- `SUBI`: R[a] = R[a] - b. -/
  | subByte
  /-- `MUL`: R[a] = R[a] * R[a+1]. -/
  | mul
  /-- `DIV`: R[a] = R[a] / R[a+1]. -/
  | div
  /-- `EQ`: R[a] = (R[a] == R[a+1]). -/
  | eq
  /-- `LT`: R[a] = (R[a] < R[a+1]). -/
  | lt
  /-- `LE`: R[a] = (R[a] <= R[a+1]). -/
  | le
  /-- `GT`: R[a] = (R[a] > R[a+1]). -/
  | gt
  /-- `GE`: R[a] = (R[a] >= R[a+1]). -/
  | ge
  /-- `ARRAY`: R[a] = [R[a], ...] with b items. -/
  | array
  /-- `ARRAY2`: R[a] = [R[b], ...] with c items. -/
  | arrayFrom
  /-- `ARYCAT`: R[a] = R[a] with the splat of R[a+1] appended. -/
  | arrayConcat
  /-- `ARYPUSH`: appends R[a+1], ... (b items) to R[a]. -/
  | arrayPush
  /-- `ARYSPLAT`: R[a] = the splat of R[a]. -/
  | arraySplat
  /-- `AREF`: R[a] = item c of R[b]. -/
  | arrayRef
  /-- `ASET`: item c of R[b] = R[a]. -/
  | arraySet
  /-- `APOST`: R[a], R[a+1], ... = the rest of R[a] after b items, then its last c items. -/
  | arrayPost
  /-- `INTERN`: R[a] = the symbol named by the string R[a]. -/
  | intern
  /-- `SYMBOL`: R[a] = the symbol named by Pool[b]. -/
  | symbol
  /-- `STRING`: R[a] = a new string with the bytes of Pool[b]. -/
  | string
  /-- `STRCAT`: appends the text of R[a+1] to the string R[a]. -/
  | stringConcat
  /-- `HASH`: R[a] = {R[a] => R[a+1], ...} with b pairs. -/
  | hash
  /-- `HASHADD`: stores b pairs from R[a+1], ... into the hash R[a]. -/
  | hashAdd
  /-- `HASHCAT`: stores the pairs of R[a+1] into the hash R[a]. -/
  | hashConcat
  /-- `LAMBDA`: R[a] = a lambda with the body Reps[b]. -/
  | lambda
  /-- `BLOCK`: R[a] = a block with the body Reps[b]. -/
  | block
  /-- `METHOD`: R[a] = a method body Reps[b]. -/
  | method
  /-- `RANGE_INC`: R[a] = R[a]..R[a+1]. -/
  | rangeInclusive
  /-- `RANGE_EXC`: R[a] = R[a]...R[a+1]. -/
  | rangeExclusive
  /-- `OCLASS`: R[a] = Object. -/
  | objectClass
  /-- `CLASS`: R[a] = the class Syms[b] under R[a] with the superclass R[a+1]. -/
  | openClass
  /-- `MODULE`: R[a] = the module Syms[b] under R[a]. -/
  | openModule
  /-- `EXEC`: R[a] = the body Reps[b] run with self R[a]. -/
  | exec
  /-- `DEF`: defines the method Syms[b] with the body R[a+1] on R[a]. -/
  | defineMethod
  /-- `ALIAS`: makes Syms[a] another name of the method Syms[b]. -/
  | aliasMethod
  /-- `UNDEF`: makes Syms[a] undefined. -/
  | undefMethod
  /-- `SCLASS`: R[a] = the singleton class of R[a]. -/
  | singletonClass
  /-- `TCLASS`: R[a] = the class that definitions go to. -/
  | targetClass
  /-- `DEBUG`: does nothing. -/
  | debug
  /-- `ERR`: raises LocalJumpError with the message Pool[a]. -/
  | raiseJumpError
  /-- `EXT1`: a prefix that widens operand a, refused. -/
  | ext1
  /-- `EXT2`: a prefix that widens operand b, refused. -/
  | ext2
  /-- `EXT3`: a prefix that widens operands a and b, refused. -/
  | ext3
  /-- `STOP`: ends the program. -/
  | stop
deriving DecidableEq, Repr, Inhabited

namespace Opcode

/-- All opcodes in the order of their bytes. -/
def all : Array Opcode := #[
  .nop, .move, .loadLiteral, .loadByte, .loadNegByte, .loadMinusOne, .loadZero,
  .loadOne, .loadTwo, .loadThree, .loadFour, .loadFive, .loadSix, .loadSeven,
  .loadShort, .loadWord, .loadSymbol, .loadNil, .loadSelf, .loadTrue, .loadFalse,
  .getGlobal, .setGlobal, .getSpecial, .setSpecial, .getInstanceVar, .setInstanceVar,
  .getClassVar, .setClassVar, .getConst, .setConst, .getScopedConst, .setScopedConst,
  .getCaptured, .setCaptured, .getIndex, .setIndex, .jump, .jumpIf, .jumpUnless,
  .jumpNil, .jumpUnwinding, .loadPending, .matchRescue, .resumePending, .sendSelf,
  .sendSelfBlock, .send, .sendBlock, .call, .callSuper, .argArray, .enter, .keyPresent,
  .keyEnd, .keyArg, .returnValue, .returnFromMethod, .breakOut, .pushBlock, .add,
  .addByte, .sub, .subByte, .mul, .div, .eq, .lt, .le, .gt, .ge, .array, .arrayFrom,
  .arrayConcat, .arrayPush, .arraySplat, .arrayRef, .arraySet, .arrayPost, .intern,
  .symbol, .string, .stringConcat, .hash, .hashAdd, .hashConcat, .lambda, .block,
  .method, .rangeInclusive, .rangeExclusive, .objectClass, .openClass, .openModule,
  .exec, .defineMethod, .aliasMethod, .undefMethod, .singletonClass, .targetClass,
  .debug, .raiseJumpError, .ext1, .ext2, .ext3, .stop]

/-- The byte that stands for the opcode: its position in `all`. -/
def toByte (op : Opcode) : UInt8 := UInt8.ofNat op.ctorIdx

/-- The opcode that a byte stands for. -/
def ofByte? (byte : UInt8) : Option Opcode := all[byte.toNat]?

/-- The name of the opcode in listings. -/
def mnemonic : Opcode → String
  | .nop => "NOP"
  | .move => "MOVE"
  | .loadLiteral => "LOADL"
  | .loadByte => "LOADI8"
  | .loadNegByte => "LOADINEG"
  | .loadMinusOne => "LOADI__1"
  | .loadZero => "LOADI_0"
  | .loadOne => "LOADI_1"
  | .loadTwo => "LOADI_2"
  | .loadThree => "LOADI_3"
  | .loadFour => "LOADI_4"
  | .loadFive => "LOADI_5"
  | .loadSix => "LOADI_6"
  | .loadSeven => "LOADI_7"
  | .loadShort => "LOADI16"
  | .loadWord => "LOADI32"
  | .loadSymbol => "LOADSYM"
  | .loadNil => "LOADNIL"
  | .loadSelf => "LOADSELF"
  | .loadTrue => "LOADT"
  | .loadFalse => "LOADF"
  | .getGlobal => "GETGV"
  | .setGlobal => "SETGV"
  | .getSpecial => "GETSV"
  | .setSpecial => "SETSV"
  | .getInstanceVar => "GETIV"
  | .setInstanceVar => "SETIV"
  | .getClassVar => "GETCV"
  | .setClassVar => "SETCV"
  | .getConst => "GETCONST"
  | .setConst => "SETCONST"
  | .getScopedConst => "GETMCNST"
  | .setScopedConst => "SETMCNST"
  | .getCaptured => "GETUPVAR"
  | .setCaptured => "SETUPVAR"
  | .getIndex => "GETIDX"
  | .setIndex => "SETIDX"
  | .jump => "JMP"
  | .jumpIf => "JMPIF"
  | .jumpUnless => "JMPNOT"
  | .jumpNil => "JMPNIL"
  | .jumpUnwinding => "JMPUW"
  | .loadPending => "EXCEPT"
  | .matchRescue => "RESCUE"
  | .resumePending => "RAISEIF"
  | .sendSelf => "SSEND"
  | .sendSelfBlock => "SSENDB"
  | .send => "SEND"
  | .sendBlock => "SENDB"
  | .call => "CALL"
  | .callSuper => "SUPER"
  | .argArray => "ARGARY"
  | .enter => "ENTER"
  | .keyPresent => "KEY_P"
  | .keyEnd => "KEYEND"
  | .keyArg => "KARG"
  | .returnValue => "RETURN"
  | .returnFromMethod => "RETURN_BLK"
  | .breakOut => "BREAK"
  | .pushBlock => "BLKPUSH"
  | .add => "ADD"
  | .addByte => "ADDI"
  | .sub => "SUB"
  | .subByte => "SUBI"
  | .mul => "MUL"
  | .div => "DIV"
  | .eq => "EQ"
  | .lt => "LT"
  | .le => "LE"
  | .gt => "GT"
  | .ge => "GE"
  | .array => "ARRAY"
  | .arrayFrom => "ARRAY2"
  | .arrayConcat => "ARYCAT"
  | .arrayPush => "ARYPUSH"
  | .arraySplat => "ARYSPLAT"
  | .arrayRef => "AREF"
  | .arraySet => "ASET"
  | .arrayPost => "APOST"
  | .intern => "INTERN"
  | .symbol => "SYMBOL"
  | .string => "STRING"
  | .stringConcat => "STRCAT"
  | .hash => "HASH"
  | .hashAdd => "HASHADD"
  | .hashConcat => "HASHCAT"
  | .lambda => "LAMBDA"
  | .block => "BLOCK"
  | .method => "METHOD"
  | .rangeInclusive => "RANGE_INC"
  | .rangeExclusive => "RANGE_EXC"
  | .objectClass => "OCLASS"
  | .openClass => "CLASS"
  | .openModule => "MODULE"
  | .exec => "EXEC"
  | .defineMethod => "DEF"
  | .aliasMethod => "ALIAS"
  | .undefMethod => "UNDEF"
  | .singletonClass => "SCLASS"
  | .targetClass => "TCLASS"
  | .debug => "DEBUG"
  | .raiseJumpError => "ERR"
  | .ext1 => "EXT1"
  | .ext2 => "EXT2"
  | .ext3 => "EXT3"
  | .stop => "STOP"

/-- The opcode with the given name. -/
def ofMnemonic? (name : String) : Option Opcode :=
  all.find? fun op => op.mnemonic == name

/-- The operand layout that follows the opcode's byte. -/
def layout : Opcode → Layout
  | .nop | .call | .keyEnd | .ext1 | .ext2 | .ext3 | .stop => .none
  | .loadMinusOne | .loadZero | .loadOne | .loadTwo | .loadThree | .loadFour
  | .loadFive | .loadSix | .loadSeven | .loadNil | .loadSelf | .loadTrue
  | .loadFalse | .getIndex | .setIndex | .loadPending | .resumePending
  | .returnValue | .returnFromMethod | .breakOut | .add | .sub | .mul | .div
  | .eq | .lt | .le | .gt | .ge | .arrayConcat | .arraySplat | .intern
  | .stringConcat | .hashConcat | .rangeInclusive | .rangeExclusive
  | .objectClass | .undefMethod | .singletonClass | .targetClass
  | .raiseJumpError => .b
  | .move | .loadLiteral | .loadByte | .loadNegByte | .loadSymbol | .getGlobal
  | .setGlobal | .getSpecial | .setSpecial | .getInstanceVar | .setInstanceVar
  | .getClassVar | .setClassVar | .getConst | .setConst | .getScopedConst
  | .setScopedConst | .matchRescue | .callSuper | .keyPresent | .keyArg
  | .addByte | .subByte | .array | .arrayPush | .symbol | .string | .hash
  | .hashAdd | .lambda | .block | .method | .openClass | .openModule | .exec
  | .defineMethod | .aliasMethod => .bb
  | .getCaptured | .setCaptured | .sendSelf | .sendSelfBlock | .send
  | .sendBlock | .arrayFrom | .arrayRef | .arraySet | .arrayPost | .debug => .bbb
  | .loadShort | .jumpIf | .jumpUnless | .jumpNil | .argArray | .pushBlock => .bs
  | .loadWord => .bss
  | .jump | .jumpUnwinding => .s
  | .enter => .w

/-- Bytes that an instruction with this opcode takes, its opcode byte included. -/
def width (op : Opcode) : Nat := 1 + op.layout.width

/-- The operand of a relative jump that holds the distance. -/
inductive JumpOperand where
  | a
  | b
deriving DecidableEq, Repr

/-- The operand that holds the distance, if the opcode is a relative jump. -/
def jumpOperand? : Opcode → Option JumpOperand
  | .jump | .jumpUnwinding => some .a
  | .jumpIf | .jumpUnless | .jumpNil => some .b
  | _ => none

@[simp] theorem size_all : all.size = 106 := rfl

@[simp] theorem ofByte?_toByte (op : Opcode) : ofByte? op.toByte = some op := by
  cases op <;> rfl

private theorem ctorIdx_getElem_all : ∀ index : Fin 106, all[index].ctorIdx = index := by
  decide

theorem toByte_ofByte? {byte : UInt8} {op : Opcode} (found : ofByte? byte = some op) :
    op.toByte = byte := by
  obtain ⟨inRange, atIndex⟩ := Array.getElem?_eq_some_iff.1 found
  have position := ctorIdx_getElem_all ⟨byte.toNat, inRange⟩
  simp only [Fin.getElem_fin, atIndex] at position
  simp [toByte, position]

theorem width_pos (op : Opcode) : 0 < op.width := by
  simp only [width]
  omega

end Opcode

end RiteVm.Bytecode
