/-
  Instructions, addressing modes and the 256 opcodes.

  An instruction is classified by what it does with the bus; the classes are those of
  `Famicom.Processor.Registers` and the instructions that steer the flow of control or use the stack.
  `decode` reads the opcode table, documented and undocumented entries alike.
-/
import Famicom.Processor.Registers

namespace Famicom

/-- Instructions, classed by their use of the bus. -/
inductive Instruction where
  | read (op : ReadOp)
  | modify (op : ModifyOp)
  | implied (op : ImpliedOp)
  | store (op : StoreOp)
  | branch (condition : Condition)
  | jmp
  | jsr
  | rts
  | rti
  | pha
  | php
  | pla
  | plp
  | brk
  /-- Stops the processor until it is reset. -/
  | hlt
  deriving DecidableEq, Repr

/-- Where an instruction finds its operand. -/
inductive AddressingMode where
  | implied
  | accumulator
  | immediate
  | zeroPage
  | zeroPageX
  | zeroPageY
  | relative
  | absolute
  | absoluteX
  | absoluteY
  | indirect
  /-- A zero-page pointer chosen by X. -/
  | indexedIndirect
  /-- A zero-page pointer whose target is indexed by Y. -/
  | indirectIndexed
  deriving DecidableEq, Repr

/-- Whether the mode adds an index to a 16-bit address, which takes a cycle more if it carries. -/
def AddressingMode.isIndexed : AddressingMode → Bool
  | absoluteX | absoluteY | indirectIndexed => true
  | _ => false

namespace Instruction

/-- Whether the instruction is a conditional branch. -/
def isBranch : Instruction → Bool
  | branch _ => true
  | _ => false

/-- Whether the instruction writes through an index and so spends the cycle for the carry always. -/
def writesIndexed : Instruction → Bool
  | store .sta | modify _ => true
  | _ => false

/-- The three letters an assembler knows the instruction by. -/
def mnemonic : Instruction → String
  | read .adc => "ADC" | read .sbc => "SBC" | read .and => "AND" | read .ora => "ORA"
  | read .eor => "EOR" | read .bit => "BIT" | read .cmp => "CMP" | read .cpx => "CPX"
  | read .cpy => "CPY" | read .lda => "LDA" | read .ldx => "LDX" | read .ldy => "LDY"
  | read .lax => "LAX" | read .nop => "NOP"
  | modify .asl => "ASL" | modify .lsr => "LSR" | modify .rol => "ROL" | modify .ror => "ROR"
  | modify .inc => "INC" | modify .dec => "DEC" | modify .slo => "SLO" | modify .rla => "RLA"
  | modify .sre => "SRE" | modify .rra => "RRA" | modify .dcp => "DCP" | modify .isb => "ISB"
  | implied .inx => "INX" | implied .iny => "INY" | implied .dex => "DEX" | implied .dey => "DEY"
  | implied .tax => "TAX" | implied .tay => "TAY" | implied .txa => "TXA" | implied .tya => "TYA"
  | implied .tsx => "TSX" | implied .txs => "TXS"
  | implied .clc => "CLC" | implied .sec => "SEC" | implied .cli => "CLI" | implied .sei => "SEI"
  | implied .cld => "CLD" | implied .sed => "SED" | implied .clv => "CLV"
  | store .sta => "STA" | store .stx => "STX" | store .sty => "STY" | store .sax => "SAX"
  | branch .carryClear => "BCC" | branch .carrySet => "BCS" | branch .notEqual => "BNE"
  | branch .equal => "BEQ" | branch .plus => "BPL" | branch .minus => "BMI"
  | branch .overflowClear => "BVC" | branch .overflowSet => "BVS"
  | jmp => "JMP" | jsr => "JSR" | rts => "RTS" | rti => "RTI"
  | pha => "PHA" | php => "PHP" | pla => "PLA" | plp => "PLP"
  | brk => "BRK" | hlt => "HLT"

end Instruction

/-- An instruction with its addressing mode. -/
structure Opcode where
  instruction : Instruction
  mode : AddressingMode
  deriving DecidableEq, Repr

/-- The meaning of every opcode, in rows of sixteen. -/
def opcodes : Vector (Vector Opcode 16) 16 := #v[
  #v[⟨.brk, .implied⟩, ⟨.read .ora, .indexedIndirect⟩, ⟨.hlt, .implied⟩,
     ⟨.modify .slo, .indexedIndirect⟩, ⟨.read .nop, .zeroPage⟩, ⟨.read .ora, .zeroPage⟩,
     ⟨.modify .asl, .zeroPage⟩, ⟨.modify .slo, .zeroPage⟩, ⟨.php, .implied⟩,
     ⟨.read .ora, .immediate⟩, ⟨.modify .asl, .accumulator⟩, ⟨.read .nop, .immediate⟩,
     ⟨.read .nop, .absolute⟩, ⟨.read .ora, .absolute⟩, ⟨.modify .asl, .absolute⟩,
     ⟨.modify .slo, .absolute⟩],
  #v[⟨.branch .plus, .relative⟩, ⟨.read .ora, .indirectIndexed⟩, ⟨.hlt, .implied⟩,
     ⟨.modify .slo, .indirectIndexed⟩, ⟨.read .nop, .zeroPageX⟩, ⟨.read .ora, .zeroPageX⟩,
     ⟨.modify .asl, .zeroPageX⟩, ⟨.modify .slo, .zeroPageX⟩, ⟨.implied .clc, .implied⟩,
     ⟨.read .ora, .absoluteY⟩, ⟨.read .nop, .implied⟩, ⟨.modify .slo, .absoluteY⟩,
     ⟨.read .nop, .absoluteX⟩, ⟨.read .ora, .absoluteX⟩, ⟨.modify .asl, .absoluteX⟩,
     ⟨.modify .slo, .absoluteX⟩],
  #v[⟨.jsr, .absolute⟩, ⟨.read .and, .indexedIndirect⟩, ⟨.hlt, .implied⟩,
     ⟨.modify .rla, .indexedIndirect⟩, ⟨.read .bit, .zeroPage⟩, ⟨.read .and, .zeroPage⟩,
     ⟨.modify .rol, .zeroPage⟩, ⟨.modify .rla, .zeroPage⟩, ⟨.plp, .implied⟩,
     ⟨.read .and, .immediate⟩, ⟨.modify .rol, .accumulator⟩, ⟨.read .nop, .immediate⟩,
     ⟨.read .bit, .absolute⟩, ⟨.read .and, .absolute⟩, ⟨.modify .rol, .absolute⟩,
     ⟨.modify .rla, .absolute⟩],
  #v[⟨.branch .minus, .relative⟩, ⟨.read .and, .indirectIndexed⟩, ⟨.hlt, .implied⟩,
     ⟨.modify .rla, .indirectIndexed⟩, ⟨.read .nop, .zeroPageX⟩, ⟨.read .and, .zeroPageX⟩,
     ⟨.modify .rol, .zeroPageX⟩, ⟨.modify .rla, .zeroPageX⟩, ⟨.implied .sec, .implied⟩,
     ⟨.read .and, .absoluteY⟩, ⟨.read .nop, .implied⟩, ⟨.modify .rla, .absoluteY⟩,
     ⟨.read .nop, .absoluteX⟩, ⟨.read .and, .absoluteX⟩, ⟨.modify .rol, .absoluteX⟩,
     ⟨.modify .rla, .absoluteX⟩],
  #v[⟨.rti, .implied⟩, ⟨.read .eor, .indexedIndirect⟩, ⟨.hlt, .implied⟩,
     ⟨.modify .sre, .indexedIndirect⟩, ⟨.read .nop, .zeroPage⟩, ⟨.read .eor, .zeroPage⟩,
     ⟨.modify .lsr, .zeroPage⟩, ⟨.modify .sre, .zeroPage⟩, ⟨.pha, .implied⟩,
     ⟨.read .eor, .immediate⟩, ⟨.modify .lsr, .accumulator⟩, ⟨.read .nop, .immediate⟩,
     ⟨.jmp, .absolute⟩, ⟨.read .eor, .absolute⟩, ⟨.modify .lsr, .absolute⟩,
     ⟨.modify .sre, .absolute⟩],
  #v[⟨.branch .overflowClear, .relative⟩, ⟨.read .eor, .indirectIndexed⟩, ⟨.hlt, .implied⟩,
     ⟨.modify .sre, .indirectIndexed⟩, ⟨.read .nop, .zeroPageX⟩, ⟨.read .eor, .zeroPageX⟩,
     ⟨.modify .lsr, .zeroPageX⟩, ⟨.modify .sre, .zeroPageX⟩, ⟨.implied .cli, .implied⟩,
     ⟨.read .eor, .absoluteY⟩, ⟨.read .nop, .implied⟩, ⟨.modify .sre, .absoluteY⟩,
     ⟨.read .nop, .absoluteX⟩, ⟨.read .eor, .absoluteX⟩, ⟨.modify .lsr, .absoluteX⟩,
     ⟨.modify .sre, .absoluteX⟩],
  #v[⟨.rts, .implied⟩, ⟨.read .adc, .indexedIndirect⟩, ⟨.hlt, .implied⟩,
     ⟨.modify .rra, .indexedIndirect⟩, ⟨.read .nop, .zeroPage⟩, ⟨.read .adc, .zeroPage⟩,
     ⟨.modify .ror, .zeroPage⟩, ⟨.modify .rra, .zeroPage⟩, ⟨.pla, .implied⟩,
     ⟨.read .adc, .immediate⟩, ⟨.modify .ror, .accumulator⟩, ⟨.read .nop, .immediate⟩,
     ⟨.jmp, .indirect⟩, ⟨.read .adc, .absolute⟩, ⟨.modify .ror, .absolute⟩,
     ⟨.modify .rra, .absolute⟩],
  #v[⟨.branch .overflowSet, .relative⟩, ⟨.read .adc, .indirectIndexed⟩, ⟨.hlt, .implied⟩,
     ⟨.modify .rra, .indirectIndexed⟩, ⟨.read .nop, .zeroPageX⟩, ⟨.read .adc, .zeroPageX⟩,
     ⟨.modify .ror, .zeroPageX⟩, ⟨.modify .rra, .zeroPageX⟩, ⟨.implied .sei, .implied⟩,
     ⟨.read .adc, .absoluteY⟩, ⟨.read .nop, .implied⟩, ⟨.modify .rra, .absoluteY⟩,
     ⟨.read .nop, .absoluteX⟩, ⟨.read .adc, .absoluteX⟩, ⟨.modify .ror, .absoluteX⟩,
     ⟨.modify .rra, .absoluteX⟩],
  #v[⟨.read .nop, .immediate⟩, ⟨.store .sta, .indexedIndirect⟩, ⟨.read .nop, .immediate⟩,
     ⟨.store .sax, .indexedIndirect⟩, ⟨.store .sty, .zeroPage⟩, ⟨.store .sta, .zeroPage⟩,
     ⟨.store .stx, .zeroPage⟩, ⟨.store .sax, .zeroPage⟩, ⟨.implied .dey, .implied⟩,
     ⟨.read .nop, .immediate⟩, ⟨.implied .txa, .implied⟩, ⟨.read .nop, .immediate⟩,
     ⟨.store .sty, .absolute⟩, ⟨.store .sta, .absolute⟩, ⟨.store .stx, .absolute⟩,
     ⟨.store .sax, .absolute⟩],
  #v[⟨.branch .carryClear, .relative⟩, ⟨.store .sta, .indirectIndexed⟩, ⟨.hlt, .implied⟩,
     ⟨.read .nop, .indirectIndexed⟩, ⟨.store .sty, .zeroPageX⟩, ⟨.store .sta, .zeroPageX⟩,
     ⟨.store .stx, .zeroPageY⟩, ⟨.store .sax, .zeroPageY⟩, ⟨.implied .tya, .implied⟩,
     ⟨.store .sta, .absoluteY⟩, ⟨.implied .txs, .implied⟩, ⟨.read .nop, .absoluteY⟩,
     ⟨.read .nop, .absoluteX⟩, ⟨.store .sta, .absoluteX⟩, ⟨.read .nop, .absoluteY⟩,
     ⟨.read .nop, .absoluteY⟩],
  #v[⟨.read .ldy, .immediate⟩, ⟨.read .lda, .indexedIndirect⟩, ⟨.read .ldx, .immediate⟩,
     ⟨.read .lax, .indexedIndirect⟩, ⟨.read .ldy, .zeroPage⟩, ⟨.read .lda, .zeroPage⟩,
     ⟨.read .ldx, .zeroPage⟩, ⟨.read .lax, .zeroPage⟩, ⟨.implied .tay, .implied⟩,
     ⟨.read .lda, .immediate⟩, ⟨.implied .tax, .implied⟩, ⟨.read .lax, .immediate⟩,
     ⟨.read .ldy, .absolute⟩, ⟨.read .lda, .absolute⟩, ⟨.read .ldx, .absolute⟩,
     ⟨.read .lax, .absolute⟩],
  #v[⟨.branch .carrySet, .relative⟩, ⟨.read .lda, .indirectIndexed⟩, ⟨.hlt, .implied⟩,
     ⟨.read .lax, .indirectIndexed⟩, ⟨.read .ldy, .zeroPageX⟩, ⟨.read .lda, .zeroPageX⟩,
     ⟨.read .ldx, .zeroPageY⟩, ⟨.read .lax, .zeroPageY⟩, ⟨.implied .clv, .implied⟩,
     ⟨.read .lda, .absoluteY⟩, ⟨.implied .tsx, .implied⟩, ⟨.read .nop, .absoluteY⟩,
     ⟨.read .ldy, .absoluteX⟩, ⟨.read .lda, .absoluteX⟩, ⟨.read .ldx, .absoluteY⟩,
     ⟨.read .lax, .absoluteY⟩],
  #v[⟨.read .cpy, .immediate⟩, ⟨.read .cmp, .indexedIndirect⟩, ⟨.read .nop, .immediate⟩,
     ⟨.modify .dcp, .indexedIndirect⟩, ⟨.read .cpy, .zeroPage⟩, ⟨.read .cmp, .zeroPage⟩,
     ⟨.modify .dec, .zeroPage⟩, ⟨.modify .dcp, .zeroPage⟩, ⟨.implied .iny, .implied⟩,
     ⟨.read .cmp, .immediate⟩, ⟨.implied .dex, .implied⟩, ⟨.read .nop, .immediate⟩,
     ⟨.read .cpy, .absolute⟩, ⟨.read .cmp, .absolute⟩, ⟨.modify .dec, .absolute⟩,
     ⟨.modify .dcp, .absolute⟩],
  #v[⟨.branch .notEqual, .relative⟩, ⟨.read .cmp, .indirectIndexed⟩, ⟨.hlt, .implied⟩,
     ⟨.modify .dcp, .indirectIndexed⟩, ⟨.read .nop, .zeroPageX⟩, ⟨.read .cmp, .zeroPageX⟩,
     ⟨.modify .dec, .zeroPageX⟩, ⟨.modify .dcp, .zeroPageX⟩, ⟨.implied .cld, .implied⟩,
     ⟨.read .cmp, .absoluteY⟩, ⟨.read .nop, .implied⟩, ⟨.modify .dcp, .absoluteY⟩,
     ⟨.read .nop, .absoluteX⟩, ⟨.read .cmp, .absoluteX⟩, ⟨.modify .dec, .absoluteX⟩,
     ⟨.modify .dcp, .absoluteX⟩],
  #v[⟨.read .cpx, .immediate⟩, ⟨.read .sbc, .indexedIndirect⟩, ⟨.read .nop, .immediate⟩,
     ⟨.modify .isb, .indexedIndirect⟩, ⟨.read .cpx, .zeroPage⟩, ⟨.read .sbc, .zeroPage⟩,
     ⟨.modify .inc, .zeroPage⟩, ⟨.modify .isb, .zeroPage⟩, ⟨.implied .inx, .implied⟩,
     ⟨.read .sbc, .immediate⟩, ⟨.read .nop, .implied⟩, ⟨.read .sbc, .immediate⟩,
     ⟨.read .cpx, .absolute⟩, ⟨.read .sbc, .absolute⟩, ⟨.modify .inc, .absolute⟩,
     ⟨.modify .isb, .absolute⟩],
  #v[⟨.branch .equal, .relative⟩, ⟨.read .sbc, .indirectIndexed⟩, ⟨.hlt, .implied⟩,
     ⟨.modify .isb, .indirectIndexed⟩, ⟨.read .nop, .zeroPageX⟩, ⟨.read .sbc, .zeroPageX⟩,
     ⟨.modify .inc, .zeroPageX⟩, ⟨.modify .isb, .zeroPageX⟩, ⟨.implied .sed, .implied⟩,
     ⟨.read .sbc, .absoluteY⟩, ⟨.read .nop, .implied⟩, ⟨.modify .isb, .absoluteY⟩,
     ⟨.read .nop, .absoluteX⟩, ⟨.read .sbc, .absoluteX⟩, ⟨.modify .inc, .absoluteX⟩,
     ⟨.modify .isb, .absoluteX⟩]
]

/-- An opcode has a row in a table of sixteen. -/
theorem opcode_row_lt (opcode : UInt8) : opcode.toNat / 16 < 16 := by
  have := opcode.toNat_lt
  omega

/-- An opcode has a column in a table of sixteen. -/
theorem opcode_column_lt (opcode : UInt8) : opcode.toNat % 16 < 16 := Nat.mod_lt _ (by decide)

/-- The instruction and addressing mode of an opcode. -/
def decode (opcode : UInt8) : Opcode :=
  have := opcode_row_lt opcode
  have := opcode_column_lt opcode
  opcodes[opcode.toNat / 16][opcode.toNat % 16]

/-- The instruction with the given mnemonic. -/
def Instruction.ofMnemonic? (name : String) : Option Instruction :=
  ((List.range 256).map fun b => (decode (UInt8.ofNat b)).instruction).find?
    fun i => i.mnemonic == name

end Famicom
