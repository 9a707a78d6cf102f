/-
# The instruction set

The definitions of the machine's instructions. An instruction is encoded by the
first definition that accepts it, so of two overlapping forms the more specific
one comes first.
-/

import ChipAsm.Opcode.Table

namespace ChipAsm.InstructionSet

/-- Control flow. -/
def control : List (String × String) :=
  [("000000", "NOP"), ("0000E0", "CLS"), ("0000EE", "RET"), ("0000FD", "HLT"),
    ("0F__ww", "SYS w"), ("14___x", "JMP Ix"), ("10____", "JMP addr"),
    ("11____", "CALL addr"), ("12____", "JMP [addr]"), ("13____", "CALL [addr]"),
    ("15____", "JZ addr"), ("16____", "JNZ addr"), ("17____", "JC addr"),
    ("18____", "JNC addr")]

/-- Arithmetic on bytes. -/
def byteArithmetic : List (String × String) :=
  [("200xyz", "ADD Nx, Ny, Nz"), ("201xyz", "SUB Nx, Ny, Nz"),
    ("202xyz", "AND Nx, Ny, Nz"), ("203xyz", "OR Nx, Ny, Nz"),
    ("204xyz", "XOR Nx, Ny, Nz"), ("205xyz", "MUL Nx, Ny, Nz"),
    ("206xyz", "DIV Nx, Ny, Nz"), ("207xyz", "SHL Nx, Ny, Nz"),
    ("208xyz", "SHR Nx, Ny, Nz"), ("209xy_", "ADD Nx, By"), ("20Axy_", "SUB Nx, By"),
    ("30xynn", "ADD Nx, Ny, n"), ("31xynn", "SUB Nx, Ny, n"), ("32xynn", "AND Nx, Ny, n"),
    ("33xynn", "OR Nx, Ny, n"), ("34xynn", "XOR Nx, Ny, n")]

/-- Arithmetic on pairs of bytes and on indices. -/
def wideArithmetic : List (String × String) :=
  [("400xyz", "ADD Bx, By, Bz"), ("401xyz", "SUB Bx, By, Bz"), ("402xy_", "ADD Bx, Ny"),
    ("403xnn", "ADD Bx, n"), ("50_xnn", "ADD Ix, n"), ("51_xy_", "ADD Ix, By"),
    ("52_x__", "INC Ix"), ("53_x__", "DEC Ix")]

/-- Loads and stores. The forms with registers stand before the forms with
addresses, since the name of a register also reads as a label. -/
def loads : List (String × String) :=
  [("6__xnn", "LD Nx, n"), ("70_xy_", "LD Nx, Ny"), ("71_xy_", "LD Bx, By"),
    ("72_xy_", "LD Ix, Iy"), ("73_xy_", "LD Ix, By"), ("74_xy_", "LD Nx, B(Ny)"),
    ("75_xy_", "LD B(Nx), Ny"), ("76_xy_", "LD Nx, I(Ny)"), ("77_xy_", "LD I(Nx), Ny"),
    ("78_x__", "LD Nx, DT"), ("79_x__", "LD DT, Nx"), ("7A_x__", "LD ST, Nx"),
    ("7B_x__", "LD Bx, SP"), ("7C_x__", "LD SP, Bx"), ("B4_xy_", "LD Nx, [Iy]"),
    ("B5_xy_", "LD [Iy], Nx"), ("B2xyzn", "LD Nx, [Iy+Bz+n]"),
    ("B3xyzn", "LD [Iy+Bz+n], Nx"), ("B0xynn", "LD Nx, [Iy+n]"),
    ("B1xynn", "LD [Iy+n], Nx"), ("8x____", "LD Ix, addr"), ("9x____", "LD Nx, [addr]"),
    ("Ax____", "LD [addr], Nx")]

/-- The stack. -/
def stack : List (String × String) :=
  [("C0_x__", "PUSH Nx"), ("C1_x__", "POP Nx"), ("C2_x__", "PUSH Bx"),
    ("C3_x__", "POP Bx"), ("C4_x__", "PUSH Ix"), ("C5_x__", "POP Ix")]

/-- Counting, negation and comparison. -/
def comparison : List (String × String) :=
  [("D0_x__", "INC Nx"), ("D1_x__", "DEC Nx"), ("D2_x__", "NOT Nx"),
    ("D3_xy_", "CMP Nx, Ny"), ("D4_xnn", "CMP Nx, n"), ("D5_x__", "INC Bx"),
    ("D6_x__", "DEC Bx")]

/-- Display, random numbers and keys. -/
def devices : List (String × String) :=
  [("E0xynn", "DRW Nx, Ny, n"), ("E1_xnn", "RND Nx, n"), ("E2_x__", "KEY Nx"),
    ("E3_x__", "SKP Nx"), ("E4_x__", "SKNP Nx")]

/-- All definitions, as pairs of a pattern and a format. -/
def definitions : List (String × String) :=
  control ++ byteArithmetic ++ wideArithmetic ++ loads ++ stack ++ comparison ++ devices

/-- The table of the machine's opcodes. -/
def table : Except DefinitionFault OpcodeTable :=
  OpcodeTable.ofDefinitions definitions

end ChipAsm.InstructionSet
