/-
# ELF files

The parts of an executable's header and of its program header table that the loader reads, and
what it keeps of the executable.
-/
import Rv32jit.Lib.ByteMem

namespace Rv32jit.Env

/-- A file of the host. -/
structure HostFile where
  size : ℕ
  byte : ByteMem

/-- `Elf32_Ehdr`. -/
structure Elf32Ehdr where
  e_ident : BitVec 32
  e_type : BitVec 16
  e_machine : BitVec 16
  e_entry : BitVec 32
  e_phoff : BitVec 32
  e_phnum : BitVec 16

/-- `sizeof(Elf32_Ehdr)`. -/
def sizeofEhdr : ℕ := 52

/-- `Elf32_Phdr`. -/
structure Elf32Phdr where
  p_type : BitVec 32
  p_offset : BitVec 32
  p_vaddr : BitVec 32
  p_filesz : BitVec 32
  p_memsz : BitVec 32
  p_flags : BitVec 32

/-- `sizeof(Elf32_Phdr)`. -/
def sizeofPhdr : ℕ := 32

/-- `"\x7fELF"` as a little-endian word. -/
def ELFMAG : BitVec 32 := 0x464C457F

/-- The machine number of RISC-V. -/
def EM_RISCV : BitVec 16 := 243

/-- The type of an executable file. -/
def ET_EXEC : BitVec 16 := 2

/-- The type of a loadable segment. -/
def PT_LOAD : BitVec 32 := 1

namespace HostFile

variable (f : HostFile)

/-- The number of bytes that `pread` gets of `n` bytes at an offset. -/
def pread (n off : ℕ) : ℕ := min n (f.size - off)

/-- The header that `pread` has read. -/
def ehdr : Elf32Ehdr where
  e_ident := f.byte.load 0 4
  e_type := f.byte.load 16 2
  e_machine := f.byte.load 18 2
  e_entry := f.byte.load 24 4
  e_phoff := f.byte.load 28 4
  e_phnum := f.byte.load 44 2

/-- The entry of the program header table at an offset. -/
def phdr (off : ℕ) : Elf32Phdr where
  p_type := f.byte.load off 4
  p_offset := f.byte.load (off + 4) 4
  p_vaddr := f.byte.load (off + 8) 4
  p_filesz := f.byte.load (off + 16) 4
  p_memsz := f.byte.load (off + 20) 4
  p_flags := f.byte.load (off + 24) 4

/-- The program header table. -/
def phtab : List Elf32Phdr :=
  (List.range f.ehdr.e_phnum.toNat).map fun i => f.phdr (f.ehdr.e_phoff.toNat + sizeofPhdr * i)

end HostFile

/-- `env::ElfImage`. -/
structure ElfImage where
  ehdr : Elf32Ehdr
  load_addr : BitVec 32
  stack_start : BitVec 32
  entry : BitVec 32
  brk : BitVec 32

end Rv32jit.Env
