import Rv32jit.Codegen.EmitRun
import Rv32jit.Codegen.RegAllocRun
import Rv32jit.Codegen.RegAllocState
import Rv32jit.Codegen.SelectRun
import Rv32jit.Guest.Allocate
import Rv32jit.Guest.Arith
import Rv32jit.Guest.Encoding
import Rv32jit.Guest.HostRun
import Rv32jit.Guest.RegionRun
import Rv32jit.Ir.Fold
import Rv32jit.Ir.ListWalk
import Rv32jit.Ir.OperandBits
import Rv32jit.Runtime.ArenaRun
import Rv32jit.Runtime.Emulator
import Rv32jit.Runtime.FenceI
import Rv32jit.Runtime.IpRange
import Rv32jit.Runtime.IsaRun
import Rv32jit.Runtime.JitAbi
import Rv32jit.Runtime.Lookup
import Rv32jit.Runtime.Main
import Rv32jit.Runtime.Progress
import Rv32jit.Runtime.SlotBytes
import Rv32jit.Runtime.TrapParity
import Rv32jit.Env.ArgVectors
import Rv32jit.Env.HeapGrowth
import Rv32jit.Env.PageMap
import Rv32jit.Env.Reported
