import VexLLVM.Emit.HiddenTmps
import VexLLVM.Emit.VexXlate
import VexLLVM.Cache.Fresh
import VexLLVM.Cache.Ownership
import VexLLVM.Cache.Prefetch
import VexLLVM.Exec.Tamper
import VexLLVM.Exec.Survive
import VexLLVM.Exec.Protect
import VexLLVM.Check.PTShadowAMD64
import VexLLVM.Elf.CoreLayout
import VexLLVM.Emit.Acceptance
import VexLLVM.Emit.TypeSoundness
import VexLLVM.Frag.Answers
import VexLLVM.Frag.HashMap
import VexLLVM.Frag.FileSet
import VexLLVM.Check.VexExecChk
import VexLLVM.Emit.Access
import VexLLVM.Emit.OpQuiet
import VexLLVM.Emit.CAS
import VexLLVM.Emit.Dirty
import VexLLVM.Check.SetRegs
import VexLLVM.Check.CanFixup
import VexLLVM.Check.MemLog
import VexLLVM.Check.Fixup
import VexLLVM.Check.ChkSysCall
import VexLLVM.Emit.PatchBadDecode
import VexLLVM.Exec.Dispatch
import VexLLVM.Emit.OpSat
import VexLLVM.Emit.OpHalf
import VexLLVM.Emit.OpShiftN
import VexLLVM.Emit.OpSplit
import VexLLVM.Emit.Returns
import VexLLVM.Emit.Aligned
import VexLLVM.Exec.Spans
import VexLLVM.Exec.DispatchLog
import VexLLVM.LLVM.Linked
import VexLLVM.LLVM.Renumber
import VexLLVM.LLVM.Traced
import VexLLVM.Emit.OpLinked
import VexLLVM.Emit.Mirror
import VexLLVM.Emit.MirrorExpr
import VexLLVM.Emit.Logging
import VexLLVM.Emit.MirrorStmt
import VexLLVM.Emit.MirrorSB
import VexLLVM.Check.LogStores
import VexLLVM.Emit.OpShuffle
import VexLLVM.Support.Vexops
import VexLLVM.Emit.RegArray
import VexLLVM.Elf.FPNote
import VexLLVM.Exec.SyscallXlate
import VexLLVM.Emit.GuestTy
import VexLLVM.Emit.CtxPointers
import VexLLVM.Emit.IntBlocks
import VexLLVM.Exec.Refine
import VexLLVM.Emit.OpVec
import VexLLVM.Qemu.Termios
