import VexLLVM.Qemu.Convert

/-!
# Device controls

`do_ioctl` hands the host's kernel a copy of the structure that the guest passes, in the
host's layout, and copies back what the kernel leaves there. The structures are those of
`translatedsyscalltypes.h`.
-/

namespace VexLLVM

open CLayout LLVM

/-! ## The structures -/

def ArgType.code (a : ArgType) : ℕ := ArgType.all.idxOf a

def mkArray (type : ArgType) (size : ℕ) : List ℕ := [ArgType.array.code, size, type.code]

def mkStruct (id : ℕ) : List ℕ := [ArgType.struct.code, id]

def ifnamsiz : ℕ := 16

/-- The structures after `termios`, which is number 0 and is registered directly. -/
def syscallTypes : List (String × List ℕ) :=
  let char := [ArgType.char.code]
  let short := [ArgType.short.code]
  let int := [ArgType.int.code]
  let long := [ArgType.long.code]
  let ulong := [ArgType.ulong.code]
  let ptrvoid := [ArgType.ptrvoid.code]
  let ulonglong := [ArgType.ulonglong.code]
  let sockaddr := mkStruct 4
  let ifname := mkArray .char ifnamsiz
  [("winsize", short ++ short ++ short ++ short),
    ("serial_multiport_struct", int ++ int ++ char ++ char ++ int ++ char ++ char ++ int ++ char ++
      char ++ int ++ char ++ char ++ int ++ mkArray .int 32),
    ("serial_icounter_struct", int ++ int ++ int ++ int ++ mkArray .int 16),
    ("sockaddr", short ++ mkArray .char 14),
    ("rtentry", ulong ++ sockaddr ++ sockaddr ++ sockaddr ++ short ++ short ++ ulong ++ ptrvoid ++
      short ++ ptrvoid ++ ulong ++ ulong ++ short),
    ("ifmap", ulong ++ ulong ++ short ++ char ++ char ++ char ++ char ++ char ++ char),
    ("sockaddr_ifreq", ifname ++ sockaddr),
    ("short_ifreq", ifname ++ short),
    ("int_ifreq", ifname ++ int),
    ("ifmap_ifreq", ifname ++ mkStruct 6),
    ("char_ifreq", ifname ++ ifname),
    ("ptr_ifreq", ifname ++ ptrvoid),
    ("ifconf", int ++ ptrvoid),
    ("arpreq", sockaddr ++ sockaddr ++ int ++ sockaddr ++ mkArray .char 16),
    ("arpreq_old", sockaddr ++ sockaddr ++ int ++ sockaddr),
    ("cdrom_read_audio", char ++ char ++ char ++ char ++ char ++ int ++ ptrvoid ++
      [ArgType.null.code]),
    ("hd_geometry", char ++ char ++ short ++ ulong),
    ("dirent", long ++ long ++ short ++ mkArray .char 256),
    ("kbentry", char ++ char ++ short),
    ("kbsentry", char ++ mkArray .char 512),
    ("audio_buf_info", int ++ int ++ int ++ int),
    ("count_info", int ++ int ++ int),
    ("mixer_info", mkArray .char 16 ++ mkArray .char 32 ++ int ++ mkArray .int 10),
    ("loop_info", int ++ short ++ ulong ++ short ++ int ++ int ++ int ++ int ++ mkArray .char 64 ++
      mkArray .char 32 ++ mkArray .ulong 2 ++ mkArray .char 4),
    ("loop_info64", ulonglong ++ ulonglong ++ ulonglong ++ ulonglong ++ ulong ++ ulong ++ ulong ++
      ulong ++ mkArray .char 64 ++ mkArray .char 64 ++ mkArray .char 32 ++ mkArray .ulonglong 2),
    ("mtop", short ++ int),
    ("mtget", long ++ long ++ long ++ long ++ long ++ int ++ int),
    ("mtpos", long),
    ("fb_fix_screeninfo", mkArray .char 16 ++ ulong ++ int ++ int ++ int ++ int ++ short ++ short ++
      short ++ int ++ ulong ++ int ++ int ++ mkArray .char 3),
    ("fb_var_screeninfo", int ++ int ++ int ++ int ++ int ++ int ++ int ++ int ++ mkArray .int 3 ++
      mkArray .int 3 ++ mkArray .int 3 ++ mkArray .int 3 ++ int ++ int ++ int ++ int ++ int ++
      int ++ int ++ int ++ int ++ int ++ int ++ int ++ int ++ int ++ int ++ mkArray .int 5),
    ("vt_stat", short ++ short ++ short),
    ("fiemap_extent", ulonglong ++ ulonglong ++ ulonglong ++ mkArray .ulonglong 2 ++ int ++
      mkArray .int 3),
    ("fiemap", ulonglong ++ ulonglong ++ int ++ int ++ int ++ int)]

/-- The registrations that `syscall_init` makes, each definition ending in `TYPE_NULL`. -/
def syscallRegistrations (structTermiosDef : StructEntry) : List Registration :=
  .direct 0 "termios" structTermiosDef ::
    syscallTypes.mapIdx fun i d => .struct (i + 1) d.1 (d.2 ++ [ArgType.null.code])

/-- Each structure is declared after those it uses. -/
theorem isSome_declareAll (structTermiosDef : StructEntry) :
    (declareAll (syscallRegistrations structTermiosDef)).isSome := by
  rfl

theorem exists_of_declareAll {rs : List Registration} {decls₀ decls : Decls} {id : ℕ}
    (h : rs.foldlM Registration.declare decls₀ = some decls) (hnone : decls₀ id = none)
    (hid : decls id ≠ none) : id ∈ rs.map Registration.id := by
  induction rs generalizing decls₀ with
  | nil =>
      cases h
      exact absurd hnone hid
  | cons r rs ih =>
      obtain ⟨decls₁, hdecl, hrest⟩ := Option.bind_eq_some_iff.mp h
      rw [List.map_cons, List.mem_cons]
      by_cases heq : id = r.id
      · exact .inl heq
      · refine .inr (ih hrest ?_)
        rw [Registration.declare] at hdecl
        split at hdecl
        · cases hdecl
        · obtain ⟨d, _, rfl⟩ := Option.map_eq_some_iff.mp hdecl
          rw [Function.update_of_ne heq, hnone]

def maxStructSize : ℕ := 4096

/-- A structure has room in `buf_temp`, whatever the sizes of longs, and is converted member by
member. -/
def Decl.fits : Option Decl → Bool
  | some (.standard fields) =>
      decide (fields.length ≤ maxStructSize) && (CType.struct fields).all (· ≠ .ptr) &&
        [LongBits.b32, .b64].all fun h => [LongBits.b32, .b64].all fun t =>
          [Side.target, .host].all fun i =>
            (CType.struct fields).maxSize (Prim.size ⟨h, t⟩ i) ≤ maxStructSize
  | _ => true

theorem fits_syscallTypes (structTermiosDef : StructEntry) :
    ((declareAll (syscallRegistrations structTermiosDef)).all fun decls =>
      (List.range 34).all fun id => Decl.fits (decls id)) = true := by
  have heq : declareAll (syscallRegistrations structTermiosDef) =
      declareAll (syscallRegistrations .zero) := rfl
  rw [heq]
  decide +kernel

structure SyscallStruct (fields : List (CType Prim)) : Prop where
  length : fields.length ≤ maxStructSize
  noPtr : NoPtr (.struct fields)
  maxSize : ∀ abi side, (CType.struct fields).maxSize (Prim.size abi side) ≤ maxStructSize

theorem syscallStruct_of_fits {fields : List (CType Prim)}
    (h : Decl.fits (some (.standard fields)) = true) : SyscallStruct fields := by
  simp only [Decl.fits, List.all_cons, List.all_nil, Bool.and_true, Bool.and_eq_true,
    decide_eq_true_eq] at h
  obtain ⟨⟨hlen, hptr⟩, hsize⟩ := h
  refine ⟨hlen, hptr, fun abi side => ?_⟩
  obtain ⟨hostBits, targetBits⟩ := abi
  cases hostBits <;> cases targetBits <;> cases side <;> simp only [hsize]

theorem syscallStruct_of_declareAll {structTermiosDef : StructEntry} {decls : Decls}
    (h : declareAll (syscallRegistrations structTermiosDef) = some decls) {id : ℕ}
    {fields : List (CType Prim)} (hid : decls id = some (.standard fields)) :
    SyscallStruct fields := by
  have hmem := exists_of_declareAll h rfl (hid ▸ Option.some_ne_none _ : decls id ≠ none)
  have hids : (syscallRegistrations structTermiosDef).map Registration.id = List.range 34 := rfl
  have hall := fits_syscallTypes structTermiosDef
  rw [h, Option.all_some, List.all_eq_true] at hall
  have hfits := hall id (hids ▸ hmem)
  rw [hid] at hfits
  exact syscallStruct_of_fits hfits

theorem fit_of_declareAll {structTermiosDef : StructEntry} {decls : Decls}
    (h : declareAll (syscallRegistrations structTermiosDef) = some decls) (abi : Abi) :
    decls.Fit abi := by
  intro id fields hid
  have hs := syscallStruct_of_declareAll h hid
  have hmax : maxStructSize + 8 < 2 ^ 31 := by decide
  exact ⟨hs.length.trans_lt (by decide), fun side =>
    (Nat.add_le_add_right (hs.maxSize abi side) 8).trans_lt hmax⟩

/-! ## The system call -/

inductive IoctlArg
  | none
  | int (arg : ℕ)
  | ptr (p : BitVec 64)

structure IoctlResult where
  ret : ℤ
  errno : ℕ
  mem : ProcMem

abbrev HostIoctl := ℤ → ℕ → IoctlArg → ProcMem → IoctlResult

structure IOCTLEntry where
  targetCmd : ℕ
  hostCmd : ℕ
  name : String
  access : ℕ
  /-- Where a control is not done by the types of its argument. -/
  doIoctl : Option (BitVec 64 → ℤ → ℕ → ℕ → ProcMem → Option (ℤ × ProcMem))
  argType : List ℕ

def iocR : ℕ := 1

def iocW : ℕ := 2

def targetEFAULT : ℕ := 14

def targetENOSYS : ℕ := 38

def hostToTargetErrno (table : ℕ → ℕ) (err : ℕ) : ℕ := if table err ≠ 0 then table err else err

def getErrno (table : ℕ → ℕ) (r : IoctlResult) : ℤ :=
  if r.ret = -1 then -hostToTargetErrno table r.errno else r.ret

/-- `(abi_ulong)ret >= (abi_ulong)(-4096)`. -/
def isError (abi : Abi) (ret : ℤ) : Bool :=
  (BitVec.ofInt (8 * abi.longSize .target) (-4096)).ule (BitVec.ofInt _ ret)

/-- The loop over `ioctl_entries`, which an entry whose command is zero ends. -/
def findIoctl : List IOCTLEntry → ℕ → Option IOCTLEntry
  | [], _ => none
  | ie :: ies, cmd =>
      if ie.targetCmd = 0 then none else if ie.targetCmd = cmd then some ie else findIoctl ies cmd

def lockUser (base : BitVec 64) (arg : ℕ) : BitVec 64 := base + BitVec.ofNat 64 arg

section doIoctl

variable (abi : Abi) (entries : StructEntries) (table : ℕ → ℕ) (kernel : HostIoctl)
    (base bufTemp : BitVec 64) (fuel : ℕ)

/-- The call of the kernel, and the copy of `buf_temp` to the guest unless it fails. -/
def ioctlRead (fd : ℤ) (ie : IOCTLEntry) (arg : ℕ) (types : List ℕ) (mem : ProcMem) :
    Option (ℤ × ProcMem) :=
  let r := kernel fd ie.hostCmd (.ptr bufTemp) mem
  let ret := getErrno table r
  if isError abi ret then some (ret, r.mem)
  else if lockUser base arg = 0 then some (-targetEFAULT, r.mem)
  else (thunkConvert abi entries .target fuel r.mem (lockUser base arg) bufTemp types).map
    fun c => (ret, c.1)

/-- The copy of the guest's structure to `buf_temp`, and then `k`. -/
def ioctlWrite (arg : ℕ) (types : List ℕ) (mem : ProcMem)
    (k : ProcMem → Option (ℤ × ProcMem)) : Option (ℤ × ProcMem) :=
  if lockUser base arg = 0 then some (-targetEFAULT, mem)
  else (thunkConvert abi entries .host fuel mem bufTemp (lockUser base arg) types).bind
    fun c => k c.1

/-- The return value and the memory after. -/
def doIoctl (ioctlEntries : List IOCTLEntry) (fd : ℤ) (cmd arg : ℕ) (mem : ProcMem) :
    Option (ℤ × ProcMem) :=
  let plain (ie : IOCTLEntry) (a : IoctlArg) : Option (ℤ × ProcMem) :=
    let r := kernel fd ie.hostCmd a mem
    some (getErrno table r, r.mem)
  match findIoctl ioctlEntries cmd with
  | none => some (-targetENOSYS, mem)
  | some ie =>
      match ie.doIoctl, ie.argType with
      | some special, _ => special bufTemp fd cmd arg mem
      | none, [] => none
      | none, code :: types =>
          match ArgType.ofCode code with
          | some .null => plain ie .none
          | some .ptrvoid | some .int => plain ie (.int arg)
          | some .ptr =>
              if ie.access = iocR then
                ioctlRead abi entries table kernel base bufTemp fuel fd ie arg types mem
              else if ie.access = iocW then
                ioctlWrite abi entries base bufTemp fuel arg types mem fun mem =>
                  let r := kernel fd ie.hostCmd (.ptr bufTemp) mem
                  some (getErrno table r, r.mem)
              else
                ioctlWrite abi entries base bufTemp fuel arg types mem
                  (ioctlRead abi entries table kernel base bufTemp fuel fd ie arg types)
          | _ => some (-targetENOSYS, mem)

end doIoctl

variable {abi : Abi} {entries : StructEntries} {decls : Decls} {types rest : List ℕ}
    {t : CType Prim} {p bufTemp base : BitVec 64} {mem mem' : ProcMem} {fuel : ℕ}

theorem span_mono {n k : ℕ} (h : n ≤ k) : span p n ⊆ span p k := fun _ ha => Nat.lt_of_lt_of_le ha h

section ioctl

variable {arg : ℕ}

end ioctl

end VexLLVM
