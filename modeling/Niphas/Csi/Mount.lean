import Niphas.Lib.Prog
import Niphas.Lib.Str

/-!
# Mount operations

`mount.rs`: the trait `MountOps` as a record of programs, and its implementation `RealMountOps` by
system calls.

The handlers of the node service are generic over `MountOps`, and so are their models: they can be
run over the operations of the trait, each of them one step, or over the system calls of
`RealMountOps`, of which `bind_mount_readonly` takes up to three.  Which of the two is right depends
on what is to be shown.  A race between two calls shows at the level of the trait (`TargetMounts`);
that a mount may be left without its flags shows only at the level of the system calls
(`ReadOnlyMounts`).

Nothing is said here about what a system call does.  Paths and flags are passed on as they are in
the source, in the same order, and an error is the text it displays.
-/

namespace Niphas

/-- `MountOps`, over any interface.  An error of `std::io` is the text it displays. -/
structure MountOps (I : Interface) where
  isMountpoint : String → Prog I Bool
  setupTargetDir : String → Prog I (Except String Unit)
  bindMountReadonly : String → String → Prog I (Except String Unit)
  unmount : String → Prog I (Except String Unit)
  cleanupTarget : String → Prog I (Except String Unit)

/-! ## System calls -/

/-- `MS_RDONLY`. -/
def msRdonly : ℕ := 1

/-- `MS_NOSUID`. -/
def msNosuid : ℕ := 2

/-- `MS_NODEV`. -/
def msNodev : ℕ := 4

/-- `MS_REMOUNT`. -/
def msRemount : ℕ := 32

/-- `MS_BIND`. -/
def msBind : ℕ := 4096

/-- The flags of the second `mount` call. -/
def remountFlags : ℕ := msBind ||| msRemount ||| msRdonly ||| msNosuid ||| msNodev

/-- `MNT_DETACH`. -/
def mntDetach : ℕ := 2

/-- What `RealMountOps` calls, and the cache next to it.  `probe` is the pair of
`read_to_string("/proc/self/mountinfo")` and `canonicalize`; it answers nothing when one of them
fails. -/
inductive SysOp where
  | probe (path : String)
  | «exists» (path : String)
  | createDirAll (path : String)
  | removeDir (path : String)
  | mount (source : Option String) (target : String) (fstype : Option String) (flags : ℕ)
  | umount2 (target : String) (flags : ℕ)
  | ensureCached (closurePaths : List String)

/-- The interface of the system calls.  Of a failed fetch only its text is seen; `none` is a
panic. -/
abbrev sysInterface : Interface where
  Op := SysOp
  Answer
    | .probe _ => Option (String × String)
    | .exists _ => Bool
    | .createDirAll _ => Except String Unit
    | .removeDir _ => Except String Unit
    | .mount _ _ _ _ => Except String Unit
    | .umount2 _ _ => Except String Unit
    | .ensureCached _ => Except (Option String) Unit

/-- One system call and its answer. -/
def sysOp (o : SysOp) : Prog sysInterface (sysInterface.Answer o) := Prog.op (I := sysInterface) o

/-! ## `RealMountOps` -/

namespace RealMountOps

/-- Whether the text of `mountinfo` has a line whose fifth field is `canonical`. -/
def isMountpointIn (content canonical : String) : Bool :=
  (Str.lines content).any fun line => (Str.splitWhitespace line)[4]? = some canonical

/-- `is_mountpoint`. -/
def isMountpoint (path : String) : Prog sysInterface Bool := do
  match ← sysOp (.probe path) with
  | none => return false
  | some (content, canonical) => return isMountpointIn content canonical

/-- `setup_target_dir`. -/
def setupTargetDir (path : String) : Prog sysInterface (Except String Unit) := do
  if ← sysOp (.exists path) then return .ok ()
  else sysOp (.createDirAll path)

/-- `CString::new`: its error, for a string with a NUL in it. -/
@[irreducible] def nulError (s : String) : Option String :=
  if '\x00' ∈ s.toList then
    some ("nul byte found in provided data at position: " ++ Nat.repr ((Bytes.utf8 s).idxOf 0))
  else none

/-- `unmount`. -/
def unmount (target : String) : Prog sysInterface (Except String Unit) :=
  match nulError target with
  | some e => return .error e
  | none => sysOp (.umount2 target mntDetach)

/-- What `bind_mount_readonly` does when the remount failed with `e`.  The error it returns is the
last one, which is that of `unmount` if that fails too. -/
def undoBind (target e : String) : Prog sysInterface (Except String Unit) := do
  match ← unmount target with
  | .ok () => return .error e
  | .error e' => return .error e'

/-- `bind_mount_readonly`. -/
def bindMountReadonly (source target : String) : Prog sysInterface (Except String Unit) :=
  match nulError source, nulError target with
  | some e, _ => return .error e
  | none, some e => return .error e
  | none, none => do
      match ← sysOp (.mount (some source) target (some "none") msBind) with
      | .error e => return .error e
      | .ok () =>
          match ← sysOp (.mount none target none remountFlags) with
          | .error e => undoBind target e
          | .ok () => return .ok ()

/-- `cleanup_target`. -/
def cleanupTarget (target : String) : Prog sysInterface (Except String Unit) := do
  if ← sysOp (.exists target) then sysOp (.removeDir target)
  else return .ok ()

end RealMountOps

/-- `RealMountOps`. -/
def realMountOps : MountOps sysInterface where
  isMountpoint := RealMountOps.isMountpoint
  setupTargetDir := RealMountOps.setupTargetDir
  bindMountReadonly := RealMountOps.bindMountReadonly
  unmount := RealMountOps.unmount
  cleanupTarget := RealMountOps.cleanupTarget

end Niphas
