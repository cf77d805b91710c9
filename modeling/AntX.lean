import AntX.Mm.VmaBacking
import AntX.Mm.PmmAccounting
import AntX.Mm.SlabRun
import AntX.Mm.PageFaultProtection
import AntX.Mm.PageCacheRun
import AntX.Mm.ForkIsolation
import AntX.Mm.FreeRange
import AntX.Mm.ReclaimRun
import AntX.Proc.Seccomp
import AntX.Credo.Session
import AntX.Credo.Grants
import AntX.Bpf.Text
import AntX.Credo.Audit
import AntX.Syscall.Futex
import AntX.Proc.DlAdmission
import AntX.Proc.SchedRun
import AntX.Proc.ThreadRun
import AntX.Net.UnixCreds
import AntX.Sync.PiMutex
import AntX.Barrier.UndoLog
import AntX.Fs.Flock
import AntX.Fs.PosixLock
import AntX.Timer.HrTimer
import AntX.Hvfs.MetadataDir
import AntX.Hvfs.FileContents
import AntX.Hvfs.Remount
import AntX.Hvfs.RaidzRebuild
import AntX.Hvfs.ArcRuns
import AntX.Hvfs.ZilPersist
import AntX.Hvfs.Dedup
import AntX.Ramfs.FileRuns
import AntX.Ipc.PipeQueue
import AntX.Ipc.PipeDescriptors
import AntX.Vfs.Mounts
import AntX.Exfat.FileIo
import AntX.Ramfs.Link
import AntX.Vfs.DCache
import AntX.Ext2.InodeStore
import AntX.Wasm.Interpreter
import AntX.Net.Route
import AntX.Proc.Cgroup
import AntX.Io.IoUring
