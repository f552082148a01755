import LindGrates.Theory.Chroot.DirFds
import LindGrates.Theory.Chroot.Fork
import LindGrates.Theory.Chroot.Links
import LindGrates.Theory.FdSupport.Clean
import LindGrates.Theory.FdSupport.Cloexec
import LindGrates.Theory.FsClamp.Directory
import LindGrates.Theory.FsClamp.Fork
import LindGrates.Theory.FsClamp.Mappings
import LindGrates.Theory.FsClamp.Naming
import LindGrates.Theory.FsClamp.Nesting
import LindGrates.Theory.FsClamp.Rollback
import LindGrates.Theory.FsClamp.Wiring
import LindGrates.Theory.FsView
import LindGrates.Theory.Imfs.Arena
import LindGrates.Theory.Imfs.Atomic
import LindGrates.Theory.Imfs.Positions
import LindGrates.Theory.Imfs.Scanning
import LindGrates.Theory.Imfs.Slots
import LindGrates.Theory.Ipc.Addresses
import LindGrates.Theory.Ipc.Poll
import LindGrates.Theory.Ipc.Ports
import LindGrates.Theory.Ipc.Shutdown
import LindGrates.Theory.Launch
import LindGrates.Theory.Paths
import LindGrates.Theory.Resource.Config
import LindGrates.Theory.Resource.Ports
import LindGrates.Theory.Resource.Survival
import LindGrates.Theory.Witness
