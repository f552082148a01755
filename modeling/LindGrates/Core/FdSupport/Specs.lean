import Mathlib.Algebra.Ring.Nat

/-!
# Descriptor Positions of System Calls

## Main definitions

* `Sys`: The calls the default handlers serve, one for each row of `FD_HANDLER_TABLE`.
* `Sys.fdSpecs`: The table that says where the descriptors and flags of a call are.
-/

namespace LindGrates.FdSupport

inductive FdArgKind
  | fd
  | dirFd
  | oldFd
  | newFd
  | pipeFd
  | fcntlFd
  | sockPair
  | pollFd
  | epFd
  | selectFd
  | flag
  | creat
  deriving DecidableEq, Repr

/-- A call has arguments, so a literal names one of them. -/
instance neZero_args : NeZero 6 :=
  ⟨by decide⟩

structure FdArgSpec where
  index : Fin 6
  kind : FdArgKind
  deriving DecidableEq, Repr

def creation : List FdArgSpec :=
  [⟨0, .creat⟩]

def creationDirfd1Flag3 : List FdArgSpec :=
  [⟨0, .dirFd⟩, ⟨2, .flag⟩, ⟨0, .creat⟩]

def creationFlag1 : List FdArgSpec :=
  [⟨0, .flag⟩, ⟨0, .creat⟩]

def creationFlag2 : List FdArgSpec :=
  [⟨1, .flag⟩, ⟨0, .creat⟩]

def creationFd1 : List FdArgSpec :=
  [⟨0, .fd⟩, ⟨0, .creat⟩]

/-- `CREATION_FD_1_FLAG_4`, which has the flag at the fifth position. -/
def creationFd1Flag4 : List FdArgSpec :=
  [⟨4, .flag⟩, ⟨0, .fd⟩, ⟨0, .creat⟩]

def fdArg1 : List FdArgSpec :=
  [⟨0, .fd⟩]

def fdArg5 : List FdArgSpec :=
  [⟨4, .fd⟩]

def dirfdArg1 : List FdArgSpec :=
  [⟨0, .dirFd⟩]

def oldFd1NewFd2 : List FdArgSpec :=
  [⟨1, .newFd⟩, ⟨0, .oldFd⟩]

def oldFd1NewFd2Flag : List FdArgSpec :=
  [⟨1, .newFd⟩, ⟨0, .oldFd⟩, ⟨2, .flag⟩]

def fcntlFd1Flag2 : List FdArgSpec :=
  [⟨0, .fcntlFd⟩]

def sockpair : List FdArgSpec :=
  [⟨3, .sockPair⟩, ⟨1, .flag⟩]

def poll1 : List FdArgSpec :=
  [⟨0, .pollFd⟩]

def epoll1Fd3 : List FdArgSpec :=
  [⟨2, .epFd⟩, ⟨0, .fd⟩]

def pipeFd : List FdArgSpec :=
  [⟨0, .pipeFd⟩]

def pipeFdFlag : List FdArgSpec :=
  [⟨0, .pipeFd⟩, ⟨1, .flag⟩]

def selectFds : List FdArgSpec :=
  [⟨1, .selectFd⟩]

inductive Sys
  | read | preadv | write | pwritev | close | lseek | ioctl | fstat | fsync | fdatasync
  | ftruncate | flock | fchmod | fchdir | getdents | fstatfs | syncFileRange | pread | pwrite
  | readv | writev | mmap
  | bind | listen | connect | shutdown | sendto | recvfrom | sendmsg | recvmsg | setsockopt
  | getsockopt | getsockname | getpeername | epollWait
  | unlinkat | symlinkat | readlinkat | fchmodat
  | open | openat | dup | dup2 | dup3 | fcntl
  | accept | accept4 | socket | socketpair | epollCreate | epollCreate1
  | pipe | pipe2 | poll | ppoll | epollCtl | select
  deriving DecidableEq, Repr

/-- The table each handler is defined with. -/
def Sys.fdSpecs : Sys → List FdArgSpec
  | .read | .preadv | .write | .pwritev | .close | .lseek | .ioctl | .fstat | .fsync
  | .fdatasync | .ftruncate | .flock | .fchmod | .fchdir | .getdents | .fstatfs
  | .syncFileRange | .pread | .pwrite | .readv | .writev | .bind | .listen | .connect
  | .shutdown | .sendto | .recvfrom | .sendmsg | .recvmsg | .setsockopt | .getsockopt
  | .getsockname | .getpeername | .epollWait => fdArg1
  | .mmap => fdArg5
  | .unlinkat | .symlinkat | .readlinkat | .fchmodat => dirfdArg1
  | .open => creationFlag2
  | .openat => creationDirfd1Flag3
  | .dup => creationFd1
  | .dup2 => oldFd1NewFd2
  | .dup3 => oldFd1NewFd2Flag
  | .fcntl => fcntlFd1Flag2
  | .accept => creationFd1
  | .accept4 => creationFd1Flag4
  | .socket => creationFlag2
  | .socketpair => sockpair
  | .epollCreate => creation
  | .epollCreate1 => creationFlag1
  | .pipe => pipeFd
  | .pipe2 => pipeFdFlag
  | .poll | .ppoll => poll1
  | .epollCtl => epoll1Fd3
  | .select => selectFds

end LindGrates.FdSupport
