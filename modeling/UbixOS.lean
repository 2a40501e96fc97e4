import UbixOS.Ubfs.Dsl
import UbixOS.Kern.Kmalloc
import UbixOS.Vfs.BcacheCoherence
import UbixOS.Vmm.Contig
import UbixOS.Vmm.Fork
import UbixOS.Vmm.Uregion
import UbixOS.Vmm.MapRuns
import UbixOS.Sched.Wait
import UbixOS.Kern.Elf64Same
import UbixOS.Sched.Wait4
import UbixOS.Posix.Sigreturn
import UbixOS.Posix.SigForce
import UbixOS.Posix.SigStop
import UbixOS.Posix.DescripCalls
import UbixOS.Vmm.ShmapReach
import UbixOS.Pkg.Lock
import UbixOS.Pkg.Owners
import UbixOS.Posix.Pty
import UbixOS.Posix.Tty
import UbixOS.Aural.Mixer
import UbixOS.Views.Buffers
import UbixOS.Fat.Read
import UbixOS.Ubfs.Extent
import UbixOS.Posix.SigWait
import UbixOS.Mpi.Names
import UbixOS.Pkg.Time
import UbixOS.Pkg.Versions
import UbixOS.Vfs.Position
import UbixOS.Posix.Dup2
import UbixOS.Views.Stacking
