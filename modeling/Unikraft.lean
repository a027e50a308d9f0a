import Unikraft.Alloc.Heap
import Unikraft.Buddy.Exact
import Unikraft.Cpio.Extract
import Unikraft.Fdtab.Linear
import Unikraft.Fdtab.References
import Unikraft.Futex.Requeue
import Unikraft.Libparam.Parser
import Unikraft.Lock.Contested
import Unikraft.Lwip.Netlink
import Unikraft.Plat.Tscclock
import Unikraft.Poll.Ppoll
import Unikraft.Process.Sends
import Unikraft.Sched.Exact
import Unikraft.Socket.Ports
import Unikraft.Timeconv.Calendar
import Unikraft.Timerfd.Timerfd
import Unikraft.Ukfile.Wakeup
import Unikraft.Ukfs.FileMap
import Unikraft.Ukmmap.Mmap
import Unikraft.Ukmpi.Fifo
import Unikraft.Uknetdev.Netbuf
import Unikraft.Uksparsebuf.Lookup
import Unikraft.Virtio.Net.Frames
import Unikraft.Virtio.Net.Wake
import Unikraft.Vmem.Map
import Unikraft.Vsock.HalfClose
import Unikraft.Vsock.Packets
import Unikraft.Vsock.Ready
import Unikraft.Vsock.Receive
import Unikraft.Vsock.Window
