import DBSos.Ipc.Partners
import DBSos.Cap.Tenancy
import DBSos.Scheduler.Reaping
import DBSos.Syscall.ExitMagic
import DBSos.Net.Stream
import DBSos.Vfs.Bindings
import DBSos.Vfs.WriteChecks
import DBSos.Ext4.Handles
import DBSos.Users.Uids
import DBSos.Linux.Delivery
import DBSos.Linux.Slots
import DBSos.Linux.Dents
import DBSos.Elf.Contents
import DBSos.Syscall.DeviceMaps
import DBSos.Syscall.Receives
import DBSos.Wifi.Attempts
import DBSos.Netman.Book
import DBSos.Scheduler.Offspring
import DBSos.Syscall.SocketSlots
import DBSos.Syscall.UserPointers
import DBSos.Vm.Identity
import DBSos.Heap.Runs
import DBSos.Net.Leases
import DBSos.Ipc.FsAnswers
import DBSos.Nvme.Timely
import DBSos.Script.Runs
import DBSos.Cap.Sharing
import DBSos.Vfs.Rights
import DBSos.Vfs.TmpBytes
import DBSos.Fat.ShortNames
import DBSos.Fat.Failures
import DBSos.Fat.WriteBack
import DBSos.Scheduler.Tenants
import DBSos.Ext4.ExtentTree
import DBSos.Vfs.MountTable
import DBSos.Users.Additions
import DBSos.Syscall.Seeks
import DBSos.Net.HalfClosed
import DBSos.Linux.Growth
import DBSos.Linux.Positions
import DBSos.Net.Resolver
import DBSos.Net.Ingress
import DBSos.Ext4.Allocation
import DBSos.Ext4.Listing
import DBSos.Crypto.Sha256
import DBSos.Unix
import DBSos.Deb
import DBSos.Script.Nesting
import DBSos.Script.Words
import DBSos.Gfx.Presents
import DBSos.Iso.Contents
import DBSos.Wifi.Eapol
import DBSos.Input.Keyboard
import DBSos.Input.Mouse
import DBSos.Net.Chunks
