import Nachos.Synch
import Nachos.Kernel
import Nachos.KernelInvariant
import Nachos.KernelHistory
import Nachos.KernelWaits
import Nachos.KernelCalls
import Nachos.Library.Handover
import Nachos.KernelTurns
import Nachos.Library.Monitor
import Nachos.Library.Tally
import Nachos.Library.Turnstile
import Nachos.Library.Trace
import Nachos.Library.Rendezvous
import Nachos.Machine
import Nachos.Blocked
import Nachos.Hospital.Data
import Nachos.Hospital.Roles
import Nachos.Hospital.Program
import Nachos.Hospital.LockOrder
import Nachos.Hospital.Stations
import Nachos.Hospital.Faults
import Nachos.Hospital.Reception
import Nachos.Hospital.ReceptionRuns
import Nachos.Hospital.Clinic
import Nachos.Hospital.ClinicDesks
import Nachos.Hospital.ClinicRooms
import Nachos.Hospital.ClinicRuns
import Nachos.Hospital.Assignments
import Nachos.Hospital.Counter
import Nachos.Hospital.CounterDesks
import Nachos.Hospital.CounterBooks
import Nachos.Hospital.CounterRuns
import Nachos.Hospital.Cashiers
import Nachos.Hospital.Pharmacy
import Nachos.Hospital.DeskClaims
import Nachos.Hospital.Diagnoses
import Nachos.Hospital.Departures
import Nachos.Hospital.Standstill
import Nachos.Hospital.ManagerPass
import Nachos.Library.Agenda
import Nachos.Interrupts
import Nachos.InterruptRuns
import Nachos.InterruptTies
import Nachos.Semaphores
import Nachos.ConsoleInput
import Nachos.ConsoleTest
import Nachos.SynchList
import Nachos.Library.Chain
import Nachos.PointerList
import Nachos.SynchDisk
import Nachos.Cpu
import Nachos.CpuLevels
import Nachos.CpuThreads
import Nachos.CpuQueues
import Nachos.CpuFinish
import Nachos.CpuKernel
import Nachos.CpuAtomic
import Nachos.CpuExclusion
import Nachos.Library.Completion
import Nachos.Library.Transcript
import Nachos.SynchConsole
import Nachos.ConsoleLines
import Nachos.PostOffice
import Nachos.MailBoxes
import Nachos.PostOfficeSends
import Nachos.PostOfficeRuns
import Nachos.PostOfficeLosses
import Nachos.PostOfficeRest
import Nachos.NetTest
import Nachos.Library.Blocks
import Nachos.Wire
import Nachos.BitMap
import Nachos.Library.Simulation
import Nachos.BitMapRuns
import Nachos.Library.Atomic
import Nachos.Table
import Nachos.TableRuns
import Nachos.Syscalls
import Nachos.Mips.Memory
import Nachos.Mips.Instruction
import Nachos.Mips.Aborts
import Nachos.Mips.Delay
import Nachos.Mips.Interrupted
import Nachos.Mips.Arithmetic
import Nachos.Mips.Multiply
import Nachos.Mips.AddrSpace
import Nachos.Mips.Precise
import Nachos.Mips.RegisterFile
import Nachos.Mips.Translation
import Nachos.Mips.Bytes
import Nachos.Mips.Stores
import Nachos.FileSys.Disk
import Nachos.Library.Signed
import Nachos.DiskLatency
import Nachos.DiskBuffer
import Nachos.FileSys.OpenFile
import Nachos.FileSys.Directory
import Nachos.FileSys.DirectoryRuns
import Nachos.Library.Allotment
import Nachos.FileSys.FreeMap
import Nachos.FileSys.FileSystem
import Nachos.FileSys.Layout
import Nachos.FileSys.Runs
import Nachos.FileSys.Sectors
import Nachos.FileSys.Isolation
import Nachos.FileSys.Ranges
import Nachos.FileSys.Creation
import Nachos.Library.Loop
import Nachos.Copyin
import Nachos.Library.Tiling
import Nachos.Coff
import Nachos.Image
import Nachos.FileSys.Volume
import Nachos.FileSys.Sessions
import Nachos.FileSys.Transfers
