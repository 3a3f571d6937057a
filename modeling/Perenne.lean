import Perenne.AddressSpaces
import Perenne.Agreement
import Perenne.Appends
import Perenne.Asm
import Perenne.Badges
import Perenne.Bitmap
import Perenne.Blk
import Perenne.BlkBoard
import Perenne.Boot
import Perenne.Boots
import Perenne.Cage
import Perenne.Cap
import Perenne.Channel
import Perenne.Checksum
import Perenne.Confinement
import Perenne.Conservation
import Perenne.Containment
import Perenne.CounterLines
import Perenne.Counters
import Perenne.Datagram
import Perenne.Dealings
import Perenne.Digits
import Perenne.Dt
import Perenne.DtDevices
import Perenne.DtTokens
import Perenne.DtTotal
import Perenne.DtTree
import Perenne.Echo
import Perenne.Effect
import Perenne.Exchange
import Perenne.Extension
import Perenne.FileCounters
import Perenne.Files
import Perenne.FirstRun
import Perenne.Frame
import Perenne.Frontmatter
import Perenne.Fs
import Perenne.Grants
import Perenne.Heads
import Perenne.Heal
import Perenne.Healer
import Perenne.Identities
import Perenne.InPlace
import Perenne.Interrupts
import Perenne.Ipc
import Perenne.Kb
import Perenne.KernelCall
import Perenne.Kmain
import Perenne.Leases
import Perenne.Ledger
import Perenne.Lib.Bounds
import Perenne.Lib.Except
import Perenne.Lib.Loop
import Perenne.Lib.OnesComplement
import Perenne.Lib.Outcome
import Perenne.Lib.Play
import Perenne.Lib.Prog
import Perenne.Lib.Radix
import Perenne.Lib.Riscv
import Perenne.Lib.Transition
import Perenne.Lib.Virtqueue
import Perenne.LinearRuns
import Perenne.Linearity
import Perenne.Loader
import Perenne.Machine
import Perenne.Mapping
import Perenne.Memory
import Perenne.Messages
import Perenne.Minting
import Perenne.Mkfs
import Perenne.Net
import Perenne.Novelty
import Perenne.Organism
import Perenne.Overwrite
import Perenne.Paging
import Perenne.Parked
import Perenne.Persist
import Perenne.Plic
import Perenne.Polls
import Perenne.Pool
import Perenne.Preempt
import Perenne.Print
import Perenne.Progress
import Perenne.Provenance
import Perenne.Queries
import Perenne.Recognition
import Perenne.Recording
import Perenne.Recurrence
import Perenne.Rendezvous
import Perenne.Reply
import Perenne.Reports
import Perenne.Requests
import Perenne.Revocation
import Perenne.Rewrites
import Perenne.Rings
import Perenne.Rotation
import Perenne.RoundRobin
import Perenne.Scan
import Perenne.ScanSafety
import Perenne.Scheduler
import Perenne.Session
import Perenne.Sharing
import Perenne.Shell
import Perenne.Static
import Perenne.Steady
import Perenne.StepEffect
import Perenne.Str
import Perenne.Sweeps
import Perenne.Syscall
import Perenne.SyscallEffect
import Perenne.Tables
import Perenne.Tandem
import Perenne.Task
import Perenne.Trace
import Perenne.Tracking
import Perenne.TrapFrame
import Perenne.Unnoticed
import Perenne.Utf8
import Perenne.Views
import Perenne.Virtio
import Perenne.Volume
import Perenne.Waiting
import Perenne.Walk
import Perenne.Wire
import Perenne.WriteBack
