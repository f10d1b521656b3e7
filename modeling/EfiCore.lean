import EfiCore.Exec.Delivery
import EfiCore.Exec.Mtc
import EfiCore.Exec.Schedule
import EfiCore.Exec.Signal
import EfiCore.Hand.Calls
import EfiCore.Hand.DriverOrder
import EfiCore.Hand.Removal
import EfiCore.Hand.UninstallMultiple
import EfiCore.Mem.Services
import EfiCore.Mem.Partition
import EfiCore.Mem.Failure
import EfiCore.Mem.Highest
import EfiCore.Mem.MapKey
import EfiCore.Mem.Virtual
import EfiCore.Var.Rounds
import EfiCore.Disk.CatalogBounds
import EfiCore.Disk.GptChildren
import EfiCore.Disk.MbrBounds
import EfiCore.Disk.Partition
import EfiCore.Ebc.ByteAddressable
import EfiCore.Ebc.Calls
import EfiCore.Ebc.Index
import EfiCore.Dec.BadTables
import EfiCore.DevPath.Append
import EfiCore.Fat.EntryLaw
import EfiCore.Fat.FreeCount
import EfiCore.Fat.Freeing
import EfiCore.Fat.Position
import EfiCore.Fat.Transparent
import EfiCore.Ldr.Handoff
import EfiCore.Pe.Termination
import EfiCore.Rt.Crc
import EfiCore.Uni.CaseMap
import EfiCore.Uni.MetaiMatch
import EfiCore.Console.EfiKey
import EfiCore.Console.Tokeniser
import EfiCore.Console.Decoding
import EfiCore.Console.Input
import EfiCore.Console.Lock
import EfiCore.Console.LockGuard
import EfiCore.Console.UgaBlt
import EfiCore.Console.UgaDraw
import EfiCore.Console.UgaRun
import EfiCore.Lib.OnesSum
import EfiCore.Pci.ElementLaw
import EfiCore.Pxe.Fragments
import EfiCore.Pxe.Receive
import EfiCore.Pxe.RoundTrip
import EfiCore.Shell.BatchLine
import EfiCore.Lib.StopAndWait
import EfiCore.Pxe.Download
import EfiCore.Pxe.Upload
import EfiCore.Dec.BitReader
import EfiCore.Dec.MakeTable
import EfiCore.Enc.Frame
import EfiCore.Enc.Huffman
import EfiCore.Enc.HuffmanLengths
