import DemandPaging.Kernel.Run
import DemandPaging.Demo
import DemandPaging.Main
import DemandPaging.Proofs.Agreement
import DemandPaging.Proofs.Independence
import DemandPaging.Proofs.SlotAgreement
import DemandPaging.Proofs.PinnedPages
import DemandPaging.Proofs.DirtyTracking
import DemandPaging.Proofs.Progress
import DemandPaging.Proofs.Balance
import DemandPaging.Proofs.Exit
import DemandPaging.Proofs.FailedFault
import DemandPaging.Proofs.SlotHistory
import DemandPaging.Proofs.Transparency
import DemandPaging.Proofs.Unstopped
import DemandPaging.Proofs.Victim
import DemandPaging.Proofs.Words
import DemandPaging.Proofs.BitConservation
import DemandPaging.Proofs.PinBalance
import DemandPaging.Proofs.Retry
import DemandPaging.Proofs.CopyRange
import DemandPaging.Proofs.CopiedBytes
import DemandPaging.Proofs.WriteBack
import DemandPaging.Proofs.Admission
import DemandPaging.Proofs.FirstFit
import DemandPaging.Proofs.Bounds
import DemandPaging.Proofs.FlatMemory
import DemandPaging.Proofs.SectionPages
import DemandPaging.Proofs.SharedDirectory
import DemandPaging.Proofs.GrowableFile
import DemandPaging.Proofs.Overcount
