import Sgopher.Lib.Simulation
import Sgopher.Lib.Heap
import Sgopher.Sepoll.SessionTheorems
import Sgopher.Sepoll.MapLoopTheorems
import Sgopher.Server.RequestTheorems
import Sgopher.Server.Invariant
import Sgopher.Server.InvariantTheorems
import Sgopher.Server.ClientTheorems
import Sgopher.Server.ReadableTheorems
import Sgopher.Server.SocketTheorems
import Sgopher.Server.ProcessTheorems
import Sgopher.Server.RunTheorems
import Sgopher.Server.OwnershipTheorems
import Sgopher.Server.ReplyTheorems
import Sgopher.Server.PhaseTheorems
import Sgopher.Server.ConfinementTheorems
import Sgopher.Main.Supervisor
import Sgopher.Main.MainTheorems
import Sgopher.Main.StopTheorems
import Sgopher.Server.BoundsTheorems
import Sgopher.Server.FramingTheorems
import Sgopher.Server.CgiTheorems
import Sgopher.Server.TransferTheorems
import Sgopher.Server.ReadingTheorems
import Sgopher.Server.AcceptTheorems
import Sgopher.Main.LedgerTheorems
import Sgopher.Gopherlist.Sbuffer
import Sgopher.Gopherlist.SbufferTheorems
import Sgopher.Gopherlist.StreamTheorems
import Sgopher.Gopherlist.Listing
import Sgopher.Gopherlist.ListingTheorems
import Sgopher.Gopherlist.FitTheorems
import Sgopher.Gopherlist.ServableTheorems
import Sgopher.Gopherlist.ParentTheorems
import Sgopher.Gopherlist.LinksTheorems
import Sgopher.Sepoll.BatchTheorems
import Sgopher.Server.Limits
import Sgopher.Tester.Smalloc
import Sgopher.Tester.MainTheorems
import Sgopher.Gopherlist.CompleteTheorems
import Sgopher.Lib.Ghost
import Sgopher.Sepoll.GhostTheorems
import Sgopher.Server.Traced
import Sgopher.Server.FootprintTheorems
import Sgopher.Server.SweepTheorems
import Sgopher.Server.AbandonTheorems
import Sgopher.Lib.Resolution
import Sgopher.Server.ExecTheorems
import Sgopher.Lib.Total
import Sgopher.Tester.ScoreTheorems
import Sgopher.Lib.Blocks
import Sgopher.Lib.Search
import Sgopher.Gopherlist.CountTheorems
import Sgopher.Server.KindTheorems
import Sgopher.Gopherlist.TypeTheorems
import Sgopher.Server.Setup
import Sgopher.Server.SetupTheorems
import Sgopher.Lib.Keeps
import Sgopher.Sepoll.KeepsTheorems
import Sgopher.Server.KeepsTheorems
import Sgopher.Lib.System
import Sgopher.Sepoll.CarryTheorems
import Sgopher.Main.WakeTheorems
import Sgopher.Main.ExitTheorems
import Sgopher.Server.ToldTheorems
import Sgopher.Service.Processes
import Sgopher.Service.ProcessesTheorems
import Sgopher.Tester.ReportTheorems
import Sgopher.Lib.FdTable
import Sgopher.Service.InheritTheorems
import Sgopher.Lib.Keyed
import Sgopher.Lib.Scan
