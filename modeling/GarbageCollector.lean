import GarbageCollector.Math.Overlay
import GarbageCollector.Machine.Foretell
import GarbageCollector.Proofs.Forecast
import GarbageCollector.Proofs.Places
import GarbageCollector.Math.CString
import GarbageCollector.Math.CountedList
import GarbageCollector.Proofs.CountedLists
import GarbageCollector.Soundness.ListRequests
import GarbageCollector.Model.Strings
import GarbageCollector.Soundness.DuplicatedStrings
import GarbageCollector.Soundness.HeaderKinds
import GarbageCollector.Soundness.Lifetimes
import GarbageCollector.Math.Ledger
import GarbageCollector.Model.Lifetime
import GarbageCollector.Math.Sliding
import GarbageCollector.Soundness.Compaction
import GarbageCollector.Proofs.ClosedLists
import GarbageCollector.Soundness.InsideMemory
import GarbageCollector.Proofs.StoreFaults
import GarbageCollector.Soundness.CollectionCycle
import GarbageCollector.Soundness.PassiveHalf
import GarbageCollector.Soundness.BumpPointer
import GarbageCollector.Math.PageBump
import GarbageCollector.Soundness.TableObservers
import GarbageCollector.Model.Scans
import GarbageCollector.Proofs.Scans
import GarbageCollector.Soundness.IteratorWalks
import GarbageCollector.Machine.Trace
import GarbageCollector.Math.Cursor
import GarbageCollector.Model.Iterator
import GarbageCollector.Soundness.Questions
import GarbageCollector.Soundness.Listing
import GarbageCollector.Proofs.CartKeys
import GarbageCollector.Soundness.Sessions
import GarbageCollector.Soundness.Scripts
import GarbageCollector.Machine.Outcome
import GarbageCollector.Proofs.Rounds
import GarbageCollector.Model.Command
import GarbageCollector.Proofs.Input
import GarbageCollector.Model.EventLoop
import GarbageCollector.Soundness.Accounting
import GarbageCollector.Soundness.Disjoint
import GarbageCollector.Soundness.Marking
import GarbageCollector.Soundness.Placement
import GarbageCollector.Soundness.ActiveSpace
import GarbageCollector.Soundness.BlockWords
import GarbageCollector.Soundness.FooterSearch
import GarbageCollector.Soundness.CollectAccounting
import GarbageCollector.Soundness.StaleMarks
import GarbageCollector.Soundness.Tracing
import GarbageCollector.Soundness.CollectAssertions
import GarbageCollector.Soundness.CopiedData
import GarbageCollector.Soundness.ForwardedRoots
import GarbageCollector.Soundness.ZeroedData
import GarbageCollector.Soundness.LayoutCodec
import GarbageCollector.Soundness.ListContents
import GarbageCollector.Soundness.TableContents
import GarbageCollector.Soundness.StockCovers
import GarbageCollector.Soundness.NullUnchanged
import GarbageCollector.Soundness.SpaceWalk
import GarbageCollector.Soundness.AcceptedLayouts
import GarbageCollector.Soundness.FormatGrammar
import GarbageCollector.Soundness.TrueSizes
import GarbageCollector.Soundness.ValidatedPointers
import GarbageCollector.Soundness.BootLayout
import GarbageCollector.Soundness.RootScan
import GarbageCollector.Soundness.Replenished
import GarbageCollector.Soundness.BitReversal
import GarbageCollector.Soundness.BitStrings
import GarbageCollector.Soundness.MarkedRange
import GarbageCollector.Soundness.HashIndex
import GarbageCollector.Soundness.BucketBlocks
import GarbageCollector.Soundness.DrainedStock
import GarbageCollector.Soundness.CartRequests
import GarbageCollector.Soundness.CartWrites
import GarbageCollector.Soundness.EditedMerchandise
import GarbageCollector.Soundness.CartCost
