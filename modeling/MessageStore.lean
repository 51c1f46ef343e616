import MessageStore.Entry.Runs
import MessageStore.Writer.Receipts
import MessageStore.Writer.Rehearsed
import MessageStore.Storage.Handles
import MessageStore.Storage.Rehearsed
import MessageStore.Coordinator.Scenario
import MessageStore.Main
import MessageStore.Journal.Cursor
import MessageStore.Proofs.TableContract
import MessageStore.Proofs.DeliveryChronicle
import MessageStore.Proofs.SequencerOrder
import MessageStore.Proofs.SequencerRuns
import MessageStore.Proofs.DeliveryPositions
import MessageStore.Proofs.PendingProgress
import MessageStore.Proofs.DeliveryShares
import MessageStore.Proofs.RequestStanding
import MessageStore.Proofs.DeliveryStanding
import MessageStore.Proofs.DeliveryLedger
import MessageStore.Proofs.PhysicalWrites
import MessageStore.Proofs.DeliveryOutcomes
import MessageStore.Proofs.ReliableDelivery
import MessageStore.Proofs.CoordinatorMoves
import MessageStore.Proofs.CoordinatorElection
import MessageStore.Proofs.CoordinatorFifo
import MessageStore.Proofs.PublisherCalls
import MessageStore.Proofs.ConcurrentPublishing
import MessageStore.Proofs.JsonReadBack
import MessageStore.Proofs.EscapedText
import MessageStore.Proofs.EntryReadBack
import MessageStore.Proofs.JournalLines
import MessageStore.Proofs.TreeGrowth
import MessageStore.Proofs.JournalFile
import MessageStore.Proofs.JournalSession
import MessageStore.Proofs.JournalRoundTrip
import MessageStore.Proofs.TornText
import MessageStore.Proofs.PartialWrites
import MessageStore.Proofs.CoordinatorEvents
import MessageStore.Proofs.CallRecords
import MessageStore.Proofs.ClosingOrder
import MessageStore.Proofs.CoordinatorTickets
import MessageStore.Proofs.FlushStages
import MessageStore.Proofs.RequestAccounts
import MessageStore.Proofs.ClosingRuns
import MessageStore.Proofs.ClosingSafety
import MessageStore.Proofs.RequestPlaces
import MessageStore.Proofs.BatchTransparency
import MessageStore.Proofs.RecordEncoding
import MessageStore.Proofs.TopicText
import MessageStore.Proofs.JournalRepair
import MessageStore.Proofs.JournalKeeping
import MessageStore.Proofs.SessionPositions
import MessageStore.Proofs.JournalPairs
import MessageStore.Proofs.PublishOnce
import MessageStore.Proofs.PublishAndDump
import MessageStore.Proofs.FoundFiles
import MessageStore.Proofs.LongestPrefix
import MessageStore.Proofs.JournalCursor
import MessageStore.Proofs.RepairFaults
import MessageStore.Proofs.RepairedJournal
import MessageStore.Proofs.DeliverySettlement
import MessageStore.Proofs.JournalFrames
import MessageStore.Proofs.WriteFaults
import MessageStore.Proofs.PayloadsFirst
import MessageStore.Proofs.SourceHorizon
import MessageStore.Proofs.SourceDraws
import MessageStore.Proofs.SourcePolls
import MessageStore.Proofs.FlushSnapshot
import MessageStore.Proofs.MemoryLog
import MessageStore.Proofs.FairRuns
import MessageStore.Proofs.TimelyDelivery
import MessageStore.Proofs.TimelyPublishing
import MessageStore.Proofs.BenchPayloads
import MessageStore.Proofs.BenchAccounting
